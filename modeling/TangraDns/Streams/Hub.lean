/-
  The hub (package `stream`, file `hub.go`): it fans the stream of each tenant out to
  the open subscriptions of the tenant's users.

  The hub is a machine.  What the code does under one lock is one step: the part of
  `Subscribe` under the hub's mutex, a push under the subscription's, a `Close` under
  both, the snapshot of the subscribers an entry goes to; everything else may happen
  in between.  Map iteration has no order, so the dispatcher pushes to any of the
  subscriptions that are left.  `pos`, `first`, `since`, `known` and `reset` are what
  the statements speak about; the code keeps none of them.
-/
import Mathlib.Data.List.AList
import TangraDns.Prog.Machine
import TangraDns.Streams.Bus

namespace TangraDns.Streams

open Str

/-! ## Configuration and events -/

structure Config where
  replayWindow : ℤ
  streamsPerUser : ℤ
  streamsPerTenant : ℤ
  maxLen : ℤ

/-- The configuration `NewHub` works with; the window is in milliseconds. -/
def Config.effective (c : Config) : Config where
  replayWindow := if c.replayWindow ≤ 0 then 300000 else c.replayWindow
  streamsPerUser := if c.streamsPerUser ≤ 0 then 5 else c.streamsPerUser
  streamsPerTenant := if c.streamsPerTenant ≤ 0 then 2000 else c.streamsPerTenant
  maxLen := if c.maxLen ≤ 0 then 10000 else c.maxLen

structure Event where
  id : Str
  type : Str
  data : Str
deriving DecidableEq

def Entry.event (e : Entry) : Event := ⟨e.id, e.fields (str "type"), e.fields (str "data")⟩

def targets (recipients user : Str) : Bool :=
  recipients == str "*" || (Str.split 44 recipients).contains user

def Entry.isFor (user : Str) (e : Entry) : Bool := targets (e.fields (str "to")) user

/-- A call of `PublishID`; `json` is whether the data is valid JSON, `now` its time in
    milliseconds. -/
structure Publish where
  users : List Str
  all : Bool
  type : Str
  data : Str
  json : Bool
  ofModule : Bool
  now : ℕ

inductive PublishError where
  | type | reserved | targets | payload
deriving DecidableEq

def reserved : List Str := [str "issued", str "renewed", str "revoked", str "reset", str "bye"]

def typeByte (b : UInt8) : Bool :=
  (97 ≤ b && b ≤ 122) || (48 ≤ b && b ≤ 57) || b == 46 || b == 95 || b == 45

def validType (typ : Str) : Bool :=
  match typ with
  | [] => false
  | b :: s => (97 ≤ b && b ≤ 122) && s.all typeByte && s.length ≤ 63

def Publish.fields (p : Publish) : Except PublishError (Str → Str) :=
  if !validType p.type then .error .type
  else if p.ofModule && reserved.contains p.type then .error .reserved
  else if p.all = !p.users.isEmpty ∨ p.users.length > 1000 then .error .targets
  else if p.data.length > 16384 ∨ p.json = false ∨ p.data.any (fun b => b == 10 || b == 13)
    then .error .payload
  else if !p.all && p.users.any (fun u => u.isEmpty || u.any fun b => b == 44 || b == 32 || b == 10)
    then .error .targets
  else .ok fun k =>
    if k = str "to" then (if p.all then str "*" else Str.join 44 p.users)
    else if k = str "type" then p.type
    else if k = str "data" then p.data
    else if k = str "at" then Addr.itoa p.now
    else []

/-! ## Subscriptions -/

/-- Where `Subscribe` stands after it has opened the subscription. -/
inductive Replay where
  | asking
  | pushing (rest : List Entry)
  | done

structure Sub where
  tenant : Str
  user : Str
  lastID : Str
  /-- the highest id delivered -/
  last : Str
  once : Bool
  closed : Bool
  chanClosed : Bool
  /-- a second close of the channel, or a send after it was closed -/
  panicked : Bool
  queue : List Event
  received : List Event
  replay : Replay
  /-- a reset event was queued -/
  reset : Bool
  /-- how far the tenant's loop was, and how long the stream, when the subscription was opened -/
  first : ℕ
  since : ℕ
  /-- how long the stream was when it was read for the replay -/
  known : ℕ

namespace Sub

variable (s : Sub)

/-- What was put into the channel. -/
def delivered : List Event := s.received ++ s.queue

def drops (ev : Event) : Bool := s.closed || (ev.id ≠ [] && s.last ≠ [] && !less s.last ev.id)

/-- An event is queued, unless it was already delivered or the buffer is full; `false` when it is
    full. -/
def push (ev : Event) : Sub × Bool :=
  if s.drops ev then (s, true) else
  let s := if ev.id ≠ [] then { s with last := ev.id } else s
  if s.chanClosed then ({ s with panicked := true }, true)
  else if s.queue.length < 32 then ({ s with queue := s.queue ++ [ev] }, true)
  else (s, false)

def shut : Sub :=
  { s with once := true, closed := true, panicked := s.panicked ||
    s.chanClosed, chanClosed := true }

end Sub

/-! ## The hub -/

/-- Where the loop of a tenant stands. -/
inductive LoopPc where
  | waiting
  | batch (rest : List Entry)
  /-- an entry still goes to `subs` -/
  | pushing (e : Entry) (subs : List ℕ) (rest : List Entry)
  /-- `sub` stalled and is about to be closed -/
  | closing (sub : ℕ) (e : Entry) (subs : List ℕ) (rest : List Entry)
  | stopped

structure TenantSub where
  tenant : Str
  conns : List ℕ
  byUser : AList fun _ : Str => ℕ
  cancelled : Bool
  last : Str
  pc : LoopPc
  /-- how many entries of the stream the loop has passed -/
  pos : ℕ

/-- Where a call of the hub's `Close` stands. -/
inductive CloserPc where
  | idle
  | cancelled
  | closing (subs : List ℕ)
  | returned

structure Hub where
  bus : Bus
  ctxDone : Bool
  tenants : Str → Option ℕ
  objs : ℕ → TenantSub
  nobjs : ℕ
  subs : ℕ → Sub
  nsubs : ℕ
  closers : ℕ → CloserPc

/-- What happens next; `o` is a tenant's loop, `i` a subscription, `c` a call of the hub's
    `Close`. -/
inductive Step where
  | append (key : Str) (e : Entry)
  | publish (tenant : Str) (p : Publish) (id : Str)
  | trim (key : Str) (n : ℕ)
  | subscribe (tenant user lastID : Str) (ok : Bool)
  | replay (i : ℕ) (now : ℤ) (ok : Bool)
  | replayPush (i : ℕ)
  | receive (i : ℕ)
  | close (i : ℕ)
  | read (o : ℕ) (n : Option ℕ)
  | stop (o : ℕ)
  | next (o : ℕ)
  | push (o i : ℕ)
  | drop (o : ℕ)
  | hubCancel (c : ℕ)
  | hubCollect (c : ℕ)
  | hubClose (c i : ℕ)
  | hubReturn (c : ℕ)

namespace Hub

variable (cfg : Config) (h : Hub)

def setSub (i : ℕ) (s : Sub) : Hub := { h with subs := Function.update h.subs i s }

def setObj (o : ℕ) (t : TenantSub) : Hub := { h with objs := Function.update h.objs o t }

def goto (o : ℕ) (pc : LoopPc) : Hub := h.setObj o { h.objs o with pc := pc }

def loopDone (o : ℕ) : Bool := h.ctxDone || (h.objs o).cancelled

def remove (t : TenantSub) (i : ℕ) (user : Str) : TenantSub :=
  let n := (t.byUser.lookup user).getD 0 - 1
  { t with conns := t.conns.erase i, byUser := if n = 0 then t.byUser.erase user
    else t.byUser.insert user n }

def closeSub (i : ℕ) : Hub :=
  let s := h.subs i
  if s.once then h else
  let subs := Function.update h.subs i s.shut
  match h.tenants s.tenant with
  | none => { h with subs := subs }
  | some o =>
    let t := remove (h.objs o) i s.user
    if t.conns = [] then
      { h with
        subs := subs
        objs := Function.update h.objs o { t with cancelled := true }
        tenants := Function.update h.tenants s.tenant none }
    else { h with subs := subs, objs := Function.update h.objs o t }

/-- The tenant's entry, made if there is none: its loop starts after the current tail. -/
def tenantSub (tenant : Str) : Hub × ℕ :=
  match h.tenants tenant with
  | some o => (h, o)
  | none =>
    ({ h with
        tenants := Function.update h.tenants tenant (some h.nobjs)
        objs := Function.update h.objs h.nobjs
          ⟨tenant, [], ∅, false, h.bus.tail (key tenant), .waiting, (h.bus.log (key tenant)).length⟩
        nobjs := h.nobjs + 1 },
      h.nobjs)

def subscribe (tenant user lastID : Str) (ok : Bool) : Hub :=
  if h.ctxDone ∨ (h.tenants tenant = none ∧ ok = false) then h else
  let (h, o) := h.tenantSub tenant
  let t := h.objs o
  let n := (t.byUser.lookup user).getD 0
  if cfg.effective.streamsPerUser ≤ n ∨ cfg.effective.streamsPerTenant ≤ t.conns.length then h else
  { h.setObj o { t with conns := t.conns ++ [h.nsubs], byUser := t.byUser.insert user (n + 1) } with
    subs := Function.update h.subs h.nsubs
      ⟨tenant, user, lastID, [], false, false, false, false, [], [], if lastID = [] then .done
        else .asking,
        false, t.pos, (h.bus.log (key tenant)).length, 0⟩
    nsubs := h.nsubs + 1 }

def resetSub (i : ℕ) (data : Str) : Hub :=
  let s := h.subs i
  let ev : Event := ⟨[], str "reset", data⟩
  h.setSub i { (s.push ev).1 with replay := .done, reset := s.reset ||
    (!s.closed && s.queue.length < 32) }

def replay (i : ℕ) (now : ℤ) (ok : Bool) : Hub :=
  let s := h.subs i
  let (ms, _, valid) := parseID s.lastID
  if !valid || ms < now - cfg.effective.replayWindow then h.resetSub i
    (str "\x7b\"reason\":\"replay_window\"\x7d")
  else if !ok then h.resetSub i (str "\x7b\"reason\":\"replay_unavailable\"\x7d")
  else
    let entries := (h.bus.after (key s.tenant) s.lastID).take cfg.effective.maxLen.toNat
    h.setSub i { s with replay := .pushing entries, known := (h.bus.log (key s.tenant)).length }

def conns : List ℕ := (List.range h.nsubs).filter fun i =>
  match h.tenants (h.subs i).tenant with
  | some o => (h.objs o).conns.contains i
  | none => false

def step : Step → Option Hub
  | .append key e => if hf : h.bus.Fresh key e.id then some { h with bus := h.bus.xAdd key e hf }
      else none
  | .publish tenant p id =>
    match p.fields with
    | .error _ => some h
    | .ok fields =>
      if hf : h.bus.Fresh (key tenant) id
        then some { h with bus := h.bus.xAdd (key tenant) ⟨id, fields⟩ hf } else none
  | .trim key n =>
    if hn : h.bus.gone key + n ≤ (h.bus.log key).length
      then some { h with bus := h.bus.trim key n hn } else none
  | .subscribe tenant user lastID ok => some (h.subscribe cfg tenant user lastID ok)
  | .replay i now ok =>
    match (h.subs i).replay with
    | .asking => if i < h.nsubs then some (h.replay cfg i now ok) else none
    | _ => none
  | .replayPush i =>
    if i < h.nsubs then
      match (h.subs i).replay with
      | .pushing [] => some (h.setSub i { h.subs i with replay := .done })
      | .pushing (e :: rest) =>
        -- whether the buffer was full is not looked at
        let s := if e.isFor (h.subs i).user then ((h.subs i).push e.event).1 else h.subs i
        some (h.setSub i { s with replay := .pushing rest })
      | _ => none
    else none
  | .receive i =>
    match (h.subs i).queue with
    | ev :: q =>
      if i < h.nsubs then
        some (h.setSub i { h.subs i with queue := q, received := (h.subs i).received ++ [ev] })
      else none
    | [] => none
  | .close i => if i < h.nsubs then some (h.closeSub i) else none
  | .read o n =>
    match (h.objs o).pc with
    | .waiting =>
      if o < h.nobjs then
        match n with
        | none => some (h.goto o (if h.loopDone o then .stopped else .waiting))
        | some n =>
          let t := h.objs o
          if n ≤ 100 then
            some (h.setObj o { t with
              pc := .batch ((h.bus.after (key t.tenant) t.last).take n)
              pos := max t.pos (h.bus.gone (key t.tenant)) })
          else none
      else none
    | _ => none
  | .stop o =>
    match (h.objs o).pc with
    | .waiting => if o < h.nobjs ∧ h.loopDone o then some (h.goto o .stopped) else none
    | _ => none
  | .next o =>
    match (h.objs o).pc with
    | .batch [] => some (h.goto o .waiting)
    | .batch (e :: rest) =>
      let t := h.objs o
      some (h.setObj o { t with
        last := e.id
        pc := .pushing e (t.conns.filter fun i => e.isFor (h.subs i).user) rest
        pos := t.pos + 1 })
    | .pushing _ [] rest => some (h.goto o (.batch rest))
    | _ => none
  | .push o i =>
    match (h.objs o).pc with
    | .pushing e subs rest =>
      if i ∈ subs then
        let (s, sent) := (h.subs i).push e.event
        some ((h.setSub i s).goto o
          (if sent then .pushing e (subs.erase i) rest else .closing i e (subs.erase i) rest))
      else none
    | _ => none
  | .drop o =>
    match (h.objs o).pc with
    | .closing i e subs rest => some ((h.closeSub i).goto o (.pushing e subs rest))
    | _ => none
  | .hubCancel c =>
    match h.closers c with
    | .idle => some { h with ctxDone := true, closers := Function.update h.closers c .cancelled }
    | _ => none
  | .hubCollect c =>
    match h.closers c with
    | .cancelled => some { h with closers := Function.update h.closers c (.closing h.conns) }
    | _ => none
  | .hubClose c i =>
    match h.closers c with
    | .closing subs =>
      if i ∈ subs then
        some { h.closeSub i with closers := Function.update h.closers c (.closing (subs.erase i)) }
      else none
    | _ => none
  | .hubReturn c =>
    match h.closers c with
    | .closing [] =>
      if (List.range h.nobjs).all fun o => match (h.objs o).pc with | .stopped => true | _ => false
        then
        some { h with closers := Function.update h.closers c .returned }
      else none
    | _ => none

/-- A hub without subscriptions; the loops and subscriptions are made by the steps. -/
def new (bus : Bus) : Hub :=
  ⟨bus, false, fun _ => none, fun _ => ⟨[], [], ∅, true, [], .stopped, 0⟩, 0,
    fun _ => ⟨[], [], [], [], true, true, true, false, [], [], .done, false, 0, 0, 0⟩, 0, fun _ =>
      .idle⟩

end Hub

end TangraDns.Streams
