/-
  The audit log (package `audit`): events of a closed vocabulary become rows that
  a background writer passes to the store.

  The writer is a machine: callers and the writer's goroutine take steps in any
  order, each critical section under the mutex and each channel operation one
  step.  `accepted` and `stored` are what the statements speak about; the code
  keeps neither.
-/
import TangraDns.Prog.Machine
import TangraDns.Text.Unicode

namespace TangraDns.Audit

open Str

/-! ## Events and rows -/

/-- A value of the details of an event; `other` is a value of any other type, which nothing looks
    into. -/
inductive Value where
  | str (s : Str)
  | map (entries : List (Str × Value))
  | list (vs : List Value)
  | int (n : ℤ)
  | bool (b : Bool)
  | null
  | other (code : ℕ)

abbrev Details := List (Str × Value)

structure Event where
  tenantID : Str
  eventType : Str
  actorKind : Str
  actorID : Str
  subjectKind : Str
  subjectID : Str
  outcome : Str
  reason : Str
  details : Details

structure Row where
  id : Str
  tenantID : Str
  time : ℕ
  actorKind : Str
  actorID : Str
  action : Str
  subjectKind : Str
  subjectID : Str
  outcome : Str
  reason : Str
  detail : Details

/-- The zero value, which a receive from a closed and empty queue gives. -/
def Row.zero : Row := ⟨[], [], 0, [], [], [], [], [], [], [], []⟩

def vocabulary : List Str :=
  [str "zone.create", str "zone.update", str "zone.delete", str "zone.export", str "zone.notify",
    str "record.upsert", str "record.delete", str "template.create", str "template.update",
    str "template.delete", str "supermaster.create", str "supermaster.delete", str "config.update",
    str "config.apply", str "config.restart", str "sync.upsert", str "sync.delete", str "sync.skip",
    str "challenge.present", str "challenge.cleanup", str "challenge.refused",
      str "challenge.swept",
    str "backup.export", str "backup.import", str "access.refused"]

def actorKinds : List Str := [str "user", str "module", str "ipam-sync", str "system"]

def subjectKinds : List Str :=
  [str "zone", str "record", str "template", str "supermaster", str "config",
    str "container", str "sync",
    str "challenge", str "backup", str "system"]

def outcomes : List Str := [str "ok", str "refused", str "error"]

inductive Invalid where
  | eventType (t : Str)
  | tenantRequired
  | actorKind (k : Str)
  | subjectKind (k : Str)
  | outcome (o : Str)
deriving DecidableEq, Repr

def validate (e : Event) : Except Invalid Unit :=
  if e.eventType ∉ vocabulary then .error (.eventType e.eventType)
  else if e.tenantID = [] then .error .tenantRequired
  else if e.actorKind ∉ actorKinds then .error (.actorKind e.actorKind)
  else if e.subjectKind ∉ subjectKinds then .error (.subjectKind e.subjectKind)
  else if e.outcome ∉ outcomes then .error (.outcome e.outcome)
  else .ok ()

def forbidden : List Str :=
  [str "api_key", str "apikey", str "x-api-key", str "password", str "token", str "secret",
    str "credential", str "authorization", str "content", str "value", str "rdata",
      str "record_data",
    str "file", str "rendered", str "body"]

variable (U : CaseTables)

def forbiddenKey (k : Str) : Bool := forbidden.any fun f => Str.Contains (toLower U k) f

def truncate (s : Str) : Str := s.take 256

mutual
/-- Drops forbidden keys and truncates strings, at any depth. -/
def guardValue : Value → Value
  | .str s => .str (truncate s)
  | .map m => .map (guardMap m)
  | .list vs => .list (guardList vs)
  | .int n => .int n
  | .bool b => .bool b
  | .null => .null
  | .other c => .other c

def guardMap : List (Str × Value) → List (Str × Value)
  | [] => []
  | (k, v) :: m => if forbiddenKey U k then guardMap m else (k, guardValue v) :: guardMap m

def guardList : List Value → List Value
  | [] => []
  | v :: vs => guardValue v :: guardList vs
end

def rowOf (e : Event) (id : Str) (now : ℕ) : Row :=
  ⟨id, e.tenantID, now, e.actorKind, e.actorID, e.eventType, e.subjectKind, e.subjectID, e.outcome,
    truncate e.reason, guardMap U e.details⟩

/-! ## The writer -/

/-- Where the writer's goroutine is; `flush` is the flush it works for, if any. -/
inductive Pc where
  | select
  | writing (r : Row) (flush : Option ℕ)
  | draining (flush : ℕ)
  | stopped

/-- Where a call of `Flush` is. -/
inductive FlushPc where
  | idle | sending | waiting | released | returned
deriving DecidableEq, Repr

/-- Where a call of `Close` is. -/
inductive ClosePc where
  | idle | waiting | returned
deriving DecidableEq, Repr

/-- The writer with its callers, who are numbered. -/
structure Writer where
  queue : List Row
  closed : Bool
  dropped : ℕ
  pc : Pc
  flushes : ℕ → FlushPc
  closes : ℕ → ClosePc
  accepted : List Row
  stored : List Row

def Writer.new : Writer := ⟨[], false, 0, .select, fun _ => .idle, fun _ => .idle, [], []⟩

/-- The steps; `record` and `hand` carry the id and the time the row gets. -/
inductive Step where
  | record (e : Event) (id : Str) (now : ℕ)
  | hand (e : Event) (id : Str) (now : ℕ)
  | flush (f : ℕ)
  | take (f : ℕ)
  | flushed (f : ℕ)
  | cancel (f : ℕ)
  | close (c : ℕ)
  | closeDone (c : ℕ)
  | receive
  | tick
  | stop
  | write (stored : Bool)
  | drain
  | drained

namespace Writer

variable (cap : ℕ) (w : Writer)

/-- The critical section of `Record`: a closed writer and a full queue drop the row. -/
def record (r : Row) : Writer :=
  if w.closed then { w with dropped := w.dropped + 1 }
  else if w.queue.length < cap then { w with queue := w.queue ++ [r], accepted := w.accepted ++
    [r] }
  else { w with dropped := w.dropped + 1 }

/-- `Flush` after its check: it offers its request, unless the writer is closed. -/
def flush (f : ℕ) : Writer :=
  { w with flushes := Function.update w.flushes f (if w.closed then .returned else .sending) }

/-- The critical section of `Close`: only the first caller closes the queue and waits. -/
def close (c : ℕ) : Writer :=
  if w.closed then { w with closes := Function.update w.closes c .returned }
  else { w with closed := true, closes := Function.update w.closes c .waiting }

def release (f : ℕ) : Writer :=
  { w with
    pc := .select
    flushes := if w.flushes f = .waiting then Function.update w.flushes f .released else w.flushes }

def step : Step → Option Writer
  | .record e id now =>
    match validate e with
    | .error _ => some w
    | .ok () => some (w.record cap (rowOf U e id now))
  | .hand e id now =>
    -- a queue without room takes a row only when the writer waits for one
    match validate e, w.pc with
    | .ok (), .select =>
      if w.closed ∨ cap ≠ 0 then none
      else
        let r := rowOf U e id now
        some { w with pc := .writing r none, accepted := w.accepted ++ [r] }
    | _, _ => none
  | .flush f => if w.flushes f = .idle then some (w.flush f) else none
  | .take f =>
    match w.pc with
    | .select =>
      if w.flushes f = .sending then
        some { w with pc := .draining f, flushes := Function.update w.flushes f .waiting }
      else none
    | _ => none
  | .flushed f =>
    if w.flushes f = .released then some { w with flushes := Function.update w.flushes f .returned }
      else none
  | .cancel f =>
    if w.flushes f = .sending ∨ w.flushes f = .waiting then
      some { w with flushes := Function.update w.flushes f .returned }
    else none
  | .close c => if w.closes c = .idle then some (w.close c) else none
  | .closeDone c =>
    match w.pc with
    | .stopped =>
      if w.closes c = .waiting then some { w with closes := Function.update w.closes c .returned }
        else none
    | _ => none
  | .receive =>
    match w.pc, w.queue with
    | .select, r :: rest => some { w with queue := rest, pc := .writing r none }
    | _, _ => none
  | .tick => match w.pc with
    | .select => some w
    | _ => none
  | .stop =>
    match w.pc, w.queue with
    | .select, [] => if w.closed then some { w with pc := .stopped } else none
    | _, _ => none
  | .write _ =>
    -- a failure of the store is reported and the row is gone
    match w.pc with
    | .writing r none => some { w with pc := .select, stored := w.stored ++ [r] }
    | .writing r (some f) => some { w with pc := .draining f, stored := w.stored ++ [r] }
    | _ => none
  | .drain =>
    match w.pc, w.queue with
    | .draining f, r :: rest => some { w with queue := rest, pc := .writing r (some f) }
    -- a closed queue always gives a value
    | .draining f, [] => if w.closed then some { w with pc := .writing Row.zero (some f) } else none
    | _, _ => none
  | .drained =>
    match w.pc, w.queue with
    | .draining f, [] => if w.closed then none else some (w.release f)
    | _, _ => none

end Writer

end TangraDns.Audit
