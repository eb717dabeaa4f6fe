/-
  The consumer of the IPAM sync (package `ipamsync`, files `consumer.go` and
  `decode.go`): it reads the streams of its tenants, each from where it stood when
  the consumer started, and hands the address events to the sync.

  `Run` is a machine: the bus grows while the loop runs, and each call to the bus is
  one step, which may fail.  `start` and `dispatched` are what the statements speak
  about; the code keeps neither.
-/
import Mathlib.Data.List.AList
import TangraDns.Prog.Machine
import TangraDns.Streams.Bus
import TangraDns.Sync

namespace TangraDns

open Str Streams

/-! ## Decoding -/

namespace Sync

structure Payload where
  action : Str
  id : Str
  address : Str
  subnetID : Str
  hostname : Str

inductive DecodeError where
  | ignored | malformed

def eventType (typ : Str) : Option EventType :=
  if typ = str "ipam.ip_address.created" then some .created
  else if typ = str "ipam.ip_address.updated" then some .updated
  else if typ = str "ipam.ip_address.deleted" then some .deleted
  else if typ = str "ipam.ip_address.scanned" then some .scanned
  else none

def idByte (b : UInt8) : Bool :=
  (65 ≤ b && b ≤ 90) || (97 ≤ b && b ≤ 122) || (48 ≤ b && b ≤ 57) || b == 95 || b == 45

/-- The fields of an entry; `json` gives the payload of a text that holds one object and nothing
    more. -/
def decode (json : Str → Option Payload) (fields : Str → Str) : Except DecodeError Event :=
  match eventType (fields (str "type")) with
  | none => .error .ignored
  | some typ =>
    let data := fields (str "data")
    if data = [] ∨ data.length > 4096 then .error .malformed else
    match json data with
    | none => .error .malformed
    | some p =>
      if !(p.id.all idByte && 0 < p.id.length && p.id.length ≤ 64) || p.subnetID.length > 64 ||
          p.hostname.length > 253 || p.action.length > 16 then .error .malformed else
      match Addr.parseAddr p.address with
      | none => .error .malformed
      | some a => if a.zone ≠ [] then .error .malformed else .ok ⟨typ, p.id⟩

end Sync

/-! ## The loop -/

structure Consumer where
  tenants : List Str
  /-- how the streams are named, if not by `Streams.key` -/
  Key : Option (Str → Str)
  json : Str → Option Sync.Payload

namespace Consumer

def key (C : Consumer) (t : Str) : Str :=
  match C.Key with
  | some f => f t
  | none => Streams.key t

inductive Pc where
  | head
  /-- asking for the tails of the streams of `todo` -/
  | starting (todo : List Str)
  | reading (todo : List Str) (progressed : Bool)
  /-- the rest of a batch of the tenant `t` -/
  | dispatching (t : Str) (batch : List Entry) (todo : List Str)
  | pausing
  | stopped

structure Run where
  bus : Bus
  done : Bool
  started : Bool
  last : AList fun _ : Str => Str
  pc : Pc
  handled : List (Str × Sync.Event)
  drops : ℕ
  /-- how long the streams were when their tails were taken -/
  start : Str → Option ℕ
  dispatched : List (Str × Entry)

inductive Step where
  | append (key : Str) (e : Entry)
  | trim (key : Str) (n : ℕ)
  | cancel
  | turn
  | xLast (ok : Bool)
  /-- a read gives up to `n` entries, or fails -/
  | xRead (n : Option ℕ)
  | dispatch
  | resume

variable (C : Consumer)

def new (bus : Bus) : Run :=
  ⟨bus, false, false, ∅, if C.tenants = [] then .stopped else .head, [], 0, fun _ => none, []⟩

namespace Run

variable (s : Run)

def startAt (t : Str) : Run :=
  { s with
    last := s.last.insert t (s.bus.tail (C.key t))
    start := Function.update s.start t (some (s.bus.log (C.key t)).length) }

def dispatch (t : Str) (e : Entry) : Run :=
  let s := { s with last := s.last.insert t e.id, dispatched := s.dispatched ++ [(t, e)] }
  match Sync.decode C.json e.fields with
  | .error .ignored => s
  | .error .malformed => { s with drops := s.drops + 1 }
  | .ok ev => { s with handled := s.handled ++ [(t, ev)] }

def step : Step → Option Run
  | .append key e => if h : s.bus.Fresh key e.id then some { s with bus := s.bus.xAdd key e h }
      else none
  | .trim key n =>
    if h : s.bus.gone key + n ≤ (s.bus.log key).length
      then some { s with bus := s.bus.trim key n h } else none
  | .cancel => some { s with done := true }
  | .turn =>
    match s.pc with
    | .head => some { s with pc := if s.done then .stopped else .starting C.tenants }
    | _ => none
  | .xLast ok =>
    match s.pc with
    | .starting (t :: todo) =>
      -- a tenant whose position is known is passed over
      if (s.last.lookup t).isSome ∨ ok = false then some { s with pc := .starting todo }
      else some { s.startAt C t with pc := .starting todo }
    | .starting [] =>
      if s.last.keys.length < C.tenants.length then some { s with pc := .pausing }
      else some { s with started := true, pc := .reading C.tenants false }
    | _ => none
  | .xRead n =>
    match s.pc with
    | .reading (t :: todo) progressed =>
      match n with
      | none => some { s with pc := if s.done then .stopped else .reading todo progressed }
      | some n =>
        match s.last.lookup t with
        | some id =>
          if n ≤ 100 then
            some { s with pc := .dispatching t ((s.bus.after (C.key t) id).take n) todo }
          else none
        | none => none
    | .reading [] progressed => some { s with pc := if progressed then .head else .pausing }
    | _ => none
  | .dispatch =>
    match s.pc with
    | .dispatching t (e :: batch) todo =>
      some { s.dispatch C t e with pc := .dispatching t batch todo }
    | .dispatching _ [] todo => some { s with pc := .reading todo true }
    | _ => none
  | .resume =>
    match s.pc with
    | .pausing => some { s with pc := .head }
    | _ => none

def dispatchedTo (t : Str) : List Entry := (s.dispatched.filter fun d => d.1 == t).map Prod.snd

end Run

end Consumer

end TangraDns
