/-
  Validation of record sets (package `validate`): the change a caller's record
  set becomes, checked against the sets its zone has.
-/
import TangraDns.PowerDNS
import TangraDns.Validate.Content

namespace TangraDns.Validate

open Str

variable (E : Env)

structure RecordValue where
  content : Str
  disabled : Bool
deriving DecidableEq, Repr

structure RecordSetInput where
  name : Str
  type : Str
  ttl : ℤ
  values : List RecordValue
  comment : Str
deriving DecidableEq, Repr

structure Limits where
  minTTL : ℤ
  maxTTL : ℤ
  maxValues : ℤ
deriving DecidableEq, Repr

def defaultLimits : Limits := ⟨60, 604800, 100⟩

def maxComment : ℕ := 512

def exclusive (name t : Str) (e : PDNS.RRset) : Except RecordErr Unit :=
  if ¬ EqualFold E.cases e.name name ∨ EqualFold E.cases e.type t then .ok ()
  else if t = str "CNAME" then .error ⟨.type, .otherData name⟩
  else if EqualFold E.cases e.type (str "CNAME") then .error ⟨.type, .cnameExists name⟩
  else .ok ()

def valuesLoop (t z : Str) :
    ℕ → List PDNS.Record → List RecordValue → Except RecordErr (List PDNS.Record)
  | _, out, [] => .ok out
  | i, out, v :: vs =>
    match content E t z v.content with
    | .error m => .error ⟨.value i, m⟩
    | .ok c =>
      if c ∈ out.map PDNS.Record.content then .error ⟨.value i, .duplicate⟩
      else valuesLoop t z (i + 1) (out ++ [⟨c, v.disabled⟩]) vs

/-- The comments of a set: always given, so that an empty list clears them. -/
def commentList (comment : Str) : List Str :=
  if trimSpace comment = [] then [] else [trimSpace comment]

def Limits.recordSet (l : Limits) (zone : Str) (r : RecordSetInput) (existing : List PDNS.RRset) :
    Except Err PDNS.RRset := do
  let z ← (canonicalZone E zone).mapError .name
  let t ← (editableType E r.type).mapError .record
  let name ← (recordName E z r.name).mapError .name
  if r.ttl < l.minTTL ∨ l.maxTTL < r.ttl then .error (.record ⟨.ttl, .ttlRange l.minTTL l.maxTTL⟩)
  else if r.values = [] ∨ l.maxValues < r.values.length then
    .error (.record ⟨.values, .valueCount l.maxValues⟩)
  else if maxComment < r.comment.length || hasControl r.comment then
    .error (.record ⟨.comment, .commentText⟩)
  else if t = str "CNAME" ∧ name = z then .error (.record ⟨.type, .cnameApex⟩)
  else if t = str "CNAME" ∧ 1 < r.values.length then .error (.record ⟨.values, .cnameValues⟩)
  else do
    (existing.forM (exclusive E name t)).mapError .record
    let records ← (valuesLoop E t z 0 [] r.values).mapError .record
    .ok ⟨name, t, (r.ttl % 2 ^ 32).toNat, .replace, records, some (commentList r.comment)⟩

end TangraDns.Validate
