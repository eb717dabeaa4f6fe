/-
  Zone templates (package `templates`): the records of a template expanded for a
  zone.
-/
import TangraDns.Validate.RecordSet
import TangraDns.World

namespace TangraDns.Templates

open Str Validate

variable (E : Env)

/-- What the zone name without its final dot is put in place of. -/
def placeholder : Str := str "[ZONE]"

def maxName : ℕ := 100

def maxDescription : ℕ := 1000

def maxPriority : ℤ := 65535

def priorityFields (typ : Str) : Option ℕ :=
  if typ = str "MX" then some 2 else if typ = str "SRV" then some 4 else none

def recordErr (i : ℕ) (f : RecField) (m : RecMsg) : Err := .record ⟨.record i f, m⟩

def withPriority (i : ℕ) (r : Store.TemplateRecord) (typ content : Str) : Except Err Str :=
  if r.priority < 0 ∨ maxPriority < r.priority then .error (recordErr i .priority .priorityRange)
  else match priorityFields typ with
    | none => if r.priority ≠ 0 then .error (recordErr i .priority .priorityType) else .ok content
    | some full =>
      if (fields content).length = full - 1 then .ok (Addr.itoa r.priority.toNat ++ 32 :: content)
      else if (fields content).length = full ∧ r.priority ≠ 0 then
        .error (recordErr i .priority .priorityTwice)
      else .ok content

def indexed (i : ℕ) : Err → Err
  | .record ⟨.value _, m⟩ => recordErr i .content m
  | .record ⟨f, m⟩ => recordErr i f m
  | .name e => recordErr i .name (.badName e)
  | e => e

structure Group where
  first : ℕ
  key : Str
  input : RecordSetInput
deriving DecidableEq, Repr

def addValue (i : ℕ) (key name type : Str) (ttl : ℤ) (content : Str) : List Group → List Group
  | [] => [⟨i, key, ⟨name, type, ttl, [⟨content, false⟩], []⟩⟩]
  | g :: gs =>
    if g.key = key then
      { g with input := { g.input with values := g.input.values ++ [⟨content, false⟩] } } :: gs
    else g :: addValue i key name type ttl content gs

/-- The groups after record `i` and those after it. -/
def groupLoop (l : Limits) (z : Str) :
    ℕ → List Group → List Store.TemplateRecord → Except Err (List Group)
  | _, gs, [] => .ok gs
  | i, gs, r :: rs => do
    let bare := trimSuffix z [dot]
    let typ := toUpper E.cases (trimSpace r.type)
    let name := trimSpace (replaceAll r.name placeholder bare)
    let name := if name = [] then str "@" else name
    let content ← withPriority i r typ (trimSpace (replaceAll r.content placeholder bare))
    let rr ← (l.recordSet E z ⟨name, typ, r.ttl, [⟨content, false⟩], []⟩ []).mapError (indexed i)
    groupLoop l z (i + 1)
      (addValue i (rr.name ++ 32 :: rr.type) rr.name rr.type r.ttl content gs) rs

def groupSet (l : Limits) (z : Str) (gs : List Group) (g : Group) : Except Err PDNS.RRset :=
  let others := (gs.filter fun k => !(k.key == g.key)).map fun k =>
    (⟨k.input.name, k.input.type, 0, .none, [], none⟩ : PDNS.RRset)
  ((l.recordSet E z g.input others).mapError (indexed g.first)).map fun rr =>
    { rr with comments := none }

def expandRecords (l : Limits) (zone : Str) (recs : List Store.TemplateRecord) :
    Except Err (List PDNS.RRset) := do
  let z ← (zoneName E zone).mapError .name
  if Store.maxTemplateRecords < recs.length then .error .templateInvalid
  else do
    let gs ← groupLoop E l z 0 [] recs
    let gs := gs.insertionSort fun a b => Str.le a.key b.key = true
    gs.mapM (groupSet E l z gs)

def mapStore (e : Err) : Err :=
  if e.Is .repoNotFound then .zone .templateNotFound
  else if e.Is .repoConflict then .templateDuplicate
  else e

def expand (l : Limits) (tenantID templateID zone : Str) : Act (List PDNS.RRset) := do
  match ← (Act.store (.getTemplate tenantID templateID)).attempt with
  | .error e => throw (mapStore e)
  | .ok t => Act.ofExcept (expandRecords E l zone t.records)

end TangraDns.Templates
