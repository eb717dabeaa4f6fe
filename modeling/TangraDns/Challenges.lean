/-
  ACME DNS-01 challenges (package `acmechallenge`): the value of a challenge
  added to and taken out of the TXT set at its name, with the bookkeeping rows
  of the sweeper.

  The functions of `Impl` are the unexported ones.
-/
import TangraDns.Records

namespace TangraDns.Challenges

open Str Validate

variable (C : Config)

structure Request where
  domain : Str
  fqdn : Str
  value : Str
deriving DecidableEq, Repr

def label : Str := str "_acme-challenge."

/-- 43 characters of the base64url alphabet. -/
def valueOK (v : Str) : Bool :=
  v.length == 43 && v.all fun c => isUpper c || isLower c || (48 ≤ c && c ≤ 57) ||
    c == 95 || c == 45

def canonical (name : Str) : Option Str :=
  let n := C.env.fqdn (toLower C.env.cases (trimSpace name))
  if n = [dot] ∨ Str.Contains n [dot, dot] ∨ n.any (fun b => b ∈ str " *\\\"") then none
  else if C.env.isDomainName n then some n else none

def check (r : Request) : Except Err Str :=
  if !valueOK r.value then .error .challengeInvalid
  else match canonical C (trimPrefix (trimSpace r.domain) (str "*.")) with
    | none => .error .challengeInvalid
    | some domain =>
      if canonical C r.fqdn = some (label ++ domain) then .ok (label ++ domain)
      else .error .challengeInvalid

def quoted (v : Str) : Str := 34 :: v ++ [34]

def mapWrite (e : Err) : Err :=
  if e.Is .errRecord || e.Is .zonesInvalidKind then .challengeWrite e else e

namespace Impl

def resolve (subj : Subjects) (r : Request) : Act (Subjects × Store.Zone × Str) := do
  let w ← Act.ofExcept (Authz.challenger subj C.allowedCaller)
  let fqdn ← Act.ofExcept (check C r)
  match ← (Zones.findForName C w fqdn).attempt with
  | .error e => throw (if e.Is .zonesNotFound then .challengeNotFound else e)
  | .ok z => if z.kind.needsMasters then throw (.challengeSecondary z.kind.text) else return (w, z,
      fqdn)

def current (w : Subjects) (z : Store.Zone) (fqdn : Str) : Act (Option Records.RecordSet) := do
  match ← (Records.lookup C w z ⟨fqdn, str "CNAME"⟩).attempt with
  | .ok _ => throw (.challengeCNAME fqdn)
  | .error e =>
    if !e.Is .recordsNotFound then throw e
    else match ← (Records.lookup C w z ⟨fqdn, str "TXT"⟩).attempt with
      | .ok rs => return some rs
      | .error e => if e.Is .recordsNotFound then return none else throw e

def write (p : Act Unit) : Act Unit := do
  match ← p.attempt with
  | .ok _ => pure ()
  | .error e => throw (mapWrite e)

/-- Books the value for the sweeper; a failure does not fail the challenge. -/
def record (w : Subjects) (z : Store.Zone) (fqdn value : Str) : Act Unit := do
  let id ← Act.newID
  let now ← Act.now
  let _ ← (Act.store (.insertChallenge ⟨id, z.tenantID, z.id, fqdn, value, w.peerSPIFFE,
    now⟩)).attempt
  pure ()

def withValue (rs : Option Records.RecordSet) (fqdn value : Str) : RecordSetInput :=
  ⟨fqdn, str "TXT", C.challengeTTL,
    (rs.map Records.RecordSet.values).getD [] ++ [⟨quoted value, false⟩],
    (rs.map Records.RecordSet.comment).getD []⟩

def present (w : Subjects) (z : Store.Zone) (fqdn value : Str) : Act Unit := do
  let rs ← current C w z fqdn
  if quoted value ∈ ((rs.map Records.RecordSet.values).getD []).map RecordValue.content then
    record w z fqdn value
  else do
    write (do
      let _ ← Records.apply C w z (withValue C rs fqdn value)
      pure ())
    record w z fqdn value

def drop (w : Subjects) (z : Store.Zone) (rs : Records.RecordSet) (fqdn value : Str) : Act Unit :=
  let rest := rs.values.filter fun v => !(v.content == quoted value)
  if quoted value ∉ rs.values.map RecordValue.content then pure ()
  else if rest = [] then write (Records.remove C w z ⟨fqdn, str "TXT"⟩)
  else write (do
    let _ ← Records.apply C w z ⟨fqdn, str "TXT", rs.ttl, rest, rs.comment⟩
    pure ())

def dropFound (w : Subjects) (z : Store.Zone) (fqdn value : Str) : Act Unit := do
  match ← current C w z fqdn with
  | some rs => drop C w z rs fqdn value
  | none => pure ()

def remove (w : Subjects) (z : Store.Zone) (fqdn value : Str) : Act Unit := do
  dropFound C w z fqdn value
  let _ ← (Act.store (.deleteChallenge z.tenantID fqdn value)).attempt
  pure ()

end Impl

/-- Publishes a challenge value; the name of the zone written. -/
def present (subj : Subjects) (r : Request) : Act Str := do
  let (w, z, fqdn) ← Impl.resolve C subj r
  Impl.present C w z fqdn r.value
  return z.name

/-- Removes a challenge value; the name of the zone cleaned. -/
def cleanUp (subj : Subjects) (r : Request) : Act Str := do
  let (w, z, fqdn) ← Impl.resolve C subj r
  Impl.remove C w z fqdn r.value
  return z.name

/-! ## The sweeper -/

def sweepBatch : ℕ := 100

namespace Impl

/-- Removes the value of a row in the system scope; if the zone is gone, the row is just forgotten.
    Whether a value was removed. -/
def sweepRow (c : Store.Challenge) : Act Bool := do
  let sys := Subjects.internal c.tenantID
  match ← (Zones.owned C sys c.zoneID).attempt with
  | .error e =>
    if e.Is .zonesNotFound then do
      let _ ← (Act.store (.deleteChallenge c.tenantID c.fqdn c.value)).attempt
      return false
    else return false
  | .ok z =>
    match ← (remove C sys z c.fqdn c.value).attempt with
    | .ok _ => return true
    | .error _ => return false

def sweepRows : ℕ → List Store.Challenge → Act ℕ
  | n, [] => pure n
  | n, c :: cs => do
    let removed ← sweepRow C c
    sweepRows (if removed then n + 1 else n) cs

end Impl

/-- Removes the values presented more than `maxAge` ago; how many. -/
def sweep (maxAge : ℕ) : Act ℕ := do
  let now ← Act.now
  let rows ← Act.store (.challengesOlderThan (now - maxAge) sweepBatch)
  Impl.sweepRows C 0 rows

end TangraDns.Challenges
