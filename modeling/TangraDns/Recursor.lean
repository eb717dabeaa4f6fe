/-
  The recursor client and the reconciler (package `recursor`): the forward entry
  of a zone, and the pass that makes the entries those of the managed zones.
-/
import TangraDns.World

namespace TangraDns.Recursor

open Str

structure Config where
  enabled : Bool
  fwdHost : Str
  fwdPort : ℕ

variable (U : CaseTables) (c : Config)

/-- The zone in lower case with one final dot; none for the root. -/
def canon (zone : Str) : Option Str :=
  let z := trimSuffix (toLower U (trimSpace zone)) [dot]
  if z = [] then none else some (z ++ [dot])

def joinHostPort (host : Str) (port : ℕ) : Str :=
  if 58 ∈ host then 91 :: host ++ [93, 58] ++ Addr.itoa port else host ++ 58 :: Addr.itoa port

def target : Act Str :=
  match Addr.parseAddr c.fwdHost with
  | some a => pure (joinHostPort a.toStr c.fwdPort)
  | none => do
    let addrs ← Act.recursor (.lookup c.fwdHost)
    match addrs.find? fun a => a.unmap.is4 with
    | some a => pure (joinHostPort a.unmap.toStr c.fwdPort)
    | none => match addrs with
      | a :: _ => pure (joinHostPort a.toStr c.fwdPort)
      | [] => throw (.recursor none)

def syncForward (zone : Str) : Act Unit :=
  if !c.enabled then pure () else
  match canon U zone with
  | none => throw .recursorZone
  | some name => do
    let t ← target c
    let _ ← (Act.recursor (.delete name)).attempt
    Act.recursor (.create ⟨name, str "Forwarded", [t]⟩)

def removeForward (zone : Str) : Act Unit :=
  if !c.enabled then pure () else
  match canon U zone with
  | none => throw .recursorZone
  | some name => do
    match ← (Act.recursor (.delete name)).attempt with
    | .ok _ => pure ()
    | .error e =>
      if e = .recursor (some 404) ∨ e = .recursor (some 422) then pure () else throw e

def IsForward (z : ForwardZone) : Prop := EqualFold U z.kind (str "Forwarded")

instance (z : ForwardZone) : Decidable (IsForward U z) := inferInstanceAs (Decidable (EqualFold ..))

def listForwards : Act (List Str) :=
  if !c.enabled then pure [] else do
    let zones ← Act.recursor .list
    return (zones.filter fun z => IsForward U z).map ForwardZone.name

/-! ## The reconciler -/

/-- The reconciler's configuration; `counting` if it also counts the zones of PowerDNS without
    owner. -/
structure Reconciler where
  client : Config
  static : List Str
  counting : Bool

variable (r : Reconciler)

def countUnowned (managed : List Str) : Act ℕ := do
  let served ← Act.pdns .listZoneNames
  let owned := managed.map (canonicalForward U)
  return (served.filter fun z => canonicalForward U z ∉ owned).length

def note (first : Option Err) : Except Err Unit → Option Err
  | .ok _ => first
  | .error e => first.or (some e)

def syncAll : Option Err → List Str → Act (Option Err)
  | first, [] => pure first
  | first, z :: zs => do
    let res ← (syncForward U r.client z).attempt
    syncAll (note first res) zs

def removeAll (keep : List Str) : Option Err → List Str → Act (Option Err)
  | first, [] => pure first
  | first, z :: zs =>
    if canonicalForward U z ∈ keep then removeAll keep first zs
    else do
      let res ← (removeForward U r.client z).attempt
      removeAll keep (note first res) zs

/-- The entries that a pass leaves: the root, the static forwards and the managed zones. -/
def keep (managed : List Str) : List Str :=
  [dot] :: (r.static ++ managed).map (canonicalForward U)

/-- One pass; its first error is returned after every zone was tried. -/
def reconcile : Act Unit :=
  if !r.client.enabled && !r.counting then pure () else do
    let managed ← Act.store .allZoneNames
    let unowned ← (if r.counting then (countUnowned U managed).attempt else pure (.ok 0))
    if !r.client.enabled then Act.ofExcept (unowned.map fun _ => ())
    else do
      let first ← syncAll U r none managed
      let current ← listForwards U r.client
      let first ← removeAll U r (keep U r managed) first current
      match first with
      | some e => throw e
      | none => Act.ofExcept (unowned.map fun _ => ())

/-- The loop up to its pass `n`, whose outcome it gives; a failed pass is followed by the next. -/
def run : ℕ → Act Unit
  | 0 => reconcile U r
  | n + 1 => do
    let _ ← (reconcile U r).attempt
    run n

end TangraDns.Recursor
