/-
  Validation of names and addresses (package `validate`): zone names, record
  owner names, host names, primaries.
-/
import Mathlib.Algebra.Group.Int.Defs
import Mathlib.Algebra.Group.Nat.Defs
import TangraDns.Env
import TangraDns.Errors

namespace TangraDns.Validate

open Str

variable (E : Env)

/-! ## Labels -/

def maxName : ℕ := 253

def maxLabel : ℕ := 63

/-- A label of 1–63 octets of `[a-z0-9-]`, and `_` where allowed, without a hyphen at either end. -/
def labelOK (l : Str) (underscore : Bool) : Bool :=
  !(l.isEmpty || maxLabel < l.length || l.head? == some 45 || l.getLast? == some 45) &&
    l.all fun c => isLower c || (48 ≤ c && c ≤ 57) || c == 45 || (c == 95 && underscore)

def split (s : Str) : Except NameErr (Str × List Str) :=
  let s := toLower E.cases (trimSpace s)
  if s.any fun b => b < 0x21 || 0x7e < b then .error .notASCII
  else if s = [] ∨ s = [dot] then .error .root
  else
    let fq := E.fqdn s
    if HasPrefix fq [dot] ∨ Str.Contains fq [dot, dot] ∨ 92 ∈ fq then .error .emptyLabel
    else if maxName < fq.length - 1 then .error .tooLong
    else .ok (fq, E.splitDomainName fq)

def badLabel (ok : Str → ℕ → Bool) (labels : List Str) : Option Str :=
  (labels.zipIdx.find? fun p => !ok p.1 p.2).map Prod.fst

/-! ## Zones -/

/-- The syntax of a zone name: `_` is allowed except in the left-most label. -/
def canonicalZone (s : Str) : Except NameErr Str := do
  let (fq, labels) ← split E s
  match badLabel (fun l i => labelOK l (0 < i)) labels with
  | some l => .error (.zoneLabel l)
  | none => .ok fq

def v4Suffix : Str := str "in-addr.arpa."

def v6Suffix : Str := str "ip6.arpa."

def isReverse (zone : Str) : Bool := decide (Under zone v4Suffix) || decide (Under zone v6Suffix)

/-- A decimal integer of the machine's width. -/
def atoi (s : Str) : Option ℤ :=
  let v := match s with
    | 43 :: r => (Addr.decimal r).map fun n => (n : ℤ)
    | 45 :: r => (Addr.decimal r).map fun n => -(n : ℤ)
    | r => (Addr.decimal r).map fun n => (n : ℤ)
  v.filter fun n => -2 ^ 63 ≤ n && n < 2 ^ 63

def octetLabel (l : Str) : Bool :=
  match atoi l with
  | some n => 0 ≤ n && n ≤ 255 && Addr.itoa n.toNat == l
  | none => false

def nibbleLabel (l : Str) : Bool :=
  l.length == 1 && decide (Str.Contains (str "0123456789abcdef") l)

/-- 1–4 octets under `in-addr.arpa.`, 1–32 nibbles under `ip6.arpa.`. -/
def reverseOK (zone : Str) : Bool :=
  if Under zone v4Suffix then
    let labels := Str.split dot (trimSuffix zone (dot :: v4Suffix))
    labels.length ≤ 4 && labels.all octetLabel
  else
    let labels := Str.split dot (trimSuffix zone (dot :: v6Suffix))
    labels.length ≤ 32 && labels.all nibbleLabel

def zoneName (s : Str) : Except NameErr Str := do
  let z ← canonicalZone E s
  if isReverse z then
    if reverseOK z then .ok z else .error (.reverseZone z)
  else
    let bare := trimSuffix z [dot]
    if E.publicSuffix bare = bare then .error (.publicSuffix z) else .ok z

/-! ## Owner names and hosts -/

/-- An owner name in a zone: `@` or nothing is the apex, a name without final dot is relative;
    `*` may be the whole left-most label. -/
def recordName (zone name : Str) : Except NameErr Str := do
  let z ← canonicalZone E zone
  let n := trimSpace name
  if n = [] ∨ n = str "@" then .ok z
  else if ¬ HasSuffix n [dot] ∧ HasPrefix n [dot] then .error .emptyLabel
  else do
    let (fq, labels) ← split E (if HasSuffix n [dot] then n else n ++ dot :: z)
    match badLabel (fun l i => (l == str "*" && i == 0) || labelOK l true) labels with
    | some l => .error (.label l)
    | none => if fq ≠ z ∧ ¬ Under fq z then .error (.outside fq z) else .ok fq

/-- A host name: at least two labels, no underscore, the last label not a number. -/
def hostname (s : Str) : Except NameErr Str := do
  let (fq, labels) ← split E s
  if labels.length < 2 then .error (.notQualified fq)
  else match badLabel (fun l _ => labelOK l false) labels with
    | some l => .error (.hostLabel l)
    | none => if (atoi (labels.getLastD [])).isSome then .error (.looksLikeIP fq) else .ok fq

/-! ## Primaries -/

def maxMasters : ℕ := 16

def guard (a : Addr) : Except MastersErr Addr :=
  let a := a.unmap
  if a.isLoopback || a.isLinkLocalUnicast || a.isLinkLocalMulticast ||
      a.isInterfaceLocalMulticast || a.isUnspecified || a.isMulticast || a == Addr.broadcast then
    .error (.notUnicast a)
  else .ok a

def ipGuard (s : Str) : Except MastersErr Addr :=
  match Addr.parseAddr (trimSpace s) with
  | some a => if a.zone ≠ [] then .error (.notIP s) else guard a
  | none => .error (.notIP s)

def canonMaster (raw : Str) : Except MastersErr Str :=
  let s := trimSpace raw
  match (Addr.parseAddr s).filter fun a => a.zone == [] with
  | some a => (guard a).map Addr.toStr
  | none =>
    match (Addr.parseAddrPort s).filter fun ap => ap.1.zone == [] with
    | none => .error (.notIPPort s)
    | some (a, port) =>
      if port = 0 then .error .port else (guard a).map fun g => Addr.toStrPort g port

def mastersLoop : List Str → List Str → Except MastersErr (List Str)
  | out, [] => .ok out
  | out, raw :: rest => do
    let canon ← canonMaster raw
    if canon ∈ out then .error (.duplicate canon) else mastersLoop (out ++ [canon]) rest

def masters (raws : List Str) : Except MastersErr (List Str) :=
  if maxMasters < raws.length then .error .tooMany else mastersLoop [] raws

end TangraDns.Validate
