/-
  Validation of record values (package `validate`): one value of an editable
  type is checked, parsed by the DNS library and printed again; only the
  printed form is kept.
-/
import TangraDns.Validate.Names

namespace TangraDns.Validate

open Str

variable (E : Env)

/-! ## Types -/

def editable (t : Str) : Bool := editableTypes.contains (toUpper E.cases t)

def editableType (s : Str) : Except RecordErr Str :=
  let t := toUpper E.cases (trimSpace s)
  if t = str "SOA" then .error ⟨.type, .soaReadOnly⟩
  else if !editable E t then .error ⟨.type, .notEditable⟩
  else .ok t

/-! ## Characters -/

def directives : List Str := [str "$include", str "$origin", str "$ttl", str "$generate"]

def hasDirective (s : Str) : Bool := directives.any fun d =>
    decide (Str.Contains (toLower E.cases s) d)

def hasControl (s : Str) : Bool := s.any fun b => b < 0x20 || b == 0x7f

def quotedType (t : Str) : Bool := [str "TXT", str "SPF", str "CAA", str "NAPTR"].contains t

def scanLoop (quoted : Bool) : Bool → Bool → Str → Except RecMsg Unit
  | inQ, _, [] => if inQ then .error .unterminated else .ok ()
  | true, esc, c :: v =>
    if esc then scanLoop quoted true false v
    else if c = 92 then scanLoop quoted true true v
    else if c = 34 then scanLoop quoted false false v
    else scanLoop quoted true false v
  | false, esc, c :: v =>
    if c = 34 ∧ quoted then scanLoop quoted true esc v
    else if c ∈ str "\";()\\@$" then .error (.notAllowed c)
    else if 0x80 ≤ c then .error .nonASCII
    else scanLoop quoted false esc v

/-- Refuses what could leave the line of the record. -/
def scan (v : Str) (quoted : Bool) : Except RecMsg Unit :=
  if hasControl v then .error .control else scanLoop quoted false false v

def txtQuoter (v : Str) : Str :=
  v.flatMap fun c => if c = 92 then [92, 92] else if c = 34 then [92, 34] else [c]

/-! ## Rules per type -/

/-- A name in the data: plain labels, the root only where the type has a use for it. -/
def target (name : Str) (allowRoot : Bool) : Except RecMsg Unit :=
  if name = [dot] then if allowRoot then .ok () else .error .targetRoot
  else match (E.splitDomainName name).find? fun l => !labelOK (toLower E.cases l) true with
    | some l => .error (.targetLabel l)
    | none => .ok ()

def isHex (b : UInt8) : Bool := (Addr.hexDigit b).isSome

def hexOK (s : Str) : Bool := s.all isHex && s.length % 2 == 0 && !s.isEmpty

def isBase64 (b : UInt8) : Bool :=
  isUpper b || isLower b || (48 ≤ b && b ≤ 57) || b == 43 || b == 47

/-- Non-empty padded base64; line breaks are skipped. -/
def base64OK (s : Str) : Bool :=
  let t := s.filter fun b => b != 13 && b != 10
  let data := t.takeWhile isBase64
  let pad := t.drop data.length
  pad.all (· == 61) && pad.length ≤ 2 && (data.length + pad.length) % 4 == 0 && !data.isEmpty

def lengthOf (table : List (ℕ × ℕ)) (k : ℕ) : Option ℕ :=
  (table.find? fun p => p.1 == k).map Prod.snd

def dsDigestLen : List (ℕ × ℕ) := [(1, 40), (2, 64), (4, 96)]

def sshfpLen : List (ℕ × ℕ) := [(1, 40), (2, 64)]

def tlsaLen : List (ℕ × ℕ) := [(1, 64), (2, 128)]

/-- Certification authority authorisation; the tag is put in lower case. -/
def caa (flag : ℕ) (tag value : Str) : Except RecMsg RR :=
  let tag := toLower E.cases tag
  if flag ≠ 0 ∧ flag ≠ 128 then .error .caaFlags
  else if tag = str "issue" ∨ tag = str "issuewild" then .ok (.caa flag tag value)
  else if tag = str "iodef" then
    let v := toLower E.cases value
    if ¬ HasPrefix v (str "mailto:") ∧ ¬ HasPrefix v (str "https://") ∧
      ¬ HasPrefix v (str "http://")
    then .error .caaIodef else .ok (.caa flag tag value)
  else .error .caaTag

def ds (digestType : ℕ) (digest : Str) : Except RecMsg Unit :=
  match lengthOf dsDigestLen digestType with
  | none => .error .dsType
  | some n =>
    if !hexOK digest then .error .dsHex
    else if digest.length ≠ n then .error (.dsLength n digestType) else .ok ()

def dnskey (flags protocol : ℕ) (publicKey : Str) : Except RecMsg Unit :=
  if flags ≠ 0 ∧ flags ≠ 256 ∧ flags ≠ 257 then .error .keyFlags
  else if protocol ≠ 3 then .error .keyProtocol
  else if !base64OK publicKey then .error .keyBase64 else .ok ()

def tlsa (usage selector matchingType : ℕ) (certificate : Str) : Except RecMsg Unit :=
  if 3 < usage then .error .tlsaUsage
  else if 1 < selector then .error .tlsaSelector
  else if 2 < matchingType then .error .tlsaMatching
  else if !hexOK certificate then .error .tlsaHex
  else match lengthOf tlsaLen matchingType with
    | some n => if certificate.length ≠ n then .error (.tlsaLength matchingType n) else .ok ()
    | none => .ok ()

def sshfp (algorithm type : ℕ) (fingerPrint : Str) : Except RecMsg Unit :=
  if algorithm ∉ [1, 2, 3, 4, 6] then .error .sshfpAlgorithm
  else match lengthOf sshfpLen type with
    | none => .error .sshfpType
    | some n =>
      if !hexOK fingerPrint then .error .sshfpHex
      else if fingerPrint.length ≠ n then .error (.sshfpLength type n) else .ok ()

/-- Naming authority pointer; the replacement is put in lower case. -/
def naptr (order preference : ℕ) (flags service regexp replacement : Str) : Except RecMsg RR :=
  if flags.any fun c => !(isLower c || isUpper c || (48 ≤ c && c ≤ 57)) then .error .naptrFlags
  else
    let replacement := toLower E.cases replacement
    (target E replacement true).map fun _ =>
      .naptr order preference flags service regexp replacement

/-- The rules of a record's type; the record with the letter case they settle. -/
def semantic (rr : RR) : Except RecMsg RR :=
  match rr with
  | .aaaa ip => if Addr.mapped ip then .error .mappedAAAA else .ok rr
  | .cname t => (target E t false).map fun _ => rr
  | .ns n => (target E n false).map fun _ => rr
  | .ptr p => (target E p false).map fun _ => rr
  | .mx pref m =>
    if m = [dot] ∧ pref ≠ 0 then .error .nullMX else (target E m true).map fun _ => rr
  | .srv _ _ _ t => (target E t true).map fun _ => rr
  | .caa flag tag value => caa E flag tag value
  | .ds _ _ digestType digest => (ds digestType digest).map fun _ => rr
  | .dnskey flags protocol _ key => (dnskey flags protocol key).map fun _ => rr
  | .tlsa usage selector mt cert => (tlsa usage selector mt cert).map fun _ => rr
  | .sshfp algorithm type fp => (sshfp algorithm type fp).map fun _ => rr
  | .naptr order pref flags service regexp repl => naptr E order pref flags service regexp repl
  | _ => .ok rr

/-! ## Values -/

def maxContent : ℕ := 4096

/-- A value in the letter case and quoting its type is parsed in. -/
def prepare (t v : Str) : Str :=
  if t = str "TXT" ∨ t = str "SPF" then
    if HasPrefix v [34] then v else 34 :: txtQuoter v ++ [34]
  else if t ∈ [str "A", str "AAAA", str "CNAME", str "NS", str "PTR", str "MX", str "SRV"] then
    toLower E.cases v
  else if t ∈ [str "DS", str "TLSA", str "SSHFP"] then toUpper E.cases v
  else v

/-- The canonical form of one value of the editable type `t` in the canonical zone `z`. -/
def content (t z value : Str) : Except RecMsg Str := do
  let v := trimSpace value
  if v = [] then .error .empty
  else if maxContent < v.length then .error .tooLong
  else if hasDirective E v then .error .directive
  else do
    let v := prepare E t v
    scan v (quotedType t)
    match E.newRR z t v with
    | none => .error (.notValid t)
    | some rr => do
      let rr ← semantic E rr
      let out := E.rdata rr
      if hasDirective E out then .error .directive else .ok out

/-- The canonical form of one value of a type in a zone (`validate.Content`). -/
def contentOf (rtype zone value : Str) : Except Err Str := do
  let z ← (canonicalZone E zone).mapError .name
  let t ← (editableType E rtype).mapError .record
  (content E t z value).mapError fun m => .record ⟨.content, m⟩

end TangraDns.Validate
