/-
  What the module takes from libraries that are not part of it: the Unicode
  tables, the public suffix list and the DNS library's names and records.

  They are parameters with the documented behaviour the development relies on;
  `Env.sample` is one environment with that behaviour.
-/
import TangraDns.Net.Roundtrip
import TangraDns.Text.CharStrings
import TangraDns.Text.Unicode

namespace TangraDns

inductive RR where
  | a (ip : IP4)
  | aaaa (ip : IP6)
  | cname (target : Str)
  | ns (ns : Str)
  | ptr (ptr : Str)
  | mx (preference : ℕ) (mx : Str)
  | srv (priority weight port : ℕ) (target : Str)
  | txt (txt : List Str)
  | spf (txt : List Str)
  | caa (flag : ℕ) (tag value : Str)
  | ds (keyTag algorithm digestType : ℕ) (digest : Str)
  | dnskey (flags protocol algorithm : ℕ) (publicKey : Str)
  | tlsa (usage selector matchingType : ℕ) (certificate : Str)
  | sshfp (algorithm type : ℕ) (fingerPrint : Str)
  | naptr (order preference : ℕ) (flags service regexp replacement : Str)
deriving DecidableEq, Repr

def RR.type : RR → Str
  | a _ => str "A"
  | aaaa _ => str "AAAA"
  | cname _ => str "CNAME"
  | ns _ => str "NS"
  | ptr _ => str "PTR"
  | mx .. => str "MX"
  | srv .. => str "SRV"
  | txt _ => str "TXT"
  | spf _ => str "SPF"
  | caa .. => str "CAA"
  | ds .. => str "DS"
  | dnskey .. => str "DNSKEY"
  | tlsa .. => str "TLSA"
  | sshfp .. => str "SSHFP"
  | naptr .. => str "NAPTR"

/-- The record types users may write (package `validate`). -/
def Validate.editableTypes : List Str :=
  [str "A", str "AAAA", str "CNAME", str "MX", str "NS", str "PTR", str "SRV", str "TXT", str "CAA",
    str "DS", str "DNSKEY", str "TLSA", str "SSHFP", str "SPF", str "NAPTR"]

/-- A byte of a plain label: a lower-case letter, a digit, `-`, `_` or `*`. -/
def isLabelByte (b : UInt8) : Bool :=
  Str.isLower b || (48 ≤ b && b ≤ 57) || b == 45 || b == 95 || b == 42

/-- An absolute name in plain lower-case labels, as long as the DNS allows. -/
def PlainName (s : Str) : Prop :=
  ∃ ls : List Str, ls ≠ [] ∧ s = Str.join Str.dot ls ++ [Str.dot] ∧ s.length ≤ 254 ∧
    ∀ l ∈ ls, l ≠ [] ∧ l.length ≤ 63 ∧ ∀ b ∈ l, isLabelByte b = true

/-- The character strings of a TXT record: one at least, each of at most 255 octets. -/
def TextStrings (ss : List Str) : Prop := ss ≠ [] ∧ ∀ s ∈ ss, s.length ≤ 255

instance (ss : List Str) : Decidable (TextStrings ss) := inferInstanceAs (Decidable (_ ∧ _))

structure Env where
  cases : Str.CaseTables
  publicSuffix : Str → Str
  /-- the registrable domain: the public suffix and one more label -/
  effectiveTLDPlusOne : Str → Option Str
  fqdn : Str → Str
  splitDomainName : Str → List Str
  isDomainName : Str → Bool
  /-- the record of the line `zone 3600 IN type value` -/
  newRR : Str → Str → Str → Option RR
  rdata : RR → Str
  fqdn_eq : ∀ s, fqdn s = s ∨ fqdn s = s ++ [Str.dot]
  fqdn_plain : ∀ s, 92 ∉ s → fqdn s = if Str.HasSuffix s [Str.dot] then s else s ++ [Str.dot]
  /-- without escapes, the labels are what stands between the dots -/
  splitDomainName_plain : ∀ s, 92 ∉ s → (∀ l ∈ Str.split Str.dot s, l ≠ []) →
    splitDomainName (s ++ [Str.dot]) = Str.split Str.dot s
  isDomainName_plain : ∀ s, PlainName s → isDomainName s = true
  /-- a parsed line is a record of its type -/
  newRR_type : ∀ z t v rr, PlainName z → t ∈ Validate.editableTypes → newRR z t v = some rr →
    rr.type = t
  /-- addresses and names are parsed from their canonical text, and printed as such -/
  newRR_a : ∀ z ip, PlainName z → newRR z (str "A") (Addr.toStr4 ip) = some (.a ip)
  newRR_aaaa : ∀ z ip, PlainName z → Addr.mapped ip = false →
    newRR z (str "AAAA") (Addr.toStr6 ip) = some (.aaaa ip)
  newRR_ptr : ∀ z n, PlainName z → PlainName n → newRR z (str "PTR") n = some (.ptr n)
  rdata_a : ∀ ip, rdata (.a ip) = Addr.toStr4 ip
  rdata_aaaa : ∀ ip, Addr.mapped ip = false → rdata (.aaaa ip) = Addr.toStr6 ip
  rdata_ptr : ∀ n, PlainName n → rdata (.ptr n) = n
  /-- quoted text is printed as character strings, and character strings are parsed and printed
      again -/
  rdata_txt : ∀ z v rr, PlainName z → newRR z (str "TXT") (34 :: v) = some rr →
    ∃ ss, TextStrings ss ∧ rdata rr = Str.charStrings ss
  newRR_txt : ∀ z ss, PlainName z → TextStrings ss →
    ∃ rr, newRR z (str "TXT") (Str.charStrings ss) = some rr ∧ rdata rr = Str.charStrings ss

/-! ## A sample environment -/

namespace Env.Sample

def newRR (_z t v : Str) : Option RR :=
  if t = str "A" then (Addr.parseIPv4 v).map .a
  else if t = str "AAAA" then (Addr.parseIPv6 v).map .aaaa
  else if t = str "CNAME" then some (.cname v)
  else if t = str "NS" then some (.ns v)
  else if t = str "PTR" then some (.ptr v)
  else if t = str "TXT" then
    ((Str.readStrings v.length v).filter fun ss => TextStrings ss).map .txt
  else none

def rdata : RR → Str
  | .a ip => Addr.toStr4 ip
  | .aaaa ip => Addr.toStr6 ip
  | .cname n | .ns n | .ptr n => n
  | .txt ss => Str.charStrings ss
  | _ => []

theorem newRR_type {z t v : Str} {rr : RR} (h : newRR z t v = some rr) : rr.type = t := by
  unfold newRR at h
  split_ifs at h with h1 h2 h3 h4 h5 h6
  · obtain ⟨ip, -, rfl⟩ := Option.map_eq_some_iff.1 h; exact h1.symm
  · obtain ⟨ip, -, rfl⟩ := Option.map_eq_some_iff.1 h; exact h2.symm
  · cases h; exact h3.symm
  · cases h; exact h4.symm
  · cases h; exact h5.symm
  · obtain ⟨ss, -, rfl⟩ := Option.map_eq_some_iff.1 h; exact h6.symm

theorem newRR_eq_txt (z v : Str) : newRR z (str "TXT") v =
    ((Str.readStrings v.length v).filter fun ss => TextStrings ss).map .txt := by
  simp only [newRR, if_neg (show str "TXT" ≠ str "A" by decide),
    if_neg (show str "TXT" ≠ str "AAAA" by decide),
    if_neg (show str "TXT" ≠ str "CNAME" by decide), if_neg (show str "TXT" ≠ str "NS" by decide),
    if_neg (show str "TXT" ≠ str "PTR" by decide), if_true]

theorem rdata_txt {z v : Str} {rr : RR} (h : newRR z (str "TXT") v = some rr) :
    ∃ ss, TextStrings ss ∧ rdata rr = Str.charStrings ss := by
  rw [newRR_eq_txt] at h
  obtain ⟨ss, hss, rfl⟩ := Option.map_eq_some_iff.1 h
  exact ⟨ss, of_decide_eq_true (Option.filter_eq_some_iff.1 hss).2, rfl⟩

theorem newRR_txt {z : Str} {ss : List Str} (h : TextStrings ss) :
    ∃ rr, newRR z (str "TXT") (Str.charStrings ss) = some rr ∧ rdata rr = Str.charStrings ss := by
  refine ⟨.txt ss, ?_, rfl⟩
  rw [newRR_eq_txt, Str.readStrings_charStrings h.1 (Str.length_le_charStrings ss),
    Option.filter_some,
    if_pos (decide_eq_true h)]
  rfl

end Env.Sample

/-- Libraries with one-label public suffixes and the record types of `Env.Sample.newRR`. -/
def Env.sample : Env where
  cases := .ascii
  publicSuffix s := ((Str.split Str.dot s).getLast?).getD []
  effectiveTLDPlusOne s :=
    if (Str.split Str.dot s).length < 2 then none
    else some (Str.join Str.dot ((Str.split Str.dot s).drop ((Str.split Str.dot s).length - 2)))
  fqdn s := if Str.HasSuffix s [Str.dot] then s else s ++ [Str.dot]
  splitDomainName s := Str.split Str.dot s.dropLast
  isDomainName s := !s.isEmpty
  newRR := Sample.newRR
  rdata := Sample.rdata
  fqdn_eq s := by split_ifs <;> simp
  fqdn_plain s _ := rfl
  splitDomainName_plain s _ _ := by simp
  isDomainName_plain s h := by obtain ⟨ls, -, rfl, -⟩ := h; simp
  newRR_type _ _ _ _ _ _ h := Sample.newRR_type h
  newRR_a z ip _ := by simp [Sample.newRR, Addr.parseIPv4_toStr4]
  newRR_aaaa z ip _ _ := by
    rw [Sample.newRR, if_neg (by decide), if_pos rfl, Addr.parseIPv6_toStr6]; rfl
  newRR_ptr z n _ _ := by
    simp only [Sample.newRR, if_neg (show str "PTR" ≠ str "A" by decide),
      if_neg (show str "PTR" ≠ str "AAAA" by decide),
      if_neg (show str "PTR" ≠ str "CNAME" by decide),
      if_neg (show str "PTR" ≠ str "NS" by decide), if_true]
  rdata_a _ := rfl
  rdata_aaaa _ _ := rfl
  rdata_ptr _ _ := rfl
  rdata_txt _ _ _ _ h := Sample.rdata_txt h
  newRR_txt _ _ _ h := Sample.newRR_txt h

end TangraDns
