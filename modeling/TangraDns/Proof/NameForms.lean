/-
  The form of accepted names, octet by octet, and what their text may be
  (`Validate.Names`).
-/
import TangraDns.Proof.Canonical
import TangraDns.Text.Trim

namespace TangraDns.Validate

open Str

variable {E : Env}

/-! ## The form of names -/

/-- A label of 1–63 octets of `[a-z0-9_-]` without a hyphen at either end. -/
structure Label (l : Str) : Prop where
  length : 1 ≤ l.length ∧ l.length ≤ 63
  octets : ∀ b ∈ l, isLower b = true ∨ (48 ≤ b ∧ b ≤ 57) ∨ b = 95 ∨ b = 45
  first : l.head? ≠ some 45
  last : l.getLast? ≠ some 45

structure NameOf (ls : List Str) (n : Str) : Prop where
  lower : IsLowerStr n
  labels : ls ≠ [] ∧ n = join dot ls ++ [dot]
  final : HasSuffix n [dot] ∧ ¬ HasSuffix n [dot, dot]
  length : n.length - 1 ≤ 253

def ZoneForm (z : Str) : Prop :=
  ∃ l ls, NameOf (l :: ls) z ∧ (∀ l' ∈ l :: ls, Label l') ∧ 95 ∉ l

def OwnerForm (n : Str) : Prop :=
  ∃ l ls, NameOf (l :: ls) n ∧ (l = str "*" ∨ Label l) ∧ ∀ l' ∈ ls, Label l'

theorem label_of_labelOK {l : Str} {u : Bool} (h : labelOK l u = true) :
    Label l ∧ (u = false → 95 ∉ l) := by
  simp only [labelOK, Bool.and_eq_true, Bool.not_eq_true', Bool.or_eq_false_iff,
    List.isEmpty_eq_false_iff,
    decide_eq_false_iff_not, not_lt, List.all_eq_true, Bool.or_eq_true,
      beq_eq_false_iff_ne, beq_iff_eq,
    decide_eq_true_eq] at h
  obtain ⟨⟨⟨⟨hne, hlen⟩, hfirst⟩, hlast⟩, hall⟩ := h
  refine ⟨⟨⟨List.length_pos_iff.2 hne, hlen⟩, fun b hb => ?_, hfirst, hlast⟩, ?_⟩
  · rcases hall b hb with ((h | h) | h) | h
    · exact .inl h
    · exact .inr (.inl h)
    · exact .inr (.inr (.inr h))
    · exact .inr (.inr (.inl h.1))
  · rintro rfl hmem
    have := hall 95 hmem
    revert this
    decide

theorem Canonical.nameOf {n : Str} (h : Canonical n) : NameOf (labelsOf n) n := by
  obtain ⟨hne, hn, hl⟩ := h.labelsOf_spec
  refine ⟨h.lower, ⟨hne, hn⟩, ⟨h.hasSuffix, fun hsuf => ?_⟩, ?_⟩
  · refine not_contains_join hl hne ?_
    rw [← hn]
    exact List.IsSuffix.isInfix hsuf
  · have := h.length_le
    omega

theorem IsZone.form {z : Str} (h : IsZone z) : ZoneForm z := by
  have hname := h.1.nameOf
  obtain ⟨l, ls, hls⟩ := List.exists_cons_of_ne_nil hname.labels.1
  have hok := h.2
  rw [hls] at hname hok
  have hfirst := label_of_labelOK (hok (l, 0) (by simp))
  refine ⟨l, ls, hname, fun l' hl' => ?_, hfirst.2 rfl⟩
  obtain ⟨i, hi⟩ := List.mem_iff_getElem?.1 hl'
  exact (label_of_labelOK (hok (l', i) (List.mk_mem_zipIdx_iff_getElem?.2 hi))).1

theorem IsOwner.form {z n : Str} (h : IsOwner z n) : OwnerForm n := by
  have hname := h.canonical.nameOf
  obtain ⟨l, ls, hls⟩ := List.exists_cons_of_ne_nil hname.labels.1
  have hok := h.labels
  rw [hls] at hname hok
  refine ⟨l, ls, hname, ?_, fun l' hl' => ?_⟩
  · have hfirst := hok (l, 0) (by simp)
    rw [ownerLabel, Bool.or_eq_true, Bool.and_eq_true, beq_iff_eq] at hfirst
    exact hfirst.imp And.left fun h => (label_of_labelOK h).1
  · obtain ⟨i, hi⟩ := List.mem_iff_getElem?.1 hl'
    have hrest := hok (l', i + 1) (List.mk_mem_zipIdx_iff_getElem?.2 (by simpa using hi))
    rw [ownerLabel, Bool.or_eq_true] at hrest
    rcases hrest with h | h
    · simp at h
    · exact (label_of_labelOK h).1

/-! ## Two spellings of an owner name -/

/-- A relative name: no white space around it, no final dot, not the apex. -/
structure Relative (r : Str) : Prop where
  trimmed : trimSpace r = r
  noDot : ¬ HasSuffix r [dot]
  notApex : r ≠ [] ∧ r ≠ str "@"

theorem getLast_cons_zone {z : Str} (hz : IsZone z) : (dot :: z).getLast? = some dot := by
  obtain ⟨u, hu⟩ := hz.1.hasSuffix
  rw [← hu, ← List.cons_append, List.getLast?_concat]

theorem Relative.trimSpace_append {r z : Str} (h : Relative r) (hz : IsZone z) :
    trimSpace (r ++ dot :: z) = r ++ dot :: z :=
  Str.trimSpace_append h.trimmed h.notApex.1 (by decide) (getLast_cons_zone hz) (by decide)

theorem split_of_dot {s t : Str} (hs : trimSpace s = dot :: t) : ∃ e, split E s = .error e := by
  cases h : split E s with
  | error e => exact ⟨e, rfl⟩
  | ok p =>
    exfalso
    obtain ⟨fq, ls⟩ := p
    have hu := toLower_cons E.cases (show dot < 0x80 by decide) t
    unfold split at h
    dsimp only at h
    rw [hs, hu] at h
    split_ifs at h with h1 h2 h3 h4
    refine h3 (.inl ?_)
    rcases E.fqdn_eq (lowerByte dot :: toLower E.cases t) with hf | hf <;> rw [hf]
    exacts [⟨_, rfl⟩, ⟨toLower E.cases t ++ [dot], rfl⟩]

theorem recordName_relative {r z : Str} (h : Relative r) (hz : IsZone z) :
    (recordName E z r).toOption = (recordName E z (r ++ dot :: z)).toOption := by
  have hsuf : HasSuffix (r ++ dot :: z) [dot] := by
    obtain ⟨u, hu⟩ := hz.1.hasSuffix
    exact ⟨r ++ dot :: u, by rw [← hu]; simp⟩
  have hne : ¬ (r ++ dot :: z = [] ∨ r ++ dot :: z = str "@") := by
    rintro (hnil | hat)
    · simp at hnil
    · have : dot ∈ str "@" := hat ▸ by simp
      revert this
      decide
  have habs : ¬ (¬ HasSuffix (r ++ dot :: z) [dot] ∧ HasPrefix (r ++ dot :: z) [dot]) :=
    fun hp => hp.1 hsuf
  rw [recordName, recordName, canonicalZone_of_isZone hz]
  simp only [bind, Except.bind]
  rw [h.trimmed, h.trimSpace_append hz, if_neg (not_or.2 h.notApex), if_neg hne, if_neg habs,
    if_neg h.noDot,
    if_pos hsuf]
  by_cases hpre : HasPrefix r [dot]
  · obtain ⟨t, rfl⟩ := hpre
    obtain ⟨e, he⟩ := split_of_dot (E := E) (h.trimSpace_append hz)
    rw [if_pos ⟨h.noDot, t, rfl⟩, he]
    rfl
  · rw [if_neg fun hp : _ ∧ _ => hpre hp.2]

/-- **Accepted names are canonical.**  Zone and owner names come out in the canonical form, which
    both functions return unchanged; an owner name lies in its zone; and a relative name is the same
    owner name as its absolute spelling, or refused like it. -/
theorem names_canonical (E : Env) :
    (∀ s z, zoneName E s = .ok z → canonicalZone E s = .ok z ∧ ZoneForm z ∧ zoneName E z = .ok z) ∧
      (∀ zone name n, recordName E zone name = .ok n → ∃ z, canonicalZone E zone = .ok z ∧
        OwnerForm n ∧
        (n = z ∨ ∃ p, n = p ++ dot :: z) ∧ recordName E zone n = .ok n) ∧
      ∀ z r, canonicalZone E z = .ok z → Relative r →
        (recordName E z r).toOption = (recordName E z (r ++ dot :: z)).toOption := by
  refine ⟨fun s z h => ⟨?_, (zoneName_spec h).form, zoneName_self h⟩, fun zone name n h => ?_,
      fun z r hz hr =>
    recordName_relative hr (canonicalZone_spec hz)⟩
  · obtain ⟨z', hz', h⟩ := Except.bind_eq_ok.1 h
    dsimp only at h
    split_ifs at h <;> cases h <;> exact hz'
  · obtain ⟨z, hz, -⟩ := Except.bind_eq_ok.1 h
    rw [← recordName_canonicalZone hz] at h ⊢
    have hzone := canonicalZone_spec hz
    have howner := recordName_spec hzone h
    refine ⟨z, hz, howner.form, howner.inside.imp_right ?_, recordName_of_isOwner hzone howner⟩
    rintro ⟨p, hp⟩
    exact ⟨p, hp.symm⟩

/-! ## The text of accepted names -/

inductive Accepts (E : Env) (s : Str) : Prop
  | zone {z : Str} (h : zoneName E s = .ok z)
  | owner {zone n : Str} (h : recordName E zone s = .ok n)
  | host {h : Str} (hh : hostname E s = .ok h)

/-- Only printable ASCII. -/
def Printable (s : Str) : Prop := ∀ b ∈ s, 0x21 ≤ b ∧ b ≤ 0x7e

instance (s : Str) : Decidable (Printable s) := List.decidableBAll (fun b => 0x21 ≤ b ∧ b ≤ 0x7e) s

/-- Neither `İ` (U+0130) nor the Kelvin sign (U+212A), whose lower case is an ASCII letter. -/
def NoAlias (s : Str) : Prop := ∀ r ∈ runes s, r ≠ 0x130 ∧ r ≠ 0x212A

instance (s : Str) : Decidable (NoAlias s) :=
  List.decidableBAll (fun r => r ≠ 0x130 ∧ r ≠ 0x212A) (runes s)

theorem Printable.isASCII {s : Str} (h : Printable s) : isASCII s = true :=
  isASCII_iff.2 fun b hb => by have := h b hb; grind

theorem printable_iff_noAlias {s t : Str} (ht : Printable (toLower E.cases t))
    (hs : ∀ r ∈ runes s, r ∈ runes t) :
    Printable s ↔ NoAlias s := by
  constructor
  · intro h r hr
    rw [runes_ascii h.isASCII] at hr
    obtain ⟨b, -, rfl⟩ := List.mem_map.1 hr
    have := b.toNat_lt
    constructor <;> omega
  · intro h
    have hrune (r : ℕ) (hr : r ∈ runes s) : 0x21 ≤ r ∧ r ≤ 0x7e :=
      printable_of_toLower E.cases (fun c hc => ht c (mem_toLower E.cases (hs r hr) c hc))
        (h r hr).1 (h r hr).2
    have hascii : isASCII s = true := isASCII_of_runes fun r hr => by have := hrune r hr; omega
    intro b hb
    have := hrune b.toNat (by rw [runes_ascii hascii]; exact List.mem_map_of_mem hb)
    rw [UInt8.le_iff_toNat_le, UInt8.le_iff_toNat_le]
    exact this

theorem split_printable {s : Str} {p : Str × List Str} (h : split E s = .ok p) :
    Printable (toLower E.cases (trimSpace s)) := by
  unfold split at h
  dsimp only at h
  split_ifs at h with h1
  intro b hb
  simp only [List.any_eq_true, Bool.or_eq_true, decide_eq_true_eq, not_exists, not_and,
    not_or] at h1
  have := h1 b hb
  grind

theorem split_printable_iff {s : Str} {p : Str × List Str} (h : split E s = .ok p) :
    Printable (trimSpace s) ↔ NoAlias (trimSpace s) :=
  printable_iff_noAlias (split_printable h) fun _ hr => hr

/-- **When an accepted name is printable ASCII:** exactly if none of its letters is one of the two
    that are not ASCII but have an ASCII letter as their lower case. -/
theorem accepted_printable_iff (E : Env) (s : Str) (h : Accepts E s) :
    Printable (trimSpace s) ↔ NoAlias (trimSpace s) := by
  cases h with
  | zone h =>
    obtain ⟨z, hz, -⟩ := Except.bind_eq_ok.1 h
    obtain ⟨p, hs, -⟩ := Except.bind_eq_ok.1 hz
    exact split_printable_iff hs
  | host h =>
    obtain ⟨p, hs, -⟩ := Except.bind_eq_ok.1 h
    exact split_printable_iff hs
  | owner h =>
    obtain ⟨z, hz, h⟩ := Except.bind_eq_ok.1 h
    dsimp only at h
    by_cases hapex : trimSpace s = [] ∨ trimSpace s = str "@"
    · rcases hapex with hnil | hat
      · rw [hnil]
        decide
      · rw [hat]
        decide +kernel
    rw [if_neg hapex] at h
    split_ifs at h with hdot hsuf
    · obtain ⟨p, hs, -⟩ := Except.bind_eq_ok.1 h
      have hiff := split_printable_iff hs
      rwa [trimSpace_trimSpace] at hiff
    · obtain ⟨p, hs, -⟩ := Except.bind_eq_ok.1 h
      have hrel : Relative (trimSpace s) := ⟨trimSpace_trimSpace s, hsuf, not_or.1 hapex⟩
      have hprint := split_printable hs
      rw [hrel.trimSpace_append (canonicalZone_spec hz)] at hprint
      refine printable_iff_noAlias hprint fun r hr => ?_
      rw [runes_append_ascii (by decide)]
      exact List.mem_append_left _ hr

/-- A name with white space and capital letters. -/
theorem accepted_printable_iff_sample : Accepts .sample (str " WWW.Example.com ") ∧
    (Printable (trimSpace (str " WWW.Example.com ")) ↔
      NoAlias (trimSpace (str " WWW.Example.com "))) := by
  have h : Accepts .sample (str " WWW.Example.com ") :=
    .zone (z := str "www.example.com.") (by decide +kernel)
  exact ⟨h, accepted_printable_iff .sample _ h⟩

/-- The Kelvin sign is accepted as the letter `k`, in all three kinds of names. -/
theorem kelvin_accepted :
    let kelvin : Str := [0xE2, 0x84, 0xAA]
    zoneName .sample (kelvin ++ str ".example") = .ok (str "k.example.") ∧
      recordName .sample (str "example.com.") kelvin = .ok (str "k.example.com.") ∧
      hostname .sample (kelvin ++ str ".example") = .ok (str "k.example.") ∧
      ¬ Printable (trimSpace kelvin) ∧ ¬ Printable (trimSpace (kelvin ++ str ".example")) := by
  decide +kernel

end TangraDns.Validate
