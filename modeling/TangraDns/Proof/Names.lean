/-
  What accepted names look like (`Validate.Names`).
-/
import TangraDns.Data.Except
import TangraDns.Validate.Names

namespace TangraDns.Validate

open List Str

variable {E : Env}
variable {n s z : Str}

/-! ## The canonical form -/

/-- A canonical name: printable, in lower case, one final dot, no empty label, no escape, at most
    253 octets. -/
structure Canonical (n : Str) : Prop where
  lower : IsLowerStr n
  printable : ∀ b ∈ n, 0x21 ≤ b ∧ b ≤ 0x7e
  noEscape : 92 ∉ n
  length_le : n.length ≤ 254
  labels : ∃ ls : List Str, ls ≠ [] ∧ n = join dot ls ++ [dot] ∧ ∀ l ∈ ls, l ≠ [] ∧ dot ∉ l

/-- The labels of a name with its final dot. -/
def labelsOf (n : Str) : List Str := Str.split dot n.dropLast

theorem Canonical.labelsOf_spec (h : Canonical n) :
    labelsOf n ≠ [] ∧ n = join dot (labelsOf n) ++ [dot] ∧ ∀ l ∈ labelsOf n, l ≠ [] ∧ dot ∉ l := by
  obtain ⟨ls, hne, hn, hl⟩ := h.labels
  have : labelsOf n = ls := by
    rw [labelsOf, hn, dropLast_append_of_ne_nil (by simp)]
    simpa using split_join (fun l h => (hl l h).2) hne
  rw [this]
  exact ⟨hne, hn, hl⟩

theorem split_spec {fq : Str} {ls : List Str} (h : split E s = .ok (fq, ls)) :
    Canonical fq ∧ ls = labelsOf fq := by
  unfold split at h
  dsimp only at h
  generalize hs : toLower E.cases (trimSpace s) = t at h
  split_ifs at h with h1 h2 h3 h4
  cases h
  simp only [any_eq_true, Bool.or_eq_true, decide_eq_true_eq, not_exists, not_and, not_or]
    at h1
  simp only [not_or] at h2 h3
  obtain ⟨hp, hc, h92⟩ := h3
  have hlow : IsLowerStr t := fun b hb =>
    ⟨by have := (h1 b hb).2; grind, isUpper_of_mem_toLower E.cases (by rw [hs]; exact hb)⟩
  have hdot : IsLowerStr [dot] := by decide
  have hprint : ∀ b ∈ t, 0x21 ≤ b ∧ b ≤ 0x7e := fun b hb => by have := h1 b hb; grind
  have ht92 : 92 ∉ t := by
    rcases E.fqdn_eq t with h | h <;> rw [h] at h92
    · exact h92
    · exact fun hm => h92 (by simp [hm])
  -- the name without its final dot
  obtain ⟨u, hu, hfq⟩ : ∃ u, u ≠ [] ∧ E.fqdn t = u ++ [dot] := by
    rw [E.fqdn_plain t ht92]
    split_ifs with hsuf
    · obtain ⟨u, hu⟩ := hsuf
      refine ⟨u, ?_, hu.symm⟩
      rintro rfl
      exact h2.2 hu.symm
    · exact ⟨t, h2.1, rfl⟩
  have hlower : IsLowerStr (E.fqdn t) := by
    rcases E.fqdn_eq t with h | h <;> rw [h]
    exacts [hlow, hlow.append hdot]
  have hprintable : ∀ b ∈ E.fqdn t, 0x21 ≤ b ∧ b ≤ 0x7e := by
    rcases E.fqdn_eq t with h | h <;> rw [h] <;> intro b hb
    · exact hprint b hb
    · rcases mem_append.1 hb with hb | hb
      · exact hprint b hb
      · rw [mem_singleton.1 hb]; decide
  rw [hfq] at hp hc h92 h4 hlower hprintable ⊢
  have hne : ∀ l ∈ Str.split dot u, l ≠ [] := fun l hl => ne_nil_of_mem_split hu hp hc hl
  have h92u : 92 ∉ u := fun hm => h92 (by simp [hm])
  refine ⟨⟨hlower, hprintable, h92, ?_, Str.split dot u,
      split_ne_nil _ _, by rw [join_split], fun l hl =>
    ⟨hne l hl, not_mem_of_mem_split hl⟩⟩, ?_⟩
  · simp only [maxName, length_append, length_singleton] at h4 ⊢; omega
  · rw [E.splitDomainName_plain u h92u hne, labelsOf, dropLast_concat]

theorem split_canonical (h : Canonical n) : split E n = .ok (n, labelsOf n) := by
  obtain ⟨hne, hn, hl⟩ := h.labelsOf_spec
  have hlast : HasSuffix n [dot] := ⟨_, hn.symm⟩
  have hfq : E.fqdn n = n := by rw [E.fqdn_plain n h.noEscape, if_pos hlast]
  have hlabels : E.splitDomainName n = labelsOf n := by
    have h92 : 92 ∉ join dot (labelsOf n) := fun hm => h.noEscape (by rw [hn]; simp [hm])
    conv_lhs => rw [hn]
    have hs := split_join (fun l hl' => (hl l hl').2) hne
    rw [E.splitDomainName_plain _ h92 (by rw [hs]; exact fun l hl' => (hl l hl').1), hs]
  unfold split
  rw [trimSpace_of_printable h.printable, toLower_of_isLowerStr E.cases h.lower]
  dsimp only
  rw [hfq, hlabels, if_neg, if_neg, if_neg, if_neg]
  · have := h.length_le
    simp only [maxName, not_lt]
    omega
  · rintro (hp | hc | h92)
    · rw [hn] at hp
      exact not_hasPrefix_join hl hne hp
    · rw [hn] at hc
      exact not_contains_join hl hne hc
    · exact h.noEscape h92
  · -- the first label is not empty
    obtain ⟨l, ls, hls⟩ := exists_cons_of_ne_nil hne
    have hl' := (hl l (by simp [hls])).1
    have hlen : 2 ≤ n.length := by
      have : 1 ≤ l.length := length_pos_iff.2 hl'
      rw [hn, hls]
      cases ls with
      | nil => simp only [join_singleton, length_append, length_singleton]; omega
      | cons l' ls => simp only [join_cons_cons, length_append, length_cons]; omega
    rintro (h | h) <;> rw [h] at hlen <;> simp at hlen
  · simp only [any_eq_true, Bool.or_eq_true, decide_eq_true_eq, not_exists, not_and, not_or]
    intro b hb
    have := h.printable b hb
    grind

theorem badLabel_eq_none {ok : Str → ℕ → Bool} {ls : List Str} :
    badLabel ok ls = none ↔ ∀ p ∈ ls.zipIdx, ok p.1 p.2 = true := by
  simp only [badLabel, Option.map_eq_none_iff, find?_eq_none, Bool.not_eq_true',
    Bool.not_eq_false]

/-! ## Zone names -/

/-- A name of the syntax of zones. -/
def IsZone (z : Str) : Prop :=
  Canonical z ∧ ∀ p ∈ (labelsOf z).zipIdx, labelOK p.1 (decide (0 < p.2)) = true

theorem canonicalZone_spec (h : canonicalZone E s = .ok z) : IsZone z := by
  obtain ⟨⟨fq, ls⟩, hs, h⟩ := Except.bind_eq_ok.1 h
  obtain ⟨hc, rfl⟩ := split_spec hs
  dsimp only at h
  split at h
  · cases h
  next hb => cases h; exact ⟨hc, badLabel_eq_none.1 hb⟩

theorem zoneName_spec (h : zoneName E s = .ok z) : IsZone z := by
  obtain ⟨z', hs, h⟩ := Except.bind_eq_ok.1 h
  have : z' = z := by
    dsimp only at h
    split_ifs at h <;> exact Except.ok.inj h
  exact this ▸ canonicalZone_spec hs

theorem IsZone.toLower_eq (h : IsZone z) : toLower E.cases z = z :=
  toLower_of_isLowerStr E.cases h.1.lower

theorem canonicalZone_of_isZone (h : IsZone z) : canonicalZone E z = .ok z := by
  have hlabels : badLabel (fun l i => labelOK l (decide (0 < i))) (labelsOf z) = none :=
    badLabel_eq_none.2 h.2
  rw [canonicalZone, split_canonical h.1]
  simp only [bind, Except.bind, hlabels]

/-! ## Owner names -/

def ownerLabel (l : Str) (i : ℕ) : Bool := (l == str "*" && i == 0) || labelOK l true

structure IsOwner (z n : Str) : Prop where
  canonical : Canonical n
  labels : ∀ p ∈ (labelsOf n).zipIdx, ownerLabel p.1 p.2 = true
  inside : n = z ∨ Under n z

theorem labelOK_true {l : Str} {u : Bool} (h : labelOK l u = true) : labelOK l true = true := by
  simp only [labelOK, Bool.and_eq_true, all_eq_true, Bool.or_eq_true, beq_iff_eq] at h ⊢
  exact ⟨h.1, fun c hc => (h.2 c hc).imp_right fun h => ⟨h.1, trivial⟩⟩

theorem IsZone.isOwner (h : IsZone z) : IsOwner z z where
  canonical := h.1
  labels p hp := by rw [ownerLabel, labelOK_true (h.2 p hp), Bool.or_true]
  inside := .inl rfl

theorem recordName_spec (hz : IsZone z) (h : recordName E z s = .ok n) : IsOwner z n := by
  obtain ⟨z', hz', h⟩ := Except.bind_eq_ok.1 h
  rw [canonicalZone_of_isZone hz] at hz'
  cases hz'
  dsimp only at h
  by_cases h1 : trimSpace s = [] ∨ trimSpace s = str "@"
  · rw [if_pos h1] at h
    cases h
    exact hz.isOwner
  rw [if_neg h1] at h
  by_cases h2 : ¬ HasSuffix (trimSpace s) [dot] ∧ HasPrefix (trimSpace s) [dot]
  · rw [if_pos h2] at h
    cases h
  rw [if_neg h2] at h
  obtain ⟨⟨fq, ls⟩, hs, h⟩ := Except.bind_eq_ok.1 h
  obtain ⟨hc, rfl⟩ := split_spec hs
  dsimp only at h
  split at h
  · cases h
  next hb =>
    split_ifs at h with hin
    cases h
    have hb' : badLabel ownerLabel (labelsOf n) = none := hb
    exact ⟨hc, badLabel_eq_none.1 hb', (not_and_or.1 hin).imp not_not.1 not_not.1⟩

theorem recordName_canonicalZone (h : canonicalZone E s = .ok z) :
    recordName E z n = recordName E s n := by
  unfold recordName
  rw [h, canonicalZone_of_isZone (canonicalZone_spec h)]

theorem Canonical.hasSuffix (h : Canonical n) : HasSuffix n [dot] :=
  ⟨_, h.labelsOf_spec.2.1.symm⟩

theorem recordName_of_isOwner (hz : IsZone z) (h : IsOwner z n) :
    recordName E z n = .ok n := by
  have hne : ¬ (n = [] ∨ n = str "@") := by
    have := h.canonical.hasSuffix
    rintro (rfl | rfl) <;> revert this <;> decide
  have hlabels : badLabel (fun l i => (l == str "*" && i == 0) || labelOK l true)
      (labelsOf n) = none :=
    badLabel_eq_none.2 h.labels
  rw [recordName, canonicalZone_of_isZone hz]
  simp only [bind, Except.bind]
  rw [trimSpace_of_printable h.canonical.printable, if_neg hne,
    if_neg (fun hp => hp.1 h.canonical.hasSuffix),
    if_pos h.canonical.hasSuffix, split_canonical h.canonical]
  simp only [hlabels]
  exact if_neg fun hout => h.inside.elim hout.1 hout.2

/-! ## Host names -/

structure IsHost (h : Str) : Prop where
  canonical : Canonical h
  two : 2 ≤ (labelsOf h).length
  labels : ∀ l ∈ labelsOf h, labelOK l false = true
  notNumber : atoi ((labelsOf h).getLastD []) = none

theorem hostname_eq_ok {h : Str} : hostname E s = .ok h ↔ ∃ ls, split E s = .ok (h, ls) ∧
    2 ≤ ls.length ∧
    (∀ l ∈ ls, labelOK l false = true) ∧ atoi (ls.getLastD []) = none := by
  have hbad {ls : List Str} : badLabel (fun l _ => labelOK l false) ls = none ↔
      ∀ l ∈ ls, labelOK l false = true := by
    rw [badLabel_eq_none]
    refine ⟨fun h l hl => ?_, fun h p hp => h p.1 (fst_mem_of_mem_zipIdx hp)⟩
    obtain ⟨i, hi⟩ := mem_iff_getElem?.1 hl
    exact h (l, i) (mk_mem_zipIdx_iff_getElem?.2 hi)
  unfold hostname
  constructor
  · intro hh
    obtain ⟨⟨fq, ls⟩, hs, hh⟩ := Except.bind_eq_ok.1 hh
    dsimp only at hh
    by_cases h2 : ls.length < 2
    · rw [if_pos h2] at hh
      cases hh
    rw [if_neg h2] at hh
    split at hh
    · cases hh
    next hb =>
      split_ifs at hh with hn
      cases hh
      exact ⟨ls, hs, not_lt.1 h2, hbad.1 hb, by simpa using hn⟩
  · rintro ⟨ls, hs, h2, hl, hn⟩
    rw [hs]
    simp only [bind, Except.bind, if_neg (not_lt.2 h2), hbad.2 hl, hn, Option.isSome_none,
      Bool.false_eq_true, if_false]

theorem hostname_spec {h : Str} (hh : hostname E s = .ok h) : IsHost h := by
  obtain ⟨ls, hs, htwo, hlabels, hnum⟩ := hostname_eq_ok.1 hh
  obtain ⟨hc, rfl⟩ := split_spec hs
  exact ⟨hc, htwo, hlabels, hnum⟩

end TangraDns.Validate
