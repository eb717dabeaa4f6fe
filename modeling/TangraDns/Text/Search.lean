/-
  Searching encoded text: a substring of its bytes is a substring of its runes.
-/
import TangraDns.Text.Utf8

namespace Str

open List

theorem isCont_ofNat {n : ℕ} (h : n < 256) :
    isCont (UInt8.ofNat n) = decide (0x80 ≤ n ∧ n ≤ 0xBF) := by
  have hn : (UInt8.ofNat n).toNat = n := by simp; omega
  simp [isCont, UInt8.le_iff_toNat_le, hn]

theorem encodeRune_form (r : ℕ) :
    ∃ b t, encodeRune r = b :: t ∧ isCont b = false ∧ ∀ c ∈ t, isCont c = true := by
  unfold encodeRune
  split_ifs with h1 h2 h3 h4
  · exact ⟨_, _, rfl, by rw [isCont_ofNat (by omega)]; simp; omega, by simp⟩
  · refine ⟨_, _, rfl, by rw [isCont_ofNat (by omega)]; simp; omega, ?_⟩
    simp only [mem_singleton, forall_eq]
    rw [isCont_ofNat (by omega)]
    simp
    omega
  · exact ⟨_, _, rfl, by decide, by simp [isCont]⟩
  · refine ⟨_, _, rfl, by rw [isCont_ofNat (by omega)]; simp; omega, ?_⟩
    simp only [mem_cons, not_mem_nil, or_false, forall_eq_or_imp, forall_eq]
    rw [isCont_ofNat (by omega), isCont_ofNat (by omega)]
    simp
    omega
  · refine ⟨_, _, rfl, by rw [isCont_ofNat (by omega)]; simp; omega, ?_⟩
    simp only [mem_cons, not_mem_nil, or_false, forall_eq_or_imp, forall_eq]
    rw [isCont_ofNat (by omega), isCont_ofNat (by omega), isCont_ofNat (by omega)]
    simp
    omega

theorem le_of_mem_encodeRune {r : ℕ} (hr : 0x80 ≤ r) : ∀ b ∈ encodeRune r, 0x80 ≤ b := by
  have key {n : ℕ} (h : n < 256) (h' : 0x80 ≤ n) : 0x80 ≤ UInt8.ofNat n := by
    rw [UInt8.le_iff_toNat_le]
    simp
    omega
  unfold encodeRune
  split_ifs with h1 h2 h3 h4
  · omega
  · simp only [mem_cons, not_mem_nil, or_false, forall_eq_or_imp, forall_eq]
    exact ⟨key (by omega) (by omega), key (by omega) (by omega)⟩
  · simp
  · simp only [mem_cons, not_mem_nil, or_false, forall_eq_or_imp, forall_eq]
    exact ⟨key (by omega) (by omega), key (by omega) (by omega), key (by omega) (by omega)⟩
  · simp only [mem_cons, not_mem_nil, or_false, forall_eq_or_imp, forall_eq]
    exact ⟨key (by omega) (by omega), key (by omega) (by omega), key (by omega) (by omega),
      key (by omega) (by omega)⟩

theorem prefix_of_encoded {xs ys : List ℕ} (h : xs.flatMap encodeRune <+: ys.flatMap encodeRune) :
    xs.map validRune <+: ys.map validRune := by
  induction xs generalizing ys with
  | nil => exact nil_prefix
  | cons x xs ih =>
    obtain ⟨t, ht⟩ := h
    cases ys with
    | nil => simp [encodeRune_ne_nil] at ht
    | cons y ys =>
      -- both texts begin with the same rune
      simp only [flatMap_cons, append_assoc] at ht
      have hx := decodeRune_encodeRune x (xs.flatMap encodeRune ++ t)
      rw [ht, decodeRune_encodeRune y] at hx
      obtain ⟨hrune, hlen⟩ := Prod.mk.inj hx
      have henc : encodeRune x = encodeRune y := by
        rw [← encodeRune_validRune x, ← hrune, encodeRune_validRune]
      rw [henc, append_cancel_left_eq] at ht
      rw [map_cons, map_cons, hrune]
      exact (prefix_cons_inj _).2 (ih ⟨t, ht⟩)

/-- **A substring of bytes is a substring of runes.** -/
theorem infix_encoded_iff {xs ys : List ℕ} :
    xs.flatMap encodeRune <:+: ys.flatMap encodeRune ↔ xs.map validRune <:+: ys.map validRune := by
  have hvalid (zs : List ℕ) : (zs.map validRune).flatMap encodeRune = zs.flatMap encodeRune := by
    rw [flatMap_map]
    exact flatMap_congr fun r _ => encodeRune_validRune r
  constructor
  · intro h
    cases xs with
    | nil => exact nil_infix
    | cons x xs =>
      induction ys with
      | nil => simp [encodeRune_ne_nil] at h
      | cons y ys ih =>
        obtain ⟨p, t, h⟩ := h
        by_cases hp : p = []
        · subst hp
          exact (prefix_of_encoded ⟨t, h⟩).isInfix
        have hsuffix : ys.map validRune <:+: (y :: ys).map validRune := (suffix_cons _ _).isInfix
        rw [flatMap_cons (x := y), append_assoc] at h
        rcases append_eq_append_iff.1 h with ⟨w, hw, hrest⟩ | ⟨w, rfl, hrest⟩
        · cases w with
          | nil => exact (ih ⟨[], t, hrest⟩).trans hsuffix
          | cons d w =>
            -- a search that starts inside a rune would start with a continuation byte
            obtain ⟨b, u, hx, hb, -⟩ := encodeRune_form x
            obtain ⟨c, v, hy, -, hv⟩ := encodeRune_form y
            obtain ⟨e, p, rfl⟩ := exists_cons_of_ne_nil hp
            rw [hy, cons_append, List.cons.injEq] at hw
            rw [flatMap_cons, hx] at hrest
            have hd : d ∈ v := by simp [hw.2]
            rw [show b = d from (List.cons.inj hrest).1, hv d hd] at hb
            cases hb
        · exact (ih ⟨w, t, by rw [append_assoc]; exact hrest.symm⟩).trans hsuffix
  · rintro ⟨p, t, h⟩
    refine ⟨p.flatMap encodeRune, t.flatMap encodeRune, ?_⟩
    rw [← hvalid xs, ← hvalid ys, ← h]
    simp

end Str
