/-
  UTF-8 and letter case: decoding undoes encoding, upper case is upper case and
  lower case is lower case.
-/
import TangraDns.Text.Unicode

namespace Str

open List

variable {r : Nat} {s : Str} {b : UInt8}

/-! ## Decoding what was encoded -/

theorem decodeRune_encodeRune (r : Nat) (s : Str) :
    decodeRune (encodeRune r ++ s) = (validRune r, (encodeRune r).length) := by
  have hb : ∀ n < 256, (UInt8.ofNat n).toNat = n := fun n h => by simp; omega
  have heq : ∀ n m, n < 256 → m < 256 →
      (UInt8.ofNat n = UInt8.ofNat m ↔ n = m) := fun n m hn hm => by
    rw [← UInt8.toNat_inj, hb n hn, hb m hm]
  unfold encodeRune validRune
  -- by the length of the encoding; the bounds of each length make the decoder take its branch
  split_ifs with h1 h2 h3 h4
  · omega
  · simp only [cons_append, nil_append, decodeRune, UInt8.lt_iff_toNat_lt, hb r (by omega)]
    simp [h1]
  · omega
  · have e0 := hb (0xC0 + r / 64) (by omega)
    have e1 := hb (0x80 + r % 64) (by omega)
    simp only [cons_append, nil_append, decodeRune, isCont, UInt8.lt_iff_toNat_lt,
      UInt8.le_iff_toNat_le, Bool.and_eq_true, decide_eq_true_eq, e0, e1]
    rw [if_neg (by simp; omega), if_pos (by simp; omega)]
    simp
    omega
  · rfl
  · have e0 := hb (0xE0 + r / 4096) (by omega)
    have e1 := hb (0x80 + r / 64 % 64) (by omega)
    have e2 := hb (0x80 + r % 64) (by omega)
    have q0 : UInt8.ofNat (0xE0 + r / 4096) = 0xE0 ↔ r / 4096 = 0 :=
      (heq _ 0xE0 (by omega) (by omega)).trans (by omega)
    have q1 : UInt8.ofNat (0xE0 + r / 4096) = 0xED ↔ r / 4096 = 13 :=
      (heq _ 0xED (by omega) (by omega)).trans (by omega)
    simp only [cons_append, nil_append, decodeRune, isCont, UInt8.lt_iff_toNat_lt,
      UInt8.le_iff_toNat_le, Bool.and_eq_true, decide_eq_true_eq, e0, e1, e2, q0, q1]
    rw [if_neg (by simp; omega), if_neg (by simp; omega), if_pos (by simp; omega)]
    simp
    omega
  · have e0 := hb (0xF0 + r / 262144) (by omega)
    have e1 := hb (0x80 + r / 4096 % 64) (by omega)
    have e2 := hb (0x80 + r / 64 % 64) (by omega)
    have e3 := hb (0x80 + r % 64) (by omega)
    have q0 : UInt8.ofNat (0xF0 + r / 262144) = 0xF0 ↔ r / 262144 = 0 :=
      (heq _ 0xF0 (by omega) (by omega)).trans (by omega)
    have q1 : UInt8.ofNat (0xF0 + r / 262144) = 0xF4 ↔ r / 262144 = 4 :=
      (heq _ 0xF4 (by omega) (by omega)).trans (by omega)
    simp only [cons_append, nil_append, decodeRune, isCont, UInt8.lt_iff_toNat_lt,
      UInt8.le_iff_toNat_le, Bool.and_eq_true, decide_eq_true_eq, e0, e1, e2, e3, q0, q1]
    rw [if_neg (by simp; omega), if_neg (by simp; omega), if_neg (by simp; omega),
      if_pos (by simp; omega)]
    simp
    omega
theorem encodeRune_ne_nil (r : Nat) : encodeRune r ≠ [] := by
  unfold encodeRune
  split_ifs <;> simp

theorem segmentsAux_encode : ∀ (rs : List Nat) (n : ℕ), (rs.flatMap encodeRune).length ≤ n →
    (segmentsAux n (rs.flatMap encodeRune)).map Prod.snd = rs.map validRune
  | [], n, _ => by cases n <;> rfl
  | r :: rs, n, hn => by
    rw [flatMap_cons, length_append] at hn
    have hpos := length_pos_iff.2 (encodeRune_ne_nil r)
    obtain ⟨m, rfl⟩ : ∃ m, n = m + 1 := ⟨n - 1, by omega⟩
    rw [flatMap_cons]
    obtain ⟨b, t, ht⟩ := exists_cons_of_ne_nil (l := encodeRune r ++ rs.flatMap encodeRune)
      (by simp [encodeRune_ne_nil])
    rw [ht, segmentsAux, ← ht, decodeRune_encodeRune, drop_left, map_cons, map_cons,
      segmentsAux_encode rs m (by omega)]

theorem runes_flatMap_encodeRune (rs : List Nat) :
    runes (rs.flatMap encodeRune) = rs.map validRune :=
  segmentsAux_encode rs _ le_rfl

/-! ## Mapping twice -/

theorem isASCII_encodeRune (h : isASCII (encodeRune r) = true) : r < 0x80 := by
  have hb : ∀ n < 256, 128 ≤ n → ¬ (UInt8.ofNat n < 0x80) := fun n h h' => by
    rw [UInt8.lt_iff_toNat_lt]; simp; omega
  by_contra hr
  unfold encodeRune at h
  rw [isASCII_iff] at h
  split_ifs at h with h1 h2 h3 h4
  · exact hr h1
  · exact hb _ (by omega) (by omega) (h _ (mem_cons_self ..))
  · exact absurd (h _ (mem_cons_self ..)) (by decide)
  · exact hb _ (by omega) (by omega) (h _ (mem_cons_self ..))
  · exact hb _ (by omega) (by omega) (h _ (mem_cons_self ..))

theorem isASCII_encodeRune_of_lt (h : r < 0x80) : isASCII (encodeRune r) = true := by
  rw [encodeRune, if_pos h, isASCII_iff]
  intro b hb
  rw [mem_singleton.1 hb, UInt8.lt_iff_toNat_lt]
  simp
  omega

theorem lt_of_mapped {f : Nat → Nat} {rs : List Nat}
    (hf : ∀ q ∈ rs, f (validRune q) < 0x80 → q < 0x80)
    (h : isASCII ((runes (rs.flatMap encodeRune)).flatMap fun r => encodeRune (f r)) = true) :
    ∀ q ∈ rs, q < 0x80 := by
  intro q hq
  refine hf q hq (isASCII_encodeRune (isASCII_iff.2 fun b hb => isASCII_iff.1 h b ?_))
  rw [runes_flatMap_encodeRune]
  exact mem_flatMap.2 ⟨_, mem_map_of_mem hq, hb⟩

theorem isASCII_flatMap {rs : List Nat} (h : ∀ q ∈ rs, q < 0x80) :
    isASCII (rs.flatMap encodeRune) = true := by
  rw [isASCII_iff]
  intro b hb
  obtain ⟨q, hq, hb⟩ := mem_flatMap.1 hb
  exact isASCII_iff.1 (isASCII_encodeRune_of_lt (h q hq)) b hb

theorem le_validRune (h : 0x80 ≤ r) : 0x80 ≤ validRune r := by
  unfold validRune
  split_ifs <;> omega

theorem validRune_ne {n : Nat} (h : r ≠ n) (hn : n < 0xD800) : validRune r ≠ n := by
  unfold validRune
  split_ifs
  exacts [by omega, h]

/-! ## Upper case -/

variable (U : CaseTables)

theorem isLower_upperByte (b : UInt8) : isLower (upperByte b) = false := by
  unfold upperByte; split <;> grind [isLower]

theorem upperByte_lt (h : b < 0x80) : upperByte b < 0x80 := by
  unfold upperByte; split <;> grind [isLower]

theorem isLower_toUpper (h : U.toUpper r < 0x80) :
    isLower (UInt8.ofNat (U.toUpper r)) = false := by
  have hup : ¬ (97 ≤ U.toUpper r ∧ U.toUpper r ≤ 122) := by
    rcases lt_or_ge r 128 with hr | hr
    · have := U.toUpper_ascii r hr; split_ifs at this <;> omega
    · rcases U.toUpper_into r hr h with ⟨-, h⟩ | ⟨-, h⟩ <;> omega
  have hn : (UInt8.ofNat (U.toUpper r)).toNat = U.toUpper r := by simp; omega
  simp only [isLower, Bool.and_eq_false_imp, decide_eq_true_eq, decide_eq_false_iff_not,
    UInt8.le_iff_toNat_le, hn]
  simp; omega

theorem isUpperStr_toUpper (h : isASCII (toUpper U (toUpper U s)) = true) :
    IsUpperStr (toUpper U s) := by
  by_cases hs : isASCII s = true
  · rw [toUpper, if_pos hs]
    intro b hb
    obtain ⟨c, hc, rfl⟩ := List.mem_map.1 hb
    exact ⟨upperByte_lt (isASCII_iff.1 hs c hc), isLower_upperByte c⟩
  have ht : toUpper U s = ((runes s).map U.toUpper).flatMap encodeRune := by
    rw [toUpper, if_neg hs, flatMap_map]
  -- every rune of the upper case is ASCII
  have hsmall : ∀ q ∈ (runes s).map U.toUpper, q < 0x80 := by
    by_cases hta : isASCII (toUpper U s) = true
    · intro q hq
      refine isASCII_encodeRune (isASCII_iff.2 fun b hb => isASCII_iff.1 hta b ?_)
      rw [ht]
      exact mem_flatMap.2 ⟨_, hq, hb⟩
    · rw [toUpper, if_neg hta, ht] at h
      refine lt_of_mapped (fun q hq hlt => ?_) h
      obtain ⟨r, -, rfl⟩ := List.mem_map.1 hq
      by_contra hge
      rcases U.toUpper_into _ (le_validRune (not_lt.1 hge)) hlt with ⟨hr, -⟩ | ⟨hr, -⟩
      · exact validRune_ne (U.toUpper_ne r).1 (by omega) hr
      · exact validRune_ne (U.toUpper_ne r).2 (by omega) hr
  intro b hb
  rw [ht, mem_flatMap] at hb
  obtain ⟨q, hq, hb⟩ := hb
  refine ⟨isASCII_iff.1 (isASCII_encodeRune_of_lt (hsmall q hq)) b hb, ?_⟩
  have hlt := hsmall q hq
  obtain ⟨r, -, rfl⟩ := List.mem_map.1 hq
  rw [encodeRune, if_pos hlt, mem_singleton] at hb
  exact hb ▸ isLower_toUpper U hlt

/-! ## Lower case -/

theorem lowerByte_lt (h : b < 0x80) : lowerByte b < 0x80 := by
  unfold lowerByte; split <;> grind [isUpper]

theorem encodeRune_byte (h : b < 0x80) : encodeRune b.toNat = [b] := by
  have hlt : b.toNat < 0x80 := UInt8.lt_iff_toNat_lt.1 h
  rw [encodeRune, if_pos hlt, UInt8.ofNat_toNat]

theorem toLower_encoded (s : Str) : ∃ rs : List Nat, toLower U s = rs.flatMap encodeRune ∧
    ∀ q ∈ rs, U.toLower (validRune q) < 0x80 → q < 0x80 := by
  by_cases hs : isASCII s = true
  · refine ⟨(s.map lowerByte).map UInt8.toNat, ?_, fun q hq _ => ?_⟩
    · rw [toLower, if_pos hs, flatMap_map]
      refine (flatMap_singleton' _).symm.trans (flatMap_congr fun b hb => ?_)
      obtain ⟨c, hc, rfl⟩ := List.mem_map.1 hb
      rw [encodeRune_byte (lowerByte_lt (isASCII_iff.1 hs c hc))]
    · obtain ⟨b, hb, rfl⟩ := List.mem_map.1 hq
      obtain ⟨c, hc, rfl⟩ := List.mem_map.1 hb
      exact UInt8.lt_iff_toNat_lt.1 (lowerByte_lt (isASCII_iff.1 hs c hc))
  · refine ⟨(runes s).map U.toLower, by rw [toLower, if_neg hs, flatMap_map], fun q hq hlt => ?_⟩
    obtain ⟨r, -, rfl⟩ := List.mem_map.1 hq
    by_contra hge
    rcases U.toLower_into _ (le_validRune (not_lt.1 hge)) hlt with ⟨hr, -⟩ | ⟨hr, -⟩
    · exact validRune_ne (U.toLower_ne r).1 (by omega) hr
    · exact validRune_ne (U.toLower_ne r).2 (by omega) hr

theorem toLower_byte (hb : b < 0x80) : U.toLower b.toNat = (lowerByte b).toNat := by
  have hlt : b.toNat < 128 := UInt8.lt_iff_toNat_lt.1 hb
  rw [U.toLower_ascii _ hlt, lowerByte, isUpper]
  simp only [Bool.and_eq_true, decide_eq_true_eq, UInt8.le_iff_toNat_le]
  split_ifs with h1 h2 h2
  · rw [UInt8.toNat_add]
    simp at h1 ⊢
    omega
  · exact absurd h1 h2
  · exact absurd h2 h1
  · rfl

theorem toLower_eq (s : Str) :
    toLower U s = (runes s).flatMap fun r => encodeRune (U.toLower r) := by
  unfold toLower
  split_ifs with hs
  · rw [runes_ascii hs, flatMap_map]
    refine (flatMap_singleton' _).symm.trans ?_
    rw [flatMap_map]
    refine flatMap_congr fun b hb => ?_
    have hlt := isASCII_iff.1 hs b hb
    rw [toLower_byte U hlt, encodeRune_byte (lowerByte_lt hlt)]
  · rfl

theorem toUpper_byte (hb : b < 0x80) : U.toUpper b.toNat = (upperByte b).toNat := by
  have hlt : b.toNat < 128 := UInt8.lt_iff_toNat_lt.1 hb
  rw [U.toUpper_ascii _ hlt, upperByte, isLower]
  simp only [Bool.and_eq_true, decide_eq_true_eq, UInt8.le_iff_toNat_le]
  split_ifs with h1 h2 h2
  · rw [UInt8.toNat_sub_of_le _ _ (UInt8.le_iff_toNat_le.2 (by simp at h1 ⊢; omega))]
    simp
  · exact absurd h1 h2
  · exact absurd h2 h1
  · rfl

theorem toUpper_eq (s : Str) :
    toUpper U s = (runes s).flatMap fun r => encodeRune (U.toUpper r) := by
  unfold toUpper
  split_ifs with hs
  · rw [runes_ascii hs, flatMap_map]
    refine (flatMap_singleton' _).symm.trans ?_
    rw [flatMap_map]
    refine flatMap_congr fun b hb => ?_
    have hlt := isASCII_iff.1 hs b hb
    rw [toUpper_byte U hlt, encodeRune_byte (upperByte_lt hlt)]
  · rfl

theorem encodeRune_validRune (r : Nat) : encodeRune (validRune r) = encodeRune r := by
  unfold validRune
  split_ifs with h
  · rw [encodeRune.eq_def r, if_neg (by omega), if_neg (by omega), if_pos h]
    rfl
  · rfl

theorem runes_toLower (s : Str) :
    runes (toLower U s) = (runes s).map fun r => validRune (U.toLower r) := by
  have heq : toLower U s = ((runes s).map U.toLower).flatMap encodeRune := by
    rw [toLower_eq, flatMap_map]
  rw [heq, runes_flatMap_encodeRune, map_map]
  rfl

theorem toLower_toLower (s : Str) : toLower U (toLower U s) = toLower U s := by
  rw [toLower_eq U (toLower U s), runes_toLower, flatMap_map, toLower_eq U s]
  refine flatMap_congr fun r _ => ?_
  rw [U.toLower_lower, encodeRune_validRune]

theorem mem_toLower (hr : r ∈ runes s) : ∀ c ∈ encodeRune (U.toLower r), c ∈ toLower U s := by
  intro c hc
  rw [toLower_eq]
  exact mem_flatMap.2 ⟨r, hr, hc⟩

theorem runes_cons (hb : b < 0x80) (s : Str) : runes (b :: s) = b.toNat :: runes s := by
  have hdec : decodeRune (b :: s) = (b.toNat, 1) := by simp [decodeRune, hb]
  rw [runes, segments, length_cons, segmentsAux, hdec, map_cons]
  rfl

theorem toLower_cons (hb : b < 0x80) (s : Str) :
    toLower U (b :: s) = lowerByte b :: toLower U s := by
  rw [toLower_eq, runes_cons hb, flatMap_cons, toLower_byte U hb,
    encodeRune_byte (lowerByte_lt hb), toLower_eq]
  rfl

theorem printable_of_toLower (h : ∀ c ∈ encodeRune (U.toLower r), 0x21 ≤ c ∧ c ≤ 0x7e)
    (hdotI : r ≠ 0x130) (hkelvin : r ≠ 0x212A) : 0x21 ≤ r ∧ r ≤ 0x7e := by
  have hlow : U.toLower r < 0x80 := isASCII_encodeRune
    (isASCII_iff.2 fun c hc => by have := h c hc; grind)
  have hr : r < 128 := by
    by_contra hge
    rcases U.toLower_into r (not_lt.1 hge) hlow with ⟨hr, -⟩ | ⟨hr, -⟩
    exacts [hdotI hr, hkelvin hr]
  rw [encodeRune, if_pos hlow] at h
  have hbyte := h _ (mem_singleton.2 rfl)
  have hn : (UInt8.ofNat (U.toLower r)).toNat = U.toLower r := by simp; omega
  rw [UInt8.le_iff_toNat_le, UInt8.le_iff_toNat_le, hn] at hbyte
  have hascii := U.toLower_ascii r hr
  simp at hbyte
  split_ifs at hascii <;> omega

theorem isLowerStr_toLower {t : Str} (ht : IsLowerStr t)
    (h : isASCII (toLower U (toLower U s ++ t)) = true) : IsLowerStr (toLower U s ++ t) := by
  have hlower : isASCII (toLower U s ++ t) = true := by
    by_contra hna
    obtain ⟨rs, hrs, hinto⟩ := toLower_encoded U s
    obtain ⟨rs', hrs', hinto'⟩ := toLower_encoded U t
    rw [toLower_of_isLowerStr U ht] at hrs'
    have heq : toLower U s ++ t = (rs ++ rs').flatMap encodeRune := by
      rw [hrs, flatMap_append, ← hrs']
    rw [toLower, if_neg hna, heq] at h
    refine hna ?_
    rw [heq]
    refine isASCII_flatMap (lt_of_mapped (fun q hq => ?_) h)
    rcases mem_append.1 hq with hq | hq
    exacts [hinto q hq, hinto' q hq]
  intro b hb
  refine ⟨isASCII_iff.1 hlower b hb, ?_⟩
  rcases mem_append.1 hb with hb | hb
  exacts [isUpper_of_mem_toLower U hb, (ht b hb).2]

end Str
