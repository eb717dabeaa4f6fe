/-
  Runes: decoding and encoding byte strings as UTF-8, white space, letter case
  and case-insensitive comparison.

  The case tables of the Unicode standard are a parameter (`CaseTables`), of
  which only the behaviour on ASCII and the runes mapped into ASCII matter:
  U+0130 and U+212A have an ASCII lower case, U+0131 and U+017F an ASCII upper
  case.  An ill-formed byte decodes to U+FFFD, one byte at a time.
-/
import TangraDns.Text.Bytes

namespace Str

open List

variable {s t : Str}

/-! ## Runes -/

def isCont (b : UInt8) : Bool := 0x80 ≤ b && b ≤ 0xBF

/-- The first rune of a non-empty string and its width; `(0xFFFD, 1)` when ill-formed. -/
def decodeRune : Str → Nat × Nat
  | [] => (0xFFFD, 0)
  | b0 :: rest =>
    if b0 < 0x80 then (b0.toNat, 1)
    else match rest with
      | b1 :: rest =>
        if 0xC2 ≤ b0 ∧ b0 ≤ 0xDF ∧ isCont b1 then ((b0.toNat % 32) * 64 + b1.toNat % 64, 2)
        else match rest with
          | b2 :: rest =>
            if 0xE0 ≤ b0 ∧ b0 ≤ 0xEF ∧ isCont b1 ∧ isCont b2 ∧ (b0 = 0xE0 → 0xA0 ≤ b1) ∧
                (b0 = 0xED → b1 ≤ 0x9F) then
              ((b0.toNat % 16) * 4096 + (b1.toNat % 64) * 64 + b2.toNat % 64, 3)
            else match rest with
              | b3 :: _ =>
                if 0xF0 ≤ b0 ∧ b0 ≤ 0xF4 ∧ isCont b1 ∧ isCont b2 ∧ isCont b3 ∧
                    (b0 = 0xF0 → 0x90 ≤ b1) ∧ (b0 = 0xF4 → b1 ≤ 0x8F) then
                  ((b0.toNat % 8) * 262144 + (b1.toNat % 64) * 4096 + (b2.toNat % 64) * 64 +
                    b3.toNat % 64, 4)
                else (0xFFFD, 1)
              | [] => (0xFFFD, 1)
          | [] => (0xFFFD, 1)
      | [] => (0xFFFD, 1)

def segmentsAux : ℕ → Str → List (Str × Nat)
  | 0, _ => []
  | _, [] => []
  | n + 1, b :: s =>
    ((b :: s).take (decodeRune (b :: s)).2, (decodeRune (b :: s)).1) ::
      segmentsAux n ((b :: s).drop (decodeRune (b :: s)).2)

def segments (s : Str) : List (Str × Nat) := segmentsAux s.length s

def runes (s : Str) : List Nat := (segments s).map Prod.snd

/-- The UTF-8 encoding of a rune; a surrogate or a number out of range is U+FFFD. -/
def encodeRune (r : Nat) : Str :=
  if r < 0x80 then [UInt8.ofNat r]
  else if r < 0x800 then [UInt8.ofNat (0xC0 + r / 64), UInt8.ofNat (0x80 + r % 64)]
  else if 0x110000 ≤ r ∨ (0xD800 ≤ r ∧ r < 0xE000) then [0xEF, 0xBF, 0xBD]
  else if r < 0x10000 then
    [UInt8.ofNat (0xE0 + r / 4096), UInt8.ofNat (0x80 + r / 64 % 64), UInt8.ofNat (0x80 + r % 64)]
  else [UInt8.ofNat (0xF0 + r / 262144), UInt8.ofNat (0x80 + r / 4096 % 64),
    UInt8.ofNat (0x80 + r / 64 % 64), UInt8.ofNat (0x80 + r % 64)]

def validRune (r : Nat) : Nat := if 0x110000 ≤ r ∨ (0xD800 ≤ r ∧ r < 0xE000) then 0xFFFD else r

def runeCount (s : Str) : ℕ := (runes s).length

def isSpace (r : Nat) : Bool :=
  (9 ≤ r && r ≤ 13) || r == 0x20 || r == 0x85 || r == 0xA0 || r == 0x1680 ||
    (0x2000 ≤ r && r ≤ 0x200A) || r == 0x2028 || r == 0x2029 || r == 0x202F || r == 0x205F ||
    r == 0x3000

def isControl (r : Nat) : Bool := r < 0x20 || (0x7F ≤ r && r < 0xA0)

def trimSpace (s : Str) : Str :=
  ((((segments s).dropWhile fun p => isSpace p.2).reverse.dropWhile fun p =>
    isSpace p.2).reverse.map
    Prod.fst).flatten

def fields (s : Str) : List Str :=
  (((segments s).splitOnP fun p => isSpace p.2).filter fun l => !l.isEmpty).map fun l =>
    (l.map Prod.fst).flatten

/-! ## Letter case -/

def isUpper (b : UInt8) : Bool := 65 ≤ b && b ≤ 90

def isLower (b : UInt8) : Bool := 97 ≤ b && b ≤ 122

def lowerByte (b : UInt8) : UInt8 := if isUpper b then b + 32 else b

def upperByte (b : UInt8) : UInt8 := if isLower b then b - 32 else b

def isASCII (s : Str) : Bool := s.all fun b => b < 0x80

/-- The simple case mappings of Unicode; `fold` gives the representative of the runes equal
    up to simple case folding.  On ASCII and into ASCII they are as the standard says; a lower case
    is its own lower case, and white space is the lower case of nothing else. -/
structure CaseTables where
  toLower : Nat → Nat
  toUpper : Nat → Nat
  fold : Nat → Nat
  toLower_ascii : ∀ r, r < 128 → toLower r = if 65 ≤ r ∧ r ≤ 90 then r + 32 else r
  toUpper_ascii : ∀ r, r < 128 → toUpper r = if 97 ≤ r ∧ r ≤ 122 then r - 32 else r
  fold_ascii : ∀ r, r < 128 → fold r = if 65 ≤ r ∧ r ≤ 90 then r + 32 else r
  toLower_into : ∀ r, 128 ≤ r → toLower r < 128 →
    (r = 0x130 ∧ toLower r = 0x69) ∨ (r = 0x212A ∧ toLower r = 0x6B)
  toUpper_into : ∀ r, 128 ≤ r → toUpper r < 128 →
    (r = 0x131 ∧ toUpper r = 0x49) ∨ (r = 0x17F ∧ toUpper r = 0x53)
  toLower_dotI : toLower 0x130 = 0x69
  toLower_kelvin : toLower 0x212A = 0x6B
  toUpper_dotlessI : toUpper 0x131 = 0x49
  toUpper_longS : toUpper 0x17F = 0x53
  toUpper_ne : ∀ r, toUpper r ≠ 0x131 ∧ toUpper r ≠ 0x17F
  toLower_ne : ∀ r, toLower r ≠ 0x130 ∧ toLower r ≠ 0x212A
  toLower_lower : ∀ r, toLower (validRune (toLower r)) = validRune (toLower r)
  toLower_space : ∀ r, isSpace (validRune (toLower r)) = true → isSpace r = true

theorem isSpace_validRune {r : Nat} (h : isSpace (validRune r) = true) : isSpace r = true := by
  unfold validRune at h
  split_ifs at h
  · cases h
  · exact h

/-- The tables of ASCII and of the four runes with an ASCII counterpart. -/
def CaseTables.ascii : CaseTables where
  toLower r := if 65 ≤ r ∧ r ≤ 90 then r + 32 else if r = 0x130 then 0x69 else
    if r = 0x212A then 0x6B else r
  toUpper r := if 97 ≤ r ∧ r ≤ 122 then r - 32 else if r = 0x131 then 0x49 else
    if r = 0x17F then 0x53 else r
  fold r := if 65 ≤ r ∧ r ≤ 90 then r + 32 else if r = 0x212A then 0x6B else
    if r = 0x17F then 0x73 else r
  toLower_ascii r h := by grind
  toUpper_ascii r h := by grind
  fold_ascii r h := by grind
  toLower_into r h h' := by grind
  toUpper_into r h h' := by grind
  toLower_dotI := by decide
  toLower_kelvin := by decide
  toUpper_dotlessI := by decide
  toUpper_longS := by decide
  toUpper_ne r := by grind
  toLower_ne r := by grind
  toLower_lower r := by grind [validRune]
  toLower_space r h := by
    have h := isSpace_validRune h
    split_ifs at h with h1
    · simp only [isSpace, Bool.or_eq_true, Bool.and_eq_true, decide_eq_true_eq, beq_iff_eq] at h
      omega
    · cases h
    · cases h
    · exact h

variable (U : CaseTables)

def toLower (s : Str) : Str :=
  if isASCII s then s.map lowerByte else (runes s).flatMap fun r => encodeRune (U.toLower r)

def toUpper (s : Str) : Str :=
  if isASCII s then s.map upperByte else (runes s).flatMap fun r => encodeRune (U.toUpper r)

def EqualFold (s t : Str) : Prop := (runes s).map U.fold = (runes t).map U.fold

instance (s t : Str) : Decidable (EqualFold U s t) :=
  inferInstanceAs (Decidable ((runes s).map U.fold = (runes t).map U.fold))

/-! ## ASCII strings -/

def IsLowerStr (s : Str) : Prop := ∀ b ∈ s, b < 0x80 ∧ isUpper b = false

def IsUpperStr (s : Str) : Prop := ∀ b ∈ s, b < 0x80 ∧ isLower b = false

instance (s : Str) : Decidable (IsLowerStr s) :=
  List.decidableBAll (fun b => b < 0x80 ∧ isUpper b = false) s

instance (s : Str) : Decidable (IsUpperStr s) :=
  List.decidableBAll (fun b => b < 0x80 ∧ isLower b = false) s

theorem isASCII_iff : isASCII s = true ↔ ∀ b ∈ s, b < 0x80 := by
  simp [isASCII]

theorem IsLowerStr.isASCII (h : IsLowerStr s) : isASCII s = true :=
  isASCII_iff.2 fun b hb => (h b hb).1

theorem IsUpperStr.isASCII (h : IsUpperStr s) : isASCII s = true :=
  isASCII_iff.2 fun b hb => (h b hb).1

theorem IsLowerStr.append (h : IsLowerStr s) (h' : IsLowerStr t) :
    IsLowerStr (s ++ t) := by
  intro b hb
  rcases mem_append.1 hb with hb | hb
  exacts [h b hb, h' b hb]

theorem segmentsAux_ascii : ∀ (n : ℕ) (s : Str), isASCII s = true → s.length ≤ n →
    segmentsAux n s = s.map fun b => ([b], b.toNat)
  | 0, [], _, _ => rfl
  | _ + 1, [], _, _ => rfl
  | n + 1, b :: s, h, hl => by
    have hb : b < 0x80 := isASCII_iff.1 h b (by simp)
    have hs : isASCII s = true := isASCII_iff.2 fun c hc => isASCII_iff.1 h c (by simp [hc])
    have hd : decodeRune (b :: s) = (b.toNat, 1) := by simp [decodeRune, hb]
    simp only [segmentsAux, hd, take_succ_cons, take_zero, drop_succ_cons,
      drop_zero, map_cons]
    rw [segmentsAux_ascii n s hs (by simpa using hl)]

theorem segments_ascii (h : isASCII s = true) :
    segments s = s.map fun b => ([b], b.toNat) :=
  segmentsAux_ascii _ s h le_rfl

theorem runes_ascii (h : isASCII s = true) : runes s = s.map UInt8.toNat := by
  rw [runes, segments_ascii h, map_map]; rfl

theorem toLower_of_isLowerStr (h : IsLowerStr s) : toLower U s = s := by
  rw [toLower, if_pos h.isASCII]
  refine (map_congr_left fun b hb => ?_).trans (map_id s)
  simp [lowerByte, (h b hb).2]

theorem toUpper_of_isUpperStr (h : IsUpperStr s) : toUpper U s = s := by
  rw [toUpper, if_pos h.isASCII]
  refine (map_congr_left fun b hb => ?_).trans (map_id s)
  simp [upperByte, (h b hb).2]

theorem isUpper_lowerByte (b : UInt8) : isUpper (lowerByte b) = false := by
  unfold lowerByte; split <;> grind [isUpper]

theorem isUpper_of_mem_toLower {b : UInt8} (h : b ∈ toLower U s) : isUpper b = false := by
  unfold toLower at h
  split_ifs at h with hs
  · obtain ⟨c, -, rfl⟩ := List.mem_map.1 h
    exact isUpper_lowerByte c
  · obtain ⟨r, -, hr⟩ := mem_flatMap.1 h
    generalize hl : U.toLower r = l at hr
    unfold encodeRune at hr
    split_ifs at hr with h1 h2 h3 h4
    · rw [mem_singleton] at hr
      subst hr
      -- an ASCII result is the lower case of an ASCII rune, or one of the two runes into ASCII
      have hup : ¬ (65 ≤ l ∧ l ≤ 90) := by
        rcases lt_or_ge r 128 with hr | hr
        · have := U.toLower_ascii r hr; split_ifs at this <;> omega
        · rcases U.toLower_into r hr (by omega) with ⟨-, h⟩ | ⟨-, h⟩ <;> omega
      have hn : (UInt8.ofNat l).toNat = l := by simp; omega
      simp only [isUpper, Bool.and_eq_false_imp, decide_eq_true_eq, decide_eq_false_iff_not,
        UInt8.le_iff_toNat_le, hn]
      simp; omega
    all_goals
      simp only [mem_cons, not_mem_nil, or_false] at hr
      have : ∀ n, 128 ≤ n → n < 256 → isUpper (UInt8.ofNat n) = false := by
        intro n h1 h2
        have hn : (UInt8.ofNat n).toNat = n := by simp; omega
        simp only [isUpper, Bool.and_eq_false_imp, decide_eq_true_eq, decide_eq_false_iff_not,
          UInt8.le_iff_toNat_le, hn]
        simp; omega
      rcases hr with rfl | rfl | hr <;> try rcases hr with rfl | hr
      all_goals first | (subst hr; apply this <;> omega) | (apply this <;> omega) | decide

theorem equalFold_ascii (hs : isASCII s = true) (ht : isASCII t = true) :
    EqualFold U s t ↔ s.map lowerByte = t.map lowerByte := by
  have key : ∀ {s : Str}, isASCII s = true →
      (runes s).map U.fold = (s.map lowerByte).map UInt8.toNat := by
    intro s hs
    rw [runes_ascii hs, map_map, map_map]
    refine map_congr_left fun b hb => ?_
    have hb : b.toNat < 128 := by
      have := isASCII_iff.1 hs b hb
      rw [UInt8.lt_iff_toNat_lt] at this; simpa using this
    simp only [Function.comp, U.fold_ascii _ hb, lowerByte, isUpper, Bool.and_eq_true,
      decide_eq_true_eq, UInt8.le_iff_toNat_le]
    split_ifs with h1 h2 h2
    · rw [UInt8.toNat_add]; simp at h1 ⊢; omega
    · exact absurd h1 h2
    · exact absurd h2 h1
    · rfl
  rw [EqualFold, key hs, key ht]
  exact (map_injective_iff.2 fun _ _ h => UInt8.toNat_inj.1 h).eq_iff

theorem equalFold_iff_of_lower (hs : IsLowerStr s) (ht : IsLowerStr t) :
    EqualFold U s t ↔ s = t := by
  have key : ∀ {s : Str}, IsLowerStr s → s.map lowerByte = s := fun {s} h =>
    (map_congr_left fun b hb => by simp [lowerByte, (h b hb).2]).trans (map_id s)
  rw [equalFold_ascii U hs.isASCII ht.isASCII, key hs, key ht]

theorem equalFold_iff_of_upper (hs : IsUpperStr s) (ht : IsUpperStr t) :
    EqualFold U s t ↔ s = t := by
  rw [equalFold_ascii U hs.isASCII ht.isASCII]
  refine ⟨fun h => ?_, fun h => by rw [h]⟩
  -- lower-casing is undone by upper-casing on such strings
  have key : ∀ {s : Str}, IsUpperStr s → (s.map lowerByte).map upperByte = s := by
    intro s h
    rw [map_map]
    refine (map_congr_left fun b hb => ?_).trans (map_id s)
    have := (h b hb).2
    simp only [Function.comp, lowerByte, upperByte, id]
    split <;> grind [isUpper, isLower]
  rw [← key hs, ← key ht, h]

theorem isSpace_of_printable {b : UInt8} (h : 0x21 ≤ b ∧ b ≤ 0x7e) : isSpace b.toNat = false := by
  simp only [UInt8.le_iff_toNat_le] at h
  simp only [isSpace, Bool.or_eq_false_iff, Bool.and_eq_false_imp, decide_eq_true_eq,
    decide_eq_false_iff_not, beq_eq_false_iff_ne]
  simp at h
  omega

theorem trimSpace_of_printable (h : ∀ b ∈ s, 0x21 ≤ b ∧ b ≤ 0x7e) : trimSpace s = s := by
  have hascii : isASCII s = true := isASCII_iff.2 fun b hb => by have := h b hb; grind
  have hspace : ∀ p ∈ segments s, isSpace p.2 = false := by
    rw [segments_ascii hascii]
    intro p hp
    obtain ⟨b, hb, rfl⟩ := List.mem_map.1 hp
    exact isSpace_of_printable (h b hb)
  have hdrop : ∀ l : List (Str × Nat), (∀ p ∈ l, isSpace p.2 = false) →
      l.dropWhile (fun p => isSpace p.2) = l := by
    intro l hl
    cases l with
    | nil => rfl
    | cons p l => rw [dropWhile_cons, hl p (mem_cons_self ..)]; rfl
  rw [trimSpace, hdrop _ hspace, hdrop _ fun p hp => hspace p (mem_reverse.1 hp), reverse_reverse,
    segments_ascii hascii, map_map]
  exact (flatMap_def ..).symm.trans (flatMap_singleton' s)

end Str
