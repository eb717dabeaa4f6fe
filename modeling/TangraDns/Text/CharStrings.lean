/-
  Character strings in presentation form: each string between quotes, with a
  blank between two of them, quotes and backslashes after a backslash, octets
  that are not printable as three digits after one.
-/
import TangraDns.Text.Quoting

namespace Str

open List

/-! ## Printing -/

def digit (n : ℕ) : UInt8 := UInt8.ofNat (48 + n)

def digitValue (c : UInt8) : ℕ := c.toNat - 48

theorem digit_spec {n : ℕ} (h : n < 10) : (digit n).toNat = 48 + n := by
  simp only [digit, UInt8.toNat_ofNat']
  omega

def presentOctet (b : UInt8) : Str :=
  if b = 34 ∨ b = 92 then [92, b]
  else if b < 0x20 ∨ 0x7e < b then 92 :: [b.toNat / 100, b.toNat / 10 % 10, b.toNat % 10].map digit
  else [b]

def charString (s : Str) : Str := 34 :: s.flatMap presentOctet ++ [34]

def charStrings (ss : List Str) : Str := join 32 (ss.map charString)

def isPlainOctet (b : UInt8) : Bool := b != 34 && b != 92 && 0x20 ≤ b && b ≤ 0x7e

theorem presentOctet_of_plain {b : UInt8} (h : isPlainOctet b = true) : presentOctet b = [b] := by
  simp only [isPlainOctet, Bool.and_eq_true, bne_iff_ne, decide_eq_true_eq] at h
  rw [presentOctet, if_neg (by simp [h.1.1.1, h.1.1.2]), if_neg]
  grind

theorem charStrings_singleton {s : Str} (h : s.all isPlainOctet = true) :
    charStrings [s] = 34 :: s ++ [34] := by
  have hs : s.flatMap presentOctet = s := by
    induction s with
    | nil => rfl
    | cons b s ih =>
      rw [all_cons, Bool.and_eq_true] at h
      rw [flatMap_cons, presentOctet_of_plain h.1, ih h.2]
      rfl
  rw [charStrings, map_singleton, join_singleton, charString, hs]

theorem charStrings_cons_cons (s t : Str) (ss : List Str) :
    charStrings (s :: t :: ss) = charString s ++ 32 :: charStrings (t :: ss) := by
  rw [charStrings, map_cons, map_cons, join_cons_cons]
  rfl

theorem presentOctet_printable (b : UInt8) : ∀ c ∈ presentOctet b, 0x20 ≤ c ∧ c ≤ 0x7e := by
  have hdigit : ∀ n < 10, 0x20 ≤ digit n ∧ digit n ≤ 0x7e := by decide
  have hb : b.toNat < 256 := b.toNat_lt
  unfold presentOctet
  split_ifs with h1 h2
  · rcases h1 with rfl | rfl <;> simp
  · intro c hc
    simp only [map_cons, map_nil, mem_cons, not_mem_nil, or_false] at hc
    rcases hc with rfl | rfl | rfl | rfl
    exacts [by decide, hdigit _ (by omega), hdigit _ (by omega), hdigit _ (by omega)]
  · intro c hc
    rw [mem_singleton.1 hc]
    grind

theorem charStrings_printable (ss : List Str) : ∀ c ∈ charStrings ss, 0x20 ≤ c ∧ c ≤ 0x7e := by
  have hone (s : Str) : ∀ c ∈ charString s, 0x20 ≤ c ∧ c ≤ 0x7e := by
    intro c hc
    simp only [charString, cons_append, mem_cons, mem_append, mem_flatMap,
      not_mem_nil, or_false] at hc
    rcases hc with rfl | ⟨b, -, hc⟩ | rfl
    · decide
    · exact presentOctet_printable b c hc
    · decide
  induction ss with
  | nil => exact fun c hc => by cases hc
  | cons s ss ih =>
    cases ss with
    | nil => rw [charStrings, map_singleton, join_singleton]; exact hone s
    | cons t ss =>
      rw [charStrings_cons_cons]
      intro c hc
      rcases mem_append.1 hc with hc | hc
      · exact hone s c hc
      · rcases mem_cons.1 hc with rfl | hc
        exacts [by decide, ih c hc]

theorem body_presentOctet (s : Str) : Body (s.flatMap presentOctet) := by
  have hdigit : ∀ n < 10, digit n ≠ 34 ∧ digit n ≠ 92 := by decide
  induction s with
  | nil => exact .nil
  | cons b s ih =>
    have hb : b.toNat < 256 := b.toNat_lt
    rw [flatMap_cons, presentOctet]
    split_ifs with h1 h2
    · exact .escaped ih
    · obtain ⟨h34, h92⟩ := hdigit (b.toNat / 10 % 10) (by omega)
      obtain ⟨h34', h92'⟩ := hdigit (b.toNat % 10) (by omega)
      exact .escaped (.plain h34 h92 (.plain h34' h92' ih))
    · obtain ⟨h34, h92⟩ := not_or.1 h1
      exact .plain h34 h92 ih

theorem quoting_charStrings {ok : UInt8 → Prop} (hok : ok 32) (ss : List Str) :
    Quoting ok (charStrings ss) := by
  refine .join (by decide) hok fun s hs => ?_
  obtain ⟨s, -, rfl⟩ := List.mem_map.1 hs
  rw [charString, cons_append]
  exact .quoted (body_presentOctet s) .nil

theorem charStrings_ends {ss : List Str} (h : ss ≠ []) :
    (charStrings ss).head? = some 34 ∧ (charStrings ss).getLast? = some 34 := by
  induction ss with
  | nil => exact absurd rfl h
  | cons s ss ih =>
    cases ss with
    | nil =>
      rw [charStrings, map_singleton, join_singleton, charString]
      exact ⟨rfl, getLast?_concat⟩
    | cons t ss =>
      rw [charStrings_cons_cons]
      have hne : charStrings (t :: ss) ≠ [] := fun hnil => by
        have := (ih (by simp)).1
        rw [hnil] at this
        cases this
      refine ⟨by simp [charString], ?_⟩
      rw [getLast?_append, getLast?_cons, (ih (by simp)).2]
      rfl

/-! ## Reading -/

/-- The string up to the next quote, and what follows the quote. -/
def readString : Str → Option (Str × Str)
  | [] => none
  | b :: s =>
    if b = 34 then some ([], s)
    else if b = 92 then
      match s with
      | [] => none
      | c :: s' =>
        if 48 ≤ c ∧ c ≤ 57 then
          match s' with
          | d :: e :: s'' => (readString s'').map fun p =>
            (UInt8.ofNat (digitValue c * 100 + digitValue d * 10 + digitValue e) :: p.1, p.2)
          | _ => none
        else (readString s').map fun p => (c :: p.1, p.2)
    else (readString s).map fun p => (b :: p.1, p.2)

/-- At most `n` strings with a blank between two. -/
def readStrings : ℕ → Str → Option (List Str)
  | 0, _ => none
  | n + 1, s =>
    if s.head? = some 34 then
      match readString s.tail with
      | none => none
      | some (x, []) => some [x]
      | some (x, b :: rest) => if b = 32 then (readStrings n rest).map (x :: ·) else none
    else none

theorem readString_presentOctet (b : UInt8) (s : Str) :
    readString (presentOctet b ++ s) = (readString s).map fun p => (b :: p.1, p.2) := by
  have h92 : (92 : UInt8) ≠ 34 := by decide
  have hb : b.toNat < 256 := b.toNat_lt
  unfold presentOctet
  split_ifs with h1 h2
  · have hb : ¬ (48 ≤ b ∧ b ≤ 57) := by rcases h1 with rfl | rfl <;> decide
    rw [cons_append, cons_append, nil_append, readString.eq_def]
    simp only [if_neg h92, if_true, if_neg hb]
  · have hdigit : 48 ≤ digit (b.toNat / 100) ∧ digit (b.toNat / 100) ≤ 57 := by
      simp only [UInt8.le_iff_toNat_le, digit_spec (show b.toNat / 100 < 10 by omega)]
      simp
      omega
    have hval : digitValue (digit (b.toNat / 100)) * 100 +
        digitValue (digit (b.toNat / 10 % 10)) * 10 +
        digitValue (digit (b.toNat % 10)) = b.toNat := by
      simp only [digitValue, digit_spec (show b.toNat / 100 < 10 by omega),
        digit_spec (show b.toNat / 10 % 10 < 10 by omega),
          digit_spec (show b.toNat % 10 < 10 by omega)]
      omega
    simp only [map_cons, map_nil, cons_append, nil_append, readString, if_neg h92, if_true,
      if_pos hdigit, hval, UInt8.ofNat_toNat]
  · obtain ⟨h34, h92⟩ := not_or.1 h1
    rw [cons_append, nil_append, readString.eq_def]
    simp only [if_neg h34, if_neg h92]

theorem readString_flatMap (s rest : Str) :
    readString (s.flatMap presentOctet ++ 34 :: rest) = some (s, rest) := by
  induction s with
  | nil => rw [flatMap_nil, nil_append, readString.eq_def]; simp only [if_true]
  | cons b s ih => rw [flatMap_cons, append_assoc, readString_presentOctet, ih]; rfl

theorem readStrings_charStrings {ss : List Str} (hss : ss ≠ []) {n : ℕ} (hn : ss.length ≤ n) :
    readStrings n (charStrings ss) = some ss := by
  induction ss generalizing n with
  | nil => exact absurd rfl hss
  | cons s ss ih =>
    obtain ⟨m, rfl⟩ : ∃ m, n = m + 1 := ⟨n - 1, by simp only [length_cons] at hn; omega⟩
    cases ss with
    | nil =>
      have hread : readString (charStrings [s]).tail = some (s, []) := by
        rw [charStrings, map_singleton, join_singleton]
        simpa [charString] using readString_flatMap s []
      rw [readStrings, if_pos (charStrings_ends hss).1, hread]
    | cons t ss =>
      have hread : readString (charStrings (s :: t :: ss)).tail =
          some (s, 32 :: charStrings (t :: ss)) := by
        rw [charStrings_cons_cons]
        simpa [charString] using readString_flatMap s (32 :: charStrings (t :: ss))
      rw [readStrings, if_pos (charStrings_ends hss).1, hread]
      simp only [if_true]
      rw [ih (by simp) (by simp only [length_cons] at hn ⊢; omega)]
      rfl

theorem length_le_charStrings (ss : List Str) : ss.length ≤ (charStrings ss).length := by
  induction ss with
  | nil => exact Nat.zero_le _
  | cons s ss ih =>
    cases ss with
    | nil => rw [charStrings, map_singleton, join_singleton]; simp [charString]
    | cons t ss =>
      rw [charStrings_cons_cons]
      simp only [length_append, length_cons, charString] at ih ⊢
      omega

end Str
