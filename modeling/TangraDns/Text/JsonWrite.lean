/-
  Writing JSON: trees of values, their text with the escapes of a writer that is safe
  to embed in HTML, and the length of that text, counted from the leaves.
-/
import Mathlib.Algebra.BigOperators.Group.List.Basic
import Mathlib.Algebra.Order.Ring.Nat
import TangraDns.Text.Trim

namespace Json

open List Str

/-! ## Strings -/

def hexDigit (n : UInt8) : UInt8 := if n < 10 then 48 + n else 87 + n

def shortEscape (b : UInt8) : Option UInt8 :=
  if b = 34 ∨ b = 92 then some b
  else if b = 8 then some 98
  else if b = 9 then some 116
  else if b = 10 then some 110
  else if b = 12 then some 102
  else if b = 13 then some 114
  else none

/-- Control bytes and what HTML gives a meaning. -/
def isUnsafe (b : UInt8) : Bool := b < 0x20 || b == 60 || b == 62 || b == 38

def escapeByte (b : UInt8) : Str :=
  match shortEscape b with
  | some c => [92, c]
  | none => if isUnsafe b then str "\\u00" ++ [hexDigit (b / 16), hexDigit (b % 16)] else [b]

/-- A rune with its bytes: what is not UTF-8 is written as U+FFFD, and the two separators that end a
    line in JavaScript are escaped. -/
def escapeRune (p : Str × Nat) : Str :=
  if p.2 < 0x80 then p.1.flatMap escapeByte
  else if p.2 = 0xFFFD ∧ p.1.length = 1 then str "\\ufffd"
  else if p.2 = 0x2028 then str "\\u2028"
  else if p.2 = 0x2029 then str "\\u2029"
  else p.1

def quote (s : Str) : Str := 34 :: ((segments s).flatMap escapeRune ++ [34])

/-! ## Trees -/

/-- A value: `plain` is written as it stands (a number, a truth value, a time in quotes). -/
inductive Tree where
  | plain (s : Str)
  | text (s : Str)
  | array (items : List Tree)
  | object (fields : List (Str × Tree))

mutual

def Tree.render : Tree → Str
  | .plain s => s
  | .text s => quote s
  | .array items => 91 :: (join 44 (renderItems items) ++ [93])
  | .object fields => 123 :: (join 44 (renderFields fields) ++ [125])

def renderItems : List Tree → List Str
  | [] => []
  | t :: ts => t.render :: renderItems ts

/-- The fields; their names need no escapes. -/
def renderFields : List (Str × Tree) → List Str
  | [] => []
  | (name, t) :: fs => (34 :: (name ++ 34 :: 58 :: t.render)) :: renderFields fs

end

/-! ## Lengths -/

def byteSize (b : UInt8) : ℕ := if (shortEscape b).isSome then 2 else if isUnsafe b then 6 else 1

def runeSize (p : Str × Nat) : ℕ :=
  if p.2 < 0x80 then (p.1.map byteSize).sum
  else if p.2 = 0xFFFD ∧ p.1.length = 1 ∨ p.2 = 0x2028 ∨ p.2 = 0x2029 then 6
  else p.1.length

def textSize (s : Str) : ℕ := ((segments s).map runeSize).sum

/-- What joining takes for separators. -/
def commas (n : ℕ) : ℕ := n - 1

mutual

def Tree.size : Tree → ℕ
  | .plain s => s.length
  | .text s => textSize s + 2
  | .array items => sizeItems items + commas items.length + 2
  | .object fields => sizeFields fields + commas fields.length + 2

def sizeItems : List Tree → ℕ
  | [] => 0
  | t :: ts => t.size + sizeItems ts

def sizeFields : List (Str × Tree) → ℕ
  | [] => 0
  | (name, t) :: fs => name.length + 3 + t.size + sizeFields fs

end

theorem length_escapeByte (b : UInt8) : (escapeByte b).length = byteSize b := by
  unfold escapeByte byteSize
  cases shortEscape b with
  | some c => rfl
  | none =>
    simp only [Option.isSome_none, Bool.false_eq_true, if_false]
    split_ifs <;> rfl

theorem length_escapeRune (p : Str × Nat) : (escapeRune p).length = runeSize p := by
  unfold escapeRune runeSize
  split_ifs with h1 h2 h3 h4 h5 h6 <;> try first | rfl | tauto
  rw [length_flatMap]
  simp only [length_escapeByte]

theorem length_quote (s : Str) : (quote s).length = textSize s + 2 := by
  simp only [quote, textSize, length_cons, length_append, length_flatMap, length_escapeRune]
  rfl

theorem length_join (b : UInt8) (ls : List Str) :
    (join b ls).length = (ls.map List.length).sum + commas ls.length := by
  induction ls with
  | nil => rfl
  | cons l ls ih =>
    cases ls with
    | nil => simp [join_singleton, commas]
    | cons l' ls =>
      rw [join_cons_cons, length_append, length_cons, ih]
      simp [commas]
      omega

mutual

/-- **The length of a text is the size counted from the leaves.** -/
theorem Tree.length_render (t : Tree) : t.render.length = t.size := by
  cases t with
  | plain s => rfl
  | text s => exact length_quote s
  | array items =>
    obtain ⟨hsum, hlen⟩ := length_renderItems items
    simp only [Tree.render, Tree.size, length_cons, length_append, length_join, hsum, hlen]
    rfl
  | object fields =>
    obtain ⟨hsum, hlen⟩ := length_renderFields fields
    simp only [Tree.render, Tree.size, length_cons, length_append, length_join, hsum, hlen]
    rfl

theorem length_renderItems (ts : List Tree) :
    ((renderItems ts).map List.length).sum = sizeItems ts ∧
    (renderItems ts).length = ts.length := by
  cases ts with
  | nil => exact ⟨rfl, rfl⟩
  | cons t ts =>
    obtain ⟨hsum, hlen⟩ := length_renderItems ts
    simp only [renderItems, sizeItems, map_cons, sum_cons, length_cons, t.length_render, hsum, hlen,
      and_self]

theorem length_renderFields (fs : List (Str × Tree)) :
    ((renderFields fs).map List.length).sum = sizeFields fs ∧
    (renderFields fs).length = fs.length := by
  cases fs with
  | nil => exact ⟨rfl, rfl⟩
  | cons f fs =>
    obtain ⟨name, t⟩ := f
    obtain ⟨hsum, hlen⟩ := length_renderFields fs
    simp only [renderFields, sizeFields, map_cons, sum_cons, length_cons, length_append,
      t.length_render, hsum, hlen, and_true]
    omega

end

theorem sizeItems_map {α : Type} (f : α → Tree) (as : List α) :
    sizeItems (as.map f) = (as.map fun a => (f a).size).sum := by
  induction as with
  | nil => rfl
  | cons a as ih => rw [map_cons, sizeItems, ih, map_cons, sum_cons]

theorem sizeFields_append (fs gs : List (Str × Tree)) :
    sizeFields (fs ++ gs) = sizeFields fs + sizeFields gs := by
  induction fs with
  | nil => simp [sizeFields]
  | cons f fs ih =>
    obtain ⟨name, t⟩ := f
    rw [cons_append, sizeFields, ih, sizeFields]
    omega

theorem textSize_ascii {s : Str} (h : isASCII s = true) : textSize s = (s.map byteSize).sum := by
  rw [textSize, segments_ascii h, map_map]
  refine congrArg _ (map_congr_left fun b hb => ?_)
  have hlt : b.toNat < 0x80 := UInt8.lt_iff_toNat_lt.1 (isASCII_iff.1 h b hb)
  exact (if_pos hlt).trans (Nat.add_zero _)

end Json
