/-
  Strings as byte sequences, with the operations of a byte-string library
  (suffixes, splitting at a separator, trimming), and the lemmas on suffixes
  and separators the development uses.
-/
import Mathlib.Data.List.Infix
import Mathlib.Data.List.Sort
import Mathlib.Tactic.Common

abbrev Str := List UInt8

instance : LawfulBEq Str := inferInstanceAs (LawfulBEq (List UInt8))

def str (s : String) : Str := s.toList.map fun c => UInt8.ofNat c.toNat

namespace Str

def HasSuffix (s t : Str) : Prop := t <:+ s

instance (s t : Str) : Decidable (HasSuffix s t) := inferInstanceAs (Decidable (t <:+ s))

def HasPrefix (s t : Str) : Prop := t <+: s

instance (s t : Str) : Decidable (HasPrefix s t) := inferInstanceAs (Decidable (t <+: s))

def Contains (s t : Str) : Prop := t <:+: s

instance (s t : Str) : Decidable (Contains s t) := inferInstanceAs (Decidable (t <:+: s))

def trimSuffix (s t : Str) : Str := if HasSuffix s t then s.take (s.length - t.length) else s

def trimPrefix (s t : Str) : Str := if HasPrefix s t then s.drop t.length else s

def split (b : UInt8) (s : Str) : List Str := s.splitOn b

def join (b : UInt8) (ls : List Str) : Str := [b].intercalate ls

/-- Every occurrence of `old` replaced, from left to right; `skip` bytes are part of the last
    one. -/
def replaceFrom (old new : Str) : ℕ → Str → Str
  | _, [] => []
  | skip + 1, _ :: s => replaceFrom old new skip s
  | 0, b :: s =>
    if HasPrefix (b :: s) old then new ++ replaceFrom old new (old.length - 1) s
    else b :: replaceFrom old new 0 s

def replaceAll (s old new : Str) : Str := replaceFrom old new 0 s

def le : Str → Str → Bool
  | [], _ => true
  | _ :: _, [] => false
  | a :: s, b :: t => a < b || (a == b && le s t)

theorem le.total (s t : Str) : le s t = true ∨ le t s = true := by
  induction s generalizing t with
  | nil => exact .inl rfl
  | cons a s ih =>
    cases t with
    | nil => exact .inr rfl
    | cons b t =>
      simp only [le, Bool.or_eq_true, Bool.and_eq_true, decide_eq_true_eq, beq_iff_eq]
      have := ih t
      grind

theorem le.trans {s t u : Str} (h : le s t = true) (h' : le t u = true) : le s u = true := by
  induction s generalizing t u with
  | nil => rfl
  | cons a s ih =>
    cases t with
    | nil => cases h
    | cons b t =>
      cases u with
      | nil => cases h'
      | cons c u =>
        simp only [le, Bool.or_eq_true, Bool.and_eq_true, decide_eq_true_eq, beq_iff_eq] at h h' ⊢
        have := @ih t u
        grind

theorem le.antisymm {s t : Str} (h : le s t = true) (h' : le t s = true) : s = t := by
  induction s generalizing t with
  | nil =>
    cases t with
    | nil => rfl
    | cons b t => cases h'
  | cons a s ih =>
    cases t with
    | nil => cases h
    | cons b t =>
      simp only [le, Bool.or_eq_true, Bool.and_eq_true, decide_eq_true_eq, beq_iff_eq] at h h'
      have := @ih t
      grind

def dot : UInt8 := 46

/-! ## Names under a suffix

A name lies under another when it ends with a dot and the other. -/

/-- `a` is a proper descendant of `b`: it ends with a dot and `b`. -/
def Under (a b : Str) : Prop := HasSuffix a (dot :: b)

instance (a b : Str) : Decidable (Under a b) := inferInstanceAs (Decidable (HasSuffix a (dot :: b)))

theorem Under.length_lt {a b : Str} (h : Under a b) : b.length < a.length := by
  have := List.IsSuffix.length_le h
  simp only [List.length_cons] at this
  omega

end Str
