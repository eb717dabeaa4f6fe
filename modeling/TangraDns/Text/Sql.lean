/-
  Functions of SQL on texts over any alphabet: `right` and `LIKE`.
-/
import Mathlib.Data.List.Infix

namespace Sql

variable {α : Type} {s t : List α}

/-! ## The end of a text -/

def right (s : List α) (n : ℕ) : List α := s.drop (s.length - n)

theorem right_eq_iff {n : ℕ} (hn : n = t.length) : right s n = t ↔ t <:+ s := by
  subst hn
  constructor
  · intro h
    rw [← h]
    exact List.drop_suffix _ _
  · intro h
    exact (List.suffix_iff_eq_drop.1 h).symm

/-! ## Patterns -/

structure Wildcards (α : Type) where
  many : α
  one : α
  escape : α

inductive Token (α : Type) where
  | lit (c : α)
  | one
  | many

variable [DecidableEq α] (w : Wildcards α)

/-- The parts of a pattern; a pattern that ends with the escape character is an error. -/
def tokens : List α → Option (List (Token α))
  | [] => some []
  | c :: p =>
    if c = w.escape then
      match p with
      | [] => none
      | d :: p => (tokens p).map (.lit d :: ·)
    else (tokens p).map ((if c = w.many then .many else if c = w.one then .one else .lit c) :: ·)

/-- The text consists of what the parts stand for. -/
def Matches : List (Token α) → List α → Bool
  | [], s => s.isEmpty
  | .lit _ :: _, [] => false
  | .lit c :: p, x :: s => c = x && Matches p s
  | .one :: _, [] => false
  | .one :: p, _ :: s => Matches p s
  | .many :: p, s => s.tails.any (Matches p)

def like (text pattern : List α) : Option Bool := (tokens w pattern).map fun p => Matches p text

def escape (s : List α) : List α :=
  s.flatMap fun c => if c = w.escape ∨ c = w.many ∨ c = w.one then [w.escape, c] else [c]

variable {w}

theorem tokens_cons_of_ne {c : α} (hc : c ≠ w.escape) (p : List α) : tokens w (c :: p) =
    (tokens w p).map ((if c = w.many then .many else if c = w.one then .one else .lit c) :: ·) := by
  cases p <;> simp [tokens, hc]

theorem tokens_escape (s p : List α) :
    tokens w (escape w s ++ p) = (tokens w p).map (s.map Token.lit ++ ·) := by
  induction s with
  | nil => cases h : tokens w p <;> simp [escape, h]
  | cons c s ih =>
    have hcons : escape w (c :: s) ++ p =
        (if c = w.escape ∨ c = w.many ∨ c = w.one then [w.escape, c] else [c]) ++
        (escape w s ++ p) := by
      simp [escape]
    rw [hcons]
    split_ifs with hc
    · simp only [List.cons_append, List.nil_append, tokens, if_true, ih, Option.map_map]
      rfl
    · simp only [not_or] at hc
      rw [List.singleton_append, tokens_cons_of_ne hc.1, if_neg hc.2.1, if_neg hc.2.2, ih,
        Option.map_map]
      rfl

theorem matches_lits_many : Matches (t.map Token.lit ++ [.many]) s = true ↔ t <+: s := by
  induction t generalizing s with
  | nil => simp [Matches]
  | cons c t ih =>
    cases s with
    | nil => simp [Matches]
    | cons x s => simp [Matches, ih, List.cons_prefix_cons]

/-- **Patterns for substrings.** -/
theorem like_contains (h : w.many ≠ w.escape) (s t : List α) :
    like w s (w.many :: (escape w t ++ [w.many])) = some (decide (t <:+: s)) := by
  have htokens : tokens w (w.many :: (escape w t ++ [w.many])) =
      some (.many :: (t.map Token.lit ++ [.many])) := by
    rw [tokens_cons_of_ne h, tokens_escape, tokens_cons_of_ne h]
    simp [tokens]
  rw [like, htokens, Option.map_some, Option.some_inj, Bool.eq_iff_iff, decide_eq_true_iff,
    List.infix_iff_prefix_suffix]
  simp only [Matches, List.any_eq_true, List.mem_tails, matches_lits_many]
  exact exists_congr fun u => and_comm

end Sql
