/-
  Comparing lists of words through one flat word.
-/
import Mathlib.Tactic.Common

namespace List

variable {α : Type} {cmp : α → α → Ordering} {sep stop s t : α} {l m : List α}

/-- `a` is below every letter of the word. -/
def Below (cmp : α → α → Ordering) (a : α) (l : List α) : Prop :=
  ∀ b ∈ l, cmp a b = .lt ∧ cmp b a = .gt

theorem Below.tail {a b : α} (h : Below cmp a (b :: l)) : Below cmp a l := fun c hc =>
    h c (mem_cons_of_mem _ hc)

/-- Words are compared before the smaller letters that follow them. -/
theorem compareLex_append_cons (hl : Below cmp t l) (hm : Below cmp s m) (u v : List α) :
    List.compareLex cmp (l ++ s :: u) (m ++ t :: v) =
      (List.compareLex cmp l m).then ((cmp s t).then (List.compareLex cmp u v)) := by
  induction l generalizing m with
  | nil =>
    cases m with
    | nil => rw [nil_append, nil_append, List.compareLex_cons_cons]; rfl
    | cons b m =>
      rw [nil_append, cons_append, List.compareLex_cons_cons, (hm b mem_cons_self).1]
      rfl
  | cons a l ih =>
    cases m with
    | nil =>
      rw [nil_append, cons_append, List.compareLex_cons_cons, (hl a mem_cons_self).2]
      rfl
    | cons b m =>
      rw [cons_append, cons_append, List.compareLex_cons_cons, List.compareLex_cons_cons,
        ih hl.tail hm.tail, Ordering.then_assoc]

/-- **The flat word compares as the list of words**, then as what follows. -/
theorem compareLex_intercalate {xs ys : List (List α)} (hxs : xs ≠ []) (hys : ys ≠ [])
    (hsep : ∀ l ∈ xs ++ ys, Below cmp sep l) (hstop : ∀ l ∈ xs ++ ys, Below cmp stop l)
    (hlt : Below cmp stop [sep])
    (hrefl : ∀ a, cmp a a = .eq) (u v : List α) :
    List.compareLex cmp ([sep].intercalate xs ++ stop :: u) ([sep].intercalate ys ++ stop :: v) =
      (List.compareLex (List.compareLex cmp) xs ys).then (List.compareLex cmp u v) := by
  obtain ⟨hlt, hgt⟩ := hlt sep mem_cons_self
  -- by the words, up to where one of the lists ends
  induction xs generalizing ys with
  | nil => exact absurd rfl hxs
  | cons x xs ih =>
    obtain ⟨y, ys, rfl⟩ := exists_cons_of_ne_nil hys
    have hx : x ∈ x :: xs ++ y :: ys := by simp
    have hy : y ∈ x :: xs ++ y :: ys := by simp
    rw [List.compareLex_cons_cons, Ordering.then_assoc]
    cases xs with
    | nil =>
      cases ys with
      | nil =>
        rw [intercalate_singleton, intercalate_singleton,
          compareLex_append_cons (hstop x hx) (hstop y hy), hrefl]
        rfl
      | cons y' ys =>
        rw [intercalate_singleton, intercalate_cons_cons, append_assoc, append_assoc,
          singleton_append,
          compareLex_append_cons (hsep x hx) (hstop y hy), hlt]
        rfl
    | cons x' xs =>
      cases ys with
      | nil =>
        rw [intercalate_singleton, intercalate_cons_cons, append_assoc, append_assoc,
          singleton_append,
          compareLex_append_cons (hstop x hx) (hsep y hy), hgt]
        rfl
      | cons y' ys =>
        have hrest : ∀ l ∈ x' :: xs ++ y' :: ys, l ∈ x :: x' :: xs ++ y :: y' :: ys := by grind
        rw [intercalate_cons_cons, intercalate_cons_cons, append_assoc, append_assoc, append_assoc,
          append_assoc,
          singleton_append, singleton_append, compareLex_append_cons (hsep x hx) (hsep y hy), hrefl,
          ih (cons_ne_nil _ _) (cons_ne_nil _ _) (fun l hl => hsep l (hrest l hl)) fun l hl =>
            hstop l (hrest l hl)]
        rfl

end List
