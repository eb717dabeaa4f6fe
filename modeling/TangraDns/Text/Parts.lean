/-
  Lists cut at separators: what is left when the separators at the ends are dropped,
  and the parts between runs of separators.
-/
import Mathlib.Data.List.Forall2
import Mathlib.Data.List.TakeWhile

namespace Parts

open List

variable {α β : Type} {f : α → Bool} {g : β → Bool} {l m : List α}

def inner (f : α → Bool) (l : List α) : List α := ((l.dropWhile f).reverse.dropWhile f).reverse

def parts (f : α → Bool) (l : List α) : List (List α) := (l.splitOnP f).filter fun p => !p.isEmpty

/-! ## The ends -/

theorem inner_infix (f : α → Bool) (l : List α) : inner f l <:+: l := by
  have hright : inner f l <+: l.dropWhile f := by
    rw [← reverse_suffix, inner, reverse_reverse]
    exact dropWhile_suffix _
  exact hright.isInfix.trans (dropWhile_suffix _).isInfix

theorem inner_append {a b : List α} (ha : ∀ x ∈ a, f x = true) (hb : ∀ x ∈ b, f x = true) :
    inner f (a ++ (l ++ b)) = inner f l := by
  have hnil : b.dropWhile f = [] := dropWhile_eq_nil_iff.2 hb
  have hrev : ∀ x ∈ b.reverse, f x = true := fun x hx => hb x (mem_reverse.1 hx)
  rw [inner, dropWhile_append_of_pos ha, dropWhile_append]
  split_ifs with hl
  · rw [hnil, inner, List.isEmpty_iff.1 hl]
  · rw [reverse_append, dropWhile_append_of_pos hrev, inner]

theorem exists_ends (f : α → Bool) (l : List α) :
    ∃ a b, l = a ++ (inner f l ++ b) ∧ (∀ x ∈ a, f x = true) ∧ ∀ x ∈ b, f x = true := by
  refine ⟨l.takeWhile f, ((l.dropWhile f).reverse.takeWhile f).reverse, ?_,
    fun x hx => mem_takeWhile_imp hx,
    fun x hx => mem_takeWhile_imp (mem_reverse.1 hx)⟩
  rw [inner, ← reverse_append, takeWhile_append_dropWhile, reverse_reverse,
    takeWhile_append_dropWhile]

theorem dropWhile_of_head (h : ∀ x ∈ l.head?, f x = false) : l.dropWhile f = l := by
  cases l with
  | nil => rfl
  | cons x l => rw [dropWhile_cons, h x rfl]; rfl

theorem inner_of_ends (hfirst : ∀ x ∈ l.head?, f x = false)
    (hlast : ∀ x ∈ l.getLast?, f x = false) :
    inner f l = l := by
  rw [← head?_reverse] at hlast
  rw [inner, dropWhile_of_head hfirst, dropWhile_of_head hlast, reverse_reverse]

/-! ## The parts -/

theorem parts_append {x : α} (hx : f x = true) (l m : List α) :
    parts f (l ++ x :: m) = parts f l ++ parts f m := by
  rw [parts, splitOnP_append_cons _ _ hx, filter_append]
  rfl

theorem parts_cons {x : α} (hx : f x = true) (l : List α) : parts f (x :: l) = parts f l :=
  parts_append hx [] l

theorem parts_blanks_append (l : List α) {a : List α} (ha : ∀ x ∈ a, f x = true) :
    parts f (a ++ l) = parts f l := by
  induction a with
  | nil => rfl
  | cons x a ih => rw [cons_append, parts_cons (ha x (.head _)), ih fun y hy => ha y (.tail _ hy)]

theorem parts_dropWhile (f : α → Bool) (l : List α) : parts f (l.dropWhile f) = parts f l := by
  induction l with
  | nil => rfl
  | cons x l ih =>
    rw [dropWhile_cons]
    split_ifs with hx
    · rw [ih, parts_cons hx]
    · rfl

theorem parts_of_forall (h : ∀ x ∈ l, f x = false) (hne : l ≠ []) : parts f l = [l] := by
  rw [parts, splitOnP_eq_singleton h, filter_cons_of_pos (by simp [hne])]
  rfl

/-- The first part stands behind the first separators, and the others in what follows it. -/
theorem exists_of_parts {p : List α} {ps : List (List α)} (h : parts f l = p :: ps) :
    ∃ a r, l = a ++ (p ++ r) ∧ (∀ x ∈ a, f x = true) ∧ (∀ x ∈ p, f x = false) ∧ p ≠ [] ∧
      parts f r = ps ∧
      ∀ x ∈ r.head?, f x = true := by
  obtain ⟨m, hm⟩ : ∃ m, l.dropWhile f = m := ⟨_, rfl⟩
  have hl : l = l.takeWhile f ++ m := by rw [← hm, takeWhile_append_dropWhile]
  have hparts : parts f m = p :: ps := by rw [← hm, parts_dropWhile, h]
  have hhead : ∀ x ∈ m.head?, f x = false := by
    intro x hx
    have := head?_dropWhile_not f l
    rw [hm, Option.mem_def.1 hx] at this
    exact this
  -- the first part is all up to the next separator
  obtain ⟨q, hq⟩ : ∃ q, m.takeWhile (fun x => !f x) = q := ⟨_, rfl⟩
  have hqf : ∀ x ∈ q, f x = false := by
    intro x hx
    have hnot : (!f x) = true := mem_takeWhile_imp (p := fun x => !f x) (hq ▸ hx)
    simpa using hnot
  have hsplit : m = q ++ m.dropWhile fun x => !f x := by rw [← hq, takeWhile_append_dropWhile]
  have hrest := head?_dropWhile_not (fun x => !f x) m
  have hqne : q ≠ [] := by
    rintro rfl
    cases m with
    | nil => cases hparts
    | cons x m => simp [hhead x rfl] at hq
  cases hr : m.dropWhile fun x => !f x with
  | nil =>
    rw [hr, append_nil] at hsplit
    rw [hsplit, parts_of_forall hqf hqne] at hparts
    cases hparts
    exact ⟨_, [], by rw [append_nil, ← hsplit]; exact hl, fun x hx => mem_takeWhile_imp hx,
      hqf, hqne, rfl,
      by simp⟩
  | cons y r =>
    have hy : f y = true := by simpa [hr] using hrest
    rw [hr] at hsplit
    rw [hsplit, parts_append hy, parts_of_forall hqf hqne] at hparts
    cases hparts
    refine ⟨_, y :: r, by rw [← hsplit]; exact hl, fun x hx => mem_takeWhile_imp hx, hqf, hqne,
      parts_cons hy r, ?_⟩
    rintro x ⟨⟩
    exact hy

theorem ne_nil_of_head {a p r : List α} (hhead : ∀ x ∈ (a ++ (p ++ r)).head?, f x = true)
    (hp : ∀ x ∈ p, f x = false) (hne : p ≠ []) : a ≠ [] := by
  rintro rfl
  obtain ⟨x, p, rfl⟩ := exists_cons_of_ne_nil hne
  have htrue := hhead x rfl
  rw [hp x (mem_cons_self ..)] at htrue
  cases htrue

/-! ## Lists that agree element by element -/

theorem exists_of_mem {R : α → β → Prop} {m : List β} (h : List.Forall₂ R l m) {a : α}
    (ha : a ∈ l) : ∃ b ∈ m, R a b := by
  induction h with
  | nil => cases ha
  | cons hab _ ih =>
    rcases mem_cons.1 ha with rfl | ha
    · exact ⟨_, mem_cons_self .., hab⟩
    · obtain ⟨b, hb, hR⟩ := ih ha
      exact ⟨b, mem_cons_of_mem _ hb, hR⟩

section Agree

variable {R : α → β → Prop} {m : List β} (hR : ∀ {a b}, R a b → f a = g b) (h : List.Forall₂ R l m)

include hR h

theorem forall₂_dropWhile : List.Forall₂ R (l.dropWhile f) (m.dropWhile g) := by
  induction h with
  | nil => exact .nil
  | cons hab hrest ih =>
    rw [dropWhile_cons, dropWhile_cons, hR hab]
    split_ifs
    · exact ih
    · exact .cons hab hrest

theorem forall₂_inner : List.Forall₂ R (inner f l) (inner g m) :=
  rel_reverse (forall₂_dropWhile hR (rel_reverse (forall₂_dropWhile hR h)))

theorem forall₂_splitOnP : List.Forall₂ (List.Forall₂ R) (l.splitOnP f) (m.splitOnP g) := by
  induction h with
  | nil => exact .cons .nil .nil
  | cons hab _ ih =>
    rw [splitOnP_cons_eq_if_modifyHead, splitOnP_cons_eq_if_modifyHead, hR hab]
    split_ifs
    · exact .cons .nil ih
    · generalize List.splitOnP f _ = ps, List.splitOnP g _ = qs at ih
      cases ih with
      | nil => exact .nil
      | cons hp hps => exact .cons (.cons hab hp) hps

theorem forall₂_parts : List.Forall₂ (List.Forall₂ R) (parts f l) (parts g m) := by
  refine rel_filter (fun p q hpq => ?_) (forall₂_splitOnP hR h)
  cases hpq <;> simp

end Agree

end Parts
