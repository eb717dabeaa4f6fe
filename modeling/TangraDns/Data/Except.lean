/-
  Computations with errors, read backwards: what a successful one did.
-/
import Mathlib.Data.List.Forall2
import Mathlib.Tactic.Common

namespace Except

variable {ε ε' α β : Type}
variable {a : α} {x : Except ε α}

theorem error_ne_ok {e : ε} : (.error e : Except ε α) ≠ .ok a := by rintro ⟨⟩

theorem bind_eq_ok {f : α → Except ε β} {b : β} :
    x >>= f = .ok b ↔ ∃ a, x = .ok a ∧ f a = .ok b := by
  cases x with
  | error e =>
    constructor
    · rintro ⟨⟩
    · rintro ⟨a, ⟨⟩, -⟩
  | ok a =>
    constructor
    · exact fun h => ⟨a, rfl, h⟩
    · rintro ⟨a', ⟨⟩, h⟩; exact h

theorem mapError_eq_ok {g : ε → ε'} :
    x.mapError g = .ok a ↔ x = .ok a := by
  cases x with
  | error e => constructor <;> rintro ⟨⟩
  | ok a' => constructor <;> rintro ⟨⟩ <;> rfl

theorem mapError_eq_error {g : ε → ε'} {e' : ε'} :
    x.mapError g = .error e' ↔ ∃ e, x = .error e ∧ g e = e' := by
  cases x with
  | error e =>
    constructor
    · rintro ⟨⟩; exact ⟨e, rfl, rfl⟩
    · rintro ⟨_, ⟨⟩, rfl⟩; rfl
  | ok a =>
    constructor
    · rintro ⟨⟩
    · rintro ⟨_, ⟨⟩, -⟩

theorem map_eq_ok {f : α → β} {b : β} :
    x.map f = .ok b ↔ ∃ a, x = .ok a ∧ f a = b := by
  cases x with
  | error e =>
    constructor
    · rintro ⟨⟩
    · rintro ⟨a, ⟨⟩, -⟩
  | ok a =>
    constructor
    · rintro ⟨⟩; exact ⟨a, rfl, rfl⟩
    · rintro ⟨a', ⟨⟩, rfl⟩; rfl

theorem forM_eq_ok {f : α → Except ε Unit} {as : List α} :
    as.forM f = .ok () ↔ ∀ a ∈ as, f a = .ok () := by
  induction as with
  | nil => simp; rfl
  | cons a as ih =>
    rw [List.forM_eq_forM, List.forM_cons, Except.bind_eq_ok, List.forall_mem_cons, ← ih]
    constructor
    · rintro ⟨⟨⟩, h, h'⟩
      exact ⟨h, h'⟩
    · exact fun ⟨h, h'⟩ => ⟨(), h, h'⟩

theorem mapM_eq_ok {f : α → Except ε β} {as : List α} {bs : List β} :
    as.mapM f = .ok bs ↔ List.Forall₂ (fun a b => f a = .ok b) as bs := by
  induction as generalizing bs with
  | nil =>
    rw [List.mapM_nil, List.forall₂_nil_left_iff]
    exact ⟨fun h => (Except.ok.inj h).symm, fun h => congrArg _ h.symm⟩
  | cons a as ih =>
    rw [List.mapM_cons, Except.bind_eq_ok, List.forall₂_cons_left_iff]
    constructor
    · rintro ⟨b, hb, h⟩
      obtain ⟨bs', hbs', h⟩ := Except.bind_eq_ok.1 h
      exact ⟨b, bs', hb, ih.1 hbs', (Except.ok.inj h).symm⟩
    · rintro ⟨b, bs', hb, hbs', rfl⟩
      exact ⟨b, hb, Except.bind_eq_ok.2 ⟨bs', ih.2 hbs', rfl⟩⟩

theorem ite_error_eq_ok {c : Prop} [Decidable c] {e : ε} :
    (if c then .error e else x) = .ok a ↔ ¬ c ∧ x = .ok a := by
  split_ifs with hc <;> simp [hc]

theorem toOption_eq_some : x.toOption = some a ↔ x = .ok a := by
  cases x <;> simp [Except.toOption]

theorem toOption_isNone_eq_false : x.toOption.isNone = false ↔ ∃ a, x = .ok a := by
  cases x <;> simp [Except.toOption]

theorem toOption_ne_none : x.toOption ≠ none ↔ ∃ a, x = .ok a := by
  cases x <;> simp [Except.toOption]

end Except
