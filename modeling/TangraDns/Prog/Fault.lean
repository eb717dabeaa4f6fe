/-
  Disturbed handlers: operations that fail without effect, or whose effect
  happens and whose reply is lost.

  A plan fixes the fate of each fallible operation by its number, counted from
  the start of the run, and by what it is, so a run under a plan is as
  deterministic as a healthy one.
-/
import TangraDns.Prog.Basic

namespace Prog

variable {Op : Type} {Res : Op → Type} {α S F : Type}

inductive Fate (F : Type) where
  | done
  | failed (e : F)
  | lost (e : F)
deriving DecidableEq, Repr

abbrev Fallible (Op : Type) (Res : Op → Type) (F : Type) := (o : Op) → Option (F → Res o)

/-- The handler `h` under a plan; the state counts the fallible operations performed. -/
def disturb (h : Handler Op Res S) (fails : Fallible Op Res F) (plan : ℕ → Op → Fate F) :
    Handler Op Res (S × ℕ) :=
  fun o s => match fails o with
    | none => ((h o s.1).1, ((h o s.1).2, s.2))
    | some f => match plan s.2 o with
      | .done => ((h o s.1).1, ((h o s.1).2, s.2 + 1))
      | .failed e => (f e, (s.1, s.2 + 1))
      | .lost e => (f e, ((h o s.1).2, s.2 + 1))

variable {h : Handler Op Res S} {fails : Fallible Op Res F} {plan : ℕ → Op → Fate F}
variable {o : Op} {s : S} {n : ℕ}

theorem disturb_none (ho : fails o = none) :
    disturb h fails plan o (s, n) = ((h o s).1, ((h o s).2, n)) := by
  simp only [disturb, ho]

theorem disturb_done {f : F → Res o} (ho : fails o = some f) (hn : plan n o = .done) :
    disturb h fails plan o (s, n) = ((h o s).1, ((h o s).2, n + 1)) := by
  simp only [disturb, ho, hn]

theorem disturb_failed {f : F → Res o} {e : F} (ho : fails o = some f) (hn : plan n o = .failed e) :
    disturb h fails plan o (s, n) = (f e, (s, n + 1)) := by
  simp only [disturb, ho, hn]

theorem disturb_lost {f : F → Res o} {e : F} (ho : fails o = some f) (hn : plan n o = .lost e) :
    disturb h fails plan o (s, n) = (f e, ((h o s).2, n + 1)) := by
  simp only [disturb, ho, hn]

/-- Whatever the plan, an operation is performed or changes nothing. -/
theorem disturb_state (s : S × ℕ) :
    (disturb h fails plan o s).2.1 = s.1 ∨ (disturb h fails plan o s).2.1 = (h o s.1).2 := by
  unfold disturb
  split
  · exact .inr rfl
  · split
    exacts [.inr rfl, .inl rfl, .inr rfl]

theorem disturb_cases (s : S × ℕ) :
    ((disturb h fails plan o s).1, (disturb h fails plan o s).2.1) = h o s.1 ∨
      ∃ f e, fails o = some f ∧ (disturb h fails plan o s).1 = f e ∧
        (plan s.2 o = .failed e ∧ (disturb h fails plan o s).2.1 = s.1 ∨
          plan s.2 o = .lost e ∧ (disturb h fails plan o s).2.1 = (h o s.1).2) := by
  obtain ⟨s, n⟩ := s
  cases ho : fails o with
  | none =>
    rw [disturb_none ho]
    exact .inl rfl
  | some f =>
    cases hf : plan n o with
    | done =>
      rw [disturb_done ho hf]
      exact .inl rfl
    | failed e =>
      rw [disturb_failed ho hf]
      exact .inr ⟨f, e, rfl, rfl, .inl ⟨rfl, rfl⟩⟩
    | lost e =>
      rw [disturb_lost ho hf]
      exact .inr ⟨f, e, rfl, rfl, .inr ⟨rfl, rfl⟩⟩

theorem run_disturb_done (p : Prog Op Res α) (hplan : ∀ m o, n ≤ m → plan m o = .done) :
    (run (disturb h fails plan) p (s, n)).1 = (run h p s).1 ∧
      (run (disturb h fails plan) p (s, n)).2.1 = (run h p s).2 := by
  induction p generalizing s n with
  | ret a => exact ⟨rfl, rfl⟩
  | call o k ih =>
    rw [run_call, run_call]
    cases ho : fails o with
    | none => rw [disturb_none ho]; exact ih _ hplan
    | some f =>
      rw [disturb_done ho (hplan n o (Nat.le_refl n))]
      exact ih _ fun m o hm => hplan m o (by omega)

end Prog
