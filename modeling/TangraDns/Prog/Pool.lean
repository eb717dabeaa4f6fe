/-
  Interleavings: several programs over one state, each operation one atomic
  step, in any order.
-/
import TangraDns.Prog.Discipline
import Mathlib.Logic.Function.Basic

namespace Prog

variable {Op : Type} {Res : Op → Type} {α S ι : Type}

structure Thread (Op : Type) (Res : Op → Type) (α : Type) where
  prog : Prog Op Res α
  past : Past Op Res

def Thread.start (p : Prog Op Res α) : Thread Op Res α := ⟨p, []⟩

def Thread.Done (t : Thread Op Res α) : Prop := ∃ a, t.prog = ret a

instance (t : Thread Op Res α) : Decidable t.Done :=
  match h : t.prog with
  | ret a => isTrue ⟨a, h⟩
  | call o k => isFalse fun ⟨a, ha⟩ => by rw [h] at ha; cases ha

structure Pool (Op : Type) (Res : Op → Type) (α S ι : Type) where
  threads : ι → Thread Op Res α
  state : S

namespace Pool

variable [DecidableEq ι] (h : Handler Op Res S)
variable {P : Pool Op Res α S ι} {i : ι} {o : Op} {k : Res o → Prog Op Res α}

def step (P : Pool Op Res α S ι) (i : ι) : Pool Op Res α S ι :=
  match (P.threads i).prog with
  | ret _ => P
  | call o k =>
    { threads := Function.update P.threads i
        ⟨k (h o P.state).1, ⟨o, (h o P.state).1⟩ :: (P.threads i).past⟩
      state := (h o P.state).2 }

def run (P : Pool Op Res α S ι) (sched : List ι) : Pool Op Res α S ι := sched.foldl (step h) P

@[simp] theorem run_nil (P : Pool Op Res α S ι) : run h P [] = P := rfl

@[simp] theorem run_cons (P : Pool Op Res α S ι) (i : ι) (sched : List ι) :
    run h P (i :: sched) = run h (step h P i) sched := rfl

theorem step_ret {a : α} (hi : (P.threads i).prog = ret a) :
    step h P i = P := by rw [step, hi]

theorem step_call
    (hi : (P.threads i).prog = call o k) :
    step h P i =
      { threads := Function.update P.threads i
          ⟨k (h o P.state).1, ⟨o, (h o P.state).1⟩ :: (P.threads i).past⟩
        state := (h o P.state).2 } := by rw [step, hi]

theorem step_threads_self
    (hi : (P.threads i).prog = call o k) :
    (step h P i).threads i = ⟨k (h o P.state).1, ⟨o, (h o P.state).1⟩ :: (P.threads i).past⟩ := by
  rw [step_call h hi]
  exact Function.update_self ..

theorem step_threads_of_ne {j : ι} (hj : j ≠ i) :
    (step h P i).threads j = P.threads j := by
  unfold step
  split
  · rfl
  · exact Function.update_of_ne hj ..

theorem step_state
    (hi : (P.threads i).prog = call o k) : (step h P i).state = (h o P.state).2 := by
  rw [step_call h hi]

theorem not_done_of_call {t : Thread Op Res α}
    (ht : t.prog = call o k) : ¬ t.Done := fun ⟨a, ha⟩ => by rw [ht] at ha; cases ha

/-- Every step of the run along the schedule meets `C` in the state it is taken in. -/
def Meets (C : Pool Op Res α S ι → ι → Prop) : Pool Op Res α S ι → List ι → Prop
  | _, [] => True
  | P, i :: sched => C P i ∧ Meets C (step h P i) sched

instance decidableMeets (C : Pool Op Res α S ι → ι → Prop) [∀ P i, Decidable (C P i)] :
    ∀ (P : Pool Op Res α S ι) (sched : List ι), Decidable (Meets h C P sched)
  | _, [] => isTrue trivial
  | P, i :: sched =>
    have := decidableMeets C (step h P i) sched
    inferInstanceAs (Decidable (C P i ∧ Meets h C (step h P i) sched))

variable {h} {C : Pool Op Res α S ι → ι → Prop}

/-- An invariant kept by every step that meets `C` holds along every run that does. -/
theorem run_induction {I : Pool Op Res α S ι → Prop} (hstep : ∀ P i, I P → C P i → I (step h P i)) :
    ∀ (sched : List ι) (P : Pool Op Res α S ι), I P → Meets h C P sched → I (run h P sched)
  | [], _, hI, _ => hI
  | i :: sched, P, hI, hC => run_induction hstep sched _ (hstep P i hI hC.1) hC.2

/-- Threads that obey their disciplines go on obeying them, and an invariant of the pool that each
    allowed operation keeps holds along the run. -/
theorem run_obeys {D : ι → Discipline Op Res} {Q : ι → Past Op Res → α → Prop}
    {I : Pool Op Res α S ι → Prop} (hans : ∀ j o s, (D j).answer o (h o s).1)
    (hstep : ∀ P i o k, (P.threads i).prog = call o k → (D i).allowed (P.threads i).past o →
      I P → C P i → I (step h P i))
    (sched : List ι) (P : Pool Op Res α S ι)
    (hobeys : ∀ j, Obeys (D j) (Q j) (P.threads j).past (P.threads j).prog)
    (hI : I P) (hC : Meets h C P sched) : I (run h P sched) := by
  refine (run_induction (I := fun P => I P ∧
    ∀ j, Obeys (D j) (Q j) (P.threads j).past (P.threads j).prog) ?_ sched P ⟨hI, hobeys⟩ hC).1
  rintro P i ⟨hI, hobeys⟩ hC
  cases hi : (P.threads i).prog with
  | ret a => rw [step_ret h hi]; exact ⟨hI, hobeys⟩
  | call o k =>
    have hi' := hobeys i
    rw [hi] at hi'
    refine ⟨hstep P i o k hi hi'.1 hI hC, fun j => ?_⟩
    by_cases hj : j = i
    · subst hj
      rw [step_threads_self h hi]
      exact hi'.2.2 _ (hans j o P.state)
    · rw [step_threads_of_ne h hj]
      exact hobeys j

end Pool

end Prog
