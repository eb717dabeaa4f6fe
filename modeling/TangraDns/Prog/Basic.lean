/-
  Programs over an operation signature: a program returns, or performs an operation
  and continues with its response; a handler gives the operations a meaning.
-/
import Mathlib.Logic.Basic
import Mathlib.Tactic.Common

/-- A program over the operations `Op`, where `o : Op` answers with a `Res o`. -/
inductive Prog (Op : Type) (Res : Op → Type) (α : Type) where
  | ret (a : α)
  | call (o : Op) (k : Res o → Prog Op Res α)

namespace Prog

variable {Op : Type} {Res : Op → Type} {α β γ S : Type}

def bind : Prog Op Res α → (α → Prog Op Res β) → Prog Op Res β
  | ret a, f => f a
  | call o k, f => call o fun r => (k r).bind f

instance : Monad (Prog Op Res) where
  pure := ret
  bind := bind

@[simp] theorem pure_eq (a : α) : (pure a : Prog Op Res α) = ret a := rfl

@[simp] theorem ret_bind (a : α) (f : α → Prog Op Res β) : ret a >>= f = f a := rfl

@[simp] theorem call_bind (o : Op) (k : Res o → Prog Op Res α) (f : α → Prog Op Res β) :
    call o k >>= f = call o fun r => k r >>= f := rfl

/-! ## Running a program alone -/

/-- A meaning of the operations on a state `S`. -/
abbrev Handler (Op : Type) (Res : Op → Type) (S : Type) := (o : Op) → S → Res o × S

def run (h : Handler Op Res S) : Prog Op Res α → S → α × S
  | ret a, s => (a, s)
  | call o k, s => run h (k (h o s).1) (h o s).2

variable (h : Handler Op Res S)

@[simp] theorem run_ret (a : α) (s : S) : run h (ret a : Prog Op Res α) s = (a, s) := rfl

@[simp] theorem run_call (o : Op) (k : Res o → Prog Op Res α) (s : S) :
    run h (call o k) s = run h (k (h o s).1) (h o s).2 := rfl

@[simp] theorem run_bind (p : Prog Op Res α) (f : α → Prog Op Res β) (s : S) :
    run h (p >>= f) s = run h (f (run h p s).1) (run h p s).2 := by
  induction p generalizing s with
  | ret a => rfl
  | call o k ih => rw [call_bind, run_call, ih, run_call]

/-! ## Running a program with its history -/

/-- One performed operation with its response. -/
abbrev Event (Op : Type) (Res : Op → Type) := Σ o : Op, Res o

def trace (h : Handler Op Res S) : Prog Op Res α → S → List (Event Op Res)
  | ret _, _ => []
  | call o k, s => ⟨o, (h o s).1⟩ :: trace h (k (h o s).1) (h o s).2

@[simp] theorem trace_ret (a : α) (s : S) : trace h (ret a : Prog Op Res α) s = [] := rfl

@[simp] theorem trace_call (o : Op) (k : Res o → Prog Op Res α) (s : S) :
    trace h (call o k) s = ⟨o, (h o s).1⟩ :: trace h (k (h o s).1) (h o s).2 := rfl

end Prog
