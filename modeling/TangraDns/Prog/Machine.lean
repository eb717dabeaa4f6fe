/-
  Machines: states and labelled steps, some of which cannot be taken in some
  states.
-/
import Mathlib.Data.List.Basic
import Mathlib.Tactic.Common

namespace Machine

variable {S L : Type}

/-- The steps `ls` lead from one state to another, and each meets `C` where it is taken. -/
inductive Path (step : S → L → Option S) (C : S → L → Prop) : S → List L → S → Prop
  | nil (s : S) : Path step C s [] s
  | cons {s s' s'' : S} {l : L} {ls : List L} (hstep : step s l = some s') (hC : C s l)
      (rest : Path step C s' ls s'') : Path step C s (l :: ls) s''

def run (step : S → L → Option S) (C : S → L → Prop) [∀ s l, Decidable (C s l)] :
    S → List L → Option S
  | s, [] => some s
  | s, l :: ls => if C s l then (step s l).bind fun s' => run step C s' ls else none

variable {step : S → L → Option S} {C C' : S → L → Prop} {s s' s'' : S} {ls ls' : List L}

namespace Path

/-- What every step that meets `C` keeps, every path keeps. -/
theorem invariant {I : S → Prop} (h : Path step C s ls s')
    (hstep : ∀ s l s', I s → C s l → step s l = some s' → I s') (hs : I s) : I s' := by
  induction h with
  | nil => exact hs
  | cons hl hC _ ih => exact ih (hstep _ _ _ hs hC hl)

theorem bounded {I : S → Prop} {μ : S → ℕ} {uses : L → Bool} (h : Path step C s ls s')
    (hI : ∀ s l s', I s → C s l → step s l = some s' → I s')
    (hμ : ∀ s l s', I s → C s l → step s l = some s' → μ s' + (if uses l then 1 else 0) ≤ μ s)
    (hs : I s) :
    μ s' + ls.countP uses ≤ μ s := by
  induction h with
  | nil => simp
  | @cons s s' s'' l ls hl hC _ ih =>
    have h1 := hμ s l s' hs hC hl
    have h2 := ih (hI s l s' hs hC hl)
    rw [List.countP_cons]
    omega

end Path

theorem path_of_run [∀ s l, Decidable (C s l)] (h : run step C s ls = some s') :
    Path step C s ls s' := by
  induction ls generalizing s with
  | nil =>
    cases h
    exact .nil _
  | cons l ls ih =>
    rw [run] at h
    split_ifs at h with hC
    obtain ⟨s₁, hl, h⟩ := Option.bind_eq_some_iff.1 h
    exact .cons hl hC (ih h)

theorem exists_path (step : S → L → Option S) (C : S → L → Prop) [∀ s l, Decidable (C s l)] (s : S)
    (ls : List L)
    (P : S → Bool) (h : (run step C s ls).any P = true) : ∃ s', Path step C s ls s' ∧
    P s' = true := by
  cases hrun : run step C s ls with
  | none => rw [hrun] at h; cases h
  | some s' => exact ⟨s', path_of_run hrun, by rwa [hrun] at h⟩

end Machine
