/-
  Disciplines: which operations a program may perform, given what it has
  performed and been answered so far, what it may take from the answers, and
  which answers it does not tell apart.
-/
import TangraDns.Prog.Basic

namespace Prog

variable {Op : Type} {Res : Op → Type} {α β S : Type}

/-- What a program has performed, the latest operation first. -/
abbrev Past (Op : Type) (Res : Op → Type) := List (Event Op Res)

structure Discipline (Op : Type) (Res : Op → Type) where
  allowed : Past Op Res → Op → Prop
  answer : (o : Op) → Res o → Prop
  same : Past Op Res → (o : Op) → Res o → Res o → Prop

/-- `p`, started after `past`, obeys `D` and ends in `Q`. -/
def Obeys (D : Discipline Op Res) (Q : Past Op Res → α → Prop) :
    Past Op Res → Prog Op Res α → Prop
  | past, ret a => Q past a
  | past, call o k => D.allowed past o ∧ (∀ r r', D.same past o r r' → k r = k r') ∧
      ∀ r, D.answer o r → Obeys D Q (⟨o, r⟩ :: past) (k r)

variable {D : Discipline Op Res} {Q Q' : Past Op Res → α → Prop} {past : Past Op Res}

@[simp] theorem obeys_ret {a : α} : Obeys D Q past (ret a : Prog Op Res α) ↔ Q past a := Iff.rfl

@[simp] theorem obeys_call {o : Op} {k : Res o → Prog Op Res α} :
    Obeys D Q past (call o k) ↔ D.allowed past o ∧ (∀ r r', D.same past o r r' → k r = k r') ∧
      ∀ r, D.answer o r → Obeys D Q (⟨o, r⟩ :: past) (k r) := Iff.rfl

/-! ## Rules -/

theorem Obeys.mono {p : Prog Op Res α} (h : Obeys D Q past p)
    (hQ : ∀ past' a, past <:+ past' → Q past' a → Q' past' a) : Obeys D Q' past p := by
  induction p generalizing past with
  | ret a => exact hQ past a List.suffix_rfl h
  | call o k ih =>
    refine ⟨h.1, h.2.1, fun r hr => ih r (h.2.2 r hr) fun past' a hs => ?_⟩
    exact hQ past' a ((List.suffix_cons _ _).trans hs)

theorem Obeys.bind {p : Prog Op Res α} {f : α → Prog Op Res β} {Q : Past Op Res → β → Prop}
    (h : Obeys D (fun past' a => Obeys D Q past' (f a)) past p) : Obeys D Q past (p >>= f) := by
  induction p generalizing past with
  | ret a => exact h
  | call o k ih =>
    exact ⟨h.1, fun r r' hs => congrArg (· >>= f) (h.2.1 r r' hs), fun r hr => ih r (h.2.2 r hr)⟩

/-! ## What a discipline gives -/

variable {h : Handler Op Res S} {p : Prog Op Res α} {s : S}

theorem Obeys.run {I : Past Op Res → S → Prop} (hp : Obeys D Q past p)
    (hans : ∀ o s, D.answer o (h o s).1)
    (hstep : ∀ past s o, I past s → D.allowed past o → I (⟨o, (h o s).1⟩ :: past) (h o s).2)
    (hI : I past s) :
    I ((trace h p s).reverse ++ past) (Prog.run h p s).2 ∧
      Q ((trace h p s).reverse ++ past) (Prog.run h p s).1 := by
  induction p generalizing past s with
  | ret a => exact ⟨hI, hp⟩
  | call o k ih =>
    have := ih _ (hp.2.2 (h o s).1 (hans o s)) (hstep past s o hI hp.1)
    simpa only [run_call, trace_call, List.reverse_cons, List.append_assoc, List.singleton_append]
      using this

theorem Obeys.event {I : Past Op Res → S → Prop} (hp : Obeys D Q past p)
    (hans : ∀ o s, D.answer o (h o s).1)
    (hstep : ∀ past s o, I past s → D.allowed past o → I (⟨o, (h o s).1⟩ :: past) (h o s).2)
    (hI : I past s) {pre post : List (Event Op Res)} {e : Event Op Res}
    (he : trace h p s = pre ++ e :: post) :
    ∃ s', I (pre.reverse ++ past) s' ∧ D.allowed (pre.reverse ++ past) e.1 ∧
      e.2 = (h e.1 s').1 := by
  induction p generalizing past s pre with
  | ret a => simp at he
  | call o k ih =>
    rw [trace_call] at he
    cases pre with
    | nil =>
      obtain ⟨rfl, -⟩ := List.cons.inj he
      exact ⟨s, hI, hp.1, rfl⟩
    | cons e' pre =>
      obtain ⟨rfl, he'⟩ := List.cons.inj he
      simpa using ih _ (hp.2.2 _ (hans o s)) (hstep past s o hI hp.1) he'

/-- From related states allowed operations get answers that make no difference, so the runs return
    the same value and end in related states. -/
theorem Obeys.rel {R : Past Op Res → S → S → Prop} {t : S} (hp : Obeys D Q past p)
    (hans : ∀ o s, D.answer o (h o s).1)
    (hstep : ∀ past s t o, R past s t → D.allowed past o →
      D.same past o (h o s).1 (h o t).1 ∧ R (⟨o, (h o s).1⟩ :: past) (h o s).2 (h o t).2)
    (hR : R past s t) :
    (Prog.run h p s).1 = (Prog.run h p t).1 ∧
      R ((trace h p s).reverse ++ past) (Prog.run h p s).2 (Prog.run h p t).2 := by
  induction p generalizing past s t with
  | ret a => exact ⟨rfl, hR⟩
  | call o k ih =>
    obtain ⟨he, hR'⟩ := hstep past s t o hR hp.1
    have := ih _ (hp.2.2 (h o s).1 (hans o s)) hR'
    rw [run_call, run_call, ← hp.2.1 _ _ he]
    simpa only [trace_call, List.reverse_cons, List.append_assoc, List.singleton_append] using this

end Prog
