/-
  Rely and guarantee: a program among others that change the state between its
  operations.
-/
import TangraDns.Prog.Failing
import TangraDns.Prog.Pool

namespace Prog

variable {Op : Type} {Res : Op → Type} {ε α β S M ι : Type}

structure Terms (Op : Type) (Res : Op → Type) (S M : Type) where
  next : M → Event Op Res → M
  rely : M → S → S → Prop
  guar : M → Event Op Res → S → S → Prop
  refl : ∀ m s, rely m s s
  trans : ∀ m s s' s'', rely m s s' → rely m s' s'' → rely m s s''

def Terms.mode (T : Terms Op Res S M) (m : M) (past : Past Op Res) : M :=
  past.foldr (fun e m => T.next m e) m

@[simp] theorem Terms.mode_nil (T : Terms Op Res S M) (m : M) : T.mode m [] = m := rfl

@[simp] theorem Terms.mode_cons (T : Terms Op Res S M) (m : M) (e : Event Op Res)
    (past : Past Op Res) :
    T.mode m (e :: past) = T.next (T.mode m past) e := rfl

/-- From mode `m` and state `s`, whatever the others do within what `p` relies on, its operations
    keep their guarantees and `p` ends in `Q`. -/
def Upholds (T : Terms Op Res S M) (h : Handler Op Res S) (Q : α → M → S → Prop) :
    M → S → Prog Op Res α → Prop
  | m, s, ret a => Q a m s
  | m, s, call o k => ∀ s', T.rely m s s' → T.guar m ⟨o, (h o s').1⟩ s' (h o s').2 ∧
      Upholds T h Q (T.next m ⟨o, (h o s').1⟩) (h o s').2 (k (h o s').1)

variable {T : Terms Op Res S M} {h : Handler Op Res S} {m : M} {s : S}

theorem Upholds.mono {Q Q' : α → M → S → Prop} {p : Prog Op Res α} (hp : Upholds T h Q m s p)
    (hQ : ∀ a m' s', Q a m' s' → Q' a m' s') : Upholds T h Q' m s p := by
  induction p generalizing m s with
  | ret a => exact hQ a m s hp
  | call o k ih => exact fun s' hs => ⟨(hp s' hs).1, ih _ (hp s' hs).2⟩

theorem Upholds.bind {Q : β → M → S → Prop} {p : Prog Op Res α} {f : α → Prog Op Res β}
    (hp : Upholds T h (fun a m' s' => Upholds T h Q m' s' (f a)) m s p) :
    Upholds T h Q m s (p >>= f) := by
  induction p generalizing m s with
  | ret a => exact hp
  | call o k ih => exact fun s' hs => ⟨(hp s' hs).1, ih _ (hp s' hs).2⟩

/-- A program with operations left does not notice what the others do. -/
theorem Upholds.among {Q : α → M → S → Prop} {o : Op} {k : Res o → Prog Op Res α} {s' : S}
    (hp : Upholds T h Q m s (call o k)) (hs : T.rely m s s') : Upholds T h Q m s' (call o k) :=
  fun _ hs' => hp _ (T.trans m _ _ _ hs hs')

namespace Failing

variable {p : Failing Op Res ε α}

/-- `Upholds` for programs that may fail; `Q` speaks about the outcome. -/
def Abides (T : Terms Op Res S M) (h : Handler Op Res S) (Q : Except ε α → M → S → Prop)
    (m : M) (s : S)
    (p : Failing Op Res ε α) : Prop := Upholds T h Q m s p.run

variable {Q Q' : Except ε α → M → S → Prop} {R : Except ε β → M → S → Prop}

theorem abides_pure {a : α} (hQ : Q (.ok a) m s) : Abides T h Q m s (pure a : Failing Op Res ε α) :=
  hQ

theorem abides_throw {e : ε} (hQ : Q (.error e) m s) :
    Abides T h Q m s (throw e : Failing Op Res ε α) := hQ

theorem abides_ofExcept {e : Except ε α} (hQ : Q e m s) :
    Abides T h Q m s (ofExcept e : Failing Op Res ε α) := hQ

theorem abides_ask {o : Op} {f : Res o → Except ε α}
    (hQ : ∀ s', T.rely m s s' → T.guar m ⟨o, (h o s').1⟩ s' (h o s').2 ∧
      Q (f (h o s').1) (T.next m ⟨o, (h o s').1⟩) (h o s').2) : Abides T h Q m s (ask o f) := hQ

theorem Abides.mono (hp : Abides T h Q m s p)
    (hQ : ∀ r m' s', Q r m' s' → Q' r m' s') : Abides T h Q' m s p := Upholds.mono hp hQ

theorem Abides.bind {f : α → Failing Op Res ε β} (hp : Abides T h Q m s p)
    (hok : ∀ a m' s', Q (.ok a) m' s' → Abides T h R m' s' (f a))
    (herr : ∀ e m' s', Q (.error e) m' s' → R (.error e) m' s') : Abides T h R m s (p >>= f) := by
  refine Upholds.bind (Upholds.mono hp fun r m' s' hr => ?_)
  cases r with
  | ok a => exact hok a m' s' hr
  | error e => exact herr e m' s' hr

theorem abides_check {e : Except ε α} {f : α → Failing Op Res ε β}
    (hok : ∀ a, e = .ok a → Abides T h R m s (f a)) (herr : ∀ x, e = .error x → R (.error x) m s) :
    Abides T h R m s (ofExcept e >>= f) := by
  cases he : e with
  | ok a => exact hok a he
  | error x => exact herr x he

theorem Abides.catch {f : Except ε α → Failing Op Res ε β} (hp : Abides T h Q m s p)
    (hf : ∀ r m' s', Q r m' s' → Abides T h R m' s' (f r)) : Abides T h R m s (attempt p >>= f) :=
  Upholds.bind (Upholds.bind (Upholds.mono hp fun r m' s' hr => hf r m' s' hr))

theorem Abides.attempt (hp : Abides T h Q m s p) :
    Abides T h (fun r m' s' => ∃ a, r = .ok a ∧ Q a m' s') m s (attempt p) :=
  Upholds.bind (Upholds.mono hp fun r _ _ hr => ⟨r, rfl, hr⟩)

theorem Abides.ite {c : Prop} [Decidable c] {q : Failing Op Res ε α} (hp : c → Abides T h Q m s p)
    (hq : ¬ c → Abides T h Q m s q) : Abides T h Q m s (if c then p else q) := by
  split_ifs with hc
  exacts [hp hc, hq hc]

theorem abides_forall {κ : Type} [Nonempty κ] {Q : κ → Except ε α → M → S → Prop}
    (hp : ∀ i, Abides T h (Q i) m s p) : Abides T h (fun a m' s' => ∀ i, Q i a m' s') m s p := by
  unfold Abides at hp ⊢
  generalize p.run = q at hp
  induction q generalizing m s with
  | ret a => exact hp
  | call o k ih =>
    exact fun s' hs => ⟨(hp (Classical.arbitrary κ) s' hs).1, ih _ fun i => (hp i s' hs).2⟩

/-- A program whose operations, all of them allowed, do not leave the mode and keep `I`. -/
theorem Safe.abides {D : Discipline Op Res} {V : Past Op Res → α → Prop} {I : S → Prop}
    {past : Past Op Res}
    (hp : Safe D V past p) (hans : ∀ o s, D.answer o (h o s).1)
    (hrely : ∀ s s', I s → T.rely m s s' → I s')
    (hstep : ∀ past o s, D.allowed past o → I s → T.guar m ⟨o, (h o s).1⟩ s (h o s).2 ∧
      T.next m ⟨o, (h o s).1⟩ = m ∧ I (h o s).2) (hI : I s) :
    Abides T h (fun r m' s' => m' = m ∧ I s' ∧ ∀ a, r = .ok a → ∃ past', V past' a) m s p := by
  unfold Safe at hp
  unfold Abides
  generalize p.run = q at hp
  induction q generalizing past s with
  | ret r => exact ⟨rfl, hI, fun a ha => ⟨past, hp a ha⟩⟩
  | call o k ih =>
    intro s' hs
    obtain ⟨hguar, hnext, hI'⟩ := hstep past o s' hp.1 (hrely s s' hI hs)
    refine ⟨hguar, ?_⟩
    rw [hnext]
    exact ih _ hI' (hp.2.2 _ (hans o s'))

end Failing

namespace Pool

variable [DecidableEq ι] {C : Pool Op Res α S ι → ι → Prop}

/-- Programs go on upholding their terms as long as each step does to the state what the other
    programs rely on; an invariant of the pool may be carried along. -/
theorem run_upholds (m₀ : M) {I : Pool Op Res α S ι → Prop} {Q : ι → α → M → S → Prop}
    (hstep : ∀ P i o k, (P.threads i).prog = call o k → I P → C P i →
      T.guar (T.mode m₀ (P.threads i).past) ⟨o, (h o P.state).1⟩ P.state (h o P.state).2 →
      Upholds T h (Q i) (T.next (T.mode m₀ (P.threads i).past) ⟨o, (h o P.state).1⟩) (h o P.state).2
        (k (h o P.state).1) →
      (∀ j, j ≠ i → ¬ (P.threads j).Done →
        T.rely (T.mode m₀ (P.threads j).past) P.state (h o P.state).2) ∧
        I (step h P i))
    (sched : List ι) (P : Pool Op Res α S ι)
    (hP : ∀ j, Upholds T h (Q j) (T.mode m₀ (P.threads j).past) P.state (P.threads j).prog)
    (hI : I P) (hC : Meets h C P sched) : I (run h P sched) := by
  refine (run_induction (I := fun P => I P ∧ ∀ j, ¬ (P.threads j).Done →
    Upholds T h (Q j) (T.mode m₀ (P.threads j).past) P.state (P.threads j).prog) ?_ sched P
    ⟨hI, fun j _ => hP j⟩ hC).1
  rintro P i ⟨hI, hP⟩ hC
  cases hi : (P.threads i).prog with
  | ret a => rw [step_ret h hi]; exact ⟨hI, hP⟩
  | call o k =>
    have hi' := hP i (not_done_of_call hi)
    rw [hi] at hi'
    obtain ⟨hguar, hrest⟩ := hi' P.state (T.refl _ _)
    obtain ⟨hrely, hI'⟩ := hstep P i o k hi hI hC hguar hrest
    refine ⟨hI', fun j hj => ?_⟩
    rw [step_state h hi]
    by_cases hji : j = i
    · subst hji
      rw [step_threads_self h hi]
      exact hrest
    · rw [step_threads_of_ne h hji] at hj ⊢
      cases hjp : (P.threads j).prog with
      | ret a => exact absurd ⟨a, hjp⟩ hj
      | call o' k' =>
        have := hP j hj
        rw [hjp] at this
        exact this.among (hrely j hji hj)

end Pool

end Prog
