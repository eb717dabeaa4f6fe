/-
  Postconditions of programs whose operations are known by a relation only.
-/
import TangraDns.Prog.Failing

namespace Prog

variable {Op : Type} {Res : Op → Type} {ε α β S S' : Type}
variable {s : S} {p : Prog Op Res α}

/-- What an operation may answer and leave. -/
abbrev Steps (Op : Type) (Res : Op → Type) (S : Type) := (o : Op) → S → Res o → S → Prop

def wp (R : Steps Op Res S) (Q : α → S → Prop) : S → Prog Op Res α → Prop
  | s, ret a => Q a s
  | s, call o k => ∀ r s', R o s r s' → wp R Q s' (k r)

variable {R : Steps Op Res S}

theorem wp_mono {Q Q' : α → S → Prop} (h : wp R Q s p)
    (hQ : ∀ a s', Q a s' → Q' a s') : wp R Q' s p := by
  induction p generalizing s with
  | ret a => exact hQ a s h
  | call o k ih => exact fun r s' hr => ih r (h r s' hr)

theorem wp_bind {Q : β → S → Prop} {f : α → Prog Op Res β}
    (h : wp R (fun a s' => wp R Q s' (f a)) s p) : wp R Q s (p >>= f) := by
  induction p generalizing s with
  | ret a => exact h
  | call o k ih => exact fun r s' hr => ih r (h r s' hr)

/-- A handler on a richer state, every step of which is one of the relation. -/
theorem wp_run {Q : α → S → Prop} {h : Handler Op Res S'} {π : S' → S}
    (hR : ∀ o t, R o (π t) (h o t).1 (π (h o t).2)) {t : S'} (hp : wp R Q (π t) p) :
    Q (run h p t).1 (π (run h p t).2) := by
  induction p generalizing t with
  | ret a => exact hp
  | call o k ih => exact ih _ (hp _ _ (hR o t))

theorem wp_true : wp R (fun _ _ => True) s p := by
  induction p generalizing s with
  | ret a => trivial
  | call o k ih => exact fun r s' _ => ih r

namespace Failing

variable {e : Except ε α} {f : α → Failing Op Res ε β} {p : Failing Op Res ε α}

/-- Every run of `p` from `s` ends in `Q`, which speaks about its outcome and the state it
    leaves. -/
def Ensures (R : Steps Op Res S) (Q : Except ε α → S → Prop) (s : S) (p : Failing Op Res ε α) :
    Prop :=
  wp R Q s p.run

variable {Q Q' : Except ε α → S → Prop} {s : S}

theorem ensures_pure {a : α} (h : Q (.ok a) s) : Ensures R Q s (pure a : Failing Op Res ε α) := h

theorem ensures_throw {e : ε} (h : Q (.error e) s) : Ensures R Q s (throw e : Failing Op Res ε α) :=
  h

theorem ensures_ofExcept (h : Q e s) :
    Ensures R Q s (ofExcept e : Failing Op Res ε α) := h

theorem ensures_ask {o : Op} {f : Res o → Except ε α} (h : ∀ r s', R o s r s' → Q (f r) s') :
    Ensures R Q s (ask o f : Failing Op Res ε α) := h

theorem Ensures.mono (h : Ensures R Q s p)
    (hQ : ∀ r s', Q r s' → Q' r s') : Ensures R Q' s p := wp_mono h hQ

variable {P : Except ε β → S → Prop}

theorem Ensures.bind (h : Ensures R Q s p)
    (hok : ∀ a s', Q (.ok a) s' → Ensures R P s' (f a))
    (herr : ∀ e s', Q (.error e) s' → P (.error e) s') : Ensures R P s (p >>= f) := by
  refine wp_bind (wp_mono h fun r s' hr => ?_)
  cases r with
  | ok a => exact hok a s' hr
  | error e => exact herr e s' hr

theorem ensures_check
    (hok : ∀ a, e = .ok a → Ensures R P s (f a)) (herr : ∀ x, e = .error x → P (.error x) s) :
    Ensures R P s (ofExcept e >>= f) :=
  Ensures.bind (Q := fun r s' => r = e ∧ s' = s) (ensures_ofExcept ⟨rfl, rfl⟩)
    (by rintro a _ ⟨ha, rfl⟩; exact hok a ha.symm) (by rintro x _ ⟨hx, rfl⟩; exact herr x hx.symm)

theorem Ensures.catch {f : Except ε α → Failing Op Res ε β}
    (h : Ensures R Q s p) (hf : ∀ r s', Q r s' → Ensures R P s' (f r)) :
    Ensures R P s (attempt p >>= f) :=
  wp_bind (wp_bind (wp_mono h fun r s' hr => hf r s' hr))

theorem Ensures.attempt (h : Ensures R Q s p) :
    Ensures R (fun r s' => ∃ a, r = .ok a ∧ Q a s') s (attempt p) :=
  wp_bind (wp_mono h fun r _ hr => ⟨r, rfl, hr⟩)

theorem Ensures.ite {c : Prop} [Decidable c] {q : Failing Op Res ε α} (hp : c → Ensures R Q s p)
    (hq : ¬ c → Ensures R Q s q) : Ensures R Q s (if c then p else q) := by
  split_ifs with hc
  exacts [hp hc, hq hc]

theorem Ensures.exec {h : Handler Op Res S'} {π : S' → S}
    (hR : ∀ o t, R o (π t) (h o t).1 (π (h o t).2)) {t : S'} (hp : Ensures R Q (π t) p) :
    Q (exec h p t).1 (π (exec h p t).2) := wp_run hR hp

theorem ensures_ignore {f : Failing Op Res ε β}
    (hf : ∀ s', Ensures R P s' f) : Ensures R P s (Failing.attempt p >>= fun _ => f) :=
  wp_bind (wp_bind (wp_mono wp_true fun _ s' _ => hf s'))

/-! ## Invariants -/

def Keeps (R : Steps Op Res S) (I : S → Prop) (p : Failing Op Res ε α) : Prop :=
  ∀ s, I s → Ensures R (fun _ s' => I s') s p

variable {I : S → Prop}

theorem keeps_all (h : ∀ o s r s', I s → R o s r s' → I s') (p : Failing Op Res ε α) :
    Keeps R I p := by
  have hwp (q : Prog Op Res (Except ε α)) : ∀ s, I s → wp R (fun _ s' => I s') s q := by
    induction q with
    | ret a => exact fun s hs => hs
    | call o k ih => exact fun s hs r s' hr => ih r s' (h o s r s' hs hr)
  exact hwp p.run

theorem keeps_pure {a : α} : Keeps R I (pure a : Failing Op Res ε α) := fun _ h => h

theorem keeps_throw {e : ε} : Keeps R I (throw e : Failing Op Res ε α) := fun _ h => h

theorem keeps_ofExcept : Keeps R I (ofExcept e : Failing Op Res ε α) := fun _ h => h

theorem keeps_ask {o : Op} {f : Res o → Except ε α} (h : ∀ s r s', I s → R o s r s' → I s') :
    Keeps R I (ask o f : Failing Op Res ε α) := fun s hs r s' hr => h s r s' hs hr

theorem Keeps.bind (hp : Keeps R I p)
    (hf : ∀ a, Keeps R I (f a)) : Keeps R I (p >>= f) :=
  fun s hs => (hp s hs).bind (fun a s' h => hf a s' h) fun _ _ h => h

theorem Keeps.attempt (hp : Keeps R I p) : Keeps R I (Failing.attempt p) :=
  fun s hs => (hp s hs).attempt.mono fun _ _ ⟨_, _, h⟩ => h

theorem Keeps.catch {f : Except ε α → Failing Op Res ε β} (hp : Keeps R I p)
    (hok : ∀ a, Keeps R I (f (.ok a))) (herr : ∀ e, Keeps R I (f (.error e))) :
    Keeps R I (Failing.attempt p >>= f) := by
  refine hp.attempt.bind fun r => ?_
  cases r with
  | ok a => exact hok a
  | error e => exact herr e

theorem Keeps.ite {c : Prop} [Decidable c] {q : Failing Op Res ε α} (hp : Keeps R I p)
    (hq : Keeps R I q) : Keeps R I (if c then p else q) :=
  fun s hs => Ensures.ite (fun _ => hp s hs) fun _ => hq s hs

end Failing

end Prog
