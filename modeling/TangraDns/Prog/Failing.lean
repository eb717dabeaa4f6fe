/-
  Programs that may fail: programs over an operation signature that return a
  value or an error.
-/
import TangraDns.Prog.Discipline

namespace Prog

abbrev Failing (Op : Type) (Res : Op → Type) (ε α : Type) := ExceptT ε (Prog Op Res) α

variable {Op : Type} {Res : Op → Type} {ε α β S : Type}

namespace Failing

def ofExcept (e : Except ε α) : Failing Op Res ε α := ExceptT.mk (.ret e)

def attempt (p : Failing Op Res ε α) : Failing Op Res ε (Except ε α) :=
  ExceptT.mk (p.run >>= fun r => .ret (.ok r))

def ask (o : Op) (f : Res o → Except ε α) : Failing Op Res ε α :=
  ExceptT.mk (.call o fun r => .ret (f r))

theorem bind_eq (p : Failing Op Res ε α) (f : α → Failing Op Res ε β) :
    (p >>= f).run = p.run >>= fun r => match r with
      | .ok a => (f a).run
      | .error e => .ret (.error e) := rfl

/-! ## Running -/

def exec (h : Handler Op Res S) (p : Failing Op Res ε α) (s : S) : Except ε α × S :=
  Prog.run h p.run s

variable {h : Handler Op Res S} {s : S}

@[simp] theorem exec_pure (a : α) : exec h (pure a : Failing Op Res ε α) s = (.ok a, s) := rfl

@[simp] theorem exec_throw (e : ε) : exec h (throw e : Failing Op Res ε α) s = (.error e, s) := rfl

@[simp] theorem exec_ofExcept (e : Except ε α) :
    exec h (ofExcept e : Failing Op Res ε α) s = (e, s) := rfl

@[simp] theorem exec_ask (o : Op) (f : Res o → Except ε α) :
    exec h (ask o f) s = (f (h o s).1, (h o s).2) := rfl

@[simp] theorem exec_attempt (p : Failing Op Res ε α) :
    exec h (attempt p) s = (.ok (exec h p s).1, (exec h p s).2) :=
  run_bind h p.run _ s

theorem exec_bind (p : Failing Op Res ε α) (f : α → Failing Op Res ε β) :
    exec h (p >>= f) s = match exec h p s with
      | (.ok a, s') => exec h (f a) s'
      | (.error e, s') => (.error e, s') := by
  rw [exec, bind_eq, run_bind, exec]
  rcases Prog.run h p.run s with ⟨a | e, s'⟩ <;> rfl

theorem exec_bind_ok {p : Failing Op Res ε α} {f : α → Failing Op Res ε β} {a : α} {s' : S}
    (hp : exec h p s = (.ok a, s')) : exec h (p >>= f) s = exec h (f a) s' := by
  rw [exec_bind, hp]

theorem exec_bind_error {p : Failing Op Res ε α} {f : α → Failing Op Res ε β} {e : ε} {s' : S}
    (hp : exec h p s = (.error e, s')) : exec h (p >>= f) s = (.error e, s') := by
  rw [exec_bind, hp]

/-! ## Disciplines -/

/-- `p` obeys `D`, and what it returns without error satisfies `Q`. -/
def Safe (D : Discipline Op Res) (Q : Past Op Res → α → Prop) (past : Past Op Res)
    (p : Failing Op Res ε α) : Prop :=
  Obeys D (fun past' r => ∀ a, r = .ok a → Q past' a) past p.run

variable {D : Discipline Op Res} {Q Q' : Past Op Res → α → Prop} {past : Past Op Res}

theorem safe_pure {a : α} (h : Q past a) : Safe D Q past (pure a : Failing Op Res ε α) := by
  rintro b ⟨⟩
  exact h

theorem safe_throw (e : ε) : Safe D Q past (throw e : Failing Op Res ε α) := by
  rintro b ⟨⟩

theorem safe_ofExcept {e : Except ε α} (h : ∀ a, e = .ok a → Q past a) :
    Safe D Q past (ofExcept e : Failing Op Res ε α) := h

theorem safe_ask {o : Op} {f : Res o → Except ε α} (hD : D.allowed past o)
    (hs : ∀ r r', D.same past o r r' → f r = f r')
    (h : ∀ r a, D.answer o r → f r = .ok a → Q (⟨o, r⟩ :: past) a) :
    Safe D Q past (ask o f : Failing Op Res ε α) :=
  ⟨hD, fun r r' hr => congrArg Prog.ret (hs r r' hr), fun r hr a ha => h r a hr ha⟩

theorem Safe.mono {p : Failing Op Res ε α} (h : Safe D Q past p)
    (hQ : ∀ past' a, past <:+ past' → Q past' a → Q' past' a) : Safe D Q' past p :=
  Obeys.mono h fun past' _ hs h a ha => hQ past' a hs (h a ha)

variable {R : Past Op Res → β → Prop}

theorem Safe.bind {p : Failing Op Res ε α} {f : α → Failing Op Res ε β} (h : Safe D Q past p)
    (hf : ∀ past' a, past <:+ past' → Q past' a → Safe D R past' (f a)) :
    Safe D R past (p >>= f) := by
  refine Obeys.bind (Obeys.mono h fun past' r hs hr => ?_)
  cases r with
  | ok a => exact hf past' a hs (hr a rfl)
  | error e => rintro b ⟨⟩

theorem Safe.attempt {p : Failing Op Res ε α} (h : Safe D Q past p) :
    Safe D (fun past' r => ∀ a, r = .ok a → Q past' a) past (attempt p) := by
  refine Obeys.bind (Obeys.mono h fun past' r _ hr => ?_)
  rintro b ⟨⟩
  exact hr

theorem Safe.catch {p : Failing Op Res ε α} {f : Except ε α → Failing Op Res ε β}
    (h : Safe D Q past p)
    (hok : ∀ past' a, past <:+ past' → Q past' a → Safe D R past' (f (.ok a)))
    (herr : ∀ past' e, past <:+ past' → Safe D R past' (f (.error e))) :
    Safe D R past (Failing.attempt p >>= f) := by
  refine Safe.bind h.attempt fun past' r hs hr => ?_
  cases r with
  | ok a => exact hok past' a hs (hr a rfl)
  | error e => exact herr past' e hs

theorem safe_check {e : Except ε α} {k : α → Failing Op Res ε β}
    (h : ∀ a, e = .ok a → Safe D R past (k a)) :
    Safe D R past (ofExcept e >>= k) := by
  cases e with
  | ok a => exact h a rfl
  | error e => exact safe_throw e

theorem safe_ask_bind {o : Op} {f : Res o → Except ε α} {k : α → Failing Op Res ε β}
    (hD : D.allowed past o) (hs : ∀ r r', D.same past o r r' → f r = f r')
    (h : ∀ r a, D.answer o r → f r = .ok a → Safe D R (⟨o, r⟩ :: past) (k a)) :
    Safe D R past (ask o f >>= k) := by
  refine Obeys.bind ⟨hD, fun r r' hr => congrArg Prog.ret (hs r r' hr), fun r hr => ?_⟩
  change Obeys D _ _ (match f r with | .ok a => (k a).run | .error e => .ret (.error e))
  cases hf : f r with
  | ok a => exact h r a hr hf
  | error e => rintro b ⟨⟩

theorem safe_ask_catch {o : Op} {f : Res o → Except ε α} {k : Except ε α → Failing Op Res ε β}
    (hD : D.allowed past o) (hs : ∀ r r', D.same past o r r' → k (f r) = k (f r'))
    (h : ∀ r, D.answer o r → Safe D R (⟨o, r⟩ :: past) (k (f r))) :
    Safe D R past (attempt (ask o f) >>= k) := ⟨hD, hs, h⟩

theorem Safe.ite {c : Prop} [Decidable c] {p q : Failing Op Res ε α} (hp : c → Safe D Q past p)
    (hq : ¬ c → Safe D Q past q) : Safe D Q past (if c then p else q) := by
  split_ifs with hc
  exacts [hp hc, hq hc]

/-! ## Disciplines, whatever the outcome -/

/-- `p` obeys `D` and leaves a past with `I`, with or without an error. -/
def Leaves (D : Discipline Op Res) (I : Past Op Res → Prop) (past : Past Op Res)
    (p : Failing Op Res ε α) : Prop :=
  Obeys D (fun past' _ => I past') past p.run

variable {I J : Past Op Res → Prop}

theorem leaves_pure {a : α} (h : I past) : Leaves D I past (pure a : Failing Op Res ε α) := h

theorem leaves_throw {e : ε} (h : I past) : Leaves D I past (throw e : Failing Op Res ε α) := h

theorem leaves_ofExcept {e : Except ε α} (h : I past) :
    Leaves D I past (ofExcept e : Failing Op Res ε α) := h

theorem leaves_ask {o : Op} {f : Res o → Except ε α} (hD : D.allowed past o)
    (hs : ∀ r r', ¬ D.same past o r r')
    (h : ∀ r, I (⟨o, r⟩ :: past)) : Leaves D I past (ask o f : Failing Op Res ε α) :=
  ⟨hD, fun r r' hr => absurd hr (hs r r'), fun r _ => h r⟩

theorem Leaves.bind {p : Failing Op Res ε α} {f : α → Failing Op Res ε β} (h : Leaves D I past p)
    (hf : ∀ past' a, I past' → Leaves D J past' (f a)) (herr : ∀ past', I past' → J past') :
    Leaves D J past (p >>= f) := by
  refine Obeys.bind (Obeys.mono h fun past' r _ hr => ?_)
  cases r with
  | ok a => exact hf past' a hr
  | error e => exact herr past' hr

theorem leaves_ask_bind {o : Op} {f : Res o → Except ε α} {k : α → Failing Op Res ε β}
    (hD : D.allowed past o)
    (hs : ∀ r r', ¬ D.same past o r r') (h : ∀ r a, f r = .ok a → Leaves D I (⟨o, r⟩ :: past) (k a))
    (herr : ∀ r, I (⟨o, r⟩ :: past)) : Leaves D I past (ask o f >>= k) := by
  refine Obeys.bind ⟨hD, fun r r' hr => absurd hr (hs r r'), fun r _ => ?_⟩
  change Obeys D _ _ (match f r with | .ok a => (k a).run | .error e => .ret (.error e))
  cases hf : f r with
  | ok a => exact h r a hf
  | error e => exact herr r

theorem Leaves.catch {p : Failing Op Res ε α} {f : Except ε α → Failing Op Res ε β}
    (h : Leaves D I past p)
    (hf : ∀ past' r, I past' → Leaves D J past' (f r)) : Leaves D J past (attempt p >>= f) :=
  Obeys.bind (Obeys.bind (Obeys.mono h fun past' r _ hr => hf past' r hr))

theorem Leaves.attempt {p : Failing Op Res ε α} (h : Leaves D I past p) :
    Leaves D I past (attempt p) :=
  Obeys.bind (Obeys.mono h fun _ _ _ hr => hr)

theorem Leaves.ite {c : Prop} [Decidable c] {p q : Failing Op Res ε α} (hp : c → Leaves D I past p)
    (hq : ¬ c → Leaves D I past q) : Leaves D I past (if c then p else q) := by
  split_ifs with hc
  exacts [hp hc, hq hc]

end Failing

end Prog
