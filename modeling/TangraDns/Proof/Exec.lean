/-
  Running actions: one equation per call in the healthy world, one rule per call in
  a world where PowerDNS calls may fail, with or without effect.
-/
import TangraDns.Prog.Spec
import TangraDns.World

namespace TangraDns.Act

open Str Prog.Failing

variable {U : CaseTables} {w : World} {α β : Type}
variable {Q : Except Err β → World → Prop}

@[simp] theorem exec_now : exec (handler U) now w =
    (.ok (w.times w.ticks), { w with ticks := w.ticks + 1 }) := rfl

@[simp] theorem exec_newID : exec (handler U) newID w =
    (.ok (w.ids w.minted), { w with minted := w.minted + 1 }) := rfl

@[simp] theorem exec_store (c : StoreCall) : exec (handler U) (store c) w =
    ((c.step U (w.times w.ticks) w.store).1,
      { w with store := (c.step U (w.times w.ticks) w.store).2 }) := rfl

@[simp] theorem exec_pdns (c : PDNSCall) : exec (handler U) (pdns c) w =
    (Except.mapError Err.pdns (c.step U w.pdns).1, { w with pdns := (c.step U w.pdns).2 }) := rfl

@[simp] theorem exec_recursor (c : RecursorCall) : exec (handler U) (recursor c) w =
    (Except.mapError Err.recursor (c.step U w.hosts w.recursor).1,
      { w with recursor := (c.step U w.hosts w.recursor).2 }) := rfl

@[simp] theorem exec_ipam (c : IPAMCall) : exec (handler U) (ipam c) w = (c.answer w.ipam, w) := rfl

/-! ## A shaky world -/

/-- The calls of the world.  If it is shaky, a PowerDNS call may fail, without effect, or also with
    it if replies are lost. -/
def Answers (U : CaseTables) (shaky lossy : Prop) : Prog.Steps Op Res World
  | .pdns c, w, r, w' => (r, w') = handler U (.pdns c) w ∨
      shaky ∧ (w' = w ∨ lossy ∧ w' = (handler U (.pdns c) w).2) ∧ ∃ e, r = .error e
  | o, w, r, w' => (r, w') = handler U o w

/-- The calls of the world; if it is shaky, a PowerDNS call may fail without effect. -/
abbrev Steps (U : CaseTables) (shaky : Prop) : Prog.Steps Op Res World := Answers U shaky False

variable {shaky lossy : Prop}

theorem answers_handler (o : Op) (w : World) :
    Answers U shaky lossy o w (handler U o w).1 (handler U o w).2 := by
  cases o
  case pdns c => exact .inl rfl
  all_goals exact rfl

theorem ensures_store {c : StoreCall} {f : Except Err c.Ans → Act β}
    (h : Ensures (Answers U shaky lossy) Q
      { w with store := (c.step U (w.times w.ticks) w.store).2 }
      (f (c.step U (w.times w.ticks) w.store).1)) :
    Ensures (Answers U shaky lossy) Q w (attempt (store c) >>= f) := by
  rintro _ _ ⟨⟩
  exact h

theorem ensures_pdns {c : PDNSCall} {f : Except Err c.Ans → Act β}
    (h : Ensures (Answers U shaky lossy) Q { w with pdns := (c.step U w.pdns).2 }
      (f (Except.mapError Err.pdns (c.step U w.pdns).1)))
    (hf : shaky → ∀ e w', w' = w ∨ lossy ∧ w' = { w with pdns := (c.step U w.pdns).2 } →
      Ensures (Answers U shaky lossy) Q w' (f (.error (.pdns e)))) :
    Ensures (Answers U shaky lossy) Q w (attempt (pdns c) >>= f) := by
  rintro r w' (hd | ⟨hs, hw', e, rfl⟩)
  · obtain ⟨rfl, rfl⟩ := Prod.mk.inj hd
    exact h
  · exact hf hs e w' hw'

theorem ensures_now {f : ℕ → Act β}
    (h : Ensures (Answers U shaky lossy) Q { w with ticks := w.ticks + 1 } (f (w.times w.ticks))) :
    Ensures (Answers U shaky lossy) Q w (now >>= f) := by
  rintro _ _ ⟨⟩
  exact h

theorem ensures_newID {f : Str → Act β}
    (h : Ensures (Answers U shaky lossy) Q { w with minted := w.minted + 1 } (f (w.ids w.minted))) :
    Ensures (Answers U shaky lossy) Q w (newID >>= f) := by
  rintro _ _ ⟨⟩
  exact h

theorem ensures_read {c : StoreCall} {f : c.Ans → Act β} {a : c.Ans}
    (hc : c.step U (w.times w.ticks) w.store = (.ok a, w.store))
    (h : Ensures (Answers U shaky lossy) Q w (f a)) :
    Ensures (Answers U shaky lossy) Q w (store c >>= f) := by
  rintro _ _ ⟨⟩
  dsimp only
  rw [hc]
  exact h

theorem ensures_look {c : PDNSCall} {f : c.Ans → Act β} {a : c.Ans}
    (hc : c.step U w.pdns = (.ok a, w.pdns)) (h : Ensures (Steps U False) Q w (f a)) :
    Ensures (Steps U False) Q w (pdns c >>= f) := by
  rintro r w' (hd | ⟨hf, -⟩)
  · obtain ⟨rfl, rfl⟩ := Prod.mk.inj hd
    dsimp only
    rw [hc]
    exact h
  · exact hf.elim

theorem ensures_exec {p : Act α} {Q : Except Err α → World → Prop}
    (h : Ensures (Answers U shaky lossy) Q w p) :
    Q (exec (handler U) p w).1 (exec (handler U) p w).2 :=
  Ensures.exec (π := id) answers_handler h

end TangraDns.Act
