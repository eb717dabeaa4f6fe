/-
  What the audit writer passes to the store.
-/
import TangraDns.Audit

namespace TangraDns.Audit

open Str Machine

variable (U : CaseTables) (cap : ℕ)

def Pc.held : Pc → List Row
  | .writing r _ => [r]
  | .select | .draining _ | .stopped => []

def Pc.flushing : Pc → Bool
  | .writing _ flush => flush.isSome
  | .draining _ => true
  | .select | .stopped => false

def Pc.isStopped : Pc → Bool
  | .stopped => true
  | .select | .draining _ | .writing _ _ => false

/-- The step does not bring a flush and a closed queue together, and no `Close` finds the writer
    closed before its goroutine has ended. -/
def calm (w : Writer) : Step → Bool
  | .take _ => !w.closed
  | .close _ => if w.closed then w.pc.isStopped else !w.pc.flushing
  | _ => true

def Calm (w : Writer) (l : Step) : Prop := calm w l = true

instance (w : Writer) (l : Step) : Decidable (Calm w l) := inferInstanceAs (Decidable (_ = true))

theorem calm_take {w : Writer} {f : ℕ} (h : Calm w (.take f)) : w.closed = false := by
  simpa [Calm, calm] using h

def Step.ofWriter : Step → Bool
  | .take _ | .receive | .stop | .write _ | .drain | .drained => true
  | _ => false

namespace Writer

structure Inv (cap : ℕ) (w : Writer) : Prop where
  room : w.queue.length ≤ cap
  rows : w.accepted = w.stored ++ w.pc.held ++ w.queue
  flushing : w.closed = true → w.pc.flushing = false
  stopped : w.pc.isStopped = true → w.closed = true ∧ w.queue = []
  returned : ∀ c, w.closes c = .returned → w.pc.isStopped = true

theorem inv_new (cap : ℕ) : new.Inv cap where
  room := Nat.zero_le cap
  rows := rfl
  flushing := fun h => by cases h
  stopped := fun h => by cases h
  returned := fun c h => by cases h

def left (w : Writer) : ℕ := 2 * w.queue.length + w.pc.held.length + if w.pc.isStopped then 0 else 1

variable {U cap} {w w' : Writer}

theorem Inv.record (hw : w.Inv cap) (r : Row) : (w.record cap r).Inv cap := by
  unfold Writer.record
  split_ifs with hc hq
  · exact ⟨hw.room, hw.rows, hw.flushing, hw.stopped, hw.returned⟩
  · refine ⟨?_, by simp [hw.rows], hw.flushing, fun h => absurd (hw.stopped h).1 hc, hw.returned⟩
    simp only [List.length_append, List.length_singleton]
    omega
  · exact ⟨hw.room, hw.rows, hw.flushing, hw.stopped, hw.returned⟩

theorem Inv.close (hw : w.Inv cap) {c : ℕ} (hc : Calm w (.close c)) : (w.close c).Inv cap := by
  unfold Writer.close
  simp only [Calm, calm] at hc
  split_ifs at hc ⊢ with hclosed
  · refine ⟨hw.room, hw.rows, hw.flushing, hw.stopped, fun c' h => ?_⟩
    by_cases hcc : c' = c
    · exact hc
    · exact hw.returned c' (by simpa [Function.update_of_ne hcc] using h)
  · refine ⟨hw.room, hw.rows, fun _ => by simpa using hc, fun h => ⟨rfl, (hw.stopped h).2⟩,
      fun c' h => ?_⟩
    by_cases hcc : c' = c
    · subst hcc
      simp at h
    · exact hw.returned c' (by simpa [Function.update_of_ne hcc] using h)

inductive Move (cap : ℕ) (w : Writer) : Step → Writer → Prop
  | refused (e : Event) (id : Str) (now : ℕ) : Move cap w (.record e id now) w
  | record (e : Event) (id : Str) (now : ℕ) (r : Row) :
      Move cap w (.record e id now) (w.record cap r)
  | hand (e : Event) (id : Str) (now : ℕ) (r : Row) (hpc : w.pc = .select)
      (hopen : w.closed = false)
      (hcap : cap = 0) :
      Move cap w (.hand e id now) { w with pc := .writing r none, accepted := w.accepted ++ [r] }
  | caller (l : Step) (hl : l.ofWriter = false) (fs : ℕ → FlushPc) :
      Move cap w l { w with flushes := fs }
  | take (f : ℕ) (hpc : w.pc = .select) (fs : ℕ → FlushPc) :
      Move cap w (.take f) { w with pc := .draining f, flushes := fs }
  | close (c : ℕ) : Move cap w (.close c) (w.close c)
  | closeDone (c : ℕ) (hpc : w.pc = .stopped) :
      Move cap w (.closeDone c) { w with closes := Function.update w.closes c .returned }
  | receive (r : Row) (rest : List Row) (hpc : w.pc = .select) (hq : w.queue = r :: rest) :
      Move cap w .receive { w with queue := rest, pc := .writing r none }
  | stop (hpc : w.pc = .select) (hq : w.queue = []) (hclosed : w.closed = true) :
      Move cap w .stop { w with pc := .stopped }
  | write (ok : Bool) (r : Row) (hpc : w.pc = .writing r none) :
      Move cap w (.write ok) { w with pc := .select, stored := w.stored ++ [r] }
  | writeOn (ok : Bool) (r : Row) (f : ℕ) (hpc : w.pc = .writing r (some f)) :
      Move cap w (.write ok) { w with pc := .draining f, stored := w.stored ++ [r] }
  | drain (r : Row) (rest : List Row) (f : ℕ) (hpc : w.pc = .draining f)
      (hq : w.queue = r :: rest) :
      Move cap w .drain { w with queue := rest, pc := .writing r (some f) }
  | drainZero (f : ℕ) (hpc : w.pc = .draining f) (hclosed : w.closed = true) :
      Move cap w .drain { w with pc := .writing Row.zero (some f) }
  | drained (f : ℕ) (hpc : w.pc = .draining f) (hq : w.queue = []) (fs : ℕ → FlushPc) :
      Move cap w .drained { w with pc := .select, flushes := fs }

theorem move_of_step {l : Step} (h : w.step U cap l = some w') : Move cap w l w' := by
  cases l with
  | record e id now =>
    simp only [step] at h
    split at h <;> cases h
    · exact .refused e id now
    · exact .record e id now _
  | hand e id now =>
    simp only [step] at h
    split at h
    · next hpc =>
      split_ifs at h with hc
      cases h
      simp only [not_or, Bool.not_eq_true, not_not] at hc
      exact .hand e id now _ hpc hc.1 hc.2
    · cases h
  | flush f =>
    simp only [step] at h
    split_ifs at h
    cases h
    exact .caller _ rfl _
  | take f =>
    simp only [step] at h
    split at h
    · next hpc =>
      split_ifs at h
      cases h
      exact .take f hpc _
    · cases h
  | flushed f =>
    simp only [step] at h
    split_ifs at h
    cases h
    exact .caller _ rfl _
  | cancel f =>
    simp only [step] at h
    split_ifs at h
    cases h
    exact .caller _ rfl _
  | close c =>
    simp only [step] at h
    split_ifs at h
    cases h
    exact .close c
  | closeDone c =>
    simp only [step] at h
    split at h
    · next hpc =>
      split_ifs at h
      cases h
      exact .closeDone c hpc
    · cases h
  | receive =>
    simp only [step] at h
    split at h
    · next r rest hpc hq =>
      cases h
      exact .receive r rest hpc hq
    · cases h
  | tick =>
    simp only [step] at h
    split at h <;> cases h
    exact .caller .tick rfl _
  | stop =>
    simp only [step] at h
    split at h
    · next hpc hq =>
      split_ifs at h with hclosed
      cases h
      exact .stop hpc hq hclosed
    · cases h
  | write ok =>
    simp only [step] at h
    split at h
    · next r hpc =>
      cases h
      exact .write ok r hpc
    · next r f hpc =>
      cases h
      exact .writeOn ok r f hpc
    · cases h
  | drain =>
    simp only [step] at h
    split at h
    · next f r rest hpc hq =>
      cases h
      exact .drain r rest f hpc hq
    · next f hpc hq =>
      split_ifs at h with hclosed
      cases h
      exact .drainZero f hpc hclosed
    · cases h
  | drained =>
    simp only [step] at h
    split at h
    · next f hpc hq =>
      split_ifs at h
      cases h
      exact .drained f hpc hq _
    · cases h

theorem Inv.going (hw : w.Inv cap) (hpc : w.pc.isStopped = false) (hpc' : w'.pc.isStopped = false)
    (hcloses : w'.closes = w.closes) (hroom : w'.queue.length ≤ cap)
    (hrows : w'.accepted = w'.stored ++ w'.pc.held ++ w'.queue)
    (hflush : w'.closed = true → w'.pc.flushing = false) : w'.Inv cap where
  room := hroom
  rows := hrows
  flushing := hflush
  stopped := fun h => by rw [hpc'] at h; cases h
  returned := fun c hc => by
    rw [hcloses] at hc
    rw [hw.returned c hc] at hpc
    cases hpc

theorem Inv.step {l : Step} (hw : w.Inv cap) (hl : Calm w l) (h : w.step U cap l = some w') :
    w'.Inv cap := by
  have hrows := hw.rows
  have hflush := hw.flushing
  cases move_of_step h with
  | refused => exact hw
  | record e id now r => exact hw.record r
  | hand e id now r hpc hopen hcap =>
    have hq : w.queue = [] := List.length_eq_zero_iff.1 (Nat.le_zero.1 (hcap ▸ hw.room))
    refine hw.going (by rw [hpc]; rfl) rfl rfl hw.room ?_ fun _ => rfl
    simp [hrows, hpc, hq, Pc.held]
  | caller _ _ fs => exact ⟨hw.room, hw.rows, hw.flushing, hw.stopped, hw.returned⟩
  | take f hpc fs =>
    have hopen := calm_take hl
    rw [hpc] at hrows
    refine hw.going (by rw [hpc]; rfl) rfl rfl hw.room hrows fun hclosed => ?_
    rw [hopen] at hclosed
    cases hclosed
  | close c => exact hw.close hl
  | closeDone c hpc => exact ⟨hw.room, hw.rows, hw.flushing, hw.stopped,
      fun _ _ => by rw [hpc]; rfl⟩
  | receive r rest hpc hq =>
    refine hw.going (by rw [hpc]; rfl) rfl rfl ?_ ?_ fun _ => rfl
    · exact (Nat.le_succ _).trans (by simpa [hq] using hw.room)
    · simp [hrows, hpc, hq, Pc.held]
  | stop hpc hq hclosed =>
    rw [hpc] at hrows
    exact ⟨hw.room, hrows, fun _ => rfl, fun _ => ⟨hclosed, hq⟩, fun _ _ => rfl⟩
  | write ok r hpc =>
    refine hw.going (by rw [hpc]; rfl) rfl rfl hw.room ?_ fun _ => rfl
    simp [hrows, hpc, Pc.held]
  | writeOn ok r f hpc =>
    rw [hpc] at hflush
    refine hw.going (by rw [hpc]; rfl) rfl rfl hw.room ?_ hflush
    simp [hrows, hpc, Pc.held]
  | drain r rest f hpc hq =>
    rw [hpc] at hflush
    refine hw.going (by rw [hpc]; rfl) rfl rfl ?_ ?_ hflush
    · exact (Nat.le_succ _).trans (by simpa [hq] using hw.room)
    · simp [hrows, hpc, hq, Pc.held]
  | drainZero f hpc hclosed =>
    have := hflush hclosed
    rw [hpc] at this
    cases this
  | drained f hpc hq fs =>
    rw [hpc] at hrows
    exact hw.going (by rw [hpc]; rfl) rfl rfl hw.room hrows fun _ => rfl

theorem left_step {l : Step} (hw : w.Inv cap) (hclosed : w.closed = true) (hl : Calm w l)
    (h : w.step U cap l = some w') :
    w'.closed = true ∧ w'.left + (if l.ofWriter then 1 else 0) ≤ w.left := by
  have hflush := hw.flushing hclosed
  cases move_of_step h with
  | refused => exact ⟨hclosed, le_rfl⟩
  | record e id now r =>
    rw [Writer.record, if_pos hclosed]
    exact ⟨hclosed, le_rfl⟩
  | hand e id now r hpc hopen hcap =>
    rw [hclosed] at hopen
    cases hopen
  | caller l hl fs =>
    rw [hl]
    exact ⟨hclosed, le_rfl⟩
  | take f hpc fs =>
    have hopen := calm_take hl
    rw [hclosed] at hopen
    cases hopen
  | close c =>
    rw [Writer.close, if_pos hclosed]
    exact ⟨hclosed, le_rfl⟩
  | closeDone c hpc => exact ⟨hclosed, le_rfl⟩
  | receive r rest hpc hq =>
    refine ⟨hclosed, ?_⟩
    simp [left, hpc, hq, Pc.held, Pc.isStopped, Step.ofWriter]
    omega
  | stop hpc hq _ => exact ⟨hclosed, by simp [left, hpc, hq, Pc.held, Pc.isStopped, Step.ofWriter]⟩
  | write ok r hpc => exact ⟨hclosed, by simp [left, hpc, Pc.held, Pc.isStopped, Step.ofWriter]⟩
  | writeOn ok r f hpc => rw [hpc] at hflush; cases hflush
  | drain r rest f hpc hq => rw [hpc] at hflush; cases hflush
  | drainZero f hpc _ => rw [hpc] at hflush; cases hflush
  | drained f hpc hq fs => rw [hpc] at hflush; cases hflush

theorem progress (hw : w.Inv cap) (hclosed : w.closed = true) :
    w.pc.isStopped = true ∨ ∃ l, l.ofWriter = true ∧ Calm w l ∧ (w.step U cap l).isSome = true := by
  have hflush := hw.flushing hclosed
  cases hpc : w.pc with
  | select =>
    cases hq : w.queue with
    | nil => exact .inr ⟨.stop, rfl, rfl, by simp [step, hpc, hq, hclosed]⟩
    | cons r rest => exact .inr ⟨.receive, rfl, rfl, by simp [step, hpc, hq]⟩
  | writing r flush =>
    rw [hpc] at hflush
    cases flush with
    | none => exact .inr ⟨.write true, rfl, rfl, by simp [step, hpc]⟩
    | some f => cases hflush
  | draining f => rw [hpc] at hflush; cases hflush
  | stopped => exact .inl rfl

end Writer

variable {U cap} {w : Writer} {ls : List Step}

/-- What holds of the writer in every state. -/
structure Sound (U : CaseTables) (cap : ℕ) (w : Writer) : Prop where
  inOrder : w.stored <+: w.accepted
  /-- when a call of `Close` has returned, they are all stored -/
  complete : ∀ c, w.closes c = .returned → w.stored = w.accepted
  ends : w.closed = true → ∀ ls w', Path (Writer.step U cap) Calm w ls w' →
    ls.countP Step.ofWriter ≤ 2 * w.queue.length + 2 ∧
      (w'.pc.isStopped = true ∨ ∃ l, l.ofWriter = true ∧ Calm w' l ∧
        (w'.step U cap l).isSome = true)

theorem Writer.Inv.sound (hw : w.Inv cap) : Sound U cap w where
  inOrder := by
    rw [hw.rows, List.append_assoc]
    exact List.prefix_append _ _
  complete := fun c hc => by
    have hstop := hw.returned c hc
    obtain ⟨-, hq⟩ := hw.stopped hstop
    have hheld : w.pc.held = [] := by
      cases hpc : w.pc with
      | writing r flush => rw [hpc] at hstop; cases hstop
      | _ => rfl
    rw [hw.rows, hheld, hq]
    simp
  ends := fun hclosed ls w' hpath => by
    -- a closed writer stays closed, and its steps are bounded by what is left
    have hkeep : ∀ w l w', (w.Inv cap ∧ w.closed = true) → Calm w l → w.step U cap l = some w' →
        w'.Inv cap ∧ w'.closed = true := fun w l w' hw hl hs =>
      ⟨hw.1.step hl hs, (Writer.left_step hw.1 hw.2 hl hs).1⟩
    have hend := hpath.invariant hkeep ⟨hw, hclosed⟩
    have hcount := hpath.bounded hkeep
      (fun w l w' hw hl hs => (Writer.left_step hw.1 hw.2 hl hs).2) ⟨hw, hclosed⟩
    have hleft : w.left ≤ 2 * w.queue.length + 2 := by
      unfold Writer.left
      cases w.pc <;> simp [Pc.held, Pc.isStopped]
    exact ⟨by omega, Writer.progress hend.1 hend.2⟩

/-- **The audit writer**, of any queue size, in every run where no flush meets a closed queue and no
    `Close` finds the writer closed before its goroutine has ended: what is stored is accepted, in
    order and each row once; when `Close` has returned every accepted row is stored; and the
    goroutine ends after `Close`. -/
theorem rows_stored (U : CaseTables) (cap : ℕ) (ls : List Step) (w : Writer)
    (h : Path (Writer.step U cap) Calm Writer.new ls w) : Sound U cap w :=
  (h.invariant (I := Writer.Inv cap) (fun _ _ _ hw hl hs => hw.step hl hs)
    (Writer.inv_new cap)).sound

def zoneCreated : Event :=
  ⟨str "t1", str "zone.create", str "user", str "u1", str "zone", str "z1", str "ok", [], []⟩

theorem rows_stored_flushed : ∃ w, Path (Writer.step .ascii 10) Calm Writer.new
    [.record zoneCreated (str "r1") 1, .flush 0, .take 0, .drain, .write true, .drained, .flushed 0,
      .close 0, .stop,
      .closeDone 0] w ∧ Sound .ascii 10 w ∧ w.stored.length = 1 := by
  obtain ⟨w, hpath, hw⟩ := exists_path (Writer.step .ascii 10) Calm Writer.new
    [.record zoneCreated (str "r1") 1, .flush 0, .take 0, .drain, .write true, .drained,
      .flushed 0, .close 0,
      .stop, .closeDone 0] (fun w => w.stored.length == 1) (by decide +kernel)
  exact ⟨w, hpath, rows_stored .ascii 10 _ w hpath, by simpa using hw⟩

/-- **A flush that meets the closed queue stores a row nobody recorded, and a second `Close` returns
    before the accepted rows are stored.** -/
theorem rows_invented :
    (∃ ls w, Path (Writer.step .ascii 10) (fun _ _ => True) Writer.new ls w ∧
      ¬ w.stored <+: w.accepted) ∧
    ∃ ls w, Path (Writer.step .ascii 10) (fun _ _ => True) Writer.new ls w ∧
      w.closes 1 = .returned ∧ w.stored ≠ w.accepted := by
  constructor
  · obtain ⟨w, hpath, hw⟩ := exists_path (Writer.step .ascii 10) (fun _ _ => True) Writer.new
      [.flush 0, .close 0, .take 0, .drain, .write true]
      (fun w => w.stored.length == 1 && w.accepted.length == 0) (by decide +kernel)
    refine ⟨_, w, hpath, fun h => ?_⟩
    have hlen := h.length_le
    simp only [Bool.and_eq_true, beq_iff_eq] at hw
    omega
  · obtain ⟨w, hpath, hw⟩ := exists_path (Writer.step .ascii 10) (fun _ _ => True) Writer.new
      [.record zoneCreated (str "r1") 1, .close 0, .close 1]
      (fun w => w.closes 1 == .returned && w.stored.length == 0 && w.accepted.length == 1)
      (by decide +kernel)
    simp only [Bool.and_eq_true, beq_iff_eq] at hw
    refine ⟨_, w, hpath, hw.1.1, fun h => ?_⟩
    rw [h] at hw
    omega

end TangraDns.Audit
