/-
  Runs of the configuration service: what is restarted, which hashes are recorded,
  and that a re-application repairs the files.
-/
import TangraDns.Proof.Rendering

namespace TangraDns.Dnsconf

open Str

variable {s s' : Server}
variable {w : State}

/-! ## The turn of a server -/

inductive Outcome where
  | unmanaged | failed | kept | restartOff | restartFailed | restarted
deriving DecidableEq

variable (d : Deps) (t : Troubles)

def outcome (s : Server) (content : Str) (file : Option Str) : Outcome :=
  if d.path s = [] then .unmanaged
  else if t.write s = some .read then .failed
  else if file.map d.hash = some (d.hash content) then .kept
  else if t.write s ≠ none then .failed
  else if !d.restarts then .restartOff
  else if t.restart s then .restartFailed
  else .restarted

namespace Outcome

def events (s : Server) (content : Str) : Outcome → List Event
  | unmanaged | failed | kept => []
  | restartOff => [.wrote (d.path s) content]
  | restartFailed => [.restartFailed s, .wrote (d.path s) content]
  | restarted => [.restarted s, .wrote (d.path s) content]

def errors (reportUnmanaged : Bool) (s : Server) : Outcome → List ServerError
  | unmanaged => if reportUnmanaged then [⟨s, .notManaged⟩] else []
  | failed => [⟨s, .writeFailed⟩]
  | restartFailed => [⟨s, .restartFailed⟩]
  | kept | restartOff | restarted => []

def required (s : Server) : Outcome → List Str
  | restartOff | restartFailed => [d.container s]
  | unmanaged | failed | kept | restarted => []

def files (s : Server) (content : Str) (before : Str → Option Str) : Outcome → Str → Option Str
  | unmanaged | failed | kept => before
  | restartOff | restartFailed | restarted => Function.update before (d.path s) (some content)

end Outcome

variable {d t}

structure Served (d : Deps) (reportUnmanaged : Bool) (s : Server) (content : Str) (o : Outcome)
    (x x' : Applying) : Prop where
  config : x'.state.config = x.state.config
  files : x'.state.files = o.files d s content x.state.files
  log : x'.state.log = o.events d s content ++ x.state.log
  errors : x'.res.errors = x.res.errors ++ o.errors reportUnmanaged s
  required : x'.res.restartRequired = x.res.restartRequired ++ o.required d s
  hashes : x'.hashes = Function.update x.hashes s (d.hash content)

theorem serve_spec (reportUnmanaged : Bool) (s : Server) (content : Str) (x : Applying) :
    Served d reportUnmanaged s content (outcome d t s content (x.state.files (d.path s))) x
      (serve d t reportUnmanaged s content x) := by
  unfold serve outcome
  by_cases hp : d.path s = []
  · simp only [if_pos hp]
    cases reportUnmanaged <;> exact ⟨rfl, rfl,
      rfl, by simp [Outcome.errors], by simp [Outcome.required], rfl⟩
  by_cases hr : t.write s = some .read
  · simp only [if_neg hp, writeIfChanged, if_pos hr]
    exact ⟨rfl, rfl, rfl, rfl, by simp [Outcome.required], rfl⟩
  by_cases hup : (x.state.files (d.path s)).map d.hash = some (d.hash content)
  · simp only [if_neg hp, writeIfChanged, if_neg hr, if_pos hup]
    exact ⟨rfl, rfl, rfl, by simp [Outcome.errors], by simp [Outcome.required], rfl⟩
  cases hw : t.write s with
  | some step =>
    simp only [if_neg hp, writeIfChanged, ← hw, if_neg hr, if_neg hup]
    simp only [hw, ne_eq, reduceCtorEq, not_false_eq_true, if_true]
    exact ⟨rfl, rfl, rfl, rfl, by simp [Outcome.required], rfl⟩
  | none =>
    simp only [if_neg hp, writeIfChanged, if_neg hup, reduceCtorEq, if_false, ne_eq,
      not_true_eq_false, restart]
    -- whether the resolver was restarted matters after the loop only
    cases d.restarts <;> cases t.restart s <;> cases s <;>
      exact ⟨rfl, rfl, rfl, by simp [Outcome.errors], by simp [Outcome.required], rfl⟩

/-! ## A whole application -/

def outcomeOf (d : Deps) (t : Troubles) (v : Validated d.cases) (w : State) (s : Server) :
    Outcome :=
  outcome d t s (content d s v) (w.files (d.path s))

def own (d : Deps) (s : Server) : Event → Bool
  | .wrote path _ => path == d.path s
  | .restarted s' => s' == s
  | .restartFailed s' => s' == s
  | .reconciled => false

def view (d : Deps) (s : Server) (log : List Event) : List Event := log.filter (own d s)

def State.hashOf (w : State) (s : Server) : Str := w.row.hashOf s

structure Applied (d : Deps) (t : Troubles) (v : Validated d.cases)
    (reportUnmanaged : Bool) (w : State)
    (res : Result) (w' : State) : Prop where
  saved : w.config ≠ none → w'.config ≠ none
  log : ∀ s, view d s w'.log = (outcomeOf d t v w s).events d s (content d s v) ++ view d s w.log
  errors : res.errors = (outcomeOf d t v w .recursor).errors reportUnmanaged .recursor ++
    (outcomeOf d t v w .authoritative).errors reportUnmanaged .authoritative
  required : res.restartRequired = (outcomeOf d t v w .recursor).required d .recursor ++
    (outcomeOf d t v w .authoritative).required d .authoritative
  hashes : t.hashes = false → ∀ s, w'.hashOf s = d.hash (content d s v)

theorem path_ne (hs : s ≠ s') (hp : d.path s ≠ []) : d.path s ≠ d.path s' := by
  cases s <;> cases s'
  · exact absurd rfl hs
  · exact d.distinct hp
  · intro h
    exact d.distinct (h ▸ hp) h.symm
  · exact absurd rfl hs

theorem outcome_writes {c : Str} {file : Option Str} (hp : d.path s = []) :
    outcome d t s c file = .unmanaged := by rw [outcome, if_pos hp]

theorem files_other (hs : s ≠ s') (c : Str) (file : Option Str) (before : Str → Option Str) :
    (outcome d t s c file).files d s c before (d.path s') = before (d.path s') := by
  by_cases hp : d.path s = []
  · rw [outcome_writes hp]
    rfl
  · cases outcome d t s c file <;>
      simp only [Outcome.files, Function.update_of_ne (path_ne hs hp).symm]

theorem view_events (s : Server) (c : Str) (o : Outcome) (log : List Event) :
    view d s (o.events d s c ++ log) = o.events d s c ++ view d s log := by
  cases o <;> simp [view, Outcome.events, own]

theorem view_events_other (hs : s ≠ s') (c : Str) (file : Option Str) (log : List Event) :
    view d s' ((outcome d t s c file).events d s c ++ log) = view d s' log := by
  by_cases hp : d.path s = []
  · rw [outcome_writes hp]
    rfl
  · have hpath : (d.path s == d.path s') = false := beq_false_of_ne (path_ne hs hp)
    have hserver : (s == s') = false := beq_false_of_ne hs
    cases outcome d t s c file <;> simp [view, Outcome.events, own, hpath, hserver]

theorem view_finish (s : Server) (x : Applying) :
    view d s (finish d t x).log = view d s x.state.log := by
  unfold finish
  split_ifs <;> rfl

theorem config_finish {x : Applying} (h : x.state.config ≠ none) :
    (finish d t x).config ≠ none := by
  have hset : ∀ r a, (x.state.setConfigHashes r a).config ≠ none := fun _ _ => Option.some_ne_none _
  unfold finish
  split_ifs
  exacts [h, h, hset _ _, hset _ _]

theorem hashOf_finish (ht : t.hashes = false) (s : Server) (x : Applying) :
    (finish d t x).hashOf s = x.hashes s := by
  simp only [finish, ht, Bool.false_eq_true, if_false]
  split_ifs <;> cases s <;> rfl

theorem apply_turns (v : Validated d.cases) (reportUnmanaged : Bool) (w : State) :
    ∃ x₁ x₂ : Applying, apply d t v reportUnmanaged w = (.ok x₂.res, finish d t x₂) ∧
      Served d reportUnmanaged .recursor (content d .recursor v) (outcomeOf d t v w .recursor)
        ⟨w, ⟨v.model.recursor, v.model.authoritative, [], [], [], []⟩, fun _ => [], false⟩ x₁ ∧
      Served d reportUnmanaged .authoritative (content d .authoritative v)
          (outcomeOf d t v w .authoritative) x₁ x₂ := by
  unfold apply
  simp only [serveAll, render_eq]
  have h₁ := serve_spec (d := d) (t := t) reportUnmanaged .recursor (content d .recursor v)
    ⟨w, ⟨v.model.recursor, v.model.authoritative, [], [], [], []⟩, fun _ => [], false⟩
  refine ⟨_, _, rfl, h₁, ?_⟩
  -- the first turn leaves the file of the second server alone
  have hfile := congrFun h₁.files (d.path .authoritative)
  rw [files_other (by decide)] at hfile
  unfold outcomeOf
  rw [← hfile]
  exact serve_spec ..

theorem apply_spec (v : Validated d.cases) (reportUnmanaged : Bool) (w : State) :
    ∃ res w', apply d t v reportUnmanaged w = (.ok res, w') ∧
      Applied d t v reportUnmanaged w res w' := by
  obtain ⟨x₁, x₂, happly, h₁, h₂⟩ := apply_turns (d := d) (t := t) v reportUnmanaged w
  have hlog : x₂.state.log = (outcomeOf d t v w .authoritative).events d .authoritative
      (content d .authoritative v)
      ++ ((outcomeOf d t v w .recursor).events d .recursor (content d .recursor v) ++ w.log) := by
    rw [h₂.log, h₁.log]
  have hhash : ∀ s, x₂.hashes s = d.hash (content d s v) := by
    intro s
    rw [h₂.hashes, h₁.hashes]
    cases s <;> rfl
  refine ⟨x₂.res, finish d t x₂, happly, ?_, ?_, ?_, ?_, ?_⟩
  · intro hsaved
    exact config_finish (by rwa [h₂.config, h₁.config])
  · intro s
    rw [view_finish, hlog]
    cases s with
    | recursor => rw [outcomeOf, view_events_other (by decide), view_events]
    | authoritative =>
      rw [view_events]
      congr 1
      exact view_events_other (by decide) _ _ _
  · rw [h₂.errors, h₁.errors]
    rfl
  · rw [h₂.required, h₁.required]
    rfl
  · intro hsave s
    rw [hashOf_finish hsave, hhash]

/-! ## Requests -/

theorem run_cases (c : Call) (w : State) :
    (c.applied d t w = none ∧ (c.run d t w).2 = w ∧ ∀ res, (c.run d t w).1 = .ok res →
      w.config = none) ∨
    ∃ v reportUnmanaged w₁, c.applied d t w = some v ∧
      c.run d t w = apply d t v reportUnmanaged w₁ ∧
      w₁.files = w.files ∧ w₁.log = w.log ∧ (∀ s, w₁.hashOf s = w.hashOf s) ∧ w₁.config ≠ none := by
  cases c with
  | update subj m =>
    simp only [Call.applied, Call.run, update]
    cases authorize d subj with
    | error e => exact .inl ⟨rfl, rfl, fun res h => by cases h⟩
    | ok u =>
      cases m.validate d.cases with
      | error e => exact .inl ⟨by cases t.save <;> rfl, rfl, fun res h => by cases h⟩
      | ok v =>
        cases t.save with
        | true => exact .inl ⟨rfl, rfl, fun res h => by cases h⟩
        | false =>
          exact .inr ⟨v, true, w.saveServerConfig v.model, rfl, rfl, rfl, rfl,
            fun s => by cases s <;> rfl,
            Option.some_ne_none _⟩
  | reapply =>
    simp only [Call.applied, Call.run, reapply]
    cases hst : stored t w with
    | error e => exact .inl ⟨rfl, rfl, fun res h => by cases h⟩
    | ok p =>
      obtain ⟨m, saved⟩ := p
      -- the row is there exactly when a model was saved
      have hconfig : saved = false ↔ w.config = none := by
        unfold stored at hst
        split_ifs at hst
        split at hst
        · next hnone => cases hst; simp [hnone]
        · next row hrow =>
          split at hst <;> cases hst
          simp [hrow]
      cases saved with
      | false => exact .inl ⟨rfl, rfl, fun _ _ => hconfig.1 rfl⟩
      | true =>
        dsimp only
        cases m.validate d.cases with
        | error e => exact .inl ⟨rfl, rfl, fun res h => by cases h⟩
        | ok v =>
          refine .inr ⟨v, false, w, rfl, rfl, rfl, rfl, fun _ => rfl, fun h => ?_⟩
          exact absurd (hconfig.2 h) (by decide)

theorem along_cons {P : State → Call → Troubles → Prop} {c : Call} {cs : List (Call × Troubles)} :
    Along d P ((c, t) :: cs) w ↔ P w c t ∧ Along d P cs (c.run d t w).2 := Iff.rfl

theorem along_iff {I : State → Prop} {P Q : State → Call → Troubles → Prop} {T : Troubles → Prop}
    (hI : ∀ w c t, T t → I w → P w c t → I (c.run d t w).2)
    (hPQ : ∀ w c t, T t → I w → (P w c t ↔ Q w c t))
    {cs : List (Call × Troubles)} (hcs : ∀ x ∈ cs, T x.2) (hw : I w) :
    Along d P cs w ↔ Along d Q cs w := by
  induction cs generalizing w with
  | nil => exact Iff.rfl
  | cons x cs ih =>
    obtain ⟨c, t⟩ := x
    have ht : T t := hcs (c, t) (by simp)
    have ih := fun hP => ih (fun x hx => hcs x (List.mem_cons_of_mem _ hx)) (hI w c t ht hw hP)
    constructor
    · rintro ⟨hP, hrest⟩
      exact ⟨(hPQ w c t ht hw).1 hP, (ih hP).1 hrest⟩
    · rintro ⟨hQ, hrest⟩
      have hP := (hPQ w c t ht hw).2 hQ
      exact ⟨hP, (ih hP).2 hrest⟩

def UpToDate (d : Deps) (v : Validated d.cases) (w : State) (s : Server) : Prop :=
  (w.files (d.path s)).map d.hash = some (d.hash (content d s v))

instance (d : Deps) (v : Validated d.cases) (w : State) (s : Server) :
    Decidable (UpToDate d v w s) :=
  inferInstanceAs (Decidable (_ = _))

/-! ## Restarts -/

def Restarted (d : Deps) (s : Server) : List Event → Prop
  | [] => True
  | .wrote path _ :: log => path ≠ d.path s ∧ Restarted d s log
  | .restarted s' :: log => s' = s ∨ Restarted d s log
  | .restartFailed _ :: log => Restarted d s log
  | .reconciled :: log => Restarted d s log

def Owed (s : Server) : List Event → Prop
  | [] => False
  | .wrote _ _ :: log => Owed s log
  | .restarted s' :: log => s' ≠ s ∧ Owed s log
  | .restartFailed s' :: log => s' = s ∨ Owed s log
  | .reconciled :: log => Owed s log

instance (d : Deps) (s : Server) : (log : List Event) → Decidable (Restarted d s log)
  | [] => inferInstanceAs (Decidable True)
  | .wrote path _ :: log =>
    have := instDecidableRestarted d s log
    inferInstanceAs (Decidable (path ≠ d.path s ∧ Restarted d s log))
  | .restarted s' :: log =>
    have := instDecidableRestarted d s log
    inferInstanceAs (Decidable (s' = s ∨ Restarted d s log))
  | .restartFailed _ :: log => instDecidableRestarted d s log
  | .reconciled :: log => instDecidableRestarted d s log

instance (s : Server) : (log : List Event) → Decidable (Owed s log)
  | [] => inferInstanceAs (Decidable False)
  | .wrote _ _ :: log => instDecidableOwed s log
  | .restarted s' :: log =>
    have := instDecidableOwed s log
    inferInstanceAs (Decidable (s' ≠ s ∧ Owed s log))
  | .restartFailed s' :: log =>
    have := instDecidableOwed s log
    inferInstanceAs (Decidable (s' = s ∨ Owed s log))
  | .reconciled :: log => instDecidableOwed s log

theorem restarted_view (s : Server) (log : List Event) :
    Restarted d s (view d s log) ↔ Restarted d s log := by
  induction log with
  | nil => exact Iff.rfl
  | cons e log ih =>
    rw [view] at ih ⊢
    cases e with
    | wrote path c => by_cases h : path = d.path s <;> simp [own, h, Restarted, ih]
    | restarted s' => by_cases h : s' = s <;> simp [own, h, Restarted, ih]
    | restartFailed s' => by_cases h : s' = s <;> simp [own, h, Restarted, ih]
    | reconciled => simp [own, Restarted, ih]

theorem owed_view (s : Server) (log : List Event) : Owed s (view d s log) ↔ Owed s log := by
  induction log with
  | nil => exact Iff.rfl
  | cons e log ih =>
    rw [view] at ih ⊢
    cases e with
    | wrote path c => by_cases h : path = d.path s <;> simp [own, h, Owed, ih]
    | restarted s' => by_cases h : s' = s <;> simp [own, h, Owed, ih]
    | restartFailed s' => by_cases h : s' = s <;> simp [own, h, Owed, ih]
    | reconciled => simp [own, Owed, ih]

def Smooth (d : Deps) (t : Troubles) (v : Validated d.cases) (w : State) (s : Server) : Prop :=
  (UpToDate d v w s ∧ t.write s ≠ some .read) ∨
    (¬ UpToDate d v w s ∧ t.write s = none ∧ t.restart s = false)

/-- A request that meets no failure finds no file up to date whose server could not be restarted. -/
def NothingOwed (d : Deps) (w : State) (c : Call) (t : Troubles) : Prop :=
  ∀ v, c.applied d t w = some v → (∀ s, Smooth d t v w s) → ∀ s, UpToDate d v w s → ¬ Owed s w.log

/-- After a request that reports neither errors nor required restarts, both servers run with their
    files. -/
def Restarts (d : Deps) (w : State) (c : Call) (t : Troubles) : Prop :=
  ∀ res, (c.run d t w).1 = .ok res → res.errors = [] → res.restartRequired = [] →
    ∀ s, Restarted d s (c.run d t w).2.log

section Managed

variable (hpath : ∀ s, d.path s ≠ []) (hrestarts : d.restarts = true)
include hpath hrestarts

theorem outcome_cases (v : Validated d.cases) (w : State) (s : Server) :
    (Smooth d t v w s ∧ UpToDate d v w s ∧ outcomeOf d t v w s = .kept) ∨
    (Smooth d t v w s ∧ ¬ UpToDate d v w s ∧ outcomeOf d t v w s = .restarted) ∨
    (¬ Smooth d t v w s ∧ (outcomeOf d t v w s = .failed ∨
      outcomeOf d t v w s = .restartFailed)) := by
  simp only [outcomeOf, outcome, if_neg (hpath s), Smooth, hrestarts]
  by_cases hr : t.write s = some .read
  · exact .inr (.inr ⟨by simp [hr], .inl (if_pos hr)⟩)
  by_cases hup : UpToDate d v w s
  · exact .inl ⟨.inl ⟨hup, hr⟩, hup, by rw [if_neg hr]; exact if_pos hup⟩
  have hup' : ¬ (w.files (d.path s)).map d.hash = some (d.hash (content d s v)) := hup
  by_cases hw : t.write s = none
  · cases hs : t.restart s with
    | false => exact .inr (.inl ⟨.inr ⟨hup, hw, rfl⟩, hup, by simp [hw, hup']⟩)
    | true => exact .inr (.inr ⟨by simp [hup], .inr (by simp [hw, hup'])⟩)
  · exact .inr (.inr ⟨by simp [hup, hw], .inl (by rw [if_neg hr, if_neg hup', if_pos hw])⟩)

structure Balanced (d : Deps) (w : State) : Prop where
  owed : ∀ s, Restarted d s w.log ↔ ¬ Owed s w.log
  unsaved : w.config = none → ∀ s, Restarted d s w.log

variable {v : Validated d.cases} {reportUnmanaged : Bool} {w w' : State} {res : Result}

theorem Applied.restarted (h : Applied d t v reportUnmanaged w res w') (s : Server) :
    (Smooth d t v w s ∧ UpToDate d v w s ∧ (Restarted d s w'.log ↔ Restarted d s w.log) ∧
      (Owed s w'.log ↔ Owed s w.log)) ∨
    (Smooth d t v w s ∧ ¬ UpToDate d v w s ∧ Restarted d s w'.log ∧ ¬ Owed s w'.log) ∨
    (¬ Smooth d t v w s ∧ ((Restarted d s w'.log ↔ Restarted d s w.log) ∧
      (Owed s w'.log ↔ Owed s w.log) ∨
      ¬ Restarted d s w'.log ∧ Owed s w'.log)) := by
  rw [← restarted_view s w'.log, ← restarted_view s w.log, ← owed_view (d := d) s w'.log,
    ← owed_view (d := d) s w.log, h.log s]
  rcases outcome_cases hpath hrestarts v w s with ⟨hs, hup, ho⟩ | ⟨hs, hup, ho⟩ | ⟨hs,
    ho | ho⟩ <;> rw [ho]
  · exact .inl ⟨hs, hup, Iff.rfl, Iff.rfl⟩
  · exact .inr (.inl ⟨hs, hup, .inl rfl, fun h => h.1 rfl⟩)
  · exact .inr (.inr ⟨hs, .inl ⟨Iff.rfl, Iff.rfl⟩⟩)
  · exact .inr (.inr ⟨hs, .inr ⟨fun h => h.1 rfl, .inl rfl⟩⟩)

theorem Applied.balanced (h : Applied d t v reportUnmanaged w res w') (hb : Balanced d w)
    (hsaved : w.config ≠ none) : Balanced d w' := by
  refine ⟨fun s => ?_, fun hnone => absurd hnone (h.saved hsaved)⟩
  have hs := hb.owed s
  rcases h.restarted hpath hrestarts s with ⟨-, -, hr, ho⟩ | ⟨-, -, hr, ho⟩ | ⟨-,
    ⟨hr, ho⟩ | ⟨hr, ho⟩⟩
  · rw [hr, ho, hs]
  · exact ⟨fun _ => ho, fun _ => hr⟩
  · rw [hr, ho, hs]
  · exact ⟨fun h => absurd h hr, fun h => absurd ho h⟩

theorem Applied.clean (h : Applied d t v reportUnmanaged w res w') :
    (res.errors = [] ∧ res.restartRequired = []) ↔ ∀ s, Smooth d t v w s := by
  have key : ∀ s, ((outcomeOf d t v w s).errors reportUnmanaged s = [] ∧
      (outcomeOf d t v w s).required d s = []) ↔
      Smooth d t v w s := by
    intro s
    rcases outcome_cases (t := t) hpath hrestarts v w s with ⟨hs, -, ho⟩ | ⟨hs, -, ho⟩ | ⟨hs,
      ho | ho⟩ <;>
      simp [ho, hs, Outcome.errors, Outcome.required]
  rw [h.errors, h.required, List.append_eq_nil_iff, List.append_eq_nil_iff]
  constructor
  · rintro ⟨⟨he, he'⟩, hr, hr'⟩ s
    cases s with
    | recursor => exact (key _).1 ⟨he, hr⟩
    | authoritative => exact (key _).1 ⟨he', hr'⟩
  · intro hs
    obtain ⟨he, hr⟩ := (key _).2 (hs .recursor)
    obtain ⟨he', hr'⟩ := (key _).2 (hs .authoritative)
    exact ⟨⟨he, he'⟩, hr, hr'⟩

theorem Balanced.run (hb : Balanced d w) (c : Call) : Balanced d (c.run d t w).2 := by
  rcases run_cases (d := d) (t := t) c w with ⟨-, hsame, -⟩ | ⟨v, report, w₁, -, hrun, -,
    hlog, -, hsaved⟩
  · rwa [hsame]
  · obtain ⟨res, w', happly, h⟩ := apply_spec (d := d) (t := t) v report w₁
    rw [hrun, happly]
    refine h.balanced hpath hrestarts ⟨fun s => ?_, fun hnone => absurd hnone hsaved⟩ hsaved
    rw [hlog]
    exact hb.owed s

theorem restarts_iff (hb : Balanced d w) (c : Call) : Restarts d w c t ↔ NothingOwed d w c t := by
  unfold Restarts NothingOwed
  rcases run_cases (d := d) (t := t) c w with ⟨hnone, hsame, hres⟩ | ⟨v, report, w₁, hv, hrun,
    hfiles, hlog, -, -⟩
  · rw [hsame, hnone]
    constructor
    · rintro - v ⟨⟩
    · intro _ res hok _ _
      exact hb.unsaved (hres res hok)
  · obtain ⟨res, w', happly, h⟩ := apply_spec (d := d) (t := t) v report w₁
    have hclean := h.clean hpath hrestarts
    have hturn := h.restarted hpath hrestarts
    -- the state that is applied to has the files and the events of the one before
    simp only [Smooth, UpToDate, hfiles, hlog] at hclean hturn
    rw [hrun, happly, hv]
    constructor
    · intro hall v' hv' hsmooth s hup
      obtain rfl := Option.some.inj hv'
      obtain ⟨he, hr⟩ := hclean.2 hsmooth
      have hs := hall res rfl he hr s
      rcases hturn s with ⟨-, -, hr', -⟩ | ⟨-, hnot, -⟩ | ⟨hnot, -⟩
      · exact (hb.owed s).1 (hr'.1 hs)
      · exact absurd hup hnot
      · exact absurd (hsmooth s) hnot
    · intro hall res' hok he hr s
      obtain rfl := Except.ok.inj hok
      have hsmooth := hclean.1 ⟨he, hr⟩
      rcases hturn s with ⟨-, hup, hr', -⟩ | ⟨-, -, hr', -⟩ | ⟨hnot, -⟩
      · exact hr'.2 ((hb.owed s).2 (hall v rfl hsmooth s hup))
      · exact hr'
      · exact absurd (hsmooth s) hnot

end Managed

/-- **In a run with both files managed and restarts enabled, a request that reports neither errors
    nor required restarts leaves both servers restarted after the last change of their files,
    exactly when no request that meets no failure finds the file of a server up to date whose last
    restart failed.** -/
theorem clean_request_restarted (d : Deps) (hpath : ∀ s, d.path s ≠ [])
    (hrestarts : d.restarts = true)
    (cs : List (Call × Troubles)) (w : State) (hlog : w.log = []) :
    Along d (Restarts d) cs w ↔ Along d (NothingOwed d) cs w := by
  refine along_iff (I := Balanced d) (T := fun _ => True)
    (fun w c t _ hb _ => hb.run hpath hrestarts c)
    (fun w c t _ hb => restarts_iff hpath hrestarts hb c) (fun _ _ => trivial)
      ⟨fun s => ?_, fun _ s => ?_⟩
  · simp [hlog, Restarted, Owed]
  · rw [hlog]
    trivial

def twoPaths : Server → Str
  | .recursor => str "/recursor.d/freya.yml"
  | .authoritative => str "/pdns.d/freya.conf"

theorem twoPaths_ne : twoPaths .recursor ≠ twoPaths .authoritative := by decide +kernel

def twoServers : Deps where
  cases := .ascii
  hash := id
  checker := none
  path := twoPaths
  distinct := fun _ => twoPaths_ne
  restarts := true
  container
    | .recursor => str "freya-pdns-recursor"
    | .authoritative => str "freya-pdns-auth"
  reconcile := true

def nothingYet : State := ⟨none, fun _ => none, []⟩

def calm : Troubles := ⟨false, false, fun _ => none, fun _ => false, false⟩

def saveMinimal : Call :=
  .update (.user (str "t1") (str "u1") [str "platform-admin"])
    ⟨⟨[str "::1"], 53, [], [], str "off", false⟩, ⟨[str "::1"], 53, []⟩⟩

def isClean (r : Except Failure Result) : Bool :=
  r.toOption.any fun res => res.errors.isEmpty && res.restartRequired.isEmpty

theorem not_restarts {c : Call} (hclean : isClean (c.run d t w).1 = true)
    (hlost : ¬ Restarted d s (c.run d t w).2.log) : ¬ Restarts d w c t := by
  intro h
  cases hr : (c.run d t w).1 with
  | error e =>
    rw [hr] at hclean
    exact absurd hclean (by simp [isClean, Except.toOption])
  | ok res =>
    rw [hr] at hclean
    obtain ⟨he, hreq⟩ : res.errors = [] ∧ res.restartRequired = [] := by
      simpa [isClean, Except.toOption] using hclean
    exact hlost (h res hr he hreq s)

def stuck : Troubles := { calm with restart := fun s => s == .recursor }

/-- **Saving the same configuration again after a failed restart reports success, and the resolver
    was never restarted with its file.** -/
theorem restart_lost :
    (∀ s, twoServers.path s ≠ []) ∧ twoServers.restarts = true ∧
      ¬ Along twoServers (Restarts twoServers) [(saveMinimal, stuck), (saveMinimal, calm)]
        nothingYet := by
  have hpath : ∀ s, twoServers.path s ≠ [] := fun s => by cases s <;> decide +kernel
  have hclean : isClean (saveMinimal.run twoServers calm
      (saveMinimal.run twoServers stuck nothingYet).2).1 = true := by
    decide +kernel
  have hlost : ¬ Restarted twoServers .recursor (saveMinimal.run twoServers calm
      (saveMinimal.run twoServers stuck nothingYet).2).2.log := by decide +kernel
  refine ⟨hpath, rfl, ?_⟩
  simp only [along_cons, not_restarts hclean hlost, false_and, and_false, not_false_eq_true]

theorem clean_request_restarted_again : (∀ s, twoServers.path s ≠ []) ∧
    Along twoServers (Restarts twoServers) [(saveMinimal, calm), (saveMinimal, calm),
      (.reapply, calm)] nothingYet := by
  have hpath : ∀ s, twoServers.path s ≠ [] := fun s => by cases s <;> decide +kernel
  refine ⟨hpath, (clean_request_restarted twoServers hpath rfl _ nothingYet rfl).2
    ⟨?_, ?_, ?_, trivial⟩⟩
  all_goals
    intro v _ _ s _
    cases s <;> decide +kernel

/-! ## Hashes -/

def lastWritten (path : Str) : List Event → Option Str
  | [] => none
  | .wrote path' c :: log => if path' = path then some c else lastWritten path log
  | .restarted _ :: log => lastWritten path log
  | .restartFailed _ :: log => lastWritten path log
  | .reconciled :: log => lastWritten path log

theorem lastWritten_view (s : Server) (log : List Event) :
    lastWritten (d.path s) (view d s log) = lastWritten (d.path s) log := by
  induction log with
  | nil => rfl
  | cons e log ih =>
    rw [view] at ih ⊢
    cases e with
    | wrote path c => by_cases h : path = d.path s <;> simp [own, h, lastWritten, ih]
    | restarted s' => by_cases h : s' = s <;> simp [own, h, lastWritten, ih]
    | restartFailed s' => by_cases h : s' = s <;> simp [own, h, lastWritten, ih]
    | reconciled => simp [own, lastWritten, ih]

/-- The recorded hashes are those of the contents written last, or the ones at the start. -/
def InSync (d : Deps) (w₀ w : State) : Prop :=
  ∀ s, w.hashOf s = ((lastWritten (d.path s) w.log).map d.hash).getD (w₀.hashOf s)

/-- An application writes the file of the server. -/
def Writes (d : Deps) (t : Troubles) (v : Validated d.cases) (w : State) (s : Server) : Prop :=
  d.path s ≠ [] ∧ ¬ UpToDate d v w s ∧ t.write s = none

/-- What a request applies is written or has the hash that is recorded already. -/
def Covered (d : Deps) (w : State) (c : Call) (t : Troubles) : Prop :=
  ∀ v, c.applied d t w = some v → ∀ s, Writes d t v w s ∨ d.hash (content d s v) = w.hashOf s

theorem lastWritten_events (v : Validated d.cases) (w : State) (s : Server) (log : List Event) :
    (Writes d t v w s ∧ lastWritten (d.path s)
      ((outcomeOf d t v w s).events d s (content d s v) ++ log) =
      some (content d s v)) ∨
    (¬ Writes d t v w s ∧ lastWritten (d.path s)
      ((outcomeOf d t v w s).events d s (content d s v) ++ log) =
      lastWritten (d.path s) log) := by
  simp only [Writes, UpToDate, outcomeOf, outcome]
  by_cases hp : d.path s = []
  · exact .inr ⟨fun h => h.1 hp, by rw [if_pos hp]; rfl⟩
  by_cases hup : (w.files (d.path s)).map d.hash = some (d.hash (content d s v))
  · refine .inr ⟨fun h => h.2.1 hup, ?_⟩
    simp only [if_neg hp, if_pos hup]
    split_ifs <;> rfl
  cases hw : t.write s with
  | some step =>
    refine .inr ⟨fun h => by simpa using h.2.2, ?_⟩
    simp only [if_neg hp, if_neg hup, ne_eq, reduceCtorEq, not_false_eq_true, if_true]
    split_ifs <;> rfl
  | none =>
    refine .inl ⟨⟨hp, hup, rfl⟩, ?_⟩
    simp only [if_neg hp, if_neg hup, reduceCtorEq, ne_eq, not_true_eq_false, if_false]
    split_ifs <;> simp [Outcome.events, lastWritten]

theorem inSync_iff {w₀ : State} (hw : InSync d w₀ w) (c : Call) (ht : t.hashes = false) :
    InSync d w₀ (c.run d t w).2 ↔ Covered d w c t := by
  rcases run_cases (d := d) (t := t) c w with ⟨hnone, hsame, -⟩ | ⟨v, report, w₁, hv, hrun, hfiles,
    hlog, hhash, -⟩
  · rw [hsame, Covered, hnone]
    exact ⟨fun _ v hv => (by cases hv), fun _ => hw⟩
  · obtain ⟨res, w', happly, h⟩ := apply_spec (d := d) (t := t) v report w₁
    have hwrites : ∀ s, Writes d t v w₁ s ↔ Writes d t v w s := by
      intro s
      simp only [Writes, UpToDate, hfiles]
    -- one server: the content is recorded, whatever became of the file
    have key : ∀ s, w'.hashOf s = ((lastWritten (d.path s) w'.log).map d.hash).getD (w₀.hashOf s) ↔
        (Writes d t v w s ∨ d.hash (content d s v) = w.hashOf s) := by
      intro s
      rw [h.hashes ht s, ← lastWritten_view s w'.log, h.log s]
      rcases lastWritten_events (t := t) v w₁ s (view d s w₁.log) with ⟨hwr, hl⟩ | ⟨hwr, hl⟩
      · rw [hl]
        exact ⟨fun _ => .inl ((hwrites s).1 hwr), fun _ => rfl⟩
      · rw [hl, lastWritten_view, hlog, ← hw s]
        exact ⟨.inr, fun h => h.resolve_left fun h => hwr ((hwrites s).2 h)⟩
    rw [hrun, happly]
    constructor
    · intro hsync v' hv' s
      rw [hv] at hv'
      obtain rfl := Option.some.inj hv'
      exact (key s).1 (hsync s)
    · intro hcov s
      exact (key s).2 (hcov v hv s)

/-- **In a run whose hashes can be recorded, the recorded hashes are after every request those of
    the contents written last, exactly when every application of the run writes each file or renders
    a content whose hash is recorded already.** -/
theorem hashes_of_written (d : Deps) (cs : List (Call × Troubles))
    (hcs : ∀ x ∈ cs, x.2.hashes = false)
    (w : State) (hlog : w.log = []) :
    Along d (fun w₁ c t => InSync d w (c.run d t w₁).2) cs w ↔ Along d (Covered d) cs w := by
  refine along_iff (I := InSync d w) (T := fun t => t.hashes = false) (fun _ _ _ _ _ h => h)
    (fun w₁ c t ht hw => inSync_iff hw c ht) hcs fun s => ?_
  rw [hlog]
  rfl

instance {P : Server → Prop} [DecidablePred P] : Decidable (∀ s, P s) :=
  decidable_of_iff (P .recursor ∧ P .authoritative) ⟨fun h s => by cases s; exacts [h.1, h.2],
    fun h => ⟨h _, h _⟩⟩

instance (d : Deps) (t : Troubles) (v : Validated d.cases) (w : State) (s : Server) :
    Decidable (Writes d t v w s) :=
  inferInstanceAs (Decidable (_ ∧ _ ∧ _))

instance (d : Deps) (w : State) (c : Call) (t : Troubles) : Decidable (Covered d w c t) :=
  inferInstanceAs (Decidable (∀ v ∈ c.applied d t w, ∀ s, Writes d t v w s ∨
    d.hash (content d s v) = w.hashOf s))

theorem hashes_of_written_again : Along twoServers
    (fun w c t => InSync twoServers nothingYet (c.run twoServers t w).2)
    [(saveMinimal, calm), (.reapply, calm)] nothingYet := by
  refine (hashes_of_written twoServers _ (by simp [calm]) nothingYet rfl).2 ⟨?_, ?_, trivial⟩ <;>
    decide +kernel

/-- The file of the resolver cannot be replaced. -/
def readOnly : Troubles := { calm with write := fun s => if s = .recursor then some .rename
    else none }

/-- **A failed write leaves the hash of a content that was never written.** -/
theorem hash_unwritten : ¬ Along twoServers
    (fun w c t => InSync twoServers nothingYet (c.run twoServers t w).2)
    [(saveMinimal, readOnly)] nothingYet := by
  have hhash : (saveMinimal.run twoServers readOnly nothingYet).2.hashOf .recursor ≠
      ((lastWritten (twoServers.path .recursor)
        (saveMinimal.run twoServers readOnly nothingYet).2.log).map
        twoServers.hash).getD (nothingYet.hashOf .recursor) := by decide +kernel
  rw [along_cons]
  exact fun h => hhash (h.1 .recursor)

/-! ## The stored model -/

/-- The stored sections are those of the model. -/
def Stores (d : Deps) (v : Validated d.cases) (w : State) : Prop :=
  ∃ c, w.config = some c ∧ c.recursor = some v.model.recursor ∧
    c.authoritative = some v.model.authoritative

theorem Validated.validate_eq {U : CaseTables} (v : Validated U) : v.model.validate U = .ok v := by
  obtain ⟨m, hm⟩ := v.ok
  have hself := (Model.checked hm).1.canonical (U := U)
  unfold Model.validate
  split
  · next out h =>
    cases h.symm.trans hself
    rfl
  · next e h => cases h.symm.trans hself

theorem upToDate_files {c : Str} {f : Str → Option Str} {file : Option Str} (hp : d.path s ≠ [])
    (hw : t.write s = none)
    (hfile : f (d.path s) = file) :
    ((outcome d t s c file).files d s c f (d.path s)).map d.hash = some (d.hash c) := by
  unfold outcome
  rw [if_neg hp, if_neg (by simp [hw])]
  split_ifs with h
  · rwa [← hfile] at h
  · exact absurd hw ‹_›
  all_goals simp [Outcome.files]

theorem apply_stores (v : Validated d.cases) {v₀ : Validated d.cases} (report : Bool)
    (h : Stores d v₀ w) :
    Stores d v₀ (apply d t v report w).2 ∧
      ∀ s, d.path s ≠ [] → t.write s = none → UpToDate d v (apply d t v report w).2 s := by
  obtain ⟨x₁, x₂, happly, h₁, h₂⟩ := apply_turns (d := d) (t := t) v report w
  obtain ⟨c, hc, hsec⟩ := h
  have hc : x₂.state.config = some c := by rw [h₂.config, h₁.config, hc]
  have hfiles : (finish d t x₂).files = x₂.state.files := by
    unfold finish
    split_ifs <;> rfl
  rw [happly]
  refine ⟨?_, fun s hp hw => ?_⟩
  · unfold finish
    split_ifs <;> simp [Stores, State.record, State.setConfigHashes, State.row, hc, hsec]
  · rw [UpToDate, hfiles, h₂.files]
    cases s with
    | recursor =>
      rw [outcomeOf, files_other (by decide), h₁.files]
      exact upToDate_files hp hw rfl
    | authoritative =>
      refine upToDate_files hp hw ?_
      rw [h₁.files]
      exact files_other (by decide) _ _ _

theorem reapply_stores {v : Validated d.cases} (h : Stores d v w) (ht : t.get = false) :
    reapply d t w = apply d t v false w := by
  obtain ⟨⟨_, _, _, _⟩, hc, rfl, rfl⟩ := h
  simp [reapply, stored, ht, hc, v.validate_eq]

theorem stores_run (c : Call) (t : Troubles) (h : w.config = none ∨ ∃ v, Stores d v w) :
    (c.run d t w).2.config = none ∨ ∃ v, Stores d v (c.run d t w).2 := by
  cases c with
  | update subj m =>
    simp only [Call.run, update]
    split
    · exact h
    split
    · exact h
    split_ifs
    exacts [h, .inr ⟨_, (apply_stores _ true ⟨_, rfl, rfl, rfl⟩).1⟩]
  | reapply =>
    rw [Call.run]
    cases ht : t.get with
    | true => simpa [reapply, stored, ht] using h
    | false =>
      rcases h with h | ⟨v, h⟩
      · simp [reapply, stored, ht, h]
      · rw [reapply_stores h ht]
        exact .inr ⟨v, (apply_stores v false h).1⟩

/-- **A re-application repairs the files.**  After any requests, whatever failed, what is stored
    passed validation, and a re-application that can read it and write the files leaves them up to
    date with it. -/
theorem reapply_repairs (d : Deps) (w : State) (hw : w.config = none) (cs : List (Call × Troubles))
    (t : Troubles)
    (hget : t.get = false) (hwrite : ∀ s, t.write s = none) :
    let w₁ := cs.foldl (fun w x => (x.1.run d x.2 w).2) w
    w₁.config = none ∨ ∃ v, Stores d v w₁ ∧ Stores d v (reapply d t w₁).2 ∧
      ∀ s, d.path s ≠ [] → UpToDate d v (reapply d t w₁).2 s := by
  intro w₁
  have hrun : w₁.config = none ∨ ∃ v, Stores d v w₁ :=
    List.foldlRecOn (motive := fun w => w.config = none ∨ ∃ v, Stores d v w) cs _ (.inl hw)
      fun w h x _ => stores_run x.1 x.2 h
  refine hrun.imp_right fun ⟨v, h⟩ => ⟨v, h, ?_⟩
  rw [reapply_stores h hget]
  exact (apply_stores v false h).imp_right fun hup s hp => hup s hp (hwrite s)

/-- The file of the resolver cannot be written at first. -/
theorem reapply_repairs_sample : ∃ v, Stores twoServers v
    (saveMinimal.run twoServers readOnly nothingYet).2 ∧
    UpToDate twoServers v (reapply twoServers calm
      (saveMinimal.run twoServers readOnly nothingYet).2).2 .recursor := by
  obtain ⟨v, h, -, hup⟩ := (reapply_repairs twoServers nothingYet rfl [(saveMinimal, readOnly)] calm
    rfl fun _ => rfl).resolve_left
    (by decide +kernel)
  exact ⟨v, h, hup .recursor (by decide)⟩

end TangraDns.Dnsconf
