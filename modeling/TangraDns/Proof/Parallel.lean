/-
  Parallel calls of the zone service.
-/
import TangraDns.Parallel
import TangraDns.Proof.Scope
import TangraDns.Proof.Steps
import TangraDns.RecordData

namespace TangraDns.Parallel

open Str Prog

variable {ι : Type} {C : Config} {T : Str}
variable {P : Creations ι} {i : ι} {o : Op}

/-! ## Nested names -/

theorem Nested.symm {a b : Str} (h : Nested a b) : Nested b a := Or.symm h

/-! ## Rows and names apart -/

/-- Rows of different tenants do not overlap, and what the calls may still store is nested with
    neither the rows nor the names of other tenants. -/
structure Apart (tenant : ι → Str) (names : ι → List Str) (S : Store) : Prop where
  rows : S.NoOverlap
  row : ∀ j, ∀ n ∈ names j, ∀ z ∈ S.zones, z.tenantID ≠ tenant j → ¬ Nested n z.name
  name : ∀ i j, tenant i ≠ tenant j → ∀ n ∈ names i, ∀ m ∈ names j, ¬ Nested n m

variable [DecidableEq ι] {subj : ι → Subjects} {net sync : Prop}

def names (subj : ι → Subjects) (P : Creations ι) (j : ι) : List Str :=
  undecided (subj j).tenantID (P.threads j)

theorem mem_names_step {j : ι} {k} {n : Str} {h : Handler Op Res World}
    (hi : (P.threads i).prog = .call o k) (hn : n ∈ names subj (Pool.step h P i) j) :
    (n ∈ names subj P j ∧ (j = i → Scope.isCreate ⟨o, (h o P.state).1⟩ = false)) ∨
      j = i ∧ Scope.freed (subj i).tenantID ⟨o, (h o P.state).1⟩ = some n := by
  by_cases hj : j = i
  · subst hj
    rw [names, Pool.step_threads_self h hi, undecided] at hn
    split_ifs at hn with hd
    · cases hn
    · rcases Scope.mem_pending_cons hn with ⟨hc, hn⟩ | hf
      · exact .inl ⟨by rwa [names, undecided, if_neg (Pool.not_done_of_call hi)], fun _ => hc⟩
      · exact .inr ⟨rfl, hf⟩
  · rw [names, Pool.step_threads_of_ne h hj] at hn
    exact .inl ⟨hn, fun h => absurd h hj⟩

theorem zone_poolStep {k} (hi : (P.threads i).prog = .call o k)
    (hD : Scope.Allowed C.env.cases (subj i).tenantID net sync (P.threads i).past o)
    {z : Store.Zone}
    (hz : z ∈ (Pool.step (handler C.env.cases) P i).state.store.zones) :
    (∃ y ∈ P.state.store.zones, y.keys = z.keys) ∨
      z.tenantID = (subj i).tenantID ∧ z.name ∈ names subj P i ∧
        Scope.isCreate ⟨o, (handler C.env.cases o P.state).1⟩ = true ∧
        ∀ y ∈ P.state.store.zones, y.name ≠ z.name := by
  rw [Pool.step_state _ hi] at hz
  rcases zone_step hz with h | ⟨y, rfl, hk, hnew⟩
  · exact .inl h
  · obtain ⟨hT, hp, -⟩ := hD
    simp only [Store.Zone.keys, Prod.mk.injEq] at hk
    refine .inr ⟨hk.2.1 ▸ hT, ?_, rfl, fun y hy he => ?_⟩
    · rw [names, undecided, if_neg (Pool.not_done_of_call hi), ← hk.2.2.1]
      exact hp
    · have := hnew y hy
      simp [Keyed.clash, he] at this

theorem Apart.step {k} (hi : (P.threads i).prog = .call o k)
    (hD : Scope.Allowed C.env.cases (subj i).tenantID net sync (P.threads i).past o)
    (hA : Apart (fun j => (subj j).tenantID) (names subj P) P.state.store) (hC : Orderly subj P i) :
    Apart (fun j => (subj j).tenantID) (names subj (Pool.step (handler C.env.cases) P i))
      (Pool.step (handler C.env.cases) P i).state.store := by
  -- a name the step has found free is apart from the rows and from the names of other tenants
  have hfresh {n : Str} (hf : Scope.freed (subj i).tenantID
      ⟨o, (handler C.env.cases o P.state).1⟩ = some n) :
      (∀ z ∈ P.state.store.zones, z.tenantID ≠ (subj i).tenantID → ¬ Nested n z.name) ∧
        ∀ j, (subj j).tenantID ≠ (subj i).tenantID → ∀ m ∈ names subj P j, ¬ Nested n m := by
    obtain ⟨rfl, hfree⟩ := Scope.freed_step hf
    refine ⟨fun z hz hne hn => ?_, fun j hj m hm => hC n (by rw [hi]; rfl) j hj m hm⟩
    have := Store.zoneConflict_eq_false.1 hfree z hz hne
    rw [hD.2] at this
    exact this (.inr hn)
  refine ⟨fun a ha b hb hne hab => ?_, fun j n hn z hz hne => ?_, fun j j' hne n hn m hm => ?_⟩
  · rcases zone_poolStep hi hD ha with ⟨a', ha', hka⟩ | ⟨hTa, hna, -, hua⟩ <;>
      rcases zone_poolStep hi hD hb with ⟨b', hb', hkb⟩ | ⟨hTb, hnb, -, hub⟩
    · rw [← Store.tenantID_of_keys hka, ← Store.tenantID_of_keys hkb] at hne
      rw [← Store.name_of_keys hka, ← Store.name_of_keys hkb] at hab
      exact hA.rows a' ha' b' hb' hne hab
    · rw [← Store.name_of_keys hka] at hab
      rw [← Store.tenantID_of_keys hka, hTb] at hne
      exact hab.elim (hub a' ha') fun h => hA.row i _ hnb a' ha' hne (Nested.symm h)
    · rw [← Store.name_of_keys hkb] at hab
      rw [← Store.tenantID_of_keys hkb, hTa] at hne
      exact hab.elim (fun h => hua b' hb' h.symm) fun h => hA.row i _ hna b' hb' hne.symm h
    · exact hne (hTa.trans hTb.symm)
  · rcases mem_names_step hi hn with ⟨hn, -⟩ | ⟨rfl, hf⟩ <;>
      rcases zone_poolStep hi hD hz with ⟨y, hy, hk⟩ | ⟨hT, hnz, -, -⟩
    · rw [← Store.tenantID_of_keys hk] at hne
      rw [← Store.name_of_keys hk]
      exact hA.row j n hn y hy hne
    · exact hA.name j i (hT ▸ hne.symm) n hn _ hnz
    · rw [← Store.tenantID_of_keys hk] at hne
      rw [← Store.name_of_keys hk]
      exact (hfresh hf).1 y hy hne
    · exact absurd hT hne
  · rcases mem_names_step hi hn with ⟨hn', -⟩ | ⟨rfl, hf⟩ <;>
      rcases mem_names_step hi hm with ⟨hm', -⟩ | ⟨rfl, hf'⟩
    · exact hA.name j j' hne n hn' m hm'
    · exact fun h => (hfresh hf').2 j hne n hn' h.symm
    · exact (hfresh hf).2 j' hne.symm m hm'
    · exact absurd rfl hne

/-- **Orderly creations keep the zones of different tenants apart**, however many there are and
    whatever the rest of their steps interleave as. -/
theorem creations_noOverlap (C : Config) (subj : ι → Subjects) (input : ι → Zones.CreateInput)
    (w : World) (hw : w.store.NoOverlap) (sched : List ι)
    (hsched : Pool.Meets (handler C.env.cases) (Orderly subj) (creations C subj input w) sched) :
    (Pool.run (handler C.env.cases) (creations C subj input w) sched).state.store.NoOverlap := by
  have hnil (j : ι) : names subj (creations C subj input w) j = [] := by
    unfold names undecided
    split_ifs <;> rfl
  have hinit : Apart (fun j => (subj j).tenantID) (names subj (creations C subj input w))
      w.store := by
    refine ⟨hw, fun j n hn => ?_, fun i j _ n hn => ?_⟩ <;> rw [hnil] at hn <;> cases hn
  have hinv : Apart (fun j => (subj j).tenantID)
      (names subj (Pool.run (handler C.env.cases) (creations C subj input w) sched))
      (Pool.run (handler C.env.cases) (creations C subj input w) sched).state.store :=
    Pool.run_obeys (D := fun j => Scope.discipline C.env.cases (subj j).tenantID
      (C.recursor.isSome = true) False)
      (I := fun P => Apart (fun j => (subj j).tenantID) (names subj P) P.state.store)
      (fun _ => handler_answer C.env.cases) (fun P i o k hi hD hA hC => hA.step hi hD hC) sched _
      (fun j => Scope.create_scoped (subj j) (input j)) hinit hsched
  exact hinv.rows

/-! ### The race -/

/-- Tenant `a` creates `example.com`, tenant `b` a zone inside it. -/
def raceSubj : Bool → Subjects
  | true => .user (str "a") (str "u") []
  | false => .user (str "b") (str "v") []

def raceInput : Bool → Zones.CreateInput
  | true => ⟨str "example.com", str "native", [], [], false, [], [], [], []⟩
  | false => ⟨str "sub.example.com", str "native", [], [], false, [], [], [], []⟩

/-- Each call asks its questions before the other stores its row. -/
def raceSchedule : List Bool := List.replicate 4 true ++ List.replicate 7 false ++
    List.replicate 3 true

/-- Both creations succeed, and the zones of the two tenants overlap. -/
theorem race :
    let P := Pool.run (handler .ascii) (creations .sample raceSubj raceInput .empty) raceSchedule
    World.empty.store.NoOverlap ∧ (∀ i, (P.threads i).Done) ∧ ¬ P.state.store.NoOverlap := by
  decide +kernel

/-- The same steps, but the second name is not inside the first. -/
def unrelatedInput (i : Bool) : Zones.CreateInput :=
  { raceInput i with name := if i then str "example.com" else str "example.net" }

/-- In that order the creations are orderly: both rows are stored, and apart. -/
theorem creations_noOverlap_unrelated :
    let P := Pool.run (handler .ascii) (creations .sample raceSubj unrelatedInput .empty)
      raceSchedule
    P.state.store.zones.rows.length = 2 ∧ P.state.store.NoOverlap :=
  ⟨by decide +kernel,
    creations_noOverlap .sample raceSubj unrelatedInput .empty (by decide) _ (by decide +kernel)⟩

/-! ## Updates -/

def Writing (next : Store.Zone) (p : Prog Op Res (Except Err Store.Zone)) : Prop :=
  ∃ t k, p = .call (.store (.updateZone { next with updatedAt := t })) k ∧
    ∀ z, k (.ok z) = .ret (.ok z)

/-- What is left is to read the clock and to write the row. -/
def Saving (next : Store.Zone) (p : Prog Op Res (Except Err Store.Zone)) : Prop :=
  ∃ k, p = .call .now k ∧ ∀ t, Writing next (k t)

def Putting (next : Store.Zone) (p : Prog Op Res (Except Err Store.Zone)) : Prop :=
  ∃ k, p = .call (.pdns (.updateZoneMetadata next.pdnsID (Zones.metadata next))) k ∧
    Saving next (k (.ok ()))

/-- The update is refused, or goes on from the loaded row. -/
def Going (prev : Store.Zone) (p : Prog Op Res (Except Err Store.Zone)) : Prop :=
  (∃ e, p = .ret (.error e)) ∨ ∃ next : Store.Zone, next.keys = prev.keys ∧
    (Putting next p ∨
      (next.kind = prev.kind ∧ next.masters = prev.masters ∧ next.dnssec = prev.dnssec) ∧
      Saving next p)

def Loading (id : Str) (p : Prog Op Res (Except Err Store.Zone)) : Prop :=
  ∃ T k, p = .call (.store (.getZone T id)) k ∧ (∀ e, ∃ e', k (.error e) = .ret (.error e')) ∧
    ∀ prev, Going prev (k (.ok prev))

theorem save_saving (prev next : Store.Zone) : Saving next (Zones.Impl.save prev next).run :=
  ⟨_, rfl, fun _ => ⟨_, _, rfl, fun _ => rfl⟩⟩

theorem update_going (prev : Store.Zone) (i : Zones.UpdateInput) :
    Going prev (Zones.Impl.update C prev i).run := by
  unfold Zones.Impl.update
  cases hn : Zones.nextRow C prev i with
  | error e => exact .inl ⟨e, rfl⟩
  | ok next =>
    have hk := Scope.nextRow_keys hn
    change Going prev (ExceptT.run (if Zones.metaChanged prev next = true then _ else _))
    by_cases hc : Zones.metaChanged prev next = true
    · rw [if_pos hc, ← Store.pdnsID_of_keys hk]
      exact .inr ⟨next, hk, .inl ⟨_, rfl, save_saving prev next⟩⟩
    · rw [if_neg hc]
      have hmeta : next.kind = prev.kind ∧ next.dnssec = prev.dnssec ∧
          next.masters = prev.masters := by
        simpa [Zones.metaChanged, and_assoc] using hc
      exact .inr ⟨next, hk, .inr ⟨⟨hmeta.1, hmeta.2.2, hmeta.2.1⟩, save_saving prev next⟩⟩

theorem update_loading (subj : Subjects) (id : Str) (i : Zones.UpdateInput) :
    (∃ e, (Zones.update C subj id i).run = .ret (.error e)) ∨
    Loading id (Zones.update C subj id i).run := by
  unfold Zones.update
  cases Zones.guard C subj .zonesManage with
  | error e => exact .inl ⟨e, rfl⟩
  | ok _ => exact .inr ⟨_, _, rfl, fun e => ⟨_, rfl⟩, fun prev => update_going prev i⟩

/-- Where an update is: `settled next put` if it has still to write `next`, after putting it or
    not. -/
inductive Stage where
  | loading
  | putting (next : Store.Zone)
  | settled (next : Store.Zone) (put : Bool)
  | finished

def At (id : Str) (t : Thread Op Res (Except Err Store.Zone)) : Stage → Prop
  | .loading => hasPut t.past = false ∧ Loading id t.prog
  | .putting next => Putting next t.prog
  | .settled next put => hasPut t.past = put ∧ (Saving next t.prog ∨ Writing next t.prog)
  | .finished => t.Done

def HasRow (id : Str) (w : World) (next : Store.Zone) : Prop :=
  ∃ z ∈ w.store.zones, z.id = id ∧ next.keys = z.keys

/-- The metadata to be written are those of the row. -/
def Unchanged (id : Str) (w : World) (next : Store.Zone) : Prop :=
  ∀ z ∈ w.store.zones, z.id = id →
    next.kind = z.kind ∧ next.masters = z.masters ∧ next.dnssec = z.dnssec

def Ahead (w : World) (next : Store.Zone) : Prop :=
  ∃ p ∈ w.pdns.zone next.pdnsID,
    p.kind = next.kind.pdns ∧ p.masters = next.masters ∧ p.dnssec = next.dnssec

/-- What an update at the stage relies on. -/
def Fits (id : Str) (w : World) : Stage → Prop
  | .putting next => HasRow id w next
  | .settled next false => HasRow id w next ∧ Unchanged id w next
  | .settled next true => HasRow id w next ∧ Ahead w next
  | _ => True

/-- PowerDNS has the zone, the updates fit, and if none is ahead PowerDNS and the row agree. -/
structure Consistent (id : Str) (stage : ι → Stage) (w : World) : Prop where
  zone : ∀ z ∈ w.store.zones, z.id = id → ∃ p, w.pdns.zone z.pdnsID = some p
  fits : ∀ j, Fits id w (stage j)
  rest : (∀ j next, stage j ≠ .settled next true) → InStep id w

variable {id : Str} {stage : ι → Stage} {w w' : World} {i : ι} {s : Stage} {next : Store.Zone}

theorem At.settled_prog {t : Thread Op Res (Except Err Store.Zone)} {put : Bool}
    (h : At id t (.settled next put)) : settled t.prog = true := by
  rcases h.2 with ⟨k, hk, -⟩ | ⟨t, k, hk, -⟩ <;> rw [hk] <;> rfl

theorem Consistent.stay (h : Consistent id stage w) (hs : w'.store = w.store)
    (hp : w'.pdns = w.pdns)
    (hfit : Fits id w s)
    (hahead : (∀ next, s ≠ .settled next true) → ∀ next, stage i ≠ .settled next true) :
    Consistent id (Function.update stage i s) w' := by
  have hfits (s : Stage) (hf : Fits id w s) : Fits id w' s := by
    unfold Fits HasRow Unchanged Ahead at hf ⊢
    rwa [hs, hp]
  refine ⟨by rw [hs, hp]; exact h.zone, fun j => ?_, fun hj => ?_⟩
  · by_cases hji : j = i
    · subst hji
      rw [Function.update_self]
      exact hfits s hfit
    · rw [Function.update_of_ne hji]
      exact hfits _ (h.fits j)
  · unfold InStep
    rw [hs, hp]
    refine h.rest fun j next => ?_
    by_cases hji : j = i
    · subst hji
      exact hahead (fun next => by simpa using hj j next) next
    · simpa [Function.update_of_ne hji] using hj j next

theorem Going.at {prev : Store.Zone} {t : Thread Op Res (Except Err Store.Zone)}
    (h : Going prev t.prog)
    (hprev : prev ∈ w.store.zones) (hid : prev.id = id) (hput : hasPut t.past = false) :
    ∃ s, At id t s ∧ Fits id w s ∧ ∀ next, s ≠ .settled next true := by
  rcases h with ⟨e, he⟩ | ⟨next, hk, hp | ⟨hmeta, hs⟩⟩
  · exact ⟨.finished, ⟨_, he⟩, trivial, nofun⟩
  · exact ⟨.putting next, hp, ⟨prev, hprev, hid, hk⟩, nofun⟩
  · refine ⟨.settled next false, ⟨hput, .inl hs⟩, ⟨⟨prev, hprev, hid, hk⟩, fun z hz hzid => ?_⟩,
      nofun⟩
    have : z = prev := Table.eq_of_clash hz hprev (by simp [Keyed.clash, hzid, hid])
    rwa [this]

theorem Consistent.put (h : Consistent id stage w) (hi : stage i = .putting next)
    (hx : ∀ j, j ≠ i → ∀ next put, stage j ≠ .settled next put) :
    (w.pdns.updateZoneMetadata next.pdnsID (Zones.metadata next)).1 = .ok () ∧
      Consistent id (Function.update stage i (.settled next true))
        { w with pdns := (w.pdns.updateZoneMetadata next.pdnsID (Zones.metadata next)).2 } := by
  have hrow := h.fits i
  rw [hi] at hrow
  obtain ⟨z, hz, hid, hk⟩ := hrow
  obtain ⟨p, hp⟩ := h.zone z hz hid
  rw [← Store.pdnsID_of_keys hk] at hp
  have hkind : (Zones.metadata next).kind ≠ [] := by
    change next.kind.pdns ≠ []
    cases next.kind <;> exact nofun
  refine ⟨PDNS.Server.updateZoneMetadata_ok hp, fun y hy hyid => ?_, fun j => ?_, fun hj => ?_⟩
  · obtain ⟨q, hq⟩ := h.zone y hy hyid
    exact ⟨_, by dsimp only; rw [PDNS.Server.updateZoneMetadata_zone, hq]; rfl⟩
  · by_cases hji : j = i
    · subst hji
      rw [Function.update_self]
      refine ⟨⟨z, hz, hid, hk⟩, PDNS.Server.putMeta (Zones.metadata next) p, ?_,
        if_neg hkind, rfl, rfl⟩
      dsimp only
      rw [PDNS.Server.updateZoneMetadata_zone, hp]
      exact congrArg some (if_pos rfl)
    · rw [Function.update_of_ne hji]
      have := h.fits j
      cases hs : stage j with
      | settled next' put => exact absurd hs (hx j hji next' put)
      | putting next' => rwa [hs] at this
      | _ => trivial
  · exact absurd (Function.update_self i _ stage) (hj i next)

theorem Consistent.write {put : Bool} (t now : ℕ) (h : Consistent id stage w)
    (hi : stage i = .settled next put)
    (hx : put = true → ∀ j, j ≠ i → ∀ next put, stage j ≠ .settled next put) :
    (∃ saved, (w.store.updateZone now { next with updatedAt := t }).1 = .ok saved) ∧
      Consistent id (Function.update stage i .finished)
        { w with store := (w.store.updateZone now { next with updatedAt := t }).2 } := by
  have hfit := h.fits i
  rw [hi] at hfit
  obtain ⟨z, hz, hid, hk⟩ : HasRow id w next := by cases put <;> exact hfit.1
  have hfind : w.store.zone next.tenantID next.id = some z :=
    Store.zone_eq_some.2 ⟨hz, (Store.id_of_keys hk).symm, (Store.tenantID_of_keys hk).symm⟩
  obtain ⟨hok, hkeys, hmeta⟩ := Store.updateZone_meta (z := { next with updatedAt := t }) now hfind
  have hback {c : Store.Zone} (hc : c ∈
      (w.store.updateZone now { next with updatedAt := t }).2.zones) :
      ∃ y ∈ w.store.zones, y.keys = c.keys := by
    have : c.keys ∈ w.store.zones.rows.map Store.Zone.keys := hkeys ▸ List.mem_map_of_mem hc
    exact List.mem_map.1 this
  have hnew {c : Store.Zone} (hc : c ∈
      (w.store.updateZone now { next with updatedAt := t }).2.zones)
      (hcid : c.id = id) : c.kind = next.kind ∧ c.masters = next.masters ∧ c.dnssec = next.dnssec :=
    hmeta c hc (hcid.trans (hid.symm.trans (Store.id_of_keys hk).symm))
  have hrow {y : Store.Zone} (hy : HasRow id w y) :
      HasRow id { w with store := (w.store.updateZone now { next with updatedAt := t }).2 } y := by
    obtain ⟨x, hx, hxid, hxk⟩ := hy
    have : x.keys ∈ (w.store.updateZone now { next with updatedAt := t }).2.zones.rows.map
        Store.Zone.keys :=
      hkeys ▸ List.mem_map_of_mem hx
    obtain ⟨c, hc, hck⟩ := List.mem_map.1 this
    exact ⟨c, hc, (Store.id_of_keys hck).trans hxid, hxk.trans hck.symm⟩
  refine ⟨hok, fun c hc hcid => ?_, fun j => ?_, fun hj c hc hcid => ?_⟩
  · obtain ⟨y, hy, hyk⟩ := hback hc
    rw [← Store.pdnsID_of_keys hyk]
    exact h.zone y hy ((Store.id_of_keys hyk).trans hcid)
  · by_cases hji : j = i
    · subst hji
      rw [Function.update_self]
      trivial
    · rw [Function.update_of_ne hji]
      have hfj := h.fits j
      cases hs : stage j with
      | putting next' =>
        rw [hs] at hfj
        exact hrow hfj
      | settled next' put' =>
        rw [hs] at hfj
        cases put with
        | true => exact absurd hs (hx rfl j hji next' put')
        | false =>
          cases put' with
          | true => exact ⟨hrow hfj.1, hfj.2⟩
          | false =>
            -- neither changes the metadata
            refine ⟨hrow hfj.1, fun c hc hcid => ?_⟩
            obtain ⟨h1, h2, h3⟩ := hnew hc hcid
            obtain ⟨g1, g2, g3⟩ := hfit.2 z hz hid
            rw [h1, h2, h3, g1, g2, g3]
            exact hfj.2 z hz hid
      | _ => trivial
  · obtain ⟨h1, h2, h3⟩ := hnew hc hcid
    obtain ⟨y, hy, hyk⟩ := hback hc
    have hyz : y = z := Table.eq_of_clash hy hz
      (by simp [Keyed.clash, Store.id_of_keys hyk, hcid, hid])
    subst hyz
    rw [h1, h2, h3]
    cases put with
    | true =>
      obtain ⟨p, hp, hpm⟩ := hfit.2
      refine ⟨p, ?_, hpm⟩
      rwa [← Store.pdnsID_of_keys hyk, ← Store.pdnsID_of_keys hk]
    | false =>
      have hstep := h.rest fun j next' => by
        by_cases hji : j = i
        · subst hji
          rw [hi]
          exact nofun
        · simpa [Function.update_of_ne hji] using hj j next'
      obtain ⟨p, hp, hpm⟩ := hstep y hy hid
      obtain ⟨g1, g2, g3⟩ := hfit.2 y hy hid
      rw [g1, g2, g3, ← Store.pdnsID_of_keys hyk]
      exact ⟨p, hp, hpm⟩

/-- **An exclusive step of one of the updates keeps them consistent.** -/
theorem Consistent.step {U : CaseTables} {P : Updates ι} (hat : ∀ j, At id (P.threads j) (stage j))
    (h : Consistent id stage P.state) (hx : Exclusive P i) :
    ∃ s, At id ((Pool.step (handler U) P i).threads i) s ∧
      Consistent id (Function.update stage i s) (Pool.step (handler U) P i).state := by
  have hi := hat i
  have hothers (hx : ∀ j, j ≠ i → settled (P.threads j).prog = false) (j : ι) (hj : j ≠ i)
      (next : Store.Zone) (put : Bool) : stage j ≠ .settled next put := by
    intro hs
    have := hat j
    rw [hs] at this
    exact absurd this.settled_prog (by simp [hx j hj])
  cases hs : stage i with
  | finished =>
    rw [hs] at hi
    obtain ⟨a, ha⟩ := hi
    rw [Pool.step_ret _ ha]
    exact ⟨stage i, hat i, by rwa [Function.update_eq_self]⟩
  | loading =>
    rw [hs] at hi
    obtain ⟨hput, T, k, hk, herr, hgo⟩ := hi
    rw [Pool.step_threads_self _ hk, Pool.step_state _ hk]
    have hahead : ∀ next, stage i ≠ .settled next true := fun next => by rw [hs]; exact nofun
    cases hr : P.state.store.getZone T id with
    | error e =>
      obtain ⟨e', he⟩ := herr e
      refine ⟨.finished, ⟨.error e', ?_⟩, h.stay rfl rfl trivial fun _ => hahead⟩
      exact (congrArg k hr).trans he
    | ok prev =>
      obtain ⟨hmem, hid, -⟩ := Store.getZone_eq_ok.1 hr
      have hgo := hgo prev
      rw [← hr] at hgo
      obtain ⟨s, hs, hfit, hne⟩ := Going.at
        (t := ⟨_, ⟨.store (.getZone T id), P.state.store.getZone T id⟩ ::
        (P.threads i).past⟩) hgo hmem hid hput
      exact ⟨s, hs, h.stay rfl rfl hfit fun _ => hahead⟩
  | putting next =>
    rw [hs] at hi
    obtain ⟨k, hk, hsave⟩ := hi
    obtain ⟨hok, hcons⟩ := h.put hs (hothers (hx (by rw [hk]; rfl)))
    rw [Pool.step_threads_self _ hk, Pool.step_state _ hk]
    refine ⟨.settled next true, ⟨rfl, .inl ?_⟩, hcons⟩
    rwa [← hok] at hsave
  | settled next put =>
    rw [hs] at hi
    obtain ⟨hput, ⟨k, hk, hwrite⟩ | ⟨t, k, hk, hret⟩⟩ := hi
    · rw [Pool.step_threads_self _ hk, Pool.step_state _ hk]
      refine ⟨.settled next put, ⟨hput, .inr (hwrite _)⟩,
        h.stay rfl rfl (hs ▸ h.fits i) fun hn => ?_⟩
      rwa [hs]
    · have hx' : put = true → ∀ j, j ≠ i → settled (P.threads j).prog = false := by
        rintro rfl
        exact hx (by rw [hk, hput]; rfl)
      obtain ⟨⟨saved, hok⟩, hcons⟩ := h.write t (P.state.times P.state.ticks) hs
        fun hp => hothers (hx' hp)
      rw [Pool.step_threads_self _ hk, Pool.step_state _ hk]
      exact ⟨.finished, ⟨.ok saved, (congrArg k hok).trans (hret saved)⟩, hcons⟩

/-- **Exclusive updates leave PowerDNS and the row in step**: however many updates of a zone run and
    however the rest of their steps interleave, once all have returned the kind, primaries and
    DNSSEC flag are the same in both. -/
theorem updates_inStep (C : Config) (subj : ι → Subjects) (id : Str) (input : ι → Zones.UpdateInput)
    (w : World) (hw : InStep id w) (sched : List ι)
    (hsched : Pool.Meets (handler C.env.cases) Exclusive (updates C subj id input w) sched)
    (hdone : ∀ i, ((Pool.run (handler C.env.cases) (updates C subj id input w) sched).threads
      i).Done) :
    InStep id (Pool.run (handler C.env.cases) (updates C subj id input w) sched).state := by
  have hstart (i : ι) : ∃ s, At id ((updates C subj id input w).threads i) s ∧
      Fits id w s ∧ ∀ next, s ≠ .settled next true := by
    rcases update_loading (C := C) (subj i) id (input i) with ⟨e, he⟩ | hl
    · exact ⟨.finished, ⟨_, he⟩, trivial, nofun⟩
    · exact ⟨.loading, ⟨rfl, hl⟩, trivial, nofun⟩
  choose stage hat hfit hne using hstart
  have hinit : Consistent id stage w := by
    refine ⟨fun z hz hid => ?_, hfit, fun _ => hw⟩
    obtain ⟨p, hp, -⟩ := hw z hz hid
    exact ⟨p, hp⟩
  obtain ⟨stage', hat', hcons⟩ := Pool.run_induction (h := handler C.env.cases)
    (I := fun P : Updates ι => ∃ stage, (∀ j, At id (P.threads j) (stage j)) ∧
      Consistent id stage P.state)
    (fun P i hI hx => by
      obtain ⟨stage, hat, hcons⟩ := hI
      obtain ⟨s, hs, hcons'⟩ := hcons.step (U := C.env.cases) hat hx
      refine ⟨Function.update stage i s, fun j => ?_, hcons'⟩
      by_cases hj : j = i
      · subst hj
        rwa [Function.update_self]
      · rw [Function.update_of_ne hj, Pool.step_threads_of_ne _ hj]
        exact hat j) sched _ ⟨stage, hat, hinit⟩ hsched
  refine hcons.rest fun j next hs => ?_
  have hj := hat' j
  rw [hs] at hj
  obtain ⟨a, ha⟩ := hdone j
  exact absurd hj.settled_prog (by rw [ha]; exact nofun)

/-! ### A lost update -/

/-- One update of the sample zone turns DNSSEC on, another changes the description. -/
def lostInput : Bool → Zones.UpdateInput
  | true => ⟨none, none, some true, none⟩
  | false => ⟨none, none, none, some (str "text")⟩

/-- Both load the row before either writes it. -/
def lostSchedule : List Bool := [true, false, true, true, true, false, false]

/-- Both updates succeed, and the row has lost the DNSSEC flag that PowerDNS has. -/
theorem lostUpdate :
    let P := Pool.run (handler .ascii)
      (updates .sample (fun _ => .internal (str "t")) (str "z") lostInput Records.sampleWorld)
        lostSchedule
    InStep (str "z") Records.sampleWorld ∧ (∀ i, (P.threads i).Done) ∧
        ¬ InStep (str "z") P.state := by
  decide +kernel

/-- Both load the row first, and the description is written before the metadata is put: that is
    exclusive. -/
theorem updates_inStep_loaded :
    InStep (str "z") (Pool.run (handler .ascii)
      (updates .sample (fun _ => .internal (str "t")) (str "z") lostInput Records.sampleWorld)
      [true, false, false, false, true, true, true]).state :=
  updates_inStep .sample (fun _ => .internal (str "t")) (str "z") lostInput Records.sampleWorld
    (by decide) _ (by decide +kernel) (by decide +kernel)

end TangraDns.Parallel
