/-
  Deletion of zones with failing dependencies.
-/
import TangraDns.Faults
import TangraDns.Proof.Calls
import TangraDns.Proof.Exec
import TangraDns.Proof.PowerDNS
import TangraDns.Proof.Store
import TangraDns.RecordData

namespace TangraDns

open Str Prog Prog.Failing

variable {C : Config} {U : CaseTables} {w w₀ : World} {α β : Type}
variable {z : Store.Zone}

/-! ## A world of failing calls -/

/-- The calls of a world in which store calls may fail without effect and PowerDNS calls with or
    without; a failed PowerDNS call does not answer that there is no such resource. -/
def FailStep (U : CaseTables) : Steps Op Res World
  | .store c, w, r, w' => (r, w') = handler U (.store c) w ∨ w' = w ∧ ∃ e, r = .error e
  | .pdns c, w, r, w' => (r, w') = handler U (.pdns c) w ∨
      (w' = w ∨ w' = (handler U (.pdns c) w).2) ∧ ∃ e, r = .error e ∧
      (Err.pdns e).Is (.pdns .notFound) = false
  | .recursor _, w, _, w' => ∃ zones, w' = { w with recursor := zones }
  | .ipam _, w, _, w' => w' = w
  | o, w, r, w' => (r, w') = handler U o w

theorem failStep_faulty {plan : ℕ → Op → Fate Fault} (hplan : Honest plan) (o : Op)
    (s : World × ℕ) :
    FailStep U o s.1 (faulty U plan o s).1 (faulty U plan o s).2.1 := by
  have hcases := @disturb_cases _ _ _ _ (handler U) fallible plan o s
  cases o with
  | now | newID => rfl
  | store c =>
    obtain h | ⟨_, e, ⟨⟩, hr, ⟨-, h⟩ | ⟨h, -⟩⟩ := hcases
    exacts [.inl h, .inr ⟨h, e.store, hr⟩, absurd h (hplan.store _ c e)]
  | pdns c =>
    obtain h | ⟨_, e, ⟨⟩, hr, ⟨hf, h⟩ | ⟨hf, h⟩⟩ := hcases
    exacts [.inl h, .inr ⟨.inl h, e.pdns, hr, hplan.pdns _ c e (.inl hf)⟩,
      .inr ⟨.inr h, e.pdns, hr, hplan.pdns _ c e (.inr hf)⟩]
  | recursor c => exact (disturb_state s).elim (fun h => ⟨_, h⟩) fun h => ⟨_, h⟩
  | ipam c => exact (disturb_state s).elim id id

theorem failStep_handler (o : Op) (w : World) :
    FailStep U o w (handler U o w).1 (handler U o w).2 := by
  cases o with
  | store c | pdns c => exact .inl rfl
  | recursor c => exact ⟨_, rfl⟩
  | now | newID | ipam c => rfl

theorem fail_store {c : StoreCall} {f : c.Ans → Act β} {Q : Except Err β → World → Prop}
    (h : ∀ a, (c.step U (w.times w.ticks) w.store).1 = .ok a →
      Ensures (FailStep U) Q { w with store := (c.step U (w.times w.ticks) w.store).2 } (f a))
    (he : ∀ e, (c.step U (w.times w.ticks) w.store).1 = .error e →
      Q (.error e) { w with store := (c.step U (w.times w.ticks) w.store).2 })
    (hf : ∀ e, Q (.error e) w) : Ensures (FailStep U) Q w (Act.store c >>= f) := by
  rintro r w' (hd | ⟨rfl, e, rfl⟩)
  · obtain ⟨hr, rfl⟩ := Prod.mk.inj hd
    cases r with
    | ok a => exact h a hr.symm
    | error e => exact he e hr.symm
  · exact hf e

/-! ## The steps of a deletion -/

theorem removeForward_ignored (n : Str) :
    Ensures (FailStep U) (fun r s => r = .ok () ∧ ∃ zones, s = { w with recursor := zones }) w
      (Zones.removeForward C n) := by
  unfold Zones.removeForward
  split
  · exact ensures_pure ⟨rfl, w.recursor, rfl⟩
  · next c _ =>
    have hask (c : RecursorCall) : Keeps (FailStep U)
        (fun s => ∃ zones, s = { w with recursor := zones })
        (Act.recursor c) :=
          keeps_ask (by rintro _ r _ ⟨zones, rfl⟩ ⟨zones', rfl⟩; exact ⟨zones', rfl⟩)
    have hkeep := Zones.keeps_recursor_removeForward (U := C.env.cases) hask n c
    exact Ensures.catch (hkeep w ⟨w.recursor, rfl⟩) fun r s h => ensures_pure ⟨rfl, h⟩

/-- PowerDNS has no zone of the id, and everything else as before. -/
structure Gone (id : Str) (s s' : PDNS.Server) : Prop where
  zone : s'.zone id = none
  others : ∀ id', id' ≠ id → s'.zone id' = s.zone id'
  entries : s'.supermasters = s.supermasters

theorem deleteZone_gone (s : PDNS.Server) (id : Str) : Gone id s (s.deleteZone id).2 := by
  rcases s.deleteZone_cases id with ⟨hn, h⟩ | ⟨z, -, h⟩ <;> rw [h]
  · exact ⟨hn, fun _ _ => rfl, rfl⟩
  · exact ⟨PDNS.Server.zone_filter_self, fun _ hne => PDNS.Server.zone_filter_of_ne hne, rfl⟩

theorem drop_gone (id : Str) :
    Ensures (FailStep U) (fun r s => s.store = w.store ∧ (r = .ok () → Gone id w.pdns s.pdns)) w
      (Zones.Impl.drop id) := by
  rintro r w' (hd | ⟨hw, e, rfl, he⟩)
  · obtain ⟨hr, rfl⟩ := Prod.mk.inj hd
    have hgone := deleteZone_gone w.pdns id
    subst hr
    dsimp only [handler, PDNSCall.step]
    cases (w.pdns.deleteZone id).1 with
    | ok _ => exact ⟨rfl, fun _ => hgone⟩
    | error e =>
      change wp _ _ _ (ExceptT.run (if (Err.pdns e).Is (.pdns .notFound) then pure () else throw _))
      split_ifs
      · exact ⟨rfl, fun _ => hgone⟩
      · exact ⟨rfl, nofun⟩
  · change wp _ _ _ (ExceptT.run (if (Err.pdns e).Is (.pdns .notFound) then pure () else throw _))
    rw [if_neg (by rw [he]; exact nofun)]
    rcases hw with rfl | rfl <;> exact ⟨rfl, nofun⟩

theorem clear_unlinked (zoneID : Str) (r : Store.IPAMSync) :
    Unlinked zoneID r (r.clear zoneID) where
  forward h := by simp [Store.IPAMSync.clear, h]
  forward_kept h := by simp [Store.IPAMSync.clear, h]
  reverse h := by simp [Store.IPAMSync.clear, h]
  reverse_kept h := by simp [Store.IPAMSync.clear, h]
  rest := ⟨rfl, rfl, rfl, rfl, rfl, rfl⟩

theorem clearSyncZone_rows {S : Store}
    (h : ∀ r ∈ S.sync, r.forwardZoneID = z.id ∨ r.reverseZoneID = z.id → r.tenantID = z.tenantID) :
    (S.clearSyncZone z.tenantID z.id).sync.rows = S.sync.rows.map (Store.IPAMSync.clear z.id) := by
  refine List.map_congr_left fun r hr => ?_
  split_ifs with hT
  · rfl
  · have hne := mt (h r hr) (by simpa using hT)
    rw [not_or] at hne
    simp [Store.IPAMSync.clear, hne.1, hne.2]

theorem deleted_of_rows {w₁ : World} {zones : List ForwardZone} (hown : Owned w z)
    (hgone : Gone z.pdnsID w.pdns w₁.pdns) :
    Deleted z w { w₁ with
      recursor := zones
      store := { w.store.clearSyncZone z.tenantID z.id with
        zones := w.store.zones.filter fun y => !(y.id == z.id)
        challenges := w.store.challenges.filter fun c =>
            !(c.tenantID == z.tenantID && c.zoneID == z.id) } } := by
  have hrows := clearSyncZone_rows hown.sync
  refine ⟨hgone.zone, hgone.others, hgone.entries, fun y => ?_, fun c => ?_, fun r hr => ?_,
    ?_, rfl, rfl⟩
  · simp [Table.mem_filter]
  · simp only [Table.mem_filter]
    refine and_congr_right fun hc => ?_
    by_cases hid : c.zoneID = z.id
    · simp [hid, hown.challenges c hc hid]
    · simp [hid]
  · have hr : r ∈ w.store.sync.rows.map (Store.IPAMSync.clear z.id) := hrows ▸ hr
    obtain ⟨r₀, -, rfl⟩ := List.mem_map.1 hr
    have hne := hown.id
    constructor
    · by_cases h : r₀.forwardZoneID = z.id
      · rw [((clear_unlinked z.id r₀).forward h).1]
        exact hne.symm
      · rwa [((clear_unlinked z.id r₀).forward_kept h).1]
    · by_cases h : r₀.reverseZoneID = z.id
      · rw [((clear_unlinked z.id r₀).reverse h).1]
        exact hne.symm
      · rwa [((clear_unlinked z.id r₀).reverse_kept h).1]
  · change List.Forall₂ _ _ (w.store.clearSyncZone z.tenantID z.id).sync.rows
    rw [hrows, List.forall₂_map_right_iff]
    exact List.forall₂_same.2 fun r _ => clear_unlinked z.id r

theorem implDelete_spec (hz : z ∈ w.store.zones) (hown : Owned w z) :
    Ensures (FailStep U) (fun r s => (∀ e, r = .error e → z ∈ s.store.zones) ∧
      (r = .ok () → Deleted z w s)) w
      (Zones.Impl.delete C z) := by
  refine (drop_gone z.pdnsID).bind (fun _ w₁ h₁ => ?_) fun e s h =>
    ⟨fun _ _ => by rw [h.1]; exact hz, nofun⟩
  obtain ⟨hs, hgone⟩ := h₁
  have hgone := hgone rfl
  refine (removeForward_ignored z.name).bind (fun _ s h₂ => ?_) fun e s h => by cases h.1
  obtain ⟨-, zones, rfl⟩ := h₂
  refine fail_store (fun _ _ => ?_) (fun e he => ?_) fun e =>
    ⟨fun _ _ => by dsimp only; rw [hs]; exact hz, nofun⟩
  · rintro r w' (hd | ⟨rfl, e, rfl⟩)
    · obtain ⟨rfl, rfl⟩ := Prod.mk.inj hd
      dsimp only [handler, StoreCall.step]
      rw [hs]
      have hfind : (w.store.clearSyncZone z.tenantID z.id).zone z.tenantID z.id = some z :=
        Store.zone_eq_some.2 ⟨hz, rfl, rfl⟩
      unfold Store.deleteZone
      rw [hfind]
      exact ⟨nofun, fun _ => deleted_of_rows hown hgone⟩
    · refine ⟨fun _ _ => ?_, nofun⟩
      dsimp only [StoreCall.step]
      rw [hs]
      exact hz
  · cases he

theorem delete_healthy {subj : Subjects} (hg : Zones.guard C subj .zonesManage = .ok ())
    (hz : z ∈ w.store.zones) (hT : z.tenantID = subj.tenantID) :
    (exec (handler C.env.cases) (Zones.delete C subj z.id) w).1 = .ok () := by
  have howned : exec (handler C.env.cases) (Zones.Impl.owned subj z.id) w = (.ok z, w) := by
    have hget : w.store.getZone subj.tenantID z.id = .ok z := Store.getZone_eq_ok.2 ⟨hz, rfl, hT⟩
    rw [Zones.Impl.owned, exec_bind, exec_attempt, Act.exec_store]
    dsimp only [StoreCall.step]
    rw [hget]
    rfl
  have hdrop : exec (handler C.env.cases) (Zones.Impl.drop z.pdnsID) w =
      (.ok (), { w with pdns := (w.pdns.deleteZone z.pdnsID).2 }) := by
    rw [Zones.Impl.drop, exec_bind, exec_attempt, Act.exec_pdns]
    dsimp only [PDNSCall.step]
    rcases w.pdns.deleteZone_cases z.pdnsID with ⟨-, h⟩ | ⟨p, -, h⟩ <;> rw [h] <;> rfl
  obtain ⟨hok, zones, hforward⟩ := Ensures.exec (π := id) failStep_handler
    (removeForward_ignored (C := C) (U := C.env.cases) (w := { w with
      pdns := (w.pdns.deleteZone z.pdnsID).2 }) z.name)
  have hdel : ((w.store.clearSyncZone z.tenantID z.id).deleteZone z.tenantID z.id).1 = .ok () := by
    have hfind : (w.store.clearSyncZone z.tenantID z.id).zone z.tenantID z.id = some z :=
      Store.zone_eq_some.2 ⟨hz, rfl, rfl⟩
    rw [Store.deleteZone, hfind]
  rw [Zones.delete, hg, exec_bind_ok rfl, exec_bind_ok howned, Zones.Impl.delete,
    exec_bind_ok hdrop,
    exec_bind_ok (Prod.ext hok hforward), exec_bind_ok rfl, Act.exec_store]
  exact hdel

/-- **Deletions can be repeated, and leave nothing behind.**  Whichever calls of a deletion fail,
    store calls without effect and PowerDNS calls with or without: after an error a deletion in a
    healthy world succeeds, and after success the zone, its challenges and the references to it are
    gone and nothing else is changed. -/
theorem delete_repeatable (C : Config) (subj : Subjects) (w : World) (z : Store.Zone)
    (hz : z ∈ w.store.zones) (hT : z.tenantID = subj.tenantID)
    (hg : Zones.guard C subj .zonesManage = .ok ()) (hown : Owned w z) (plan : ℕ → Op → Fate Fault)
    (hplan : Honest plan) :
    let r := exec (faulty C.env.cases plan) (Zones.delete C subj z.id) (w, 0)
    (∀ e, r.1 = .error e → (exec (handler C.env.cases) (Zones.delete C subj z.id) r.2.1).1 = .ok ())
      ∧
      (r.1 = .ok () → Deleted z w r.2.1) := by
  have hspec : Ensures (FailStep C.env.cases)
      (fun r s => (∀ e, r = .error e → z ∈ s.store.zones) ∧ (r = .ok () → Deleted z w s)) w
      (Zones.delete C subj z.id) := by
    refine ensures_check (fun _ _ => ?_) fun e he => by rw [hg] at he; cases he
    have howned : Ensures (FailStep C.env.cases) (fun r s => s = w ∧ ∀ y, r = .ok y → y = z) w
        (Zones.Impl.owned subj z.id) := by
      rintro r w' (hd | ⟨rfl, e, rfl⟩)
      · have hget : w.store.getZone subj.tenantID z.id = .ok z :=
          Store.getZone_eq_ok.2 ⟨hz, rfl, hT⟩
        obtain ⟨rfl, rfl⟩ := Prod.mk.inj hd
        dsimp only [handler, StoreCall.step]
        rw [hget]
        exact ⟨rfl, fun y hy => (Except.ok.inj hy).symm⟩
      · exact ⟨rfl, nofun⟩
    refine howned.bind (fun y s h => ?_) fun e s h => ⟨fun _ _ => by rw [h.1]; exact hz, nofun⟩
    obtain ⟨rfl, hy⟩ := h
    rw [hy y rfl]
    exact implDelete_spec hz hown
  have hrun := Ensures.exec (π := fun s : World × ℕ => s.1) (failStep_faulty hplan)
    (t := (w, 0)) hspec
  exact ⟨fun e he => delete_healthy hg (hrun.1 e he) hT, hrun.2⟩

def bookedWorld : World :=
  { Records.sampleWorld with
    store := { Records.sampleWorld.store with
      challenges :=
        ⟨[⟨str "c", str "t", str "z", str "_acme-challenge.example.com.", str "v", str "u", 1⟩],
        List.pairwise_singleton _ _⟩
      sync := ⟨[⟨str "t", str "a", str "192.0.2.1", str "www.example.com", str "z",
          str "www.example.com.", str "A", [], [], .created, 1⟩,
        ⟨str "o", str "b", str "192.0.2.2", str "www.example.net", str "y", str "www.example.net.",
          str "A", [], [], .created, 1⟩], by decide⟩ } }

/-- PowerDNS deletes that zone but its reply is lost: the deletion can be repeated. -/
theorem delete_repeatable_lost :
    let plan : ℕ → Op → Fate Fault := fun _ o => match o with
      | .pdns _ => .lost ⟨.repoFailed, .plain .unavailable, none, .ipamFailed⟩
      | _ => .done
    let r := exec (faulty Config.sample.env.cases plan)
      (Zones.delete .sample (.internal (str "t")) (str "z")) (bookedWorld, 0)
    Owned bookedWorld Records.sampleZone ∧
    (∀ e, r.1 = .error e → (exec (handler Config.sample.env.cases)
      (Zones.delete .sample (.internal (str "t")) (str "z")) r.2.1).1 = .ok ()) ∧
      (r.1 = .ok () → Deleted Records.sampleZone bookedWorld r.2.1) := by
  intro plan r
  have hown : Owned bookedWorld Records.sampleZone := by
    refine ⟨by decide, fun c hc _ => ?_, fun y hy => ?_⟩
    · rw [List.mem_singleton.1 hc]
      rfl
    · have : ∀ y ∈ bookedWorld.store.sync.rows, y.forwardZoneID = str "z" ∨
          y.reverseZoneID = str "z" →
          y.tenantID = str "t" := by decide
      exact this y hy
  exact ⟨hown, delete_repeatable .sample (.internal (str "t")) bookedWorld Records.sampleZone
    (List.mem_singleton.2 rfl) rfl rfl hown plan
    ⟨fun n c e h => (by cases h), fun n c e h => (by rcases h with h | h <;> cases h; rfl)⟩⟩

end TangraDns
