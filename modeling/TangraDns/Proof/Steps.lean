/-
  One call to the world: what its answer can be relied on for and what it
  changes.
-/
import TangraDns.Proof.PowerDNS
import TangraDns.Proof.Store
import TangraDns.Scope

namespace TangraDns

open Str

variable {U : CaseTables} {now : ℕ} {S : Store} {T : Str}
variable {o : Op} {s : PDNS.Server} {past : Past} {id n : Str} {w : World}

/-! ## What a store call leaves alone -/

namespace StoreCall

def writesZones : StoreCall → Bool
  | createZone _ | updateZone _ | deleteZone .. => true
  | _ => false

def writesSync : StoreCall → Bool
  | upsertIPAMSync _ | deleteIPAMSync .. | clearSyncZone .. => true
  | _ => false

def writesChallenges : StoreCall → Bool
  | insertChallenge _ | deleteChallenge .. | deleteZone .. => true
  | _ => false

def writesTemplates : StoreCall → Bool
  | createTemplate _ | updateTemplate _ | deleteTemplate .. => true
  | _ => false

def writesSupermasters : StoreCall → Bool
  | createSupermaster _ | deleteSupermaster .. => true
  | _ => false

theorem step_frame (U : CaseTables) (now : ℕ) (S : Store) (c : StoreCall) :
    (c.writesZones = false → (c.step U now S).2.zones = S.zones) ∧
      (c.writesSync = false → (c.step U now S).2.sync = S.sync) ∧
      (c.writesChallenges = false → (c.step U now S).2.challenges = S.challenges) ∧
      (c.writesTemplates = false → (c.step U now S).2.templates = S.templates) ∧
      (c.writesSupermasters = false → (c.step U now S).2.supermasters = S.supermasters) := by
  cases c <;> dsimp only [step, Store.createZone, Store.updateZone, Store.deleteZone,
    Store.createTemplate, Store.updateTemplate, Store.deleteTemplate, Store.createSupermaster,
    Store.deleteSupermaster, Store.upsertIPAMSync, Store.deleteIPAMSync, Store.clearSyncZone,
    Store.insertChallenge, Store.deleteChallenge]
  all_goals (repeat' split)
  all_goals refine ⟨?_, ?_, ?_, ?_, ?_⟩
  all_goals first | exact fun _ => rfl | rintro ⟨⟩

end StoreCall

/-! ## What a PowerDNS call leaves alone -/

def PDNSCall.touches : PDNSCall → Option Str
  | createZone z => some z.name
  | updateZoneMetadata id _ | deleteZone id | patchRRsets id _ | notifyZone id => some id
  | _ => none

theorem PDNSCall.step_zone_of_ne {c : PDNSCall} (h : c.touches ≠ some id) :
    (c.step U s).2.zone id = s.zone id := by
  have hne {id' : Str} (h : some id' ≠ some id) : id ≠ id' := fun he => h (by rw [he])
  cases c with
  | createZone z =>
    change (s.createZone z).2.zone _ = _
    rcases s.createZone_cases z with ⟨e, he⟩ | ⟨zones, hi, he⟩ <;> rw [he]
    exact (PDNS.Server.zone_insert hi).trans (if_neg (hne h).symm)
  | updateZoneMetadata i m =>
    change (s.updateZoneMetadata i m).2.zone _ = _
    rcases s.updateZoneMetadata_cases i m with ⟨-, he⟩ | ⟨z, -, he⟩ <;> rw [he]
    rw [PDNS.Server.zone_modify_of_ne (hne h)]
  | deleteZone i =>
    change (s.deleteZone i).2.zone _ = _
    rcases s.deleteZone_cases i with ⟨-, he⟩ | ⟨z, -, he⟩ <;> rw [he]
    exact PDNS.Server.zone_filter_of_ne (hne h)
  | patchRRsets i ch =>
    change (s.patchRRsets i ch).2.zone _ = _
    rcases s.patchRRsets_cases i ch with ⟨e, he, -⟩ | ⟨z, -, -, he⟩ <;> rw [he]
    rw [PDNS.Server.zone_modify_of_ne (hne h)]
  | notifyZone i =>
    change (s.notifyZone U i).2.zone _ = _
    rcases s.notifyZone_cases U i with ⟨e, he⟩ | he <;> rw [he]
    rw [PDNS.Server.zone_modify_of_ne (hne h)]
  | createSupermaster m =>
    change (s.createSupermaster m).2.zone _ = _
    unfold PDNS.Server.createSupermaster
    split <;> rfl
  | deleteSupermaster ip ns =>
    change (s.deleteSupermaster ip ns).2.zone _ = _
    unfold PDNS.Server.deleteSupermaster
    split <;> rfl
  | _ => rfl

def PDNSCall.about : PDNSCall → Option Str
  | getZone id | updateZoneMetadata id _ | deleteZone id | patchRRsets id _ | notifyZone id
  | exportZone id => some id
  | _ => none

theorem PDNSCall.step_congr {c : PDNSCall} {t : PDNS.Server} (hc : c.about = some id)
    (h : s.zone id = t.zone id) :
    (c.step U s).1 = (c.step U t).1 ∧ (c.step U s).2.zone id = (c.step U t).2.zone id := by
  cases c with
  | getZone i | exportZone i =>
    cases hc
    exact ⟨by simp only [step, PDNS.Server.getZone, PDNS.Server.exportZone, h], h⟩
  | updateZoneMetadata i m =>
    cases hc
    simp only [step, PDNS.Server.updateZoneMetadata, h]
    cases ht : t.zone id with
    | none => exact ⟨rfl, h⟩
    | some z => exact ⟨rfl, by simp only [PDNS.Server.zone_modify_self, h]⟩
  | deleteZone i =>
    cases hc
    simp only [step, PDNS.Server.deleteZone, h]
    cases ht : t.zone id with
    | none => exact ⟨rfl, h⟩
    | some z => exact ⟨rfl, by simp only [PDNS.Server.zone_filter_self]⟩
  | patchRRsets i ch =>
    cases hc
    simp only [step, PDNS.Server.patchRRsets, h]
    cases ht : t.zone id with
    | none => exact ⟨rfl, h⟩
    | some z =>
      dsimp only
      split_ifs
      · exact ⟨rfl, by simp only [PDNS.Server.zone_modify_self, h]⟩
      · exact ⟨rfl, h⟩
  | notifyZone i =>
    cases hc
    simp only [step, PDNS.Server.notifyZone, h]
    cases ht : t.zone id with
    | none => exact ⟨rfl, h⟩
    | some z =>
      dsimp only
      split_ifs
      · exact ⟨rfl, h⟩
      · exact ⟨rfl, by simp only [PDNS.Server.zone_modify_self, h]⟩
  | _ => cases hc

theorem PDNS.Server.createZone_congr {t : PDNS.Server} {z : PDNS.Zone}
    (h : (s.zone z.name).isSome = (t.zone z.name).isSome) :
    (s.createZone z).1 = (t.createZone z).1 ∧
      (((s.createZone z).2 = s ∧ (t.createZone z).2 = t ∧ ∀ c, (s.createZone z).1 ≠ .ok c) ∨
        (s.createZone z).2.zone z.name = (t.createZone z).2.zone z.name) := by
  have hnone : ∀ {s : PDNS.Server}, s.zones.insert (newZone z) = none ↔
      (s.zone z.name).isSome = true := by
    intro s
    rw [Table.insert_eq_none, Option.isSome_iff_exists]
    constructor
    · rintro ⟨b, hb, hc⟩
      exact ⟨b, zone_eq_some.2 ⟨hb, eq_of_beq hc⟩⟩
    · rintro ⟨b, hb⟩
      obtain ⟨hb, hid⟩ := zone_eq_some.1 hb
      exact ⟨b, hb, beq_iff_eq.2 hid⟩
  have hmade : ∀ {s : PDNS.Server} {zones}, s.zones.insert (newZone z) = some zones →
      ({ s with zones } : PDNS.Server).zone z.name = some (newZone z) := by
    intro s zones hi
    rw [zone_insert hi]
    exact if_pos rfl
  unfold createZone
  by_cases hn : z.name = [] ∨ ¬ HasSuffix z.name [dot]
  · simp only [if_pos hn]
    exact ⟨trivial, .inl ⟨trivial, trivial, fun _ => by rintro ⟨⟩⟩⟩
  simp only [if_neg hn]
  cases hs : s.zones.insert (newZone z) with
  | none =>
    rw [hnone.2 (h ▸ hnone.1 hs)]
    exact ⟨rfl, .inl ⟨rfl, rfl, fun _ => by rintro ⟨⟩⟩⟩
  | some zones =>
    cases ht : t.zones.insert (newZone z) with
    | none => rw [hnone.2 (h.symm ▸ hnone.1 ht)] at hs; cases hs
    | some zones' =>
      dsimp only
      by_cases hall : z.rrsets.all (initialOK z) = true
      · simp only [if_pos hall]
        exact ⟨trivial, .inr ((hmade hs).trans (hmade ht).symm)⟩
      · simp only [if_neg hall]
        exact ⟨trivial, .inl ⟨trivial, trivial, fun _ => by rintro ⟨⟩⟩⟩

/-! ## Answers -/

theorem Store.getIPAMSync_ok {r : Store.IPAMSync} (h : S.getIPAMSync T id = .ok r) :
    r ∈ S.sync ∧ r.tenantID = T ∧ r.ipAddressID = id := by
  unfold Store.getIPAMSync at h
  split at h
  · next hf =>
    cases h
    obtain ⟨hm, hp⟩ := Table.mem_of_find hf
    simp only [Bool.and_eq_true, beq_iff_eq] at hp
    exact ⟨hm, hp⟩
  · cases h

theorem handler_answer (U : CaseTables) (o : Op) (w : World) :
    Scope.Answer o (handler U o w).1 := by
  cases o
  case store c =>
    cases c
    case getZone =>
      intro z h
      obtain ⟨-, hid, hT⟩ := Store.getZone_eq_ok.1 h
      exact ⟨hT, hid⟩
    case getZoneByName =>
      intro z h
      exact (Store.getZoneByName_eq_ok.1 h).2
    case zonesForTenant =>
      intro zs h z hz
      cases h
      exact (Store.mem_zonesForTenant.1 hz).2
    case getIPAMSync =>
      intro r h
      exact (Store.getIPAMSync_ok h).2
    all_goals trivial
  case pdns c =>
    cases c
    case createZone z =>
      intro c h
      change (w.pdns.createZone z).1 = .ok c at h
      rcases w.pdns.createZone_cases z with ⟨e, he⟩ | ⟨zones, -, he⟩ <;> rw [he] at h <;> cases h
      rfl
    all_goals trivial
  all_goals trivial

/-! ## Zone rows -/

theorem zone_step {z : Store.Zone} (hz : z ∈ (handler U o w).2.store.zones) :
    (∃ y ∈ w.store.zones, y.keys = z.keys) ∨
      ∃ y, o = .store (.createZone y) ∧ y.keys = z.keys ∧
        ∀ x ∈ w.store.zones, Keyed.clash x z = false := by
  cases o
  case store c =>
    by_cases hc : c.writesZones = false
    · exact .inl ⟨z, by rwa [← (c.step_frame U (w.times w.ticks) w.store).1 hc], rfl⟩
    · cases c
      case createZone y =>
        change z ∈ (w.store.createZone (w.times w.ticks) y).2.zones at hz
        rcases w.store.createZone_cases (w.times w.ticks) y with ⟨-, h⟩ | ⟨zones, y', hi, hk, h⟩ <;>
          rw [h] at hz
        · exact .inl ⟨z, hz, rfl⟩
        · rcases (Table.mem_insert hi).1 hz with hz | rfl
          · exact .inl ⟨z, hz, rfl⟩
          · exact .inr ⟨y, rfl, hk.symm, fun x hx => Table.noClash_of_insert hi hx⟩
      case updateZone y =>
        change z ∈ (w.store.updateZone (w.times w.ticks) y).2.zones at hz
        rcases w.store.updateZone_cases (w.times w.ticks) y with ⟨-, h⟩ | ⟨cur, zones, h, -, -, -,
          f, hf, hk, -⟩ <;>
          rw [h] at hz
        · exact .inl ⟨z, hz, rfl⟩
        · rw [Table.mem_iff, hf] at hz
          obtain ⟨c, hc, rfl⟩ := List.mem_map.1 hz
          exact .inl ⟨c, hc, (hk c).symm⟩
      case deleteZone t id =>
        change z ∈ (w.store.deleteZone t id).2.zones at hz
        rcases w.store.deleteZone_cases t id with h | ⟨-, -, -, -, h⟩ <;> rw [h] at hz
        · exact .inl ⟨z, hz, rfl⟩
        · exact .inl ⟨z, (Table.mem_filter.1 hz).1, rfl⟩
      all_goals exact absurd rfl hc
  all_goals exact .inl ⟨z, hz, rfl⟩

/-! ## What a call adds to the past -/

namespace Scope

theorem mem_pending_cons {r : Res o}
    (h : n ∈ pending T (⟨o, r⟩ :: past)) :
    isCreate ⟨o, r⟩ = false ∧ n ∈ pending T past ∨ freed T ⟨o, r⟩ = some n := by
  rw [pending] at h
  split_ifs at h with hc
  · cases h
  · rcases List.mem_append.1 h with h | h
    · exact .inr (Option.mem_toList.1 h)
    · exact .inl ⟨by simpa using hc, h⟩

theorem freed_step (h : freed T ⟨o, (handler U o w).1⟩ = some n) :
    o = .store (.zoneConflict T n) ∧ w.store.zoneConflict U T n = false := by
  cases o
  case store c =>
    cases c
    case zoneConflict t m =>
      have h' : (match w.store.zoneConflict U t m with
          | false => if t = T then some m else none
          | true => none) = some n := by
        rw [← h]
        simp only [freed, handler, StoreCall.step]
        cases w.store.zoneConflict U t m <;> rfl
      split at h'
      · next hf =>
        split_ifs at h' with ht
        cases h'
        subst ht
        exact ⟨rfl, hf⟩
      · cases h'
    all_goals cases h
  all_goals cases h

theorem loaded_step {z : Store.Zone}
    (h : Loaded T (⟨o, (handler U o w).1⟩ :: past) z) :
    Loaded T past z ∨ z ∈ w.store.zones ∧ z.tenantID = T := by
  rcases h with ⟨id, h⟩ | ⟨n, h⟩ | ⟨zs, h, hz⟩ <;> rcases List.mem_cons.1 h with h | h
  · obtain ⟨rfl, h⟩ := Sigma.mk.inj h
    obtain ⟨hz, -, hT⟩ := Store.getZone_eq_ok.1 (eq_of_heq h).symm
    exact .inr ⟨hz, hT⟩
  · exact .inl (.inl ⟨id, h⟩)
  · obtain ⟨rfl, h⟩ := Sigma.mk.inj h
    obtain ⟨hz, hT, -⟩ := Store.getZoneByName_eq_ok.1 (eq_of_heq h).symm
    exact .inr ⟨hz, hT⟩
  · exact .inl (.inr (.inl ⟨n, h⟩))
  · obtain ⟨rfl, h⟩ := Sigma.mk.inj h
    cases eq_of_heq h
    exact .inr (Store.mem_zonesForTenant.1 hz)
  · exact .inl (.inr (.inr ⟨zs, h, hz⟩))

theorem made_step (h : Made (⟨o, (handler U o w).1⟩ :: past) n) :
    Made past n ∨ ∃ z c, o = .pdns (.createZone z) ∧ z.name = n ∧
    (w.pdns.createZone z).1 = .ok c := by
  obtain ⟨z, c, h, rfl⟩ := h
  rcases List.mem_cons.1 h with h | h
  · obtain ⟨rfl, h⟩ := Sigma.mk.inj h
    exact .inr ⟨z, c, rfl, rfl, (eq_of_heq h).symm⟩
  · exact .inl ⟨z, c, h, rfl⟩

theorem Pending.cleared (h : Pending T n past) : Cleared T past n := by
  induction past with
  | nil => cases h
  | cons e past ih =>
    obtain ⟨o, r⟩ := e
    rcases mem_pending_cons h with ⟨-, h⟩ | h
    · exact List.mem_cons_of_mem _ (ih h)
    · unfold freed at h
      split at h
      · next t m r he =>
        split at h
        · split_ifs at h with ht
          cases h
          cases he
          subst ht
          exact List.mem_cons_self ..
        · cases h
      · cases h

theorem own_step (h : Own T (⟨o, (handler U o w).1⟩ :: past) id) :
    Own T past id ∨ (∃ z ∈ w.store.zones, z.tenantID = T ∧ z.pdnsID = id) ∨
      ∃ z c, o = .pdns (.createZone z) ∧ z.name = id ∧ (w.pdns.createZone z).1 = .ok c := by
  rcases h with ⟨z, hz, rfl⟩ | h
  · rcases loaded_step hz with hz | ⟨hz, hT⟩
    exacts [.inl (.inl ⟨z, hz, rfl⟩), .inr (.inl ⟨z, hz, hT, rfl⟩)]
  · exact (made_step h).imp .inr .inr

theorem cleared_step (h : Cleared T (⟨o, (handler U o w).1⟩ :: past) n) :
    Cleared T past n ∨ o = .store (.zoneConflict T n) ∧ w.store.zoneConflict U T n = false := by
  rcases List.mem_cons.1 h with h | h
  · obtain ⟨rfl, h⟩ := Sigma.mk.inj h
    exact .inr ⟨rfl, Except.ok.inj (eq_of_heq h).symm⟩
  · exact .inl h

end Scope

end TangraDns
