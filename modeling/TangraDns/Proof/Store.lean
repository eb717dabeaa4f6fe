/-
  What the store's calls answer and change.
-/
import TangraDns.Store

namespace TangraDns.Store

open Str

variable {S : Store} {T id name : Str} {z : Zone} {now : ℕ}
variable {e : Err} {m : Supermaster} {t : Template} {y : Zone}

/-! ## The longest zone -/

/-- The fold of `longestZone` from any candidate: it ends in the candidate or a zone of the list
    that holds the name, and is at least as long as each of these. -/
private theorem longestZone_foldl (n : Str) (zones : List Zone) (best : Option Zone) :
    let r := zones.foldl (fun best z =>
      if InZone n z.name ∧ ∀ b ∈ best, b.name.length < z.name.length then some z else best) best
    (r = best ∨ ∃ z ∈ zones, r = some z ∧ InZone n z.name) ∧
      (∀ b ∈ best, ∃ z ∈ r, b.name.length ≤ z.name.length) ∧
      ∀ y ∈ zones, InZone n y.name → ∃ z ∈ r, y.name.length ≤ z.name.length := by
  induction zones generalizing best with
  | nil => exact ⟨.inl rfl, fun b hb => ⟨b, hb, le_rfl⟩, fun y hy => by cases hy⟩
  | cons x zones ih =>
    rw [List.foldl_cons]
    split_ifs with hx
    · obtain ⟨h1, h2, h3⟩ := ih (some x)
      obtain ⟨zx, hzx, hle⟩ := h2 x rfl
      refine ⟨.inr ?_, fun b hb => ⟨zx, hzx, (hx.2 b hb).le.trans hle⟩, fun y hy hyn => ?_⟩
      · rcases h1 with h1 | ⟨z, hz, h1⟩
        · exact ⟨x, List.mem_cons_self .., h1, hx.1⟩
        · exact ⟨z, List.mem_cons_of_mem _ hz, h1⟩
      · rcases List.mem_cons.1 hy with rfl | hy
        exacts [⟨zx, hzx, hle⟩, h3 y hy hyn]
    · obtain ⟨h1, h2, h3⟩ := ih best
      refine ⟨h1.imp_right fun ⟨z, hz, h⟩ => ⟨z, List.mem_cons_of_mem _ hz, h⟩, h2,
        fun y hy hyn => ?_⟩
      rcases List.mem_cons.1 hy with rfl | hy
      · -- the candidate it did not replace is at least as long
        obtain ⟨b, hb, hyb⟩ : ∃ b ∈ best, y.name.length ≤ b.name.length := by
          by_contra hb
          push Not at hb
          exact hx ⟨hyn, hb⟩
        obtain ⟨z, hz, hbz⟩ := h2 b hb
        exact ⟨z, hz, hyb.trans hbz⟩
      · exact h3 y hy hyn

theorem longestZone_spec {zones : List Zone} {n : Str} (h : longestZone zones n = some z) :
    z ∈ zones ∧ InZone n z.name ∧ ∀ y ∈ zones, InZone n y.name → y.name.length ≤ z.name.length := by
  obtain ⟨h1, -, h3⟩ := longestZone_foldl n zones none
  rw [show zones.foldl _ none = longestZone zones n from rfl, h] at h1 h3
  obtain ⟨z', hz', ⟨⟩, hin⟩ := h1.resolve_left (Option.some_ne_none z)
  refine ⟨hz', hin, fun y hy hyn => ?_⟩
  obtain ⟨_, ⟨⟩, hle⟩ := h3 y hy hyn
  exact hle

theorem not_inZone_of_longestZone {zones : List Zone} {n : Str} (h : longestZone zones n = none) :
    ∀ y ∈ zones, ¬ InZone n y.name := by
  obtain ⟨-, -, h3⟩ := longestZone_foldl n zones none
  rw [show zones.foldl _ none = longestZone zones n from rfl, h] at h3
  intro y hy hyn
  obtain ⟨_, hz, -⟩ := h3 y hy hyn
  cases hz

/-! ## Reads -/

theorem Zone.clash_of_id (a b : Zone) (h : a.id = b.id) : Keyed.clash a b = true := by
  simp [Keyed.clash, h]

theorem Template.clash_of_id (a b : Template) (h : a.id = b.id) : Keyed.clash a b = true := by
  simp [Keyed.clash, h]

theorem Supermaster.clash_of_id (a b : Supermaster) (h : a.id = b.id) : Keyed.clash a b = true := by
  simp [Keyed.clash, h]

theorem zone_eq_some : S.zone T id = some z ↔ z ∈ S.zones ∧ z.id = id ∧ z.tenantID = T := by
  rw [zone, Table.find_filter_eq_some Zone.clash_of_id, beq_iff_eq]

theorem getZone_eq_ok : S.getZone T id = .ok z ↔ z ∈ S.zones ∧ z.id = id ∧ z.tenantID = T := by
  rw [← zone_eq_some, getZone]
  cases S.zone T id <;> simp

theorem supermaster_eq_some :
    S.supermaster T id = some m ↔ m ∈ S.supermasters ∧ m.id = id ∧ m.tenantID = T := by
  rw [supermaster, Table.find_filter_eq_some Supermaster.clash_of_id, beq_iff_eq]

theorem getSupermaster_eq_ok :
    S.getSupermaster T id = .ok m ↔ m ∈ S.supermasters ∧ m.id = id ∧ m.tenantID = T := by
  rw [← supermaster_eq_some, getSupermaster]
  cases S.supermaster T id <;> simp

theorem template_eq_some :
    S.template T id = some t ↔ t ∈ S.templates ∧ t.id = id ∧ t.tenantID = T := by
  rw [template, Table.find_filter_eq_some Template.clash_of_id, beq_iff_eq]

theorem getTemplate_eq_ok :
    S.getTemplate T id = .ok t ↔ t ∈ S.templates ∧ t.id = id ∧ t.tenantID = T := by
  rw [← template_eq_some, getTemplate]
  cases S.template T id <;> simp

theorem getTemplate_eq_error (h : S.getTemplate T id = .error e) :
    e = .repoNotFound ∧ ∀ t ∈ S.templates, t.id = id → t.tenantID ≠ T := by
  refine ⟨?_, fun t ht hid hT => ?_⟩
  · unfold getTemplate at h
    split at h <;> cases h
    rfl
  · rw [getTemplate_eq_ok.2 ⟨ht, hid, hT⟩] at h
    cases h

theorem getSupermaster_eq_error (h : S.getSupermaster T id = .error e) :
    e = .repoNotFound ∧ ∀ m ∈ S.supermasters, m.id = id → m.tenantID ≠ T := by
  refine ⟨?_, fun m hm hid hT => ?_⟩
  · unfold getSupermaster at h
    split at h <;> cases h
    rfl
  · rw [getSupermaster_eq_ok.2 ⟨hm, hid, hT⟩] at h
    cases h

theorem getZoneByName_eq_ok :
    S.getZoneByName T name = .ok z ↔ z ∈ S.zones ∧ z.tenantID = T ∧ z.name = name := by
  rw [getZoneByName]
  constructor
  · intro h
    split at h
    · next hf =>
      cases h
      obtain ⟨hz, h⟩ := Table.mem_of_find hf
      simp only [Bool.and_eq_true, beq_iff_eq] at h
      exact ⟨hz, h⟩
    · cases h
  · rintro ⟨hz, rfl, rfl⟩
    rw [Table.find_eq_some hz (by simp) fun b _ hb => ?_]
    simp only [Bool.and_eq_true] at hb
    simp only [Keyed.clash, hb.2, Bool.true_or, Bool.or_true]

theorem getZoneByName_eq_error (h : S.getZoneByName T name = .error e) :
    e = .repoNotFound ∧ ∀ z ∈ S.zones, z.tenantID = T → z.name ≠ name := by
  refine ⟨?_, fun z hz hT hn => ?_⟩
  · unfold getZoneByName at h
    split at h <;> cases h
    rfl
  · rw [getZoneByName_eq_ok.2 ⟨hz, hT, hn⟩] at h
    cases h

theorem mem_zonesForTenant : z ∈ S.zonesForTenant T ↔ z ∈ S.zones ∧ z.tenantID = T := by
  rw [zonesForTenant, List.mem_insertionSort, List.mem_filter, beq_iff_eq]
  rfl

theorem mem_tenantTemplates {U : CaseTables} :
    t ∈ S.tenantTemplates U T ↔ t ∈ S.templates ∧ t.tenantID = T := by
  rw [tenantTemplates, List.mem_insertionSort, List.mem_filter, beq_iff_eq]
  rfl

theorem mem_tenantSupermasters :
    m ∈ S.tenantSupermasters T ↔ m ∈ S.supermasters ∧ m.tenantID = T := by
  rw [tenantSupermasters, List.mem_insertionSort, List.mem_filter, beq_iff_eq]
  rfl

theorem zoneConflict_eq_false {U : CaseTables} : S.zoneConflict U T name = false ↔
    ∀ z ∈ S.zones, z.tenantID ≠ T → ¬ Overlaps (toLower U name) z.name := by
  simp only [zoneConflict, List.any_eq_false, Bool.and_eq_true, bne_iff_ne,
    decide_eq_true_eq, not_and]
  rfl

/-! ## Writes of zones -/

def Zone.keys (z : Zone) : Str × Str × Str × Str := (z.id, z.tenantID, z.name, z.pdnsID)

theorem tenantID_of_keys {z : Zone} (h : y.keys = z.keys) : y.tenantID = z.tenantID :=
  congrArg (fun k => k.2.1) h

theorem pdnsID_of_keys {z : Zone} (h : y.keys = z.keys) : y.pdnsID = z.pdnsID :=
  congrArg (fun k => k.2.2.2) h

theorem id_of_keys {z : Zone} (h : y.keys = z.keys) : y.id = z.id := congrArg Prod.fst h

theorem name_of_keys {z : Zone} (h : y.keys = z.keys) : y.name = z.name :=
  congrArg (fun k => k.2.2.1) h

theorem createZone_cases (S : Store) (now : ℕ) (z : Zone) :
    ((∃ y ∈ S.zones, Keyed.clash y z = true) ∧ S.createZone now z = (.error .repoConflict, S)) ∨
      ∃ zones z', S.zones.insert z' = some zones ∧ z'.keys = z.keys ∧
        S.createZone now z = (.ok (), { S with zones }) := by
  unfold createZone
  dsimp only
  split
  · next h =>
    have := Table.insert_eq_none.1 h
    exact .inl ⟨this, rfl⟩
  · next zones h => exact .inr ⟨zones, _, h, rfl, rfl⟩

theorem updateZone_cases (S : Store) (now : ℕ) (z : Zone) :
    (S.zone z.tenantID z.id = none ∧ S.updateZone now z = (.error .repoNotFound, S)) ∨
      ∃ cur zones, S.updateZone now z = (.ok cur, { S with zones }) ∧
        cur.keys ∈ S.zones.rows.map Zone.keys ∧
        cur.id = z.id ∧ cur.tenantID = z.tenantID ∧
        ∃ f : Zone → Zone, zones.rows = S.zones.rows.map f ∧
          (∀ c, (f c).keys = c.keys) ∧ ∀ c ∈ S.zones, c.tenantID ≠ z.tenantID → f c = c := by
  unfold updateZone
  split
  · next h => exact .inl ⟨h, rfl⟩
  · next cur h =>
    obtain ⟨hmem, hid, hT⟩ := zone_eq_some.1 h
    refine .inr ⟨_, _, rfl, List.mem_map.2 ⟨cur, hmem, rfl⟩, hid, hT, _, rfl, fun c => ?_,
      fun c hc hne => ?_⟩
    · split <;> rfl
    · refine if_neg fun hcid => hne ?_
      have : c = cur := Table.eq_of_clash hc hmem (by simp [Keyed.clash, eq_of_beq hcid, hid])
      rw [this, hT]

theorem updateZone_meta {cur : Zone} (now : ℕ) (h : S.zone z.tenantID z.id = some cur) :
    (∃ saved, (S.updateZone now z).1 = .ok saved) ∧
      (S.updateZone now z).2.zones.rows.map Zone.keys = S.zones.rows.map Zone.keys ∧
      ∀ c ∈ (S.updateZone now z).2.zones, c.id = z.id →
        c.kind = z.kind ∧ c.masters = z.masters ∧ c.dnssec = z.dnssec := by
  dsimp only [updateZone]
  rw [h]
  refine ⟨⟨_, rfl⟩, ?_, fun c hc hid => ?_⟩
  · refine List.map_map.trans (List.map_congr_left fun c _ => ?_)
    dsimp only [Function.comp]
    split <;> rfl
  · obtain ⟨b, -, rfl⟩ := List.mem_map.1 hc
    split_ifs at hid ⊢ with hb
    · exact ⟨rfl, rfl, rfl⟩
    · exact absurd (beq_iff_eq.2 hid) hb

theorem deleteZone_cases (S : Store) (T id : Str) :
    S.deleteZone T id = (.error .repoNotFound, S) ∨
      ∃ z ∈ S.zones, z.id = id ∧ z.tenantID = T ∧ S.deleteZone T id = (.ok (), { S with
        zones := S.zones.filter fun z => !(z.id == id)
        challenges := S.challenges.filter fun c => !(c.tenantID == T && c.zoneID == id) }) := by
  unfold deleteZone
  split
  · exact .inl rfl
  · next z h =>
    obtain ⟨hmem, hid, hT⟩ := zone_eq_some.1 h
    exact .inr ⟨z, hmem, hid, hT, rfl⟩

end TangraDns.Store
