/-
  What the calls of the PowerDNS server answer and change.
-/
import TangraDns.PowerDNS

namespace TangraDns.PDNS.Server

open Str

variable {s : Server} {id id' : Str} {z : Zone} {f : Zone → Zone} {hf : ∀ z, (f z).id = z.id}

/-! ## Zones by id -/

theorem zone_eq_some : s.zone id = some z ↔ z ∈ s.zones ∧ z.id = id := by
  constructor
  · intro h
    obtain ⟨hz, hid⟩ := Table.mem_of_find h
    exact ⟨hz, eq_of_beq hid⟩
  · rintro ⟨hz, rfl⟩
    exact Table.find_eq_some hz (beq_self_eq_true _) fun b _ hb => hb

theorem zone_eq_none : s.zone id = none ↔ ∀ z ∈ s.zones, z.id ≠ id := by
  rw [zone, Table.find_eq_none]
  simp only [beq_eq_false_iff_ne]

theorem zone_modify :
    (s.modify id f hf).zone id' = (s.zone id').map fun z => if id' = id then f z else z := by
  cases hz : s.zone id' with
  | some z =>
    obtain ⟨hmem, rfl⟩ := zone_eq_some.1 hz
    refine zone_eq_some.2 ⟨List.mem_map.2 ⟨z, hmem, by simp only [beq_iff_eq]⟩, ?_⟩
    split_ifs
    exacts [hf z, rfl]
  | none =>
    refine zone_eq_none.2 fun y hy => ?_
    obtain ⟨z, hmem, rfl⟩ := List.mem_map.1 hy
    have := zone_eq_none.1 hz z hmem
    split_ifs
    exacts [hf z ▸ this, this]

theorem zone_modify_self : (s.modify id f hf).zone id = (s.zone id).map f := by
  simp only [zone_modify, if_true]

theorem zone_modify_of_ne (h : id' ≠ id) : (s.modify id f hf).zone id' = s.zone id' := by
  simp only [zone_modify, if_neg h, Option.map_id']

/-! ## The calls -/

theorem createZone_cases (s : Server) (z : Zone) :
    (∃ e, s.createZone z = (.error e, s)) ∨
      ∃ zones, s.zones.insert (newZone z) = some zones ∧
        s.createZone z = (.ok (newZone z), { s with zones }) := by
  unfold createZone
  by_cases hn : z.name = [] ∨ ¬ HasSuffix z.name [dot]
  · rw [if_pos hn]; exact .inl ⟨_, rfl⟩
  rw [if_neg hn]
  split
  · exact .inl ⟨_, rfl⟩
  · next zones h =>
    by_cases hall : z.rrsets.all (initialOK z)
    · rw [if_pos hall]; exact .inr ⟨zones, h, rfl⟩
    · rw [if_neg hall]; exact .inl ⟨_, rfl⟩

theorem name_ne_of_createZone {c : Zone} (h : (s.createZone z).1 = .ok c) : z.name ≠ [] := by
  intro hn
  rw [createZone, if_pos (.inl hn)] at h
  cases h

theorem zone_insert {zones : Table Zone} (h : s.zones.insert z = some zones) :
    ({ s with zones } : Server).zone id = if z.id = id then some z else s.zone id := by
  have hin (y : Zone) : y ∈ zones ↔ y ∈ s.zones ∨ y = z := Table.mem_insert h
  split_ifs with hid
  · exact zone_eq_some.2 ⟨(hin z).2 (.inr rfl), hid⟩
  · cases hz : s.zone id with
    | some y =>
      obtain ⟨hy, rfl⟩ := zone_eq_some.1 hz
      exact zone_eq_some.2 ⟨(hin y).2 (.inl hy), rfl⟩
    | none =>
      refine zone_eq_none.2 fun y hy => ?_
      rcases (hin y).1 hy with hy | rfl
      exacts [zone_eq_none.1 hz y hy, hid]

theorem zone_filter_of_ne (h : id' ≠ id) :
    ({ s with zones := s.zones.filter fun z => !(z.id == id) } : Server).zone id' = s.zone id' := by
  cases hz : s.zone id' with
  | some y =>
    obtain ⟨hy, rfl⟩ := zone_eq_some.1 hz
    exact zone_eq_some.2 ⟨Table.mem_filter.2 ⟨hy, by simpa using h⟩, rfl⟩
  | none => exact zone_eq_none.2 fun y hy => zone_eq_none.1 hz y (Table.mem_filter.1 hy).1

theorem zone_filter_self :
    ({ s with zones := s.zones.filter fun z => !(z.id == id) } : Server).zone id = none :=
  zone_eq_none.2 fun y hy => by simpa using (Table.mem_filter.1 hy).2

def putMeta (m z : Zone) : Zone :=
  { z with
    kind := if m.kind = [] then z.kind else m.kind
    masters := m.masters
    dnssec := m.dnssec
    account := if m.account = [] then z.account else m.account }

theorem putMeta_id (m z : Zone) : (putMeta m z).id = z.id := rfl

theorem updateZoneMetadata_cases (s : Server) (id : Str) (m : Zone) :
    (s.zone id = none ∧ s.updateZoneMetadata id m = (.error notFound, s)) ∨
      ∃ z, s.zone id = some z ∧ s.updateZoneMetadata id m =
        (.ok (), s.modify id (putMeta m) (putMeta_id m)) := by
  unfold updateZoneMetadata
  cases h : s.zone id with
  | none => exact .inl ⟨rfl, rfl⟩
  | some z => exact .inr ⟨z, rfl, rfl⟩

theorem updateZoneMetadata_zone {m : Zone} :
    (s.updateZoneMetadata id m).2.zone id' =
      (s.zone id').map fun z => if id' = id then putMeta m z else z := by
  rcases s.updateZoneMetadata_cases id m with ⟨hn, h⟩ | ⟨_, -, h⟩ <;> rw [h]
  · cases hz : s.zone id' with
    | none => rfl
    | some z =>
      have : id' ≠ id := by
        rintro rfl
        rw [hn] at hz
        cases hz
      simp [this]
  · exact @zone_modify s id id' (putMeta m) (putMeta_id m)

theorem updateZoneMetadata_ok {m : Zone} (h : s.zone id = some z) :
    (s.updateZoneMetadata id m).1 = .ok () := by
  rcases s.updateZoneMetadata_cases id m with ⟨hn, -⟩ | ⟨_, -, he⟩
  · rw [hn] at h
    cases h
  · rw [he]

theorem deleteZone_cases (s : Server) (id : Str) :
    (s.zone id = none ∧ s.deleteZone id = (.error notFound, s)) ∨
      ∃ z, s.zone id = some z ∧
        s.deleteZone id = (.ok (), { s with zones := s.zones.filter fun z => !(z.id == id) }) := by
  unfold deleteZone
  cases h : s.zone id with
  | none => exact .inl ⟨rfl, rfl⟩
  | some z => exact .inr ⟨z, rfl, rfl⟩

theorem patchRRsets_cases (s : Server) (id : Str) (changes : List RRset) :
    (∃ e, s.patchRRsets id changes = (.error e, s) ∧
        ∀ z, s.zone id = some z → changes.all (changeOK z.name) = false) ∨
      ∃ z, s.zone id = some z ∧ changes.all (changeOK z.name) = true ∧
        s.patchRRsets id changes = (.ok (), s.modify id (fun z =>
          { z with rrsets := changes.foldl applyChange z.rrsets, serial := z.serial + 1 })
              fun _ => rfl) := by
  unfold patchRRsets
  cases h : s.zone id with
  | none => exact .inl ⟨_, rfl, nofun⟩
  | some z =>
    dsimp only
    split_ifs with hc
    · exact .inr ⟨z, rfl, hc, rfl⟩
    · refine .inl ⟨_, rfl, ?_⟩
      rintro _ ⟨⟩
      exact Bool.eq_false_iff.2 hc

theorem notifyZone_cases (s : Server) (U : CaseTables) (id : Str) :
    (∃ e, s.notifyZone U id = (.error e, s)) ∨
      s.notifyZone U id =
        (.ok (), s.modify id (fun z => { z with notifiedSerial := z.serial }) fun _ => rfl) := by
  unfold notifyZone
  cases h : s.zone id with
  | none => exact .inl ⟨_, rfl⟩
  | some z =>
    dsimp only
    split_ifs
    · exact .inl ⟨_, rfl⟩
    · exact .inr rfl

end TangraDns.PDNS.Server
