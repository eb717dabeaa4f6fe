/-
  What an import does to zone rows and PowerDNS accounts.
-/
import TangraDns.Backup
import TangraDns.Proof.Exec
import TangraDns.Proof.Names
import TangraDns.Proof.Steps

namespace TangraDns

open List Str Prog.Failing

variable {U : CaseTables} {rows : List ZoneRow} {live : PDNS.Zone} {id name n : Str} {α : Type}
  {w₀ : World}

def PDNS.Server.account (s : PDNS.Server) (id : Str) : Option Str :=
  (s.zone id).map PDNS.Zone.account

theorem PDNS.Server.account_updateZoneMetadata {s : PDNS.Server} {z m : PDNS.Zone}
    (hz : s.zone id = some z) (hm : m.account ≠ []) (p : Str) :
    (s.updateZoneMetadata id m).2.account p = if p = id then some m.account else s.account p := by
  rcases s.updateZoneMetadata_cases id m with ⟨hn, -⟩ | ⟨z', -, h⟩
  · rw [hz] at hn
    cases hn
  · rw [h, account, account, PDNS.Server.zone_modify]
    by_cases hp : p = id
    · subst hp
      simp only [hz, Option.map_some, if_true, putMeta, if_neg hm]
    · simp only [if_neg hp, Option.map_id']

namespace Backup

variable {C : Config} {im : Importer} {w w' : World} {row : ZoneRow} {onServer : List Str}
  {T : Str} {res : Result}

/-! ## One zone -/

structure Kept (w w' : World) : Prop where
  keys : w'.store.zones.rows.map Store.Zone.keys = w.store.zones.rows.map Store.Zone.keys
  pdns : w'.pdns = w.pdns

structure Taken (T id name : Str) (w w' : World) : Prop where
  keys : w'.store.zones.rows.map Store.Zone.keys =
    w.store.zones.rows.map Store.Zone.keys ++ [(id, T, name, name)]
  account : ∀ p, w'.pdns.account p = if p = name then some T else w.pdns.account p

/-- Nothing stands against linking the PowerDNS zone of the name: no row of the target has the name,
    no other tenant's zone overlaps it, and no row has its PowerDNS id. -/
structure Free (U : CaseTables) (T name : Str) (onServer : List Str) (w : World) : Prop where
  mine : ∀ y ∈ w.store.zones, y.tenantID = T → y.name ≠ name
  listed : name ∈ onServer
  apart : w.store.zoneConflict U T name = false
  unlinked : ∀ y ∈ w.store.zones, y.pdnsID ≠ name

/-- Only the clock has gone on. -/
def Later (w w' : World) : Prop := ∃ ticks, w' = { w with ticks }

theorem exec_nowIf (t : ℕ) : ∃ t' w', exec (handler C.env.cases)
    (if t = 0 then Act.now else pure t) w = (.ok t', w') ∧ Later w w' := by
  split_ifs
  · exact ⟨_, _, Act.exec_now, _, rfl⟩
  · exact ⟨t, w, rfl, w.ticks, rfl⟩

theorem exec_keepTemplate (im : Importer) (id : Str) :
    ∃ id', exec (handler C.env.cases) (im.keepTemplate id) w = (.ok id', w) := by
  unfold Importer.keepTemplate
  split_ifs
  · exact ⟨_, rfl⟩
  · rw [exec_bind, exec_attempt, Act.exec_store]
    dsimp only [StoreCall.step]
    cases w.store.getTemplate im.target id
    · exact ⟨_, rfl⟩
    · exact ⟨_, rfl⟩

theorem exec_relabel (im : Importer)
    (hT : im.target ≠ []) (hl : w.pdns.zone name = some live) :
    ∃ pdns, exec (handler C.env.cases) (im.relabel name live) w = (.ok (), { w with pdns }) ∧
      ∀ p, pdns.account p = if p = name then some im.target else w.pdns.account p := by
  unfold Importer.relabel
  split_ifs with ha
  · refine ⟨w.pdns, rfl, fun p => ?_⟩
    split_ifs with hp
    · rw [hp, PDNS.Server.account, hl, Option.map_some, ha]
    · rfl
  · exact ⟨_, by rw [exec_bind, exec_attempt, Act.exec_pdns]; rfl,
      PDNS.Server.account_updateZoneMetadata hl hT⟩

def Clashes (w : World) (id name : Str) : Prop :=
  ∃ y ∈ w.store.zones, y.id = id ∨ y.name = name ∨ y.pdnsID = name

theorem exec_place (im : Importer) (res : Result) {z : Store.Zone}
    (hT : im.target ≠ []) (hl : w.pdns.zone name = some live)
    (hk : z.keys = (id, im.target, name, name)) :
    ∃ res' w', exec (handler C.env.cases) (im.place res z live) w = (.ok res', w') ∧
      (Clashes w id name ∧ Kept w w' ∨ ¬ Clashes w id name ∧ Taken im.target id name w w') := by
  obtain ⟨rfl, hz⟩ := Prod.mk.inj hk
  obtain ⟨hzT, hz⟩ := Prod.mk.inj hz
  obtain ⟨rfl, hzp⟩ := Prod.mk.inj hz
  unfold Importer.place
  rw [exec_bind, exec_attempt, Act.exec_store]
  dsimp only [StoreCall.step]
  rcases w.store.createZone_cases (w.times w.ticks) z with ⟨⟨y, hy, hc⟩, h⟩ | ⟨zones, z',
    hi, hk', h⟩ <;>
    rw [h]
  · refine ⟨_, _, rfl, .inl ⟨⟨y, hy, ?_⟩, rfl, rfl⟩⟩
    simp only [Keyed.clash, Bool.or_eq_true, beq_iff_eq, hzp] at hc
    tauto
  · have hl' : w.pdns.zone z.pdnsID = some live := by rw [hzp]; exact hl
    obtain ⟨pdns, he, ha⟩ :=
      exec_relabel (C := C) im (w := { w with store := { w.store with zones } }) hT hl'
    dsimp only
    rw [exec_bind_ok he]
    refine ⟨_, _, rfl, .inr ⟨?_, ?_, ?_⟩⟩
    · rintro ⟨y, hy, hc⟩
      have := Table.noClash_of_insert hi hy
      rw [← hzp] at hk
      simp only [Store.Zone.keys, Prod.mk.injEq] at hk'
      simp only [Keyed.clash, Bool.or_eq_false_iff, beq_eq_false_iff_ne, hk', hzp] at this
      tauto
    · simp only [Table.insert_rows hi, map_append, map_cons, map_nil, hk', hk]
    · intro p
      rw [← hzp]
      exact ha p

theorem exec_link (res : Result) (hT : im.target ≠ [])
    (hl : w.pdns.zone row.name = some live) :
    ∃ res' w', exec (handler C.env.cases) (im.link C res row live) w = (.ok res', w') ∧
      (Clashes w row.id row.name ∧ Kept w w' ∨
        ¬ Clashes w row.id row.name ∧ Taken im.target row.id row.name w w') := by
  have hid : (if live.id = [] then row.name else live.id) = row.name := by
    rw [(PDNS.Server.zone_eq_some.1 hl).2, ite_self]
  unfold Importer.link
  obtain ⟨t', w₁, ht, ticks, rfl⟩ := exec_nowIf (C := C) (w := w) (im.linked C row live).createdAt
  rw [exec_bind_ok ht, exec_bind_ok Act.exec_now]
  obtain ⟨tid, htid⟩ := exec_keepTemplate (C := C) im (im.linked C row live).templateID
  rw [exec_bind_ok htid]
  have hk : ({ im.linked C row live with
      templateID := tid, createdAt := t', updatedAt := w.times ticks } : Store.Zone).keys =
      (row.id, im.target, row.name, row.name) := by
        simp only [Store.Zone.keys, Importer.linked, hid]
  obtain ⟨res', w', he, h⟩ :=
    exec_place (C := C) im res (w := { w with ticks := ticks + 1 }) hT hl hk
  exact ⟨res', w', he, h.imp (And.imp_right fun h => ⟨h.1, h.2⟩)
    (And.imp_right fun h => ⟨h.1, h.2⟩)⟩

def Takes (C : Config) (im : Importer) (onServer : List Str) (row : ZoneRow) (w : World) : Prop :=
  Free C.env.cases im.target row.name onServer w ∧
    (∀ y ∈ w.store.zones, y.id ≠ row.id) ∧
    ∃ a, w.pdns.account row.name = some a ∧ im.ownAccount a = true

theorem Free.not_clashes (hn : toLower C.env.cases name = name)
    (h : Free C.env.cases T name onServer w) (hid : ∀ y ∈ w.store.zones, y.id ≠ id) :
    ¬ Clashes w id name := by
  rintro ⟨y, hy, hc | hc | hc⟩
  · exact hid y hy hc
  · by_cases hT : y.tenantID = T
    · exact h.mine y hy hT hc
    · have := Store.zoneConflict_eq_false.1 h.apart y hy hT
      rw [hn] at this
      exact this (.inl hc.symm)
  · exact h.unlinked y hy hc

theorem exec_newZone (hT : im.target ≠ []) (hn : toLower C.env.cases row.name = row.name)
    (hmine : ∀ y ∈ w.store.zones, y.tenantID = im.target → y.name ≠ row.name) :
    ∃ res' w', exec (handler C.env.cases) (im.newZone C res row onServer) w = (.ok res', w') ∧
      (Takes C im onServer row w ∧ Taken im.target row.id row.name w w' ∨
        ¬ Takes C im onServer row w ∧ Kept w w') := by
  unfold Importer.newZone
  by_cases hon : row.name ∈ onServer
  swap
  · rw [if_pos hon]
    exact ⟨_, _, rfl, .inr ⟨fun h => hon h.1.listed, rfl, rfl⟩⟩
  rw [if_neg (not_not.2 hon), exec_bind, Act.exec_store]
  dsimp only [StoreCall.step]
  cases hc : w.store.zoneConflict C.env.cases im.target row.name with
  | true => exact ⟨_, _, rfl, .inr ⟨fun h => by simp [h.1.apart] at hc, rfl, rfl⟩⟩
  | false =>
    rw [if_neg Bool.false_ne_true, exec_bind, exec_attempt, Act.exec_pdns]
    dsimp only [PDNSCall.step, PDNS.Server.getZone]
    cases hl : w.pdns.zone row.name with
    | none =>
      refine ⟨_, _, rfl, .inr ⟨fun ⟨_, _, a, ha, _⟩ => ?_, rfl, rfl⟩⟩
      rw [PDNS.Server.account, hl] at ha
      cases ha
    | some live =>
      have ha : w.pdns.account row.name = some live.account := by rw [PDNS.Server.account, hl]; rfl
      dsimp only [Except.mapError]
      by_cases hown : im.ownAccount live.account = true
      · rw [hown, Bool.not_true, if_neg Bool.false_ne_true]
        obtain ⟨res', w', he, h⟩ := exec_link (C := C) res hT hl
        refine ⟨res', w', he, h.symm.imp (And.imp_left fun h => ?_) (And.imp_left fun hcl h => ?_)⟩
        · refine ⟨⟨hmine, hon, hc, fun y hy hyp => h ⟨y, hy, .inr (.inr hyp)⟩⟩,
            fun y hy hid => h ⟨y, hy, .inl hid⟩, _, ha, hown⟩
        · exact h.1.not_clashes hn h.2.1 hcl
      · rw [Bool.not_eq_true] at hown
        rw [hown]
        refine ⟨_, _, rfl, .inr ⟨fun ⟨_, _, a, ha', hown'⟩ => ?_, rfl, rfl⟩⟩
        cases ha.symm.trans ha'
        rw [hown] at hown'
        cases hown'

theorem exec_zone (onServer : List Str) (res : Result) (w : World) (hT : im.target ≠ [])
    (hn : toLower C.env.cases row.name = row.name) :
    ∃ res' w', exec (handler C.env.cases) (im.zone C onServer res row) w = (.ok res', w') ∧
      (Takes C im onServer row w ∧ Taken im.target row.id row.name w w' ∨
        ¬ Takes C im onServer row w ∧ Kept w w') := by
  unfold Importer.zone
  rw [exec_bind, exec_attempt, Act.exec_store]
  dsimp only [StoreCall.step]
  cases hg : w.store.getZoneByName im.target row.name with
  | ok z =>
    obtain ⟨hz, hzT, hzn⟩ := Store.getZoneByName_eq_ok.1 hg
    have hno : ¬ Takes C im onServer row w := fun h => h.1.mine z hz hzT hzn
    dsimp only
    cases im.overwrite with
    | false => exact ⟨_, _, rfl, .inr ⟨hno, rfl, rfl⟩⟩
    | true =>
      rw [Bool.not_true, if_neg Bool.false_ne_true, exec_bind_ok Act.exec_now, exec_bind,
        Act.exec_store]
      dsimp only [StoreCall.step]
      generalize hu : ({ z with description := row.description, updatedAt := _ } : Store.Zone) = z'
      have hkey : w.store.zone z'.tenantID z'.id = some z := by
        rw [← hu]
        exact Store.zone_eq_some.2 ⟨hz, rfl, rfl⟩
      rcases w.store.updateZone_cases (w.times (w.ticks + 1)) z' with
        ⟨hnone, -⟩ | ⟨cur, zones, h, -, -, -, f, hf, hk, -⟩
      · rw [hkey] at hnone
        cases hnone
      · rw [h]
        refine ⟨_, _, rfl, .inr ⟨hno, ?_, rfl⟩⟩
        simp only [hf, map_map]
        exact map_congr_left fun c _ => hk c
  | error e =>
    obtain ⟨rfl, hmine⟩ := Store.getZoneByName_eq_error hg
    exact exec_newZone hT hn hmine

/-! ## The zones of a document -/

def keysOf (w : World) : List (Str × Str × Str × Str) := w.store.zones.rows.map Store.Zone.keys

theorem mem_keysOf {k : Str × Str × Str × Str} : k ∈ keysOf w ↔ ∃ y ∈ w.store.zones, y.keys = k :=
  List.mem_map

theorem exec_each {step : Result → α → Act Result} {I : World → Prop} {as : List α}
    (hstep : ∀ a ∈ as, ∀ res w, I w →
      ∃ res' w', exec (handler C.env.cases) (step res a) w = (.ok res', w') ∧ I w') :
    ∀ res w, I w →
      ∃ res' w', exec (handler C.env.cases) (Importer.each step res as) w = (.ok res', w') ∧
        I w' := by
  induction as with
  | nil => exact fun res w hI => ⟨res, w, rfl, hI⟩
  | cons a as ih =>
    intro res w hI
    obtain ⟨res₁, w₁, h₁, hI₁⟩ := hstep a (mem_cons_self ..) res w hI
    obtain ⟨res₂, w₂, h₂, hI₂⟩ := ih (fun b hb => hstep b (mem_cons_of_mem _ hb)) res₁ w₁ hI₁
    exact ⟨res₂, w₂, by rw [Importer.each, exec_bind_ok h₁, h₂], hI₂⟩

theorem Free.anti (h : Free U T name onServer w')
    (hk : ∀ k ∈ keysOf w, k ∈ keysOf w') : Free U T name onServer w := by
  have hrow {y : Store.Zone} (hy : y ∈ w.store.zones) : ∃ y' ∈ w'.store.zones, y'.keys = y.keys :=
    mem_keysOf.1 (hk _ (mem_keysOf.2 ⟨y, hy, rfl⟩))
  refine ⟨fun y hy hT => ?_, h.listed, Store.zoneConflict_eq_false.2 fun y hy hT => ?_,
    fun y hy => ?_⟩ <;>
    obtain ⟨y', hy', hk'⟩ := hrow hy <;> simp only [Store.Zone.keys, Prod.mk.injEq] at hk'
  · rw [← hk'.2.2.1]
    exact h.mine y' hy' (hk'.2.1.trans hT)
  · rw [← hk'.2.2.1]
    exact Store.zoneConflict_eq_false.1 h.apart y' hy' (hk'.2.1 ▸ hT)
  · rw [← hk'.2.2.2]
    exact h.unlinked y' hy'

/-- What the zones of a document may do, from the state before them on: rows are added for PowerDNS
    zones without account or of the target's, and accounts are set where there was none. -/
structure Sound (T : Str) (w₀ w : World) : Prop where
  grows : ∀ k ∈ keysOf w₀, k ∈ keysOf w
  rows : ∀ k ∈ keysOf w, k ∈ keysOf w₀ ∨
    ∀ a, w₀.pdns.account k.2.2.2 = some a → a = [] ∨ a = T
  accounts : ∀ p, w.pdns.account p = w₀.pdns.account p ∨
    w₀.pdns.account p = some [] ∧ w.pdns.account p = some T

theorem Sound.refl (w : World) : Sound T w w := ⟨fun _ h => h, fun _ h => .inl h, fun _ => .inl rfl⟩

theorem Sound.kept (h : Sound T w₀ w) (hk : Kept w w') : Sound T w₀ w' := by
  have hkeys : keysOf w' = keysOf w := hk.keys
  exact ⟨by rw [hkeys]; exact h.grows, by rw [hkeys]; exact h.rows,
    by rw [hk.pdns]; exact h.accounts⟩

theorem Sound.taken {a : Str} (h : Sound T w₀ w) (ht : Taken T id name w w')
    (ha : w.pdns.account name = some a)
    (hown : ∀ b, w₀.pdns.account name = some b → b = [] ∨ b = T) :
    Sound T w₀ w' := by
  have hkeys : keysOf w' = keysOf w ++ [(id, T, name, name)] := ht.keys
  refine ⟨fun k hk => ?_, fun k hk => ?_, fun p => ?_⟩
  · rw [hkeys]
    exact mem_append_left _ (h.grows k hk)
  · rw [hkeys, mem_append, mem_singleton] at hk
    rcases hk with hk | rfl
    exacts [h.rows k hk, .inr hown]
  · rw [ht.account]
    split_ifs with hp
    · subst hp
      -- the zone was there before, and its account was none or the target
      cases h₀ : w₀.pdns.account p with
      | none => rcases h.accounts p with h' | ⟨h', -⟩ <;> rw [h₀] at h' <;> simp [ha] at h'
      | some b => rcases hown b h₀ with rfl | rfl <;> simp
    · exact h.accounts p

/-- The document's zones are sound, unless the document comes from another tenant and one of them
    is a zone of that tenant's account that could be linked. -/
theorem exec_zones_sound (hT : im.target ≠ [])
    (hn : ∀ row ∈ rows, toLower C.env.cases row.name = row.name)
    (hno : ∀ row ∈ rows, im.origin ≠ [] → im.origin ≠ im.target →
      Free C.env.cases im.target row.name onServer w₀ → w₀.pdns.account row.name ≠ some im.origin)
    (res : Result) :
    ∃ res' w', exec (handler C.env.cases) (Importer.each (im.zone C onServer) res rows) w₀ =
      (.ok res', w') ∧ Sound im.target w₀ w' := by
  refine exec_each (I := Sound im.target w₀) (fun row hrow res w hI => ?_) res w₀ (Sound.refl w₀)
  obtain ⟨res', w', he, ⟨⟨hf, -, a, ha, hown⟩, ht⟩ | ⟨-, hk⟩⟩ :=
    exec_zone (C := C) onServer res w hT (hn row hrow)
  · refine ⟨res', w', he, hI.taken ht ha fun b hb => ?_⟩
    have hab : b = a ∨ b = [] := by
      rcases hI.accounts row.name with h | ⟨h, -⟩ <;> rw [hb] at h
      · exact .inl (Option.some.inj (h.symm.trans ha))
      · exact .inr (Option.some.inj h)
    rcases hab with rfl | rfl
    · simp only [Importer.ownAccount, Bool.or_eq_true, Bool.and_eq_true, beq_iff_eq,
        bne_iff_ne] at hown
      by_contra hb'
      push Not at hb'
      obtain ⟨ho, rfl⟩ : im.origin ≠ [] ∧ b = im.origin := by tauto
      exact hno row hrow ho hb'.2 (hf.anti hI.grows) hb
    · exact .inl rfl
  · exact ⟨res', w', he, hI.kept hk⟩

theorem Kept.keysOf_eq (h : Kept w w') : keysOf w' = keysOf w := h.keys

theorem Taken.keysOf_eq (h : Taken T id name w w') :
    keysOf w' = keysOf w ++ [(id, T, name, name)] := h.keys

theorem exec_zones_grows (onServer : List Str) {k : Str × Str × Str × Str}
    (hT : im.target ≠ []) (hn : ∀ row ∈ rows, toLower C.env.cases row.name = row.name)
    (res : Result) (hk : k ∈ keysOf w) :
    ∃ res' w', exec (handler C.env.cases) (Importer.each (im.zone C onServer) res rows) w =
      (.ok res', w') ∧ k ∈ keysOf w' := by
  refine exec_each (I := fun w => k ∈ keysOf w) (fun row hrow res w hk => ?_) res w hk
  obtain ⟨res', w', he, ⟨-, ht⟩ | ⟨-, h⟩⟩ :=
    exec_zone (C := C) onServer res w hT (hn row hrow)
  · exact ⟨res', w', he, by rw [ht.keysOf_eq]; exact mem_append_left _ hk⟩
  · exact ⟨res', w', he, by rwa [h.keysOf_eq]⟩

theorem Free.taken (h : Free U T n onServer w) (hne : name ≠ n)
    (ht : Taken T id name w w') : Free U T n onServer w' := by
  have hrow {y : Store.Zone} (hy : y ∈ w'.store.zones) :
      (∃ y' ∈ w.store.zones, y'.keys = y.keys) ∨ y.keys = (id, T, name, name) := by
    have : y.keys ∈ keysOf w' := mem_keysOf.2 ⟨y, hy, rfl⟩
    rw [ht.keysOf_eq, mem_append, mem_singleton] at this
    exact this.imp_left mem_keysOf.1
  refine ⟨fun y hy hT => ?_, h.listed, Store.zoneConflict_eq_false.2 fun y hy hT => ?_,
    fun y hy => ?_⟩ <;>
    rcases hrow hy with ⟨y', hy', hk⟩ | hk <;> simp only [Store.Zone.keys, Prod.mk.injEq] at hk
  · rw [← hk.2.2.1]
    exact h.mine y' hy' (hk.2.1.trans hT)
  · rwa [hk.2.2.1]
  · rw [← hk.2.2.1]
    exact Store.zoneConflict_eq_false.1 h.apart y' hy' (hk.2.1 ▸ hT)
  · exact absurd hk.2.1 hT
  · rw [← hk.2.2.2]
    exact h.unlinked y' hy'
  · rwa [hk.2.2.2]

/-- A zone of the document whose name is free and whose account the target may take over is linked,
    if the ids of the document are new. -/
theorem exec_zones_takes (onServer : List Str) {a : Str} (hT : im.target ≠ [])
    (hown : im.ownAccount a = true) :
    ∀ (w : World) (res : Result), (∀ row ∈ rows, toLower C.env.cases row.name = row.name) →
      (rows.map ZoneRow.id).Nodup → (∀ y ∈ w.store.zones, y.id ∉ rows.map ZoneRow.id) →
      Free C.env.cases im.target n onServer w → w.pdns.account n = some a →
      n ∈ rows.map ZoneRow.name →
      ∃ res' w', exec (handler C.env.cases) (Importer.each (im.zone C onServer) res rows) w =
        (.ok res', w') ∧ ∃ id ∈ rows.map ZoneRow.id, (id, im.target, n, n) ∈ keysOf w' := by
  induction rows with
  | nil => exact fun w res _ _ _ _ _ h => by cases h
  | cons row rows ih =>
    intro w res hn hid hnew hf ha hmem
    have hn' := fun r hr => hn r (mem_cons_of_mem _ hr)
    rw [map_cons, nodup_cons] at hid
    obtain ⟨res₁, w₁, h₁, hw₁⟩ := exec_zone (C := C) onServer res w hT (hn row (mem_cons_self ..))
    have hstep (res' : Result) (w' : World)
        (h : exec (handler C.env.cases) (Importer.each (im.zone C onServer) res₁ rows)
          w₁ = (.ok res', w')) :
        exec (handler C.env.cases) (Importer.each (im.zone C onServer) res (row :: rows)) w =
          (.ok res', w') := by rw [Importer.each, exec_bind_ok h₁, h]
    by_cases hrow : row.name = n
    · -- the zone is reached: it is taken here, and its row stays
      subst hrow
      have htakes : Takes C im onServer row w :=
        ⟨hf, fun y hy he => hnew y hy (by simp [he]), a, ha, hown⟩
      have ht := (hw₁.resolve_right fun h => h.1 htakes).2
      obtain ⟨res', w', h', hk⟩ := exec_zones_grows (C := C) onServer hT hn'
        res₁ (k := (row.id, im.target, row.name, row.name)) (w := w₁) (by rw [ht.keysOf_eq]; simp)
      exact ⟨res', w', hstep res' w' h', row.id, by simp, hk⟩
    · have hmem' : n ∈ rows.map ZoneRow.name :=
        (mem_cons.1 hmem).resolve_left fun h => hrow h.symm
      -- the name stays free, and the remaining ids stay new
      have hnext : Free C.env.cases im.target n onServer w₁ ∧ w₁.pdns.account n = some a ∧
          ∀ y ∈ w₁.store.zones, y.id ∉ rows.map ZoneRow.id := by
        rcases hw₁ with ⟨-, ht⟩ | ⟨-, hk⟩
        · refine ⟨hf.taken hrow ht, by rw [ht.account, if_neg (Ne.symm hrow), ha],
            fun y hy hyid => ?_⟩
          have : y.keys ∈ keysOf w₁ := mem_keysOf.2 ⟨y, hy, rfl⟩
          rw [ht.keysOf_eq, mem_append, mem_singleton] at this
          rcases this with h | h
          · obtain ⟨y', hy', hk'⟩ := mem_keysOf.1 h
            have : y'.id = y.id := congrArg Prod.fst hk'
            exact hnew y' hy' (this ▸ mem_cons_of_mem _ hyid)
          · have : y.id = row.id := congrArg Prod.fst h
            exact hid.1 (this ▸ hyid)
        · refine ⟨hf.anti (by rw [hk.keysOf_eq]; exact fun _ h => h), by rw [hk.pdns, ha],
            fun y hy hyid => ?_⟩
          have : y.keys ∈ keysOf w₁ := mem_keysOf.2 ⟨y, hy, rfl⟩
          rw [hk.keysOf_eq] at this
          obtain ⟨y', hy', hk'⟩ := mem_keysOf.1 this
          have : y'.id = y.id := congrArg Prod.fst hk'
          exact hnew y' hy' (this ▸ mem_cons_of_mem _ hyid)
      obtain ⟨res', w', h', id, hid', hk⟩ := ih w₁ res₁ hn' hid.2 hnext.2.2 hnext.1 hnext.2.1 hmem'
      exact ⟨res', w', hstep res' w' h', id, mem_cons_of_mem _ hid', hk⟩

/-! ## The rest of a document -/

def ZonesKept (w w' : World) : Prop := w'.store.zones = w.store.zones ∧ w'.pdns = w.pdns

theorem exec_wrote (res : Result) {r : Except Err α} (c : Collection)
    (hr : ∀ e, r = .error e → e = .repoNotFound ∨ e = .repoConflict) :
    ∃ res', exec (handler C.env.cases) (Importer.wrote c res r) w = (.ok res', w) := by
  cases r with
  | ok a => exact ⟨_, rfl⟩
  | error e => rcases hr e rfl with rfl | rfl <;> exact ⟨_, rfl⟩

theorem updateTemplate_error {S : Store} {now : ℕ} {t : Store.Template} {e : Err}
    (h : (S.updateTemplate U now t).1 = .error e) : e = .repoNotFound ∨ e = .repoConflict := by
  unfold Store.updateTemplate at h
  split at h
  · exact .inl (Except.error.inj h).symm
  · split_ifs at h
    exact .inr (Except.error.inj h).symm

theorem createTemplate_error {S : Store} {now : ℕ} {t : Store.Template} {e : Err}
    (h : (S.createTemplate U now t).1 = .error e) : e = .repoNotFound ∨ e = .repoConflict := by
  unfold Store.createTemplate at h
  dsimp only at h
  split_ifs at h
  · exact .inr (Except.error.inj h).symm
  · split at h <;> cases h
    exact .inr rfl

theorem exec_template (im : Importer) (res : Result) (t : Store.Template) (w : World) :
    ∃ res' w', exec (handler C.env.cases) (im.template res t) w = (.ok res', w') ∧
      ZonesKept w w' := by
  unfold Importer.template
  rw [exec_bind, exec_attempt, Act.exec_store]
  dsimp only [StoreCall.step, Store.getTemplate]
  cases w.store.template im.target t.id with
  | some cur =>
    dsimp only
    cases im.overwrite with
    | false => exact ⟨_, _, rfl, rfl, rfl⟩
    | true =>
      rw [Bool.not_true, if_neg Bool.false_ne_true, exec_bind_ok Act.exec_now, exec_bind,
        exec_attempt,
        Act.exec_store]
      obtain ⟨res', h⟩ := exec_wrote (C := C) res .templates fun e he => updateTemplate_error he
      exact ⟨res', _, h, (StoreCall.step_frame _ _ _ (.updateTemplate _)).1 rfl, rfl⟩
  | none =>
    dsimp only
    rw [if_neg (by decide)]
    obtain ⟨t', w₁, ht, ticks, rfl⟩ := exec_nowIf (C := C) (w := w) t.createdAt
    rw [exec_bind_ok ht, exec_bind_ok Act.exec_now, exec_bind, exec_attempt, Act.exec_store]
    obtain ⟨res', h⟩ := exec_wrote (C := C) res .templates fun e he => createTemplate_error he
    exact ⟨res', _, h, (StoreCall.step_frame _ _ _ (.createTemplate _)).1 rfl, rfl⟩

theorem exec_templates (im : Importer) (res : Result) (ts : List Store.Template) (w : World) :
    ∃ res' w', exec (handler C.env.cases) (Importer.each im.template res ts) w = (.ok res', w') ∧
      ZonesKept w w' := by
  refine exec_each (I := ZonesKept w) (fun t _ res w₁ hI => ?_) res w ⟨rfl, rfl⟩
  obtain ⟨res', w₂, h, hz, hp⟩ := exec_template (C := C) im res t w₁
  exact ⟨res', w₂, h, hz.trans hI.1, hp.trans hI.2⟩

theorem exec_freshIDs (set : Str → α → α) (as : List α) (w : World) :
    exec (handler C.env.cases) (freshIDs set as) w =
      (.ok (as.mapIdx fun i a => set (w.ids (w.minted + i)) a),
        { w with minted := w.minted + as.length }) := by
  induction as generalizing w with
  | nil => rfl
  | cons a as ih =>
    rw [freshIDs, exec_bind_ok Act.exec_newID, exec_bind_ok (ih _)]
    simp only [exec_pure, mapIdx_cons, length_cons, Nat.add_zero, Nat.add_assoc,
      Nat.add_comm 1]

/-- The ids to come are pairwise distinct and no id of a zone row. -/
structure FreshIDs (w : World) : Prop where
  distinct : ∀ i j, w.minted ≤ i → w.minted ≤ j → w.ids i = w.ids j → i = j
  unused : ∀ y ∈ w.store.zones, ∀ i, w.minted ≤ i → y.id ≠ w.ids i

theorem exec_remap (b : Document) (hw : FreshIDs w) :
    ∃ b' w', exec (handler C.env.cases) (remap b) w = (.ok b', w') ∧ ZonesKept w w' ∧
      b'.zones.map ZoneRow.name = b.zones.map ZoneRow.name ∧ (b'.zones.map ZoneRow.id).Nodup ∧
      ∀ y ∈ w.store.zones, y.id ∉ b'.zones.map ZoneRow.id := by
  unfold remap
  rw [exec_bind_ok (exec_freshIDs _ _ _), exec_bind_ok (exec_freshIDs _ _ _),
    exec_bind_ok (exec_freshIDs _ _ _)]
  dsimp only
  refine ⟨_, _, rfl, ⟨rfl, rfl⟩, ext_getElem (by simp) (by intros; simp), ?_⟩
  generalize hz : b.zones.mapIdx _ = zones
  have hids : zones.map ZoneRow.id =
      (List.range b.zones.length).map fun i => w.ids (w.minted + b.templates.length + i) := by
    rw [← hz]
    exact ext_getElem (by simp) (by intros; simp)
  rw [hids]
  refine ⟨List.Nodup.map_on (fun i _ j _ h => ?_) nodup_range, fun y hy hid => ?_⟩
  · have := hw.distinct _ _ (by omega) (by omega) h
    omega
  · obtain ⟨i, -, hi⟩ := List.mem_map.1 hid
    exact hw.unused y hy _ (by omega) hi.symm

/-! ## Accounts of other tenants -/

theorem ZonesKept.keysOf_eq (h : ZonesKept w w') :
    keysOf w' = keysOf w := by rw [keysOf, h.1, keysOf]

theorem ZonesKept.free (h : ZonesKept w w') (hf : Free U T n onServer w) :
    Free U T n onServer w' :=
  hf.anti (by rw [h.keysOf_eq]; exact fun _ h => h)

def serverNames (C : Config) (w : World) : List Str :=
  w.pdns.listZoneNames.map (toLower C.env.cases)

theorem exec_importZones (rows : List ZoneRow) (res : Result) (w : World) :
    exec (handler C.env.cases) (im.zones C res rows) w =
      exec (handler C.env.cases) (Importer.each (im.zone C (serverNames C w)) res rows) w := by
  unfold Importer.zones
  split_ifs with h
  · rw [h]
    rfl
  · rw [exec_bind, Act.exec_pdns]
    rfl

theorem exec_run (hadmin : im.subj.isPlatformAdmin = false) (res : Result) (b : Document)
    (w : World) :
    ∃ res₁ w₁, ZonesKept w w₁ ∧ ∀ res₂ w₂,
      exec (handler C.env.cases) (Importer.each (im.zone C (serverNames C w)) res₁ b.zones) w₁ =
        (.ok res₂, w₂) → (exec (handler C.env.cases) (im.run C res b false) w).2 = w₂ := by
  obtain ⟨res₁, w₁, h₁, hs⟩ := exec_templates (C := C) im res b.templates w
  refine ⟨res₁, w₁, hs, fun res₂ w₂ h₂ => ?_⟩
  have hserver : serverNames C w₁ = serverNames C w := by rw [serverNames, hs.2, serverNames]
  have hwipe : exec (handler C.env.cases) (im.wipeTemplates false) w = (.ok (), w) := rfl
  rw [Importer.run, exec_bind_ok hwipe, exec_bind_ok h₁, exec_bind, exec_importZones, hserver, h₂]
  dsimp only
  unfold Importer.supermasters
  rw [hadmin, Bool.not_false, if_pos rfl]
  split_ifs <;> rfl

/-- New rows are of PowerDNS zones without account or of the tenant's, and the accounts of other
    zones are as they were. -/
structure RespectsAccounts (T : Str) (w w' : World) : Prop where
  rows : ∀ z ∈ w'.store.zones, (∀ y ∈ w.store.zones, y.id ≠ z.id) →
    ∀ a, w.pdns.account z.pdnsID = some a → a = [] ∨ a = T
  accounts : ∀ p a, w.pdns.account p = some a → a ≠ [] → a ≠ T → w'.pdns.account p = some a

theorem Sound.respects (h : Sound T w₀ w') (hs : ZonesKept w w₀) :
    RespectsAccounts T w w' := by
  refine ⟨fun z hz hnew a ha => ?_, fun p a ha hne hT => ?_⟩
  · rw [← hs.2] at ha
    refine (h.rows z.keys (mem_keysOf.2 ⟨z, hz, rfl⟩)).elim (fun hk => ?_) fun hk => hk a ha
    rw [hs.keysOf_eq] at hk
    obtain ⟨y, hy, hyk⟩ := mem_keysOf.1 hk
    exact absurd (congrArg Prod.fst hyk) (hnew y hy)
  · rw [← hs.2] at ha
    rcases h.accounts p with h' | ⟨h', -⟩
    · rw [h', ha]
    · exact absurd (Option.some.inj (ha.symm.trans h')) hne

/-- The document says it comes from another tenant and has a zone of that tenant's account that
    nobody has a row for, and the caller may import it into its own tenant. -/
def Claims (C : Config) (subj : Subjects) (b : Document) (opts : Options) (w : World) : Prop :=
  Zones.guard C subj .backupManage = .ok () ∧ (opts.tenantID = [] ∨ opts.tenantID = subj.tenantID) ∧
    opts.full = false ∧ b.tenantID ≠ [] ∧ b.tenantID ≠ subj.tenantID ∧
    ∃ row ∈ b.zones, Free C.env.cases subj.tenantID row.name (serverNames C w) w ∧
      w.pdns.account row.name = some b.tenantID

theorem guard_tenant {subj : Subjects} {perm : Permission} (h : Zones.guard C subj perm = .ok ()) :
    subj.tenantID ≠ [] := by
  rintro he
  rw [Zones.guard, if_pos he] at h
  cases h

theorem target_of_not_admin {subj : Subjects} (hadmin : subj.isPlatformAdmin = false) (t : Str) :
    (Zones.guard C subj .backupManage = .ok () ∧ (t = [] ∨ t = subj.tenantID)) ∧
        target C subj t = .ok subj.tenantID ∨
      ¬ (Zones.guard C subj .backupManage = .ok () ∧ (t = [] ∨ t = subj.tenantID)) ∧
        ∃ e, target C subj t = .error e := by
  unfold target
  cases hg : Zones.guard C subj .backupManage with
  | error e => exact .inr ⟨by simp, e, rfl⟩
  | ok u =>
    by_cases ht : t = [] ∨ t = subj.tenantID
    · exact .inl ⟨⟨rfl, ht⟩, if_pos ht⟩
    · refine .inr ⟨fun h => ht h.2, .forbidden .platformAdmin, ?_⟩
      change (if t = [] ∨ t = subj.tenantID then _ else _) = _
      rw [if_neg ht, Authz.requirePlatformAdmin, hadmin]
      rfl

theorem checkAll_eq_ok {check : α → Except Err Unit} {as : List α} :
    checkAll check as = .ok () ↔ ∀ a ∈ as, check a = .ok () := by
  induction as with
  | nil => simp [checkAll]
  | cons a as ih =>
    rw [checkAll, Except.bind_eq_ok, forall_mem_cons, ← ih]
    constructor
    · rintro ⟨⟨⟩, h, h'⟩
      exact ⟨h, h'⟩
    · exact fun ⟨h, h'⟩ => ⟨(), h, h'⟩

theorem checkZone_name {row : ZoneRow} (h : checkZone C row = .ok ()) :
    Validate.zoneName C.env row.name = .ok row.name := by
  unfold checkZone at h
  split_ifs at h with h1 h2
  cases hz : Validate.zoneName C.env row.name with
  | error e => simp [hz, Except.toOption] at h2
  | ok n => simpa [hz, Except.toOption] using h2

theorem validate_zoneNames {b : Document} (h : validate C b = .ok ()) :
    ∀ row ∈ b.zones, toLower C.env.cases row.name = row.name := by
  unfold validate at h
  split_ifs at h
  obtain ⟨⟨⟩, hz, -⟩ := Except.bind_eq_ok.1 h
  exact fun row hrow =>
    (Validate.zoneName_spec (checkZone_name (checkAll_eq_ok.1 hz row hrow))).toLower_eq

theorem exec_remapIf (b : Document) (T : Str) (hw : FreshIDs w) :
    ∃ b' w', exec (handler C.env.cases) (if b.tenantID ≠ T then remap b else pure b)
      w = (.ok b', w') ∧
      ZonesKept w w' ∧ b'.zones.map ZoneRow.name = b.zones.map ZoneRow.name ∧
      (b.tenantID ≠ T → (b'.zones.map ZoneRow.id).Nodup ∧
        ∀ y ∈ w.store.zones, y.id ∉ b'.zones.map ZoneRow.id) := by
  by_cases h : b.tenantID = T
  · exact ⟨b, w, by rw [if_neg (not_not.2 h)]; rfl, ⟨rfl, rfl⟩, rfl, fun h' => absurd h h'⟩
  · obtain ⟨b', w', he, hs, hn, hid⟩ := exec_remap (C := C) b hw
    exact ⟨b', w', by rw [if_pos h, he], hs, hn, fun _ => hid⟩

/-- **An import of a caller who is no platform administrator respects the accounts of other tenants,
    unless its document claims one of them.** -/
theorem import_respects_iff (C : Config) (subj : Subjects) (hadmin : subj.isPlatformAdmin = false)
    (b : Document) (hb : validate C b = .ok ()) (opts : Options) (w : World) (hw : FreshIDs w) :
    RespectsAccounts subj.tenantID w (exec (handler C.env.cases) («import» C subj b opts) w).2 ↔
      ¬ Claims C subj b opts w := by
  have hrefl : RespectsAccounts subj.tenantID w w := (Sound.refl w).respects ⟨rfl, rfl⟩
  unfold «import»
  rcases target_of_not_admin (C := C) hadmin opts.tenantID with ⟨hok, ht⟩ | ⟨hno, e, ht⟩
  swap
  · rw [ht, exec_bind_error (exec_ofExcept _)]
    exact iff_of_true hrefl fun h => hno ⟨h.1, h.2.1⟩
  rw [ht, exec_bind_ok (exec_ofExcept _)]
  cases hfull : opts.full with
  | true =>
    rw [if_pos rfl, Authz.requirePlatformAdmin, hadmin, if_neg Bool.false_ne_true,
      exec_bind_error (exec_ofExcept _)]
    exact iff_of_true hrefl fun h => by simp [h.2.2.1] at hfull
  | false =>
    rw [if_neg Bool.false_ne_true, exec_bind_ok (exec_ofExcept _), hb,
      exec_bind_ok (exec_ofExcept _)]
    obtain ⟨b', w₁, h₁, hs₁, hnames, hids⟩ := exec_remapIf (C := C) b subj.tenantID hw
    rw [exec_bind_ok h₁]
    generalize him : (⟨subj, subj.tenantID, b.tenantID, opts.mode == str "overwrite"⟩ : Importer) =
      im
    have hT : im.target ≠ [] := by
      rw [← him]
      exact guard_tenant hok.1
    have hadmin' : im.subj.isPlatformAdmin = false := by
      rw [← him]
      exact hadmin
    obtain ⟨res₂, w₂, hs₂, hrun⟩ := exec_run (C := C) hadmin' _ b' w₁
    have hs : ZonesKept w w₂ := ⟨hs₂.1.trans hs₁.1, hs₂.2.trans hs₁.2⟩
    have hserver : serverNames C w₁ = serverNames C w := by rw [serverNames, hs₁.2, serverNames]
    have hn' : ∀ row ∈ b'.zones, ∃ row' ∈ b.zones, row'.name = row.name := fun row hrow =>
      List.mem_map.1 (hnames ▸ mem_map_of_mem hrow)
    have hlow : ∀ row ∈ b'.zones, toLower C.env.cases row.name = row.name := fun row hrow => by
      obtain ⟨row', hrow', hr⟩ := hn' row hrow
      rw [← hr]
      exact validate_zoneNames hb row' hrow'
    rw [hserver] at hrun
    constructor
    · -- a claimed zone is taken
      rintro hresp ⟨-, -, -, hne, hneT, row, hrow, hf, ha⟩
      obtain ⟨hnd, hnew⟩ := hids hneT
      have hown : im.ownAccount b.tenantID = true := by
        rw [← him]
        simp [Importer.ownAccount, hne]
      obtain ⟨res₃, w₃, h₃, id, hid, hk⟩ := exec_zones_takes (C := C) (serverNames C w)
        (n := row.name) hT hown w₂ res₂ hlow
        hnd (by rw [hs.1]; exact hnew) (by rw [← him]; exact hs.free hf) (by rw [hs.2, ha])
        (by rw [hnames]; exact mem_map_of_mem hrow)
      rw [hrun res₃ w₃ h₃] at hresp
      obtain ⟨z, hz, hzk⟩ := mem_keysOf.1 hk
      simp only [Store.Zone.keys, Prod.mk.injEq] at hzk
      have := hresp.rows z hz (fun y hy he => hnew y hy (by rw [he, hzk.1]; exact hid)) b.tenantID
        (by rw [hzk.2.2.2, ha])
      exact this.elim hne hneT
    · intro hno
      have hclaim : ∀ row ∈ b'.zones, im.origin ≠ [] → im.origin ≠ im.target →
          Free C.env.cases im.target row.name (serverNames C w) w₂ →
          w₂.pdns.account row.name ≠ some im.origin := by
        intro row hrow hne hneT hf ha
        obtain ⟨row', hrow', hr⟩ := hn' row hrow
        rw [← him] at hne hneT hf ha
        refine hno ⟨hok.1, hok.2, hfull, hne, hneT, row', hrow', ?_, ?_⟩
        · rw [hr]
          exact hf.anti (by rw [hs.keysOf_eq]; exact fun _ h => h)
        · rw [hr, ← hs.2, ha]
      obtain ⟨res₃, w₃, h₃, hsound⟩ := exec_zones_sound hT hlow hclaim res₂
      rw [hrun res₃ w₃ h₃]
      have := hsound.respects hs
      rwa [← him] at this

/-! ### A claimed zone -/

def thief : Str := str "00000000-0000-0000-0000-00000000000a"

def victim : Str := str "00000000-0000-0000-0000-00000000000b"

/-- A document with one zone that says which tenant it comes from. -/
def claimDocument (tenantID : Str) : Document :=
  ⟨1, 0, tenantID, [⟨str "00000000-0000-0000-0000-000000000001", [], str "victim.example.",
    str "native",
    [], false, [], [], [], [], [], 0, 0, []⟩], [], []⟩

/-- PowerDNS has the zone, with the victim's account; no tenant has a row for it. -/
def claimWorld : World := { World.empty with
  pdns :=
    ⟨⟨[⟨str "victim.example.", str "victim.example.", str "Native", 1, 0, [], false, [],
      victim, []⟩],
    by decide⟩, .empty⟩ }

def claimImport (tenantID : Str) : World :=
  (exec (handler .ascii)
    («import» .sample (.user thief (str "u") []) (claimDocument tenantID) ⟨[], [], false⟩)
      claimWorld).2

/-- With the victim's tenant id in the document, the zone gets a row of the thief's tenant and its
    PowerDNS account becomes the thief's. -/
theorem import_takes_claimed :
    validate .sample (claimDocument victim) = .ok () ∧
      (Subjects.user thief (str "u") []).isPlatformAdmin = false ∧
      (claimImport victim).store.zones.rows.map (fun z => (z.tenantID, z.pdnsID)) =
        [(thief, str "victim.example.")] ∧
      claimWorld.pdns.account (str "victim.example.") = some victim ∧
      (claimImport victim).pdns.account (str "victim.example.") = some thief ∧
      ¬ RespectsAccounts thief claimWorld (claimImport victim) := by
  refine ⟨by decide +kernel, by decide, by decide +kernel, by decide +kernel, by decide +kernel,
    fun h => ?_⟩
  have := h.accounts (str "victim.example.") victim (by decide +kernel) (by decide) (by decide)
  exact absurd this (by decide +kernel)

theorem claimWorld_freshIDs : FreshIDs claimWorld where
  distinct i j _ _ h := by simpa [claimWorld, World.empty] using congrArg List.length h
  unused y hy := by cases hy

/-- With the thief's own tenant id the zone is left alone. -/
theorem import_respects_own : RespectsAccounts thief claimWorld (claimImport thief) :=
  (import_respects_iff .sample (.user thief (str "u") []) (by decide) (claimDocument thief)
    (by decide +kernel) ⟨[], [], false⟩ claimWorld claimWorld_freshIDs).2 fun h => h.2.2.2.2.1 rfl

end Backup

end TangraDns
