/-
  Rows of reachable worlds: primaries that fit the kind, and exports that can be
  imported again.
-/
import TangraDns.Proof.Documents

namespace TangraDns

open Str Validate Prog Prog.Failing

variable {C : Config} {U : CaseTables} {M : Store.Kind → List Str → Prop} {w w' : World}

theorem Blank.no_zone (h : Blank w) {z : Store.Zone} : z ∉ w.store.zones := by
  rw [Table.mem_iff, h.zones]
  exact List.not_mem_nil

theorem Blank.no_template (h : Blank w) {t : Store.Template} : t ∉ w.store.templates := by
  rw [Table.mem_iff, h.templates]
  exact List.not_mem_nil

theorem Blank.no_supermaster (h : Blank w) {m : Store.Supermaster} : m ∉ w.store.supermasters := by
  rw [Table.mem_iff, h.supermasters]
  exact List.not_mem_nil

theorem Blank.sane (h : Blank w) : Sane C M [] w where
  store := ⟨fun _ hz => absurd hz h.no_zone, fun _ ht => absurd ht h.no_template,
    fun _ hm => absurd hm h.no_supermaster⟩
  ids := h.ids
  live := fun _ hrow => absurd hrow List.not_mem_nil

/-! ## Primaries -/

theorem covers_consistent : Covers Consistent := by
  intro kind ms k m h
  unfold Zones.kindMasters at h
  split at h
  · cases h
  · obtain ⟨m', hm, h⟩ := Except.bind_eq_ok.1 h
    split_ifs at h with h1 h2
    cases h
    refine ⟨⟨fun hne => ?_, fun hk hnil => h1 ⟨hk, hnil⟩⟩,
      masters_self (Except.mapError_eq_ok.1 hm)⟩
    by_contra hk
    exact h2 ⟨hk, hne⟩

theorem ofText_text (k : Store.Kind) : Store.Kind.ofText k.text = some k := by cases k <;> rfl

theorem Consistent.nextRow {z : Store.Zone} (h : Consistent z.kind z.masters) {d : Str}
    (hd : Zones.checkDescription (trimSpace d) = .ok ()) :
    ∃ next, Zones.nextRow C z ⟨none, none, none, some d⟩ = .ok next := by
  have hkm : Zones.kindMasters z.kind.text (if z.kind.needsMasters then z.masters else []) =
      .ok (z.kind, if z.kind.needsMasters then z.masters else []) := by
    rw [Zones.kindMasters, ofText_text]
    cases hk : z.kind.needsMasters with
    | true =>
      refine Except.bind_eq_ok.2 ⟨z.masters, Except.mapError_eq_ok.2 h.2, ?_⟩
      simp [h.1.2 hk, hk]
    | false =>
      refine Except.bind_eq_ok.2 ⟨[], rfl, ?_⟩
      simp [hk]
  unfold Zones.nextRow
  dsimp only
  rw [ofText_text]
  exact ⟨_, Except.bind_eq_ok.2 ⟨_, hkm, Except.bind_eq_ok.2 ⟨(), hd, rfl⟩⟩⟩

/-- **Zone rows have primaries exactly if their kind needs them, in canonical form**, in every
    history in which imports find such zones in PowerDNS; a valid description can then always be
    saved. -/
theorem primaries_consistent (C : Config) (w : World) (hw : Blank w) (ms : List Moment)
    (hms : Throughout C (Mirrors C Consistent) ms w) :
    ∀ z ∈ (runHistory C ms w).store.zones, Consistent z.kind z.masters ∧
      ∀ d, Zones.checkDescription (trimSpace d) = .ok () →
        ∃ next, Zones.nextRow C z ⟨none, none, none, some d⟩ = .ok next := by
  intro z hz
  have h := ((history_sane covers_consistent hw.sane hms).store.zones z hz).2
  exact ⟨h, fun d hd => h.nextRow hd⟩

def slaveWorld (masters : List Str) : World := { World.empty with
  ids := fun _ => str "00000000-0000-4000-8000-000000000002"
  pdns :=
    ⟨⟨[⟨str "example.com.", str "example.com.", str "Slave", 1, 0, masters, false, [], [], []⟩],
    by simp⟩, .empty⟩ }

def slaveSubject : Subjects := .user (str "00000000-0000-4000-8000-000000000003") (str "u") []

def slaveImport : Moment :=
  .change (.load slaveSubject ⟨1, 0, str "00000000-0000-4000-8000-000000000003",
    [⟨str "00000000-0000-4000-8000-000000000001", [], str "example.com.", str "slave",
      [str "192.0.2.1"],
      false, [], [], [], [], [], 0, 0, []⟩], [], []⟩ ⟨[], [], false⟩) fun _ _ => .done

theorem slaveWorld_blank (masters : List Str) : Blank (slaveWorld masters) := by
  have hid : Backup.isUUID (str "00000000-0000-4000-8000-000000000002") = true := by decide +kernel
  exact ⟨rfl, rfl, rfl, fun _ => hid⟩

theorem slaveImport_mirrors {masters : List Str} (h : M .slave masters) :
    Throughout .sample (Mirrors .sample M) [slaveImport] (slaveWorld masters) := by
  refine ⟨fun row hrow live hlive => ?_, trivial⟩
  cases List.mem_singleton.1 hrow
  have hpdns : (slaveWorld masters).pdns.zone (str "example.com.") = some
      ⟨str "example.com.", str "example.com.", str "Slave", 1, 0, masters, false, [], [],
        []⟩ := by rfl
  cases hpdns.symm.trans hlive
  exact h

/-- A live slave zone with a primary gets a consistent row, whose description can be changed. -/
theorem primaries_consistent_mirrored :
    ∃ z ∈ (runHistory .sample [slaveImport] (slaveWorld [str "192.0.2.1"])).store.zones,
      Consistent z.kind z.masters ∧ ∃ next, Zones.nextRow .sample z
        ⟨none, none, none, some []⟩ = .ok next := by
  have hrows : (runHistory .sample [slaveImport] (slaveWorld [str "192.0.2.1"])).store.zones.rows ≠
      [] := by
    decide +kernel
  obtain ⟨z, hz⟩ := List.exists_mem_of_ne_nil _ hrows
  have h := primaries_consistent .sample _ (slaveWorld_blank _) [slaveImport]
    (slaveImport_mirrors (by decide +kernel)) z hz
  exact ⟨z, hz, h.1, h.2 [] rfl⟩

/-- A live slave zone without primaries gets a row without, and its description cannot be
    changed. -/
theorem primaries_lost :
    ∃ z ∈ (runHistory .sample [slaveImport] (slaveWorld [])).store.zones, z.kind = .slave ∧
      z.masters = [] ∧
      Zones.nextRow .sample z ⟨none, none, none, some []⟩ =
        .error (.zone (.needsPrimary (str "slave"))) := by
  have hrows : (runHistory .sample [slaveImport] (slaveWorld [])).store.zones.rows ≠ [] ∧
      ∀ z ∈ (runHistory .sample [slaveImport] (slaveWorld [])).store.zones.rows, z.kind = .slave ∧
        z.masters = [] := by
    decide +kernel
  obtain ⟨z, hz⟩ := List.exists_mem_of_ne_nil _ hrows.1
  obtain ⟨hk, hm⟩ := hrows.2 z hz
  refine ⟨z, hz, hk, hm, ?_⟩
  simp only [Zones.nextRow, hk, hm]
  rfl

/-! ## Exports -/

theorem covers_accepted : Covers Accepted := fun _ _ _ m h => ⟨m, (covers_consistent _ _ _ _ h).2⟩

theorem exportZones_spec {R : Prog.Steps Op Res World} {I : World → Prop}
    (hR : ∀ {id w r w'}, I w → R (.pdns (.exportZone id)) w r w' → I w') {zs : List Store.Zone} :
    ∀ {budget : ℕ} {w : World}, I w → Ensures R (fun r w' => I w' ∧ ∃ out, r = .ok out ∧
      List.Forall₂ (fun z row => ∃ bind, row = Backup.zoneRow z bind) zs out) w
        (Backup.exportZones budget zs) := by
  induction zs with
  | nil => exact fun hw => ensures_pure ⟨hw, [], rfl, .nil⟩
  | cons z zs ih =>
    intro budget w hw
    have hrest {b : ℕ} {text : Str} {w' : World} (hw' : I w') :
        Ensures R (fun r w' => I w' ∧ ∃ out, r = .ok out ∧
          List.Forall₂ (fun z row => ∃ bind, row = Backup.zoneRow z bind) (z :: zs) out) w' (do
            let rest ← Backup.exportZones b zs
            return Backup.zoneRow z text :: rest) := by
      refine (ih hw').bind (fun rest w₂ h => ?_) fun e w₂ h => ?_
      · obtain ⟨hw₂, out, ⟨⟩, hout⟩ := h
        exact ensures_pure ⟨hw₂, _, rfl, .cons ⟨text, rfl⟩ hout⟩
      · obtain ⟨-, _, ⟨⟩, -⟩ := h
    have hask : Ensures R (fun _ w' => I w') w (Act.pdns (.exportZone z.pdnsID)) :=
      ensures_ask fun r w' hr => hR hw hr
    refine hask.catch fun r w' hw' => ?_
    cases r with
    | ok text => exact Ensures.ite (fun _ => hrest hw') fun _ => hrest hw'
    | error e => exact hrest hw'

theorem any_read {c : StoreCall} {f : c.Ans → Act β} {Q : Except Err β → World → Prop}
    (hread : (c.step U (w.times w.ticks) w.store).2 = w.store)
    (h : ∀ a w', w'.store = w.store → (c.step U (w.times w.ticks) w.store).1 = .ok a →
      Ensures (AnyStep U) Q w' (f a))
    (he : ∀ e w', Q (.error e) w') : Ensures (AnyStep U) Q w (Act.store c >>= f) := by
  refine Ensures.bind (Q := fun r w' => w'.store = w.store ∧
    ∀ a, r = .ok a → (c.step U (w.times w.ticks) w.store).1 = .ok a) ?_ (fun a w' hr =>
      h a w' hr.1 (hr.2 a rfl))
    fun e w' _ => he e w'
  refine ensures_ask fun r w' hr => ?_
  rcases hr with hd | ⟨rfl | rfl, e, rfl⟩
  · obtain ⟨rfl, rfl⟩ := Prod.mk.inj hd
    exact ⟨hread, fun a ha => ha⟩
  · exact ⟨rfl, fun a ha => by cases ha⟩
  · exact ⟨hread, fun a ha => by cases ha⟩

structure Exported (U : CaseTables) (T : Str) (S : Store) (doc : Backup.Document) : Prop where
  version : doc.schemaVersion = Backup.schemaVersion
  tenantID : doc.tenantID = T
  zones : List.Forall₂ (fun z row => ∃ bind, row = Backup.zoneRow z bind)
    (S.zonesForTenant T) doc.zones
  templates : doc.templates = S.tenantTemplates U T
  supermasters : doc.supermasters = S.tenantSupermasters T

theorem export_spec (subj : Subjects) (tenantID T : Str)
    (hT : Backup.target C subj tenantID = .ok T) :
    Ensures (AnyStep U) (fun r _ => ∀ doc, r = .ok doc → Exported U T w.store doc) w
      (Backup.export C subj tenantID) := by
  refine ensures_check (fun t ht => ?_) fun _ _ _ h => by cases h
  rw [hT] at ht
  cases ht
  have hnow : Ensures (AnyStep U) (fun _ w' => w'.store = w.store) w Act.now := by
    refine ensures_ask fun r w' hr => ?_
    obtain ⟨rfl, rfl⟩ := Prod.mk.inj hr
    rfl
  refine hnow.bind (fun now w₁ h₁ => ?_) fun _ _ _ _ h => by cases h
  refine any_read rfl (fun zs w₂ h₂ hzs => ?_) fun _ _ _ h => by cases h
  refine (exportZones_spec (I := fun w' => w'.store = w.store) (fun hw hr => ?_) (h₂.trans h₁)).bind
    (fun rows w₃ h₃ => ?_) fun _ _ _ _ h => by cases h
  · rcases anyStep_state hr with rfl | rfl | ⟨zones, rfl⟩ <;> exact hw
  obtain ⟨h₃, _, ⟨⟩, hrows⟩ := h₃
  refine any_read rfl (fun ts w₄ h₄ hts => ?_) fun _ _ _ h => by cases h
  refine any_read rfl (fun ms w₅ h₅ hms => ?_) fun _ _ _ h => by cases h
  refine ensures_pure fun doc hdoc => ?_
  cases hdoc
  cases hzs
  cases hts
  cases hms
  refine ⟨rfl, rfl, h₁ ▸ hrows, ?_, ?_⟩
  · rw [h₃]
  · rw [h₄, h₃]

theorem ZoneOK.row {z : Store.Zone} (h : ZoneOK C z) (hm : Accepted z.kind z.masters) (bind : Str) :
    RowOK C (Backup.zoneRow z bind) where
  id := h.id
  template := h.template
  name := h.name
  kind := by rw [show (Backup.zoneRow z bind).kind = z.kind.text from rfl, ofText_text]; rfl
  origin := by cases ho : z.origin <;> simp [Backup.zoneRow, Store.Origin.text, ho]
  masters := hm
  description := h.description
  count := h.count
  nameservers := h.nameservers

theorem SaneRows.validate (h : SaneRows C Accepted w.store) {T : Str} (hT : Backup.isUUID T = true)
    (hsize : Exportable T w) {doc : Backup.Document} (hdoc : Exported U T w.store doc) :
    Backup.validate C doc = .ok () := by
  refine validate_eq_ok.2 ⟨hdoc.version, ⟨?_, ?_, ?_⟩, .inr (hdoc.tenantID ▸ hT),
    fun row hrow => ?_,
    fun t ht => ?_, fun m hm => ?_⟩
  · rw [← hdoc.zones.length_eq, Store.zonesForTenant, List.length_insertionSort]
    exact hsize.zones
  · rw [hdoc.templates, Store.tenantTemplates, List.length_insertionSort]
    exact hsize.templates
  · rw [hdoc.supermasters, Store.tenantSupermasters, List.length_insertionSort]
    exact hsize.supermasters
  · obtain ⟨z, hz, bind, rfl⟩ := forall₂_mem_right hdoc.zones hrow
    have h' := h.zones z (Store.mem_zonesForTenant.1 hz).1
    exact h'.1.row h'.2 bind
  · rw [hdoc.templates] at ht
    exact (h.templates t (Store.mem_tenantTemplates.1 ht).1).1
  · rw [hdoc.supermasters] at hm
    exact (h.supermasters m (Store.mem_tenantSupermasters.1 hm).1).1

/-- **What is exported is accepted**, for every tenant with a UUID that has no more rows than a
    document may have, after every history in which imports find valid primaries in PowerDNS. -/
theorem export_accepted (C : Config) (w : World) (hw : Blank w) (ms : List Moment)
    (hms : Throughout C (Mirrors C Accepted) ms w) (subj : Subjects) (tenantID T : Str)
    (hT : Backup.target C subj tenantID = .ok T) (hu : Backup.isUUID T = true)
    (hsize : Exportable T (runHistory C ms w)) (plan : ℕ → Op → Fate Fault) (doc : Backup.Document)
    (hdoc : (exec (faulty C.env.cases plan) (Backup.export C subj tenantID)
      (runHistory C ms w, 0)).1 = .ok doc) :
    Backup.validate C doc = .ok () := by
  have hsane := history_sane covers_accepted hw.sane hms
  have hexp := Ensures.exec (h := faulty C.env.cases plan) (π := fun s : World × ℕ => s.1)
    anyStep_faulty
    (t := (runHistory C ms w, 0)) (export_spec subj tenantID T hT)
  exact hsane.store.validate hu hsize (hexp doc hdoc)

def slaveExport (masters : List Str) : Except Err Backup.Document :=
  (exec (faulty Config.sample.env.cases fun _ _ => .done) (Backup.export .sample slaveSubject [])
    (runHistory .sample [slaveImport] (slaveWorld masters), 0)).1

/-- The row of a live zone with a valid primary can be exported and imported. -/
theorem export_accepted_mirrored :
    ∃ doc, slaveExport [str "192.0.2.1"] = .ok doc ∧ Backup.validate .sample doc = .ok () := by
  obtain ⟨doc, hdoc⟩ : ∃ doc, slaveExport [str "192.0.2.1"] = .ok doc :=
    Except.toOption_ne_none.1 (by rw [← Option.isSome_iff_ne_none]; decide +kernel)
  exact ⟨doc, hdoc, export_accepted .sample _ (slaveWorld_blank _) [slaveImport]
    (slaveImport_mirrors ⟨[str "192.0.2.1"], by decide +kernel⟩) slaveSubject []
    (str "00000000-0000-4000-8000-000000000003")
    (by decide +kernel) (by decide +kernel)
      ⟨by decide +kernel, by decide +kernel, by decide +kernel⟩ _ doc hdoc⟩

/-- The row of a live zone with a loopback primary is exported, and the document refused. -/
theorem export_refused : ∃ doc, slaveExport [str "127.0.0.1"] = .ok doc ∧
    Backup.validate .sample doc = .error (.backupSchema .zoneMasters) := by
  obtain ⟨doc, hdoc⟩ : ∃ doc, slaveExport [str "127.0.0.1"] = .ok doc :=
    Except.toOption_ne_none.1 (by rw [← Option.isSome_iff_ne_none]; decide +kernel)
  have hrun : (slaveExport [str "127.0.0.1"] >>= Backup.validate .sample) =
      .error (.backupSchema .zoneMasters) := by decide +kernel
  rw [hdoc] at hrun
  exact ⟨doc, hdoc, hrun⟩

end TangraDns
