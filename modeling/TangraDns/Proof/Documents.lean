/-
  Documents: what their checks accept, and that an import keeps rows that pass
  them.
-/
import TangraDns.Proof.Backup
import TangraDns.Proof.Histories

namespace TangraDns

open List Str Validate Prog Prog.Failing

variable {C : Config} {U : CaseTables} {M : Store.Kind → List Str → Prop}
  {rows : List Backup.ZoneRow}
variable {w w' : World} {α β : Type}
variable {b : Backup.Document} {z row : Backup.ZoneRow}

/-! ## The checks -/

structure RowOK (C : Config) (z : Backup.ZoneRow) : Prop where
  id : Backup.isUUID z.id = true
  template : z.templateID = [] ∨ Backup.isUUID z.templateID = true
  name : zoneName C.env z.name = .ok z.name
  kind : (Store.Kind.ofText z.kind).isSome
  origin : z.origin = [] ∨ z.origin = str "manual" ∨ z.origin = str "ipam"
  masters : ∃ m, Validate.masters z.masters = .ok m
  description : runeCount z.description ≤ 1000
  count : z.nameservers.length ≤ 16
  nameservers : ∀ n ∈ z.nameservers, ∃ h, hostname C.env n = .ok h

theorem checkZone_eq_ok : Backup.checkZone C z = .ok () ↔ RowOK C z := by
  simp only [Backup.checkZone, Except.ite_error_eq_ok, and_true]
  constructor
  · rintro ⟨h1, h2, h3, h4, h5, h6⟩
    simp only [Bool.or_eq_true, Bool.not_eq_true', Bool.and_eq_true, bne_iff_ne, not_or, not_and,
      Bool.not_eq_false] at h1
    simp only [Bool.or_eq_true, Option.isNone_iff_eq_none, not_or] at h3
    rw [not_or, not_lt, not_lt] at h5
    refine ⟨h1.1, or_iff_not_imp_left.2 h1.2, ?_, Option.isSome_iff_ne_none.2 h3.1, ?_,
      Except.toOption_ne_none.1 h4,
      h5.1, h5.2, fun n hn => ?_⟩
    · obtain ⟨m, hm⟩ := Except.toOption_ne_none.1
        (by rw [not_not.1 h2]; exact Option.some_ne_none _)
      rw [hm] at h2
      simp only [Except.toOption, ne_eq, Option.some.injEq, not_not] at h2
      rw [hm, h2]
    · have := h3.2
      simp only [Bool.and_eq_true, bne_iff_ne] at this
      tauto
    · rw [any_eq_true] at h6
      refine Except.toOption_isNone_eq_false.1 ?_
      by_contra hne
      exact h6 ⟨n, hn, by simpa using hne⟩
  · intro h
    refine ⟨?_, ?_, ?_, Except.toOption_ne_none.2 h.masters, ?_, ?_⟩
    · have := h.template
      simp only [Bool.or_eq_true, Bool.not_eq_true', Bool.and_eq_true, bne_iff_ne, h.id]
      rcases this with this | this <;> simp [this]
    · rw [h.name]
      simp [Except.toOption]
    · have hk : (Store.Kind.ofText z.kind).isNone = false := by simpa using h.kind
      rcases h.origin with ho | ho | ho <;> simp [hk, ho]
    · rw [not_or, not_lt, not_lt]
      exact ⟨h.description, h.count⟩
    · rw [any_eq_true]
      rintro ⟨n, hn, hne⟩
      rw [Except.toOption_isNone_eq_false.2 (h.nameservers n hn)] at hne
      cases hne

theorem checkTemplate_eq_ok {t : Store.Template} : Backup.checkTemplate C t = .ok () ↔
    Backup.isUUID t.id = true ∧ TemplateOK C t.name t.description t.records := by
  simp only [Backup.checkTemplate, Except.ite_error_eq_ok, and_true, Bool.not_eq_true',
    Bool.not_eq_false,
    Bool.not_eq_true, Except.toOption_isNone_eq_false, not_or, not_lt]
  constructor
  · rintro ⟨hid, ⟨h1, h2, h3, h4⟩, h5⟩
    exact ⟨hid, ⟨h1, h2, h3⟩, h4, h5⟩
  · rintro ⟨hid, h⟩
    exact ⟨hid, ⟨h.name.1, h.name.2.1, h.name.2.2, h.description⟩, h.records⟩

theorem checkSupermaster_eq_ok {m : Store.Supermaster} :
    Backup.checkSupermaster C m = .ok () ↔ Backup.isUUID m.id = true ∧ SupermasterOK C m := by
  simp only [Backup.checkSupermaster, Except.ite_error_eq_ok, and_true, Bool.not_eq_true',
    Bool.not_eq_false,
    ← ne_eq, Except.toOption_ne_none]
  exact and_congr_right fun _ => ⟨fun h => ⟨h.1, h.2⟩, fun h => ⟨h.ip, h.nameserver⟩⟩

theorem validate_eq_ok : Backup.validate C b = .ok () ↔
    b.schemaVersion = Backup.schemaVersion ∧
    (b.zones.length ≤ Backup.maxRows ∧ b.templates.length ≤ Backup.maxRows ∧
      b.supermasters.length ≤ Backup.maxRows) ∧
        (b.tenantID = [] ∨ Backup.isUUID b.tenantID = true) ∧
      (∀ z ∈ b.zones, RowOK C z) ∧
      (∀ t ∈ b.templates, Backup.isUUID t.id = true ∧ TemplateOK C t.name t.description t.records) ∧
      ∀ m ∈ b.supermasters, Backup.isUUID m.id = true ∧ SupermasterOK C m := by
  simp only [Backup.validate, Except.ite_error_eq_ok, not_not, not_or, not_lt]
  refine and_congr_right fun _ => and_congr_right fun _ => and_congr ?_ ?_
  · rw [Bool.and_eq_true, bne_iff_ne, Bool.not_eq_true', not_and, Bool.not_eq_false,
      or_iff_not_imp_left]
  · constructor
    · intro h
      obtain ⟨_, hz, h⟩ := Except.bind_eq_ok.1 h
      obtain ⟨_, ht, hm⟩ := Except.bind_eq_ok.1 h
      exact ⟨fun z hz' => checkZone_eq_ok.1 (Backup.checkAll_eq_ok.1 hz z hz'),
        fun t ht' => checkTemplate_eq_ok.1 (Backup.checkAll_eq_ok.1 ht t ht'),
        fun m hm' => checkSupermaster_eq_ok.1 (Backup.checkAll_eq_ok.1 hm m hm')⟩
    · rintro ⟨hz, ht, hm⟩
      refine Except.bind_eq_ok.2 ⟨(), Backup.checkAll_eq_ok.2 fun z h => checkZone_eq_ok.2 (hz z h),
        ?_⟩
      refine Except.bind_eq_ok.2 ⟨(), Backup.checkAll_eq_ok.2 fun t h =>
        checkTemplate_eq_ok.2 (ht t h), ?_⟩
      exact Backup.checkAll_eq_ok.2 fun m h => checkSupermaster_eq_ok.2 (hm m h)

/-! ## Fresh ids -/

/-- The rows of a document pass the checks, and its zones have names and kinds of `rows`. -/
structure DocumentOK (C : Config) (rows : List Backup.ZoneRow) (b : Backup.Document) : Prop where
  zones : ∀ z ∈ b.zones, RowOK C z ∧ ∃ row ∈ rows, row.name = z.name ∧ row.kind = z.kind
  templates : ∀ t ∈ b.templates, Backup.isUUID t.id = true ∧
    TemplateOK C t.name t.description t.records
  supermasters : ∀ m ∈ b.supermasters, Backup.isUUID m.id = true ∧ SupermasterOK C m

theorem freshIDs_sane (set : Str → α → α) (as : List α) (hw : Sane C M rows w) :
    Ensures (AnyStep U) (fun r w' => Sane C M rows w' ∧ ∀ bs, r = .ok bs →
      ∀ b ∈ bs, ∃ a ∈ as, ∃ id, Backup.isUUID id = true ∧ b = set id a) w
        (Backup.freshIDs set as) := by
  induction as generalizing w with
  | nil =>
    refine ensures_pure ⟨hw, fun bs hbs => ?_⟩
    cases hbs
    exact fun b hb => absurd hb not_mem_nil
  | cons a as ih =>
    refine ensures_newID hw fun id w' hw' _ hid => ?_
    refine (ih hw').bind (fun rest w' h => ?_) fun e w' h => ⟨h.1, fun _ h => by cases h⟩
    refine ensures_pure ⟨h.1, fun bs hbs b hb => ?_⟩
    cases hbs
    rcases mem_cons.1 hb with rfl | hb
    · exact ⟨a, mem_cons_self .., id, hid, rfl⟩
    · obtain ⟨a', ha', h'⟩ := h.2 rest rfl b hb
      exact ⟨a', mem_cons_of_mem _ ha', h'⟩

theorem mem_of_lookup {xs : List (Str × Str)} {k v : Str} (h : xs.lookup k = some v) :
    v ∈ xs.map Prod.snd := by
  induction xs with
  | nil => cases h
  | cons x xs ih =>
    rw [lookup_cons] at h
    split at h
    · cases h
      exact mem_cons_self ..
    · exact mem_cons_of_mem _ (ih h)

theorem remap_sane (hb : DocumentOK C rows b) (hw : Sane C M rows w) :
    Ensures (AnyStep U) (fun r w' => Sane C M rows w' ∧ ∀ b', r = .ok b' → DocumentOK C rows b') w
      (Backup.remap b) := by
  refine (freshIDs_sane _ b.templates hw).bind (fun ts w' ht => ?_) fun e w' h =>
    ⟨h.1, fun _ h => by cases h⟩
  obtain ⟨hw', ht⟩ := ht
  refine (freshIDs_sane _ b.zones hw').bind (fun zs w' hz => ?_) fun e w' h =>
    ⟨h.1, fun _ h => by cases h⟩
  obtain ⟨hw', hz⟩ := hz
  refine (freshIDs_sane _ b.supermasters hw').bind (fun ms w' hm => ?_) fun e w' h =>
    ⟨h.1, fun _ h => by cases h⟩
  refine ensures_pure ⟨hm.1, fun b' hb' => ?_⟩
  cases hb'
  refine ⟨fun z hz' => ?_, fun t ht' => ?_, fun m hm' => ?_⟩
  · obtain ⟨a, ha, id, hid, rfl⟩ := hz zs rfl z hz'
    obtain ⟨hok, hrow⟩ := hb.zones a ha
    refine ⟨⟨hid, ?_, hok.name, hok.kind, hok.origin, hok.masters, hok.description, hok.count,
      hok.nameservers⟩, hrow⟩
    -- the template's new id, or none
    dsimp only
    cases hl : List.lookup a.templateID
        ((b.templates.map Store.Template.id).zip (ts.map Store.Template.id)).reverse with
    | none => exact .inl rfl
    | some v =>
      have hv := mem_of_lookup hl
      rw [map_reverse, mem_reverse] at hv
      obtain ⟨p, hp, rfl⟩ := List.mem_map.1 hv
      obtain ⟨t, ht', hid'⟩ := List.mem_map.1 (of_mem_zip hp).2
      obtain ⟨_, _, id', hid'', rfl⟩ := ht ts rfl t ht'
      exact .inr (hid' ▸ hid'')
  · obtain ⟨a, ha, id, hid, rfl⟩ := ht ts rfl t ht'
    exact ⟨hid, (hb.templates a ha).2⟩
  · obtain ⟨a, ha, id, hid, rfl⟩ := hm.2 ms rfl m hm'
    exact ⟨hid, (hb.supermasters a ha).2.ip, (hb.supermasters a ha).2.nameserver⟩

/-! ## Import -/

variable {im : Backup.Importer}

theorem each_sane {step : Backup.Result → α → Act Backup.Result} {as : List α}
    (h : ∀ res, ∀ a ∈ as, Keeps (AnyStep U) (Sane C M rows) (step res a)) (res : Backup.Result) :
    Keeps (AnyStep U) (Sane C M rows) (Backup.Importer.each step res as) := by
  induction as generalizing res with
  | nil => exact keeps_pure
  | cons a as ih =>
    exact (h res a (mem_cons_self ..)).bind fun res =>
      ih (fun res a ha => h res a (mem_cons_of_mem _ ha)) res

theorem wrote_sane (c : Backup.Collection) (res : Backup.Result) (r : Except Err α) :
    Keeps (AnyStep U) (Sane C M rows) (Backup.Importer.wrote c res r) := by
  cases r with
  | ok _ => exact keeps_pure
  | error e => exact Keeps.ite keeps_pure keeps_throw

theorem keeps_created (t : ℕ) :
    Keeps (AnyStep U) (Sane C M rows) (if t = 0 then Act.now else pure t : Act ℕ) :=
  Keeps.ite keeps_now keeps_pure

theorem template_sane (res : Backup.Result) {t : Store.Template} (hid : Backup.isUUID t.id = true)
    (ht : TemplateOK C t.name t.description t.records) :
    Keeps (AnyStep U) (Sane C M rows) (im.template res t) := by
  have hok : TemplateOK C (trimSpace t.name) (trimSpace t.description) t.records :=
    ⟨by rw [trimSpace_trimSpace]; exact ht.name, (runeCount_trimSpace _).trans ht.description,
      ht.records⟩
  have htrim : Trimmed (trimSpace t.name) (trimSpace t.description) :=
    ⟨trimSpace_trimSpace _, trimSpace_trimSpace _⟩
  refine Keeps.bind (Keeps.attempt (keeps_store trivial)) fun r => ?_
  cases r with
  | ok _ =>
    refine Keeps.ite keeps_pure (keeps_now.bind fun now => ?_)
    exact Keeps.bind (Keeps.attempt (keeps_store ⟨hok, htrim⟩)) fun r => wrote_sane _ _ r
  | error e =>
    refine Keeps.ite keeps_throw ((keeps_created _).bind fun created => keeps_now.bind
      fun now => ?_)
    exact Keeps.bind (Keeps.attempt (keeps_store ⟨⟨hid, hok⟩, htrim⟩)) fun r => wrote_sane _ _ r

theorem relabel_sane {live : PDNS.Zone} {id : Str} (hid : id = row.name)
    (hw : Sane C M rows w) (hlive : w.pdns.zone row.name = some live) :
    Ensures (AnyStep U) (fun _ w' => Sane C M rows w') w (im.relabel id live) := by
  refine Ensures.ite (fun _ => ensures_pure hw) fun _ => ?_
  -- the zone has the kind and the primaries it had
  have hput : Sane C M rows (handler U (.pdns (.updateZoneMetadata id
      ⟨[], [], live.kind, 0, 0, live.masters, live.dnssec, [], im.target, []⟩)) w).2 := by
    refine ⟨hw.store, hw.ids, fun row' hrow' live' hlive' => ?_⟩
    dsimp only [handler, PDNSCall.step] at hlive'
    rw [PDNS.Server.updateZoneMetadata_zone] at hlive'
    obtain ⟨z, hz, rfl⟩ := Option.map_eq_some_iff.1 hlive'
    have hM := hw.live row' hrow' z hz
    split_ifs with hn
    · rw [hn, hid, hlive] at hz
      cases hz
      have hk : (if live.kind = [] then live.kind else live.kind) = live.kind := ite_self _
      simpa only [mirroredKind, PDNS.Server.putMeta, hk] using hM
    · exact hM
  have hkeep : Ensures (AnyStep U) (fun _ w' => Sane C M rows w') w
      (Act.pdns (.updateZoneMetadata id
      ⟨[], [], live.kind, 0, 0, live.masters, live.dnssec, [], im.target, []⟩)) := by
    refine ensures_ask fun r w' hr => ?_
    rcases anyStep_state hr with rfl | rfl | ⟨zones, rfl⟩
    exacts [hw, hput, hw.of_same rfl rfl fun _ => rfl]
  exact hkeep.catch fun _ _ h => ensures_pure h

theorem keepTemplate_sane (id : Str) (hw : Sane C M rows w) :
    Ensures (AnyStep U) (fun r w' => (Sane C M rows w' ∧ w'.pdns = w.pdns) ∧ ∀ id', r = .ok id' →
      id' = [] ∨ id' = id)
      w (im.keepTemplate id) := by
  refine Ensures.ite (fun _ => ensures_pure ⟨⟨hw, rfl⟩, fun id' h => ?_⟩) fun _ => ?_
  · cases h
    exact .inl rfl
  · refine any_store hw trivial fun r w' hw' hp _ => ?_
    cases r with
    | ok t =>
      refine ensures_pure ⟨⟨hw', hp⟩, fun id' h => ?_⟩
      cases h
      exact .inr rfl
    | error e =>
      refine ensures_pure ⟨⟨hw', hp⟩, fun id' h => ?_⟩
      cases h
      exact .inl rfl

theorem ensures_now {f : ℕ → Act β} {Q : Except Err β → World → Prop} (hw : Sane C M rows w)
    (h : ∀ t w', Sane C M rows w' → w'.pdns = w.pdns → Ensures (AnyStep U) Q w' (f t)) :
    Ensures (AnyStep U) Q w (Act.now >>= f) := by
  rintro r w' hr
  obtain ⟨rfl, rfl⟩ := Prod.mk.inj hr
  exact h _ _ (hw.of_same rfl rfl fun _ => rfl) rfl

theorem link_sane (res : Backup.Result) {live : PDNS.Zone} (hz : RowOK C z)
    (hrow : row ∈ rows) (hname : row.name = z.name)
    (hkind : row.kind = z.kind) (hw : Sane C M rows w)
    (hlive : w.pdns.zone z.name = some live) :
    Ensures (AnyStep U) (fun _ w' => Sane C M rows w') w (im.link C res z live) := by
  have hM : M (mirroredKind C z live) live.masters := by
    have := hw.live row hrow live (hname ▸ hlive)
    rwa [mirroredKind, hkind] at this
  have hid : (im.linked C z live).pdnsID = row.name := by
    obtain ⟨-, hid⟩ := PDNS.Server.zone_eq_some.1 hlive
    dsimp only [Backup.Importer.linked]
    rw [hid, hname, ite_self]
  -- what is left once the times are known
  have hplace {t : ℕ} {w' : World} (hw' : Sane C M rows w') (hp : w'.pdns = w.pdns) :
      Ensures (AnyStep U) (fun _ w' => Sane C M rows w') w' (do
        let now ← Act.now
        let templateID ← im.keepTemplate (im.linked C z live).templateID
        im.place res { im.linked C z live with templateID, createdAt := t, updatedAt := now }
            live) := by
    refine ensures_now hw' fun now w₂ hw₂ hp₂ => ?_
    refine (keepTemplate_sane _ hw₂).bind (fun tid w₃ h => ?_) fun _ _ h => h.1.1
    obtain ⟨⟨hw₃, hp₃⟩, ht⟩ := h
    have htid : tid = [] ∨ Backup.isUUID tid = true := by
      rcases ht tid rfl with rfl | rfl
      exacts [.inl rfl, hz.template]
    refine any_store hw₃ ⟨⟨hz.id, htid, hz.name, hz.description, hz.count, hz.nameservers⟩, hM⟩
      fun r w₄ hw₄ hp₄ _ => ?_
    cases r with
    | error e => exact Ensures.ite (fun _ => ensures_pure hw₄) fun _ => ensures_throw hw₄
    | ok _ =>
      have hlive₄ : w₄.pdns.zone row.name = some live := by
        rw [hp₄, hp₃, hp₂, hp, hname, hlive]
      exact (relabel_sane hid hw₄ hlive₄).bind (fun _ _ h => ensures_pure h) fun _ _ h => h
  unfold Backup.Importer.link
  dsimp only
  by_cases hc : (im.linked C z live).createdAt = 0
  · rw [if_pos hc]
    exact ensures_now hw fun t w' hw' hp => hplace hw' hp
  · rw [if_neg hc]
    exact hplace hw rfl

theorem importZone_sane (names : List Str) (res : Backup.Result) (hz : RowOK C z)
    (hrow : row ∈ rows) (hname : row.name = z.name) (hkind : row.kind = z.kind) :
    Keeps (AnyStep U) (Sane C M rows) (im.zone C names res z) := by
  intro w hw
  refine any_store hw trivial fun r w' hw' _ hr => ?_
  cases r with
  | ok l =>
    refine Ensures.ite (fun _ => ensures_pure hw') fun _ => ?_
    refine ensures_now hw' fun now w₂ hw₂ _ => ?_
    obtain ⟨hmem, -, -⟩ := Store.getZoneByName_eq_ok.1 (hr l rfl)
    have hok : Permitted C M (.updateZone
        { l with description := z.description, updatedAt := now }) :=
      ⟨hz.description, (hw.store.zones l hmem).2⟩
    exact Keeps.bind (keeps_store hok) (fun _ => keeps_pure) w₂ hw₂
  | error e =>
    refine Ensures.ite (fun _ => ensures_throw hw') fun _ => ?_
    refine Ensures.ite (fun _ => ensures_pure hw') fun _ => ?_
    have htaken : Keeps (AnyStep U) (Sane C M rows) (Act.store (.zoneConflict im.target z.name)) :=
      keeps_store trivial
    refine Ensures.bind (htaken w' hw') (fun taken w₂ hw₂ => ?_) fun _ _ h => h
    refine Ensures.ite (fun _ => ensures_pure hw₂) fun _ => ?_
    -- the live zone, as it is when it is read
    have hread : Ensures (AnyStep U) (fun r w₃ => Sane C M rows w₃ ∧ ∀ live, r = .ok live →
        w₃.pdns.zone z.name = some live) w₂ (Act.pdns (.getZone z.name)) := by
      rintro r w₃ (hd | ⟨hs, e, rfl⟩)
      · obtain ⟨rfl, rfl⟩ := Prod.mk.inj hd
        refine ⟨hw₂, fun live hl => ?_⟩
        dsimp only [PDNSCall.step, PDNS.Server.getZone] at hl ⊢
        cases hzone : w₂.pdns.zone z.name with
        | none =>
          rw [hzone] at hl
          cases hl
        | some p =>
          rw [hzone] at hl
          cases hl
          rfl
      · have hw₃ : Sane C M rows w₃ := by
          rcases hs with rfl | rfl
          exacts [hw₂, hw₂]
        exact ⟨hw₃, fun live hl => by cases hl⟩
    refine hread.catch fun r w₃ h => ?_
    cases r with
    | error e => exact Ensures.ite (fun _ => ensures_pure h.1) fun _ => ensures_throw h.1
    | ok live =>
      refine Ensures.ite (fun _ => ensures_pure h.1) fun _ => ?_
      exact link_sane res hz hrow hname hkind h.1 (h.2 live rfl)

theorem importSupermaster_sane (live : List PDNS.Supermaster) (res : Backup.Result)
    {m : Store.Supermaster}
    (hid : Backup.isUUID m.id = true) (hm : SupermasterOK C m) :
    Keeps (AnyStep U) (Sane C M rows) (im.supermaster C live res m) := by
  obtain ⟨g, hg⟩ := hm.ip
  obtain ⟨n, hn⟩ := hm.nameserver
  have hg' := (ipGuard_self hg).2
  unfold Backup.Importer.supermaster
  simp only [hg, hn, Except.toOption, Option.map_some, Option.getD_some]
  refine (keeps_created _).bind fun created => ?_
  have hinsert (made : Option Str) : Keeps (AnyStep U) (Sane C M rows)
      (Backup.Importer.insertSupermaster res
        { m with tenantID := im.target, ip := g.toStr, nameserver := n, createdAt := created }
          made) := by
    have hok : Permitted C M (.createSupermaster
        { m with tenantID := im.target, ip := g.toStr, nameserver := n, createdAt := created }) :=
      ⟨⟨hid, ⟨g, hg'⟩, n, hostname_self hn⟩, hostname_self hn, g, hg', rfl⟩
    refine Keeps.bind (Keeps.attempt (keeps_store hok)) fun r => ?_
    cases r with
    | ok _ => exact keeps_pure
    | error e =>
      refine Keeps.bind ?_ fun _ => Keeps.ite keeps_pure keeps_throw
      cases made with
      | none => exact keeps_pure
      | some ns => exact keeps_ignore (dropEntry_sane _ _)
  refine Keeps.bind (Keeps.attempt (keeps_store trivial)) fun r => ?_
  cases r with
  | ok _ => exact keeps_pure
  | error e =>
    refine Keeps.ite keeps_throw (Keeps.ite keeps_pure (Keeps.ite (hinsert none) ?_))
    refine (makeEntry_sane _).attempt.bind fun r => ?_
    cases r with
    | error e => exact Keeps.ite keeps_pure keeps_throw
    | ok _ => exact hinsert _

theorem wipe_sane (ts : List Store.Template) : Keeps (AnyStep U) (Sane C M rows) (im.wipe ts) := by
  induction ts with
  | nil => exact keeps_pure
  | cons t ts ih =>
    refine Keeps.bind (Keeps.attempt (keeps_store trivial)) fun r => ?_
    cases r with
    | ok _ => exact ih
    | error e => exact Keeps.ite ih keeps_throw

theorem run_sane (res : Backup.Result) (hb : DocumentOK C rows b) (full : Bool) :
    Keeps (AnyStep U) (Sane C M rows) (im.run C res b full) := by
  have hzones (res : Backup.Result) :
      Keeps (AnyStep U) (Sane C M rows) (im.zones C res b.zones) := by
    refine Keeps.ite keeps_pure (Keeps.bind (keeps_other fun _ => ⟨rfl, rfl, fun _ => rfl⟩)
      fun names => ?_)
    refine each_sane (fun res z hz => ?_) res
    obtain ⟨hok, row, hrow, hname, hkind⟩ := hb.zones z hz
    exact importZone_sane _ res hok hrow hname hkind
  have hentries (res : Backup.Result) :
      Keeps (AnyStep U) (Sane C M rows) (im.supermasters C res b.supermasters) := by
    refine Keeps.ite keeps_pure (Keeps.ite keeps_pure ?_)
    refine Keeps.bind (keeps_other fun _ => ⟨rfl, rfl, fun _ => rfl⟩) fun live => ?_
    exact each_sane (fun res m hm => importSupermaster_sane live res (hb.supermasters m hm).1
      (hb.supermasters m hm).2) res
  refine Keeps.bind ?_ fun _ => Keeps.bind ?_ fun res => (hzones res).bind fun res => hentries res
  · exact Keeps.ite (Keeps.bind (keeps_store trivial) fun ts => wipe_sane ts) keeps_pure
  · exact each_sane (fun res t ht => template_sane res (hb.templates t ht).1 (hb.templates t ht).2)
      res

theorem import_sane (subj : Subjects) (b : Backup.Document) (opts : Backup.Options)
    (hw : Sane C M b.zones w) :
    Ensures (AnyStep U) (fun _ w' => Sane C M b.zones w') w (Backup.import C subj b opts) := by
  refine ensures_check (fun tgt _ => ?_) fun _ _ => hw
  refine ensures_check (fun _ _ => ?_) fun _ _ => hw
  refine ensures_check (fun _ hb => ?_) fun _ _ => hw
  obtain ⟨-, -, -, hz, ht, hm⟩ := validate_eq_ok.1 hb
  have hok : DocumentOK C b.zones b := ⟨fun z h => ⟨hz z h, z, h, rfl, rfl⟩, ht, hm⟩
  have hremap : Ensures (AnyStep U) (fun r w' => Sane C M b.zones w' ∧ ∀ b', r = .ok b' →
      DocumentOK C b.zones b') w
      (if b.tenantID ≠ tgt then Backup.remap b else pure b) := by
    refine Ensures.ite (fun _ => remap_sane hok hw) fun _ => ensures_pure ⟨hw, fun b' h => ?_⟩
    cases h
    exact hok
  exact hremap.bind (fun b' w' h => run_sane _ (h.2 b' rfl) opts.full w' h.1) fun _ _ h => h.1

/-! ## Histories -/

theorem moment_sane (hM : Covers M) (m : Moment) (hw : Sane C M [] w) (hm : Mirrors C M w m) :
    Sane C M [] (m.run C w) := by
  have forget {α : Type} {p : Act α} (hp : Keeps (AnyStep C.env.cases) (Sane C M []) p) :
      Keeps (AnyStep C.env.cases) (Sane C M []) (do let _ ← p; pure ()) :=
        hp.bind fun _ => keeps_pure
  cases m with
  | live s => exact ⟨hw.store, hw.ids, fun row hrow => absurd hrow not_mem_nil⟩
  | change c plan =>
    have hexec {p : Act Unit} (h : Ensures (AnyStep C.env.cases) (fun _ w' => Sane C M [] w') w p) :
        Sane C M [] (exec (faulty C.env.cases plan) p (w, 0)).2.1 :=
      Ensures.exec (Q := fun _ w' => Sane C M [] w') (π := fun s : World × ℕ => s.1)
        anyStep_faulty h
    refine hexec ?_
    cases c with
    | createZone subj i => exact forget (create_sane hM subj i) w hw
    | updateZone subj id i => exact forget (update_sane hM subj id i) w hw
    | deleteZone subj id => exact delete_sane subj id w hw
    | createTemplate subj i => exact forget (createTemplate_sane subj i) w hw
    | updateTemplate subj id i => exact forget (updateTemplate_sane subj id i) w hw
    | deleteTemplate subj id => exact deleteTemplate_sane subj id w hw
    | createSupermaster subj i => exact forget (createSupermaster_sane subj i) w hw
    | deleteSupermaster subj id => exact deleteSupermaster_sane subj id w hw
    | load subj b opts =>
      -- during the import the zones of the document matter
      have hdoc : Sane C M b.zones w := ⟨hw.store, hw.ids, hm⟩
      have hclean {w' : World} (h : Sane C M b.zones w') : Sane C M [] w' :=
        ⟨h.store, h.ids, fun row hrow => absurd hrow not_mem_nil⟩
      exact (import_sane subj b opts hdoc).bind (fun _ _ h => ensures_pure (hclean h)) fun _ _ h =>
        hclean h

theorem history_sane (hM : Covers M) {ms : List Moment} (hw : Sane C M [] w)
    (hms : Throughout C (Mirrors C M) ms w) : Sane C M [] (runHistory C ms w) := by
  induction ms generalizing w with
  | nil => exact hw
  | cons m ms ih => exact ih (moment_sane hM m hw hms.1) hms.2

end TangraDns
