/-
  A tenant gets its lost rows back from a document it exported.
-/
import TangraDns.Proof.Validity
import TangraDns.Restore

namespace TangraDns

open List Str Validate Prog Prog.Failing

variable {C : Config} {U : CaseTables} {k : Spared} {T : Str} {w w' w₀ : World}
variable {S : Store} {tenantID : Str} {now : ℕ}

/-! ## What every call keeps -/

structure RegularRows (U : CaseTables) (S : Store) : Prop where
  zones : ∀ z ∈ S.zones, z.createdAt ≠ 0
  templates : ∀ t ∈ S.templates, t.createdAt ≠ 0
  supermasters : ∀ m ∈ S.supermasters, m.createdAt ≠ 0
  names : ∀ t ∈ S.templates, ∀ u ∈ S.templates, t.tenantID = u.tenantID →
    EqualFold U t.name u.name → t.id = u.id

theorem orNow_ne_zero {t : ℕ} (h : now ≠ 0) : Store.orNow t now ≠ 0 := by
  unfold Store.orNow
  split_ifs with ht
  exacts [h, ht]

theorem templateNameTaken_eq_false {t : Store.Template} : S.templateNameTaken U t = false ↔
    ∀ x ∈ S.templates, x.tenantID = t.tenantID → EqualFold U x.name t.name → x.id = t.id := by
  simp only [Store.templateNameTaken, any_eq_false, Bool.and_eq_true, beq_iff_eq, bne_iff_ne,
    decide_eq_true_eq, not_and, and_imp]
  exact ⟨fun h x hx ht hn => by_contra fun hid => h x hx ht hid hn, fun h x hx ht hid hn =>
    hid (h x hx ht hn)⟩

theorem RegularRows.step (h : RegularRows U S) (c : StoreCall) (hnow : now ≠ 0) :
    RegularRows U (c.step U now S).2 := by
  refine ⟨fun y hy => ?_, fun y hy => ?_, fun y hy => ?_, fun x hx y hy htenant hname => ?_⟩
  · rcases step_zones hy with hy | ⟨z, -, rfl⟩ | ⟨z, old, -, hold, rfl⟩
    exacts [h.zones y hy, orNow_ne_zero hnow, h.zones old hold]
  · rcases step_templates hy with hy | ⟨t, -, -, rfl⟩ | ⟨t, old, -, -, ⟨hold, -⟩, rfl⟩
    exacts [h.templates y hy, orNow_ne_zero hnow, h.templates old hold]
  · rcases step_supermasters hy with hy | ⟨m, ip, -, -, rfl⟩
    exacts [h.supermasters y hy, orNow_ne_zero hnow]
  · -- at most one of the two is written, and its name is free
    rcases step_templates hx with hx | ⟨t, rfl, ht, rfl⟩ | ⟨t, old, rfl, ht, ⟨-, hid, hT⟩, rfl⟩ <;>
      rcases step_templates hy with hy | ⟨t', he, ht', rfl⟩ | ⟨t', old', he, ht',
        ⟨-, hid', hT'⟩, rfl⟩
    · exact h.names x hx y hy htenant hname
    · exact templateNameTaken_eq_false.1 ht' x hx htenant hname
    · rw [hid']
      exact templateNameTaken_eq_false.1 ht' x hx (htenant.trans hT') hname
    · exact (templateNameTaken_eq_false.1 ht y hy htenant.symm hname.symm).symm
    · cases he
      rfl
    · cases he
    · rw [hid]
      exact (templateNameTaken_eq_false.1 ht y hy (htenant.symm.trans hT) hname.symm).symm
    · cases he
    · cases he
      exact hid.trans hid'.symm

def Clocked (U : CaseTables) (w : World) : Prop := (∀ n, w.times n ≠ 0) ∧ RegularRows U w.store

theorem clocked_step {o : Op} {r : Res o} (h : Clocked U w) (hr : AnyStep U o w r w') :
    Clocked U w' := by
  rcases anyStep_state hr with rfl | rfl | ⟨zones, rfl⟩
  · exact h
  · cases o with
    | store c => exact ⟨h.1, h.2.step c (h.1 _)⟩
    | now | newID | pdns c | recursor c | ipam c => exact h
  · exact h

theorem Blank.regularRows (h : Blank w) : RegularRows U w.store :=
  ⟨fun _ hz => absurd hz h.no_zone, fun _ ht => absurd ht h.no_template,
    fun _ hm => absurd hm h.no_supermaster, fun _ ht => absurd ht h.no_template⟩

theorem history_clocked {ms : List Moment} (h : Clocked C.env.cases w) :
    Clocked C.env.cases (runHistory C ms w) := by
  induction ms generalizing w with
  | nil => exact h
  | cons m ms ih =>
    refine ih ?_
    cases m with
    | live s => exact h
    | change c plan =>
      exact Ensures.exec (Q := fun _ w' => Clocked C.env.cases w') (π := fun s : World × ℕ => s.1)
        anyStep_faulty
        (keeps_all (fun _ _ _ _ h hr => clocked_step h hr) (c.act C) w h)

/-! ## The import, seen from the rows before the loss -/

section Import

variable {doc : Backup.Document} {ts : List Store.Template} {zs : List Store.Zone}
  {ms : List Store.Supermaster}
variable {im : Backup.Importer} {res : Backup.Result}
variable {z : Store.Zone}

def Spared.LostTemplate (k : Spared) (T : Str) (t : Store.Template) : Prop :=
  t.tenantID = T ∧ k.template t = false

def Spared.LostZone (k : Spared) (T : Str) (z : Store.Zone) : Prop :=
  z.tenantID = T ∧ k.zone z = false

def Spared.LostSupermaster (k : Spared) (T : Str) (m : Store.Supermaster) : Prop :=
  m.tenantID = T ∧ k.supermaster m = false

/-- An import on the way: the rows stand for those of `w₀`, and those on the lists are back. -/
structure Restoring (k : Spared) (T : Str) (doc : Backup.Document) (w₀ : World)
    (ts : List Store.Template)
    (zs : List Store.Zone) (ms : List Store.Supermaster) (w : World) : Prop where
  templates : Table.Stands (fun y x => ∃ n, k.templateBack T (fun _ => n) y = x)
    (fun y => ¬ k.LostTemplate T y)
    w₀.store.templates w.store.templates ts
  zones : Table.Stands (fun y x => ∃ n, k.zoneBack T doc (fun _ => n) y = x)
    (fun y => ¬ k.LostZone T y)
    w₀.store.zones w.store.zones zs
  supermasters : Table.Stands (fun y x => y = x) (fun y => ¬ k.LostSupermaster T y)
    w₀.store.supermasters w.store.supermasters ms
  sync : w.store.sync = w₀.store.sync
  challenges : w.store.challenges = w₀.store.challenges
  pdns : w.pdns = w₀.pdns
  recursor : w.recursor = w₀.recursor

section Back

variable {stamp : Str → ℕ} {t : Store.Template} {z : Store.Zone}

@[simp] theorem templateBack_id : (k.templateBack T stamp t).id = t.id := by
  unfold Spared.templateBack; split_ifs <;> rfl

@[simp] theorem templateBack_tenantID : (k.templateBack T stamp t).tenantID = t.tenantID := by
  unfold Spared.templateBack; split_ifs <;> rfl

@[simp] theorem templateBack_name : (k.templateBack T stamp t).name = t.name := by
  unfold Spared.templateBack; split_ifs <;> rfl

@[simp] theorem zoneBack_id : (k.zoneBack T doc stamp z).id = z.id := by
  unfold Spared.zoneBack; split_ifs <;> rfl

@[simp] theorem zoneBack_tenantID : (k.zoneBack T doc stamp z).tenantID = z.tenantID := by
  unfold Spared.zoneBack; split_ifs <;> rfl

@[simp] theorem zoneBack_name : (k.zoneBack T doc stamp z).name = z.name := by
  unfold Spared.zoneBack; split_ifs <;> rfl

@[simp] theorem zoneBack_pdnsID : (k.zoneBack T doc stamp z).pdnsID = z.pdnsID := by
  unfold Spared.zoneBack; split_ifs <;> rfl

end Back

theorem templateBack_clash {y x : Store.Template} (h : ∃ n, k.templateBack T (fun _ => n) y = x)
    (c : Store.Template) : Keyed.clash c x = Keyed.clash c y := by
  obtain ⟨n, rfl⟩ := h
  simp only [Keyed.clash, templateBack_id]

theorem zoneBack_clash {y x : Store.Zone} (h : ∃ n, k.zoneBack T doc (fun _ => n) y = x)
    (c : Store.Zone) :
    Keyed.clash c x = Keyed.clash c y := by
  obtain ⟨n, rfl⟩ := h
  simp only [Keyed.clash, zoneBack_id, zoneBack_name, zoneBack_pdnsID]

theorem spared_iff {kept : Bool} :
    (tenantID != T || kept) = true ↔ ¬ (tenantID = T ∧ kept = false) := by
  cases kept <;> simp

theorem restoring_start : Restoring k T doc w [] [] [] { w with store := k.lose T w.store } where
  templates := Table.stands_filter (fun _ ht => ⟨0, if_neg (spared_iff.1 ht)⟩) fun _ => spared_iff.2
  zones := Table.stands_filter (fun _ hz => ⟨0, if_neg (spared_iff.1 hz)⟩) fun _ => spared_iff.2
  supermasters := Table.stands_filter (fun _ _ => rfl) fun _ => spared_iff.2
  sync := rfl
  challenges := rfl
  pdns := rfl
  recursor := rfl

/-- The rows before the loss. -/
structure Sound (C : Config) (T : Str) (w₀ : World) : Prop where
  rows : SaneRows C Accepted w₀.store
  regular : RegularRows C.env.cases w₀.store
  restorable : Restorable C T w₀

theorem ensures_created {β : Type} {t : ℕ} (ht : t ≠ 0) {f : ℕ → Act β}
    {Q : Except Err β → World → Prop}
    (h : Ensures (Act.Steps U False) Q w (f t)) :
    Ensures (Act.Steps U False) Q w ((if t = 0 then Act.now else pure t) >>= f) := by
  rw [if_neg ht]
  exact h

theorem orNow_of_ne_zero {t : ℕ} (h : t ≠ 0) : Store.orNow t now = t := if_neg h

theorem createTemplate_ok {t : Store.Template} {templates : Table Store.Template}
    (hc : t.createdAt ≠ 0)
    (hfree : S.templateNameTaken U t = false)
    (hi : S.templates.insert { t with updatedAt := Store.orNow t.updatedAt t.createdAt } =
      some templates) (now : ℕ) :
    S.createTemplate U now t = (.ok (), { S with templates := templates }) := by
  unfold Store.createTemplate
  dsimp only
  rw [orNow_of_ne_zero hc, if_neg (by simp [hfree]), hi]

theorem template_back (hs : Sound C T w₀) (him : im.target = T ∧ im.overwrite = false)
    (h : Restoring k T doc w₀ ts zs ms w) {t : Store.Template} (ht : t ∈ w₀.store.templates)
    (hT : t.tenantID = T) :
    Ensures (Act.Steps C.env.cases False) (fun r w' => (∃ res', r = .ok res') ∧
      Restoring k T doc w₀ (ts ++ [t]) zs ms w') w (im.template res t) := by
  obtain ⟨⟨-, -⟩, hname, hdesc⟩ := hs.rows.templates t ht
  have hcreated := hs.regular.templates t ht
  unfold Backup.Importer.template
  rw [him.1, him.2]
  refine Act.ensures_store ?_
  dsimp only [StoreCall.step]
  cases hget : w.store.getTemplate T t.id with
  | ok x =>
    obtain ⟨hx, hid, -⟩ := Store.getTemplate_eq_ok.1 hget
    have hstand := h.templates.of_clash templateBack_clash ht hx
      (Store.Template.clash_of_id _ _ hid.symm)
    exact ensures_pure ⟨⟨_, rfl⟩, { h with templates := h.templates.skip ⟨x, hx, hstand⟩ }⟩
  | error e =>
    obtain ⟨rfl, hmiss⟩ := Store.getTemplate_eq_error hget
    have hgone : ∀ x ∈ w.store.templates, ¬ ∃ n, k.templateBack T (fun _ => n) t = x := by
      rintro x hx ⟨n, rfl⟩
      exact hmiss _ hx templateBack_id (templateBack_tenantID.trans hT)
    have hlost : k.LostTemplate T t := by
      by_contra hkept
      obtain ⟨x, hx, hr⟩ := h.templates.to_new t ht (.inl hkept)
      exact hgone x hx hr
    refine Ensures.ite (fun hne => by cases hne) fun _ => ?_
    refine ensures_created hcreated (Act.ensures_now (Act.ensures_store ?_))
    -- the row is the old one at a later time
    have hrow (n : ℕ) : k.templateBack T (fun _ => n) t = { t with updatedAt := n } := if_pos hlost
    obtain ⟨templates, hi, hback⟩ := h.templates.insert templateBack_clash ht
      ⟨Store.orNow (w.times w.ticks) t.createdAt, hrow _⟩ hgone
    have hfree : w.store.templateNameTaken C.env.cases t = false := by
      refine templateNameTaken_eq_false.2 fun x hx htenant hfold => ?_
      obtain ⟨y, hy, n, rfl⟩ := h.templates.from_old x hx
      rw [templateBack_tenantID] at htenant
      rw [templateBack_name] at hfold
      rw [templateBack_id]
      exact hs.regular.names y hy t ht htenant hfold
    have hstep := createTemplate_ok (t := { t with updatedAt := w.times w.ticks }) hcreated hfree hi
      (w.times (w.ticks + 1))
    subst hT
    dsimp only [StoreCall.step]
    rw [hname, hdesc, hstep]
    exact ensures_pure ⟨⟨_, rfl⟩, { h with templates := hback }⟩

theorem createZone_ok {zones : Table Store.Zone} (hc : z.createdAt ≠ 0)
    (hi : S.zones.insert { z with updatedAt := Store.orNow z.updatedAt z.createdAt } = some zones)
    (now : ℕ) :
    S.createZone now z = (.ok (), { S with zones := zones }) := by
  unfold Store.createZone
  dsimp only
  rw [orNow_of_ne_zero hc, hi]

theorem keepTemplate_back (him : im.target = T) (h : Restoring k T doc w₀ ts zs ms w)
    (hts : ∀ t ∈ w₀.store.templates, k.LostTemplate T t → t ∈ ts)
    (hdoc : ∀ id, id ∈ doc.templates.map Store.Template.id ↔
      ∃ t ∈ w₀.store.templates, t.tenantID = T ∧ t.id = id)
    (id : Str) :
    Ensures (Act.Steps C.env.cases False)
      (fun r w' => r = .ok (if id ∈ doc.templates.map Store.Template.id then id else []) ∧ w' = w) w
      (im.keepTemplate id) := by
  unfold Backup.Importer.keepTemplate
  rw [him]
  refine Ensures.ite (fun hid => ensures_pure ⟨?_, rfl⟩) fun _ => Act.ensures_store ?_
  · rw [hid, ite_self]
  · dsimp only [StoreCall.step]
    cases hget : w.store.getTemplate T id with
    | ok x =>
      refine ensures_pure ⟨?_, rfl⟩
      obtain ⟨hx, hid, hxT⟩ := Store.getTemplate_eq_ok.1 hget
      obtain ⟨y, hy, n, rfl⟩ := h.templates.from_old x hx
      rw [templateBack_tenantID] at hxT
      rw [templateBack_id] at hid
      rw [if_pos ((hdoc id).2 ⟨y, hy, hxT, hid⟩)]
    | error e =>
      refine ensures_pure ⟨?_, rfl⟩
      rw [if_neg fun hmem => ?_]
      obtain ⟨t, ht, hT, hid⟩ := (hdoc id).1 hmem
      obtain ⟨x, hx, n, rfl⟩ := h.templates.to_new t ht
        (or_iff_not_imp_left.2 fun hl => hts t ht (not_not.1 hl))
      exact (Store.getTemplate_eq_error hget).2 _ hx (templateBack_id.trans hid)
        (templateBack_tenantID.trans hT)

theorem linked_eq {live : PDNS.Zone} (him : im.target = z.tenantID)
    (hz : z.pdnsID = z.name) (hid : live.id = z.name)
    (hkind : Store.Kind.fromPDNS C.env.cases live.kind = some z.kind)
    (hmasters : live.masters = z.masters)
    (hdnssec : live.dnssec = z.dnssec) (bind : Str) :
    im.linked C (Backup.zoneRow z bind) live = z := by
  unfold Backup.Importer.linked Backup.zoneRow
  have horigin : (if z.origin.text = str "ipam" then .ipam else .manual : Store.Origin) =
      z.origin := by
    cases z.origin <;> rfl
  have hp : (if live.id = [] then z.name else live.id) = z.pdnsID := by rw [hid, ite_self, hz]
  simp only [him, hp, hkind, hmasters, hdnssec, Option.getD_some, horigin]

theorem onServer_of_agrees {s : PDNS.Server} (hlow : toLower C.env.cases z.name = z.name)
    (h : ZoneAgrees C s z) : z.name ∈ s.listZoneNames.map (toLower C.env.cases) := by
  obtain ⟨-, live, hlive, hname, -⟩ := h
  refine List.mem_map.2 ⟨z.name, ?_, hlow⟩
  rw [PDNS.Server.listZoneNames, mem_insertionSort]
  exact List.mem_map.2 ⟨live, (PDNS.Server.zone_eq_some.1 hlive).1, hname⟩

theorem link_back (him : im.target = T) (h : Restoring k T doc w₀ ts zs ms w)
    (hts : ∀ t ∈ w₀.store.templates, k.LostTemplate T t → t ∈ ts)
    (hdoc : ∀ id, id ∈ doc.templates.map Store.Template.id ↔
      ∃ t ∈ w₀.store.templates, t.tenantID = T ∧ t.id = id)
    (hz : z ∈ w₀.store.zones) (hlost : k.LostZone T z)
    (hgone : ∀ x ∈ w.store.zones, ¬ ∃ n, k.zoneBack T doc (fun _ => n) z = x)
    (hcreated : z.createdAt ≠ 0)
    {row : Backup.ZoneRow} {live : PDNS.Zone} (hlinked : im.linked C row live = z)
    (haccount : live.account = T) :
    Ensures (Act.Steps C.env.cases False) (fun r w' => (∃ res', r = .ok res') ∧
      Restoring k T doc w₀ ts (zs ++ [z]) ms w') w (im.link C res row live) := by
  unfold Backup.Importer.link
  rw [hlinked]
  refine ensures_created hcreated (Act.ensures_now ?_)
  have hclock : Restoring k T doc w₀ ts zs ms { w with ticks := w.ticks + 1 } := { h with }
  refine (keepTemplate_back him hclock hts hdoc z.templateID).bind (fun id w' hid => ?_)
    fun e w' he => by cases he.1
  obtain ⟨hid, rfl⟩ := hid
  cases hid
  refine Act.ensures_store ?_
  obtain ⟨zones, hi, hback⟩ := h.zones.insert zoneBack_clash hz
    ⟨Store.orNow (w.times w.ticks) z.createdAt, if_pos hlost⟩ hgone
  have hstep := createZone_ok (z := { z with
    templateID := if z.templateID ∈ doc.templates.map Store.Template.id then z.templateID else []
    updatedAt := w.times w.ticks }) hcreated hi (w.times (w.ticks + 1))
  dsimp only [StoreCall.step]
  rw [hstep]
  -- the account is the tenant's already
  have hrelabel : Ensures (Act.Steps C.env.cases False)
      (fun r w' => r = .ok () ∧ w' = { w with ticks := w.ticks + 1, store := { w.store with zones }
        })
      { w with ticks := w.ticks + 1, store := { w.store with zones } } (im.relabel z.pdnsID live) :=
    Ensures.ite (fun _ => ensures_pure ⟨rfl, rfl⟩) fun hne => absurd (haccount.trans him.symm) hne
  refine hrelabel.bind (fun _ w' hw' => ?_) fun e w' he => by cases he.1
  obtain ⟨-, rfl⟩ := hw'
  exact ensures_pure ⟨⟨_, rfl⟩, { h with zones := hback }⟩

theorem zone_back (hs : Sound C T w₀) (him : im.target = T ∧ im.overwrite = false)
    (h : Restoring k T doc w₀ ts zs ms w)
    (hts : ∀ t ∈ w₀.store.templates, k.LostTemplate T t → t ∈ ts)
    (hdoc : ∀ id, id ∈ doc.templates.map Store.Template.id ↔
      ∃ t ∈ w₀.store.templates, t.tenantID = T ∧ t.id = id)
    (hz : z ∈ w₀.store.zones) (hT : z.tenantID = T) (bind : Str) :
    Ensures (Act.Steps C.env.cases False) (fun r w' => (∃ res', r = .ok res') ∧
      Restoring k T doc w₀ ts (zs ++ [z]) ms w') w
      (im.zone C (w₀.pdns.listZoneNames.map (toLower C.env.cases)) res
        (Backup.zoneRow z bind)) := by
  have hcreated := hs.regular.zones z hz
  have hlow : toLower C.env.cases z.name = z.name :=
    (zoneName_spec (hs.rows.zones z hz).1.name).toLower_eq
  have hagrees := hs.restorable.zones z hz hT
  have honServer := onServer_of_agrees hlow hagrees
  obtain ⟨hpdnsID, live, hlive, -, haccount, hkind, hmasters, hdnssec⟩ := hagrees
  rw [Option.mem_def] at hlive
  unfold Backup.Importer.zone
  rw [him.1, him.2]
  refine Act.ensures_store ?_
  dsimp only [StoreCall.step]
  have hrowname : (Backup.zoneRow z bind).name = z.name := rfl
  rw [hrowname]
  cases hget : w.store.getZoneByName T z.name with
  | ok x =>
    obtain ⟨hx, -, hname⟩ := Store.getZoneByName_eq_ok.1 hget
    have hstand := h.zones.of_clash zoneBack_clash hz hx (by simp [Keyed.clash, hname])
    exact ensures_pure ⟨⟨_, rfl⟩, { h with zones := h.zones.skip ⟨x, hx, hstand⟩ }⟩
  | error e =>
    obtain ⟨rfl, hmiss⟩ := Store.getZoneByName_eq_error hget
    have hgone : ∀ x ∈ w.store.zones, ¬ ∃ n, k.zoneBack T doc (fun _ => n) z = x := by
      rintro x hx ⟨n, rfl⟩
      exact hmiss _ hx (zoneBack_tenantID.trans hT) zoneBack_name
    have hlost : k.LostZone T z := by
      by_contra hkept
      obtain ⟨x, hx, hr⟩ := h.zones.to_new z hz (.inl hkept)
      exact hgone x hx hr
    have hapart : w.store.zoneConflict C.env.cases T z.name = false := by
      refine Store.zoneConflict_eq_false.2 fun x hx hxT => ?_
      rw [hlow]
      obtain ⟨y, hy, n, rfl⟩ := h.zones.from_old x hx
      rw [zoneBack_tenantID] at hxT
      rw [zoneBack_name]
      exact hs.restorable.apart z hz y hy hT hxT
    refine Ensures.ite (fun hne => by cases hne) fun _ => ?_
    refine Ensures.ite (fun hno => absurd honServer hno) fun _ => ?_
    refine Act.ensures_read (a := false)
      (by dsimp only [StoreCall.step]; rw [him.1, hrowname, hapart]) ?_
    refine Ensures.ite (fun hne => by cases hne) fun _ => ?_
    refine Act.ensures_pdns ?_ fun hf => hf.elim
    have hlive' : PDNSCall.step C.env.cases w.pdns (.getZone (Backup.zoneRow z bind).name) =
        (.ok live, w.pdns) := by
      simp only [PDNSCall.step, PDNS.Server.getZone, hrowname, h.pdns, hlive]
    rw [hlive']
    have howner : im.ownAccount live.account = true := by
      simp [Backup.Importer.ownAccount, haccount, him.1, hT]
    refine Ensures.ite (fun hne => by simp [howner] at hne) fun _ => ?_
    have hlinked := linked_eq (him.1.trans hT.symm) hpdnsID (PDNS.Server.zone_eq_some.1 hlive).2
      hkind hmasters
      hdnssec bind
    exact link_back him.1 h hts hdoc hz hlost hgone hcreated hlinked (haccount.trans hT)

theorem createSupermaster_ok {m : Store.Supermaster} {entries : Table Store.Supermaster}
    (hc : m.createdAt ≠ 0) (hip : Store.canonIP m.ip = some m.ip)
    (hi : S.supermasters.insert m = some entries)
    (now : ℕ) : S.createSupermaster now m = (.ok (), { S with supermasters := entries }) := by
  unfold Store.createSupermaster
  rw [hip]
  dsimp only
  rw [orNow_of_ne_zero hc, hi]

theorem supermaster_back (hs : Sound C T w₀) (him : im.target = T)
    (h : Restoring k T doc w₀ ts zs ms w)
    {m : Store.Supermaster} (hm : m ∈ w₀.store.supermasters) (hT : m.tenantID = T) :
    Ensures (Act.Steps C.env.cases False) (fun r w' => (∃ res', r = .ok res') ∧
      Restoring k T doc w₀ ts zs (ms ++ [m]) w') w
        (im.supermaster C w₀.pdns.supermasters.rows res m) := by
  have hcreated := hs.regular.supermasters m hm
  have hsettled := (hs.rows.supermasters m hm).2
  have hcanon := hsettled.canonIP
  obtain ⟨hns, g, hg, hip⟩ := hsettled
  obtain ⟨hentries, howned⟩ := hs.restorable.supermasters m hm hT
  subst hT
  unfold Backup.Importer.supermaster
  rw [him]
  simp only [hg, hns, hip, Except.toOption, Option.map_some, Option.getD_some]
  refine ensures_created hcreated (Act.ensures_store ?_)
  dsimp only [StoreCall.step]
  cases hget : w.store.getSupermaster m.tenantID m.id with
  | ok x =>
    obtain ⟨hx, hid, -⟩ := Store.getSupermaster_eq_ok.1 hget
    have hstand := h.supermasters.of_clash (fun h c => by rw [h]) hm hx
      (Store.Supermaster.clash_of_id _ _ hid.symm)
    exact ensures_pure ⟨⟨_, rfl⟩, { h with supermasters := h.supermasters.skip ⟨x, hx, hstand⟩ }⟩
  | error e =>
    obtain ⟨rfl, hmiss⟩ := Store.getSupermaster_eq_error hget
    have hgone : ∀ x ∈ w.store.supermasters, m ≠ x := fun x hx hmx =>
      hmiss x hx (hmx ▸ rfl) (hmx ▸ rfl)
    have hothers : ¬ ((Backup.Importer.entriesOf m.ip m.nameserver w₀.pdns.supermasters.rows).any
        fun x => !im.ownAccount x.account) = true := by
      rw [any_eq_true]
      rintro ⟨x, hx, hx'⟩
      simp [Backup.Importer.ownAccount, howned x hx, him] at hx'
    refine Ensures.ite (fun hne => by cases hne) fun _ => ?_
    refine Ensures.ite (fun hne => absurd hne hothers) fun _ => ?_
    refine Ensures.ite (fun _ => ?_) fun hnil => absurd hentries hnil
    obtain ⟨entries, hi, hback⟩ := h.supermasters.insert (fun h c => by rw [h]) hm rfl hgone
    refine Act.ensures_store ?_
    dsimp only [StoreCall.step]
    rw [createSupermaster_ok hcreated hcanon hi]
    exact ensures_pure ⟨⟨_, rfl⟩, { h with supermasters := hback }⟩

theorem each_back {α : Type} {step : Backup.Result → α → Act Backup.Result}
    {I : List α → World → Prop} {as : List α}
    (hstep : ∀ res done w, ∀ a ∈ as, I done w → Ensures (Act.Steps U False)
      (fun r w' => (∃ res', r = .ok res') ∧ I (done ++ [a]) w') w (step res a))
    {done : List α} (h : I done w) (res : Backup.Result) : Ensures (Act.Steps U False)
      (fun r w' => (∃ res', r = .ok res') ∧ I (done ++ as) w') w
      (Backup.Importer.each step res as) := by
  induction as generalizing done w res with
  | nil => exact ensures_pure ⟨⟨_, rfl⟩, by rwa [append_nil]⟩
  | cons a as ih =>
    refine (hstep res done w a (mem_cons_self ..) h).bind (fun res' w' h' => ?_) fun e w' h' => ?_
    · have hrest := ih (fun res done w a ha => hstep res done w a (mem_cons_of_mem _ ha)) h'.2 res'
      rwa [append_assoc, singleton_append] at hrest
    · obtain ⟨⟨_, he⟩, -⟩ := h'
      cases he

theorem zones_back (hs : Sound C T w₀) (hdoc : Exported C.env.cases T w₀.store doc)
    (him : im.target = T ∧ im.overwrite = false) (h : Restoring k T doc w₀ doc.templates [] [] w) :
    Ensures (Act.Steps C.env.cases False) (fun r w' => (∃ res', r = .ok res') ∧ ∃ zs,
      Restoring k T doc w₀ doc.templates zs [] w' ∧ ∀ z ∈ w₀.store.zones, z.tenantID = T → z ∈ zs) w
      (im.zones C res doc.zones) := by
  have htemplate {t : Store.Template} : t ∈ doc.templates ↔ t ∈ w₀.store.templates ∧
      t.tenantID = T := by
    rw [hdoc.templates, Store.mem_tenantTemplates]
  have hids (id : Str) : id ∈ doc.templates.map Store.Template.id ↔
      ∃ t ∈ w₀.store.templates, t.tenantID = T ∧ t.id = id := by
    simp only [List.mem_map, htemplate, and_assoc]
  have hrows : ∀ z ∈ w₀.store.zones, z.tenantID = T →
      ∃ row ∈ doc.zones, row.id = z.id := fun z hz hT => by
    obtain ⟨row, hrow, bind, rfl⟩ := forall₂_mem_right hdoc.zones.flip
      (Store.mem_zonesForTenant.2 ⟨hz, hT⟩)
    exact ⟨_, hrow, rfl⟩
  refine Ensures.ite (fun hnil => ensures_pure ⟨⟨_, rfl⟩, [], h, fun z hz hT => ?_⟩) fun _ => ?_
  · obtain ⟨row, hrow, -⟩ := hrows z hz hT
    rw [hnil] at hrow
    cases hrow
  · refine Act.ensures_look (a := w₀.pdns.listZoneNames) (by rw [h.pdns]; rfl) ?_
    -- the rows that are back are those of the document zones that are done
    refine (each_back (I := fun done w => ∃ zs, Restoring k T doc w₀ doc.templates zs [] w ∧
      ∀ row ∈ done, ∀ z ∈ w₀.store.zones, z.id = row.id → z ∈ zs) (fun res done w row hrow h => ?_)
      ⟨[], h, fun _ hrow => absurd hrow not_mem_nil⟩ res).mono fun r w' h' => ⟨h'.1, ?_⟩
    · obtain ⟨zs, h, hzs⟩ := h
      obtain ⟨z, hz, bind, rfl⟩ := forall₂_mem_right hdoc.zones hrow
      obtain ⟨hz, hT⟩ := Store.mem_zonesForTenant.1 hz
      refine (zone_back hs him h (fun t ht hl => htemplate.2 ⟨ht, hl.1⟩) hids hz hT bind).mono
          fun r w' h' =>
        ⟨h'.1, zs ++ [z], h'.2, fun row hrow y hy hid => ?_⟩
      rcases mem_append.1 hrow with hrow | hrow
      · exact mem_append_left _ (hzs row hrow y hy hid)
      · rw [mem_singleton.1 hrow] at hid
        rw [Table.eq_of_clash hy hz (by simp [Keyed.clash, hid, Backup.zoneRow])]
        exact mem_append_right _ (mem_singleton_self z)
    · obtain ⟨-, zs, h', hzs⟩ := h'
      refine ⟨zs, h', fun z hz hT => ?_⟩
      obtain ⟨row, hrow, hid⟩ := hrows z hz hT
      exact hzs row hrow z hz hid.symm

theorem supermasters_back (hs : Sound C T w₀) (hdoc : Exported C.env.cases T w₀.store doc)
    (him : im.target = T)
    (hadmin : im.subj.isPlatformAdmin = true) (h : Restoring k T doc w₀ ts zs [] w) :
    Ensures (Act.Steps C.env.cases False) (fun r w' => (∃ res', r = .ok res') ∧
      Restoring k T doc w₀ ts zs doc.supermasters w') w
        (im.supermasters C res doc.supermasters) := by
  have hmem : ∀ m ∈ doc.supermasters, m ∈ w₀.store.supermasters ∧ m.tenantID = T := fun m hm =>
    Store.mem_tenantSupermasters.1 (hdoc.supermasters ▸ hm)
  refine Ensures.ite (fun hnil => ensures_pure ⟨⟨_, rfl⟩, hnil ▸ h⟩) fun _ => ?_
  refine Ensures.ite (fun hne => by simp [hadmin] at hne) fun _ => ?_
  refine Act.ensures_look (a := w₀.pdns.supermasters.rows) (by rw [h.pdns]; rfl) ?_
  refine each_back (I := fun done w => Restoring k T doc w₀ ts zs done w)
    (fun res done w m hm h => ?_) h res
  obtain ⟨hm, hT⟩ := hmem m hm
  exact supermaster_back hs him h hm hT

theorem run_back (hs : Sound C T w₀) (hdoc : Exported C.env.cases T w₀.store doc)
    (him : im.target = T ∧ im.overwrite = false) (hadmin : im.subj.isPlatformAdmin = true)
    (h : Restoring k T doc w₀ [] [] [] w) :
    Ensures (Act.Steps C.env.cases False) (fun r w' => (∃ res', r = .ok res') ∧ ∃ zs,
      Restoring k T doc w₀ doc.templates zs doc.supermasters w' ∧
        ∀ z ∈ w₀.store.zones, z.tenantID = T → z ∈ zs) w (im.run C res doc false) := by
  have hno {α : Type} {e : Err} (h : ∃ a : α, (.error e : Except Err α) = .ok a) : False := by
    obtain ⟨_, h⟩ := h
    cases h
  unfold Backup.Importer.run
  refine Ensures.bind (Q := fun r w' => r = .ok () ∧ w' = w) (ensures_pure ⟨rfl, rfl⟩)
    (fun _ w' hw' => ?_)
    fun e w' he => by cases he.1
  obtain ⟨-, rfl⟩ := hw'
  refine (each_back (I := fun ts w => Restoring k T doc w₀ ts [] [] w)
    (fun res done w t ht h => ?_) h res).bind
    (fun res w₁ h₁ => ?_) fun e w' h' => (hno h'.1).elim
  · rw [hdoc.templates] at ht
    obtain ⟨ht, hT⟩ := Store.mem_tenantTemplates.1 ht
    exact template_back hs him h ht hT
  refine (zones_back hs hdoc him h₁.2).bind (fun res w₂ h₂ => ?_) fun e w' h' => (hno h'.1).elim
  obtain ⟨-, zs, h₂, hzs⟩ := h₂
  exact (supermasters_back hs hdoc him.1 hadmin h₂).mono fun r w₃ h₃ => ⟨h₃.1, zs, h₃.2, hzs⟩

theorem import_back (hs : Sound C T w₀) (hdoc : Exported C.env.cases T w₀.store doc)
    {subj : Subjects}
    (hadmin : subj.isPlatformAdmin = true) {mode : Str} (hT : Backup.target C subj tenantID = .ok T)
    (hmode : mode ≠ str "overwrite") (h : Restoring k T doc w₀ [] [] [] w) :
    Ensures (Act.Steps C.env.cases False) (fun r w' => (∃ res', r = .ok res') ∧ ∃ zs,
      Restoring k T doc w₀ doc.templates zs doc.supermasters w' ∧
        ∀ z ∈ w₀.store.zones, z.tenantID = T → z ∈ zs) w
          (Backup.import C subj doc ⟨mode, tenantID, false⟩) := by
  have hvalid := hs.rows.validate hs.restorable.uuid hs.restorable.size hdoc
  unfold Backup.import
  refine ensures_check (fun t ht => ?_) fun e he => by rw [hT] at he; cases he
  rw [hT] at ht
  cases ht
  refine ensures_check (fun _ _ => ?_) fun e he => by cases he
  refine ensures_check (fun _ _ => ?_) fun e he => by rw [hvalid] at he; cases he
  dsimp only
  rw [if_neg (by simp [hdoc.tenantID])]
  exact run_back hs hdoc ⟨rfl, by simpa using hmode⟩ hadmin h

theorem export_ok {subj : Subjects} (hT : Backup.target C subj tenantID = .ok T) :
    Ensures (Act.Steps U False) (fun r w' => ∃ doc, r = .ok doc ∧ Exported U T w.store doc ∧
      w' = { w with ticks := w.ticks + 1 }) w (Backup.export C subj tenantID) := by
  unfold Backup.export
  refine ensures_check (fun t ht => ?_) fun e he => by rw [hT] at he; cases he
  rw [hT] at ht
  cases ht
  refine Act.ensures_now (Act.ensures_read rfl ?_)
  refine (exportZones_spec (I := fun w' => w' = { w with ticks := w.ticks + 1 })
    (fun hw hr => ?_) rfl).bind
    (fun rows w' h => ?_) fun e w' h => ?_
  · rcases hr with hd | ⟨hf, -⟩
    · rw [(Prod.mk.inj hd).2, hw]
      rfl
    · exact hf.elim
  · obtain ⟨rfl, _, ⟨⟩, hrows⟩ := h
    refine Act.ensures_read rfl (Act.ensures_read rfl
      (ensures_pure ⟨_, rfl, ⟨rfl, rfl, hrows, rfl, rfl⟩, rfl⟩))
  · obtain ⟨-, _, ⟨⟩, -⟩ := h

theorem Restoring.restored (h : Restoring k T doc w₀ ts zs ms w)
    (hts : ∀ t ∈ w₀.store.templates, t.tenantID = T → t ∈ ts)
    (hzs : ∀ z ∈ w₀.store.zones, z.tenantID = T → z ∈ zs)
    (hms : ∀ m ∈ w₀.store.supermasters, m.tenantID = T → m ∈ ms) : Restored k T doc w₀ w where
  zones := by
    refine h.zones.image Store.Zone.clash_of_id (fun n z c => zoneBack_clash ⟨n, rfl⟩ c) fun z hz =>
      ?_
    exact or_iff_not_imp_left.2 fun hl => hzs z hz (not_not.1 hl).1
  templates := by
    refine h.templates.image Store.Template.clash_of_id (fun n t c => templateBack_clash ⟨n, rfl⟩ c)
      fun t ht => ?_
    exact or_iff_not_imp_left.2 fun hl => hts t ht (not_not.1 hl).1
  supermasters := fun m => by
    refine ⟨fun hm => ?_, fun hm => ?_⟩
    · obtain ⟨_, hm', rfl⟩ := h.supermasters.from_old m hm
      exact hm'
    · obtain ⟨_, hm', rfl⟩ := h.supermasters.to_new m hm (or_iff_not_imp_left.2 fun hl =>
        hms m hm (not_not.1 hl).1)
      exact hm'
  sync := h.sync
  challenges := h.challenges
  pdns := h.pdns
  recursor := h.recursor

/-! ## The round trip -/

theorem throughout_of_service {M : Store.Kind → List Str → Prop} {ms : List Moment}
    (h : ∀ m ∈ ms, m.Service)
    (w : World) : Throughout C (Mirrors C M) ms w := by
  induction ms generalizing w with
  | nil => trivial
  | cons m ms ih =>
    refine ⟨?_, ih (fun m hm => h m (mem_cons_of_mem _ hm)) _⟩
    have hm := h m (mem_cons_self ..)
    cases m with
    | live s => trivial
    | change c plan =>
      cases c with
      | load subj b opts => exact hm.elim
      | _ => trivial

/-- **A tenant gets its lost rows back from its document**: after every history of the zone,
    template and supermaster services, for a tenant whose rows fit in a document, overlap no zone of
    others and agree with PowerDNS, an export and an import after the loss of any of the rows leave
    the rows as they were. -/
theorem backup_restores (C : Config) (w : World) (hw : Blank w) (hclock : ∀ n, w.times n ≠ 0)
    (ms : List Moment)
    (hms : ∀ m ∈ ms, m.Service) (subj admin : Subjects) (tenantID tenantID' T mode : Str)
    (hT : Backup.target C subj tenantID = .ok T) (hT' : Backup.target C admin tenantID' = .ok T)
    (hadmin : admin.isPlatformAdmin = true) (hmode : mode ≠ str "overwrite")
    (hr : Restorable C T (runHistory C ms w)) (k : Spared) :
    ∃ doc w₁ res w₂, exec (handler C.env.cases) (Backup.export C subj tenantID)
        (runHistory C ms w) = (.ok doc, w₁) ∧
      exec (handler C.env.cases) (Backup.import C admin doc ⟨mode, tenantID', false⟩)
        { w₁ with store := k.lose T w₁.store } = (.ok res, w₂) ∧
      Restored k T doc (runHistory C ms w) w₂ := by
  have hsane : Sane C Accepted [] (runHistory C ms w) :=
    history_sane covers_accepted hw.sane (throughout_of_service hms w)
  have hregular : RegularRows C.env.cases (runHistory C ms w).store :=
    (history_clocked ⟨hclock, hw.regularRows⟩).2
  have hs : Sound C T (runHistory C ms w) := ⟨hsane.store, hregular, hr⟩
  obtain ⟨doc, hdoc, hexported, hw₁⟩ :=
    Act.ensures_exec (export_ok (U := C.env.cases) (w := runHistory C ms w) hT)
  -- the import starts in the world after the export, which only the clock has changed
  have hstart : Restoring k T doc (runHistory C ms w) [] [] []
      { runHistory C ms w with
        ticks := (runHistory C ms w).ticks + 1, store := k.lose T (runHistory C ms w).store } :=
    { restoring_start with }
  obtain ⟨⟨res, hres⟩, zs, hback, hzs⟩ :=
    Act.ensures_exec (import_back hs hexported hadmin hT' hmode hstart)
  refine ⟨doc, _, res, _, Prod.ext hdoc hw₁, Prod.ext hres rfl,
    hback.restored (fun t ht hT => ?_) hzs fun m hm hT => ?_⟩
  · rw [hexported.templates]
    exact Store.mem_tenantTemplates.2 ⟨ht, hT⟩
  · rw [hexported.supermasters]
    exact Store.mem_tenantSupermasters.2 ⟨hm, hT⟩

def freshWorld : World := { World.empty with
  times := fun _ => 1
  ids := fun _ => str "00000000-0000-4000-8000-000000000002" }

def tenantAdmin : Subjects := .user (str "00000000-0000-4000-8000-000000000003") (str "u")
    [str "platform-admin"]

def threeRows : List Moment :=
  [.change (.createTemplate tenantAdmin
    ⟨str "web", [], [⟨str "@", str "A", 3600, str "192.0.2.1", 0⟩]⟩) fun _ _ => .done,
   .change (.createZone tenantAdmin ⟨str "example.com.", str "slave", [str "192.0.2.1"], [], false,
     [], [], [], []⟩)
     fun _ _ => .done,
   .change (.createSupermaster tenantAdmin ⟨str "192.0.2.1", str "ns.example.net."⟩) fun _ _ =>
     .done]

def noneSpared : Spared := ⟨fun _ => false, fun _ => false, fun _ => false⟩

/-- The three rows are lost and come back. -/
theorem backup_restores_all : ∃ doc w₁ res w₂,
    exec (handler Config.sample.env.cases) (Backup.export .sample tenantAdmin [])
      (runHistory .sample threeRows freshWorld) = (.ok doc, w₁) ∧
    exec (handler Config.sample.env.cases) (Backup.import .sample tenantAdmin doc ⟨[], [], false⟩)
      { w₁ with store := noneSpared.lose tenantAdmin.tenantID w₁.store } = (.ok res, w₂) ∧
    Restored noneSpared tenantAdmin.tenantID doc (runHistory .sample threeRows freshWorld) w₂ := by
  have hid : Backup.isUUID (str "00000000-0000-4000-8000-000000000002") = true := by decide +kernel
  refine backup_restores .sample freshWorld ⟨rfl, rfl, rfl, fun _ => hid⟩ (fun _ => Nat.one_ne_zero)
    threeRows ?_ tenantAdmin
    tenantAdmin [] [] _ [] (by decide +kernel) (by decide +kernel) (by decide +kernel)
      (by decide +kernel) ?_ _
  · intro m hm
    simp only [threeRows, mem_cons, not_mem_nil, or_false] at hm
    rcases hm with rfl | rfl | rfl <;> trivial
  · exact ⟨by decide +kernel, ⟨by decide +kernel, by decide +kernel, by decide +kernel⟩,
      show ∀ z ∈ (runHistory .sample threeRows freshWorld).store.zones.rows, _ by decide +kernel,
      show ∀ z ∈ (runHistory .sample threeRows freshWorld).store.zones.rows, _ by decide +kernel,
      show ∀ m ∈ (runHistory .sample threeRows freshWorld).store.supermasters.rows,
          _ by decide +kernel⟩

end Import

/-! ## The rows of every history -/

theorem throughout_any (C : Config) (ms : List Moment) (w : World) :
    Throughout C (Mirrors C fun _ _ => True) ms w := by
  induction ms generalizing w with
  | nil => trivial
  | cons m ms ih =>
    refine ⟨?_, ih _⟩
    unfold Mirrors
    split
    exacts [fun _ _ _ _ => trivial, trivial]

/-- **The rows of every history**, whatever fails and whatever is imported: each passes the checks
    of its service again, kind and primaries of zones apart, and has its time of creation; no two
    templates of a tenant have one name in any letter case, no two zones have one name, and no two
    supermasters are one server, in any spellings that the checks read alike. -/
theorem history_rows (C : Config) (w : World) (hw : Blank w) (hclock : ∀ n, w.times n ≠ 0)
    (ms : List Moment) :
    SaneRows C (fun _ _ => True) (runHistory C ms w).store ∧
    RegularRows C.env.cases (runHistory C ms w).store ∧
    (∀ z ∈ (runHistory C ms w).store.zones, ∀ y ∈ (runHistory C ms w).store.zones,
      zoneName C.env z.name = zoneName C.env y.name → z = y) ∧
    ∀ m ∈ (runHistory C ms w).store.supermasters, ∀ n ∈ (runHistory C ms w).store.supermasters,
      ipGuard m.ip = ipGuard n.ip → hostname C.env m.nameserver = hostname C.env n.nameserver →
      m = n := by
  have hsane := (history_sane (fun _ _ _ _ _ => trivial) hw.sane (throughout_any C ms w)).store
  refine ⟨hsane, (history_clocked ⟨hclock, hw.regularRows⟩).2, fun z hz y hy h => ?_,
    fun m hm n hn hip hns => ?_⟩
  · rw [(hsane.zones z hz).1.name, (hsane.zones y hy).1.name] at h
    exact Table.eq_of_clash hz hy (by simp [Keyed.clash, Except.ok.inj h])
  · obtain ⟨-, hself, g, hg, htext⟩ := hsane.supermasters m hm
    obtain ⟨-, hself', g', hg', htext'⟩ := hsane.supermasters n hn
    rw [hself, hself'] at hns
    rw [hg, hg'] at hip
    refine Table.eq_of_clash hm hn ?_
    simp [Keyed.clash, ← htext, ← htext', Except.ok.inj hip, Except.ok.inj hns]

/-- The rows of three creations. -/
theorem history_rows_sample :
    ∃ m ∈ (runHistory .sample threeRows freshWorld).store.supermasters,
      ∀ n ∈ (runHistory .sample threeRows freshWorld).store.supermasters,
        ipGuard m.ip = ipGuard n.ip →
        hostname Config.sample.env m.nameserver = hostname Config.sample.env n.nameserver →
        m = n := by
  have hid : Backup.isUUID (str "00000000-0000-4000-8000-000000000002") = true := by decide +kernel
  have hrows : (runHistory .sample threeRows freshWorld).store.supermasters.rows ≠ [] := by
    decide +kernel
  obtain ⟨m, hm⟩ := exists_mem_of_ne_nil _ hrows
  exact ⟨m, hm, (history_rows .sample freshWorld ⟨rfl, rfl, rfl, fun _ => hid⟩
    (fun _ => Nat.one_ne_zero)
    threeRows).2.2.2 m hm⟩

end TangraDns
