/-
  What every history keeps of the rows.
-/
import TangraDns.Histories
import TangraDns.Proof.Calls
import TangraDns.Proof.Canonical
import TangraDns.Proof.Exec
import TangraDns.Proof.Steps
import TangraDns.Text.Trim

namespace TangraDns

open Str Validate Prog Prog.Failing

variable {C : Config} {U : CaseTables} {M : Store.Kind → List Str → Prop}
  {rows : List Backup.ZoneRow}
variable {w w' : World} {α β : Type}

/-! ## Any failures -/

def AnyStep (U : CaseTables) : Steps Op Res World
  | .store c, w, r, w' => (r, w') = handler U (.store c) w ∨
      (w' = w ∨ w' = (handler U (.store c) w).2) ∧ ∃ e, r = .error e
  | .pdns c, w, r, w' => (r, w') = handler U (.pdns c) w ∨
      (w' = w ∨ w' = (handler U (.pdns c) w).2) ∧ ∃ e, r = .error e
  | .recursor _, w, _, w' => ∃ zones, w' = { w with recursor := zones }
  | .ipam _, w, _, w' => w' = w
  | o, w, r, w' => (r, w') = handler U o w

theorem anyStep_faulty {plan : ℕ → Op → Fate Fault} (o : Op) (s : World × ℕ) :
    AnyStep U o s.1 (faulty U plan o s).1 (faulty U plan o s).2.1 := by
  have hcases := @disturb_cases _ _ _ _ (handler U) fallible plan o s
  cases o with
  | now | newID => rfl
  | store c | pdns c =>
    obtain h | ⟨_, e, ⟨⟩, hr, ⟨-, h⟩ | ⟨-, h⟩⟩ := hcases
    exacts [.inl h, .inr ⟨.inl h, _, hr⟩, .inr ⟨.inr h, _, hr⟩]
  | recursor c => exact (disturb_state s).elim (fun h => ⟨_, h⟩) fun h => ⟨_, h⟩
  | ipam c => exact (disturb_state s).elim id id

theorem anyStep_state {o : Op} {r : Res o} (h : AnyStep U o w r w') :
    w' = w ∨ w' = (handler U o w).2 ∨ ∃ zones, w' = { w with recursor := zones } := by
  cases o with
  | now | newID => exact .inr (.inl (congrArg Prod.snd h))
  | store c | pdns c =>
    rcases h with h | ⟨h | h, -⟩
    exacts [.inr (.inl (congrArg Prod.snd h)), .inl h, .inr (.inl h)]
  | recursor c => exact .inr (.inr h)
  | ipam c => exact .inl h

/-! ## Rows after a store call -/

section StoreCalls

open Store

variable {S : Store} {c : StoreCall} {now : ℕ}

theorem step_zones {y : Zone} (hy : y ∈ (c.step U now S).2.zones) : y ∈ S.zones ∨
    (∃ z, c = .createZone z ∧ y = { z with
      createdAt := orNow z.createdAt now, updatedAt := orNow z.updatedAt (orNow z.createdAt now) })
        ∨
    ∃ z old, c = .updateZone z ∧ old ∈ S.zones ∧ y = { old with
      kind := z.kind, masters := z.masters, dnssec := z.dnssec, description := z.description,
      updatedAt := orNow z.updatedAt now } := by
  cases hc : c.writesZones with
  | false =>
    rw [(c.step_frame U now S).1 hc] at hy
    exact .inl hy
  | true =>
    cases c with
    | createZone z =>
      dsimp only [StoreCall.step, Store.createZone] at hy
      split at hy
      · exact .inl hy
      · next zones hi => exact ((Table.mem_insert hi).1 hy).imp_right fun h => .inl ⟨z, rfl, h⟩
    | updateZone z =>
      dsimp only [StoreCall.step, Store.updateZone] at hy
      split at hy
      · exact .inl hy
      · obtain ⟨old, hold, rfl⟩ := List.mem_map.1 hy
        split_ifs
        · exact .inr (.inr ⟨z, old, rfl, hold, rfl⟩)
        · exact .inl hold
    | deleteZone T id =>
      dsimp only [StoreCall.step, Store.deleteZone] at hy
      split at hy
      · exact .inl hy
      · exact .inl (Table.mem_filter.1 hy).1
    | _ => cases hc

theorem step_templates {y : Template} (hy : y ∈ (c.step U now S).2.templates) : y ∈ S.templates ∨
    (∃ t, c = .createTemplate t ∧ S.templateNameTaken U t = false ∧ y = { t with
      createdAt := orNow t.createdAt now, updatedAt := orNow t.updatedAt (orNow t.createdAt now) })
        ∨
    ∃ t old, c = .updateTemplate t ∧ S.templateNameTaken U t = false ∧
      (old ∈ S.templates ∧ old.id = t.id ∧ old.tenantID = t.tenantID) ∧ y = { old with
        name := t.name, description := t.description, records := t.records,
        updatedAt := orNow t.updatedAt now } := by
  cases hc : c.writesTemplates with
  | false =>
    rw [(c.step_frame U now S).2.2.2.1 hc] at hy
    exact .inl hy
  | true =>
    cases c with
    | createTemplate t =>
      dsimp only [StoreCall.step, Store.createTemplate] at hy
      split_ifs at hy with htaken
      · exact .inl hy
      split at hy
      · exact .inl hy
      · next templates hi =>
        exact ((Table.mem_insert hi).1 hy).imp_right fun h =>
          .inl ⟨t, rfl, by simpa using htaken, h⟩
    | updateTemplate t =>
      dsimp only [StoreCall.step, Store.updateTemplate] at hy
      split at hy
      · exact .inl hy
      · next cur hcur =>
        split_ifs at hy with htaken
        · exact .inl hy
        · obtain ⟨old, hold, rfl⟩ := List.mem_map.1 hy
          split_ifs with hid
          · obtain ⟨hmem, hcid, hct⟩ := template_eq_some.1 hcur
            -- the row of the id is the one that was found
            have hsame : old = cur := Table.eq_of_clash hold hmem (by
              simp only [Keyed.clash, beq_iff_eq] at hid ⊢
              rw [hid, hcid])
            exact .inr (.inr ⟨t, old, rfl, by simpa using htaken,
              ⟨hold, by simpa using hid, hsame ▸ hct⟩, rfl⟩)
          · exact .inl hold
    | deleteTemplate T id =>
      dsimp only [StoreCall.step, Store.deleteTemplate] at hy
      split at hy
      · exact .inl hy
      · exact .inl (Table.mem_filter.1 hy).1
    | _ => cases hc

theorem step_supermasters {y : Supermaster} (hy : y ∈ (c.step U now S).2.supermasters) :
    y ∈ S.supermasters ∨
    ∃ m ip, c = .createSupermaster m ∧ canonIP m.ip = some ip ∧ y = { m with
      ip := ip, createdAt := orNow m.createdAt now } := by
  cases hc : c.writesSupermasters with
  | false =>
    rw [(c.step_frame U now S).2.2.2.2 hc] at hy
    exact .inl hy
  | true =>
    cases c with
    | createSupermaster m =>
      dsimp only [StoreCall.step, Store.createSupermaster] at hy
      split at hy
      · exact .inl hy
      · next ip hip =>
        split at hy
        · exact .inl hy
        · next entries hi => exact ((Table.mem_insert hi).1 hy).imp_right fun h =>
            ⟨m, ip, rfl, hip, h⟩
    | deleteSupermaster T id =>
      dsimp only [StoreCall.step, Store.deleteSupermaster] at hy
      split at hy
      · exact .inl hy
      · exact .inl (Table.mem_filter.1 hy).1
    | _ => cases hc

end StoreCalls

/-! ## Rows that pass the checks -/

/-- The zone row passes the checks of a document, its primaries apart. -/
structure ZoneOK (C : Config) (z : Store.Zone) : Prop where
  id : Backup.isUUID z.id = true
  template : z.templateID = [] ∨ Backup.isUUID z.templateID = true
  name : zoneName C.env z.name = .ok z.name
  description : runeCount z.description ≤ 1000
  count : z.nameservers.length ≤ 16
  nameservers : ∀ n ∈ z.nameservers, ∃ h, hostname C.env n = .ok h

structure TemplateOK (C : Config) (name description : Str) (records : List Store.TemplateRecord) :
    Prop where
  name : trimSpace name ≠ [] ∧ runeCount (trimSpace name) ≤ 100 ∧
    (runes (trimSpace name)).any isControl = false
  description : runeCount description ≤ 1000
  records : ∃ sets, Templates.expandRecords C.env C.limits Backup.placeholderZone records = .ok sets

structure SupermasterOK (C : Config) (m : Store.Supermaster) : Prop where
  ip : ∃ g, ipGuard m.ip = .ok g
  nameserver : ∃ h, hostname C.env m.nameserver = .ok h

def Trimmed (name description : Str) : Prop :=
  trimSpace name = name ∧ trimSpace description = description

def Settled (C : Config) (m : Store.Supermaster) : Prop :=
  hostname C.env m.nameserver = .ok m.nameserver ∧ ∃ g, ipGuard m.ip = .ok g ∧ g.toStr = m.ip

theorem Settled.canonIP {m : Store.Supermaster} (h : Settled C m) :
    Store.canonIP m.ip = some m.ip := by
  obtain ⟨-, g, hg, hip⟩ := h
  rw [← hip]
  exact canonIP_toStr (ipGuard_self hg).1

/-- Every row passes the checks, zones with kinds and primaries as `M` says, and is in the form that
    the services store. -/
structure SaneRows (C : Config) (M : Store.Kind → List Str → Prop) (S : Store) : Prop where
  zones : ∀ z ∈ S.zones, ZoneOK C z ∧ M z.kind z.masters
  templates : ∀ t ∈ S.templates, (Backup.isUUID t.id = true ∧
    TemplateOK C t.name t.description t.records) ∧
    Trimmed t.name t.description
  supermasters : ∀ m ∈ S.supermasters, (Backup.isUUID m.id = true ∧ SupermasterOK C m) ∧ Settled C m

/-- What the services write. -/
def Permitted (C : Config) (M : Store.Kind → List Str → Prop) : StoreCall → Prop
  | .createZone z => ZoneOK C z ∧ M z.kind z.masters
  | .updateZone z => runeCount z.description ≤ 1000 ∧ M z.kind z.masters
  | .createTemplate t => (Backup.isUUID t.id = true ∧ TemplateOK C t.name t.description t.records) ∧
      Trimmed t.name t.description
  | .updateTemplate t => TemplateOK C t.name t.description t.records ∧ Trimmed t.name t.description
  | .createSupermaster m => (Backup.isUUID m.id = true ∧ SupermasterOK C m) ∧ Settled C m
  | _ => True

theorem SaneRows.step {S : Store} (h : SaneRows C M S) {c : StoreCall}
    (hc : Permitted C M c) (now : ℕ) :
    SaneRows C M (c.step U now S).2 := by
  refine ⟨fun y hy => ?_, fun y hy => ?_, fun y hy => ?_⟩
  · rcases step_zones hy with hy | ⟨z, rfl, rfl⟩ | ⟨z, old, rfl, hold, rfl⟩
    · exact h.zones y hy
    · exact ⟨⟨hc.1.id, hc.1.template, hc.1.name, hc.1.description, hc.1.count, hc.1.nameservers⟩,
        hc.2⟩
    · have hz := (h.zones old hold).1
      exact ⟨⟨hz.id, hz.template, hz.name, hc.1, hz.count, hz.nameservers⟩, hc.2⟩
  · rcases step_templates hy with hy | ⟨t, rfl, -, rfl⟩ | ⟨t, old, rfl, -, ⟨hold, -, -⟩, rfl⟩
    · exact h.templates y hy
    · exact hc
    · exact ⟨⟨(h.templates old hold).1.1, hc.1⟩, hc.2⟩
  · rcases step_supermasters hy with hy | ⟨m, ip, rfl, hip, rfl⟩
    · exact h.supermasters y hy
    · cases hc.2.canonIP.symm.trans hip
      exact ⟨⟨hc.1.1, hc.1.2.ip, hc.1.2.nameserver⟩, hc.2⟩

/-- Every row passes the checks, and the zones in PowerDNS that `rows` name have `M`. -/
structure Sane (C : Config) (M : Store.Kind → List Str → Prop) (rows : List Backup.ZoneRow)
    (w : World) : Prop where
  store : SaneRows C M w.store
  ids : ∀ n, Backup.isUUID (w.ids n) = true
  live : ∀ row ∈ rows, ∀ live, w.pdns.zone row.name = some live →
    M (mirroredKind C row live) live.masters

def SameZones (s s' : PDNS.Server) : Prop := ∀ id, s'.zone id = s.zone id

theorem Sane.of_same (h : Sane C M rows w) (hs : w'.store = w.store) (hids : w'.ids = w.ids)
    (hp : SameZones w.pdns w'.pdns) : Sane C M rows w' :=
  ⟨hs ▸ h.store, hids ▸ h.ids, fun row hrow live hlive =>
    h.live row hrow live (hp row.name ▸ hlive)⟩

theorem Sane.of_store (h : Sane C M rows w) {S : Store} (hS : SaneRows C M S) :
    Sane C M rows { w with store := S } := ⟨hS, h.ids, h.live⟩

/-! ## Calls -/

theorem any_store {c : StoreCall} {f : Except Err c.Ans → Act β} {Q : Except Err β → World → Prop}
    (hw : Sane C M rows w) (hc : Permitted C M c)
    (h : ∀ r w', Sane C M rows w' → w'.pdns = w.pdns →
      (∀ a, r = .ok a → (c.step U (w.times w.ticks) w.store).1 = .ok a) →
      Ensures (AnyStep U) Q w' (f r)) :
    Ensures (AnyStep U) Q w (attempt (Act.store c) >>= f) := by
  have hdone := hw.of_store (hw.store.step (U := U) hc (w.times w.ticks))
  rintro r w' (hd | ⟨rfl | rfl, e, rfl⟩)
  · obtain ⟨rfl, rfl⟩ := Prod.mk.inj hd
    exact h _ _ hdone rfl fun a ha => ha
  · exact h _ _ hw rfl fun a ha => by cases ha
  · exact h _ _ hdone rfl fun a ha => by cases ha

theorem keeps_store {c : StoreCall} (hc : Permitted C M c) :
    Keeps (AnyStep U) (Sane C M rows) (Act.store c) := by
  refine keeps_ask fun w r w' hw hr => ?_
  have hdone := hw.of_store (hw.store.step (U := U) hc (w.times w.ticks))
  rcases hr with hd | ⟨rfl | rfl, -⟩
  · obtain ⟨-, rfl⟩ := Prod.mk.inj hd
    exact hdone
  exacts [hw, hdone]

theorem keeps_other {o : Op} {f : Res o → Except Err α}
    (ho : ∀ w, (handler U o w).2.store = w.store ∧ (handler U o w).2.ids = w.ids ∧
      SameZones w.pdns (handler U o w).2.pdns) : Keeps (AnyStep U) (Sane C M rows) (ask o f) := by
  refine keeps_ask fun w r w' hw hr => ?_
  rcases anyStep_state hr with rfl | rfl | ⟨zones, rfl⟩
  · exact hw
  · exact hw.of_same (ho w).1 (ho w).2.1 (ho w).2.2
  · exact hw.of_same rfl rfl fun _ => rfl

theorem keeps_pdns (c : PDNSCall) : Keeps (AnyStep U) (Sane C M []) (Act.pdns c) := by
  refine keeps_ask fun w r w' hw hr => ?_
  rcases anyStep_state hr with rfl | rfl | ⟨zones, rfl⟩
  · exact hw
  all_goals exact ⟨hw.store, hw.ids, fun row hrow => absurd hrow List.not_mem_nil⟩

theorem keeps_now : Keeps (AnyStep U) (Sane C M rows) Act.now := keeps_other fun _ =>
    ⟨rfl, rfl, fun _ => rfl⟩

theorem keeps_recursor (c : RecursorCall) : Keeps (AnyStep U) (Sane C M rows) (Act.recursor c) :=
  keeps_other fun _ => ⟨rfl, rfl, fun _ => rfl⟩

theorem ensures_newID {f : Str → Act β} {Q : Except Err β → World → Prop} (hw : Sane C M rows w)
    (h : ∀ id w', Sane C M rows w' → w'.pdns = w.pdns → Backup.isUUID id = true →
      Ensures (AnyStep U) Q w' (f id)) :
    Ensures (AnyStep U) Q w (Act.newID >>= f) := by
  rintro r w' hr
  obtain ⟨rfl, rfl⟩ := Prod.mk.inj hr
  exact h _ _ (hw.of_same rfl rfl fun _ => rfl) rfl (hw.ids _)

theorem keeps_ignore {p : Act α} (hp : Keeps (AnyStep U) (Sane C M rows) p) :
    Keeps (AnyStep U) (Sane C M rows) (do let _ ← p.attempt; pure () : Act Unit) :=
  hp.attempt.bind fun _ => keeps_pure

/-! ## Zones -/

/-- What validation gives a row has `M`. -/
def Covers (M : Store.Kind → List Str → Prop) : Prop :=
  ∀ kind ms k m, Zones.kindMasters kind ms = .ok (k, m) → M k m

theorem hostnames_spec {ns : List Str} : ∀ {out hs : List Str}, Zones.hostnames C out ns = .ok hs →
    (∀ h ∈ out, hostname C.env h = .ok h) → hs.length ≤ out.length + ns.length ∧
    ∀ h ∈ hs, hostname C.env h = .ok h := by
  induction ns with
  | nil =>
    intro out hs h hout
    cases h
    exact ⟨by simp, hout⟩
  | cons n ns ih =>
    intro out hs h hout
    obtain ⟨m, hm, h⟩ := Except.bind_eq_ok.1 h
    replace hm := Except.mapError_eq_ok.1 hm
    obtain ⟨hlen, hall⟩ := ih h (by
      intro h' hh'
      split_ifs at hh'
      · exact hout h' hh'
      · rcases List.mem_append.1 hh' with hh' | hh'
        · exact hout h' hh'
        · rw [List.mem_singleton.1 hh']
          exact hostname_self hm)
    refine ⟨?_, hall⟩
    split_ifs at hlen <;> simp only [List.length_append, List.length_cons,
      List.length_nil] at hlen ⊢ <;> omega

theorem nameservers_spec {kind : Store.Kind} {ns hs : List Str}
    (h : Zones.nameservers C kind ns = .ok hs) :
    hs.length ≤ 16 ∧ ∀ n ∈ hs, ∃ m, hostname C.env n = .ok m := by
  unfold Zones.nameservers at h
  split_ifs at h with hk hn
  · cases h
    simp
  · obtain ⟨hlen, hall⟩ := hostnames_spec h (by simp)
    refine ⟨?_, fun n hn => ⟨n, hall n hn⟩⟩
    simp only [Zones.maxNameservers, List.length_nil] at hn hlen
    omega

theorem checkDescription_eq_ok {d : Str} (h : Zones.checkDescription d = .ok ()) :
    runeCount d ≤ 1000 := by
  unfold Zones.checkDescription at h
  split_ifs at h with hd
  exact not_lt.1 hd

theorem prepare_sane (hM : Covers M) (subj : Subjects) (i : Zones.CreateInput)
    (hw : Sane C M rows w) :
    Ensures (AnyStep U) (fun r w' => Sane C M rows w' ∧ ∀ z, r = .ok z →
      (z.templateID = [] ∨ Backup.isUUID z.templateID = true → ZoneOK C z) ∧ M z.kind z.masters) w
      (Zones.Impl.prepare C subj i) := by
  have hno {w : World} {e : Err} (hw : Sane C M rows w) : Sane C M rows w ∧ ∀ z,
      (.error e : Except Err Store.Zone) = .ok z →
        (z.templateID = [] ∨ Backup.isUUID z.templateID = true → ZoneOK C z) ∧ M z.kind z.masters :=
    ⟨hw, fun z h => by cases h⟩
  refine ensures_check (fun name hn => ?_) fun e _ => hno hw
  replace hn := Except.mapError_eq_ok.1 hn
  refine ensures_newID hw fun id w' hw' _ hid => ?_
  refine ensures_check (fun km hkm => ?_) fun e _ => hno hw'
  refine ensures_check (fun ns hns => ?_) fun e _ => hno hw'
  refine ensures_check (fun _ hd => ?_) fun e _ => hno hw'
  refine ensures_check (fun origin ho => ?_) fun e _ => hno hw'
  refine ensures_pure ⟨hw', fun z hz => ?_⟩
  cases hz
  obtain ⟨hlen, hall⟩ := nameservers_spec hns
  exact ⟨fun ht => ⟨hid, ht, zoneName_self hn, checkDescription_eq_ok hd, hlen, hall⟩,
    hM _ _ _ _ hkm⟩

theorem initialSets_sane (z : Store.Zone) (sets : List PDNS.RRset) (hw : Sane C M rows w) :
    Ensures (AnyStep U) (fun r w' => Sane C M rows w' ∧ ∀ s, r = .ok s →
      z.templateID = [] ∨ Backup.isUUID z.templateID = true) w
        (Zones.Impl.initialSets C z sets) := by
  unfold Zones.Impl.initialSets
  refine Ensures.ite (fun ht => ensures_pure ⟨hw, fun _ _ => .inl ht⟩) fun _ => ?_
  refine Ensures.ite (fun _ => ensures_throw ⟨hw, fun _ h => by cases h⟩) fun _ => ?_
  split
  · exact ensures_throw ⟨hw, fun _ h => by cases h⟩
  · next l _ =>
    -- a template that was found has a UUID
    have hexpand : Ensures (AnyStep U) (fun r w' => Sane C M rows w' ∧ ∀ s, r = .ok s →
        Backup.isUUID z.templateID = true) w
          (Templates.expand C.env l z.tenantID z.templateID z.name) := by
      refine any_store hw trivial fun r w' hw' _ hr => ?_
      cases r with
      | error e => exact ensures_throw ⟨hw', fun _ h => by cases h⟩
      | ok t =>
        refine ensures_ofExcept ⟨hw', fun _ _ => ?_⟩
        obtain ⟨hmem, hid, -⟩ := Store.getTemplate_eq_ok.1 (hr t rfl)
        exact hid ▸ (hw.store.templates t hmem).1.1
    exact hexpand.bind (fun tpl w' h => ensures_pure ⟨h.1, fun _ _ => .inr (h.2 tpl rfl)⟩)
      fun e w' h => ⟨h.1, fun _ h => by cases h⟩

theorem make_sane {z : Store.Zone} (sets : List PDNS.RRset) (hz : ZoneOK C z)
    (hm : M z.kind z.masters) :
    Keeps (AnyStep U) (Sane C M []) (Zones.Impl.make C z sets) := by
  refine Zones.Impl.keeps_make (fun _ => keeps_pdns _) (fun id => ?_) sets
  refine Zones.Impl.keeps_insert keeps_now (keeps_pdns _) fun now => keeps_store ⟨?_, hm⟩
  exact ⟨hz.id, hz.template, hz.name, hz.description, hz.count, hz.nameservers⟩

theorem create_sane (hM : Covers M) (subj : Subjects) (i : Zones.CreateInput) :
    Keeps (AnyStep U) (Sane C M []) (Zones.create C subj i) := by
  have himpl : Keeps (AnyStep U) (Sane C M []) (Zones.Impl.create C subj i) := by
    intro w hw
    refine (prepare_sane hM subj i hw).bind (fun z w' h => ?_) fun _ _ h => h.1
    obtain ⟨hw', hz⟩ := h
    refine (initialSets_sane z i.rrsets hw').bind (fun sets w' h => ?_) fun _ _ h => h.1
    have hok := (hz z rfl).1 (h.2 sets rfl)
    have hfree : Keeps (AnyStep U) (Sane C M []) (Zones.Impl.free z.tenantID z.name) :=
      Zones.Impl.keeps_free (keeps_store trivial) (keeps_store trivial) (keeps_pdns _)
    exact hfree.bind (fun _ => make_sane sets hok (hz z rfl).2) w' h.1
  exact keeps_ofExcept.bind fun _ => himpl.bind fun z =>
    (Zones.keeps_syncForward keeps_recursor _).bind fun _ => keeps_pure

theorem owned_sane (subj : Subjects) (id : Str) (hw : Sane C M rows w) :
    Ensures (AnyStep U) (fun r w' => Sane C M rows w' ∧ ∀ z, r = .ok z → ZoneOK C z ∧
      M z.kind z.masters) w
      (Zones.Impl.owned subj id) := by
  refine any_store hw trivial fun r w' hw' _ hr => ?_
  cases r with
  | error e => exact ensures_throw ⟨hw', fun _ h => by cases h⟩
  | ok z =>
    refine ensures_pure ⟨hw', fun z' hz' => ?_⟩
    cases hz'
    exact hw.store.zones z (Store.getZone_eq_ok.1 (hr z rfl)).1

theorem nextRow_sane (hM : Covers M) {prev next : Store.Zone} {i : Zones.UpdateInput}
    (hprev : ZoneOK C prev)
    (h : Zones.nextRow C prev i = .ok next) : runeCount next.description ≤ 1000 ∧
    M next.kind next.masters := by
  unfold Zones.nextRow at h
  obtain ⟨⟨k, m⟩, hkm, h⟩ := Except.bind_eq_ok.1 h
  have hm := hM _ _ _ _ hkm
  dsimp only at h
  cases hdesc : i.description with
  | none =>
    rw [hdesc] at h
    cases h
    exact ⟨hprev.description, hm⟩
  | some d =>
    rw [hdesc] at h
    obtain ⟨_, hd, h⟩ := Except.bind_eq_ok.1 h
    cases h
    exact ⟨checkDescription_eq_ok hd, hm⟩

theorem put_sane (id : Str) (m : PDNS.Zone) :
    Keeps (AnyStep U) (Sane C M []) (Zones.Impl.put id m) :=
  (keeps_pdns _).catch (fun _ => keeps_pure) fun _ => keeps_throw

theorem update_sane (hM : Covers M) (subj : Subjects) (id : Str) (i : Zones.UpdateInput) :
    Keeps (AnyStep U) (Sane C M []) (Zones.update C subj id i) := by
  refine keeps_ofExcept.bind fun _ => fun w hw => ?_
  refine (owned_sane subj id hw).bind (fun prev w' h => ?_) fun _ _ h => h.1
  obtain ⟨hw', hprev⟩ := h
  refine ensures_check (fun next hn => ?_) fun _ _ => hw'
  have hnext := nextRow_sane hM (hprev prev rfl).1 hn
  have hsave : Keeps (AnyStep U) (Sane C M []) (Zones.Impl.save prev next) := by
    refine keeps_now.bind fun now => Keeps.catch (keeps_store hnext) (fun _ => keeps_pure) fun e =>
      ?_
    exact Keeps.ite ((put_sane _ _).attempt.bind fun _ => keeps_throw) keeps_throw
  exact Keeps.ite ((put_sane _ _).bind fun _ => hsave) hsave w' hw'

theorem delete_sane (subj : Subjects) (id : Str) :
    Keeps (AnyStep U) (Sane C M []) (Zones.delete C subj id) :=
  keeps_ofExcept.bind fun _ => (Zones.Impl.keeps_owned subj (keeps_store trivial)).bind fun _ =>
    Zones.Impl.keeps_delete (keeps_pdns _) keeps_recursor (keeps_store trivial)
      (keeps_store trivial)

/-! ## Templates -/

theorem normalize_ok {i n : Templates.Input} (h : Templates.normalize C C.limits i = .ok n) :
    TemplateOK C n.name n.description n.records ∧ Trimmed n.name n.description := by
  unfold Templates.normalize at h
  dsimp only at h
  split_ifs at h with hname hd
  obtain ⟨sets, hs, h⟩ := Except.bind_eq_ok.1 h
  cases h
  simp only [not_or, not_lt, Bool.not_eq_true, Templates.hasControl] at hname
  refine ⟨⟨?_, not_lt.1 hd, sets, hs⟩, trimSpace_trimSpace _, trimSpace_trimSpace _⟩
  rw [trimSpace_trimSpace]
  exact hname

theorem createTemplate_sane (subj : Subjects) (i : Templates.Input) :
    Keeps (AnyStep U) (Sane C M []) (Templates.create C C.limits subj i) := by
  refine keeps_ofExcept.bind fun _ => fun w hw => ?_
  refine ensures_check (fun n hn => ?_) fun _ _ => hw
  refine Ensures.bind (keeps_now w hw) (fun now w' hw' => ?_) fun _ _ h => h
  refine ensures_newID hw' fun id w' hw' _ hid => ?_
  refine any_store hw' ⟨⟨hid, (normalize_ok hn).1⟩, (normalize_ok hn).2⟩ fun r w' hw' _ _ => ?_
  cases r with
  | ok _ => exact ensures_pure hw'
  | error e => exact ensures_throw hw'

theorem updateTemplate_sane (subj : Subjects) (id : Str) (i : Templates.Input) :
    Keeps (AnyStep U) (Sane C M []) (Templates.update C C.limits subj id i) := by
  refine keeps_ofExcept.bind fun _ => fun w hw => ?_
  refine ensures_check (fun n hn => ?_) fun _ _ => hw
  refine Ensures.bind (keeps_now w hw) (fun now w' hw' => ?_) fun _ _ h => h
  refine any_store hw' (normalize_ok hn) fun r w' hw' _ _ => ?_
  cases r with
  | ok _ => exact ensures_pure hw'
  | error e => exact ensures_throw hw'

theorem deleteTemplate_sane (subj : Subjects) (id : Str) :
    Keeps (AnyStep U) (Sane C M []) (Templates.delete C subj id) :=
  keeps_ofExcept.bind fun _ => Keeps.catch (keeps_store trivial) (fun _ => keeps_pure) fun _ =>
    keeps_throw

/-! ## Supermasters -/

theorem prepareSupermaster_ok {subj : Subjects} {i : Supermasters.Input} {m m' : Store.Supermaster}
    (h : Supermasters.Impl.prepare C subj i m = .ok m') :
    m'.id = m.id ∧ SupermasterOK C m' ∧ Settled C m' := by
  obtain ⟨_, -, h⟩ := Except.bind_eq_ok.1 h
  obtain ⟨g, hg, h⟩ := Except.bind_eq_ok.1 h
  obtain ⟨n, hn, h⟩ := Except.bind_eq_ok.1 h
  cases h
  have hg' := (ipGuard_self (Except.mapError_eq_ok.1 hg)).2
  have hn' := hostname_self (Except.mapError_eq_ok.1 hn)
  exact ⟨rfl, ⟨⟨g, hg'⟩, n, hn'⟩, hn', g, hg', rfl⟩

theorem createSupermaster_zones (s : PDNS.Server) (m : PDNS.Supermaster) :
    SameZones s (s.createSupermaster m).2 := by
  intro id
  unfold PDNS.Server.createSupermaster
  split <;> rfl

theorem deleteSupermaster_zones (s : PDNS.Server) (ip ns : Str) :
    SameZones s (s.deleteSupermaster ip ns).2 := by
  intro id
  unfold PDNS.Server.deleteSupermaster
  split <;> rfl

theorem makeEntry_sane (m : PDNS.Supermaster) :
    Keeps (AnyStep U) (Sane C M rows) (Act.pdns (.createSupermaster m)) :=
  keeps_other fun w => ⟨rfl, rfl, createSupermaster_zones w.pdns m⟩

theorem dropEntry_sane (ip ns : Str) :
    Keeps (AnyStep U) (Sane C M rows) (Act.pdns (.deleteSupermaster ip ns)) :=
  keeps_other fun w => ⟨rfl, rfl, deleteSupermaster_zones w.pdns ip ns⟩

theorem createSupermaster_sane (subj : Subjects) (i : Supermasters.Input) :
    Keeps (AnyStep U) (Sane C M rows) (Supermasters.create C subj i) := by
  intro w hw
  refine ensures_newID hw fun id w' hw' _ hid => ?_
  refine Ensures.bind (keeps_now w' hw') (fun now w' hw' => ?_) fun _ _ h => h
  refine ensures_check (fun m hm => ?_) fun _ _ => hw'
  obtain ⟨hmid, hok, hip⟩ := prepareSupermaster_ok hm
  have hinsert : Keeps (AnyStep U) (Sane C M rows) (Supermasters.Impl.insert m) :=
    Keeps.catch (keeps_store ⟨⟨hmid ▸ hid, hok⟩, hip⟩) (fun _ => keeps_pure) fun _ =>
      (dropEntry_sane _ _).attempt.bind fun _ => keeps_throw
  refine Keeps.bind (makeEntry_sane _).attempt (fun r => ?_) w' hw'
  cases r with
  | error e => exact keeps_throw
  | ok _ => exact hinsert

theorem deleteSupermaster_sane (subj : Subjects) (id : Str) :
    Keeps (AnyStep U) (Sane C M rows) (Supermasters.delete C subj id) := by
  have hget : Keeps (AnyStep U) (Sane C M rows) (Supermasters.Impl.get subj id) :=
    Keeps.catch (keeps_store trivial) (fun _ => keeps_pure) fun _ => keeps_throw
  have hdrop (m : Store.Supermaster) (gone : Bool) :
      Keeps (AnyStep U) (Sane C M rows) (Supermasters.Impl.drop m gone) :=
    Keeps.catch (keeps_store trivial) (fun _ => keeps_pure) fun _ =>
      Keeps.ite keeps_throw ((makeEntry_sane _).attempt.bind fun _ => keeps_throw)
  exact keeps_ofExcept.bind fun _ => hget.bind fun m =>
    (dropEntry_sane _ _).catch (fun _ => hdrop m false) fun _ =>
      Keeps.ite (hdrop m true) keeps_throw

end TangraDns
