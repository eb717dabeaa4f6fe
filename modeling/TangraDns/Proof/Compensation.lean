/-
  Writes to both stores with one failing call.
-/
import TangraDns.Faults
import TangraDns.Proof.Calls
import TangraDns.Proof.Exec
import TangraDns.Proof.PowerDNS
import TangraDns.Proof.Scope

namespace TangraDns

open Str Prog Prog.Failing

variable {C : Config} {U : CaseTables} {undoes : Op → Bool} {w w₀ : World} {b : Bool} {α β : Type}
variable {Q : Except Err β → World × Bool → Prop} {s : World × Bool} {p : PDNS.Zone}
  {prev : Store.Zone}

/-! ## A world in which one call may fail -/

/-- The calls of a world in which, if the flag is set, one call may still fail without effect. -/
def OneStep (U : CaseTables) (undoes : Op → Bool) : Steps Op Res (World × Bool) := fun o s r s' =>
  ((r, s'.1) = handler U o s.1 ∧ (s'.2 = true → s.2 = true)) ∨
    s.2 = true ∧ s' = (s.1, false) ∧ undoes o = false ∧ ∃ f e, fallible o = some f ∧ r = f e

theorem oneStep_faulty {i : ℕ} {e : Fault} (o : Op) (s : World × ℕ) :
    OneStep U undoes o (s.1, decide (s.2 ≤ i)) (faulty U (oneFailure undoes i e) o s).1
      ((faulty U (oneFailure undoes i e) o s).2.1,
        decide ((faulty U (oneFailure undoes i e) o s).2.2 ≤ i)) := by
  obtain ⟨w, n⟩ := s
  cases ho : fallible o with
  | none =>
    rw [faulty, disturb_none ho]
    exact .inl ⟨rfl, id⟩
  | some f =>
    by_cases hn : n = i ∧ undoes o = false
    · have hfate : oneFailure undoes i e n o = .failed e := if_pos hn
      rw [faulty, disturb_failed ho hfate]
      exact .inr ⟨by simp [hn.1], by simp [hn.1], hn.2, f, e, ho, rfl⟩
    · have hfate : oneFailure undoes i e n o = .done := if_neg hn
      rw [faulty, disturb_done ho hfate]
      refine .inl ⟨rfl, fun h => ?_⟩
      simp only [decide_eq_true_eq] at h ⊢
      omega

theorem one_store {c : StoreCall} {f : Except Err c.Ans → Act β}
    (h : ∀ b', (b' = true → b = true) → Ensures (OneStep U undoes) Q
      ({ w with store := (c.step U (w.times w.ticks) w.store).2 }, b')
      (f (c.step U (w.times w.ticks) w.store).1))
    (hf : b = true → ∀ e, Ensures (OneStep U undoes) Q (w, false) (f (.error e))) :
    Ensures (OneStep U undoes) Q (w, b) (attempt (Act.store c) >>= f) := by
  rintro r ⟨w', b'⟩ (⟨hd, hb⟩ | ⟨hb, hs, -, g, e, hg, rfl⟩)
  · obtain ⟨rfl, rfl⟩ := Prod.mk.inj hd
    exact h b' hb
  · cases hs
    cases hg
    exact hf hb e.store

theorem one_pdns {c : PDNSCall} {f : Except Err c.Ans → Act β}
    (h : ∀ b', (b' = true → b = true) → Ensures (OneStep U undoes) Q
      ({ w with pdns := (c.step U w.pdns).2 }, b')
      (f (Except.mapError Err.pdns (c.step U w.pdns).1)))
    (hf : b = true → undoes (.pdns c) = false →
      ∀ e, Ensures (OneStep U undoes) Q (w, false) (f (.error (.pdns e)))) :
    Ensures (OneStep U undoes) Q (w, b) (attempt (Act.pdns c) >>= f) := by
  rintro r ⟨w', b'⟩ (⟨hd, hb⟩ | ⟨hb, hs, hu, g, e, hg, rfl⟩)
  · obtain ⟨rfl, rfl⟩ := Prod.mk.inj hd
    exact h b' hb
  · cases hs
    cases hg
    exact hf hb hu e.pdns

theorem one_now {f : ℕ → Act β}
    (h : ∀ b', (b' = true → b = true) →
      Ensures (OneStep U undoes) Q ({ w with ticks := w.ticks + 1 }, b') (f (w.times w.ticks))) :
    Ensures (OneStep U undoes) Q (w, b) (Act.now >>= f) := by
  rintro r ⟨w', b'⟩ (⟨hd, hb⟩ | ⟨-, -, -, g, e, hg, -⟩)
  · obtain ⟨rfl, rfl⟩ := Prod.mk.inj hd
    exact h b' hb
  · cases hg

/-! ## Reading -/

def Intact (w₀ : World) (s : World × Bool) : Prop := s.1.store = w₀.store ∧ s.1.pdns = w₀.pdns

theorem Intact.unchanged (h : Intact w₀ s) : Unchanged w₀ s.1 :=
  ⟨h.1, fun id => by rw [h.2], fun m => by rw [h.2]⟩

theorem intact_ask {o : Op} {f : Res o → Except Err α}
    (ho : ∀ w, (handler U o w).2.store = w.store ∧ (handler U o w).2.pdns = w.pdns) :
    Keeps (OneStep U undoes) (Intact w₀) (ask o f) := by
  refine keeps_ask fun s r s' h hr => ?_
  rcases hr with ⟨hd, -⟩ | ⟨-, rfl, -⟩
  · have hw : s'.1 = (handler U o s.1).2 := congrArg Prod.snd hd
    rw [Intact, hw, (ho s.1).1, (ho s.1).2]
    exact h
  · exact h

/-! ## Creation of zones -/

def Restores (w₀ : World) (r : Except Err α) (s : World × Bool) : Prop :=
  ∀ e, r = .error e → Unchanged w₀ s.1

theorem restores_ok {a : α} : Restores w₀ (.ok a) s := fun _ h => by cases h

theorem Unchanged.restores {r : Except Err α} (h : Unchanged w₀ s.1) : Restores w₀ r s :=
  fun _ _ => h

theorem Restores.error {e : Err} (h : Restores w₀ (.error e : Except Err α) s) :
    Restores w₀ (.error e : Except Err β) s := fun _ _ => h e rfl

theorem reads_restores {p : Act α} {f : α → Act β}
    (hp : Keeps (OneStep U undoes) (Intact w₀) p) (hs : Intact w₀ s)
    (hf : ∀ a s', Intact w₀ s' → Ensures (OneStep U undoes) (Restores w₀) s' (f a)) :
    Ensures (OneStep U undoes) (Restores w₀) s (p >>= f) :=
  (hp s hs).bind hf fun _ _ h => h.unchanged.restores

theorem deleteZone_insert {s : PDNS.Server} {zones : Table PDNS.Zone}
    (hi : s.zones.insert p = some zones) :
    (∀ id, (({ s with zones } : PDNS.Server).deleteZone p.id).2.zone id = s.zone id) ∧
      (({ s with zones } : PDNS.Server).deleteZone p.id).2.supermasters = s.supermasters := by
  have hfree : s.zone p.id = none := PDNS.Server.zone_eq_none.2 fun y hy hid => by
    have := Table.noClash_of_insert hi hy
    simp [Keyed.clash, hid] at this
  rcases ({ s with zones } : PDNS.Server).deleteZone_cases p.id with ⟨hn, -⟩ | ⟨q, -, hd⟩
  · rw [PDNS.Server.zone_insert hi, if_pos rfl] at hn
    cases hn
  · rw [hd]
    refine ⟨fun id => ?_, rfl⟩
    by_cases hid : id = p.id
    · subst hid
      rw [hfree]
      exact PDNS.Server.zone_filter_self
    · refine (PDNS.Server.zone_filter_of_ne hid).trans ?_
      rw [PDNS.Server.zone_insert hi, if_neg (Ne.symm hid)]

theorem insert_restores {z : Store.Zone} {zones : Table PDNS.Zone}
    (hu : ∀ id, undoes (.pdns (.deleteZone id)) = true) (hs : w.store = w₀.store)
    (hi : w₀.pdns.zones.insert p = some zones) (hp : w.pdns = { w₀.pdns with zones })
    (hid : z.pdnsID = p.id) :
    Ensures (OneStep U undoes) (Restores w₀) (w, b) (Zones.Impl.insert z) := by
  -- the compensating call does not fail
  have hundo {w : World} {b : Bool} {e : Err} (hs : w.store = w₀.store)
      (hp : w.pdns = { w₀.pdns with zones }) :
      Ensures (OneStep U undoes) (Restores w₀) (w, b) (do
        let _ ← (Act.pdns (.deleteZone z.pdnsID)).attempt
        if e.Is .repoConflict then throw (.zone .duplicate) else throw e : Act Store.Zone) := by
    refine one_pdns (fun b' _ => ?_) fun _ h => ?_
    · have hback : Unchanged w₀ { w with pdns := (w.pdns.deleteZone z.pdnsID).2 } := by
        rw [hp, hid]
        obtain ⟨h1, h2⟩ := deleteZone_insert hi
        exact ⟨hs, h1, fun m => by rw [h2]⟩
      exact Ensures.ite (fun _ => ensures_throw hback.restores) fun _ =>
        ensures_throw hback.restores
    · rw [hu] at h
      cases h
  refine one_now fun b' _ => one_store (fun b' _ => ?_) fun _ e => hundo hs hp
  dsimp only [StoreCall.step]
  rcases w.store.createZone_cases (w.times (w.ticks + 1)) { z with
      createdAt := w.times w.ticks, updatedAt := w.times w.ticks } with ⟨-, h⟩ | ⟨rows, z',
        -, -, h⟩ <;>
    rw [h]
  · exact hundo hs hp
  · exact ensures_pure restores_ok

theorem make_restores {z : Store.Zone} {rrsets : List PDNS.RRset}
    (hu : ∀ id, undoes (.pdns (.deleteZone id)) = true) (hs : Intact w₀ s) :
    Ensures (OneStep U undoes) (Restores w₀) s (Zones.Impl.make C z rrsets) := by
  obtain ⟨w, b⟩ := s
  have hfail {b : Bool} {e : Err} : Ensures (OneStep U undoes) (Restores w₀) (w, b)
      (if e.Is (.pdns .conflict) then throw (.zone .duplicate)
        else throw (Zones.mapPDNS e) : Act Store.Zone) :=
    Ensures.ite (fun _ => ensures_throw hs.unchanged.restores) fun _ =>
      ensures_throw hs.unchanged.restores
  refine one_pdns (fun b' _ => ?_) fun _ _ e => hfail
  dsimp only [PDNSCall.step]
  rcases w.pdns.createZone_cases _ with ⟨e, h⟩ | ⟨zones, hi, h⟩ <;> rw [h]
  · exact hfail
  · have hname := PDNS.Server.name_ne_of_createZone (congrArg Prod.fst h)
    exact insert_restores hu hs.1 (hs.2 ▸ hi) (by rw [← hs.2]) (if_neg hname)

theorem syncForward_ignored {n : Str} {f : Act β}
    (hf : ∀ s, Ensures (OneStep U undoes) Q s f) :
    Ensures (OneStep U undoes) Q s (Zones.syncForward C n >>= fun _ => f) := by
  unfold Zones.syncForward
  split
  · exact hf s
  · exact Ensures.bind (Q := fun r _ => r = .ok ()) (ensures_ignore fun s => ensures_pure rfl)
      (fun _ s _ => hf s) fun e s h => by cases h

theorem create_restores (subj : Subjects) (i : Zones.CreateInput)
    (hu : ∀ id, undoes (.pdns (.deleteZone id)) = true) :
    Ensures (OneStep U undoes) (Restores w) (w, b) (Zones.create C subj i) := by
  have hw : Intact w (w, b) := ⟨rfl, rfl⟩
  have himpl : Ensures (OneStep U undoes) (Restores w) (w, b) (Zones.Impl.create C subj i) := by
    refine reads_restores (Zones.Impl.keeps_prepare (intact_ask fun w => ⟨rfl, rfl⟩) subj i) hw
      fun z s hs => ?_
    refine reads_restores (Zones.Impl.keeps_initialSets (intact_ask fun w => ⟨rfl, rfl⟩) i.rrsets)
      hs
      fun rrsets s hs => ?_
    have hfree : Keeps (OneStep U undoes) (Intact w) (Zones.Impl.free z.tenantID z.name) :=
      Zones.Impl.keeps_free (intact_ask fun w => ⟨rfl, rfl⟩) (intact_ask fun w => ⟨rfl, rfl⟩)
        (intact_ask fun w => ⟨rfl, rfl⟩)
    exact reads_restores hfree hs fun _ s hs => make_restores hu hs
  refine ensures_check (fun _ _ => ?_) fun _ _ => hw.unchanged.restores
  refine himpl.bind (fun z s _ => ?_) fun e s h => h.error
  exact syncForward_ignored fun s => ensures_pure restores_ok

/-! ## Updates of zones -/

theorem put_put {s : PDNS.Server} {next : Store.Zone} (hp : s.zone prev.pdnsID = some p)
    (hkind : p.kind = prev.kind.pdns) (hmasters : p.masters = prev.masters)
    (hdnssec : p.dnssec = prev.dnssec)
    (haccount : p.account = prev.tenantID) (hT : next.tenantID = prev.tenantID) (id : Str) :
    ((s.updateZoneMetadata prev.pdnsID (Zones.metadata next)).2.updateZoneMetadata prev.pdnsID
      (Zones.metadata prev)).2.zone id = s.zone id := by
  have hback : PDNS.Server.putMeta (Zones.metadata prev)
      (PDNS.Server.putMeta (Zones.metadata next) p) = p := by
    have hne (k : Store.Kind) : k.pdns ≠ [] := by cases k <;> exact nofun
    have hpk : p.kind ≠ [] := hkind ▸ hne _
    simp only [PDNS.Server.putMeta, Zones.metadata, if_neg (hne _), hT, ← hkind, if_neg hpk,
      ← hmasters, ← hdnssec,
      ← haccount, ite_self]
  rw [PDNS.Server.updateZoneMetadata_zone, PDNS.Server.updateZoneMetadata_zone, Option.map_map]
  by_cases hid : id = prev.pdnsID
  · subst hid
    simp [hp, hback]
  · simp [hid, Function.comp_def]

theorem put_supermasters (s : PDNS.Server) (id : Str) (m : PDNS.Zone) :
    (s.updateZoneMetadata id m).2.supermasters = s.supermasters := by
  rcases s.updateZoneMetadata_cases id m with ⟨-, h⟩ | ⟨_, -, h⟩
  · rw [h]
  · rw [h]
    rfl

def Tracked (w : World) (z : Store.Zone) : Prop :=
  z ∈ w.store.zones ∧ ∃ p ∈ w.pdns.zone z.pdnsID,
    p.kind = z.kind.pdns ∧ p.masters = z.masters ∧ p.dnssec = z.dnssec ∧ p.account = z.tenantID

theorem save_restores {next : Store.Zone} (hprev : Tracked w₀ prev) (hk : next.keys = prev.keys)
    (hs : w.store = w₀.store)
    (hp : w.pdns = if Zones.metaChanged prev next then
      (w₀.pdns.updateZoneMetadata prev.pdnsID (Zones.metadata next)).2 else w₀.pdns) :
    Ensures (OneStep U undoes) (Restores w₀) (w, b) (Zones.Impl.save prev next) := by
  obtain ⟨hmem, p, hzone, hkind, hmasters, hdnssec, haccount⟩ := hprev
  refine one_now fun b' _ => one_store (fun b' _ => ?_) fun _ e => ?_
  · -- the row is there, so the healthy write succeeds
    have hfind : w.store.zone next.tenantID next.id = some prev := by
      rw [hs]
      exact Store.zone_eq_some.2 ⟨hmem, (Store.id_of_keys hk).symm,
        (Store.tenantID_of_keys hk).symm⟩
    obtain ⟨saved, hok⟩ := (Store.updateZone_meta (z := { next with updatedAt := w.times w.ticks })
      (w.times (w.ticks + 1)) hfind).1
    dsimp only [StoreCall.step]
    rw [hok]
    exact ensures_pure restores_ok
  · refine Ensures.ite (fun hc => ?_) fun hc => ?_
    · rw [if_pos hc] at hp
      refine Ensures.catch (Q := fun _ s => Unchanged w₀ s.1) ?_ fun r s h =>
        ensures_throw h.restores
      refine one_pdns (fun b' _ => ?_) fun hb => by cases hb
      have hback : Unchanged w₀ { w with
          ticks := w.ticks + 1
          pdns := (w.pdns.updateZoneMetadata prev.pdnsID (Zones.metadata prev)).2 } := by
        rw [hp]
        refine ⟨hs, put_put hzone hkind hmasters hdnssec haccount (Store.tenantID_of_keys hk),
          fun m => ?_⟩
        dsimp only
        rw [put_supermasters, put_supermasters]
      dsimp only [PDNSCall.step]
      cases (w.pdns.updateZoneMetadata prev.pdnsID (Zones.metadata prev)).1 with
      | ok _ => exact hback
      | error e => exact hback
    · rw [if_neg hc] at hp
      have hsame : Intact w₀ ({ w with ticks := w.ticks + 1 }, false) := ⟨hs, hp⟩
      exact ensures_throw hsame.unchanged.restores

theorem implUpdate_restores (hprev : Tracked w₀ prev) (i : Zones.UpdateInput)
    (hs : Intact w₀ s) :
    Ensures (OneStep U undoes) (Restores w₀) s (Zones.Impl.update C prev i) := by
  obtain ⟨w, b⟩ := s
  refine ensures_check (fun next hn => ?_) fun _ _ => hs.unchanged.restores
  have hk := Scope.nextRow_keys hn
  refine Ensures.ite (fun hc => ?_) fun hc =>
    save_restores hprev hk hs.1 (by rw [if_neg hc]; exact hs.2)
  -- the metadata are put first
  have hput : Ensures (OneStep U undoes) (fun r s => (∃ e, r = .error e) ∧ Intact w₀ s ∨
      r = .ok () ∧
      s.1.store = w₀.store ∧ s.1.pdns =
        (w₀.pdns.updateZoneMetadata prev.pdnsID (Zones.metadata next)).2) (w, b)
      (Zones.Impl.put prev.pdnsID (Zones.metadata next)) := by
    refine one_pdns (fun b' _ => ?_) fun _ _ e => ensures_throw (.inl ⟨⟨_, rfl⟩, hs⟩)
    obtain ⟨-, p, hzone, -⟩ := hprev
    dsimp only [PDNSCall.step]
    rw [show w.pdns = w₀.pdns from hs.2, PDNS.Server.updateZoneMetadata_ok hzone]
    exact ensures_pure (.inr ⟨rfl, hs.1, rfl⟩)
  refine hput.bind (fun _ s h => ?_) fun e s h => ?_
  · rcases h with ⟨⟨e, he⟩, -⟩ | ⟨-, hst, hpd⟩
    · cases he
    · exact save_restores hprev hk hst (by rw [if_pos hc]; exact hpd)
  · rcases h with ⟨-, h⟩ | ⟨he, -⟩
    · exact h.unchanged.restores
    · cases he

theorem update_restores (subj : Subjects) (id : Str) (i : Zones.UpdateInput)
    (h : (Write.updateZone id i).Agreed subj w) :
    Ensures (OneStep U undoes) (Restores w) (w, b) (Zones.update C subj id i) := by
  have hw : Intact w (w, b) := ⟨rfl, rfl⟩
  refine ensures_check (fun _ _ => ?_) fun _ _ => hw.unchanged.restores
  have howned : Ensures (OneStep U undoes) (fun r s => Intact w s ∧
      ∀ z, r = .ok z → z ∈ w.store.zones ∧ z.id = id ∧ z.tenantID = subj.tenantID) (w, b)
      (Zones.Impl.owned subj id) := by
    refine one_store (fun b' _ => ?_) fun _ e => ensures_throw ⟨⟨rfl, rfl⟩, nofun⟩
    dsimp only [StoreCall.step]
    cases hr : w.store.getZone subj.tenantID id with
    | error e => exact ensures_throw ⟨⟨rfl, rfl⟩, nofun⟩
    | ok z =>
      refine ensures_pure ⟨⟨rfl, rfl⟩, fun z' hz' => ?_⟩
      cases hz'
      exact Store.getZone_eq_ok.1 hr
  refine howned.bind (fun z s hz => ?_) fun e s hz => hz.1.unchanged.restores
  obtain ⟨hs, hz⟩ := hz
  obtain ⟨hmem, hid, hT⟩ := hz z rfl
  exact implUpdate_restores ⟨hmem, h z hmem hid hT⟩ i hs

/-! ## Supermasters -/

theorem deleteSupermaster_insert {s : PDNS.Server} {e : PDNS.Supermaster}
    {entries : Table PDNS.Supermaster}
    (hi : s.supermasters.insert e = some entries) (m : PDNS.Supermaster) :
    m ∈ (({ s with supermasters := entries } : PDNS.Server).deleteSupermaster e.ip
      e.nameserver).2.supermasters ↔
      m ∈ s.supermasters := by
  unfold PDNS.Server.deleteSupermaster
  have hmem : m ∈ entries ↔ m ∈ s.supermasters ∨ m = e := Table.mem_insert hi
  split
  · next hn =>
    have he : e ∈ entries := (Table.mem_insert hi).2 (.inr rfl)
    simpa using Table.find_eq_none.1 hn e he
  · simp only [Table.mem_filter, hmem]
    constructor
    · rintro ⟨h | rfl, hne⟩
      · exact h
      · simp at hne
    · intro h
      have hclash : (m.ip == e.ip && m.nameserver == e.nameserver) = false :=
        Table.noClash_of_insert hi h
      exact ⟨.inl h, by rw [hclash]; rfl⟩

theorem createSupermaster_delete {s : PDNS.Server} {e : PDNS.Supermaster} (he : e ∈ s.supermasters)
    (m : PDNS.Supermaster) :
    m ∈ ((s.deleteSupermaster e.ip e.nameserver).2.createSupermaster e).2.supermasters ↔
      m ∈ s.supermasters := by
  have hsame {x : PDNS.Supermaster} (hx : x ∈ s.supermasters)
      (h : x.ip = e.ip ∧ x.nameserver = e.nameserver) :
      x = e := Table.eq_of_clash hx he (by simp [Keyed.clash, h])
  unfold PDNS.Server.deleteSupermaster
  split
  · next hn => simpa using Table.find_eq_none.1 hn e he
  · unfold PDNS.Server.createSupermaster
    split
    · next hn =>
      obtain ⟨x, hx, hc⟩ := Table.insert_eq_none.1 hn
      simp only [Table.mem_filter] at hx
      simp [Keyed.clash] at hc
      simp [hc] at hx
    · next entries hi =>
      simp only [Table.mem_insert hi, Table.mem_filter]
      constructor
      · rintro (⟨h, -⟩ | rfl)
        exacts [h, he]
      · intro h
        by_cases hme : m.ip = e.ip ∧ m.nameserver = e.nameserver
        · exact .inr (hsame h hme)
        · exact .inl ⟨h, by simpa using not_and_or.1 hme⟩

theorem insertSupermaster_restores {m : Store.Supermaster} {entries : Table PDNS.Supermaster}
    (hu : ∀ ip ns, undoes (.pdns (.deleteSupermaster ip ns)) = true) (hs : w.store = w₀.store)
    (hi : w₀.pdns.supermasters.insert (Supermasters.entry m) = some entries)
    (hp : w.pdns = { w₀.pdns with supermasters := entries }) :
    Ensures (OneStep U undoes) (Restores w₀) (w, b) (Supermasters.Impl.insert m) := by
  have hundo {b : Bool} {e : Err} : Ensures (OneStep U undoes) (Restores w₀) (w, b) (do
      let _ ← (Act.pdns (.deleteSupermaster (Supermasters.entry m).ip
        (Supermasters.entry m).nameserver)).attempt
      throw e : Act Store.Supermaster) := by
    refine one_pdns (fun b' _ => ensures_throw (Unchanged.restores ?_)) fun _ h => ?_
    · dsimp only [PDNSCall.step]
      rw [hp]
      refine ⟨hs, fun id => ?_, deleteSupermaster_insert hi⟩
      dsimp only [PDNS.Server.deleteSupermaster]
      split <;> rfl
    · rw [hu] at h
      cases h
  refine one_store (fun b' _ => ?_) fun _ e => hundo
  dsimp only [StoreCall.step, Store.createSupermaster]
  split
  · exact hundo
  · split
    · exact hundo
    · exact ensures_pure restores_ok

theorem createSupermaster_restores (subj : Subjects) (i : Supermasters.Input)
    (hu : ∀ ip ns, undoes (.pdns (.deleteSupermaster ip ns)) = true) :
    Ensures (OneStep U undoes) (Restores w) (w, b) (Supermasters.create C subj i) := by
  have hw : Intact w (w, b) := ⟨rfl, rfl⟩
  have hid : Keeps (OneStep U undoes) (Intact w) Act.newID := intact_ask fun w => ⟨rfl, rfl⟩
  have hnow : Keeps (OneStep U undoes) (Intact w) Act.now := intact_ask fun w => ⟨rfl, rfl⟩
  refine reads_restores hid hw fun id s hs => reads_restores hnow hs fun t s hs => ?_
  obtain ⟨w', b⟩ := s
  refine ensures_check (fun m _ => ?_) fun _ _ => hs.unchanged.restores
  refine one_pdns (fun b' _ => ?_) fun _ _ e => ensures_throw hs.unchanged.restores
  dsimp only [PDNSCall.step, PDNS.Server.createSupermaster]
  split
  · exact ensures_throw hs.unchanged.restores
  · next entries hi =>
    exact insertSupermaster_restores hu hs.1 (hs.2 ▸ hi) (by rw [← hs.2])

theorem drop_restores {m : Store.Supermaster} {gone : Bool}
    (hu : ∀ e, undoes (.pdns (.createSupermaster e)) = true) (hs : w.store = w₀.store)
    (hgone : gone = true → w.pdns = w₀.pdns)
    (hmade : gone = false → Supermasters.entry m ∈ w₀.pdns.supermasters ∧
      w.pdns = (w₀.pdns.deleteSupermaster (Supermasters.entry m).ip
        (Supermasters.entry m).nameserver).2) :
    Ensures (OneStep U undoes) (Restores w₀) (w, b) (Supermasters.Impl.drop m gone) := by
  have hfail {b : Bool} {e : Err} : Ensures (OneStep U undoes) (Restores w₀) (w, b)
      (if gone then throw e else do
        let _ ← (Act.pdns (.createSupermaster (Supermasters.entry m))).attempt
        throw e : Act Unit) := by
    refine Ensures.ite (fun hg => ?_) fun hg => ?_
    · have hsame : Intact w₀ (w, b) := ⟨hs, hgone hg⟩
      exact ensures_throw hsame.unchanged.restores
    · obtain ⟨hmem, hp⟩ := hmade (by simpa using hg)
      refine one_pdns (fun b' _ => ensures_throw (Unchanged.restores ?_)) fun _ h => ?_
      · dsimp only [PDNSCall.step]
        rw [hp]
        refine ⟨hs, fun id => ?_, createSupermaster_delete hmem⟩
        dsimp only [PDNS.Server.createSupermaster, PDNS.Server.deleteSupermaster]
        split <;> split <;> rfl
      · rw [hu] at h
        cases h
  refine one_store (fun b' _ => ?_) fun _ e => hfail
  dsimp only [StoreCall.step, Store.deleteSupermaster]
  split
  · exact hfail
  · exact ensures_pure restores_ok

theorem deleteSupermaster_restores (subj : Subjects) (id : Str)
    (hu : ∀ e, undoes (.pdns (.createSupermaster e)) = true)
    (h : (Write.deleteSupermaster id).Agreed subj w) :
    Ensures (OneStep U undoes) (Restores w) (w, b) (Supermasters.delete C subj id) := by
  have hw : Intact w (w, b) := ⟨rfl, rfl⟩
  refine ensures_check (fun _ _ => ?_) fun _ _ => hw.unchanged.restores
  have hget : Ensures (OneStep U undoes) (fun r s => Intact w s ∧
      ∀ m, r = .ok m → Supermasters.entry m ∈ w.pdns.supermasters) (w, b)
        (Supermasters.Impl.get subj id) := by
    refine one_store (fun b' _ => ?_) fun _ e => ensures_throw ⟨⟨rfl, rfl⟩, nofun⟩
    dsimp only [StoreCall.step]
    cases hr : w.store.getSupermaster subj.tenantID id with
    | error e => exact ensures_throw ⟨⟨rfl, rfl⟩, nofun⟩
    | ok m =>
      refine ensures_pure ⟨⟨rfl, rfl⟩, fun m' hm' => ?_⟩
      cases hm'
      obtain ⟨hmem, hid, hT⟩ := Store.getSupermaster_eq_ok.1 hr
      exact h m hmem hid hT
  refine hget.bind (fun m s hm => ?_) fun e s hm => hm.1.unchanged.restores
  obtain ⟨w', b⟩ := s
  obtain ⟨hs, hm⟩ := hm
  have hmem := hm m rfl
  have hgone {e : Err} {b : Bool} : Ensures (OneStep U undoes) (Restores w) (w', b)
      (if e.Is (.pdns .notFound) then Supermasters.Impl.drop m true
        else throw (Supermasters.mapPDNS e)) :=
    Ensures.ite (fun _ => drop_restores hu hs.1 (fun _ => hs.2) nofun)
      fun _ => ensures_throw (Intact.unchanged hs).restores
  refine one_pdns (fun b' _ => ?_) fun _ _ e => hgone
  have hpdns : w'.pdns = w.pdns := hs.2
  dsimp only [PDNSCall.step]
  rw [hpdns]
  have hcases : (∃ e, w.pdns.deleteSupermaster (Supermasters.entry m).ip
      (Supermasters.entry m).nameserver =
      (.error e, w.pdns)) ∨ (w.pdns.deleteSupermaster (Supermasters.entry m).ip
        (Supermasters.entry m).nameserver).1 = .ok () := by
    unfold PDNS.Server.deleteSupermaster
    split
    exacts [.inl ⟨_, rfl⟩, .inr rfl]
  rcases hcases with ⟨e, he⟩ | hok
  · rw [he, ← hpdns]
    exact hgone
  · rw [hok]
    exact drop_restores hu hs.1 nofun fun _ => ⟨hmem, rfl⟩

/-! ## All writes -/

theorem act_restores (subj : Subjects) (x : Write) (h : x.Agreed subj w) :
    Ensures (OneStep U x.undoes) (Restores w) (w, b) (x.act C subj) := by
  have forget {α : Type} {p : Act α} (hp : Ensures (OneStep U x.undoes) (Restores w) (w, b) p) :
      Ensures (OneStep U x.undoes) (Restores w) (w, b) (do let _ ← p; pure ()) :=
    hp.bind (fun _ _ _ => ensures_pure restores_ok) fun _ _ he => he.error
  cases x with
  | createZone i => exact forget (create_restores subj i fun _ => rfl)
  | updateZone id i => exact forget (update_restores subj id i h)
  | createSupermaster i => exact forget (createSupermaster_restores subj i fun _ _ => rfl)
  | deleteSupermaster id => exact deleteSupermaster_restores subj id (fun _ => rfl) h

/-- **A write that fails is undone.**  Whichever single call fails, if the write returns an error
    then the rows, the zones of PowerDNS with their metadata and its supermasters are as they
    were. -/
theorem write_undone (C : Config) (subj : Subjects) (x : Write) (w : World) (h : x.Agreed subj w)
    (i : ℕ) (e : Fault) (err : Err)
    (hfail : (exec (faulty C.env.cases (oneFailure x.undoes i e)) (x.act C subj) (w, 0)).1 =
      .error err) :
    Unchanged w (exec (faulty C.env.cases (oneFailure x.undoes i e)) (x.act C subj) (w, 0)).2.1 :=
  Ensures.exec (π := fun s : World × ℕ => (s.1, decide (s.2 ≤ i))) oneStep_faulty
    (act_restores subj x h) err hfail

/-- A store that fails at the insert of a zone: PowerDNS forgets the zone. -/
theorem write_undone_insert :
    let e : Fault := ⟨.repoFailed, .plain .unavailable, none, .ipamFailed⟩
    let x : Write := .createZone ⟨str "example.com", str "native", [], [], false, [], [], [], []⟩
    Unchanged .empty (exec (faulty Config.sample.env.cases (oneFailure x.undoes 4 e))
      (x.act .sample (.internal (str "t"))) (.empty, 0)).2.1 :=
  write_undone .sample (.internal (str "t")) (.createZone _) .empty trivial 4 _ .repoFailed rfl

end TangraDns
