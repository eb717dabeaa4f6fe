/-
  What a tenant learns about others: whether a name is taken, and nothing else.
-/
import TangraDns.Proof.Isolation

namespace TangraDns

open List Str Prog.Failing Scope

variable {C : Config} {U : CaseTables} {T id : Str} {w w' : World} {past : Past} {net : Prop}
  {S S' : Store}
variable {z : Store.Zone} {o : Op}

/-! ## The store, as the tenant sees it -/

theorem mem_mine (h : SameRows T S S') (hT : z.tenantID = T) :
    z ∈ S.zones ↔ z ∈ S'.zones := by
  have := congrArg (z ∈ ·) h.zones
  simpa [List.mem_filter, hT, ← Table.mem_iff] using this

theorem SameRows.symm (h : SameRows T S S') : SameRows T S' S :=
  ⟨h.zones.symm, h.templates.symm, h.supermasters.symm, h.sync.symm, h.challenges.symm⟩

theorem SameRows.zone (h : SameRows T S S') : S.zone T id = S'.zone T id := by
  refine Option.ext fun z => ?_
  rw [Store.zone_eq_some, Store.zone_eq_some]
  exact ⟨fun ⟨h1, h2, h3⟩ => ⟨(mem_mine h h3).1 h1, h2, h3⟩,
    fun ⟨h1, h2, h3⟩ => ⟨(mem_mine h h3).2 h1, h2, h3⟩⟩

theorem SameRows.getZoneByName (h : SameRows T S S') {n : Str} :
    S.getZoneByName T n = S'.getZoneByName T n := by
  have key : ∀ {S S' : Store}, SameRows T S S' → ∀ z, S.getZoneByName T n = .ok z →
      S'.getZoneByName T n = .ok z := by
    intro S S' h z hz
    obtain ⟨h1, h2, h3⟩ := Store.getZoneByName_eq_ok.1 hz
    exact Store.getZoneByName_eq_ok.2 ⟨(mem_mine h h2).1 h1, h2, h3⟩
  cases hz : S.getZoneByName T n with
  | ok z => exact (key h z hz).symm
  | error e =>
    cases hz' : S'.getZoneByName T n with
    | ok z => rw [key h.symm z hz'] at hz; cases hz
    | error e' => rw [(Store.getZoneByName_eq_error hz).1, (Store.getZoneByName_eq_error hz').1]

theorem SameRows.template (h : SameRows T S S') : S.template T id = S'.template T id := by
  have key : ∀ {S S' : Store}, SameRows T S S' → ∀ t, S.template T id = some t →
      S'.template T id = some t := by
    intro S S' h t ht
    obtain ⟨hf, hT⟩ := Option.filter_eq_some_iff.1 ht
    obtain ⟨hm, hid⟩ := Table.mem_of_find hf
    have hm' : t ∈ S'.templates.rows.filter fun t => t.tenantID == T := by
      rw [← h.templates]
      exact List.mem_filter.2 ⟨hm, hT⟩
    refine Option.filter_eq_some_iff.2
      ⟨Table.find_eq_some (List.mem_filter.1 hm').1 hid fun b _ hb => ?_, hT⟩
    simpa [Keyed.clash, eq_of_beq hid] using hb
  refine Option.ext fun t => ⟨fun ht => key h t ht, fun ht => key h.symm t ht⟩

theorem zoneConflict_congr (h : S.zones.rows.filter (fun z => z.tenantID != T) =
    S'.zones.rows.filter fun z => z.tenantID != T) (n : Str) :
    S.zoneConflict U T n = S'.zoneConflict U T n := by
  have hany : ∀ S : Store, S.zoneConflict U T n =
      (S.zones.rows.filter fun z => z.tenantID != T).any fun z =>
        decide (Store.Overlaps (toLower U n) z.name) :=
    fun S => by rw [any_filter]; rfl
  rw [hany, hany, h]

def Clear (T : Str) (S : Store) : StoreCall → Prop
  | .createZone z => ∀ b ∈ S.zones, b.tenantID ≠ T → Keyed.clash b z = false
  | .insertChallenge c => ∀ b ∈ S.challenges, b.tenantID ≠ T → b.id ≠ c.id
  | _ => True

/-- **A store call of the tenant answers from its own rows** and leaves them alike. -/
theorem storeStep_same (now : ℕ) {c : StoreCall} (hc : StoreOK U T False past c)
    (h : SameRows T S S')
    (hover : ∀ n, S.zoneConflict U T n = S'.zoneConflict U T n) (hS : Clear T S c)
    (hS' : Clear T S' c) :
    (c.step U now S).1 = (c.step U now S').1 ∧ SameRows T (c.step U now S).2
    (c.step U now S').2 := by
  cases c with
  | createZone z =>
    dsimp only [StoreCall.step, Store.createZone]
    have hclash : ∀ {S : Store}, Clear T S (.createZone z) →
        ∀ b ∈ S.zones, (b.tenantID == T) = false →
        Keyed.clash b { z with
          createdAt := Store.orNow z.createdAt now
          updatedAt := Store.orNow z.updatedAt (Store.orNow z.createdAt now) } = false :=
      fun hS b hb hT => hS b hb (by simpa using hT)
    rcases Table.insert_congr h.zones (hclash hS) (hclash hS') with ⟨h1, h2⟩ | ⟨t, t', h1, h2, hz⟩
    · rw [h1, h2]
      exact ⟨rfl, h⟩
    · rw [h1, h2]
      exact ⟨rfl, hz, h.templates, h.supermasters, h.sync, h.challenges⟩
  | getZone t i =>
    cases hc
    exact ⟨by dsimp only [StoreCall.step, Store.getZone]; rw [h.zone], h⟩
  | getZoneByName t n =>
    cases hc
    exact ⟨h.getZoneByName, h⟩
  | zonesForTenant t =>
    cases hc
    exact ⟨by dsimp only [StoreCall.step, Store.zonesForTenant]; rw [h.zones], h⟩
  | getTemplate t i =>
    cases hc
    exact ⟨by dsimp only [StoreCall.step, Store.getTemplate]; rw [h.template], h⟩
  | zoneConflict t n =>
    obtain ⟨rfl, -⟩ := hc
    exact ⟨by dsimp only [StoreCall.step]; rw [hover n], h⟩
  | updateZone z =>
    cases hc
    dsimp only [StoreCall.step, Store.updateZone]
    rw [← h.zone]
    split
    · exact ⟨rfl, h⟩
    · refine ⟨rfl, Table.filter_map_comm h.zones fun a => ?_, h.templates, h.supermasters, h.sync,
        h.challenges⟩
      split <;> rfl
  | deleteZone t i =>
    cases hc
    dsimp only [StoreCall.step, Store.deleteZone]
    rw [← h.zone]
    split
    · exact ⟨rfl, h⟩
    · exact ⟨rfl, Table.filter_filter_comm h.zones, h.templates, h.supermasters, h.sync,
        Table.filter_filter_comm h.challenges⟩
  | clearSyncZone t i =>
    refine ⟨rfl, h.zones, h.templates, h.supermasters, Table.filter_map_comm h.sync fun a => ?_,
      h.challenges⟩
    split <;> rfl
  | insertChallenge x =>
    dsimp only [StoreCall.step, Store.insertChallenge]
    obtain ⟨rfl, -⟩ := hc
    rw [← h.zone]
    split
    · exact ⟨rfl, h⟩
    have hclash : ∀ {S : Store}, Clear x.tenantID S (.insertChallenge x) → ∀ b ∈ S.challenges,
        (b.tenantID == x.tenantID) = false →
        Keyed.clash b { x with createdAt := Store.orNow x.createdAt now } = false := by
      intro S hS b hb hT
      have := hS b hb (by simpa using hT)
      simp [Keyed.clash, this, hT]
    rcases Table.insert_congr h.challenges (hclash hS) (hclash hS') with ⟨h1, h2⟩ | ⟨t,
      t', h1, h2, hz⟩
    · rw [h1, h2]
      exact ⟨rfl, h⟩
    · rw [h1, h2]
      exact ⟨rfl, h.zones, h.templates, h.supermasters, h.sync, hz⟩
  | deleteChallenge t n v =>
    cases hc
    have hfind : (S.challenges.find fun c => c.tenantID == T && c.fqdn == n &&
        c.value == v).isSome =
        (S'.challenges.find fun c => c.tenantID == T && c.fqdn == n && c.value == v).isSome := by
      have hf : ∀ S : Store, S.challenges.find
          (fun c => c.tenantID == T && c.fqdn == n && c.value == v) =
          (S.challenges.rows.filter fun c => c.tenantID == T).find? fun c =>
            c.fqdn == n && c.value == v := by
        intro S
        rw [find?_filter, Table.find]
        simp only [Bool.and_assoc, Bool.decide_and, Bool.decide_eq_true]
      rw [hf, hf, h.challenges]
    dsimp only [StoreCall.step, Store.deleteChallenge]
    cases h1 : S.challenges.find fun c => c.tenantID == T && c.fqdn == n && c.value == v <;>
      cases h2 : S'.challenges.find fun c => c.tenantID == T && c.fqdn == n && c.value == v <;>
      rw [h1, h2] at hfind
    · exact ⟨rfl, h⟩
    · cases hfind
    · cases hfind
    · exact ⟨rfl, h.zones, h.templates, h.supermasters, h.sync,
        Table.filter_filter_comm h.challenges⟩
  | getIPAMSync _ _ | deleteIPAMSync _ _ | upsertIPAMSync _ => exact hc.1.elim
  | _ => exact hc.elim

/-! ## Calls of the tenant in two worlds -/

/-- What is known of one of the worlds after some calls of an operation. -/
structure Side (T : Str) (past : Past) (w : World) : Prop where
  regular : Regular T w
  minted : ∀ id : Str, Did past .newID id → Unused T w.store id

structure Alike (U : CaseTables) (T : Str) (past : Past) (w w' : World) : Prop where
  agree : Agree U T w w'
  own : ∀ id, Own T past id → w.pdns.zone id = w'.pdns.zone id
  cleared : ∀ n, Cleared T past n → toLower U n = n ∧ w.store.zoneConflict U T n = false
  left : Side T past w
  right : Side T past w'

theorem mem_of_others {S S' : Store}
    (h : S'.zones.rows.filter (fun z => z.tenantID != T) = S.zones.rows.filter fun z =>
      z.tenantID != T)
    (hz : z ∈ S'.zones) (hT : z.tenantID ≠ T) : z ∈ S.zones := by
  have : z ∈ S.zones.rows.filter fun z => z.tenantID != T := by
    rw [← h]
    exact List.mem_filter.2 ⟨hz, by simpa using hT⟩
  exact (List.mem_filter.1 this).1

theorem Unused.of_others (hz : S'.zones.rows.filter (fun z => z.tenantID != T) =
      S.zones.rows.filter fun z => z.tenantID != T)
    (hc : S'.challenges.rows.filter (fun c => c.tenantID != T) =
      S.challenges.rows.filter fun c => c.tenantID != T) (h : Unused T S id) : Unused T S' id := by
  refine ⟨fun z hz' hT => h.1 z (mem_of_others hz hz' hT) hT, fun c hc' hT => h.2 c ?_ hT⟩
  have : c ∈ S.challenges.rows.filter fun c => c.tenantID != T := by
    rw [← hc]
    exact List.mem_filter.2 ⟨hc', by simpa using hT⟩
  exact (List.mem_filter.1 this).1

theorem Side.step {r : Res o} (h : Side T past w) (ho : Allowed U T net False past o)
    (hr : r = (handler U o w).1 ∨ o ≠ .newID) : Side T (⟨o, r⟩ :: past) (handler U o w).2 := by
  have htail {id : Str} (hne : o ≠ .newID) (hid : Did (⟨o, r⟩ :: past) .newID id) :
      Did past .newID id := by
    rcases mem_cons.1 hid with hid | hid
    · exact absurd (Sigma.mk.inj hid).1.symm hne
    · exact hid
  cases o with
  | newID =>
    refine ⟨⟨h.regular.named, fun i hi => h.regular.fresh i (Nat.le_of_succ_le hi)⟩,
      fun id hid => ?_⟩
    rcases mem_cons.1 hid with hid | hid
    · cases hid
      rw [hr.resolve_right (absurd rfl)]
      exact h.regular.fresh w.minted le_rfl
    · exact h.minted id hid
  | store c =>
    have hz := storeStep_zones (S := w.store) (w.times w.ticks) ho
    have hc := storeStep_challenges (S := w.store) (w.times w.ticks) ho
    exact ⟨⟨fun z hz' hT => h.regular.named z (mem_of_others hz hz' hT) hT,
      fun i hi => (h.regular.fresh i hi).of_others hz hc⟩,
      fun id hid => (h.minted id (htail nofun hid)).of_others hz hc⟩
  | now | recursor c | pdns c | ipam c =>
    exact ⟨⟨h.regular.named, h.regular.fresh⟩, fun id hid => h.minted id (htail nofun hid)⟩

theorem pdnsStep_alike {c : PDNSCall} (h : Alike U T past w w') (hc : PDNSOK T past c) :
    Same T past (.pdns c) (c.step U w.pdns).1 (c.step U w'.pdns).1 ∧
      ∀ id, (c.step U w.pdns).2.zone id = (c.step U w'.pdns).2.zone id ∨
        (c.step U w.pdns).2.zone id = w.pdns.zone id ∧
        (c.step U w'.pdns).2.zone id = w'.pdns.zone id := by
  -- a call about a zone of the tenant
  have hown {i : Str} (ha : c.about = some i) (ht : ∀ id, id ≠ i → c.touches ≠ some id)
      (ho : Own T past i) :
      (c.step U w.pdns).1 = (c.step U w'.pdns).1 ∧
        ∀ id, (c.step U w.pdns).2.zone id = (c.step U w'.pdns).2.zone id ∨
          (c.step U w.pdns).2.zone id = w.pdns.zone id ∧
            (c.step U w'.pdns).2.zone id = w'.pdns.zone id := by
    obtain ⟨h1, h2⟩ := PDNSCall.step_congr (U := U) ha (h.own i ho)
    refine ⟨h1, fun id => ?_⟩
    by_cases hid : id = i
    · subst hid
      exact .inl h2
    · exact .inr ⟨PDNSCall.step_zone_of_ne (ht id hid), PDNSCall.step_zone_of_ne (ht id hid)⟩
  have hne {i id : Str} (h : id ≠ i) : some i ≠ some id := fun he => h (Option.some.inj he).symm
  cases c with
  | createZone z =>
    have hex := h.agree.names z.name (h.cleared z.name hc.1.cleared).2
    obtain ⟨h1, h2⟩ := PDNS.Server.createZone_congr hex
    refine ⟨h1, fun id => ?_⟩
    by_cases hid : z.name = id
    · subst hid
      rcases h2 with ⟨hs, ht, -⟩ | h2
      · exact .inr ⟨congrArg (fun s => s.zone z.name) hs, congrArg (fun s => s.zone z.name) ht⟩
      · exact .inl h2
    · have ht : (PDNSCall.createZone z).touches ≠ some id := fun he => hid (Option.some.inj he)
      exact .inr ⟨PDNSCall.step_zone_of_ne ht, PDNSCall.step_zone_of_ne ht⟩
  | getZone i =>
    refine ⟨?_, fun id => .inr ⟨rfl, rfl⟩⟩
    by_cases ho : Own T past i
    · exact .inl (hown rfl (fun id _ => by rintro ⟨⟩) ho).1
    · have hex := h.agree.names i (h.cleared i (hc.resolve_left ho)).2
      dsimp only [PDNSCall.step, PDNS.Server.getZone]
      cases hz : w.pdns.zone i <;> cases hz' : w'.pdns.zone i <;> rw [hz, hz'] at hex
      · exact .inl rfl
      · cases hex
      · cases hex
      · exact .inr ⟨ho, _, _, rfl, rfl⟩
  | exportZone i => exact hown rfl (fun id _ => by rintro ⟨⟩) hc
  | updateZoneMetadata i m => exact hown rfl (fun id hid => hne hid) hc.1
  | deleteZone i | patchRRsets i ch | notifyZone i => exact hown rfl (fun id hid => hne hid) hc
  | _ => exact hc.elim

theorem Side.clear {c : StoreCall} (h : Side T past w) (hc : StoreOK U T False past c)
    (hfree : ∀ n, Cleared T past n → toLower U n = n ∧ w.store.zoneConflict U T n = false) :
    Clear T w.store c := by
  cases c with
  | createZone z =>
    obtain ⟨-, hp, hid, -, hname⟩ := hc
    obtain ⟨hlow, hconf⟩ := hfree z.name hp.cleared
    intro b hb hT
    have hover := Store.zoneConflict_eq_false.1 hconf b hb hT
    rw [hlow] at hover
    have h1 : b.id ≠ z.id := (h.minted z.id hid).1 b hb hT
    have h2 : b.name ≠ z.name := fun he => hover (.inl he.symm)
    have h3 : b.pdnsID ≠ z.pdnsID := by rwa [h.regular.named b hb hT, hname]
    simp [Keyed.clash, h1, h2, h3]
  | insertChallenge x => exact fun b hb hT => (h.minted x.id hc.2).2 b hb hT
  | _ => trivial

theorem Alike.contents (h : Alike U T past w w') (ho : Allowed U T net False past o)
    (hz : z ∈ (handler U o w).2.store.zones) (hT : z.tenantID = T) :
    w.pdns.zone z.pdnsID = w'.pdns.zone z.pdnsID := by
  rcases zone_step hz with ⟨y, hy, hk⟩ | ⟨y, rfl, hk, -⟩ <;>
    simp only [Store.Zone.keys, Prod.mk.injEq] at hk
  · rw [← hk.2.2.2]
    exact h.agree.contents y hy (hk.2.1.trans hT)
  · obtain ⟨-, -, -, hm, hid⟩ := ho
    rw [← hk.2.2.2, hid]
    exact h.own y.name (.inr hm)

/-- **Worlds that look alike to the tenant stay so** through every call in its scope. -/
theorem Alike.step (h : Alike U T past w w') (hnet : ¬ net) (ho : Allowed U T net False past o) :
    Same T past o (handler U o w).1 (handler U o w').1 ∧
      Alike U T (⟨o, (handler U o w).1⟩ :: past) (handler U o w).2 (handler U o w').2 := by
  obtain ⟨hrows, hcont, hover, hnames, ⟨ht, htk⟩, hi, him⟩ := h.agree
  have left := h.left.step ho (.inl rfl)
  have right : Side T (⟨o, (handler U o w).1⟩ :: past) (handler U o w').2 := by
    refine h.right.step ho ?_
    by_cases hn : o = .newID
    · subst hn
      exact .inl (by dsimp only [handler]; rw [hi, him])
    · exact .inr hn
  -- names found free stay so, as the rows of others stay
  have cleared (hoth : ∀ n, (handler U o w).2.store.zoneConflict U T n =
      w.store.zoneConflict U T n) :
      ∀ n, Cleared T (⟨o, (handler U o w).1⟩ :: past) n →
        toLower U n = n ∧ (handler U o w).2.store.zoneConflict U T n = false := by
    intro n hn
    rw [hoth]
    rcases cleared_step hn with hn | ⟨rfl, hconf⟩
    exacts [h.cleared n hn, ⟨ho.2, hconf⟩]
  -- zones the operation may use are made by it, or of rows of the tenant
  have own (hne : ∀ z, o ≠ .pdns (.createZone z)) {id : Str}
      (hid : Own T (⟨o, (handler U o w).1⟩ :: past) id) : w.pdns.zone id = w'.pdns.zone id := by
    rcases own_step hid with hid | ⟨z, hz, hT, rfl⟩ | ⟨z, _, rfl, -⟩
    exacts [h.own id hid, hcont z hz hT, absurd rfl (hne z)]
  cases o with
  | now =>
    exact ⟨congrFun ht _ |>.trans (congrArg _ htk),
      ⟨⟨hrows, hcont, hover, hnames, ⟨ht, congrArg (· + 1) htk⟩, hi, him⟩,
      fun id => own nofun, cleared fun _ => rfl, left, right⟩⟩
  | newID =>
    exact ⟨congrFun hi _ |>.trans (congrArg _ him),
      ⟨⟨hrows, hcont, hover, hnames, ⟨ht, htk⟩, hi, congrArg (· + 1) him⟩,
      fun id => own nofun, cleared fun _ => rfl, left, right⟩⟩
  | store c =>
    have hfree' : ∀ n, Cleared T past n → toLower U n = n ∧ w'.store.zoneConflict U T n = false :=
      fun n hn => hover n ▸ h.cleared n hn
    obtain ⟨hres, hrows'⟩ := storeStep_same (w.times w.ticks) ho hrows hover
      (h.left.clear ho h.cleared) (h.right.clear ho hfree')
    have hoth (w : World) (n : Str) :
        (c.step U (w.times w.ticks) w.store).2.zoneConflict U T n = w.store.zoneConflict U T n :=
      zoneConflict_congr (storeStep_zones _ ho) n
    have htime : w'.times w'.ticks = w.times w.ticks := by rw [ht, htk]
    refine ⟨?_, ⟨?_, fun z hz hT => h.contents ho hz hT, fun n => ?_, fun n hn => ?_,
      ⟨ht, htk⟩, hi, him⟩,
      fun id => own nofun, cleared (hoth w), left, right⟩
    · dsimp only [handler]
      rw [htime]
      exact hres
    · dsimp only [handler]
      rw [htime]
      exact hrows'
    · exact (hoth w n).trans ((hover n).trans (hoth w' n).symm)
    · exact hnames n ((hoth w n).symm.trans hn)
  | pdns c =>
    obtain ⟨hres, hzone⟩ := pdnsStep_alike h ho
    have hkeep {id : Str} (he : w.pdns.zone id = w'.pdns.zone id) :
        (c.step U w.pdns).2.zone id = (c.step U w'.pdns).2.zone id := by
      rcases hzone id with h' | ⟨h1, h2⟩
      exacts [h', h1.trans (he.trans h2.symm)]
    refine ⟨hres, ⟨hrows, fun z hz hT => hkeep (hcont z hz hT), hover, fun n hn => ?_,
      ⟨ht, htk⟩, hi, him⟩,
      fun id hid => ?_, cleared fun _ => rfl, left, right⟩
    · rcases hzone n with h' | ⟨h1, h2⟩
      · exact congrArg Option.isSome h'
      · exact (congrArg Option.isSome h1).trans
          ((hnames n hn).trans (congrArg Option.isSome h2).symm)
    · rcases own_step hid with hid | ⟨z, hz, hT, rfl⟩ | ⟨z, c, hc, rfl, hok⟩
      · exact hkeep (h.own id hid)
      · exact hkeep (hcont z hz hT)
      · cases hc
        have hex := hnames z.name (h.cleared z.name ho.1.cleared).2
        exact (PDNS.Server.createZone_congr hex).2.resolve_left fun hn => hn.2.2 c hok
  | recursor c => exact absurd ho hnet
  | ipam c => cases c <;> exact ho.1.elim

/-! ## The recursor aside -/

def Beside {α : Type} (r r' : Except Err α × World) : Prop :=
  ∃ zones, r = (r'.1, { r'.2 with recursor := zones })

theorem Beside.refl {α : Type} (r : Except Err α × World) : Beside r r := ⟨r.2.recursor, rfl⟩

theorem Beside.bind {α β : Type} {p : Act α} {f g : α → Act β}
    (h : ∀ a s, Beside (exec (handler U) (f a) s) (exec (handler U) (g a) s)) :
    Beside (exec (handler U) (p >>= f) w) (exec (handler U) (p >>= g) w) := by
  rw [exec_bind, exec_bind]
  split
  · exact h _ _
  · exact .refl _

theorem target_beside (c : Recursor.Config) :
    ∃ zones, (exec (handler U) (Recursor.target c) w).2 = { w with recursor := zones } := by
  unfold Recursor.target
  split
  · exact ⟨_, rfl⟩
  · rw [exec_bind]
    split
    · next he =>
      obtain ⟨-, rfl⟩ := Prod.mk.inj he
      split
      · exact ⟨_, rfl⟩
      · split <;> exact ⟨_, rfl⟩
    · next he =>
      obtain ⟨-, rfl⟩ := Prod.mk.inj he
      exact ⟨_, rfl⟩

theorem recursorSync_beside (c : Recursor.Config) (n : Str) :
    ∃ zones, (exec (handler U) (Recursor.syncForward U c n) w).2 =
      { w with recursor := zones } := by
  unfold Recursor.syncForward
  split_ifs
  · exact ⟨_, rfl⟩
  · split
    · exact ⟨_, rfl⟩
    · obtain ⟨zones, h⟩ := target_beside (U := U) (w := w) c
      rw [exec_bind]
      split <;> next he => rw [he] at h; cases h; exact ⟨_, rfl⟩

theorem recursorRemove_beside (c : Recursor.Config) (n : Str) :
    ∃ zones, (exec (handler U) (Recursor.removeForward U c n) w).2 =
      { w with recursor := zones } := by
  unfold Recursor.removeForward
  split_ifs
  · exact ⟨_, rfl⟩
  · split
    · exact ⟨_, rfl⟩
    · rw [exec_bind]
      split <;> next he =>
        obtain ⟨-, rfl⟩ := Prod.mk.inj he
        first
        | exact ⟨_, rfl⟩
        | (split; exact ⟨_, rfl⟩; split_ifs <;> exact ⟨_, rfl⟩)

theorem syncForward_beside (n : Str) :
    Beside (exec (handler C.env.cases) (Zones.syncForward C n) w) (.ok (), w) := by
  unfold Zones.syncForward
  split
  · exact .refl _
  · next c _ =>
    obtain ⟨zones, h⟩ := recursorSync_beside (U := C.env.cases) (w := w) c n
    exact ⟨zones, by rw [exec_bind, exec_attempt, h]; rfl⟩

theorem removeForward_beside (n : Str) :
    Beside (exec (handler C.env.cases) (Zones.removeForward C n) w) (.ok (), w) := by
  unfold Zones.removeForward
  split
  · exact .refl _
  · next c _ =>
    obtain ⟨zones, h⟩ := recursorRemove_beside (U := C.env.cases) (w := w) c n
    exact ⟨zones, by rw [exec_bind, exec_attempt, h]; rfl⟩

theorem hostnames_unwired (out ns : List Str) :
    Zones.hostnames { C with recursor := none } out ns = Zones.hostnames C out ns := by
  induction ns generalizing out with
  | nil => rfl
  | cons n ns ih => simp only [Zones.hostnames, ih]

theorem create_unwired (s : Subjects) (i : Zones.CreateInput) :
    Zones.Impl.create { C with recursor := none } s i = Zones.Impl.create C s i := by
  simp only [Zones.Impl.create, Zones.Impl.prepare, Zones.nameservers, hostnames_unwired]
  rfl

theorem operation_beside (o : Operation T) :
    Beside (exec (handler C.env.cases) (o.act C) w)
      (exec (handler C.env.cases) (o.act { C with recursor := none }) w) := by
  cases o with
  | createZone s i =>
    dsimp only [Operation.act, Zones.create]
    rw [create_unwired]
    refine Beside.bind fun _ s => Beside.bind fun z s => ?_
    obtain ⟨zones, h⟩ := syncForward_beside (C := C) (w := s) z.name
    exact ⟨zones, by rw [exec_bind_ok h]; rfl⟩
  | deleteZone s id =>
    refine Beside.bind fun _ s => Beside.bind fun z s => Beside.bind fun _ s => ?_
    obtain ⟨zones, h⟩ := removeForward_beside (C := C) (w := s) z.name
    exact ⟨zones, by rw [exec_bind_ok h]; rfl⟩
  | _ => exact .refl _

/-! ## Operations one after another -/

theorem Alike.start (h : Agree U T w w') (hw : Regular T w) (hw' : Regular T w') :
    Alike U T [] w w' where
  agree := h
  own id hid := by
    rcases hid with ⟨_, ⟨_, h⟩ | ⟨_, h⟩ | ⟨_, h, -⟩, -⟩ | ⟨_, _, h, -⟩ <;> cases h
  cleared n hn := by cases hn
  left := ⟨hw, fun id hid => by cases hid⟩
  right := ⟨hw', fun id hid => by cases hid⟩

theorem Agree.recursor (h : Agree U T w w') (zones zones' : List ForwardZone) :
    Agree U T { w with recursor := zones } { w' with recursor := zones' } :=
  ⟨h.rows, h.contents, h.overlap, h.names, h.times, h.ids⟩

theorem Regular.recursor (h : Regular T w) (zones : List ForwardZone) :
    Regular T { w with recursor := zones } := ⟨h.named, h.fresh⟩

theorem operation_alike (o : Operation T) (h : Agree C.env.cases T w w') (hw : Regular T w)
    (hw' : Regular T w') :
    let r := exec (handler C.env.cases) (o.act C) w
    let r' := exec (handler C.env.cases) (o.act C) w'
    r.1 = r'.1 ∧ Agree C.env.cases T r.2 r'.2 ∧ Regular T r.2 ∧ Regular T r'.2 := by
  have hscope : Scoped { C with recursor := none } False T (fun _ _ => True) [] (o.act _) :=
    operation_scoped o
  obtain ⟨hres, halike⟩ := hscope.rel
    (R := Alike C.env.cases T) (handler_answer C.env.cases)
    (fun past w w' o h ho => h.step nofun ho) (Alike.start h hw hw')
  obtain ⟨zones, he⟩ := operation_beside (C := C) (w := w) o
  obtain ⟨zones', he'⟩ := operation_beside (C := C) (w := w') o
  dsimp only
  rw [he, he']
  exact ⟨hres, halike.agree.recursor .., halike.left.regular.recursor _,
    halike.right.regular.recursor _⟩

/-- **Only whether a name is taken is revealed.**  In two worlds that look alike to a tenant, its
    operations have the same results and errors, and leave worlds that look alike. -/
theorem runOperations_alike (C : Config) (T : Str) (w w' : World) (h : Agree C.env.cases T w w')
    (hw : Regular T w) (hw' : Regular T w') (ops : List (Operation T)) :
    (runOperations C ops w).1 = (runOperations C ops w').1 ∧
      Agree C.env.cases T (runOperations C ops w).2 (runOperations C ops w').2 := by
  induction ops generalizing w w' with
  | nil => exact ⟨rfl, h⟩
  | cons o ops ih =>
    obtain ⟨hres, h', hr, hr'⟩ := operation_alike o h hw hw'
    obtain ⟨hres', hagree⟩ := ih _ _ h' hr hr'
    exact ⟨congrArg₂ List.cons (Sigma.ext rfl (heq_of_eq hres)) hres', hagree⟩

/-- The sample world, but its zone is another tenant's and holds nothing. -/
def Records.otherWorld : World :=
  { sampleWorld with
    store := { sampleWorld.store with
      zones := ⟨[{ sampleZone with id := str "y", tenantID := str "x" }], pairwise_singleton _ _⟩ }
    pdns := { sampleWorld.pdns with
      zones := ⟨[{ samplePDNS with account := str "x", rrsets := [] }], pairwise_singleton _ _⟩ } }

/-- A tenant that is refused a zone inside the sample does not learn whose that is. -/
theorem runOperations_alike_sample :
    let other : Caller (str "o") := ⟨.internal (str "o"), rfl⟩
    let zone (name : Str) : Zones.CreateInput := ⟨name, str "native", [], [], false, [], [], [], []⟩
    let ops : List (Operation (str "o")) :=
      [.createZone other (zone (str "example.net")),
        .createZone other (zone (str "www.example.com"))]
    (runOperations .sample ops Records.sampleWorld).1 =
      (runOperations .sample ops Records.otherWorld).1 ∧
      Agree Config.sample.env.cases (str "o") (runOperations .sample ops Records.sampleWorld).2
        (runOperations .sample ops Records.otherWorld).2 := by
  intro other zone ops
  have fresh {id : Str} (hid : (105 : UInt8) ∉ id) (i : ℕ) : id ≠ Records.sampleWorld.ids i := by
    rintro rfl
    exact hid (mem_replicate.2 ⟨Nat.succ_ne_zero i, rfl⟩)
  refine runOperations_alike .sample (str "o") _ _ ?_ ?_ ?_ ops
  · refine ⟨⟨by decide, rfl, rfl, rfl, rfl⟩, fun z hz hT => ?_, fun n => rfl, fun n _ => ?_,
      ⟨rfl, rfl⟩, rfl, rfl⟩
    · rw [mem_singleton.1 hz] at hT
      exact absurd hT (by decide)
    · simp only [PDNS.Server.zone, Table.find, isSome_find?]
      rfl
  · refine ⟨fun z hz _ => by rw [mem_singleton.1 hz]; rfl,
      fun i _ => ⟨fun z hz _ => ?_, fun c hc => absurd hc not_mem_nil⟩⟩
    rw [mem_singleton.1 hz]
    exact fresh (by decide) i
  · refine ⟨fun z hz _ => by rw [mem_singleton.1 hz]; rfl,
      fun i _ => ⟨fun z hz _ => ?_, fun c hc => absurd hc not_mem_nil⟩⟩
    rw [mem_singleton.1 hz]
    exact fresh (by decide) i

end TangraDns
