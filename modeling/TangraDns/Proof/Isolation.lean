/-
  What a tenant does leaves other tenants alone.
-/
import TangraDns.Faults
import TangraDns.Operations
import TangraDns.Proof.ScopeSync
import TangraDns.Proof.Steps
import TangraDns.RecordData

namespace TangraDns

open Str Prog.Failing Scope

variable {C : Config} {U : CaseTables} {T : Str} {w s : World} {past : Past} {net sync : Prop}
variable {y : Store.Zone} {id : Str}

/-! ## Operations stay in scope -/

theorem zoneList_scoped (subj : Subjects) :
    Inside C sync subj.tenantID past (Zones.list C subj) :=
  check_bind fun _ _ => safe_ask rfl (fun _ _ hs => hs) fun _ _ _ _ => trivial

theorem operation_scoped (o : Operation T) : Inside C sync T past (o.act C) := by
  have weaken {α : Type} {Q : Past → α → Prop} {p : Act α} {T : Str}
      (h : Scoped C sync T Q past p) :
      Inside C sync T past p := h.mono fun _ _ _ _ => trivial
  have onZone {α : Type} {f : Store.Zone → Act α} (s : Subjects) (id : Str)
      (h : ∀ past' z, Own s.tenantID past' z.pdnsID → Inside C sync s.tenantID past' (f z)) :
      Inside C sync s.tenantID past (Zones.owned C s id >>= f) :=
    Safe.bind (owned_scoped s id) fun past' z _ hz => h past' z hz.1.own
  cases o with
  | createZone s i => obtain ⟨s, rfl⟩ := s; exact weaken (create_scoped s i)
  | ownedZone s id => obtain ⟨s, rfl⟩ := s; exact weaken (owned_scoped s id)
  | getZone s id => obtain ⟨s, rfl⟩ := s; exact get_scoped s id
  | listZones s => obtain ⟨s, rfl⟩ := s; exact zoneList_scoped s
  | zoneByName s n => obtain ⟨s, rfl⟩ := s; exact weaken (byName_scoped s n)
  | findForName s n => obtain ⟨s, rfl⟩ := s; exact weaken (findForName_scoped s n)
  | updateZone s id i => obtain ⟨s, rfl⟩ := s; exact update_scoped s id i
  | deleteZone s id => obtain ⟨s, rfl⟩ := s; exact delete_scoped s id
  | exportZone s id => obtain ⟨s, rfl⟩ := s; exact export_scoped s id
  | notifyZone s id => obtain ⟨s, rfl⟩ := s; exact notify_scoped s id
  | listSets s id f => obtain ⟨s, rfl⟩ := s; exact list_scoped _ s id f
  | upsertSet s id i => obtain ⟨s, rfl⟩ := s; exact upsertSet_scoped s id i
  | updateSet s id k i => obtain ⟨s, rfl⟩ := s; exact updateSet_scoped s id k i
  | deleteSet s id k => obtain ⟨s, rfl⟩ := s; exact deleteSet_scoped s id k
  | applySet s id i => obtain ⟨s, rfl⟩ := s; exact onZone s id fun _ _ h => apply_scoped h s i
  | lookupSet s id k => obtain ⟨s, rfl⟩ := s; exact onZone s id fun _ _ h => lookup_scoped h s k
  | removeSet s id k => obtain ⟨s, rfl⟩ := s; exact onZone s id fun _ _ h => remove_scoped h s k
  | present s r => obtain ⟨s, rfl⟩ := s; exact presentChallenge_scoped s r
  | cleanUp s r => obtain ⟨s, rfl⟩ := s; exact cleanUp_scoped s r

theorem activity_scoped (a : Activity T) : Inside C True T past (a.act C) := by
  cases a with
  | op o => exact Safe.bind (operation_scoped o) fun _ _ _ _ => safe_pure trivial
  | sync ev => exact handle_scoped ev

/-! ## Calls and the rows of other tenants -/

variable {S : Store} (now : ℕ) {c : StoreCall}

theorem storeStep_zones (hc : StoreOK U T sync past c) :
    (c.step U now S).2.zones.rows.filter (fun z => z.tenantID != T) =
      S.zones.rows.filter fun z => z.tenantID != T := by
  by_cases h : c.writesZones = false
  · rw [(c.step_frame U now S).1 h]
  cases c
  case createZone z =>
    change (S.createZone now z).2.zones.rows.filter _ = _
    rcases S.createZone_cases now z with ⟨-, he⟩ | ⟨zones, z', hi, hk, he⟩ <;> rw [he]
    refine Table.filter_insert hi ?_
    rw [Store.tenantID_of_keys hk, hc.1, bne_self_eq_false]
  case updateZone z =>
    change (S.updateZone now z).2.zones.rows.filter _ = _
    rcases S.updateZone_cases now z with ⟨-, he⟩ | ⟨cur, zones, he, -, -, -, f, hf, hk,
      hid⟩ <;> rw [he]
    change zones.rows.filter _ = _
    have hT : z.tenantID = T := hc
    rw [hf]
    refine Table.filter_map (fun c _ => ?_) fun c hmem hne => ?_
    · rw [Store.tenantID_of_keys (hk c)]
    · exact hid c hmem (by rw [hT]; simpa using hne)
  case deleteZone t id =>
    change (S.deleteZone t id).2.zones.rows.filter _ = _
    rcases S.deleteZone_cases t id with he | ⟨z, hz, hid, hT, he⟩ <;> rw [he]
    refine Table.filter_filter fun y hy hne => ?_
    simp only [Bool.not_eq_true', beq_eq_false_iff_ne]
    rintro rfl
    have : y = z := Table.eq_of_clash hy hz (by simp [Keyed.clash, hid])
    simp [this, hT.trans hc] at hne
  all_goals exact absurd rfl h

theorem storeStep_sync (hc : StoreOK U T sync past c) :
    (c.step U now S).2.sync.rows.filter (fun r => r.tenantID != T) =
      S.sync.rows.filter fun r => r.tenantID != T := by
  by_cases h : c.writesSync = false
  · rw [(c.step_frame U now S).2.1 h]
  cases c
  case upsertIPAMSync r =>
    dsimp only [StoreCall.step, Store.upsertIPAMSync]
    have hT : r.tenantID = T := hc.2
    split
    · rfl
    split_ifs
    · rfl
    split
    · rfl
    next hi =>
      refine (Table.filter_insert hi (by simp [hT])).trans ?_
      refine Table.filter_filter fun y _ hne => ?_
      rw [hT]
      have : y.tenantID ≠ T := by simpa using hne
      simp [this]
  case deleteIPAMSync t id =>
    have hT : t = T := hc.2
    dsimp only [StoreCall.step, Store.deleteIPAMSync]
    split
    · rfl
    refine Table.filter_filter fun y _ hne => ?_
    have : y.tenantID ≠ t := by simpa [hT] using hne
    simp [this]
  case clearSyncZone t id =>
    have hT : t = T := hc
    refine Table.filter_map (fun r _ => ?_) fun r _ hne => ?_
    · split <;> rfl
    · have : r.tenantID ≠ t := by simpa [hT] using hne
      simp [this]
  all_goals exact absurd rfl h

theorem storeStep_challenges (hc : StoreOK U T sync past c) :
    (c.step U now S).2.challenges.rows.filter (fun c => c.tenantID != T) =
      S.challenges.rows.filter fun c => c.tenantID != T := by
  by_cases h : c.writesChallenges = false
  · rw [(c.step_frame U now S).2.2.1 h]
  cases c
  case insertChallenge c =>
    dsimp only [StoreCall.step, Store.insertChallenge]
    split
    · rfl
    split
    · rfl
    next hi => exact Table.filter_insert hi (by simp [show c.tenantID = T from hc.1])
  case deleteChallenge t n v =>
    have hT : t = T := hc
    dsimp only [StoreCall.step, Store.deleteChallenge]
    split
    · rfl
    refine Table.filter_filter fun y _ hne => ?_
    have : y.tenantID ≠ t := by simpa [hT] using hne
    simp [this]
  case deleteZone t id =>
    have hT : t = T := hc
    change (S.deleteZone t id).2.challenges.rows.filter _ = _
    rcases S.deleteZone_cases t id with he | ⟨z, -, -, -, he⟩ <;> rw [he]
    refine Table.filter_filter fun y _ hne => ?_
    have : y.tenantID ≠ t := by simpa [hT] using hne
    simp [this]
  all_goals exact absurd rfl h

/-! ## The invariant of one activity -/

def Mine (T : Str) (w : World) (past : Past) (id : Str) : Prop :=
  (∃ z ∈ w.store.zones, z.tenantID = T ∧ z.pdnsID = id) ∨ Made past id

/-- What holds after some calls of an activity that started in `w`. -/
structure Kept (T : Str) (w : World) (past : Past) (s : World) : Prop where
  untouched : Untouched T w s
  ids : ∀ z ∈ s.store.zones, z.pdnsID = z.name
  rows : ∀ z ∈ s.store.zones, z.tenantID = T → Mine T w past z.pdnsID
  loaded : ∀ z, Loaded T past z → Mine T w past z.pdnsID
  pending : ∀ n, Pending T n past → ∀ y ∈ w.store.zones, y.tenantID ≠ T → ¬ Store.Overlaps n y.name
  made : ∀ n, Made past n → ∀ y ∈ w.store.zones, y.tenantID ≠ T → ¬ Store.Overlaps n y.name

theorem Mine.tail {e : Prog.Event Op Res} (h : Mine T w past id) : Mine T w (e :: past) id :=
  h.imp_right fun h => h.mono (List.suffix_cons ..)

theorem Kept.own (h : Kept T w past s) (ho : Own T past id) : Mine T w past id := by
  rcases ho with ⟨z, hz, rfl⟩ | ho
  exacts [h.loaded z hz, .inr ho]

theorem Kept.ne_of_own (h : Kept T w past s) (hw : ∀ z ∈ w.store.zones, z.pdnsID = z.name)
    (ho : Own T past id) (hy : y ∈ w.store.zones) (hT : y.tenantID ≠ T) :
    y.pdnsID ≠ id := by
  rcases h.own ho with ⟨z, hz, hzT, rfl⟩ | hm
  · intro he
    have : y = z := Table.eq_of_clash hy hz (by simp [Keyed.clash, he])
    exact hT (this ▸ hzT)
  · intro he
    exact h.made id hm y hy hT (.inl (by rw [← he, hw y hy]))

theorem mem_others (h : Untouched T w s) (hy : y ∈ w.store.zones) (hT : y.tenantID ≠ T) :
    y ∈ s.store.zones := by
  have : y ∈ s.store.zones.rows.filter fun z => z.tenantID != T := by
    rw [h.zones]
    exact List.mem_filter.2 ⟨hy, by simpa using hT⟩
  exact (List.mem_filter.1 this).1

theorem pdnsStep_others (h : Kept T w past s) (hw : ∀ z ∈ w.store.zones, z.pdnsID = z.name)
    {c : PDNSCall}
    (hc : PDNSOK T past c) (hy : y ∈ w.store.zones) (hT : y.tenantID ≠ T) :
    (c.step U s.pdns).2.zone y.pdnsID = s.pdns.zone y.pdnsID := by
  refine PDNSCall.step_zone_of_ne fun ht => ?_
  cases c with
  | createZone z =>
    have hn : z.name = y.pdnsID := Option.some.inj ht
    exact h.pending z.name hc.1 y hy hT (.inl (hn.trans (hw y hy)))
  | updateZoneMetadata id m =>
    cases ht
    exact h.ne_of_own hw hc.1 hy hT rfl
  | deleteZone id | patchRRsets id ch | notifyZone id =>
    cases ht
    exact h.ne_of_own hw hc hy hT rfl
  | _ => cases ht

theorem Untouched.step (h : Kept T w past s) (hw : ∀ z ∈ w.store.zones, z.pdnsID = z.name) {o : Op}
    (ho : Allowed U T net sync past o) : Untouched T w (handler U o s).2 := by
  obtain ⟨h1, h2, h3, h4⟩ := h.untouched
  cases o with
  | store c =>
    exact ⟨(storeStep_zones _ ho).trans h1, (storeStep_sync _ ho).trans h2,
      (storeStep_challenges _ ho).trans h3, h4⟩
  | pdns c => exact ⟨h1, h2, h3, fun y hy hT => (pdnsStep_others h hw ho hy hT).trans (h4 y hy hT)⟩
  | _ => exact ⟨h1, h2, h3, h4⟩

theorem Kept.effect (hw : ∀ z ∈ w.store.zones, z.pdnsID = z.name) {o : Op} (h : Kept T w past s)
    (ho : Allowed U T net sync past o) : Kept T w past (handler U o s).2 := by
  -- what a row of the tenant is after the call
  have hrow : ∀ z ∈ (handler U o s).2.store.zones, z.pdnsID = z.name ∧
      (z.tenantID = T → Mine T w past z.pdnsID) := by
    intro z hz
    rcases zone_step hz with ⟨y, hy, hk⟩ | ⟨y, rfl, hk, -⟩
    · simp only [Store.Zone.keys, Prod.mk.injEq] at hk
      rw [← hk.2.2.2, ← hk.2.2.1, ← hk.2.1]
      exact ⟨h.ids y hy, h.rows y hy⟩
    · obtain ⟨-, -, -, hm, hid⟩ := ho
      simp only [Store.Zone.keys, Prod.mk.injEq] at hk
      rw [← hk.2.2.2, ← hk.2.2.1]
      exact ⟨hid, fun _ => .inr (hid ▸ hm)⟩
  exact ⟨Untouched.step h hw ho, fun z hz => (hrow z hz).1, fun z hz => (hrow z hz).2, h.loaded,
    h.pending, h.made⟩

/-- **Every call in the scope of the tenant keeps the invariant.** -/
theorem Kept.step (hw : ∀ z ∈ w.store.zones, z.pdnsID = z.name) {o : Op} (h : Kept T w past s)
    (ho : Allowed U T net sync past o) :
    Kept T w (⟨o, (handler U o s).1⟩ :: past) (handler U o s).2 := by
  have hdone := h.effect hw ho
  refine ⟨hdone.untouched, hdone.ids, fun z hz hT => (hdone.rows z hz hT).tail, fun z hz => ?_,
    fun n hn => ?_, fun n hn => ?_⟩
  · rcases loaded_step hz with hz | ⟨hz, hT⟩
    exacts [(h.loaded z hz).tail, (h.rows z hz hT).tail]
  · rcases mem_pending_cons hn with ⟨-, hn⟩ | hf
    · exact h.pending n hn
    · obtain ⟨rfl, hfree⟩ := freed_step hf
      intro y hy hT
      have := Store.zoneConflict_eq_false.1 hfree y (mem_others h.untouched hy hT) hT
      rwa [ho.2] at this
  · rcases made_step hn with hn | ⟨z, -, rfl, rfl, -⟩
    exacts [h.made n hn, h.pending z.name ho.1]

/-! ## Activities one after another -/

theorem Kept.start (hw : ∀ z ∈ w.store.zones, z.pdnsID = z.name) : Kept T w [] w where
  untouched := ⟨rfl, rfl, rfl, fun _ _ _ => rfl⟩
  ids := hw
  rows z hz hT := .inl ⟨z, hz, hT, rfl⟩
  loaded z hz := by rcases hz with ⟨_, h⟩ | ⟨_, h⟩ | ⟨_, h, -⟩ <;> cases h
  pending n hn := by cases hn
  made n hn := by obtain ⟨_, _, h, -⟩ := hn; cases h

theorem Activity.kept (hw : ∀ z ∈ w.store.zones, z.pdnsID = z.name) (a : Activity T) :
    ∃ past, Kept T w past (a.run C w) :=
  ⟨_, ((activity_scoped a).run (I := Kept T w) (handler_answer C.env.cases)
    (fun _ _ _ h ho => h.step hw ho) (Kept.start hw)).1⟩

theorem Activity.within (hw : ∀ z ∈ w.store.zones, z.pdnsID = z.name) (a : Activity T)
    {pre post : List (Prog.Event Op Res)} {c : PDNSCall} {r : Res (.pdns c)}
    (h : a.trace C w = pre ++ ⟨.pdns c, r⟩ :: post) : Within T w pre c := by
  obtain ⟨s, hk, ho, -⟩ := (activity_scoped a).event (I := Kept T w) (handler_answer C.env.cases)
    (fun _ _ _ h ho => h.step hw ho) (Kept.start hw) h
  rw [List.append_nil] at hk ho
  have hmine {id : Str} (ho : Own T pre.reverse id) :
      (∃ z ∈ w.store.zones, z.tenantID = T ∧ z.pdnsID = id) ∨
        ∃ z c : PDNS.Zone, (⟨.pdns (.createZone z), .ok c⟩ : Prog.Event Op Res) ∈ pre ∧
          z.name = id := by
    refine (hk.own ho).imp_right ?_
    rintro ⟨z, c, h, hn⟩
    exact ⟨z, c, List.mem_reverse.1 h, hn⟩
  cases c with
  | createZone z => exact ⟨ho.2, hk.pending z.name ho.1⟩
  | updateZoneMetadata id m => exact hmine ho.1
  | deleteZone id | patchRRsets id ch | notifyZone id => exact hmine ho
  | createSupermaster _ | deleteSupermaster _ _ => exact ho
  | _ => trivial

theorem Untouched.trans {w₁ w₂ w₃ : World} (h : Untouched T w₁ w₂) (h' : Untouched T w₂ w₃) :
    Untouched T w₁ w₃ where
  zones := h'.zones.trans h.zones
  sync := h'.sync.trans h.sync
  challenges := h'.challenges.trans h.challenges
  pdns z hz hT := (h'.pdns z (mem_others h hz hT) hT).trans (h.pdns z hz hT)

theorem runActivities_untouched (as : List (Activity T))
    (hw : ∀ z ∈ w.store.zones, z.pdnsID = z.name) :
    Untouched T w (runActivities C as w) ∧
      ∀ z ∈ (runActivities C as w).store.zones, z.pdnsID = z.name := by
  induction as generalizing w with
  | nil => exact ⟨⟨rfl, rfl, rfl, fun _ _ _ => rfl⟩, hw⟩
  | cons a as ih =>
    obtain ⟨past, hk⟩ := a.kept (C := C) hw
    obtain ⟨h, hid⟩ := ih hk.ids
    exact ⟨hk.untouched.trans h, hid⟩

theorem overlaps_symm {a b : Str} (h : Store.Overlaps a b) : Store.Overlaps b a := by
  rcases h with rfl | h | h
  exacts [.inl rfl, .inr (.inr h), .inr (.inl h)]

theorem Kept.noOverlap (hw : ∀ z ∈ w.store.zones, z.pdnsID = z.name) (h₀ : w.store.NoOverlap)
    (h : Kept T w past s) : s.store.NoOverlap := by
  have hother {y : Store.Zone} (hy : y ∈ s.store.zones) (hT : y.tenantID ≠ T) :
      y ∈ w.store.zones := by
    have : y ∈ w.store.zones.rows.filter fun z => z.tenantID != T := by
      rw [← h.untouched.zones]
      exact List.mem_filter.2 ⟨hy, by simpa using hT⟩
    exact (List.mem_filter.1 this).1
  have hmine {a b : Store.Zone} (ha : a ∈ s.store.zones) (hb : b ∈ s.store.zones)
      (haT : a.tenantID = T)
      (hbT : b.tenantID ≠ T) : ¬ Store.Overlaps a.name b.name := by
    rw [← h.ids a ha]
    rcases h.rows a ha haT with ⟨z, hz, hzT, hza⟩ | hm
    · rw [← hza, hw z hz]
      exact h₀ z hz b (hother hb hbT) (by rw [hzT]; exact Ne.symm hbT)
    · exact h.made _ hm b (hother hb hbT) hbT
  intro a ha b hb hne
  by_cases haT : a.tenantID = T
  · exact hmine ha hb haT fun hbT => hne (haT.trans hbT.symm)
  · by_cases hbT : b.tenantID = T
    · exact fun ho => hmine hb ha hbT haT (overlaps_symm ho)
    · exact h₀ a (hother ha haT) b (hother hb hbT) hne

theorem runActivities_noOverlap (as : List (Activity T))
    (hw : ∀ z ∈ w.store.zones, z.pdnsID = z.name)
    (h₀ : w.store.NoOverlap) : (runActivities C as w).store.NoOverlap := by
  induction as generalizing w with
  | nil => exact h₀
  | cons a as ih =>
    obtain ⟨past, hk⟩ := a.kept (C := C) hw
    exact ih hk.ids (hk.noOverlap hw h₀)

/-- **Tenants are isolated.**  Whatever is done for a tenant, one activity after another, from zones
    that do not overlap and that PowerDNS calls by their names: the rows and PowerDNS zones of other
    tenants stay as they are, zones of different tenants still do not overlap, and every PowerDNS
    mutation is one of a zone of the tenant, or of one it has just made beside those of others. -/
theorem activities_isolated (C : Config) (T : Str) (w : World) (h₀ : w.store.NoOverlap)
    (hid : ∀ z ∈ w.store.zones, z.pdnsID = z.name) (as : List (Activity T)) :
    Untouched T w (runActivities C as w) ∧ (runActivities C as w).store.NoOverlap ∧
      ∀ before a after, as = before ++ a :: after → ∀ pre c r post,
        a.trace C (runActivities C before w) = pre ++ ⟨.pdns c, r⟩ :: post →
          Within T (runActivities C before w) pre c := by
  refine ⟨(runActivities_untouched as hid).1, runActivities_noOverlap as hid h₀, ?_⟩
  intro before a after _ pre c r post ht
  exact a.within (runActivities_untouched before hid).2 ht

/-- Another tenant beside the sample zone: it makes a zone, and is refused one inside the sample. -/
theorem activities_isolated_sample :
    let other : Caller (str "o") := ⟨.internal (str "o"), rfl⟩
    let zone (name : Str) : Zones.CreateInput := ⟨name, str "native", [], [], false, [], [], [], []⟩
    let as : List (Activity (str "o")) :=
      [.op (.createZone other (zone (str "example.net"))),
        .op (.createZone other (zone (str "www.example.com")))]
    Untouched (str "o") Records.sampleWorld (runActivities .sample as Records.sampleWorld) ∧
      (runActivities .sample as Records.sampleWorld).store.NoOverlap ∧
      ∀ before a after, as = before ++ a :: after → ∀ pre c r post,
        a.trace .sample (runActivities .sample before Records.sampleWorld) = pre ++
          ⟨.pdns c, r⟩ :: post →
          Within (str "o") (runActivities .sample before Records.sampleWorld) pre c :=
  activities_isolated .sample (str "o") Records.sampleWorld (by decide)
    (fun z hz => by rw [List.mem_singleton.1 hz]; rfl) _

/-! ## Failing dependencies -/

section Failures

variable {V : Str} {plan : ℕ → Op → Prog.Fate Fault} {o : Op}

theorem Kept.failed {f : Fault → Res o} (h : Kept T w past s) (hf : fallible o = some f)
    (e : Fault) :
    Kept T w (⟨o, f e⟩ :: past) s := by
  have hearlier {o' : Op} {r : Res o'} (hr : ∀ f, fallible o' = some f → r ≠ f e)
      (hd : Did (⟨o, f e⟩ :: past) o' r) : Did past o' r := by
    refine (List.mem_cons.1 hd).resolve_left fun he => ?_
    obtain ⟨rfl, he⟩ := Sigma.mk.inj he
    exact hr f hf (eq_of_heq he)
  refine ⟨h.untouched, h.ids, fun z hz hT => (h.rows z hz hT).tail, fun z hz => ?_, fun n hn => ?_,
    fun n hn => ?_⟩
  · refine (h.loaded z ?_).tail
    rcases hz with ⟨id, hz⟩ | ⟨n, hz⟩ | ⟨zs, hz, hmem⟩
    · exact .inl ⟨id, hearlier (by rintro _ ⟨⟩ ⟨⟩) hz⟩
    · exact .inr (.inl ⟨n, hearlier (by rintro _ ⟨⟩ ⟨⟩) hz⟩)
    · exact .inr (.inr ⟨zs, hearlier (by rintro _ ⟨⟩ ⟨⟩) hz, hmem⟩)
  · rcases mem_pending_cons hn with ⟨-, hn⟩ | hfree
    · exact h.pending n hn
    · cases o with
      | store c =>
        cases hf
        cases c <;> cases hfree
      | now | newID | pdns c | recursor c | ipam c => cases hfree
  · obtain ⟨z, c, hz, hname⟩ := hn
    exact h.made n ⟨z, c, hearlier (by rintro _ ⟨⟩ ⟨⟩) hz, hname⟩

theorem faulty_answer (o : Op) (s : World × ℕ) : Answer o (faulty U plan o s).1 := by
  obtain h | ⟨f, e, hf, hr, -⟩ := @Prog.disturb_cases _ _ _ _ (handler U) fallible plan o s
  · rw [(Prod.mk.inj h).1]
    exact handler_answer U o s.1
  · rw [hr]
    cases o with
    | store c | pdns c => cases hf; cases c <;> first | trivial | rintro _ ⟨⟩
    | _ => trivial

theorem Kept.disturbed {t : World × ℕ} (h : Kept T w past t.1) (plan : ℕ → Op → Prog.Fate Fault)
    (hw : ∀ z ∈ w.store.zones, z.pdnsID = z.name) (ho : Allowed U T net sync past o) :
    Kept T w (⟨o, (faulty U plan o t).1⟩ :: past) (faulty U plan o t).2.1 := by
  obtain hd | ⟨f, e, hf, hr, ⟨-, hs⟩ | ⟨-, hs⟩⟩ :=
    @Prog.disturb_cases _ _ _ _ (handler U) fallible plan o t
  · rw [(Prod.mk.inj hd).1, (Prod.mk.inj hd).2]
    exact h.step hw ho
  · rw [hr, hs]
    exact h.failed hf e
  · rw [hr, hs]
    exact (h.effect hw ho).failed hf e

structure Undisturbed (V : Str) (w w' : World) : Prop where
  zones : w'.store.zones.rows.filter (fun z => z.tenantID == V) = w.store.zones.rows.filter fun z =>
    z.tenantID == V
  sync : w'.store.sync.rows.filter (fun r => r.tenantID == V) = w.store.sync.rows.filter fun r =>
    r.tenantID == V
  challenges : w'.store.challenges.rows.filter (fun c => c.tenantID == V) =
    w.store.challenges.rows.filter fun c => c.tenantID == V
  pdns : ∀ z ∈ w.store.zones, z.tenantID = V → w'.pdns.zone z.pdnsID = w.pdns.zone z.pdnsID

theorem filter_of_others {α : Type} {l l' : List α} {tenant : α → Str} (hV : V ≠ T)
    (h : l'.filter (fun a => tenant a != T) = l.filter fun a => tenant a != T) :
    l'.filter (fun a => tenant a == V) = l.filter fun a => tenant a == V := by
  have hpart (l : List α) : (l.filter fun a => tenant a != T).filter (fun a => tenant a == V) =
      l.filter fun a => tenant a == V := by
    rw [List.filter_filter]
    refine List.filter_congr fun a _ => ?_
    by_cases ha : tenant a = V <;> simp [ha, hV]
  rw [← hpart l', h, hpart]

theorem Untouched.undisturbed (h : Untouched T w s) (hV : V ≠ T) : Undisturbed V w s :=
  ⟨filter_of_others hV h.zones, filter_of_others hV h.sync, filter_of_others hV h.challenges,
    fun z hz hzV => h.pdns z hz (hzV ▸ hV)⟩

theorem Undisturbed.trans {w' : World} (h : Undisturbed V w s) (h' : Undisturbed V s w') :
    Undisturbed V w w' := by
  refine ⟨h'.zones.trans h.zones, h'.sync.trans h.sync, h'.challenges.trans h.challenges,
    fun z hz hV => ?_⟩
  have hmem : z ∈ s.store.zones.rows.filter fun z => z.tenantID == V := by
    rw [h.zones]
    exact List.mem_filter.2 ⟨hz, beq_iff_eq.2 hV⟩
  exact (h'.pdns z (List.mem_filter.1 hmem).1 hV).trans (h.pdns z hz hV)

/-- What tenants do one after another, each time with what becomes of the calls. -/
def runTenants (C : Config) (as : List (Σ T, Activity T × (ℕ → Op → Prog.Fate Fault))) (w : World) :
    World :=
  as.foldl (fun w a => (exec (faulty C.env.cases a.2.2) (a.2.1.act C) (w, 0)).2.1) w

/-- **Tenants are isolated, whatever fails.**  Calls may fail, take effect without an answer or be
    cut off by a cancellation: zones of different tenants never overlap, and a tenant for whom
    nothing is done keeps its rows and its PowerDNS zones. -/
theorem tenants_isolated (C : Config) (w : World) (h₀ : w.store.NoOverlap)
    (hid : ∀ z ∈ w.store.zones, z.pdnsID = z.name)
    (as : List (Σ T, Activity T × (ℕ → Op → Prog.Fate Fault))) :
    (runTenants C as w).store.NoOverlap ∧ ∀ V, (∀ a ∈ as, a.1 ≠ V) →
    Undisturbed V w (runTenants C as w) := by
  induction as generalizing w with
  | nil => exact ⟨h₀, fun V _ => ⟨rfl, rfl, rfl, fun _ _ _ => rfl⟩⟩
  | cons a as ih =>
    have hk := ((activity_scoped (C := C) a.2.1).run (I := fun past t => Kept a.1 w past t.1)
      faulty_answer
      (fun _ _ _ h ho => h.disturbed a.2.2 hid ho) (s := (w, 0)) (Kept.start hid)).1
    obtain ⟨hno, hrest⟩ := ih _ (hk.noOverlap hid h₀) hk.ids
    refine ⟨hno, fun V hV => ?_⟩
    exact (hk.untouched.undisturbed (hV a (List.mem_cons_self ..)).symm).trans
      (hrest V fun b hb => hV b (List.mem_cons_of_mem _ hb))

/-- A tenant makes a zone, and the answer to its fifth call is lost. -/
theorem tenants_isolated_sample :
    let other : Caller (str "o") := ⟨.internal (str "o"), rfl⟩
    let made : Operation (str "o") :=
      .createZone other ⟨str "example.net", str "native", [], [], false, [], [], [], []⟩
    let plan (n : ℕ) (_ : Op) : Prog.Fate Fault :=
      if n = 4 then .lost ⟨.repoNotFound, .decode, none, .ipamNotFound⟩ else .done
    (runTenants .sample [⟨str "o", .op made, plan⟩] Records.sampleWorld).store.NoOverlap ∧
      Undisturbed (str "t") Records.sampleWorld
        (runTenants .sample [⟨str "o", .op made, plan⟩] Records.sampleWorld) := by
  intro other made plan
  obtain ⟨hno, h⟩ := tenants_isolated .sample Records.sampleWorld (by decide)
    (fun z hz => by rw [List.mem_singleton.1 hz]; rfl) [⟨str "o", .op made, plan⟩]
  refine ⟨hno, h (str "t") fun a ha => ?_⟩
  rw [List.mem_singleton.1 ha]
  decide

end Failures

end TangraDns
