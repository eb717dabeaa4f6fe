/-
  The IPAM sync stays in the scope of its tenant.
-/
import TangraDns.Proof.Scope

namespace TangraDns.Scope

open Str Prog.Failing Sync

variable {C : Config} {T : Str} {α β : Type} {past past' : Past} {Q : Past → α → Prop}
  {subj : Subjects} {z : Store.Zone}

theorem ipam_catch {c : IPAMCall} {k : Except Err c.Ans → Act α}
    (hD : Allowed C.env.cases T (C.recursor.isSome = true) True past (.ipam c))
    (h : ∀ r, Scoped C True T Q (⟨.ipam c, r⟩ :: past) (k r)) :
    Scoped C True T Q past ((Act.ipam c).attempt >>= k) :=
  safe_ask_catch hD (fun _ _ hs => congrArg k hs) fun r _ => h r

/-! ## Records -/

theorem zone_scoped (hT : subj.tenantID = T) (id : Option Str) (name : Str) :
    Scoped C True T (fun past' z => Own T past' z.pdnsID) past (Sync.zone C subj id name) := by
  subst hT
  cases id with
  | some id => exact Safe.mono (owned_scoped subj id) fun _ _ _ hz => hz.1.own
  | none =>
    refine Safe.catch (create_scoped subj _) (fun _ z _ hz => safe_pure hz.1) fun _ e _ => ?_
    refine Safe.ite (fun _ => ?_) fun _ => safe_throw _
    exact Safe.catch (byName_scoped subj name) (fun _ z _ hz => safe_pure hz.1.own)
      fun _ _ _ => safe_throw _

theorem lookupSet_scoped (h : Own T past z.pdnsID) (name typ : Str) :
    Inside C True T past (Sync.lookup C subj z name typ) := by
  refine Safe.catch (lookup_scoped h subj _) (fun _ _ _ _ => safe_pure trivial) fun _ _ _ => ?_
  exact Safe.ite (fun _ => safe_pure trivial) fun _ => safe_throw _

theorem writeSet_scoped (h : Own T past z.pdnsID) (i : Validate.RecordSetInput) :
    Inside C True T past (Sync.write C subj z i) :=
  Safe.bind (apply_scoped h subj i) fun _ _ _ _ => safe_pure trivial

theorem addValue_scoped (h : Own T past z.pdnsID) (name typ value : Str) :
    Inside C True T past (Sync.addValue C subj z name typ value) := by
  refine Safe.bind (lookupSet_scoped h name typ) fun _ cur h₁ _ => ?_
  cases cur with
  | none => exact writeSet_scoped (h.mono h₁) _
  | some cur => exact Safe.ite (fun _ => safe_pure trivial) fun _ => writeSet_scoped (h.mono h₁) _

theorem ownedOrGone_scoped (hT : subj.tenantID = T) (id : Str) :
    Scoped C True T (fun past' z => ∀ z' ∈ z, Own T past' (Store.Zone.pdnsID z')) past
      (Sync.ownedOrGone C subj id) := by
  subst hT
  refine Safe.catch (owned_scoped subj id) (fun _ z _ hz => safe_pure ?_) fun _ _ _ => ?_
  · rintro _ ⟨⟩
    exact hz.1.own
  · refine Safe.ite (fun _ => safe_pure ?_) fun _ => safe_throw _
    rintro _ ⟨⟩

theorem syncRemoveValue_scoped (hT : subj.tenantID = T) (id name typ value : Str) :
    Inside C True T past (Sync.removeValue C subj id name typ value) := by
  refine Safe.bind (ownedOrGone_scoped hT id) fun _ z _ hz => ?_
  cases z with
  | none => exact safe_pure trivial
  | some z =>
    refine Safe.bind (lookupSet_scoped (hz z rfl) name typ) fun _ cur h₁ _ => ?_
    cases cur with
    | none => exact safe_pure trivial
    | some cur =>
      have h := (hz z rfl).mono h₁
      refine Safe.ite (fun _ => safe_pure trivial) fun _ => Safe.ite (fun _ => ?_) fun _ => ?_
      exacts [remove_scoped h subj _, writeSet_scoped h _]

theorem removeSet_scoped (hT : subj.tenantID = T) (id name typ : Str) :
    Inside C True T past (Sync.removeSet C subj id name typ) := by
  refine Safe.bind (ownedOrGone_scoped hT id) fun _ z _ hz => ?_
  cases z with
  | none => exact safe_pure trivial
  | some z => exact remove_scoped (hz z rfl) subj _

theorem setPTR_scoped (h : Own T past z.pdnsID) (owner host : Str) :
    Inside C True T past (Sync.setPTR C subj z owner host) :=
  Safe.bind (lookupSet_scoped h owner _) fun _ _ h₁ _ =>
    Safe.ite (fun _ => safe_pure trivial) fun _ => writeSet_scoped (h.mono h₁) _

/-! ## The sides -/

theorem sideWrite_scoped {write : Act Unit} (planErr : Option Err)
    (hw : Inside C True T past write) :
    Inside C True T past (Sync.sideWrite planErr write) := by
  cases planErr with
  | some e => exact safe_pure trivial
  | none => exact Safe.catch hw (fun _ _ _ _ => safe_pure trivial) fun _ _ _ => safe_pure trivial

theorem side_scoped {remove write : Act Unit} (planErr : Option Err) (moved : Bool)
    (hr : Inside C True T past remove)
    (hw : ∀ past', past <:+ past' → Inside C True T past' write) :
    Inside C True T past (Sync.side planErr moved remove write) := by
  refine Safe.ite (fun _ => Safe.ite (fun _ => safe_pure trivial) fun _ => ?_) fun _ => ?_
  · exact Safe.catch hr (fun past' _ h _ => sideWrite_scoped planErr (hw past' h))
      fun _ _ _ => safe_pure trivial
  · exact sideWrite_scoped planErr (hw past List.suffix_rfl)

theorem placed_scoped {plan : Except Err β} {zone : β → Act Store.Zone}
    (hz : ∀ f, Scoped C True T (fun past' z => Own T past' z.pdnsID) past (zone f)) :
    Scoped C True T (fun past' p => ∀ f z, p = .ok (f, z) → Own T past' (Store.Zone.pdnsID z)) past
      (Sync.placed plan zone) := by
  cases plan with
  | error e => refine safe_pure ?_; rintro f z ⟨⟩
  | ok f =>
    refine Safe.catch (hz f) (fun _ z _ hz => safe_pure ?_) fun _ _ _ => safe_pure ?_
    · rintro f z ⟨⟩; exact hz
    · rintro f z ⟨⟩

theorem forward_scoped (hT : subj.tenantID = T) (prev : Store.IPAMSync) (all : List Store.Zone)
    (host address : Str) (ip : Addr) :
    Inside C True T past (Sync.forward C subj prev all host address ip) := by
  refine Safe.bind (placed_scoped fun f => zone_scoped hT _ _) fun _ p _ hp => ?_
  refine Safe.bind (side_scoped _ _ (syncRemoveValue_scoped hT _ _ _ _) fun past' hs => ?_)
    fun _ _ _ _ => safe_pure trivial
  split
  · exact addValue_scoped ((hp _ _ rfl).mono hs) _ _ _
  · exact safe_pure trivial

theorem subnetPrefix_scoped (id : Str) :
    Inside C True T past (Sync.subnetPrefix T id) := by
  refine Safe.ite (fun _ => safe_pure trivial) fun _ => ipam_catch ⟨trivial, rfl⟩ fun r => ?_
  cases r <;> exact safe_pure trivial

theorem reverse_scoped (hT : subj.tenantID = T) (prev : Store.IPAMSync) (all : List Store.Zone)
    (host : Str) (ip : Addr) (subnetID : Str) :
    Inside C True T past (Sync.reverse C subj prev all host ip subnetID) := by
  subst hT
  refine Safe.bind (subnetPrefix_scoped subnetID) fun _ len _ _ => ?_
  refine Safe.bind (placed_scoped fun f => zone_scoped rfl _ _) fun _ p _ hp => ?_
  refine Safe.bind (side_scoped _ _ (removeSet_scoped rfl _ _ _) fun past' hs => ?_)
    fun _ _ _ _ => safe_pure trivial
  split
  · exact setPTR_scoped ((hp _ _ rfl).mono hs) _ _
  · exact safe_pure trivial

/-! ## Events -/

theorem step_scoped {p : Act β} {Q : Past → β → Prop} (h : Scoped C True T Q past p) :
    Scoped C True T Q past (Sync.step p) :=
  Safe.catch h (fun _ _ _ h => safe_pure h) fun _ _ _ => safe_throw _

theorem upsertRow_scoped {r : Store.IPAMSync} (hT : r.tenantID = T) :
    Inside C True T past (Sync.step (Act.store (.upsertIPAMSync r))) :=
  step_scoped (safe_ask ⟨trivial, hT⟩ (fun _ _ hs => hs) fun _ _ _ _ => trivial)

theorem upsert_scoped (hT : subj.tenantID = T) (prev : Store.IPAMSync) (ip : Addr)
    (host subnetID : Str) (last : Store.SyncEvent) :
    Inside C True T past (Sync.upsert C subj prev ip host subnetID last) := by
  refine Safe.bind (step_scoped (safe_ask (Q := fun _ _ => True) hT (fun _ _ hs => hs)
    fun _ _ _ _ => trivial)) fun _ all _ _ => now_bind fun t => ?_
  refine Safe.bind (forward_scoped hT _ _ _ _ _) fun _ f _ _ => ?_
  refine Safe.bind (reverse_scoped hT _ _ _ _ _) fun _ r _ _ => ?_
  refine Safe.bind (upsertRow_scoped hT) fun _ _ _ _ => ?_
  cases f.1.noted.orElse fun _ => r.1.noted with
  | none => exact safe_pure trivial
  | some e => exact safe_throw _

theorem attempt_scoped {p : Act β} (h : Inside C True T past p) :
    Inside C True T past p.attempt :=
  Safe.mono (Safe.attempt h) fun _ _ _ _ => trivial

theorem syncDrop_scoped (hT : subj.tenantID = T) (prev : Store.IPAMSync) :
    Inside C True T past (Sync.drop C subj prev) := by
  refine Safe.bind (Safe.ite (fun _ => safe_pure trivial) fun _ =>
    attempt_scoped (syncRemoveValue_scoped hT _ _ _ _)) fun _ _ _ _ => ?_
  exact Safe.bind (Safe.ite (fun _ => safe_pure trivial) fun _ =>
    attempt_scoped (removeSet_scoped hT _ _ _)) fun _ _ _ _ => safe_pure trivial

theorem clear_scoped (hT : subj.tenantID = T) {prev : Store.IPAMSync} (hp : prev.tenantID = T)
    (last : Store.SyncEvent) : Inside C True T past (Sync.clear C subj prev last) := by
  refine Safe.bind (syncDrop_scoped hT prev) fun _ e _ _ => now_bind fun t => ?_
  cases e with
  | none => exact Safe.bind (upsertRow_scoped hp) fun _ _ _ _ => safe_pure trivial
  | some e => exact Safe.bind (upsertRow_scoped hp) fun _ _ _ _ => safe_throw _

theorem release_scoped (hT : subj.tenantID = T) {prev : Store.IPAMSync} (hp : prev.tenantID = T) :
    Inside C True T past (Sync.release C subj prev) := by
  refine Safe.bind (syncDrop_scoped hT prev) fun _ e _ _ => ?_
  cases e with
  | some e => exact safe_throw _
  | none =>
    refine store_catch ⟨trivial, hp⟩ fun r _ => ?_
    cases r with
    | ok _ => exact safe_pure trivial
    | error e => exact Safe.ite (fun _ => safe_pure trivial) fun _ => safe_throw _

theorem row_scoped (id : Str) :
    Scoped C True T (fun _ r => ∀ x ∈ r, Store.IPAMSync.tenantID x = T) past (Sync.row T id) := by
  refine store_catch ⟨trivial, rfl⟩ fun r hr => ?_
  cases r with
  | ok x =>
    refine safe_pure ?_
    rintro _ ⟨⟩
    exact (hr x rfl).1
  | error e =>
    refine Safe.ite (fun _ => safe_pure ?_) fun _ => safe_throw _
    rintro _ ⟨⟩

theorem readAddress_scoped (id : Str) :
    Inside C True T past (Sync.readAddress T id) := by
  refine ipam_catch ⟨trivial, rfl⟩ fun r => ?_
  cases r with
  | ok a => exact safe_pure trivial
  | error e => exact Safe.ite (fun _ => safe_pure trivial) fun _ => safe_throw _

/-- **Handling an event stays in the tenant's scope.** -/
theorem handle_scoped (ev : Event) :
    Inside C True T past (Sync.handle C T ev) := by
  refine Safe.ite (fun _ => safe_throw _) fun _ => Safe.bind (row_scoped ev.id) fun _ prev _ hp =>
    ?_
  refine Safe.bind (readAddress_scoped ev.id) fun _ addr _ _ => ?_
  cases addr with
  | none =>
    cases prev with
    | none => exact safe_pure trivial
    | some prev => exact release_scoped (T := T) rfl (hp prev rfl)
  | some addr =>
    dsimp only
    split
    · exact safe_throw _
    · split
      · exact safe_pure trivial
      · exact clear_scoped (T := T) rfl (hp _ rfl) _
      · exact upsert_scoped rfl _ _ _ _ _

end TangraDns.Scope
