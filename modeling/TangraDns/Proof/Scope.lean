/-
  The operations of a tenant stay in its scope.
-/
import TangraDns.Challenges
import TangraDns.Proof.Names
import TangraDns.Proof.Store
import TangraDns.Scope
import TangraDns.Sync

namespace TangraDns

open Str Prog.Failing

variable {C : Config} {T : Str} {sync : Prop} {α β : Type} {past past' : Past} {Q : Past → α → Prop}
variable {o : Op} {name id : Str}

theorem Did.mono {r : Res o} (h : Did past o r) (hs : past <:+ past') : Did past' o r :=
  hs.subset h

theorem Did.head {r : Res o} : Did (⟨o, r⟩ :: past) o r := List.mem_cons_self ..

theorem Did.tail {r : Res o} {e : Prog.Event Op Res} (h : Did past o r) :
    Did (e :: past) o r := List.mem_cons_of_mem _ h

namespace Scope

theorem Loaded.mono {z : Store.Zone} (h : Loaded T past z) (hs : past <:+ past') :
    Loaded T past' z := by
  rcases h with ⟨id, h⟩ | ⟨n, h⟩ | ⟨zs, h, hz⟩
  · exact .inl ⟨id, h.mono hs⟩
  · exact .inr (.inl ⟨n, h.mono hs⟩)
  · exact .inr (.inr ⟨zs, h.mono hs, hz⟩)

theorem Made.mono (h : Made past name) (hs : past <:+ past') : Made past' name := by
  obtain ⟨z, c, h, hn⟩ := h
  exact ⟨z, c, h.mono hs, hn⟩

theorem Own.mono (h : Own T past id) (hs : past <:+ past') : Own T past' id := by
  rcases h with ⟨z, hz, rfl⟩ | h
  · exact .inl ⟨z, hz.mono hs, rfl⟩
  · exact .inr (h.mono hs)

theorem Loaded.own {z : Store.Zone} (h : Loaded T past z) : Own T past z.pdnsID := .inl ⟨z, h, rfl⟩

theorem Pending.tail {e : Prog.Event Op Res} (h : Pending T name past)
    (he : isCreate e = false) : Pending T name (e :: past) := by
  rw [Pending, pending, he, if_neg Bool.false_ne_true]
  exact List.mem_append_right _ h

theorem Pending.head :
    Pending T name (⟨.store (.zoneConflict T name), .ok false⟩ :: past) := by
  simp [Pending, pending, isCreate, freed]

/-- `p` stays in the scope of the tenant. -/
abbrev Scoped (C : Config) (sync : Prop) (T : Str) (Q : Past → α → Prop) (past : Past) (p : Act α) :
    Prop :=
  Safe (discipline C.env.cases T (C.recursor.isSome = true) sync) Q past p

/-- The calls of `p` stay within the scope, whatever it returns. -/
abbrev Inside (C : Config) (sync : Prop) (T : Str) (past : Past) (p : Act α) : Prop :=
  Scoped C sync T (fun _ _ => True) past p

/-! ## Calls -/

theorem store_bind {c : StoreCall} {k : c.Ans → Act α} (hD : StoreOK C.env.cases T sync past c)
    (h : ∀ a, Answer (.store c) (.ok a) → Scoped C sync T Q (⟨.store c, .ok a⟩ :: past) (k a)) :
    Scoped C sync T Q past (Act.store c >>= k) :=
  safe_ask_bind hD (fun _ _ hs => hs) fun r a hr he => by cases he; exact h a hr

theorem store_catch {c : StoreCall} {k : Except Err c.Ans → Act α}
    (hD : StoreOK C.env.cases T sync past c)
    (h : ∀ r, Answer (.store c) r → Scoped C sync T Q (⟨.store c, r⟩ :: past) (k r)) :
    Scoped C sync T Q past ((Act.store c).attempt >>= k) :=
  safe_ask_catch hD (fun _ _ hs => congrArg k hs) h

def Whole (T : Str) (past : Past) : PDNSCall → Prop
  | .getZone id => Own T past id
  | _ => True

theorem Same.eq_of_whole {c : PDNSCall} (hc : Whole T past c) {r r' : Res (.pdns c)}
    (h : Same T past (.pdns c) r r') : r = r' := by
  cases c
  case getZone id => exact h.resolve_right fun hn => hn.1 hc
  all_goals exact h

theorem pdns_catch {c : PDNSCall} {k : Except Err c.Ans → Act α} (hD : PDNSOK T past c)
    (hc : Whole T past c)
    (h : ∀ r, Answer (.pdns c) r →
      Scoped C sync T Q (⟨.pdns c, r⟩ :: past) (k (Except.mapError Err.pdns r))) :
    Scoped C sync T Q past ((Act.pdns c).attempt >>= k) :=
  safe_ask_catch hD (fun _ _ hs => by rw [hs.eq_of_whole hc]) h

theorem probe_catch {k : Except Err PDNS.Zone → Act α} (hD : Cleared T past id)
    (hk : ∀ z z', k (.ok z) = k (.ok z'))
    (h : ∀ r : Except PDNSErr PDNS.Zone,
      Scoped C sync T Q (⟨.pdns (.getZone id), r⟩ :: past) (k (Except.mapError Err.pdns r))) :
    Scoped C sync T Q past ((Act.pdns (.getZone id)).attempt >>= k) := by
  refine safe_ask_catch (.inr hD) ?_ fun r _ => h r
  rintro r r' (rfl | ⟨-, z, z', rfl, rfl⟩)
  exacts [rfl, hk z z']

theorem recursor_bind {c : RecursorCall} {k : c.Ans → Act α} (hC : C.recursor.isSome = true)
    (h : ∀ r a, Scoped C sync T Q (⟨.recursor c, r⟩ :: past) (k a)) :
    Scoped C sync T Q past (Act.recursor c >>= k) :=
  safe_ask_bind hC (fun _ _ hs => congrArg _ hs) fun r a _ _ => h r a

theorem recursor_catch {c : RecursorCall} {k : Except Err c.Ans → Act α}
    (hC : C.recursor.isSome = true)
    (h : ∀ r, Scoped C sync T Q (⟨.recursor c, r⟩ :: past) (k (Except.mapError Err.recursor r))) :
    Scoped C sync T Q past ((Act.recursor c).attempt >>= k) :=
  safe_ask_catch hC (fun _ _ hs => congrArg (fun r => k (Except.mapError Err.recursor r)) hs)
    fun r _ => h r

theorem now_bind {k : ℕ → Act α} (h : ∀ t : ℕ, Scoped C sync T Q (⟨.now, t⟩ :: past) (k t)) :
    Scoped C sync T Q past (Act.now >>= k) :=
  safe_ask_bind trivial (fun _ _ hs => congrArg _ hs) fun r a _ he => by cases he; exact h _

theorem newID_bind {k : Str → Act α}
    (h : ∀ id : Str, Scoped C sync T Q (⟨.newID, id⟩ :: past) (k id)) :
    Scoped C sync T Q past (Act.newID >>= k) :=
  safe_ask_bind trivial (fun _ _ hs => congrArg _ hs) fun r a _ he => by cases he; exact h _

theorem check_bind {e : Except Err β} {k : β → Act α}
    (h : ∀ b, e = .ok b → Scoped C sync T Q past (k b)) :
    Scoped C sync T Q past (Act.ofExcept e >>= k) := safe_check h

/-! ## The recursor -/

theorem target_scoped (hC : C.recursor.isSome = true) (r : Recursor.Config) :
    Inside C sync T past (Recursor.target r) := by
  unfold Recursor.target
  split
  · exact safe_pure trivial
  · refine recursor_bind hC fun _ addrs => ?_
    split
    · exact safe_pure trivial
    · split
      · exact safe_pure trivial
      · exact safe_throw _

theorem recursorSync_scoped (hC : C.recursor.isSome = true) (r : Recursor.Config) (name : Str) :
    Inside C sync T past (Recursor.syncForward C.env.cases r name) := by
  unfold Recursor.syncForward
  split_ifs
  · exact safe_pure trivial
  · split
    · exact safe_throw _
    · refine Safe.bind (target_scoped hC r) fun _ _ _ _ => recursor_catch hC fun _ => ?_
      exact safe_ask hC (fun _ _ hs => congrArg _ hs) fun _ _ _ _ => trivial

theorem recursorRemove_scoped (hC : C.recursor.isSome = true) (r : Recursor.Config) (name : Str) :
    Inside C sync T past (Recursor.removeForward C.env.cases r name) := by
  unfold Recursor.removeForward
  split_ifs
  · exact safe_pure trivial
  · split
    · exact safe_throw _
    · refine recursor_catch hC fun r => ?_
      split
      · exact safe_pure trivial
      · split_ifs
        · exact safe_pure trivial
        · exact safe_throw _

theorem syncForward_scoped (name : Str) :
    Inside C sync T past (Zones.syncForward C name) := by
  unfold Zones.syncForward
  split
  · exact safe_pure trivial
  · next hC =>
    exact Safe.catch (recursorSync_scoped (by rw [hC]; rfl) _ name)
      (fun _ _ _ _ => safe_pure trivial)
      fun _ _ _ => safe_pure trivial

theorem removeForward_scoped (name : Str) :
    Inside C sync T past (Zones.removeForward C name) := by
  unfold Zones.removeForward
  split
  · exact safe_pure trivial
  · next hC =>
    exact Safe.catch (recursorRemove_scoped (by rw [hC]; rfl) _ name)
      (fun _ _ _ _ => safe_pure trivial)
      fun _ _ _ => safe_pure trivial

/-! ## Creation of zones -/

open Zones Validate

def Prepared (T : Str) (past : Past) (z : Store.Zone) : Prop :=
  Did past .newID z.id ∧ z.tenantID = T ∧ z.pdnsID = z.name ∧ IsZone z.name

theorem Prepared.mono {z : Store.Zone} (h : Prepared T past z) (hs : past <:+ past') :
    Prepared T past' z := ⟨h.1.mono hs, h.2⟩

theorem prepare_scoped (subj : Subjects) (i : CreateInput) :
    Scoped C sync subj.tenantID (Prepared subj.tenantID) past (Impl.prepare C subj i) := by
  unfold Impl.prepare
  refine check_bind fun name hn => newID_bind fun id => check_bind fun km _ => ?_
  refine check_bind fun ns _ => check_bind fun _ _ => check_bind fun o _ => ?_
  exact safe_pure ⟨Did.head, rfl, rfl, zoneName_spec (Except.mapError_eq_ok.1 hn)⟩

theorem expand_scoped (l : Validate.Limits) (id zone : Str) :
    Inside C sync T past (Templates.expand C.env l T id zone) := by
  unfold Templates.expand
  refine store_catch rfl fun r _ => ?_
  cases r with
  | error e => exact safe_throw _
  | ok t => exact safe_ofExcept fun _ _ => trivial

theorem initialSets_scoped {z : Store.Zone} (hT : z.tenantID = T) (rrsets : List PDNS.RRset) :
    Inside C sync T past (Impl.initialSets C z rrsets) := by
  unfold Impl.initialSets
  split_ifs
  · exact safe_pure trivial
  · exact safe_throw _
  · split
    · exact safe_throw _
    · rw [hT]
      exact Safe.bind (expand_scoped _ _ _) fun _ _ _ _ => safe_pure trivial

theorem free_scoped (hn : toLower C.env.cases name = name) :
    Scoped C sync T (fun past' _ => Pending T name past') past (Impl.free T name) := by
  unfold Impl.free
  refine store_catch rfl fun r _ => ?_
  cases r with
  | ok z => exact safe_throw _
  | error e =>
    refine Safe.ite (fun _ => safe_throw _) fun _ => ?_
    refine store_bind ⟨rfl, hn⟩ fun taken _ => ?_
    cases taken with
    | true => exact safe_throw _
    | false =>
      refine probe_catch Did.head (fun _ _ => rfl) fun r => ?_
      cases r with
      | ok z => exact safe_throw _
      | error e => exact Safe.ite (fun _ => safe_throw _) fun _ => safe_pure (Pending.head.tail rfl)

theorem insert_scoped {z : Store.Zone} (h : Prepared T past z) (hp : Pending T z.name past)
    (hm : Made past z.name) :
    Scoped C sync T (fun past' z' => Own T past' z'.pdnsID ∧ z'.tenantID = T) past
      (Impl.insert z) := by
  obtain ⟨hid, hT, hpd, -⟩ := h
  have hm' {e : Prog.Event Op Res} {past : Past} (h : Made past z.name) :
      Made (e :: past) z.pdnsID :=
    hpd ▸ h.mono (List.suffix_cons ..)
  unfold Impl.insert
  refine now_bind fun t => ?_
  refine store_catch ⟨hT, hp.tail rfl, hid.tail, hm.mono (List.suffix_cons ..), hpd⟩ fun r _ => ?_
  have hown : Own T (⟨.store (.createZone { z with createdAt := t, updatedAt := t }), r⟩ ::
    ⟨.now, t⟩ :: past)
      z.pdnsID := .inr (hm' (hm.mono (List.suffix_cons ..)))
  cases r with
  | ok _ => exact safe_pure ⟨hown, hT⟩
  | error e =>
    refine pdns_catch hown trivial fun r _ => ?_
    exact Safe.ite (fun _ => safe_throw _) fun _ => safe_throw _

theorem make_scoped {z : Store.Zone} (h : Prepared T past z) (hp : Pending T z.name past)
    (rrsets : List PDNS.RRset) :
    Scoped C sync T (fun past' z' => Own T past' z'.pdnsID ∧ z'.tenantID = T) past
      (Impl.make C z rrsets) := by
  unfold Impl.make
  refine pdns_catch ⟨hp, h.2.1⟩ trivial fun r hr => ?_
  cases r with
  | error e => exact Safe.ite (fun _ => safe_throw _) fun _ => safe_throw _
  | ok created =>
    have hid : (if created.id = [] then z.pdnsID else created.id) = z.name := by
      rw [hr created rfl, h.2.2.1, ite_self]
    exact insert_scoped ⟨h.1.tail, h.2.1, hid, h.2.2.2⟩ (hp.tail rfl) ⟨_, created, Did.head, rfl⟩

theorem create_scoped (subj : Subjects) (i : CreateInput) :
    Scoped C sync subj.tenantID (fun past' z => Own subj.tenantID past' z.pdnsID ∧
      z.tenantID = subj.tenantID)
      past (create C subj i) := by
  refine check_bind fun _ _ => ?_
  have h : Scoped C sync subj.tenantID
      (fun past' z => Own subj.tenantID past' z.pdnsID ∧ z.tenantID = subj.tenantID) past
      (Impl.create C subj i) := by
    refine Safe.bind (prepare_scoped subj i) fun past₁ z h₁ hz => ?_
    refine Safe.bind (initialSets_scoped hz.2.1 _) fun past₂ rrsets h₂ _ => ?_
    rw [hz.2.1]
    refine Safe.bind (free_scoped hz.2.2.2.toLower_eq) fun past₃ _ h₃ hp => ?_
    exact make_scoped ((hz.mono h₂).mono h₃) hp rrsets
  refine Safe.bind h fun past₁ z h₁ hz => ?_
  exact Safe.bind (syncForward_scoped _) fun past₂ _ h₂ _ => safe_pure ⟨hz.1.mono h₂, hz.2⟩

/-! ## Other operations on zones -/

theorem implOwned_scoped (subj : Subjects) (id : Str) :
    Scoped C sync subj.tenantID (fun past' z => Loaded subj.tenantID past' z ∧
      z.tenantID = subj.tenantID ∧
      z.id = id) past (Zones.Impl.owned subj id) := by
  unfold Zones.Impl.owned
  refine store_catch rfl fun r hr => ?_
  cases r with
  | ok z => exact safe_pure ⟨.inl ⟨id, Did.head⟩, hr z rfl⟩
  | error e => exact safe_throw _

theorem owned_scoped (subj : Subjects) (id : Str) :
    Scoped C sync subj.tenantID (fun past' z => Loaded subj.tenantID past' z ∧
      z.tenantID = subj.tenantID ∧
      z.id = id) past (Zones.owned C subj id) :=
  check_bind fun _ _ => implOwned_scoped subj id

theorem get_scoped (subj : Subjects) (id : Str) :
    Inside C sync subj.tenantID past (Zones.get C subj id) := by
  refine Safe.bind (owned_scoped subj id) fun past₁ z _ hz => ?_
  refine pdns_catch (.inl hz.1.own) hz.1.own fun r _ => ?_
  cases r <;> exact safe_pure trivial

theorem byName_scoped (subj : Subjects) (name : Str) :
    Scoped C sync subj.tenantID (fun past' z => Loaded subj.tenantID past' z ∧
      z.tenantID = subj.tenantID)
      past (Zones.byName C subj name) := by
  refine check_bind fun _ _ => ?_
  split
  · exact safe_throw _
  · refine store_catch rfl fun r hr => ?_
    cases r with
    | ok z => exact safe_pure ⟨.inr (.inl ⟨_, Did.head⟩), (hr z rfl).1⟩
    | error e => exact safe_throw _

theorem findForName_scoped (subj : Subjects) (fqdn : Str) :
    Scoped C sync subj.tenantID (fun past' z => Loaded subj.tenantID past' z ∧
      z.tenantID = subj.tenantID)
      past (Zones.findForName C subj fqdn) := by
  refine check_bind fun _ _ => ?_
  split
  · exact safe_throw _
  · refine store_bind rfl fun (all : List Store.Zone) hr => ?_
    cases hl : Store.longestZone all _ with
    | none => exact safe_throw _
    | some z =>
      have hz : z ∈ all := (Store.longestZone_spec hl).1
      exact safe_pure ⟨.inr (.inr ⟨all, Did.head, hz⟩), hr all rfl z hz⟩

theorem put_scoped {m : PDNS.Zone} (h : Own T past id) (hm : m.account = T) :
    Inside C sync T past (Impl.put id m) := by
  refine pdns_catch ⟨h, hm⟩ trivial fun r _ => ?_
  cases r with
  | ok _ => exact safe_pure trivial
  | error e => exact safe_throw _

theorem save_scoped {prev next : Store.Zone} (h : Own T past prev.pdnsID) (hp : prev.tenantID = T)
    (hn : next.tenantID = T) : Inside C sync T past (Impl.save prev next) := by
  refine now_bind fun t => store_catch hn fun r _ => ?_
  cases r with
  | ok z => exact safe_pure trivial
  | error e =>
    refine Safe.ite (fun _ => ?_) fun _ => safe_throw _
    exact Safe.catch (put_scoped (h.mono ⟨[_, _], rfl⟩) hp) (fun _ _ _ _ => safe_throw _)
      fun _ _ _ => safe_throw _

theorem nextRow_keys {prev next : Store.Zone} {i : UpdateInput} (h : nextRow C prev i = .ok next) :
    next.keys = prev.keys := by
  obtain ⟨⟨k, m⟩, -, h⟩ := Except.bind_eq_ok.1 h
  dsimp only at h
  split at h
  · cases h; rfl
  · obtain ⟨-, -, h⟩ := Except.bind_eq_ok.1 h
    cases h; rfl

theorem update_scoped (subj : Subjects) (id : Str) (i : UpdateInput) :
    Inside C sync subj.tenantID past (Zones.update C subj id i) := by
  refine check_bind fun _ _ => Safe.bind (implOwned_scoped subj id) fun past₁ prev _ hz => ?_
  refine check_bind fun next hn => ?_
  have hT := (Store.tenantID_of_keys (nextRow_keys hn)).trans hz.2.1
  refine Safe.ite (fun _ => ?_) fun _ => save_scoped hz.1.own hz.2.1 hT
  exact Safe.bind (put_scoped hz.1.own hT) fun _ _ h _ => save_scoped (hz.1.own.mono h) hz.2.1 hT

theorem drop_scoped (h : Own T past id) :
    Inside C sync T past (Impl.drop id) := by
  refine pdns_catch h trivial fun r _ => ?_
  cases r with
  | ok _ => exact safe_pure trivial
  | error e => exact Safe.ite (fun _ => safe_pure trivial) fun _ => safe_throw _

theorem delete_scoped (subj : Subjects) (id : Str) :
    Inside C sync subj.tenantID past (Zones.delete C subj id) := by
  refine check_bind fun _ _ => Safe.bind (implOwned_scoped subj id) fun past₁ z _ hz => ?_
  refine Safe.bind (drop_scoped hz.1.own) fun _ _ _ _ => ?_
  refine Safe.bind (removeForward_scoped _) fun _ _ _ _ => store_bind hz.2.1 fun _ _ => ?_
  exact safe_ask hz.2.1 (fun _ _ hs => hs) fun _ _ _ _ => trivial

theorem export_scoped (subj : Subjects) (id : Str) :
    Inside C sync subj.tenantID past (Zones.export C subj id) := by
  refine check_bind fun _ _ => Safe.bind (implOwned_scoped subj id) fun past₁ z _ hz => ?_
  refine pdns_catch hz.1.own trivial fun r _ => ?_
  cases r with
  | error e => exact safe_throw _
  | ok text => exact Safe.ite (fun _ => safe_throw _) fun _ => safe_pure trivial

theorem notify_scoped (subj : Subjects) (id : Str) :
    Inside C sync subj.tenantID past (Zones.notify C subj id) := by
  refine check_bind fun _ _ => Safe.bind (implOwned_scoped subj id) fun past₁ z _ hz => ?_
  refine Safe.ite (fun _ => safe_throw _) fun _ => pdns_catch hz.1.own trivial fun r _ => ?_
  cases r with
  | error e => exact safe_throw _
  | ok _ => exact safe_pure trivial

/-! ## Records -/

section Records

variable {z : Store.Zone}

theorem rrsets_scoped (h : Own T past z.pdnsID) :
    Inside C sync T past (Records.Impl.rrsets z) := by
  refine pdns_catch (.inl h) h fun r _ => ?_
  cases r with
  | ok _ => exact safe_pure trivial
  | error e => exact safe_throw _

theorem patch_scoped (h : Own T past z.pdnsID) (changes : List PDNS.RRset) :
    Inside C sync T past (Records.Impl.patch z changes) := by
  refine pdns_catch h trivial fun r _ => ?_
  cases r with
  | ok _ => exact safe_pure trivial
  | error e => exact safe_throw _

theorem implApply_scoped (h : Own T past z.pdnsID) (i : RecordSetInput) :
    Inside C sync T past (Records.Impl.apply C z i) := by
  refine check_bind fun _ _ => Safe.bind (rrsets_scoped h) fun _ cur h₁ _ =>
    check_bind fun rr _ => ?_
  exact Safe.bind (patch_scoped (h.mono h₁) _) fun _ _ _ _ => safe_pure trivial

theorem apply_scoped (h : Own T past z.pdnsID) (subj : Subjects) (i : RecordSetInput) :
    Inside C sync T past (Records.apply C subj z i) :=
  check_bind fun _ _ => Safe.bind (implApply_scoped h i) fun _ _ _ _ => safe_pure trivial

theorem lookup_scoped (h : Own T past z.pdnsID) (subj : Subjects) (k : Records.Key) :
    Inside C sync T past (Records.lookup C subj z k) := by
  refine check_bind fun _ _ => check_bind fun name _ => ?_
  refine Safe.bind (rrsets_scoped h) fun _ cur _ _ => ?_
  split
  · exact safe_pure trivial
  · exact safe_throw _

theorem implRemove_scoped (h : Own T past z.pdnsID) (k : Records.Key) :
    Inside C sync T past (Records.Impl.remove C z k) := by
  refine check_bind fun _ _ => check_bind fun nt _ => ?_
  refine Safe.bind (rrsets_scoped h) fun _ cur h₁ _ => ?_
  exact Safe.ite (fun _ => safe_throw _) fun _ => patch_scoped (h.mono h₁) _

theorem remove_scoped (h : Own T past z.pdnsID) (subj : Subjects) (k : Records.Key) :
    Inside C sync T past (Records.remove C subj z k) := by
  refine check_bind fun _ _ => Safe.catch (implRemove_scoped h k) (fun _ _ _ _ => safe_pure trivial)
    fun _ _ _ => ?_
  exact Safe.ite (fun _ => safe_pure trivial) fun _ => safe_throw _

theorem implUpdate_scoped (h : Own T past z.pdnsID) (k : Records.Key) (i : RecordSetInput) :
    Inside C sync T past (Records.Impl.update C z k i) := by
  refine check_bind fun _ _ => check_bind fun _ _ => Safe.bind (rrsets_scoped h) fun _ cur h₁ _ =>
    ?_
  refine check_bind fun ch _ => ?_
  exact Safe.bind (patch_scoped (h.mono h₁) _) fun _ _ _ _ => safe_pure trivial

end Records

theorem load_scoped (subj : Subjects) (id : Str) (perm : Permission) :
    Scoped C sync subj.tenantID (fun past' z => Loaded subj.tenantID past' z ∧
      z.tenantID = subj.tenantID ∧
      z.id = id) past (Records.Impl.load C subj id perm) :=
  Safe.ite (fun _ => check_bind fun _ _ => owned_scoped subj id) fun _ => owned_scoped subj id

theorem list_scoped (page : List Records.RecordSet → α) (subj : Subjects) (id : Str)
    (f : Records.Filter) :
    Inside C sync subj.tenantID past (Records.list C page subj id f) := by
  refine Safe.bind (load_scoped subj id _) fun _ z _ hz => ?_
  exact Safe.bind (rrsets_scoped hz.1.own) fun _ _ _ _ => safe_pure trivial

theorem upsertSet_scoped (subj : Subjects) (id : Str) (i : RecordSetInput) :
    Inside C sync subj.tenantID past (Records.upsert C subj id i) :=
  Safe.bind (load_scoped subj id _) fun _ _ _ hz => apply_scoped hz.1.own subj i

theorem updateSet_scoped (subj : Subjects) (id : Str) (k : Records.Key) (i : RecordSetInput) :
    Inside C sync subj.tenantID past (Records.update C subj id k i) := by
  refine Safe.bind (load_scoped subj id _) fun _ z _ hz => ?_
  exact Safe.bind (implUpdate_scoped hz.1.own k i) fun _ _ _ _ => safe_pure trivial

theorem deleteSet_scoped (subj : Subjects) (id : Str) (k : Records.Key) :
    Inside C sync subj.tenantID past (Records.delete C subj id k) :=
  Safe.bind (load_scoped subj id _) fun _ _ _ hz => implRemove_scoped hz.1.own k

/-! ## Challenges -/

section Challenges

variable {z : Store.Zone} {w : Subjects}

theorem resolve_scoped (subj : Subjects) (r : Challenges.Request) :
    Scoped C sync subj.tenantID
      (fun past' x => Loaded subj.tenantID past' x.2.1 ∧ x.2.1.tenantID = subj.tenantID)
      past (Challenges.Impl.resolve C subj r) := by
  refine check_bind fun w hw => check_bind fun fqdn _ => ?_
  have hT : w.tenantID = subj.tenantID := by
    obtain ⟨-, -, rfl⟩ := Except.map_eq_ok.1 hw
    rfl
  rw [← hT]
  refine Safe.catch (findForName_scoped w fqdn) (fun past' z _ hz => ?_) fun _ _ _ => safe_throw _
  exact Safe.ite (fun _ => safe_throw _) fun _ => safe_pure hz

theorem current_scoped (h : Own T past z.pdnsID) (fqdn : Str) :
    Inside C sync T past (Challenges.Impl.current C w z fqdn) := by
  refine Safe.catch (lookup_scoped h w _) (fun _ _ _ _ => safe_throw _) fun past' _ h₁ => ?_
  refine Safe.ite (fun _ => safe_throw _) fun _ => ?_
  refine Safe.catch (lookup_scoped (h.mono h₁) w _) (fun _ _ _ _ => safe_pure trivial) fun _ _ _ =>
    ?_
  exact Safe.ite (fun _ => safe_pure trivial) fun _ => safe_throw _

theorem write_scoped {p : Act Unit} (h : Inside C sync T past p) :
    Inside C sync T past (Challenges.Impl.write p) :=
  Safe.catch h (fun _ _ _ _ => safe_pure trivial) fun _ _ _ => safe_throw _

theorem record_scoped (hT : z.tenantID = T) (fqdn value : Str) :
    Inside C sync T past (Challenges.Impl.record w z fqdn value) :=
  newID_bind fun _ => now_bind fun _ =>
    store_catch ⟨hT, Did.head.tail⟩ fun _ _ => safe_pure trivial

theorem present_scoped (h : Own T past z.pdnsID) (hT : z.tenantID = T) (fqdn value : Str) :
    Inside C sync T past (Challenges.Impl.present C w z fqdn value) := by
  refine Safe.bind (current_scoped h fqdn) fun past₁ rs h₁ _ => ?_
  refine Safe.ite (fun _ => record_scoped hT fqdn value) fun _ => ?_
  have hw : Inside C sync T past₁
      (Records.apply C w z (Challenges.Impl.withValue C rs fqdn value) >>= fun _ => pure ()) :=
    Safe.bind (apply_scoped (h.mono h₁) w _) fun _ _ _ _ => safe_pure trivial
  exact Safe.bind (write_scoped hw) fun _ _ _ _ => record_scoped hT fqdn value

theorem dropValue_scoped (h : Own T past z.pdnsID) (rs : Records.RecordSet) (fqdn value : Str) :
    Inside C sync T past (Challenges.Impl.drop C w z rs fqdn value) := by
  refine Safe.ite (fun _ => safe_pure trivial) fun _ => Safe.ite (fun _ => ?_) fun _ => ?_
  · exact write_scoped (remove_scoped h w _)
  · exact write_scoped (Safe.bind (apply_scoped h w _) fun _ _ _ _ => safe_pure trivial)

theorem dropFound_scoped (h : Own T past z.pdnsID) (fqdn value : Str) :
    Inside C sync T past (Challenges.Impl.dropFound C w z fqdn value) := by
  refine Safe.bind (current_scoped h fqdn) fun _ rs h₁ _ => ?_
  cases rs with
  | none => exact safe_pure trivial
  | some rs => exact dropValue_scoped (h.mono h₁) rs fqdn value

theorem removeValue_scoped (h : Own T past z.pdnsID) (hT : z.tenantID = T) (fqdn value : Str) :
    Inside C sync T past (Challenges.Impl.remove C w z fqdn value) :=
  Safe.bind (dropFound_scoped h fqdn value) fun _ _ _ _ =>
    store_catch hT fun _ _ => safe_pure trivial

end Challenges

theorem presentChallenge_scoped (subj : Subjects) (r : Challenges.Request) :
    Inside C sync subj.tenantID past (Challenges.present C subj r) := by
  refine Safe.bind (resolve_scoped subj r) fun _ x _ hz => ?_
  exact Safe.bind (present_scoped hz.1.own hz.2 _ _) fun _ _ _ _ => safe_pure trivial

theorem cleanUp_scoped (subj : Subjects) (r : Challenges.Request) :
    Inside C sync subj.tenantID past (Challenges.cleanUp C subj r) := by
  refine Safe.bind (resolve_scoped subj r) fun _ x _ hz => ?_
  exact Safe.bind (removeValue_scoped hz.1.own hz.2 _ _) fun _ _ _ _ => safe_pure trivial

end Scope

end TangraDns
