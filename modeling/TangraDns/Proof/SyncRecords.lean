/-
  What the sync's changes of record sets answer and do: one specification for
  each, in a world where PowerDNS calls may fail.
-/
import TangraDns.Proof.Content
import TangraDns.Proof.Records
import TangraDns.SyncSets

namespace TangraDns.Sync

open List Str Validate Records Prog.Failing PDNS

variable {C : Config} {w w' : World} {subj : Subjects} {z : Store.Zone}
  {zoneID name typ value host : Str} {shaky : Prop}
variable {rs : List Record} {i : RecordSetInput} {n : Str}

/-! ## Looking a set up -/

def UpperType (C : Config) (typ : Str) : Prop :=
  typ ∈ editableTypes ∧ toUpper C.env.cases (trimSpace typ) = typ

theorem upperType_of_mem {t : Str} (ht : t ∈ editableTypes) : UpperType C t :=
  ⟨ht, toUpper_editable ht⟩

structure Reads (C : Config) (w : World) (z : Store.Zone) (name : Str) (pz : PDNS.Zone) (n : Str) :
    Prop where
  name : recordName C.env z.name name = .ok n
  zone : w.pdns.zone z.pdnsID = some pz

inductive Looked (C : Config) (w : World) (subj : Subjects) (z : Store.Zone) (name typ : Str)
    (shaky : Prop) :
    Except Err (Option RecordSet) → World → Prop
  | failed {e : Err} (h : shaky ∨ Unreadable C w subj z name) :
      Looked C w subj z name typ shaky (.error e) w
  | read {pz : PDNS.Zone} {n : Str} (h : Reads C w z name pz n) :
      Looked C w subj z name typ shaky (.ok ((setAt C pz.rrsets n typ).map (toView C))) w

theorem lookup_ensures (ht : UpperType C typ) :
    Ensures (Act.Steps C.env.cases shaky) (Looked C w subj z name typ shaky) w
      (lookup C subj z name typ) := by
  refine (Records.lookup_ensures ⟨name, typ⟩).catch fun r w' h => ?_
  cases r with
  | ok v =>
    cases h with
    | @found pz n r hn hz hr =>
      rw [ht.2] at hr
      have hread : Looked C w subj z name typ shaky _ _ := .read ⟨hn, hz⟩
      rw [hr] at hread
      exact ensures_pure hread
  | error e =>
    refine Ensures.ite (fun he => ?_) fun he => ?_
    · obtain ⟨rfl, pz, n, hn, hz, hr⟩ := h.notFound he
      rw [ht.2] at hr
      have hread : Looked C _ subj z name typ shaky _ _ := .read ⟨hn, hz⟩
      rw [hr] at hread
      exact ensures_pure hread
    · obtain ⟨rfl, hf⟩ := unreadable_of_lookedUp h (by simpa using he)
      exact ensures_throw (.failed hf)

theorem contents_toView (r : RRset) : contents (toView C r) = contentsOf (some r) := by
  simp [contents, toView, contentsOf]

/-! ## Adding a value -/

def merged (C : Config) (o : Option RRset) (name typ value : Str) : RecordSetInput :=
  input name typ ((o.map fun r => (r.ttl : ℤ)).getD (ttl C)) (contentsOf o ++ [value])

inductive Added (C : Config) (w : World) (subj : Subjects) (z : Store.Zone) (name typ value : Str)
    (shaky : Prop) :
    Except Err Unit → World → Prop
  | failed {e : Err} (h : shaky ∨ Unreadable C w subj z name ∨ ∃ pz n, Reads C w z name pz n ∧
      value ∉ contentsOf (setAt C pz.rrsets n typ) ∧
      Unwritable C w subj z (merged C (setAt C pz.rrsets n typ) name typ value)) :
      Added C w subj z name typ value shaky (.error e) w
  | there {pz : PDNS.Zone} {n : Str} (h : Reads C w z name pz n)
      (hv : value ∈ contentsOf (setAt C pz.rrsets n typ)) :
      Added C w subj z name typ value shaky (.ok ()) w
  | added {pz : PDNS.Zone} {n : Str} {rr : RRset} (h : Reads C w z name pz n)
      (hv : value ∉ contentsOf (setAt C pz.rrsets n typ))
      (hrr : C.limits.recordSet C.env z.name (merged C (setAt C pz.rrsets n typ) name typ value)
        pz.rrsets = .ok rr)
      (hok : changeOK pz.name rr = true) :
      Added C w subj z name typ value shaky (.ok ()) (w.patch z.pdnsID [rr])

theorem added_of_wrote {pz : PDNS.Zone} (h : Reads C w z name pz n)
    (hv : value ∉ contentsOf (setAt C pz.rrsets n typ)) {r : Except Err Unit}
    (hw : Wrote C w subj z (merged C (setAt C pz.rrsets n typ) name typ value) shaky False r w') :
    Added C w subj z name typ value shaky r w' := by
  cases hw with
  | failed hf => exact .failed (hf.imp_right fun hu => .inr ⟨pz, n, h, hv, hu⟩)
  | done _ hz hrr hok =>
    cases h.zone.symm.trans hz
    exact .added h hv hrr hok
  | lost hl => exact hl.elim

theorem addValue_ensures (ht : UpperType C typ) :
    Ensures (Act.Steps C.env.cases shaky) (Added C w subj z name typ value shaky) w
      (addValue C subj z name typ value) := by
  refine (lookup_ensures ht).bind ?_ ?_
  · rintro cur _ (_ | @⟨pz, n, hread⟩)
    cases hr : setAt C pz.rrsets n typ with
    | none =>
      refine (write_ensures _).mono fun r w' h => added_of_wrote hread ?_ ?_
      · rw [hr]
        exact not_mem_nil
      · rw [hr]
        exact h
    | some r =>
      refine Ensures.ite (fun hv => ensures_pure (.there hread ?_)) fun hv =>
        (write_ensures _).mono fun r' w' h => added_of_wrote hread ?_ ?_
      · rwa [hr, ← contents_toView (C := C)]
      · rwa [hr, ← contents_toView (C := C)]
      · rw [hr]
        rw [contents_toView] at h
        exact h
  · rintro e _ ⟨h⟩
    exact .failed (h.imp_right .inl)

/-! ## Removing a value -/

def reduced (C : Config) (r : RRset) (name typ value : Str) : RecordSetInput :=
  { input name typ r.ttl ((others value r.records).map Record.content) with comment :=
    (toView C r).comment }

inductive Taken (C : Config) (w : World) (subj : Subjects) (zoneID name typ value : Str)
    (shaky : Prop) :
    Except Err Unit → World → Prop
  | failed {e : Err} : Taken C w subj zoneID name typ value shaky (.error e) w
  | noZone (h : w.store.zone subj.tenantID zoneID = none) :
      Taken C w subj zoneID name typ value shaky (.ok ()) w
  | absent {z : Store.Zone} {pz : PDNS.Zone}
      {n : Str} (hz : w.store.zone subj.tenantID zoneID = some z)
      (h : Reads C w z name pz n) (hv : value ∉ contentsOf (setAt C pz.rrsets n typ)) :
      Taken C w subj zoneID name typ value shaky (.ok ()) w
  | emptied {z : Store.Zone} {pz : PDNS.Zone} {n : Str} {r : RRset}
      (hz : w.store.zone subj.tenantID zoneID = some z) (h : Reads C w z name pz n)
      (hr : setAt C pz.rrsets n typ = some r) (hv : value ∈ r.records.map Record.content)
      (hnil : others value r.records = []) (hok : changeOK pz.name (deletion n typ) = true) :
      Taken C w subj zoneID name typ value shaky (.ok ()) (w.patch z.pdnsID [deletion n typ])
  | reduced {z : Store.Zone} {pz : PDNS.Zone} {n : Str} {r rr : RRset}
      (hz : w.store.zone subj.tenantID zoneID = some z) (h : Reads C w z name pz n)
      (hr : setAt C pz.rrsets n typ = some r) (hv : value ∈ r.records.map Record.content)
      (hne : others value r.records ≠ [])
      (hrr : C.limits.recordSet C.env z.name (reduced C r name typ value) pz.rrsets = .ok rr)
      (hok : changeOK pz.name rr = true) :
      Taken C w subj zoneID name typ value shaky (.ok ()) (w.patch z.pdnsID [rr])

theorem guard_not_zonesNotFound {p : Permission} {e : Err} (h : Zones.guard C subj p = .error e) :
    e.Is .zonesNotFound = false := by
  unfold Zones.guard Authz.require at h
  split_ifs at h
  · cases h
    rfl
  · dsimp only at h
    split_ifs at h
    cases h
    rfl

theorem ownedOrGone_ensures :
    Ensures (Act.Steps C.env.cases shaky) (fun r w' => w' = w ∧ ∀ o, r = .ok o →
      o = w.store.zone subj.tenantID zoneID) w (ownedOrGone C subj zoneID) := by
  refine (Zones.owned_ensures subj zoneID).catch fun r w' h => ?_
  cases h with
  | forbidden h =>
    refine Ensures.ite (fun he => ?_) fun _ => ensures_throw ⟨rfl, by rintro o ⟨⟩⟩
    rw [guard_not_zonesNotFound h] at he
    cases he
  | missing h => exact Ensures.ite (fun _ =>
      ensures_pure ⟨rfl, by rintro o ⟨⟩; exact h.symm⟩) fun he => absurd rfl he
  | found h => exact ensures_pure ⟨rfl, by rintro o ⟨⟩; exact h.symm⟩

theorem map_others (r : RRset) :
    (contents (toView C r)).filter (fun v => !(v == value)) =
    (others value r.records).map Record.content := by
  rw [contents_toView, contentsOf, others, Option.map_some, Option.getD_some, List.filter_map]
  rfl

theorem length_others_eq {vs : List Record} :
    (others value vs).length = vs.length ↔ value ∉ vs.map Record.content := by
  rw [others, length_filter_eq_length_iff]
  constructor
  · intro h hm
    obtain ⟨x, hx, rfl⟩ := List.mem_map.1 hm
    simpa using h x hx
  · intro h x hx
    have : x.content ≠ value := fun he => h (he ▸ mem_map_of_mem hx)
    simpa using this

theorem key_upper (ht : UpperType C typ) {t : Str} (h : key C z ⟨name, typ⟩ = .ok (n, t)) :
    recordName C.env z.name name = .ok n ∧ t = typ := by
  obtain ⟨n', hn, h⟩ := Except.bind_eq_ok.1 h
  dsimp only at h
  split_ifs at h
  obtain ⟨rfl, rfl⟩ := Prod.mk.inj (Except.ok.inj h)
  exact ⟨Except.mapError_eq_ok.1 hn, ht.2⟩

theorem removeValue_ensures (ht : UpperType C typ) :
    Ensures (Act.Steps C.env.cases shaky) (Taken C w subj zoneID name typ value shaky) w
      (removeValue C subj zoneID name typ value) := by
  refine ownedOrGone_ensures.bind ?_ ?_
  · rintro o _ ⟨rfl, ho⟩
    have hz := (ho o rfl).symm
    cases o with
    | none => exact ensures_pure (.noZone hz)
    | some z =>
      refine (lookup_ensures ht).bind ?_ ?_
      · rintro cur _ (_ | @⟨pz, n, hread⟩)
        cases hr : setAt C pz.rrsets n typ with
        | none =>
          refine ensures_pure (.absent hz hread ?_)
          rw [hr]
          exact not_mem_nil
        | some r =>
          dsimp only [Option.map_some]
          rw [map_others, length_map, show (toView C r).values.length =
            r.records.length by simp [toView]]
          refine Ensures.ite (fun hl => ensures_pure (.absent hz hread ?_)) fun hl => ?_
          · rw [hr]
            exact length_others_eq.1 hl
          have hv : value ∈ r.records.map Record.content := not_not.1 fun h =>
            hl (length_others_eq.2 h)
          refine Ensures.ite (fun hnil => ?_) fun hne => ?_
          · refine (removeAs_ensures _).mono fun r' w' h => ?_
            cases h with
            | failed => exact .failed
            | @absent pz' n' t hk hz' hf =>
              -- the set was found in the same state
              obtain ⟨hn', rfl⟩ := key_upper ht hk
              cases hread.name.symm.trans hn'
              cases hread.zone.symm.trans hz'
              rw [find, any_eq_false] at hf
              exact absurd (by simpa using find?_some hr) (hf r (mem_of_find?_eq_some hr))
            | @done pz' n' t hw hk hz' hok =>
              obtain ⟨hn', rfl⟩ := key_upper ht hk
              cases hread.name.symm.trans hn'
              cases hread.zone.symm.trans hz'
              exact .emptied hz hread hr hv (map_eq_nil_iff.1 hnil) hok
            | lost hl => exact hl.elim
          · refine (write_ensures _).mono fun r' w' h => ?_
            cases h with
            | failed => exact .failed
            | done hw hz' hrr hok =>
              cases hread.zone.symm.trans hz'
              exact .reduced hz hread hr hv (fun h => hne (by rw [h]; rfl)) hrr hok
            | lost hl => exact hl.elim
      · rintro e _ ⟨-⟩
        exact .failed
  · rintro e _ ⟨rfl, -⟩
    exact .failed

/-! ## What is left alone -/

section Frame

variable {a : Addr} {zone : Str} {r rr : RRset} {pz : PDNS.Zone}

theorem recordType_mem (a : Addr) : recordType a ∈ lowerTypes := by
  unfold recordType
  split_ifs <;> decide

theorem upperType_recordType (a : Addr) : UpperType C (recordType a) :=
  upperType_of_mem (lowerTypes_plain _ (recordType_mem a)).1

theorem content_toStr (ha : Addr.Plain a) {z' : Str} (hz : PlainName z') :
    content C.env (recordType a) z' a.toStr = .ok a.toStr := by
  have hlen : a.toStr.length ≤ maxContent := (Addr.length_toStr_le ha.1).trans (by decide)
  have hsafe : ∀ b ∈ a.toStr, SafeByte b := fun b hb =>
    safe_of_textByte (Addr.textByte_toStr ha.1 b hb)
  cases a with
  | v4 ip =>
    exact content_safe hz (recordType_mem _) (Addr.toStr_ne_nil _) hlen hsafe
      (C.env.newRR_a _ ip hz) rfl (C.env.rdata_a ip)
  | v6 ip s =>
    obtain rfl : s = [] := ha.1
    have hm : Addr.mapped ip = false := ha.2 ip [] rfl
    have htype : recordType (.v6 ip []) = str "AAAA" := by
      simp [recordType, Addr.unmap, hm, Addr.is4]
    rw [Addr.toStr_v6 ha] at hlen hsafe ⊢
    rw [htype]
    refine content_safe hz (by decide) (Addr.toStr_v6 ha ▸ Addr.toStr_ne_nil _) hlen hsafe
      (C.env.newRR_aaaa _ ip hz hm) ?_ (C.env.rdata_aaaa ip hm)
    rw [semantic, hm]
    rfl

theorem settled_iff {z' : Str} (hz' : canonicalZone C.env zone = .ok z') {xs : List Record}
    (h : List.Forall₂ (Canon C.env typ z') (xs.map fun x => ⟨x.content, false⟩) rs) :
    rs = xs ↔ ∀ x ∈ xs, Settled C zone typ x := by
  induction xs generalizing rs with
  | nil =>
    cases h
    simp
  | cons x xs ih =>
    obtain ⟨y, ys, ⟨hc, hd⟩, hrest, rfl⟩ := forall₂_cons_left_iff.1 h
    rw [List.cons.injEq, ih hrest, forall_mem_cons]
    refine and_congr_left fun _ => ?_
    obtain ⟨c, d⟩ := y
    dsimp only at hc hd
    constructor
    · rintro rfl
      exact ⟨hd, z', hz', hc⟩
    · rintro ⟨hx, z'', hz'', hcx⟩
      cases hz'.symm.trans hz''
      cases hc.symm.trans hcx
      rw [hd, ← hx]

theorem others_eq_self {vs : List Record} (h : value ∉ vs.map Record.content) :
    others value vs = vs := by
  have := length_others_eq.2 h
  exact filter_sublist.eq_of_length this

theorem framed_stored (httl : r.ttl < 4294967296)
    (hi : i.ttl = r.ttl) : Framed value r (some (written i n typ rs).stored) ↔
      others value rs = others value r.records ∧ commentList i.comment = commentsIn r := by
  have httl : (written i n typ rs).stored.ttl = r.ttl := by
    simp only [RRset.stored, written, hi]
    omega
  have hcomments : commentsIn (written i n typ rs).stored = commentList i.comment := by
    simp only [commentsIn, RRset.stored, written, Option.some.injEq]
    split_ifs with h
    exacts [h.symm, rfl]
  constructor
  · intro h
    exact ⟨h.others, hcomments ▸ (h.kept _ rfl).2⟩
  · rintro ⟨ho, hc⟩
    refine ⟨ho, ?_⟩
    rintro _ ⟨⟩
    exact ⟨httl, hcomments.trans hc⟩

theorem written_found (hexact : Exact C pz.rrsets n typ)
    (hpdns : w.pdns.zone z.pdnsID = some pz) (hne : rs ≠ [])
    (hok : changeOK pz.name (written i n typ rs) = true) :
    ∃ pz', (w.patch z.pdnsID [written i n typ rs]).pdns.zone z.pdnsID = some pz' ∧
      setAt C pz'.rrsets n typ = some (written i n typ rs).stored :=
  ⟨_, World.patch_zone hpdns (by simpa using hok),
    setAt_applyChange hexact rfl hne (Option.some_ne_none _)⟩

theorem recordSet_shape {existing : List RRset}
    (h : C.limits.recordSet C.env zone i existing = .ok rr) (ht : UpperType C i.type)
    (hname : recordName C.env zone i.name = .ok n) :
    ∃ z' records, canonicalZone C.env zone = .ok z' ∧
      List.Forall₂ (Canon C.env i.type z') i.values records ∧
      (records.map Record.content).Nodup ∧ records ≠ [] ∧ rr = written i n i.type records := by
  obtain ⟨z', t, n', records, hz', hv, hcanon, hnd, rfl⟩ := recordSet_eq_ok.1 h
  have hn := hv.name
  rw [recordName_canonicalZone hz', hname] at hn
  cases hn
  obtain rfl : t = i.type := (editableType_spec hv.type).1.trans ht.2
  have hpos : 0 < i.values.length := length_pos_iff.2 hv.count.1
  exact ⟨z', records, hz', hcanon, hnd, length_pos_iff.1 (hcanon.length_eq ▸ hpos), rfl⟩

theorem merged_values : (merged C (some r) name typ value).values =
    (r.records.map fun x => ⟨x.content, false⟩) ++ [⟨value, false⟩] := by
  simp [merged, input, contentsOf]

theorem reduced_values : (Sync.reduced C r name typ value).values =
    (others value r.records).map fun x => ⟨x.content, false⟩ := by
  simp [Sync.reduced, input]

theorem commentList_comment : commentList comment = [comment] := rfl

theorem Added.framed (ha : Addr.Plain a) (hname : recordName C.env z.name name = .ok name)
    (hpdns : w.pdns.zone z.pdnsID = some pz) (hexact : Exact C pz.rrsets name (recordType a))
    (hr : setAt C pz.rrsets name (recordType a) = some r) (httl : r.ttl < 4294967296)
    (h : Added C w subj z name (recordType a) a.toStr shaky (.ok ()) w') :
    ∃ pz', w'.pdns.zone z.pdnsID = some pz' ∧
      (Framed a.toStr r (setAt C pz'.rrsets name (recordType a)) ↔
      Addable C z.name (recordType a) a.toStr r) := by
  cases h with
  | there hread hv =>
    cases hread.name.symm.trans hname
    cases hread.zone.symm.trans hpdns
    rw [hr] at hv
    refine ⟨pz, hpdns, fun _ => .inl hv, fun _ => ?_⟩
    rw [hr]
    exact ⟨rfl, by rintro _ ⟨⟩; exact ⟨rfl, rfl⟩⟩
  | added hread hv hrr hok =>
    cases hread.name.symm.trans hname
    cases hread.zone.symm.trans hpdns
    rw [hr] at hv hrr
    have hv : a.toStr ∉ r.records.map Record.content := hv
    obtain ⟨z', records, hz', hcanon, hnd, hne, rfl⟩ :=
      recordSet_shape hrr (upperType_recordType a) hname
    obtain ⟨pz', hpz', hset⟩ := written_found hexact hpdns hne hok
    refine ⟨pz', hpz', ?_⟩
    rw [hset, framed_stored httl rfl, Addable, or_iff_right hv]
    -- the values that were there, in canonical form, and the new one
    rw [merged_values] at hcanon
    obtain ⟨rs, ⟨c, d⟩, rfl, hrs, hc, hd⟩ := canon_concat hcanon
    dsimp only [merged, input] at hc hd
    rw [content_toStr ha (canonicalZone_spec hz').plainName] at hc
    cases hc
    cases hd
    have hother : a.toStr ∉ rs.map Record.content := by
      rw [map_append, nodup_append] at hnd
      exact fun hm => hnd.2.2 _ hm _ (mem_singleton.2 rfl) rfl
    have hrest : others a.toStr (rs ++ [⟨a.toStr, false⟩]) = rs := by
      rw [others, filter_append, filter_cons_of_neg (by simp), filter_nil, append_nil]
      exact others_eq_self hother
    rw [hrest, others_eq_self hv, settled_iff hz' hrs, and_comm]
    exact and_congr_left' ⟨fun h => h.symm.trans commentList_comment,
      fun h => commentList_comment.trans h.symm⟩

theorem commentList_eq_iff {cs : List Str} :
    commentList (cs.headD []) = cs ↔ cs = [] ∨ ∃ c, cs = [c] ∧ c ≠ [] ∧ trimSpace c = c := by
  have hnil : trimSpace [] = [] := rfl
  unfold commentList
  cases cs with
  | nil => simp [hnil]
  | cons c cs =>
    rw [headD_cons]
    constructor
    · intro h
      split_ifs at h with hc
      obtain ⟨htrim, rfl⟩ := List.cons.inj h
      exact .inr ⟨c, rfl, htrim ▸ hc, htrim⟩
    · rintro (⟨⟨⟩⟩ | ⟨c', h, hne, htrim⟩)
      obtain ⟨rfl, rfl⟩ := List.cons.inj h
      rw [htrim, if_neg hne]

theorem Taken.framed (hname : recordName C.env z.name name = .ok name)
    (hrow : w.store.zone subj.tenantID zoneID = some z) (hpdns : w.pdns.zone z.pdnsID = some pz)
    (ht : UpperType C typ) (hexact : Exact C pz.rrsets name typ)
    (hr : setAt C pz.rrsets name typ = some r)
    (httl : r.ttl < 4294967296) (h : Taken C w subj zoneID name typ value shaky (.ok ()) w') :
    ∃ pz', w'.pdns.zone z.pdnsID = some pz' ∧ (Framed value r (setAt C pz'.rrsets name typ) ↔
      Removable C z.name typ value r) := by
  cases h with
  | noZone h =>
    rw [hrow] at h
    cases h
  | absent hz hread hv =>
    cases hrow.symm.trans hz
    cases hread.name.symm.trans hname
    cases hread.zone.symm.trans hpdns
    rw [hr] at hv
    refine ⟨pz, hpdns, fun _ => .inl hv, fun _ => ?_⟩
    rw [hr]
    exact ⟨rfl, by rintro _ ⟨⟩; exact ⟨rfl, rfl⟩⟩
  | emptied hz hread hr' hv hnil hok =>
    cases hrow.symm.trans hz
    cases hread.name.symm.trans hname
    cases hread.zone.symm.trans hpdns
    cases hr.symm.trans hr'
    refine ⟨_, World.patch_zone hpdns (by simpa using hok), fun _ => .inr (.inl hnil), fun _ => ?_⟩
    have hgone : setAt C (applyChange pz.rrsets (deletion name typ)) name typ = none := by
      rw [deletion, applyChange_delete]
      exact setAt_without hexact
    rw [foldl_cons, foldl_nil, hgone]
    exact ⟨hnil.symm, by rintro _ ⟨⟩⟩
  | reduced hz hread hr' hv hne hrr hok =>
    cases hrow.symm.trans hz
    cases hread.name.symm.trans hname
    cases hread.zone.symm.trans hpdns
    cases hr.symm.trans hr'
    obtain ⟨z', records, hz', hcanon, hnd, hne', rfl⟩ := recordSet_shape hrr ht hname
    obtain ⟨pz', hpz', hset⟩ := written_found hexact hpdns hne' hok
    refine ⟨pz', hpz', ?_⟩
    rw [hset, framed_stored httl rfl, Removable, or_iff_right (not_not.2 hv), or_iff_right hne]
    rw [reduced_values] at hcanon
    have hlen : records.length = (others value r.records).length := by
      rw [← hcanon.length_eq, length_map]
    -- no record is lost: the others are the records that were written
    have hall : others value records = others value r.records ↔
        records = others value r.records := by
      constructor
      · intro h
        have hself : others value records = records :=
          filter_sublist.eq_of_length ((congrArg List.length h).trans hlen.symm)
        exact hself.symm.trans h
      · intro h
        rw [h, others, others, List.filter_filter]
        simp only [Bool.and_self]
    rw [hall, settled_iff hz' hcanon, and_comm]
    exact and_congr_left' commentList_eq_iff

/-- **When the sync changes nothing but the address.**  A value that was added left the rest of the
    set alone if the set had it, or was as the sync writes sets; a value that was removed did if the
    set did not have it, had no other one, or had the others enabled and canonical, with a plain
    comment. -/
theorem changes_framed (C : Config) (subj : Subjects) (z : Store.Zone) (name : Str)
    (a : Addr) (w : World)
    (pz : PDNS.Zone) (r : RRset) (shaky : Prop) (ha : Addr.Plain a)
    (hname : recordName C.env z.name name = .ok name)
    (hrow : w.store.zone subj.tenantID z.id = some z)
    (hpdns : w.pdns.zone z.pdnsID = some pz)
    (hexact : ∀ s ∈ pz.rrsets, Matches C s name (recordType a) → s.isAt name (recordType a) = true)
    (hr : setAt C pz.rrsets name (recordType a) = some r) (httl : r.ttl < 4294967296) :
    Ensures (Act.Steps C.env.cases shaky) (fun res w' => res = .ok () →
        ∃ pz', w'.pdns.zone z.pdnsID = some pz' ∧
          (Framed a.toStr r (setAt C pz'.rrsets name (recordType a)) ↔
          Addable C z.name (recordType a) a.toStr r)) w
            (addValue C subj z name (recordType a) a.toStr) ∧
      Ensures (Act.Steps C.env.cases shaky) (fun res w' => res = .ok () →
        ∃ pz', w'.pdns.zone z.pdnsID = some pz' ∧
          (Framed a.toStr r (setAt C pz'.rrsets name (recordType a)) ↔
          Removable C z.name (recordType a) a.toStr r)) w
        (removeValue C subj z.id name (recordType a) a.toStr) := by
  constructor
  · refine (addValue_ensures (upperType_recordType a)).mono ?_
    rintro _ w' h rfl
    exact h.framed ha hname hpdns hexact hr httl
  · refine (removeValue_ensures (upperType_recordType a)).mono ?_
    rintro _ w' h rfl
    exact h.framed hname hrow hpdns (upperType_recordType a) hexact hr httl

/-- A set that the sync has written takes another address. -/
theorem changes_framed_sample :
    (exec (handler .ascii) (addValue .sample (.systemFor (str "t")) sampleZone sampleHost (str "A")
      (str "192.0.2.2"))
      (sampleWith sampleSet)).1 = .ok () ∧
      ∃ pz', (exec (handler .ascii)
          (addValue .sample (.systemFor (str "t")) sampleZone sampleHost (str "A")
            (str "192.0.2.2"))
          (sampleWith sampleSet)).2.pdns.zone sampleZone.pdnsID = some pz' ∧
        (Framed (str "192.0.2.2") sampleSet (setAt .sample pz'.rrsets sampleHost (str "A")) ↔
          Addable .sample sampleZone.name (str "A") (str "192.0.2.2") sampleSet) := by
  have h := changes_framed .sample (.systemFor (str "t")) sampleZone sampleHost sampleAddr
    (sampleWith sampleSet) _
    sampleSet False ⟨rfl, by rintro ip z ⟨⟩⟩ (by decide +kernel) (by decide +kernel) rfl
      (by decide +kernel)
    (by decide +kernel) (by decide)
  have hok : (exec (handler .ascii)
      (addValue .sample (.systemFor (str "t")) sampleZone sampleHost (str "A") (str "192.0.2.2"))
      (sampleWith sampleSet)).1 = .ok () := by decide +kernel
  have haddr : sampleAddr.toStr = str "192.0.2.2" := by decide +kernel
  refine ⟨hok, ?_⟩
  have hrun := Act.ensures_exec h.1
  rw [haddr] at hrun
  exact hrun hok

/-- A set with a disabled address and a comment of its own: the address is enabled and the comment
    replaced when another address is added, and it is enabled when one is removed. -/
theorem changes_unframed :
    let r : RRset := ⟨sampleHost, str "A", 300, .none, [⟨str "192.0.2.1", true⟩], some [str "mine"]⟩
    let r' : RRset := ⟨sampleHost, str "A", 300, .none,
      [⟨str "192.0.2.1", true⟩, ⟨str "192.0.2.2", false⟩],
      some [str "mine"]⟩
    let add := exec (handler .ascii)
      (addValue .sample (.systemFor (str "t")) sampleZone sampleHost (str "A") (str "192.0.2.2"))
      (sampleWith r)
    let remove := exec (handler .ascii)
      (removeValue .sample (.systemFor (str "t")) sampleZone.id sampleHost (str "A")
        (str "192.0.2.2")) (sampleWith r')
    (add.1 = .ok () ∧ ∃ pz ∈ add.2.pdns.zone sampleZone.pdnsID,
        ¬ Framed (str "192.0.2.2") r (setAt .sample pz.rrsets sampleHost (str "A"))) ∧
      remove.1 = .ok () ∧ ∃ pz ∈ remove.2.pdns.zone sampleZone.pdnsID,
        ¬ Framed (str "192.0.2.2") r' (setAt .sample pz.rrsets sampleHost (str "A")) := by
  decide +kernel

end Frame

end TangraDns.Sync
