/-
  The laws of the challenge operations on a set that the record service wrote.
-/
import TangraDns.Proof.Challenges

namespace TangraDns.Challenges

open List Str Validate Records Prog.Failing PDNS

variable {C : Config} {w w' : World} {subj : Subjects} {z : Store.Zone} {fqdn zone value : Str}
  {r rr : RRset}
  {pz : PDNS.Zone} {req : Request} {o : Option RRset}
variable {sets : List RRset} {vs : List Record} {i : RecordSetInput} {n : Str} {s : Subjects}

/-! ## Sets that were written -/

structure Text (C : Config) (zone fqdn : Str) (r : RRset) : Prop where
  name : r.name = fqdn
  type : r.type = str "TXT"
  change : r.changeType = .none
  ttl : r.ttl < 4294967296
  comments : ∃ c, trimSpace c = c ∧ c.length ≤ maxComment ∧ hasControl c = false ∧
    r.comments = if c = [] then none else some [c]
  nonempty : r.records ≠ []
  distinct : (r.records.map Record.content).Nodup
  fixed : ∀ x ∈ r.records, Fixed C.env (str "TXT") zone x.content

theorem hasControl_trimSpace {c : Str} (h : hasControl c = false) :
    hasControl (trimSpace c) = false := by
  rw [hasControl, any_eq_false] at h ⊢
  exact fun b hb => h b ((infix_of_trimSpace c).subset hb)

theorem text_of_written (hlow : IsLowerStr fqdn) (h : Written C zone r)
    (hm : Matches C r fqdn (str "TXT")) :
    Text C zone fqdn r := by
  obtain ⟨i, existing, rr, hrr, rfl⟩ := h
  obtain ⟨z', t, n, records, hz', hv, hcanon, hnd, rfl⟩ := recordSet_eq_ok.1 hrr
  have hz : IsZone z' := canonicalZone_spec hz'
  obtain rfl : n = fqdn :=
    (equalFold_iff_of_lower C.env.cases (recordName_spec hz hv.name).canonical.lower hlow).1 hm.1
  obtain rfl : t = str "TXT" :=
    (equalFold_iff_of_upper C.env.cases (editableTypes_upper _ (editableType_spec hv.type).2)
      (by decide)).1 hm.2
  refine ⟨rfl, rfl, rfl, ?_, ⟨trimSpace i.comment, trimSpace_trimSpace _, ?_,
    hasControl_trimSpace hv.comment.2, ?_⟩,
    ?_, hnd, fun x hx => ?_⟩
  · simp only [RRset.stored, written]
    omega
  · exact ((infix_of_trimSpace i.comment).length_le).trans hv.comment.1
  · simp only [RRset.stored, written, commentList, Option.some.injEq]
    by_cases hc : trimSpace i.comment = []
    · rw [if_pos hc, if_pos hc, if_pos rfl]
    · rw [if_neg hc, if_neg hc, if_neg (cons_ne_nil _ _)]
  · have hpos : 0 < i.values.length := length_pos_iff.2 hv.count.1
    exact length_pos_iff.1 (hcanon.length_eq ▸ hpos)
  · rintro z'' hz''
    cases hz'.symm.trans hz''
    obtain ⟨v, -, hv⟩ := forall₂_mem_right hcanon hx
    exact content_txt_self hz.plainName hv.1

/-! ## Rewriting them -/

theorem exclusive_text (h : setAt C sets fqdn (str "CNAME") = none) :
    ∀ e ∈ sets, exclusive C.env fqdn (str "TXT") e = .ok () := by
  intro e he
  unfold exclusive
  split_ifs with h1 h2 h3
  · rfl
  · exact absurd h2 (by decide)
  · have := find?_eq_none.1 h e he
    exact absurd (decide_eq_true ⟨not_not.1 (not_or.1 h1).1, h3⟩) this
  · rfl

theorem recordSet_text (hread : Read C w z fqdn pz fqdn)
    (hvs : ∀ x ∈ vs, Fixed C.env (str "TXT") z.name x.content) (hnd : (vs.map Record.content).Nodup)
    (hcomment : i.comment.length ≤ maxComment ∧ hasControl i.comment = false)
    (hi : i.name = fqdn ∧ i.type = str "TXT" ∧ i.values = vs.map asValue) :
    C.limits.recordSet C.env z.name i pz.rrsets = .ok rr ↔
      (C.limits.minTTL ≤ i.ttl ∧ i.ttl ≤ C.limits.maxTTL) ∧
      (vs ≠ [] ∧ (vs.length : ℤ) ≤ C.limits.maxValues) ∧
        (∀ x ∈ vs, x.content.length ≤ maxContent) ∧ rr = written i fqdn (str "TXT") vs :=
  recordSet_fixed (by decide) (by decide) (hi.1 ▸ hread.name) (by rw [hi.2.1, upper_txt])
    (exclusive_text hread.alone) hvs hnd
    hcomment hi.2.2

/-! ## Where the operations act -/

structure Site (C : Config) (subj : Subjects) (z : Store.Zone) (fqdn : Str) (w : World)
    (pz : PDNS.Zone) : Prop where
  zone : Store.longestZone (w.store.zonesForTenant subj.tenantID) fqdn = some z
  pdns : w.pdns.zone z.pdnsID = some pz
  written : ∀ r ∈ pz.rrsets, Matches C r fqdn (str "TXT") → Written C z.name r

/-- The operations reach the set. -/
structure Ready (C : Config) (subj : Subjects) (z : Store.Zone) (fqdn : Str) (w : World)
    (pz : PDNS.Zone) : Prop where
  caller : ∃ s, Authz.challenger subj C.allowedCaller = .ok s
  tenant : subj.tenantID ≠ []
  primary : z.kind.needsMasters = false
  read : Read C w z fqdn pz fqdn

theorem Site.exact (hs : Site C subj z fqdn w pz) (hlow : IsLowerStr fqdn) :
    Exact C pz.rrsets fqdn (str "TXT") := by
  intro r hr hm
  have ht := text_of_written hlow (hs.written r hr hm) hm
  simp [RRset.isAt, ht.name, ht.type]

theorem Site.text (hs : Site C subj z fqdn w pz) (hlow : IsLowerStr fqdn)
    (hr : setAt C pz.rrsets fqdn (str "TXT") = some r) : Text C z.name fqdn r := by
  have hm : Matches C r fqdn (str "TXT") := by simpa using find?_some hr
  exact text_of_written hlow (hs.written r (mem_of_find?_eq_some hr) hm) hm

theorem Site.textSet_eq (hs : Site C subj z fqdn w pz) :
    textSet C w z fqdn = setAt C pz.rrsets fqdn (str "TXT") := by
  rw [textSet, hs.pdns]
  rfl

theorem not_matches_cname {C : Config} (ht : r.type = str "TXT") :
    ¬ Matches C r n (str "CNAME") := by
  rintro ⟨-, h⟩
  rw [ht, equalFold_iff_of_upper C.env.cases (by decide) (by decide)] at h
  exact absurd h (by decide)

theorem Site.write (hs : Site C subj z fqdn w pz) (hlow : IsLowerStr fqdn)
    (hread : Read C w z fqdn pz fqdn)
    (hrr : C.limits.recordSet C.env z.name i pz.rrsets =
      .ok (Validate.written i fqdn (str "TXT") vs))
    (hne : vs ≠ []) (hok : changeOK pz.name (Validate.written i fqdn (str "TXT") vs) = true) :
    ∃ pz', Site C subj z fqdn (w.patch z.pdnsID [Validate.written i fqdn (str "TXT") vs]) pz' ∧
      Read C (w.patch z.pdnsID [Validate.written i fqdn (str "TXT") vs]) z fqdn pz' fqdn ∧
      pz'.name = pz.name ∧
      setAt C pz'.rrsets fqdn (str "TXT") =
        some (Validate.written i fqdn (str "TXT") vs).stored := by
  have hpz := World.patch_zone hs.pdns (by simpa using hok : [_].all (changeOK pz.name) = true)
  have happ : applyChange pz.rrsets (Validate.written i fqdn (str "TXT") vs) =
      without pz.rrsets fqdn (str "TXT") ++ [(Validate.written i fqdn (str "TXT") vs).stored] :=
    applyChange_eq rfl hne (Option.some_ne_none _)
  refine ⟨_, ⟨hs.zone, hpz, fun r hr hm => ?_⟩, ⟨hread.name, hpz, ?_⟩, rfl, ?_⟩
  · rw [foldl_cons, foldl_nil, happ, mem_append, mem_singleton] at hr
    rcases hr with hr | rfl
    · exact absurd hm (not_matches_without (hs.exact hlow) r hr)
    · exact ⟨i, _, _, hrr, rfl⟩
  · rw [foldl_cons, foldl_nil, happ, setAt_append, if_neg (not_matches_cname rfl), Option.or_none]
    exact find?_eq_none.2 fun r hr => find?_eq_none.1 hread.alone r (mem_of_mem_filter hr)
  · exact setAt_applyChange (hs.exact hlow) rfl hne (Option.some_ne_none _)

theorem Site.delete (hs : Site C subj z fqdn w pz) (hlow : IsLowerStr fqdn)
    (hread : Read C w z fqdn pz fqdn)
    (hok : changeOK pz.name (deletion fqdn (str "TXT")) = true) :
    ∃ pz', Site C subj z fqdn (w.patch z.pdnsID [deletion fqdn (str "TXT")]) pz' ∧
      Read C (w.patch z.pdnsID [deletion fqdn (str "TXT")]) z fqdn pz' fqdn ∧ pz'.name = pz.name ∧
      setAt C pz'.rrsets fqdn (str "TXT") = none := by
  have hpz := World.patch_zone hs.pdns (by simpa using hok : [_].all (changeOK pz.name) = true)
  have happ : applyChange pz.rrsets (deletion fqdn (str "TXT")) =
      without pz.rrsets fqdn (str "TXT") :=
    applyChange_delete _ _
  refine ⟨_, ⟨hs.zone, hpz, fun r hr hm => ?_⟩, ⟨hread.name, hpz, ?_⟩, rfl, ?_⟩
  · rw [foldl_cons, foldl_nil, happ] at hr
    exact absurd hm (not_matches_without (hs.exact hlow) r hr)
  · rw [foldl_cons, foldl_nil, happ]
    exact find?_eq_none.2 fun r hr => find?_eq_none.1 hread.alone r (mem_of_mem_filter hr)
  · rw [foldl_cons, foldl_nil, happ]
    exact setAt_without (hs.exact hlow)

theorem Site.of_store {w' : World} (hs : Site C subj z fqdn w pz)
    (hz : w'.store.zones = w.store.zones)
    (hp : w'.pdns = w.pdns) : Site C subj z fqdn w' pz := by
  refine ⟨?_, hp ▸ hs.pdns, hs.written⟩
  rw [Store.zonesForTenant, hz]
  exact hs.zone

theorem booked_zones (w : World) : (booked subj z fqdn value w).store.zones = w.store.zones := by
  dsimp only [booked, Store.insertChallenge]
  split
  · rfl
  · split <;> rfl

theorem unbooked_zones {T : Str} (w : World) :
    (unbooked T fqdn value w).store.zones = w.store.zones := by
  dsimp only [unbooked, Store.deleteChallenge]
  split <;> rfl

/-! ## What the operations do -/

/-- What an operation makes of the set at its name. -/
def Op.next (C : Config) (op : Op) (fqdn value : Str) (o : Option RRset) : Option RRset :=
  match op with
  | .present =>
    if quoted value ∈ (valuesOf o).map Record.content then o
    else some ⟨fqdn, str "TXT", (C.challengeTTL % 4294967296).toNat, .none,
      valuesOf o ++ [⟨quoted value, false⟩],
      commentsOf o⟩
  | .cleanUp => o.bind fun r =>
    if others value r.records = [] then none else some { r with records := others value r.records }

structure Fits (C : Config) (ttl : ℤ) (vs : List Record) : Prop where
  ttl : C.limits.minTTL ≤ ttl ∧ ttl ≤ C.limits.maxTTL
  count : (vs.length : ℤ) ≤ C.limits.maxValues
  length : ∀ x ∈ vs, x.content.length ≤ maxContent

def Op.Allowed (C : Config) (op : Op) (fqdn value : Str) (pz : PDNS.Zone) : Prop :=
  let o := setAt C pz.rrsets fqdn (str "TXT")
  match op with
  | .present => quoted value ∈ (valuesOf o).map Record.content ∨
    InZone fqdn pz.name ∧ Fits C C.challengeTTL (valuesOf o ++ [⟨quoted value, false⟩])
  | .cleanUp => ∀ r ∈ o, quoted value ∈ r.records.map Record.content →
    InZone fqdn pz.name ∧ (others value r.records ≠ [] → Fits C r.ttl (others value r.records))

def commentOf (o : Option RRset) : Str := ((commentsOf o).getD []).headD []

theorem Site.kept (hs : Site C subj z fqdn w pz) (hlow : IsLowerStr fqdn) {o : Option RRset}
    (ho : setAt C pz.rrsets fqdn (str "TXT") = o) :
    (∀ x ∈ valuesOf o, Fixed C.env (str "TXT") z.name x.content) ∧
    ((valuesOf o).map Record.content).Nodup ∧
      (commentOf o).length ≤ maxComment ∧ hasControl (commentOf o) = false ∧
      (if some (commentList (commentOf o)) = some [] then none
        else some (commentList (commentOf o))) =
        commentsOf o := by
  cases o with
  | none => exact ⟨by rintro x ⟨⟩, nodup_nil, Nat.zero_le _, rfl, rfl⟩
  | some r =>
    have ht := hs.text hlow ho
    obtain ⟨c, hc, hlen, hctl, hcom⟩ := ht.comments
    have hcomment : commentOf (some r) = c := by
      rw [commentOf, show commentsOf (some r) = r.comments from rfl, hcom]
      split_ifs with h
      exacts [h.symm, rfl]
    refine ⟨ht.fixed, ht.distinct, hcomment ▸ hlen, hcomment ▸ hctl, ?_⟩
    rw [hcomment, show commentsOf (some r) = r.comments from rfl, hcom, commentList, hc]
    split_ifs with h1 h2 h3 <;> simp_all

theorem fixed_quoted (hv : valueOK value = true) : Fixed C.env (str "TXT") zone (quoted value) := by
  intro z' hz'
  rw [content_quoted (canonicalZone_spec hz').plainName hv, if_neg]
  simp [quoted, (valueOK_spec hv).1, maxContent]

theorem offered_comment :
    (offered C sets n fqdn value).comment = commentOf (setAt C sets n (str "TXT")) := by
  rw [offered]
  cases setAt C sets n (str "TXT") <;> rfl

theorem Site.offer (hs : Site C subj z fqdn w pz) (hlow : IsLowerStr fqdn)
    (hread : Read C w z fqdn pz fqdn)
    (hvalue : valueOK value = true) (hv : ¬ Holds C pz.rrsets fqdn value) {o : Option RRset}
    (ho : setAt C pz.rrsets fqdn (str "TXT") = o) :
    C.limits.recordSet C.env z.name (offered C pz.rrsets fqdn fqdn value) pz.rrsets = .ok rr ↔
      Fits C C.challengeTTL (valuesOf o ++ [⟨quoted value, false⟩]) ∧
      rr = Validate.written (offered C pz.rrsets fqdn fqdn value) fqdn (str "TXT")
        (valuesOf o ++ [⟨quoted value, false⟩]) := by
  obtain ⟨hfixed, hnd, hlen, hctl, -⟩ := hs.kept hlow ho
  have hmem : quoted value ∉ (valuesOf o).map Record.content := by
    rw [Holds, valuesAt, ho] at hv
    exact hv
  have hcomment : (offered C pz.rrsets fqdn fqdn value).comment = commentOf o :=
    ho ▸ offered_comment
  have hvalues : (offered C pz.rrsets fqdn fqdn value).values =
      (valuesOf o ++ [(⟨quoted value, false⟩ : Record)]).map asValue := by
    rw [offered, ho, map_append]
    cases o <;> rfl
  have hfixed' : ∀ x ∈ valuesOf o ++ [(⟨quoted value, false⟩ : Record)],
      Fixed C.env (str "TXT") z.name x.content := by
    intro x hx
    rcases mem_append.1 hx with hx | hx
    · exact hfixed x hx
    · cases mem_singleton.1 hx
      exact fixed_quoted hvalue
  have hnd' : ((valuesOf o ++ [(⟨quoted value, false⟩ : Record)]).map Record.content).Nodup := by
    rw [map_append, nodup_append_comm]
    exact nodup_cons.2 ⟨hmem, hnd⟩
  rw [recordSet_text hread hfixed' hnd' (hcomment ▸ ⟨hlen, hctl⟩) ⟨rfl, rfl, hvalues⟩]
  constructor
  · rintro ⟨httl, hc, hl, rfl⟩
    exact ⟨⟨httl, hc.2, hl⟩, rfl⟩
  · rintro ⟨hf, rfl⟩
    exact ⟨hf.ttl, ⟨by simp, hf.count⟩, hf.length, rfl⟩

theorem Site.rest (hs : Site C subj z fqdn w pz) (hlow : IsLowerStr fqdn)
    (hread : Read C w z fqdn pz fqdn)
    (hr : setAt C pz.rrsets fqdn (str "TXT") = some r) (hne : others value r.records ≠ []) :
    C.limits.recordSet C.env z.name (Challenges.rest C r fqdn value) pz.rrsets = .ok rr ↔
      Fits C r.ttl (others value r.records) ∧
      rr = Validate.written (Challenges.rest C r fqdn value) fqdn (str "TXT")
        (others value r.records) := by
  obtain ⟨hfixed, hnd, hlen, hctl, -⟩ := hs.kept hlow hr
  have hsub : (others value r.records).Sublist r.records := filter_sublist
  rw [recordSet_text hread (fun x hx => hfixed x (hsub.subset hx)) (hnd.sublist (hsub.map _))
    ⟨hlen, hctl⟩
    ⟨rfl, rfl, rfl⟩]
  constructor
  · rintro ⟨httl, hc, hl, rfl⟩
    exact ⟨⟨httl, hc.2, hl⟩, rfl⟩
  · rintro ⟨hf, rfl⟩
    exact ⟨hf.ttl, ⟨hne, hf.count⟩, hf.length, rfl⟩

/-! ## The run of an operation -/

theorem challenger_allowed (h : Authz.challenger subj C.allowedCaller = .ok s)
    (ht : subj.tenantID ≠ [])
    (c : Option Authz.Checker) {perm : Permission} (hp : Authz.syncAllowed perm = true) :
    s.actorKind = .module ∧ s.tenantID ≠ [] ∧ Authz.require c s perm = .ok () := by
  obtain ⟨⟨⟩, hc, rfl⟩ := Except.map_eq_ok.1 h
  unfold Authz.callerIs at hc
  split_ifs at hc with hcond
  obtain ⟨hk, -, hpeer, -⟩ := by simpa only [not_or] using hcond
  have hk : subj.actorKind = .module := not_not.1 hk
  refine ⟨hk, ht, ?_⟩
  unfold Authz.require
  rw [if_neg ht]
  simp [hk, hp, hpeer]

theorem Ready.guard (h : Ready C subj z fqdn w pz)
    (hs : Authz.challenger subj C.allowedCaller = .ok s) :
    Zones.guard C s .zonesRead = .ok () := by
  obtain ⟨hk, ht, hreq⟩ := challenger_allowed hs h.tenant C.checker
    (rfl : Authz.syncAllowed .zonesRead = true)
  rw [Zones.guard, if_neg ht, if_neg (fun hu => by rw [hk] at hu; cases hu.1), hreq]

theorem Ready.require (h : Ready C subj z fqdn w pz)
    (hs : Authz.challenger subj C.allowedCaller = .ok s) {perm : Permission}
    (hp : Authz.syncAllowed perm = true) :
    Authz.require none (withoutUser s) perm = .ok () := by
  obtain ⟨hk, -, hreq⟩ := challenger_allowed hs h.tenant none hp
  rw [withoutUser, Subjects.isHuman, hk]
  exact hreq

theorem Name.canonicalFQDN_eq (h : Name C fqdn) (hlow : IsLowerStr fqdn) :
    Zones.canonicalFQDN C fqdn = some fqdn := by
  rw [Zones.canonicalFQDN, h.trimSpace_eq, toLower_of_isLowerStr _ hlow, h.fqdn_eq]
  exact if_pos ⟨h.domain, h.nonempty⟩

/-- The ways an operation ends, where the set at its name was written. -/
inductive Ran (C : Config) (op : Op) (subj : Subjects) (req : Request) (z : Store.Zone)
    (fqdn : Str) (w : World)
    (pz : PDNS.Zone) : Except Err Str → World → Prop
  | failed {e : Err} (h : Ready C subj z fqdn w pz → ¬ op.Allowed C fqdn req.value pz) :
      Ran C op subj req z fqdn w pz (.error e) w
  | done {w' : World} {pz' : PDNS.Zone} (h : Ready C subj z fqdn w pz)
      (ha : op.Allowed C fqdn req.value pz)
      (hs : Site C subj z fqdn w' pz') (h' : Ready C subj z fqdn w' pz') (hn : pz'.name = pz.name)
      (ho : setAt C pz'.rrsets fqdn (str "TXT") =
        op.next C fqdn req.value (setAt C pz.rrsets fqdn (str "TXT"))) :
      Ran C op subj req z fqdn w pz (.ok z.name) w'

theorem Site.zone_eq (hs : Site C subj z fqdn w pz) {z' : Store.Zone}
    (hres : Resolved C w subj req s z' fqdn) (hlow : IsLowerStr fqdn) : z' = z := by
  obtain ⟨n, hn, hz'⟩ := hres.zone
  rw [(check_spec hres.name).1.canonicalFQDN_eq hlow] at hn
  cases hn
  exact Option.some.inj (hz'.symm.trans hs.zone)

theorem Ready.lower (h : Ready C subj z fqdn w pz) (hreq : check C req = .ok fqdn) :
    IsLowerStr fqdn :=
  ((check_spec hreq).1.recordName_eq h.read.name).2

theorem Unresolved.not_ready (hu : Unresolved C w subj req) (hs : Site C subj z fqdn w pz)
    (hreq : check C req = .ok fqdn) : ¬ Ready C subj z fqdn w pz := by
  intro h
  have hlow := h.lower hreq
  obtain ⟨s, hsc⟩ := h.caller
  cases hu with
  | forbidden he =>
    rw [hsc] at he
    cases he
  | invalid he =>
    rw [hreq] at he
    cases he
  | notAllowed hs' he =>
    rw [h.guard hs'] at he
    cases he
  | noZone hc hz =>
    cases hreq.symm.trans hc
    have := hz fqdn z ((check_spec hreq).1.canonicalFQDN_eq hlow) hs.zone
    rw [h.primary] at this
    cases this

theorem Resolved.ready (hres : Resolved C w subj req s z fqdn) (hread : Read C w z fqdn pz fqdn) :
    Ready C subj z fqdn w pz := by
  refine ⟨⟨s, hres.caller⟩, fun ht => ?_, hres.primary, hread⟩
  have hg := hres.allowed
  rw [Zones.guard, if_pos ((challenger_tenantID hres.caller).trans ht)] at hg
  cases hg

theorem Site.read_eq (hs : Site C subj z fqdn w pz) {z' : Store.Zone} {pz' : PDNS.Zone} {n : Str}
    (hres : Resolved C w subj req s z' fqdn) (hread : Read C w z' fqdn pz' n) :
    n = fqdn ∧ z' = z ∧ pz = pz' ∧ IsLowerStr fqdn ∧ Ready C subj z fqdn w pz := by
  obtain ⟨rfl, hlow⟩ := (check_spec hres.name).1.recordName_eq hread.name
  obtain rfl := hs.zone_eq hres hlow
  cases hs.pdns.symm.trans hread.zone
  exact ⟨rfl, rfl, rfl, hlow, hres.ready hread⟩

theorem holds_iff_values :
    Holds C sets n value ↔ quoted value ∈ (valuesOf (setAt C sets n (str "TXT"))).map
      Record.content := Iff.rfl

theorem not_ready_of_unreadable (hu : Unreadable C w s z fqdn)
    (hcaller : Authz.challenger subj C.allowedCaller = .ok s) : ¬ Ready C subj z fqdn w pz := by
  intro h
  cases hu with
  | forbidden he =>
    rw [h.require hcaller (rfl : Authz.syncAllowed .zonesRead = true)] at he
    cases he
  | badName he =>
    rw [h.read.name] at he
    cases he
  | gone he =>
    rw [h.read.zone] at he
    cases he

theorem Ready.no_cname (h : Ready C subj z fqdn w pz) {pz' : PDNS.Zone}
    (hn : recordName C.env z.name fqdn = .ok n) (hz : w.pdns.zone z.pdnsID = some pz') :
    setAt C pz'.rrsets n (str "CNAME") = none := by
  cases h.read.name.symm.trans hn
  cases h.read.zone.symm.trans hz
  exact h.read.alone

theorem Refused.not_allowed (hr : Refused C w s z fqdn req.value) (hs : Site C subj z fqdn w pz)
    (hreq : check C req = .ok fqdn) (hcaller : Authz.challenger subj C.allowedCaller = .ok s)
    (h : Ready C subj z fqdn w pz) : ¬ Op.present.Allowed C fqdn req.value pz := by
  intro ha
  have hlow := h.lower hreq
  cases hr with
  | unreadable hu => exact not_ready_of_unreadable hu hcaller h
  | cname hn hz hr =>
    rw [h.no_cname hn hz] at hr
    cases hr
  | forbidden he =>
    rw [h.require hcaller (rfl : Authz.syncAllowed .zonesManage = true)] at he
    cases he
  | secondary he =>
    rw [writable, h.primary] at he
    cases he
  | invalid hread hv he =>
    cases h.read.name.symm.trans hread.name
    cases h.read.zone.symm.trans hread.zone
    have hfits := (ha.resolve_left fun hm => hv (holds_iff_values.2 hm)).2
    rw [(hs.offer hlow hread (check_spec hreq).2 hv rfl).2 ⟨hfits, rfl⟩] at he
    cases he
  | outside hread hv hrr hok =>
    cases h.read.name.symm.trans hread.name
    cases h.read.zone.symm.trans hread.zone
    obtain ⟨-, rfl⟩ := (hs.offer hlow hread (check_spec hreq).2 hv rfl).1 hrr
    have hin := (ha.resolve_left fun hm => hv (holds_iff_values.2 hm)).1
    rw [changeOK_written, decide_eq_false_iff_not] at hok
    exact hok hin

theorem Ready.of_store {w' : World} (h : Ready C subj z fqdn w pz) (hp : w'.pdns = w.pdns) :
    Ready C subj z fqdn w' pz :=
  ⟨h.caller, h.tenant, h.primary, h.read.name, hp ▸ h.read.zone, h.read.alone⟩

theorem Ready.of_read {w' : World} {pz' : PDNS.Zone} (h : Ready C subj z fqdn w pz)
    (hr : Read C w' z fqdn pz' fqdn) :
    Ready C subj z fqdn w' pz' :=
  ⟨h.caller, h.tenant, h.primary, hr⟩

theorem stored_written (hc : (if some (commentList i.comment) = some [] then none
    else some (commentList i.comment)) = commentsOf o) :
    (written i fqdn (str "TXT") vs).stored =
      ⟨fqdn, str "TXT", (i.ttl % 4294967296).toNat, .none, vs, commentsOf o⟩ := by
  rw [← hc]
  rfl

theorem present_run (hs : Site C subj z fqdn w pz) (hreq : check C req = .ok fqdn) :
    Ensures (Act.Steps C.env.cases False) (Ran C .present subj req z fqdn w pz) w
      (present C subj req) := by
  refine (resolve_ensures req).bind ?_ ?_
  · rintro ⟨s, z', fqdn'⟩ _ (_ | hres)
    cases hreq.symm.trans hres.name
    refine present_ensures.bind ?_ ?_
    · rintro ⟨⟩ w' h
      refine ensures_pure ?_
      cases h with
      | @there pz' n hread hv =>
        obtain ⟨rfl, rfl, rfl, hlow, hready⟩ := hs.read_eq hres hread
        refine .done hready (.inl (holds_iff_values.1 hv)) (hs.of_store (booked_zones w) rfl)
          (hready.of_store rfl) rfl ?_
        exact (if_pos (holds_iff_values.1 hv)).symm
      | @added pz' n rr hread hv hrr hok =>
        obtain ⟨rfl, rfl, rfl, hlow, hready⟩ := hs.read_eq hres hread
        obtain ⟨hfits, rfl⟩ := (hs.offer hlow hread (check_spec hreq).2 hv rfl).1 hrr
        have hin : InZone n pz.name := by rwa [changeOK_written, decide_eq_true_eq] at hok
        obtain ⟨pz', hs', hread', hname, ho⟩ := hs.write hlow hread hrr (by simp) hok
        refine .done hready (.inr ⟨hin, hfits⟩) (hs'.of_store (booked_zones _) rfl)
          ((hready.of_read hread').of_store rfl) hname ?_
        have hcomments := (hs.kept hlow rfl).2.2.2.2
        rw [← offered_comment] at hcomments
        rw [ho, stored_written hcomments]
        exact (if_neg fun h => hv (holds_iff_values.2 h)).symm
    · rintro e w' (h | _ | _ | hl)
      swap
      · exact hl.elim
      refine .failed fun hready => ?_
      obtain rfl := hs.zone_eq hres (hready.lower hreq)
      exact (h.resolve_left id).not_allowed hs hreq hres.caller hready
  · rintro e w' ⟨hu⟩
    exact .failed fun h => absurd h (hu.not_ready hs hreq)

theorem others_eq_self (h : quoted value ∉ vs.map Record.content) : others value vs = vs :=
  filter_eq_self.2 fun x hx => by
    have : x.content ≠ quoted value := fun he => h (he ▸ mem_map_of_mem hx)
    simpa using this

theorem Stuck.not_allowed (hr : Stuck C w s z fqdn req.value) (hs : Site C subj z fqdn w pz)
    (hreq : check C req = .ok fqdn) (hcaller : Authz.challenger subj C.allowedCaller = .ok s)
    (h : Ready C subj z fqdn w pz) : ¬ Op.cleanUp.Allowed C fqdn req.value pz := by
  intro ha
  have hmanage := h.require hcaller (rfl : Authz.syncAllowed .zonesManage = true)
  have hwritable : writable z = .ok () := by
    rw [writable, h.primary]
    rfl
  cases hr with
  | unreadable hu => exact not_ready_of_unreadable hu hcaller h
  | cname hn hz hr =>
    rw [h.no_cname hn hz] at hr
    cases hr
  | undeletable hread hv hu =>
    cases h.read.name.symm.trans hread.name
    cases h.read.zone.symm.trans hread.zone
    obtain ⟨r, hr, hmem⟩ := found_of_holds hv
    cases hu with
    | forbidden he =>
      rw [hmanage] at he
      cases he
    | secondary he =>
      rw [hwritable] at he
      cases he
    | badKey he =>
      rw [key_text hread.name] at he
      cases he
    | gone he =>
      rw [hread.zone] at he
      cases he
    | outside hz hk hok =>
      rw [key_text hread.name] at hk
      cases hk
      cases hread.zone.symm.trans hz
      rw [changeOK_deletion, decide_eq_false_iff_not] at hok
      exact hok (ha r hr hmem).1
  | unwritable hread hr hv hne hu =>
    cases h.read.name.symm.trans hread.name
    cases h.read.zone.symm.trans hread.zone
    have hfits := ha _ hr ((holds_iff hr).1 hv)
    cases hu with
    | forbidden he =>
      rw [hmanage] at he
      cases he
    | secondary he =>
      rw [hwritable] at he
      cases he
    | gone he =>
      rw [hread.zone] at he
      cases he
    | invalid hz he =>
      cases hread.zone.symm.trans hz
      rw [(hs.rest (h.lower hreq) hread hr hne).2 ⟨hfits.2 hne, rfl⟩] at he
      cases he
    | outside hz hrr hok =>
      cases hread.zone.symm.trans hz
      obtain ⟨-, rfl⟩ := (hs.rest (h.lower hreq) hread hr hne).1 hrr
      rw [changeOK_written, decide_eq_false_iff_not] at hok
      exact hok hfits.1

theorem next_cleanUp_of_not_mem (ho : ∀ r ∈ o, r.records ≠ [])
    (hv : quoted value ∉ (valuesOf o).map Record.content) : Op.cleanUp.next C fqdn value o = o := by
  cases o with
  | none => rfl
  | some r =>
    have hr : others value r.records = r.records := others_eq_self hv
    change (if others value r.records = [] then none
      else some { r with records := others value r.records }) = some r
    rw [hr, if_neg (ho r rfl)]

theorem rest_comment : (Challenges.rest C r fqdn value).comment = commentOf (some r) := rfl

theorem Site.stored_rest (hs : Site C subj z fqdn w pz) (hlow : IsLowerStr fqdn)
    (hr : setAt C pz.rrsets fqdn (str "TXT") = some r) (vs : List Record) :
    (Validate.written (Challenges.rest C r fqdn value) fqdn (str "TXT") vs).stored =
    { r with records := vs } := by
  have ht := hs.text hlow hr
  have hcomments := (hs.kept hlow hr).2.2.2.2
  rw [← rest_comment] at hcomments
  have httl : ((r.ttl : ℤ) % 4294967296).toNat = r.ttl := by
    have := ht.ttl
    omega
  have hr : ({ r with records := vs } : RRset) =
    ⟨r.name, r.type, r.ttl, r.changeType, vs, r.comments⟩ := rfl
  rw [stored_written hcomments, hr, ht.name, ht.type, ht.change]
  exact congrArg (fun n => (⟨fqdn, str "TXT", n, .none, vs, r.comments⟩ : RRset)) httl

theorem cleanUp_run (hs : Site C subj z fqdn w pz) (hreq : check C req = .ok fqdn) :
    Ensures (Act.Steps C.env.cases False) (Ran C .cleanUp subj req z fqdn w pz) w
      (cleanUp C subj req) := by
  refine (resolve_ensures req).bind ?_ ?_
  · rintro ⟨s, z', fqdn'⟩ _ (_ | hres)
    cases hreq.symm.trans hres.name
    refine remove_ensures.bind ?_ ?_
    · rintro ⟨⟩ w' (⟨e, ⟨⟩, -⟩ | ⟨w₁, h, -, rfl⟩)
      refine ensures_pure ?_
      cases h with
      | @absent pz' n hread hv =>
        obtain ⟨rfl, rfl, rfl, hlow, hready⟩ := hs.read_eq hres hread
        refine .done hready (fun r hr hm => absurd ((holds_iff hr).2 hm) hv)
          (hs.of_store (unbooked_zones w) rfl)
          (hready.of_store rfl) rfl ?_
        exact (next_cleanUp_of_not_mem (fun r hr => (hs.text hlow hr).nonempty) fun h =>
          hv (holds_iff_values.2 h)).symm
      | @emptied pz' n r hread hr hv hnil hok =>
        obtain ⟨rfl, rfl, rfl, hlow, hready⟩ := hs.read_eq hres hread
        have hin : InZone n pz.name := by rwa [changeOK_deletion, decide_eq_true_eq] at hok
        obtain ⟨pz', hs', hread', hname, ho⟩ := hs.delete hlow hread hok
        refine .done hready (fun r' hr' _ => ?_) (hs'.of_store (unbooked_zones _) rfl)
          ((hready.of_read hread').of_store rfl) hname ?_
        · cases hr.symm.trans hr'
          exact ⟨hin, fun hne => absurd hnil hne⟩
        · rw [ho, hr]
          exact (if_pos hnil).symm
      | @rewritten pz' n r rr hread hr hv hne hrr hok =>
        obtain ⟨rfl, rfl, rfl, hlow, hready⟩ := hs.read_eq hres hread
        obtain ⟨hfits, rfl⟩ := (hs.rest hlow hread hr hne).1 hrr
        have hin : InZone n pz.name := by rwa [changeOK_written, decide_eq_true_eq] at hok
        obtain ⟨pz', hs', hread', hname, ho⟩ := hs.write hlow hread hrr hne hok
        refine .done hready (fun r' hr' _ => ?_) (hs'.of_store (unbooked_zones _) rfl)
          ((hready.of_read hread').of_store rfl) hname ?_
        · cases hr.symm.trans hr'
          exact ⟨hin, fun _ => hfits⟩
        · rw [ho, hr, hs.stored_rest hlow hr]
          exact (if_neg hne).symm
    · rintro e w' (⟨e', -, h⟩ | ⟨w₁, -, ⟨⟩, -⟩)
      obtain ⟨rfl, h⟩ := h.stuck.resolve_left id
      refine .failed fun hready => ?_
      obtain rfl := hs.zone_eq hres (hready.lower hreq)
      exact (h.resolve_left id).not_allowed hs hreq hres.caller hready
  · rintro e w' ⟨hu⟩
    exact .failed fun h => absurd h (hu.not_ready hs hreq)

/-- **What an operation does,** where its name has a set that was written. -/
theorem Op.run_spec (op : Op) (hs : Site C subj z fqdn w pz) (hreq : check C req = .ok fqdn) :
    Ran C op subj req z fqdn w pz (op.run C subj req w).1 (op.run C subj req w).2 := by
  cases op with
  | present => exact Act.ensures_exec (present_run hs hreq)
  | cleanUp => exact Act.ensures_exec (cleanUp_run hs hreq)

theorem Op.succeeds_iff (op : Op) (hs : Site C subj z fqdn w pz) (hreq : check C req = .ok fqdn) :
    op.Succeeds C subj req w ↔ Ready C subj z fqdn w pz ∧ op.Allowed C fqdn req.value pz := by
  have hrun := op.run_spec hs hreq
  generalize (op.run C subj req w).2 = w' at hrun
  rw [Op.Succeeds]
  cases hres : (op.run C subj req w).1 with
  | error e =>
    rw [hres] at hrun
    refine ⟨by rintro ⟨zone, ⟨⟩⟩, fun h => ?_⟩
    cases hrun with
    | failed hf => exact absurd h.2 (hf h.1)
  | ok zone =>
    rw [hres] at hrun
    refine ⟨fun _ => ?_, fun _ => ⟨zone, rfl⟩⟩
    cases hrun with
    | done h ha => exact ⟨h, ha⟩

/-! ## When a value is accepted -/

/-- **When a challenge is presented.**  With limits that the configuration may have and the default
    TTL, a request of the caller for a name in a zone of its tenant is served if the record service
    takes the name and, unless the value is there, the limits take the TTL and the values that are
    there. -/
theorem present_accepts (C : Config) (subj s : Subjects) (req : Request) (w : World)
    (z : Store.Zone)
    (pz : PDNS.Zone) (fqdn : Str) (hlimits : limitsOK C.limits = true)
    (httl : C.challengeTTL = ttlOf 0)
    (htenant : subj.tenantID ≠ []) (hcaller : Authz.challenger subj C.allowedCaller = .ok s)
    (hreq : check C req = .ok fqdn)
    (hzone : Store.longestZone (w.store.zonesForTenant subj.tenantID) fqdn = some z)
    (hkind : z.kind.needsMasters = false) (hpdns : w.pdns.zone z.pdnsID = some pz)
    (hname : pz.name = z.name)
    (halone : setAt C pz.rrsets fqdn (str "CNAME") = none)
    (hset : ∀ r ∈ pz.rrsets, Matches C r fqdn (str "TXT") →
      Written C z.name r ∧ (r.records.length : ℤ) < C.limits.maxValues) :
    Op.present.Succeeds C subj req w ↔
      (∃ n, recordName C.env z.name fqdn = .ok n) ∧
        (quoted req.value ∈ (valuesOf (textSet C w z fqdn)).map Record.content ∨
          C.limits.minTTL ≤ defaultTTL ∧ defaultTTL ≤ C.limits.maxTTL ∧
            ∀ x ∈ valuesOf (textSet C w z fqdn), x.content.length ≤ maxContent) := by
  have hs : Site C subj z fqdn w pz := ⟨hzone, hpdns, fun r hr hm => (hset r hr hm).1⟩
  have hin : InZone fqdn pz.name := hname ▸ (Store.longestZone_spec hzone).2.1
  have hlen : (quoted req.value).length ≤ maxContent := by
    simp [quoted, (valueOK_spec (check_spec hreq).2).1, maxContent]
  -- there is room for one more value
  have hcount : ((valuesOf (setAt C pz.rrsets fqdn (str "TXT")) ++
      [(⟨quoted req.value, false⟩ : Record)]).length : ℤ) ≤ C.limits.maxValues := by
    cases hr : setAt C pz.rrsets fqdn (str "TXT") with
    | none =>
      simp only [limitsOK, within, Bool.and_eq_true, decide_eq_true_eq] at hlimits
      exact hlimits.2.1
    | some r =>
      have := (hset r (mem_of_find?_eq_some hr) (by simpa using find?_some hr)).2
      simp only [valuesOf, Option.map_some, Option.getD_some, length_append, length_singleton]
      omega
  have hready : Ready C subj z fqdn w pz ↔ ∃ n, recordName C.env z.name fqdn = .ok n := by
    constructor
    · exact fun h => ⟨fqdn, h.read.name⟩
    · rintro ⟨n, hn⟩
      obtain ⟨rfl, -⟩ := (check_spec hreq).1.recordName_eq hn
      exact ⟨⟨s, hcaller⟩, htenant, hkind, hn, hpdns, halone⟩
  rw [Op.succeeds_iff _ hs hreq, hready, hs.textSet_eq]
  refine and_congr_right fun _ => or_congr_right ?_
  rw [httl]
  constructor
  · rintro ⟨-, hf⟩
    exact ⟨hf.ttl.1, hf.ttl.2, fun x hx => hf.length x (mem_append_left _ hx)⟩
  · rintro ⟨h1, h2, hall⟩
    refine ⟨hin, ⟨h1, h2⟩, hcount, fun x hx => ?_⟩
    rcases mem_append.1 hx with hx | hx
    · exact hall x hx
    · cases mem_singleton.1 hx
      exact hlen

theorem written_sample {r : PDNS.RRset} (hr : r ∈ samplePDNS.rrsets ++ [sampleSet])
    (hm : Matches .sample r sampleName (str "TXT")) :
    Written .sample sampleZone.name r ∧
    (r.records.length : ℤ) < Config.sample.limits.maxValues := by
  obtain rfl : r = sampleSet := by
    revert r
    decide +kernel
  exact ⟨⟨⟨str "_acme-challenge", str "TXT", 300, [⟨str "text", false⟩], str "kept"⟩, [],
    { sampleSet with changeType := .replace }, by decide +kernel, rfl⟩, by decide⟩

/-- A challenge at a name that has a value, with the default limits. -/
theorem present_accepts_sample :
    Op.present.Succeeds .sample sampleCaller sampleRequest (sampleWith sampleSet) := by
  refine (present_accepts .sample sampleCaller { sampleCaller with acme := true } sampleRequest
    (sampleWith sampleSet) sampleZone _ sampleName (by decide) rfl (by decide) (by decide +kernel)
    (by decide +kernel) (by decide +kernel) rfl rfl rfl (by decide +kernel) fun r hr hm =>
      written_sample hr hm).2 ⟨⟨sampleName, by decide +kernel⟩, .inr ?_⟩
  decide +kernel

/-- Limits that the configuration may have refuse the TTL of every challenge. -/
theorem present_refused :
    limitsOK ⟨300, 604800, 100⟩ = true ∧
      ¬ Op.present.Succeeds { Config.sample with limits := ⟨300, 604800, 100⟩ } sampleCaller
        sampleRequest
        sampleWorld := by
  refine ⟨by decide, ?_⟩
  have h : (Op.present.run { Config.sample with limits := ⟨300, 604800, 100⟩ } sampleCaller
    sampleRequest
      sampleWorld).1.isOk = false := by decide +kernel
  rintro ⟨zone, hz⟩
  exact Bool.noConfusion (h.symm.trans (congrArg Except.isOk hz))

/-! ## The values of a set -/

def Op.apply (op : Op) (value : Str) (vs : List Record) : List Record :=
  match op with
  | .present => if quoted value ∈ vs.map Record.content then vs else vs ++ [⟨quoted value, false⟩]
  | .cleanUp => others value vs

theorem valuesOf_next (op : Op) :
    valuesOf (op.next C fqdn value o) = op.apply value (valuesOf o) := by
  cases op with
  | present =>
    dsimp only [Op.next, Op.apply]
    split_ifs <;> rfl
  | cleanUp =>
    cases o with
    | none => rfl
    | some r =>
      change valuesOf (if others value r.records = [] then none
        else some { r with records := others value r.records }) = others value r.records
      split_ifs with h
      exacts [h.symm, rfl]

variable {u v : Str}

theorem others_append_other (hne : u ≠ v) :
    others u (vs ++ [⟨quoted v, false⟩]) = others u vs ++ [⟨quoted v, false⟩] := by
  have hq : quoted v ≠ quoted u := fun h => hne (quoted_injective h).symm
  rw [others, filter_append, filter_cons_of_pos (by simpa using hq), filter_nil]
  rfl

theorem others_append_self : others v (vs ++ [⟨quoted v, false⟩]) = others v vs := by
  rw [others, filter_append, filter_cons_of_neg (by simp), filter_nil, append_nil]
  rfl

theorem present_cleanUp_comm (hne : u ≠ v) (vs : List Record) :
    Op.cleanUp.apply u (Op.present.apply v vs) = Op.present.apply v (Op.cleanUp.apply u vs) := by
  simp only [Op.apply, mem_others_iff hne.symm]
  split_ifs with h
  · rfl
  · exact others_append_other hne

theorem Op.apply_comm (hne : u ≠ v) (a b : Op) (vs : List Record) :
    (b.apply u (a.apply v vs)).Perm (a.apply v (b.apply u vs)) := by
  cases a <;> cases b
  · have hmem (x y : Str) (hxy : x ≠ y) :
        quoted x ∈ (vs ++ [(⟨quoted y, false⟩ : Record)]).map Record.content ↔
        quoted x ∈ vs.map Record.content := by
      have hq : quoted x ≠ quoted y := fun h => hxy (quoted_injective h)
      simp [hq]
    have huv := hmem u v hne
    have hvu := hmem v u hne.symm
    by_cases hv : quoted v ∈ vs.map Record.content <;> by_cases hu :
      quoted u ∈ vs.map Record.content <;>
      simp only [Op.apply, huv, hvu, hv, hu, if_true, if_false, append_assoc]
    all_goals first | exact .refl _ | exact List.Perm.append_left vs (List.Perm.swap ..)
  · rw [present_cleanUp_comm hne]
  · rw [present_cleanUp_comm hne.symm]
  · simp only [Op.apply, others, List.filter_filter, Bool.and_comm]
    exact List.Perm.refl _

theorem commentsOf_next (op : Op) (h : o = none ∨ op.next C fqdn value o ≠ none) :
    commentsOf (op.next C fqdn value o) = commentsOf o := by
  cases op with
  | present =>
    dsimp only [Op.next]
    split_ifs <;> rfl
  | cleanUp =>
    cases o with
    | none => rfl
    | some r =>
      have h := h.resolve_left (Option.some_ne_none r)
      simp only [Op.next, Option.bind_some] at h ⊢
      split_ifs at h ⊢ with hnil
      · exact absurd rfl h
      · rfl

/-! ## The laws -/

theorem Op.step {op : Op} (hs : Site C subj z fqdn w pz) (hreq : check C req = .ok fqdn)
    (h : op.Succeeds C subj req w) :
    (op.run C subj req w).1 = .ok z.name ∧ ∃ pz', Site C subj z fqdn (op.run C subj req w).2 pz' ∧
      Ready C subj z fqdn (op.run C subj req w).2 pz' ∧ pz'.name = pz.name ∧
      setAt C pz'.rrsets fqdn (str "TXT") =
        op.next C fqdn req.value (setAt C pz.rrsets fqdn (str "TXT")) := by
  have hrun := op.run_spec hs hreq
  obtain ⟨zone, hzone⟩ := h
  rw [hzone] at hrun ⊢
  generalize (op.run C subj req w).2 = w' at hrun ⊢
  cases hrun with
  | done h ha hs' h' hn ho => exact ⟨rfl, _, hs', h', hn, ho⟩

theorem Op.stay {op : Op} (hs : Site C subj z fqdn w pz) (hreq : check C req = .ok fqdn)
    (h : ¬ op.Succeeds C subj req w) : (op.run C subj req w).2 = w := by
  have hrun := op.run_spec hs hreq
  cases hres : (op.run C subj req w).1 with
  | ok zone => exact absurd ⟨zone, hres⟩ h
  | error e =>
    rw [hres] at hrun
    generalize (op.run C subj req w).2 = w' at hrun ⊢
    cases hrun
    rfl

theorem Site.nonempty (hs : Site C subj z fqdn w pz) (hlow : IsLowerStr fqdn) :
    ∀ r ∈ setAt C pz.rrsets fqdn (str "TXT"), r.records ≠ [] := fun _ hr =>
      (hs.text hlow hr).nonempty

theorem eq_none_iff_valuesOf (ho : ∀ r ∈ o, r.records ≠ []) : o = none ↔ valuesOf o = [] := by
  cases o with
  | none => exact ⟨fun _ => rfl, fun _ => rfl⟩
  | some r => exact ⟨by rintro ⟨⟩, fun h => absurd h (ho r rfl)⟩

theorem length_filter_content (hnd : (vs.map Record.content).Nodup) {c : Str}
    (hc : c ∈ vs.map Record.content) : (vs.filter fun x => x.content == c).length = 1 := by
  have hcount := count_eq_one_of_mem hnd hc
  rw [List.count, countP_map, countP_eq_length_filter] at hcount
  exact hcount

theorem present_law (hs : Site C subj z fqdn w pz) (hreq : check C req = .ok fqdn)
    (h : Op.present.Succeeds C subj req w) :
    ∃ r, textSet C (Op.present.run C subj req w).2 z fqdn = some r ∧
      others req.value r.records = others req.value (valuesOf (textSet C w z fqdn)) ∧
      (r.records.filter fun x => x.content == quoted req.value).length = 1 ∧
      r.comments = commentsOf (textSet C w z fqdn) := by
  obtain ⟨-, pz', hs', hready, -, ho⟩ := Op.step hs hreq h
  have hnd := (hs'.kept (hready.lower hreq) rfl).2.1
  rw [hs'.textSet_eq, hs.textSet_eq]
  rw [ho] at hnd ⊢
  generalize setAt C pz.rrsets fqdn (str "TXT") = o at hnd ⊢
  dsimp only [Op.next] at hnd ⊢
  split_ifs at hnd ⊢ with hmem
  · cases o with
    | none => cases hmem
    | some r => exact ⟨r, rfl, rfl, length_filter_content hnd hmem, rfl⟩
  · refine ⟨_, rfl, others_append_self, length_filter_content hnd ?_, rfl⟩
    simp [valuesOf]

theorem mem_apply_present : quoted value ∈ (Op.present.apply value vs).map Record.content := by
  dsimp only [Op.apply]
  split_ifs with h
  · exact h
  · simp

theorem twice_law (op : Op) (hs : Site C subj z fqdn w pz) (hreq : check C req = .ok fqdn) :
    (op.run C subj req (op.run C subj req w).2).1 = (op.run C subj req w).1 ∧
      textSet C (op.run C subj req (op.run C subj req w).2).2 z fqdn =
        textSet C (op.run C subj req w).2 z fqdn := by
  by_cases h : op.Succeeds C subj req w
  swap
  · rw [Op.stay hs hreq h]
    exact ⟨rfl, by rw [Op.stay hs hreq h]⟩
  obtain ⟨hres, pz', hs', hready, -, ho⟩ := Op.step hs hreq h
  have hvalues : valuesOf (setAt C pz'.rrsets fqdn (str "TXT")) =
      op.apply req.value (valuesOf (setAt C pz.rrsets fqdn
        (str "TXT"))) := by rw [ho, valuesOf_next]
  -- the second time there is nothing to do
  have hidle : op.Allowed C fqdn req.value pz' ∧
      op.next C fqdn req.value (setAt C pz'.rrsets fqdn (str "TXT")) =
        setAt C pz'.rrsets fqdn (str "TXT") := by
    cases op with
    | present =>
      have hmem : quoted req.value ∈ (valuesOf (setAt C pz'.rrsets fqdn (str "TXT"))).map
          Record.content :=
        hvalues ▸ mem_apply_present
      exact ⟨.inl hmem, if_pos hmem⟩
    | cleanUp =>
      have hmem : quoted req.value ∉ (valuesOf (setAt C pz'.rrsets fqdn (str "TXT"))).map
          Record.content :=
        hvalues ▸ not_mem_others
      refine ⟨fun r hr hm => absurd ?_ hmem,
        next_cleanUp_of_not_mem (hs'.nonempty (hready.lower hreq)) hmem⟩
      rw [show setAt C pz'.rrsets fqdn (str "TXT") = some r from hr]
      exact hm
  obtain ⟨hres', pz'', hs'', -, -, ho''⟩ :=
    Op.step hs' hreq ((Op.succeeds_iff op hs' hreq).2 ⟨hready, hidle.1⟩)
  refine ⟨hres'.trans hres.symm, ?_⟩
  rw [hs''.textSet_eq, hs'.textSet_eq, ho'', hidle.2]

theorem undo_law (hs : Site C subj z fqdn w pz) (hreq : check C req = .ok fqdn)
    (httl : 0 ≤ C.challengeTTL ∧ C.challengeTTL < 4294967296)
    (hv : quoted req.value ∉ (valuesOf (textSet C w z fqdn)).map Record.content) :
    (Op.present.Succeeds C subj req w →
      Op.cleanUp.Succeeds C subj req (Op.present.run C subj req w).2) ∧
      valuesOf (textSet C (Op.cleanUp.run C subj req (Op.present.run C subj req w).2).2 z fqdn) =
        valuesOf (textSet C w z fqdn) := by
  rw [hs.textSet_eq] at hv ⊢
  by_cases h : Op.present.Succeeds C subj req w
  · obtain ⟨-, hallowed⟩ := (Op.succeeds_iff _ hs hreq).1 h
    obtain ⟨hin, hfits⟩ := hallowed.resolve_left hv
    obtain ⟨-, pz', hs', hready, hn, ho⟩ := Op.step hs hreq h
    have hrest := others_append_self.trans (others_eq_self hv)
    rw [Op.next, if_neg hv] at ho
    have hclean : Op.cleanUp.Succeeds C subj req (Op.present.run C subj req w).2 := by
      refine (Op.succeeds_iff _ hs' hreq).2 ⟨hready, fun r hr _ => ⟨hn ▸ hin, fun _ => ?_⟩⟩
      cases ho.symm.trans hr
      dsimp only
      rw [hrest]
      refine ⟨?_, ?_, fun x hx => hfits.length x (mem_append_left _ hx)⟩
      · have := hfits.ttl
        omega
      · have := hfits.count
        rw [length_append] at this
        omega
    refine ⟨fun _ => hclean, ?_⟩
    obtain ⟨-, pz'', hs'', -, -, ho''⟩ := Op.step hs' hreq hclean
    rw [hs''.textSet_eq, ho'', valuesOf_next, ho]
    exact hrest
  · refine ⟨fun hp => absurd hp h, ?_⟩
    rw [Op.stay hs hreq h]
    by_cases hc : Op.cleanUp.Succeeds C subj req w
    · obtain ⟨-, pz', hs', -, -, ho⟩ := Op.step hs hreq hc
      rw [hs'.textSet_eq, ho, valuesOf_next]
      exact others_eq_self hv
    · rw [Op.stay hs hreq hc, hs.textSet_eq]

theorem commute_law {r₁ r₂ : Request} (hs : Site C subj z fqdn w pz) (h₁ : check C r₁ = .ok fqdn)
    (h₂ : check C r₂ = .ok fqdn) (hne : r₁.value ≠ r₂.value) (a b : Op)
    (ha : a.Succeeds C subj r₁ w)
    (hab : b.Succeeds C subj r₂ (a.run C subj r₁ w).2) (hb : b.Succeeds C subj r₂ w)
    (hba : a.Succeeds C subj r₁ (b.run C subj r₂ w).2) :
    let s := textSet C (b.run C subj r₂ (a.run C subj r₁ w).2).2 z fqdn
    let t := textSet C (a.run C subj r₁ (b.run C subj r₂ w).2).2 z fqdn
    (valuesOf s).Perm (valuesOf t) ∧ (s = none ↔ t = none) ∧
      (textSet C w z fqdn = none ∨
        textSet C (a.run C subj r₁ w).2 z fqdn ≠ none ∧
        textSet C (b.run C subj r₂ w).2 z fqdn ≠ none →
        commentsOf s = commentsOf t) := by
  obtain ⟨-, pa, hsa, hra, -, hoa⟩ := Op.step hs h₁ ha
  obtain ⟨-, pab, hsab, -, -, hoab⟩ := Op.step hsa h₂ hab
  obtain ⟨-, pb, hsb, -, -, hob⟩ := Op.step hs h₂ hb
  obtain ⟨-, pba, hsba, -, -, hoba⟩ := Op.step hsb h₁ hba
  have hlow := hra.lower h₁
  rw [hsab.textSet_eq, hsba.textSet_eq, hs.textSet_eq, hsa.textSet_eq, hsb.textSet_eq]
  have hgood := hsab.nonempty hlow
  have hgood' := hsba.nonempty hlow
  rw [hoab, hoa] at hgood ⊢
  rw [hoba, hob] at hgood' ⊢
  generalize setAt C pz.rrsets fqdn (str "TXT") = o at hgood hgood' ⊢
  have hperm : (valuesOf (b.next C fqdn r₂.value (a.next C fqdn r₁.value o))).Perm
      (valuesOf (a.next C fqdn r₁.value (b.next C fqdn r₂.value o))) := by
    simp only [valuesOf_next]
    exact Op.apply_comm hne.symm a b _
  have hnone : b.next C fqdn r₂.value (a.next C fqdn r₁.value o) = none ↔
      a.next C fqdn r₁.value (b.next C fqdn r₂.value o) = none := by
    rw [eq_none_iff_valuesOf hgood, eq_none_iff_valuesOf hgood']
    exact ⟨fun h => (h ▸ hperm).nil_eq.symm, fun h => (h ▸ hperm).eq_nil⟩
  refine ⟨hperm, hnone, fun h => ?_⟩
  by_cases hs' : b.next C fqdn r₂.value (a.next C fqdn r₁.value o) = none
  · rw [hs', hnone.1 hs']
  · rw [commentsOf_next b (.inr hs'), commentsOf_next a (.inr fun h => hs' (hnone.2 h)),
      commentsOf_next a (h.imp_right And.left), commentsOf_next b (h.imp_right And.right)]

/-- **The laws of challenges.**  Presenting keeps the other values, their order and the comment;
    cleaning up takes out the value alone; each done twice is done once; cleaning up undoes
    presenting; and operations for two values commute. -/
theorem challenge_laws (C : Config) (subj : Subjects) (z : Store.Zone) (fqdn : Str)
    (v u : Request) (w : World)
    (pz : PDNS.Zone) (httl : 0 ≤ C.challengeTTL ∧ C.challengeTTL < 4294967296)
    (hv : check C v = .ok fqdn)
    (hu : check C u = .ok fqdn) (hne : v.value ≠ u.value)
    (hzone : Store.longestZone (w.store.zonesForTenant subj.tenantID) fqdn = some z)
    (hpdns : w.pdns.zone z.pdnsID = some pz)
    (hset : ∀ r ∈ pz.rrsets, Matches C r fqdn (str "TXT") → Written C z.name r) :
    Laws C subj z fqdn v u w := by
  have hs : Site C subj z fqdn w pz := ⟨hzone, hpdns, hset⟩
  refine ⟨present_law hs hv, fun h => ?_, fun op => twice_law op hs hv, undo_law hs hv httl,
    commute_law hs hv hu hne⟩
  obtain ⟨-, pz', hs', -, -, ho⟩ := Op.step hs hv h
  rw [hs'.textSet_eq, ho, hs.textSet_eq]
  rfl

/-- Two values in a set that has a third one. -/
theorem challenge_laws_sample :
    Laws .sample sampleCaller sampleZone sampleName sampleRequest sampleOther
      (sampleWith sampleSet) := by
  refine challenge_laws .sample sampleCaller sampleZone sampleName sampleRequest sampleOther
    _ _ (by decide)
    (by decide +kernel) (by decide +kernel) (by decide) (by decide +kernel) rfl fun r hr hm => ?_
  exact (written_sample hr hm).1

end TangraDns.Challenges
