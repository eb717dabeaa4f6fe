/-
  The creation of a zone, as PowerDNS sees it.
-/
import TangraDns.Proof.Names
import TangraDns.Scope
import TangraDns.Zones

namespace TangraDns.Zones

open List Str Prog Prog.Failing

variable {C : Config} {zone : Str} {r : PDNS.RRset} {sets rrsets : List PDNS.RRset}
  {values ns : List Str}

/-! ## Name servers at the apex -/

def IsApexNS (C : Config) (zone : Str) (r : PDNS.RRset) : Prop :=
  r.name = zone ∧ EqualFold C.env.cases r.type (str "NS")

instance : DecidablePred (IsApexNS C zone) := fun _ => inferInstanceAs (Decidable (_ ∧ _))

def apexNames (C : Config) (zone : Str) (sets : List PDNS.RRset) : List Str :=
  (sets.filter fun r => IsApexNS C zone r).flatMap fun r => r.records.map PDNS.Record.content

/-- The names that no value is, in any letter case, each once. -/
def lacking (C : Config) (values ns : List Str) : List Str :=
  (ns.filter fun n => n ∉ values.map (toLower C.env.cases)).eraseDups

def extend (C : Config) (zone : Str) (names : List Str) (r : PDNS.RRset) : PDNS.RRset :=
  if IsApexNS C zone r then { r with records := r.records ++ names.map fun n => ⟨n, false⟩ } else r

theorem nodup_eraseDups {α : Type} [BEq α] [LawfulBEq α] (l : List α) : l.eraseDups.Nodup := by
  cases l with
  | nil => exact nodup_nil
  | cons a l =>
    rw [eraseDups_cons, nodup_cons]
    exact ⟨by simp [mem_eraseDups], nodup_eraseDups (l.filter fun b => !b == a)⟩
termination_by l.length
decreasing_by exact Nat.lt_succ_of_le (length_filter_le _ _)

theorem mem_lacking {n : Str} :
    n ∈ lacking C values ns ↔ n ∈ ns ∧ ∀ v ∈ values, toLower C.env.cases v ≠ n := by
  simp [lacking, mem_eraseDups]

theorem nodup_lacking : (lacking C values ns).Nodup := nodup_eraseDups _

theorem lacking_nil : lacking C values [] = [] := rfl

theorem extend_nil (r : PDNS.RRset) : extend C zone [] r = r := by
  unfold extend
  split_ifs <;> simp

theorem isApexNS_extend {names : List Str} :
    IsApexNS C zone (extend C zone names r) ↔ IsApexNS C zone r := by
  unfold extend
  split_ifs <;> rfl

theorem foldl_add (recs : List PDNS.Record) (lows ns added : List Str) :
    ns.foldl (fun out n => if n ∈ lows ∨ n ∈ (out.drop recs.length).map PDNS.Record.content then out
        else out ++ [⟨n, false⟩]) (recs ++ added.map fun n => ⟨n, false⟩) =
      recs ++ (added ++ (ns.filter fun n => n ∉ lows ∧ n ∉ added).eraseDups).map fun n =>
          ⟨n, false⟩ := by
  induction ns generalizing added with
  | nil => simp
  | cons n ns ih =>
    have hdrop : ((recs ++ added.map fun n => (⟨n, false⟩ : PDNS.Record)).drop recs.length).map
        PDNS.Record.content = added := by
      simp [Function.comp_def]
    rw [foldl_cons, hdrop]
    by_cases h : n ∈ lows ∨ n ∈ added
    · rw [if_pos h, ih, filter_cons_of_neg (by simpa [or_iff_not_imp_left] using h)]
    · obtain ⟨hlow, hadd⟩ := not_or.1 h
      rw [if_neg h, filter_cons_of_pos (by simp [hlow, hadd]), eraseDups_cons, List.filter_filter]
      have := ih (added ++ [n])
      simp only [map_append, map_cons, map_nil, append_assoc] at this ⊢
      rw [this]
      simp only [mem_append, mem_singleton, not_or, singleton_append]
      congr 6
      funext m
      by_cases hm : m = n <;> simp [hm, and_comm]

theorem exists_last {α : Type} {p : α → Bool} {l : List α} {i : ℕ}
    (h : l.reverse.findIdx? p = some i) :
    ∃ pre a post, l = pre ++ a :: post ∧ pre.length = l.length - 1 - i ∧ p a = true ∧
      ∀ b ∈ post, p b = false := by
  obtain ⟨hi, hp, hbefore⟩ := findIdx?_eq_some_iff_getElem.1 h
  have hsplit : l.reverse = l.reverse.take i ++ l.reverse[i] :: l.reverse.drop (i + 1) := by
    rw [← drop_eq_getElem_cons hi, take_append_drop]
  refine ⟨(l.reverse.drop (i + 1)).reverse, l.reverse[i], (l.reverse.take i).reverse, ?_, ?_, hp,
    fun b hb => ?_⟩
  · have := congrArg List.reverse hsplit
    simpa only [reverse_reverse, reverse_append, reverse_cons, append_assoc,
      singleton_append] using this
  · rw [length_reverse, length_drop, length_reverse]
    omega
  · obtain ⟨j, hj, rfl⟩ := getElem_of_mem (mem_reverse.1 hb)
    have hji : j < i := (length_take ▸ hj).trans_le (min_le_left _ _)
    simpa using hbefore j hji

theorem decide_isApexNS : (r.name == zone && decide (EqualFold C.env.cases r.type (str "NS"))) =
    decide (IsApexNS C zone r) := by
  by_cases h : r.name = zone <;> simp [IsApexNS, h]

theorem mergeApexNS_of_none (h : ∀ r ∈ rrsets, ¬ IsApexNS C zone r) :
    mergeApexNS C zone rrsets ns = (rrsets, ns) := by
  have hidx : rrsets.reverse.findIdx? (fun r => decide (IsApexNS C zone r)) = none :=
    findIdx?_eq_none_iff.2 fun r hr => decide_eq_false (h r (mem_reverse.1 hr))
  simp only [mergeApexNS, decide_isApexNS, hidx]

theorem mergeApexNS_of_apex (ns : List Str) (h : ∃ r ∈ rrsets, IsApexNS C zone r) :
    ∃ pre r post, rrsets = pre ++ r :: post ∧ IsApexNS C zone r ∧
      (∀ s ∈ post, ¬ IsApexNS C zone s) ∧
      mergeApexNS C zone rrsets ns =
        (pre ++ extend C zone (lacking C (r.records.map PDNS.Record.content) ns) r ::
          post, []) := by
  cases hidx : rrsets.reverse.findIdx? fun r => decide (IsApexNS C zone r) with
  | none =>
    obtain ⟨r, hr, hapex⟩ := h
    have := findIdx?_eq_none_iff.1 hidx r (mem_reverse.2 hr)
    exact absurd hapex (of_decide_eq_false this)
  | some i =>
    obtain ⟨pre, r, post, hsplit, hlen, hr, hpost⟩ := exists_last hidx
    refine ⟨pre, r, post, hsplit, of_decide_eq_true hr, fun s hs => of_decide_eq_false (hpost s hs),
      ?_⟩
    simp only [mergeApexNS, decide_isApexNS, hidx, ← hlen]
    split_ifs with hns
    · rw [hns, lacking_nil, extend_nil, hsplit]
    have hadd := foldl_add r.records (r.records.map fun r => toLower C.env.cases r.content) ns []
    simp only [map_nil, append_nil, not_mem_nil, not_false_eq_true, and_true,
      nil_append] at hadd
    rw [hsplit, modify_eq_take_cons_drop (by simp)]
    simp only [take_left, getElem_append_right (Nat.le_refl _), Nat.sub_self,
      getElem_cons_zero, hadd]
    simp [extend, of_decide_eq_true hr, lacking, Function.comp_def]

/-! ## The new zone -/

theorem filter_replaceRRset_of_not (h : ¬ IsApexNS C zone r) :
    (PDNS.replaceRRset sets r).filter (fun s => IsApexNS C zone s) = sets.filter fun s =>
      IsApexNS C zone s := by
  have hstored : ¬ IsApexNS C zone r.stored := h
  induction sets with
  | nil => simp [PDNS.replaceRRset, hstored]
  | cons s sets ih =>
    rw [PDNS.replaceRRset]
    split_ifs with hs
    · obtain ⟨hname, htype⟩ : s.name = r.name ∧ s.type = r.type := by
        simpa [PDNS.RRset.isAt] using hs
      have hsame : ¬ IsApexNS C zone s := by rwa [IsApexNS, hname, htype]
      simp [hsame, hstored]
    · rw [filter_cons, filter_cons, ih]

theorem filter_replaceRRset_of_apex (h : IsApexNS C zone r)
    (hsets : ∀ s ∈ sets, ¬ IsApexNS C zone s) :
    (PDNS.replaceRRset sets r).filter (fun s => IsApexNS C zone s) = [r.stored] := by
  have hstored : IsApexNS C zone r.stored := h
  induction sets with
  | nil => simp [PDNS.replaceRRset, hstored]
  | cons s sets ih =>
    obtain ⟨hs, hsets⟩ := forall_mem_cons.1 hsets
    rw [PDNS.replaceRRset]
    split_ifs with hat
    · obtain ⟨hname, htype⟩ : s.name = r.name ∧ s.type = r.type := by
        simpa [PDNS.RRset.isAt] using hat
      exact absurd (show IsApexNS C zone s by rwa [IsApexNS, hname, htype]) hs
    · rw [filter_cons_of_neg (by simpa using hs)]
      exact ih hsets

theorem filter_foldl_of_not (h : ∀ r ∈ rrsets, ¬ IsApexNS C zone r) :
    (rrsets.foldl PDNS.replaceRRset sets).filter (fun s => IsApexNS C zone s) =
      sets.filter fun s => IsApexNS C zone s := by
  induction rrsets generalizing sets with
  | nil => rfl
  | cons r rrsets ih =>
    obtain ⟨hr, hrest⟩ := forall_mem_cons.1 h
    rw [foldl_cons, ih hrest, filter_replaceRRset_of_not hr]

theorem filter_foldl_of_apex {pre post : List PDNS.RRset} (hr : IsApexNS C zone r)
    (hpre : ∀ s ∈ pre, ¬ IsApexNS C zone s) (hpost : ∀ s ∈ post, ¬ IsApexNS C zone s)
    (hsets : ∀ s ∈ sets, ¬ IsApexNS C zone s) :
    ((pre ++ r :: post).foldl PDNS.replaceRRset sets).filter
    (fun s => IsApexNS C zone s) = [r.stored] := by
  rw [foldl_append, foldl_cons, filter_foldl_of_not hpost]
  refine filter_replaceRRset_of_apex hr fun s hs hapex => ?_
  have hmem : s ∈ (pre.foldl PDNS.replaceRRset sets).filter fun s => IsApexNS C zone s :=
    List.mem_filter.2 ⟨hs, decide_eq_true hapex⟩
  rw [filter_foldl_of_not hpre] at hmem
  exact hsets s (List.mem_filter.1 hmem).1 hapex

theorem filter_initialSets (ns : List Str) :
    (PDNS.Server.initialSets zone ns).filter (fun s => IsApexNS C zone s) =
      if ns = [] then [] else [⟨zone, str "NS", 3600, .none, ns.map fun n => ⟨n, false⟩,
          none⟩] := by
  have hsoa : ¬ EqualFold C.env.cases (str "SOA") (str "NS") := by
    rw [equalFold_iff_of_upper _ (by decide) (by decide)]
    decide
  have hself : EqualFold C.env.cases (str "NS") (str "NS") := rfl
  unfold PDNS.Server.initialSets
  split_ifs <;> simp [IsApexNS, hsoa, hself]

/-! ## The merge -/

theorem mergeApexNS_alone : (mergeApexNS C zone rrsets ns).2 = [] ∨
    ∀ r ∈ (mergeApexNS C zone rrsets ns).1, ¬ IsApexNS C zone r := by
  by_cases h : ∃ r ∈ rrsets, IsApexNS C zone r
  · obtain ⟨_, _, _, -, -, -, hmerge⟩ := mergeApexNS_of_apex ns h
    exact .inl (congrArg Prod.snd hmerge)
  · have hnone : ∀ r ∈ rrsets, ¬ IsApexNS C zone r := fun r hr hapex => h ⟨r, hr, hapex⟩
    exact .inr (by rwa [mergeApexNS_of_none hnone])

/-- The names of the apex after the merge: the values of the set with the requested names it lacks,
    or the requested names. -/
def mergedNames (C : Config) (zone : Str) (rrsets : List PDNS.RRset) (ns : List Str) : List Str :=
  if ∃ r ∈ rrsets, IsApexNS C zone r then apexNames C zone rrsets ++
    lacking C (apexNames C zone rrsets) ns else ns

/-- What a merge returns, and what PowerDNS makes of it. -/
structure Merged (C : Config) (zone : Str) (rrsets : List PDNS.RRset) (ns : List Str)
    (out : List PDNS.RRset × List Str) : Prop where
  /-- never both forms -/
  alone : out.2 = [] ∨ ∀ r ∈ out.1, ¬ IsApexNS C zone r
  sets : out.1 = rrsets.map (extend C zone (lacking C (apexNames C zone rrsets) ns))
  names : ∀ z : PDNS.Zone, z.name = zone → z.rrsets = out.1 → z.nameservers = out.2 →
    apexNames C zone (PDNS.Server.newZone z).rrsets = mergedNames C zone rrsets ns

theorem map_extend_of_none (h : ∀ r ∈ rrsets, ¬ IsApexNS C zone r) (names : List Str) :
    rrsets.map (extend C zone names) = rrsets :=
  (map_congr_left fun r hr => if_neg (h r hr)).trans (map_id rrsets)

theorem merged_of_none (h : ∀ r ∈ rrsets, ¬ IsApexNS C zone r) :
    Merged C zone rrsets ns (rrsets, ns) := by
  refine ⟨.inr h, (map_extend_of_none h _).symm, ?_⟩
  rintro z rfl rfl rfl
  have hnone : ¬ ∃ r ∈ z.rrsets, IsApexNS C z.name r := fun ⟨r, hr, hapex⟩ => h r hr hapex
  rw [mergedNames, if_neg hnone, apexNames, PDNS.Server.newZone, filter_foldl_of_not h,
    filter_initialSets]
  split_ifs with hns
  · exact hns.symm
  · simp [Function.comp_def]

theorem merged_of_one {pre post : List PDNS.RRset} (hr : IsApexNS C zone r)
    (hpre : ∀ s ∈ pre, ¬ IsApexNS C zone s) (hpost : ∀ s ∈ post, ¬ IsApexNS C zone s) :
    Merged C zone (pre ++ r :: post) ns
      (pre ++ extend C zone (lacking C (r.records.map PDNS.Record.content) ns) r :: post, []) := by
  have hvalues : apexNames C zone (pre ++ r :: post) = r.records.map PDNS.Record.content := by
    have hfilter {l : List PDNS.RRset} (h : ∀ s ∈ l, ¬ IsApexNS C zone s) :
        l.filter (fun s => IsApexNS C zone s) = [] :=
      filter_eq_nil_iff.2 fun s hs => by simpa using h s hs
    simp [apexNames, hfilter hpre, hfilter hpost, hr]
  refine ⟨.inl rfl, ?_, ?_⟩
  · rw [hvalues, map_append, map_cons, map_extend_of_none hpre, map_extend_of_none hpost]
  · rintro z rfl hsets hns
    have hsoa : (PDNS.Server.initialSets z.name []).filter (fun s => IsApexNS C z.name s) = [] :=
      filter_initialSets []
    rw [mergedNames, if_pos ⟨r, by simp, hr⟩, hvalues, apexNames, PDNS.Server.newZone]
    dsimp only
    rw [hsets, hns, filter_foldl_of_apex (isApexNS_extend.2 hr) hpre hpost
      (by simpa using filter_eq_nil_iff.1 hsoa)]
    simp [PDNS.RRset.stored, extend, hr, Function.comp_def]

theorem merged (h : (rrsets.filter fun r => IsApexNS C zone r).length ≤ 1) :
    Merged C zone rrsets ns (mergeApexNS C zone rrsets ns) := by
  by_cases hsome : ∃ r ∈ rrsets, IsApexNS C zone r
  · obtain ⟨pre, r, post, rfl, hr, hpost, hmerge⟩ := mergeApexNS_of_apex ns hsome
    rw [hmerge]
    refine merged_of_one hr (fun s hs hapex => ?_) hpost
    -- a second such set before the last
    have hpos : 0 < (pre.filter fun r => IsApexNS C zone r).length :=
      length_pos_of_mem (List.mem_filter.2 ⟨hs, decide_eq_true hapex⟩)
    simp [hr] at h
    omega
  · have hnone : ∀ r ∈ rrsets, ¬ IsApexNS C zone r := fun r hr hapex => hsome ⟨r, hr, hapex⟩
    rw [mergeApexNS_of_none hnone]
    exact merged_of_none hnone

/-! ## What a creation asks -/

/-- The questions before a creation. -/
def looksUp : Op → Bool
  | .newID | .store (.getTemplate ..) | .store (.getZoneByName ..) | .store (.zoneConflict ..)
  | .pdns (.getZone _) => true
  | _ => false

section Asks
variable {D : Discipline Op Res} {past : Past} (hD : ∀ past o, looksUp o = true → D.allowed past o)
  (hsame : ∀ past o r r', ¬ D.same past o r r')
include hD hsame

theorem prepare_safe (subj : Subjects) (i : CreateInput) :
    Safe D (fun _ z => Validate.IsZone z.name) past (Impl.prepare C subj i) := by
  unfold Impl.prepare
  refine safe_check fun name hn => safe_ask_bind (hD _ _ rfl) (fun _ _ h => (hsame _ _ _ _ h).elim)
    fun _ id _ _ => ?_
  refine safe_check fun km _ => safe_check fun ns _ => safe_check fun _ _ =>
    safe_check fun o _ => ?_
  exact safe_pure (Validate.zoneName_spec (Except.mapError_eq_ok.1 hn))

theorem initialSets_safe (z : Store.Zone) (rrsets : List PDNS.RRset) :
    Safe D (fun _ _ => True) past (Impl.initialSets C z rrsets) := by
  unfold Impl.initialSets
  split_ifs
  · exact safe_pure trivial
  · exact safe_throw _
  · split
    · exact safe_throw _
    · refine Safe.bind (Q := fun _ _ => True) ?_ fun _ _ _ _ => safe_pure trivial
      refine safe_ask_catch (hD _ _ rfl) (fun _ _ h => (hsame _ _ _ _ h).elim) fun a _ => ?_
      cases a with
      | error e => exact safe_throw _
      | ok t => exact safe_ofExcept fun _ _ => trivial

theorem free_safe (T name : Str) : Safe D (fun _ _ => True) past (Impl.free T name) := by
  unfold Impl.free
  refine safe_ask_catch (hD _ _ rfl) (fun _ _ h => (hsame _ _ _ _ h).elim) fun a _ => ?_
  cases a with
  | ok z => exact safe_throw _
  | error e =>
    refine Safe.ite (fun _ => safe_throw _) fun _ => ?_
    refine safe_ask_bind (hD _ _ rfl) (fun _ _ h => (hsame _ _ _ _ h).elim) fun _ taken _ _ => ?_
    cases taken with
    | true => exact safe_throw _
    | false =>
      refine safe_ask_catch (hD _ _ rfl) (fun _ _ h => (hsame _ _ _ _ h).elim) fun a _ => ?_
      cases a with
      | ok z => exact safe_throw _
      | error e => exact Safe.ite (fun _ => safe_throw _) fun _ => safe_pure trivial

end Asks

/-- The request has name servers beside an NS set at the apex, which PowerDNS refuses. -/
def Mixed (z : PDNS.Zone) : Prop :=
  z.nameservers ≠ [] ∧ ∃ r ∈ z.rrsets, r.isAt z.name (str "NS") = true

def unmixed : Discipline Op Res where
  allowed _ o := ∀ z, o = .pdns (.createZone z) → ¬ Mixed z
  answer _ _ := True
  same _ _ _ _ := False

theorem not_mixed_merge (z : PDNS.Zone) (hsets : z.rrsets = (mergeApexNS C z.name rrsets ns).1)
    (hns : z.nameservers = (mergeApexNS C z.name rrsets ns).2) : ¬ Mixed z := by
  rintro ⟨hne, r, hr, hat⟩
  obtain ⟨hname, htype⟩ : r.name = z.name ∧ r.type = str "NS" := by
    simpa [PDNS.RRset.isAt] using hat
  rw [hsets] at hr
  refine (mergeApexNS_alone.resolve_left (hns ▸ hne)) r hr ⟨hname, ?_⟩
  rw [htype]
  exact rfl

theorem make_unmixed {past : Past} (z : Store.Zone) (rrsets : List PDNS.RRset) :
    Safe unmixed (fun _ _ => True) past (Impl.make C z rrsets) := by
  unfold Impl.make
  refine safe_ask_catch ?_ (fun _ _ h => h.elim) fun a _ => ?_
  · rintro pz ⟨⟩
    exact not_mixed_merge _ rfl rfl
  · cases a with
    | error e => exact Safe.ite (fun _ => safe_throw _) fun _ => safe_throw _
    | ok created =>
      unfold Impl.insert
      refine safe_ask_bind nofun (fun _ _ h => h.elim) fun _ now _ _ => ?_
      refine safe_ask_catch nofun (fun _ _ h => h.elim) fun a _ => ?_
      cases a with
      | ok _ => exact safe_pure trivial
      | error e =>
        refine safe_ask_catch nofun (fun _ _ h => h.elim) fun _ _ => ?_
        exact Safe.ite (fun _ => safe_throw _) fun _ => safe_throw _

theorem syncForward_unmixed {past : Past} (name : Str) :
    Safe unmixed (fun _ _ => True) past (syncForward C name) := by
  unfold syncForward
  split
  · exact safe_pure trivial
  · refine Safe.catch (Q := fun _ _ => True) ?_ (fun _ _ _ _ => safe_pure trivial) fun _ _ _ =>
      safe_pure trivial
    unfold Recursor.syncForward
    refine Safe.ite (fun _ => safe_pure trivial) fun _ => ?_
    split
    · exact safe_throw _
    · refine Safe.bind (Q := fun _ _ => True) ?_ fun _ _ _ _ => ?_
      · unfold Recursor.target
        split
        · exact safe_pure trivial
        · refine safe_ask_bind nofun (fun _ _ h => h.elim) fun _ addrs _ _ => ?_
          split
          · exact safe_pure trivial
          · split
            · exact safe_pure trivial
            · exact safe_throw _
      · refine safe_ask_catch nofun (fun _ _ h => h.elim) fun _ _ => ?_
        exact safe_ask nofun (fun _ _ h => h.elim) fun _ _ _ _ => trivial

theorem create_unmixed (subj : Subjects) (i : CreateInput) :
    Safe unmixed (fun _ _ => True) [] (create C subj i) := by
  have hD : ∀ past o, looksUp o = true → unmixed.allowed past o := by
    rintro _ _ ho z rfl
    cases ho
  unfold create Impl.create
  refine safe_check fun _ _ => Safe.bind (Q := fun _ _ => True) ?_ fun past z _ _ => ?_
  · refine (prepare_safe hD (fun _ _ _ _ => id) subj i).bind fun past z _ _ => ?_
    refine (initialSets_safe hD (fun _ _ _ _ => id) z i.rrsets).bind fun past rrsets _ _ => ?_
    exact (free_safe hD (fun _ _ _ _ => id) _ _).bind fun past _ _ _ => make_unmixed z rrsets
  · exact (syncForward_unmixed z.name).bind fun _ _ _ _ => safe_pure trivial

theorem create_asks {S : Type} (h : Handler Op Res S) (s : S) (subj : Subjects) (i : CreateInput) :
    ∀ e ∈ trace h (create C subj i).run s, ∀ z, e.1 = .pdns (.createZone z) → ¬ Mixed z := by
  intro e he
  obtain ⟨pre, post, hsplit⟩ := append_of_mem he
  obtain ⟨-, -, hallowed, -⟩ := Obeys.event (I := fun _ _ => True) (create_unmixed (C := C) subj i)
    (fun _ _ => trivial) (fun _ _ _ _ _ => trivial) trivial hsplit
  exact hallowed

/-- **Requested name servers join the NS set at the apex**: the set and the list are never both
    returned, the names of the new zone are the values of the set and the requested names that are
    none of them in any letter case, and no creation asks PowerDNS for both forms. -/
theorem mergeApexNS_merged (C : Config) (zone : Str) (rrsets : List PDNS.RRset) (ns : List Str)
    (hone : (rrsets.filter fun r => IsApexNS C zone r).length ≤ 1)
    (hns : ∀ n ∈ ns, Validate.hostname C.env n = .ok n) :
    let values := apexNames C zone rrsets
    Merged C zone rrsets ns (mergeApexNS C zone rrsets ns) ∧
      (∀ n ∈ ns, ∃ m ∈ mergedNames C zone rrsets ns, toLower C.env.cases m = n) ∧
      (lacking C values ns).Nodup ∧
      (∀ n ∈ lacking C values ns, n ∈ ns ∧ ∀ v ∈ values, toLower C.env.cases v ≠
        toLower C.env.cases n) ∧
      ∀ (S : Type) (h : Handler Op Res S) (s : S) (subj : Subjects) (i : CreateInput),
        ∀ e ∈ trace h (create C subj i).run s, ∀ z, e.1 = .pdns (.createZone z) → ¬ Mixed z := by
  have hlower : ∀ n ∈ ns, toLower C.env.cases n = n := fun n hn =>
    toLower_of_isLowerStr _ (Validate.hostname_spec (hns n hn)).1.lower
  refine ⟨merged hone, fun n hn => ?_, nodup_lacking, fun n hn => ?_,
    fun _ h s subj i => create_asks h s subj i⟩
  · unfold mergedNames
    split_ifs
    · by_cases hv : ∃ v ∈ apexNames C zone rrsets, toLower C.env.cases v = n
      · obtain ⟨v, hv, hlow⟩ := hv
        exact ⟨v, mem_append_left _ hv, hlow⟩
      · have hlack : n ∈ lacking C (apexNames C zone rrsets) ns :=
          mem_lacking.2 ⟨hn, fun v hmem hlow => hv ⟨v, hmem, hlow⟩⟩
        exact ⟨n, mem_append_right _ hlack, hlower n hn⟩
    · exact ⟨n, hn, hlower n hn⟩
  · obtain ⟨hmem, hne⟩ := mem_lacking.1 hn
    exact ⟨hmem, fun v hv => (hlower n hmem).symm ▸ hne v hv⟩

/-- One of two names is in the set already, in capitals. -/
theorem mergeApexNS_capitals :
    let set : PDNS.RRset := ⟨str "example.com.", str "NS", 60, .none,
      [⟨str "NS1.example.com.", false⟩], none⟩
    let ns := [str "ns1.example.com.", str "ns2.example.com."]
    apexNames Config.sample (str "example.com.") [set] ++
      lacking Config.sample [str "NS1.example.com."] ns =
        [str "NS1.example.com.", str "ns2.example.com."] ∧
      Merged Config.sample (str "example.com.") [set] ns
          (mergeApexNS Config.sample (str "example.com.") [set] ns) :=
  ⟨by decide +kernel, (mergeApexNS_merged _ _ _ _ (by decide +kernel) (by decide +kernel)).1⟩

end TangraDns.Zones
