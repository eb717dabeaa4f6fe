/-
  Edits of record data.
-/
import TangraDns.Proof.RecordSet
import TangraDns.RecordData
import Mathlib.Data.List.Find

namespace TangraDns.Records

open List Str Validate PDNS

variable {E : Env} {zone : Str} {sets sets' : List RRset} {rr : RRset}
variable {C : Config} {n t : Str}

/-! ## Edits -/

def without (sets : List RRset) (name type : Str) : List RRset := sets.filter fun s =>
    !s.isAt name type

/-- What a call does to the sets of a zone: it writes an accepted set, it does so in place of
    another one, or it deletes a set of an editable type. -/
inductive Edit (E : Env) (zone : Str) (sets : List RRset) : List RRset → Prop
  | write (rr : RRset) (h : Accepted E zone sets rr) : Edit E zone sets (applyChange sets rr)
  | move (rr : RRset) (name type : Str) (ht : type ∈ editableTypes)
      (h : Accepted E zone (without sets name type) rr) :
      Edit E zone sets (applyChange (without sets name type) rr)
  | delete (name type : Str) (ht : type ∈ editableTypes) : Edit E zone sets (without sets name type)

theorem WellFormed.sublist (h : WellFormed zone sets) (hs : sets'.Sublist sets) :
    WellFormed zone sets' :=
  ⟨fun r hr => h.lower r (hs.subset hr), fun r hr => h.upper r (hs.subset hr),
    fun r hr => h.inside r (hs.subset hr), h.unique.sublist hs,
    fun r hr hc s hs' => h.alone r (hs.subset hr) hc s (hs.subset hs'),
    fun r hr => h.apex r (hs.subset hr), fun r hr => h.single r (hs.subset hr)⟩

theorem applyChange_accepted (sets : List RRset) {z : Str} {existing : List RRset}
    (h : Accepted E z existing rr) :
    ∃ r : RRset, applyChange sets rr = without sets rr.name rr.type ++ [r] ∧ r.name = rr.name ∧
      r.type = rr.type ∧ r.records = rr.records := by
  unfold applyChange
  rw [if_pos ⟨h.replace, h.nonempty⟩]
  exact ⟨_, rfl, rfl, rfl, rfl⟩

theorem WellFormed.write (hw : WellFormed zone sets) (h : Accepted E zone sets rr) :
    WellFormed zone (applyChange sets rr) := by
  obtain ⟨r, hr, hn, ht, hrec⟩ := applyChange_accepted sets h
  have hsub : (without sets rr.name rr.type).Sublist sets := filter_sublist
  have hw' := hw.sublist hsub
  have hup : IsUpperStr rr.type := editableTypes_upper _ h.type
  have hcn : IsUpperStr (str "CNAME") := by decide
  have hmem : ∀ s, s ∈ applyChange sets rr → s ∈ without sets rr.name rr.type ∨ s = r := by
    intro s hs
    rwa [hr, mem_append, mem_singleton] at hs
  -- beside the new set there is no other one of its name, if one of them is a CNAME
  have hexc : ∀ s ∈ without sets rr.name rr.type, s.name = rr.name →
      (rr.type = str "CNAME" → s.type = str "CNAME") ∧
      (s.type = str "CNAME" → rr.type = str "CNAME") := by
    intro s hs hsn
    have hx := h.exclusive s (hsub.subset hs)
    have hsu := hw.upper s (hsub.subset hs)
    unfold exclusive at hx
    split_ifs at hx with h1 h2 h3
    · rcases h1 with h1 | h1
      · exact absurd (by rw [hsn]; rfl) h1
      · rw [(equalFold_iff_of_upper E.cases hsu hup).1 h1]
        exact ⟨id, id⟩
    · refine ⟨fun hc => absurd hc h2, fun hc => absurd ?_ h3⟩
      rw [hc]
      rfl
  refine ⟨fun s hs => ?_, fun s hs => ?_, fun s hs => ?_, ?_, fun s hs hc t hmt hnt => ?_,
    fun s hs hc => ?_,
    fun s hs hc => ?_⟩
  · rcases hmem s hs with hs | rfl
    exacts [hw'.lower s hs, hn ▸ h.owner.canonical.lower]
  · rcases hmem s hs with hs | rfl
    exacts [hw'.upper s hs, ht ▸ hup]
  · rcases hmem s hs with hs | rfl
    exacts [hw'.inside s hs, hn ▸ h.owner.inside]
  · rw [hr]
    refine pairwise_append.2 ⟨hw'.unique, pairwise_singleton _ _, fun s hs t hmt => ?_⟩
    rw [mem_singleton.1 hmt, hn, ht]
    have := (List.mem_filter.1 hs).2
    simp only [RRset.isAt, Bool.not_eq_true', Bool.and_eq_false_iff, beq_eq_false_iff_ne] at this
    exact not_and_or.2 this
  · rcases hmem s hs with hs | rfl <;> rcases hmem t hmt with hmt | rfl
    · exact hw'.alone s hs hc t hmt hnt
    · rw [hn] at hnt
      rw [ht]
      exact (hexc s hs hnt.symm).2 hc
    · rw [hn] at hnt
      exact (hexc t hmt hnt).1 (ht ▸ hc)
    · exact hc
  · rcases hmem s hs with hs | rfl
    · exact hw'.apex s hs hc
    · rw [hn]
      exact (h.cname (ht ▸ hc)).1
  · rcases hmem s hs with hs | rfl
    · exact hw'.single s hs hc
    · rw [hrec]
      exact (h.cname (ht ▸ hc)).2

/-- **Edits keep record data well formed.** -/
theorem Edit.wellFormed (he : Edit E zone sets sets') (h : WellFormed zone sets) :
    WellFormed zone sets' := by
  cases he with
  | write rr ha => exact h.write ha
  | move rr name type _ ha => exact (h.sublist filter_sublist).write ha
  | delete name type _ => exact h.sublist filter_sublist

theorem Edit.mem (he : Edit E zone sets sets') {r : RRset} (hr : r ∈ sets') :
    r ∈ sets ∨ (r.records.map Record.content).Nodup := by
  have hsub (n t : Str) : (without sets n t).Sublist sets := filter_sublist
  have happ {l : List RRset} {rr : RRset} (ha : Accepted E zone l rr) (hr : r ∈ applyChange l rr) :
      r ∈ l ∨ (r.records.map Record.content).Nodup := by
    obtain ⟨r', hr', -, -, hrec⟩ := applyChange_accepted l ha
    rw [hr', mem_append, mem_singleton] at hr
    rcases hr with hr | rfl
    · exact .inl (mem_of_mem_filter hr)
    · exact .inr (hrec ▸ ha.distinct)
  cases he with
  | write rr ha => exact happ ha hr
  | move rr name type _ ha => exact (happ ha hr).imp_left fun h => (hsub _ _).subset h
  | delete name type _ => exact .inl ((hsub _ _).subset hr)

def soa (sets : List RRset) : List RRset := sets.filter fun r => r.type == str "SOA"

theorem soa_without {name type : Str} (ht : type ∈ editableTypes) :
    soa (without sets name type) = soa sets := by
  rw [soa, without, List.filter_filter]
  refine filter_congr fun r _ => ?_
  by_cases hr : r.type = str "SOA"
  · have hne : r.type ≠ type := by
      rw [hr]
      rintro rfl
      exact absurd ht (by decide)
    simp [RRset.isAt, hne]
  · simp [hr]

theorem soa_applyChange (h : Accepted E zone sets rr) {sets₀ : List RRset} :
    soa (applyChange sets₀ rr) = soa sets₀ := by
  obtain ⟨r, hr, -, ht, -⟩ := applyChange_accepted sets₀ h
  have hne : r.type ≠ str "SOA" := by
    rw [ht]
    intro hc
    exact absurd (hc ▸ h.type) (by decide)
  rw [hr, soa, filter_append, filter_cons_of_neg (by simpa using hne), filter_nil,
    append_nil]
  exact soa_without h.type

theorem Edit.soa (he : Edit E zone sets sets') : Records.soa sets' = Records.soa sets := by
  cases he with
  | write rr ha => exact soa_applyChange ha
  | move rr name type ht ha => exact (soa_applyChange ha).trans (soa_without ht)
  | delete name type ht => exact soa_without ht

/-! ## Patches -/

theorem WellFormed.caseNormal (h : WellFormed zone sets) : CaseNormal sets :=
  fun r hr => ⟨h.lower r hr, h.upper r hr⟩

theorem matches_iff (h : CaseNormal sets) {r : RRset} (hr : r ∈ sets)
    (hn : IsLowerStr n) (ht : IsUpperStr t) : Matches C r n t ↔ r.isAt n t = true := by
  simp only [Matches, RRset.isAt, Bool.and_eq_true, beq_iff_eq,
    equalFold_iff_of_lower C.env.cases (h r hr).1 hn,
      equalFold_iff_of_upper C.env.cases (h r hr).2 ht]

theorem filter_matches (h : CaseNormal sets) (hn : IsLowerStr n)
    (ht : IsUpperStr t) : sets.filter (fun r => !decide (Matches C r n t)) = without sets n t := by
  refine filter_congr fun r hr => ?_
  exact congrArg not (Bool.eq_iff_iff.2 (decide_eq_true_iff.trans (matches_iff h hr hn ht)))

theorem find_iff (h : CaseNormal sets) (hn : IsLowerStr n) (ht : IsUpperStr t) :
    find C sets n t = true ↔ ∃ r ∈ sets, r.isAt n t = true := by
  simp only [find, any_eq_true, decide_eq_true_eq]
  exact exists_congr fun r => and_congr_right fun hr => matches_iff h hr hn ht

theorem without_eq_self (h : ∀ r ∈ sets, r.isAt n t = false) : without sets n t = sets :=
  filter_eq_self.2 fun r hr => by rw [h r hr]; rfl

theorem applyChange_delete (n t : Str) :
    applyChange sets ⟨n, t, 0, .delete, [], none⟩ = without sets n t := by
  rw [applyChange, if_neg fun h => h.2 rfl]
  rfl

theorem applyChange_without (hc : rr.comments.isSome) :
    applyChange (without sets rr.name rr.type) rr = applyChange sets rr := by
  have hnone : rr.comments ≠ none := fun h => by simp [h] at hc
  have hw : (without sets rr.name rr.type).filter (fun s => !s.isAt rr.name rr.type) =
      sets.filter fun s => !s.isAt rr.name rr.type := by
    rw [without, List.filter_filter]
    simp only [Bool.and_self]
  simp only [applyChange, hw, if_neg hnone]

theorem applyChange_move (hc : rr.comments.isSome) (hne : rr.isAt n t = false) :
    without (applyChange sets rr) n t = applyChange (without sets n t) rr := by
  have hnone : rr.comments ≠ none := fun h => by simp [h] at hc
  have hcomm : without (sets.filter fun s => !s.isAt rr.name rr.type) n t =
      (without sets n t).filter fun s => !s.isAt rr.name rr.type := by
    simp only [without, List.filter_filter, Bool.and_comm]
  simp only [applyChange, if_neg hnone]
  split_ifs with h1
  · rw [without, filter_append, filter_cons_of_pos, filter_nil]
    · exact congrArg (· ++ _) hcomm
    · exact (congrArg not hne).trans rfl
  · exact hcomm

/-! ## Sets after a change -/

section Exact

variable {C : Config} {n t : Str} {r : RRset}

/-- The sets that match the name and type have exactly them. -/
def Exact (C : Config) (sets : List RRset) (n t : Str) : Prop :=
  ∀ r ∈ sets, Matches C r n t → r.isAt n t = true

theorem CaseNormal.exact (h : CaseNormal sets) (hn : IsLowerStr n) (ht : IsUpperStr t) :
    Exact C sets n t :=
  fun _ hr hm => (matches_iff h hr hn ht).1 hm

theorem not_matches_without (h : Exact C sets n t) : ∀ r ∈ without sets n t, ¬ Matches C r n t := by
  intro r hr hm
  obtain ⟨hr, hne⟩ := List.mem_filter.1 hr
  rw [h r hr hm] at hne
  cases hne

theorem setAt_without (h : Exact C sets n t) : setAt C (without sets n t) n t = none := by
  rw [setAt, find?_eq_none]
  exact fun r hr hm => not_matches_without h r hr (of_decide_eq_true hm)

theorem setAt_without_of_ne {n' t' : Str} (h : CaseNormal sets) (hn : IsLowerStr n')
    (ht : IsUpperStr t')
    (hne : ¬ (n' = n ∧ t' = t)) : setAt C (without sets n t) n' t' = setAt C sets n' t' := by
  rw [setAt, without, find?_filter]
  refine find?_congr fun r hr => ?_
  rw [decide_eq_decide, decide_eq_true_eq, and_iff_right_iff_imp]
  intro hm
  have hat : r.name = n' ∧ r.type = t' := by simpa [RRset.isAt] using (matches_iff h hr hn ht).1 hm
  rw [Bool.not_eq_true', RRset.isAt, Bool.and_eq_false_iff, beq_eq_false_iff_ne,
    beq_eq_false_iff_ne, hat.1, hat.2]
  exact not_and_or.1 hne

theorem setAt_append :
    setAt C (sets ++ [r]) n t = (setAt C sets n t).or
      (if Matches C r n t then some r else none) := by
  rw [setAt, find?_append, find?_singleton]
  simp only [decide_eq_true_eq]
  rfl

theorem applyChange_eq (hc : rr.changeType = .replace) (hne : rr.records ≠ [])
    (hcom : rr.comments ≠ none) :
    applyChange sets rr = without sets rr.name rr.type ++ [rr.stored] := by
  rw [applyChange, if_pos ⟨hc, hne⟩, if_neg hcom]
  rfl

theorem setAt_applyChange (h : Exact C sets rr.name rr.type) (hc : rr.changeType = .replace)
    (hne : rr.records ≠ [])
    (hcom : rr.comments ≠ none) : setAt C (applyChange sets rr) rr.name
      rr.type = some rr.stored := by
  rw [applyChange_eq hc hne hcom, setAt_append, setAt_without h, Option.none_or, if_pos ⟨rfl, rfl⟩]

theorem setAt_applyChange_of_ne {n' t' : Str} (h : CaseNormal sets) (hn : IsLowerStr n')
    (ht : IsUpperStr t')
    (hrr : IsLowerStr rr.name ∧ IsUpperStr rr.type) (hc : rr.changeType = .replace)
    (hne : rr.records ≠ [])
    (hcom : rr.comments ≠ none) (hat : ¬ (n' = rr.name ∧ t' = rr.type)) :
    setAt C (applyChange sets rr) n' t' = setAt C sets n' t' := by
  rw [applyChange_eq hc hne hcom, setAt_append, setAt_without_of_ne h hn ht hat, if_neg,
    Option.or_none]
  rintro ⟨hname, htype⟩
  exact hat ⟨((equalFold_iff_of_lower C.env.cases hrr.1 hn).1 hname).symm,
    ((equalFold_iff_of_upper C.env.cases hrr.2 ht).1 htype).symm⟩

theorem CaseNormal.without (h : CaseNormal sets) : CaseNormal (without sets n t) :=
  fun r hr => h r (mem_of_mem_filter hr)

theorem CaseNormal.replace (h : CaseNormal sets) (hrr : IsLowerStr rr.name ∧ IsUpperStr rr.type)
    (hc : rr.changeType = .replace) (hne : rr.records ≠ []) (hcom : rr.comments ≠ none) :
    CaseNormal (applyChange sets rr) := by
  rw [applyChange_eq hc hne hcom]
  intro r hr
  rcases mem_append.1 hr with hr | hr
  · exact h.without r hr
  · rw [mem_singleton.1 hr]
    exact hrr

end Exact

end TangraDns.Records
