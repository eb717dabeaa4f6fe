/-
  What an accepted record set looks like (`Validate.RecordSet`).
-/
import TangraDns.Proof.Names
import TangraDns.Text.Utf8
import TangraDns.Validate.RecordSet

namespace TangraDns.Validate

open Str

variable {E : Env} {l : Limits} {z : Str} {i : RecordSetInput} {existing : List PDNS.RRset}
  {rr : PDNS.RRset}

/-! ## Types -/

theorem editableTypes_upper : ∀ t ∈ editableTypes, IsUpperStr t := by decide

theorem toUpper_editable {t : Str} (ht : t ∈ editableTypes) :
    toUpper E.cases (trimSpace t) = t := by
  have hprint : ∀ t ∈ editableTypes, ∀ b ∈ t, 0x21 ≤ b ∧ b ≤ 0x7e := by simp [editableTypes, str]
  rw [trimSpace_of_printable (hprint t ht), toUpper_of_isUpperStr _ (editableTypes_upper t ht)]

theorem mem_editableTypes {s : Str} (h : editable E (toUpper E.cases s) = true) :
    toUpper E.cases s ∈ editableTypes := by
  have hmem : toUpper E.cases (toUpper E.cases s) ∈ editableTypes := by
    simpa [editable] using h
  have hup := isUpperStr_toUpper E.cases (editableTypes_upper _ hmem).isASCII
  rwa [toUpper_of_isUpperStr E.cases hup] at hmem

theorem editableType_spec {s t : Str} (h : editableType E s = .ok t) :
    t = toUpper E.cases (trimSpace s) ∧ t ∈ editableTypes := by
  unfold editableType at h
  dsimp only at h
  split_ifs at h with h1 h2
  cases h
  exact ⟨rfl, mem_editableTypes (by simpa using h2)⟩

/-! ## Values -/

theorem forall₂_mem_right {α β : Type} {R : α → β → Prop} {as : List α} {bs : List β}
    (h : List.Forall₂ R as bs)
    {b : β} (hb : b ∈ bs) : ∃ a ∈ as, R a b := by
  induction h with
  | nil => cases hb
  | cons h _ ih =>
    rcases List.mem_cons.1 hb with rfl | hb
    · exact ⟨_, List.mem_cons_self .., h⟩
    · obtain ⟨a, ha, hab⟩ := ih hb
      exact ⟨a, List.mem_cons_of_mem _ ha, hab⟩

def Canon (E : Env) (t z : Str) (v : RecordValue) (r : PDNS.Record) : Prop :=
  content E t z v.content = .ok r.content ∧ r.disabled = v.disabled

theorem canon_concat {t : Str} {vs : List RecordValue} {v : RecordValue}
    {records : List PDNS.Record}
    (h : List.Forall₂ (Canon E t z) (vs ++ [v]) records) :
    ∃ rs r, records = rs ++ [r] ∧ List.Forall₂ (Canon E t z) vs rs ∧ Canon E t z v r := by
  induction vs generalizing records with
  | nil =>
    obtain ⟨r, rs, hr, hrs, rfl⟩ := List.forall₂_cons_left_iff.1 h
    cases hrs
    exact ⟨[], r, rfl, .nil, hr⟩
  | cons v' vs ih =>
    obtain ⟨r', records, hr', hrest, rfl⟩ := List.forall₂_cons_left_iff.1 h
    obtain ⟨rs, r, rfl, hrs, hr⟩ := ih hrest
    exact ⟨r' :: rs, r, rfl, .cons hr' hrs, hr⟩

theorem valuesLoop_eq_ok {t : Str} {n : ℕ} {out records : List PDNS.Record} {vs : List RecordValue}
    (hout : (out.map PDNS.Record.content).Nodup) : valuesLoop E t z n out vs = .ok records ↔
      ∃ rs, records = out ++ rs ∧ List.Forall₂ (Canon E t z) vs rs ∧
        (records.map PDNS.Record.content).Nodup := by
  induction vs generalizing n out with
  | nil =>
    rw [valuesLoop, Except.ok.injEq]
    constructor
    · rintro rfl
      exact ⟨[], (List.append_nil _).symm, .nil, hout⟩
    · rintro ⟨rs, rfl, hrs, -⟩
      cases hrs
      exact (List.append_nil _).symm
  | cons v vs ih =>
    have hnodup {c : Str} (hc : c ∉ out.map PDNS.Record.content) :
        ((out ++ [(⟨c, v.disabled⟩ : PDNS.Record)]).map PDNS.Record.content).Nodup := by
      rw [List.map_append, List.nodup_append_comm]
      simpa using ⟨by simpa using hc, hout⟩
    rw [valuesLoop]
    constructor
    · intro h
      split at h
      · cases h
      next c hc =>
        split_ifs at h with hmem
        obtain ⟨rs, rfl, hrs, hnd⟩ := (ih (hnodup hmem)).1 h
        exact ⟨⟨c, v.disabled⟩ :: rs, by simp, .cons ⟨hc, rfl⟩ hrs, hnd⟩
    · rintro ⟨rs, rfl, hrs, hnd⟩
      cases hrs with
      | @cons _ r _ rs hv hrs =>
        obtain ⟨c, disabled⟩ := r
        obtain ⟨hc, rfl⟩ : content E t z v.content = .ok c ∧ disabled = v.disabled := hv
        have hmem : c ∉ out.map PDNS.Record.content := by
          rw [List.map_append, List.nodup_append] at hnd
          exact fun hm => hnd.2.2 c hm c (by simp) rfl
        rw [hc]
        dsimp only
        rw [if_neg hmem, ih (hnodup hmem)]
        exact ⟨rs, by simp, hrs, hnd⟩

/-! ## Sets -/

structure Valid (E : Env) (l : Limits) (z : Str) (i : RecordSetInput) (existing : List PDNS.RRset)
    (t n : Str) : Prop where
  type : editableType E i.type = .ok t
  name : recordName E z i.name = .ok n
  ttl : l.minTTL ≤ i.ttl ∧ i.ttl ≤ l.maxTTL
  count : i.values ≠ [] ∧ i.values.length ≤ l.maxValues
  comment : i.comment.length ≤ maxComment ∧ hasControl i.comment = false
  cname : t = str "CNAME" → n ≠ z ∧ i.values.length ≤ 1
  exclusive : ∀ e ∈ existing, exclusive E n t e = .ok ()

def written (i : RecordSetInput) (name t : Str) (records : List PDNS.Record) : PDNS.RRset :=
  ⟨name, t, (i.ttl % 4294967296).toNat, .replace, records, some (commentList i.comment)⟩

/-- **What is accepted:** valid input with distinct canonical values, which become the set. -/
theorem recordSet_eq_ok : l.recordSet E z i existing = .ok rr ↔
    ∃ z' t name records, canonicalZone E z = .ok z' ∧ Valid E l z' i existing t name ∧
      List.Forall₂ (Canon E t z') i.values records ∧ (records.map PDNS.Record.content).Nodup ∧
      rr = written i name t records := by
  have hloop {z' t : Str} {records : List PDNS.Record} :
      valuesLoop E t z' 0 [] i.values = .ok records ↔
      List.Forall₂ (Canon E t z') i.values records ∧ (records.map PDNS.Record.content).Nodup := by
    rw [valuesLoop_eq_ok (by simp)]
    simp
  constructor
  · intro h
    obtain ⟨z', hz', h⟩ := Except.bind_eq_ok.1 h
    obtain ⟨t, ht, h⟩ := Except.bind_eq_ok.1 h
    obtain ⟨name, hn, h⟩ := Except.bind_eq_ok.1 h
    split_ifs at h with h1 h2 h3 h4 h5
    obtain ⟨⟨⟩, hex, h⟩ := Except.bind_eq_ok.1 h
    obtain ⟨records, hrec, h⟩ := Except.bind_eq_ok.1 h
    cases h
    obtain ⟨hcanon, hnd⟩ := hloop.1 (Except.mapError_eq_ok.1 hrec)
    refine ⟨z', t, name, records, Except.mapError_eq_ok.1 hz', ⟨Except.mapError_eq_ok.1 ht,
      Except.mapError_eq_ok.1 hn, ?_, ?_, ?_, fun hc => ?_,
      Except.forM_eq_ok.1 (Except.mapError_eq_ok.1 hex)⟩, hcanon, hnd, rfl⟩
    · exact ⟨not_lt.1 fun h => h1 (.inl h), not_lt.1 fun h => h1 (.inr h)⟩
    · exact ⟨fun h => h2 (.inl h), not_lt.1 fun h => h2 (.inr h)⟩
    · simpa [Bool.or_eq_true, not_or] using h3
    · exact ⟨fun h => h4 ⟨hc, h⟩, not_lt.1 fun h => h5 ⟨hc, h⟩⟩
  · rintro ⟨z', t, name, records, hz', hv, hcanon, hnd, rfl⟩
    have hcomment : (decide (maxComment < i.comment.length) || hasControl i.comment) = false := by
      simpa using hv.comment
    rw [Limits.recordSet, hz', hv.type]
    simp only [Except.mapError, bind, Except.bind, hv.name]
    rw [if_neg (not_or.2 ⟨not_lt.2 hv.ttl.1, not_lt.2 hv.ttl.2⟩),
      if_neg (not_or.2 ⟨hv.count.1, not_lt.2 hv.count.2⟩), hcomment, if_neg (by simp),
      if_neg (fun h : _ ∧ _ => (hv.cname h.1).1 h.2),
        if_neg (fun h : _ ∧ _ => not_lt.2 (hv.cname h.1).2 h.2),
      Except.forM_eq_ok.2 hv.exclusive]
    simp only [hloop.2 ⟨hcanon, hnd⟩]
    rfl

structure Accepted (E : Env) (z : Str) (existing : List PDNS.RRset) (rr : PDNS.RRset) : Prop where
  owner : IsOwner z rr.name
  type : rr.type ∈ editableTypes
  replace : rr.changeType = .replace
  nonempty : rr.records ≠ []
  distinct : (rr.records.map PDNS.Record.content).Nodup
  cname : rr.type = str "CNAME" → rr.name ≠ z ∧ rr.records.length = 1
  exclusive : ∀ e ∈ existing, exclusive E rr.name rr.type e = .ok ()

theorem recordSet_accepted (hz : IsZone z) (h : l.recordSet E z i existing = .ok rr) :
    Accepted E z existing rr := by
  obtain ⟨z', t, name, records, hz', hv, hcanon, hnd, rfl⟩ := recordSet_eq_ok.1 h
  rw [canonicalZone_of_isZone hz] at hz'
  cases hz'
  have hlen : i.values.length = records.length := hcanon.length_eq
  have hpos : 0 < i.values.length := List.length_pos_iff.2 hv.count.1
  refine ⟨recordName_spec hz hv.name, (editableType_spec hv.type).2, rfl, ?_, hnd, fun hc => ?_,
    hv.exclusive⟩
  · exact List.length_pos_iff.1 (hlen ▸ hpos)
  · obtain ⟨hne, hle⟩ := hv.cname hc
    exact ⟨hne, by dsimp only [written]; omega⟩

theorem recordSet_comments (h : l.recordSet E z i existing = .ok rr) : rr.comments.isSome := by
  obtain ⟨_, -, h⟩ := Except.bind_eq_ok.1 h
  obtain ⟨_, -, h⟩ := Except.bind_eq_ok.1 h
  obtain ⟨_, -, h⟩ := Except.bind_eq_ok.1 h
  split_ifs at h
  obtain ⟨⟨⟩, -, h⟩ := Except.bind_eq_ok.1 h
  obtain ⟨_, -, h⟩ := Except.bind_eq_ok.1 h
  cases h
  rfl

end TangraDns.Validate
