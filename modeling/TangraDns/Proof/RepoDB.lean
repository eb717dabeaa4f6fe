/-
  The database answers as the store in memory does.
-/
import TangraDns.Proof.Planning
import TangraDns.RepoDB
import TangraDns.Text.Search

namespace TangraDns.RepoDB

open List Str Validate Sync

variable {U : CaseTables} {s t : Str}

/-! ## Texts -/

theorem text_ascii (h : isASCII s = true) : text s = s.map UInt8.toNat := runes_ascii h

theorem map_toNat_injective : Function.Injective (List.map UInt8.toNat) :=
  map_injective_iff.2 fun _ _ h => UInt8.toNat_inj.1 h

theorem suffix_map_toNat : s.map UInt8.toNat <:+ t.map UInt8.toNat ↔ s <:+ t := by
  rw [suffix_iff_eq_drop, suffix_iff_eq_drop, length_map, length_map, ← map_drop,
    map_toNat_injective.eq_iff]

theorem lower_text (s : Str) : lower U (text s) = text (toLower U s) := (runes_toLower U s).symm

/-! ## Overlaps -/

theorem overlaps_iff {name : Str} (hs : isASCII s = true)
    (hname : isASCII (toLower U name) = true) :
    (text s = lower U (text name) ∨ Sql.right (lower U (text name)) ((text s).length + 1) = 46 ::
      text s ∨
      Sql.right (text s) ((text name).length + 1) = 46 :: lower U (text name)) ↔
        Store.Overlaps (toLower U name) s := by
  have hlen : (text name).length = (lower U (text name)).length := by simp [lower]
  rw [hlen, lower_text, text_ascii hs, text_ascii hname, Sql.right_eq_iff (by simp),
    Sql.right_eq_iff (by simp),
    map_toNat_injective.eq_iff]
  have hdot (u : Str) : 46 :: u.map UInt8.toNat = (dot :: u).map UInt8.toNat := rfl
  rw [hdot, hdot, suffix_map_toNat, suffix_map_toNat, eq_comm]
  rfl

theorem overlaps_iff_holds {n z : Str} (hn : Canonical n) (hz : Canonical z) :
    Store.Overlaps n z ↔ Holds n z ∨ Holds z n := by
  rw [← inZone_iff_holds hn hz, ← inZone_iff_holds hz hn]
  unfold Store.Overlaps Store.InZone
  rw [eq_comm (a := z)]
  tauto

/-- **The overlap question** about a name in any letter case: the function of the schema, the
    database's answer and the answer in memory are the same, and true just if the labels of another
    tenant's zone are the last labels of the lower-case name, or the other way round. -/
theorem dnsZoneConflict_spec (U : CaseTables) (S : Store) (T name : Str)
    (hzones : ∀ z ∈ S.zones, Canonical z.name)
    (hname : Canonical (toLower U name)) :
    dnsZoneConflict U S.zones.rows (text name) T = S.zoneConflict U T name ∧
      zoneConflict U S.zones.rows T name = S.zoneConflict U T name ∧
      (S.zoneConflict U T name = true ↔ ∃ z ∈ S.zones, z.tenantID ≠ T ∧
        (labelsOf z.name <:+ labelsOf (toLower U name) ∨ labelsOf (toLower U name) <:+
          labelsOf z.name)) := by
  have hsql (n : Str) (hn : Canonical (toLower U n)) :
      dnsZoneConflict U S.zones.rows (text n) T = S.zoneConflict U T n := by
    rw [Bool.eq_iff_iff]
    simp only [dnsZoneConflict, Store.zoneConflict, any_eq_true, Bool.and_eq_true, Bool.or_eq_true,
      decide_eq_true_eq, bne_iff_ne, or_assoc]
    refine exists_congr fun z => and_congr_right fun hz => and_congr_right fun _ => ?_
    exact overlaps_iff (hzones z hz).lower.isASCII hn.lower.isASCII
  refine ⟨hsql name hname, ?_, ?_⟩
  · have htwice : toLower U (toLower U name) = toLower U name := toLower_toLower U name
    have hmem : S.zoneConflict U T (toLower U name) = S.zoneConflict U T name := by
      simp only [Store.zoneConflict, htwice]
    rw [zoneConflict, hsql _ (by rwa [htwice]), hmem]
  · simp only [Store.zoneConflict, any_eq_true, Bool.and_eq_true, decide_eq_true_eq, bne_iff_ne]
    exact exists_congr fun z => and_congr_right fun hz => and_congr_right fun _ =>
      overlaps_iff_holds hname (hzones z hz)

/-- A subdomain of another tenant's zone, in capital letters. -/
theorem dnsZoneConflict_subdomain :
    (∀ z ∈ Records.sampleWorld.store.zones, Canonical z.name) ∧
    Canonical (toLower .ascii (str "WWW.Example.com.")) ∧
      dnsZoneConflict .ascii Records.sampleWorld.store.zones.rows (text (str "WWW.Example.com."))
        (str "t2") =
        Records.sampleWorld.store.zoneConflict .ascii (str "t2") (str "WWW.Example.com.") := by
  have hzones : ∀ z ∈ Records.sampleWorld.store.zones, Canonical z.name := by
    intro z hz
    rw [mem_singleton.1 hz]
    exact (zoneName_spec (E := .sample) (s := str "example.com") (by decide +kernel)).1
  have hname : Canonical (toLower .ascii (str "WWW.Example.com.")) :=
    (zoneName_spec (E := .sample) (s := str "www.example.com") (by decide +kernel)).1
  exact ⟨hzones, hname, (dnsZoneConflict_spec .ascii Records.sampleWorld.store (str "t2")
    _ hzones hname).1⟩

/-! ## Listing -/

/-- The bytes are those of their characters. -/
def WellFormed (s : Str) : Prop := (runes s).flatMap encodeRune = s

theorem validRune_validRune (r : ℕ) : validRune (validRune r) = validRune r := by
  unfold validRune
  split_ifs <;> rfl

theorem flatMap_escape (rs : List ℕ) : (rs.flatMap encodeRune).flatMap (fun b =>
    if b = 0x5C then [0x5C, 0x5C] else if b = 0x25 then [0x5C, 0x25]
      else if b = 0x5F then [0x5C, 0x5F] else [b]) =
      (Sql.escape wildcards rs).flatMap encodeRune := by
  rw [flatMap_assoc, Sql.escape, flatMap_assoc]
  refine flatMap_congr fun r _ => ?_
  rcases lt_or_ge r 0x80 with hr | hr
  · have hbyte (b : UInt8) (hb : r ≠ b.toNat) : UInt8.ofNat r ≠ b := by
      rintro rfl
      simp at hb
      omega
    by_cases hb : r = 0x5C
    · subst hb
      rfl
    by_cases hp : r = 0x25
    · subst hp
      rfl
    by_cases hu : r = 0x5F
    · subst hu
      rfl
    have hone : encodeRune r = [UInt8.ofNat r] := if_pos hr
    have hplain : ¬ (r = wildcards.escape ∨ r = wildcards.many ∨ r = wildcards.one) := fun h =>
      h.elim hb fun h => h.elim hp hu
    rw [if_neg hplain, flatMap_singleton, hone, flatMap_singleton, if_neg (hbyte 0x5C hb),
      if_neg (hbyte 0x25 hp), if_neg (hbyte 0x5F hu)]
  · -- no byte of a longer character is special
    have hbytes := le_of_mem_encodeRune hr
    have hplain : ¬ (r = 0x5C ∨ r = 0x25 ∨ r = 0x5F) := by omega
    rw [if_neg (show ¬ (r = wildcards.escape ∨ r = wildcards.many ∨ r = wildcards.one) from hplain),
      flatMap_singleton]
    refine (flatMap_congr fun b hb => ?_).trans (flatMap_singleton' _)
    have := hbytes b hb
    rw [if_neg (by grind), if_neg (by grind), if_neg (by grind)]

def queryText (U : CaseTables) (q : Str) : List ℕ := (runes (trimSpace q)).map fun r =>
    validRune (U.toLower r)

theorem toLower_query (q : Str) : toLower U (trimSpace q) = (queryText U q).flatMap encodeRune := by
  rw [toLower_eq, queryText, flatMap_map]
  exact flatMap_congr fun r _ => (encodeRune_validRune _).symm

theorem queryText_valid {q : Str} : ∀ r ∈ queryText U q, validRune r = r := by
  intro r hr
  obtain ⟨x, -, rfl⟩ := List.mem_map.1 hr
  exact validRune_validRune _

theorem text_likePattern (q : Str) :
    text (likePattern U q) = wildcards.many ::
      (Sql.escape wildcards (queryText U q) ++ [wildcards.many]) := by
  have hbytes : likePattern U q =
      (wildcards.many :: (Sql.escape wildcards (queryText U q) ++ [wildcards.many])).flatMap
        encodeRune := by
    rw [likePattern, toLower_query, flatMap_escape, flatMap_cons, flatMap_append, append_assoc]
    rfl
  rw [hbytes, text, runes_flatMap_encodeRune]
  refine (map_congr_left fun r hr => ?_).trans (map_id _)
  simp only [mem_cons, mem_append, not_mem_nil, or_false, Sql.escape, mem_flatMap] at hr
  rcases hr with rfl | ⟨x, hx, hr⟩ | rfl
  · rfl
  · have hvalid := queryText_valid x hx
    split_ifs at hr
    · rcases mem_cons.1 hr with rfl | hr
      · rfl
      · rw [mem_singleton.1 hr]
        exact hvalid
    · rw [mem_singleton.1 hr]
      exact hvalid
  · rfl

theorem toLower_eq_nil : toLower U s = [] ↔ s = [] := by
  constructor
  · intro h
    rw [toLower_eq, flatMap_eq_nil_iff] at h
    have hrunes : runes s = [] := by
      by_contra hne
      obtain ⟨r, rs, hr⟩ := exists_cons_of_ne_nil hne
      exact encodeRune_ne_nil _ (h r (by simp [hr]))
    rw [← bytes_segments s, map_eq_nil_iff.1 hrunes]
    rfl
  · rintro rfl
    rfl

theorem like_likePattern {name : Str} (h : WellFormed name) (q : Str) :
    Sql.like wildcards (text name) (text (likePattern U q)) =
      some (decide (Str.Contains name (toLower U (trimSpace q)))) := by
  have hrunes : (runes name).map validRune = runes name := by
    rw [← runes_flatMap_encodeRune, show (runes name).flatMap encodeRune = name from h]
  have hquery : (queryText U q).map validRune = queryText U q :=
    (map_congr_left queryText_valid).trans (map_id _)
  have hiff : Str.Contains name (toLower U (trimSpace q)) ↔ queryText U q <:+: text name := by
    rw [Str.Contains, toLower_query]
    conv_lhs => rw [← show (runes name).flatMap encodeRune = name from h]
    rw [infix_encoded_iff, hrunes, hquery]
    rfl
  rw [text_likePattern, Sql.like_contains (by decide), decide_eq_decide.2 hiff]

theorem matches_iff (f : Store.ZoneFilter) (z : Store.Zone) :
    f.Matches U z = true ↔ (f.kind = [] ∨ z.kind.text = f.kind) ∧
    (f.origin = [] ∨ z.origin.text = f.origin) ∧
      (trimSpace f.query = [] ∨ Str.Contains z.name (toLower U (trimSpace f.query))) := by
  have hquery : toLower U (trimSpace f.query) = [] ↔ trimSpace f.query = [] := toLower_eq_nil
  unfold Store.ZoneFilter.Matches
  split_ifs with hkind horigin
  · simp only [false_iff]
    rintro ⟨hk, -⟩
    exact hk.elim hkind.1 hkind.2
  · simp only [false_iff]
    rintro ⟨-, ho, -⟩
    exact ho.elim horigin.1 horigin.2
  · rw [and_iff_right (or_iff_not_and_not.2 hkind), and_iff_right (or_iff_not_and_not.2 horigin),
      ← hquery]
    simp

/-- **The filter of the list** selects the zones of the tenant that pass the filter, with the
    lower-case query as a literal part of the name; a query of white space selects as no query
    does. -/
theorem selects_spec (U : CaseTables) (T : Str) (f : Store.ZoneFilter) (z : Store.Zone)
    (hz : WellFormed z.name) :
    selects U T f z = some (decide (z.tenantID = T) && f.Matches U z) ∧
      (f.Matches U z = true ↔ (f.kind = [] ∨ z.kind.text = f.kind) ∧
        (f.origin = [] ∨ z.origin.text = f.origin) ∧
        (trimSpace f.query = [] ∨ Str.Contains z.name (toLower U (trimSpace f.query)))) := by
  refine ⟨?_, matches_iff f z⟩
  have hmatches := matches_iff (U := U) f z
  have hne : likePattern U f.query ≠ [] := by simp [likePattern, str]
  unfold selects
  by_cases hq : trimSpace f.query = []
  · simp only [hq, true_or, and_true] at hmatches
    simp only [hq, ne_eq, not_true_eq_false, if_false]
    rw [show Sql.like wildcards (text z.name) (text []) = some (text z.name).isEmpty from rfl,
      Option.map_some,
      Option.some_inj, Bool.eq_iff_iff]
    simp only [Bool.and_eq_true, Bool.or_eq_true, decide_eq_true_eq, hmatches, true_or,
      and_true, and_assoc]
  · simp only [hq, false_or] at hmatches
    simp only [ne_eq, hq, not_false_eq_true, if_true]
    rw [like_likePattern hz, Option.map_some, Option.some_inj, Bool.eq_iff_iff]
    simp only [Bool.and_eq_true, Bool.or_eq_true, decide_eq_true_eq, hmatches, hne,
      false_or, and_assoc]

/-- A query with wild cards in it. -/
theorem selects_literal : WellFormed Records.sampleZone.name ∧
    selects .ascii Records.sampleZone.tenantID ⟨str " E_%", [], []⟩ Records.sampleZone =
      some (decide (Records.sampleZone.tenantID = Records.sampleZone.tenantID) &&
        Store.ZoneFilter.Matches .ascii ⟨str " E_%", [], []⟩ Records.sampleZone) := by
  have hname : WellFormed Records.sampleZone.name := by
    unfold WellFormed
    decide +kernel
  exact ⟨hname, (selects_spec .ascii Records.sampleZone.tenantID ⟨str " E_%", [], []⟩
    Records.sampleZone hname).1⟩

end TangraDns.RepoDB
