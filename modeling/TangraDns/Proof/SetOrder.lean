/-
  The order of record sets (`Records.setTie`).
-/
import TangraDns.Data.Separated
import TangraDns.Records
import TangraDns.Text.Search
import TangraDns.Text.Trim

namespace TangraDns.Records

open Str

variable {C : Config} {r r' : RecordSet}

/-! ## Orders -/

/-- Byte by byte, a text before those that go on. -/
def compareBytes : Str → Str → Ordering := List.compareLex compare

theorem eq_of_compareBytes {s t : Str} (h : compareBytes s t = .eq) : s = t :=
  Std.LawfulEqCmp.eq_of_compare (show List.compareLex compare s t = .eq from h)

theorem compareBytes_self (s : Str) : compareBytes s s = .eq :=
  show List.compareLex compare s s = .eq from Std.ReflCmp.compare_self

def plainName (C : Config) (name : Str) : Str := trimSuffix (toLower C.env.cases name) [dot]

def rootLabels (C : Config) (name : Str) : List Str := (Str.split dot (plainName C name)).reverse

/-- DNS canonical order: label by label from the root, a name before its descendants. -/
def compareNames (C : Config) (n n' : Str) : Ordering :=
  List.compareLex compareBytes (rootLabels C n) (rootLabels C n')

def compareTypes (t t' : Str) : Ordering :=
  if t = str "SOA" then if t' = str "SOA" then .eq else .lt
  else if t' = str "SOA" then .gt
  else compareBytes t t'

/-- The labels of the name have no byte below 2; nor are the dots between them such bytes. -/
def Separable (name : Str) : Prop := ∀ b ∈ name, 2 ≤ b

/-! ## Names -/

theorem le_lowerByte {b : UInt8} (h : 2 ≤ b) : 2 ≤ lowerByte b := by
  unfold lowerByte
  split <;> grind [isUpper]

theorem le_of_mem_toLower {U : CaseTables} {s : Str} (h : ∀ b ∈ s, 2 ≤ b) :
    ∀ b ∈ toLower U s, 2 ≤ b := by
  intro b hb
  rw [toLower_eq] at hb
  obtain ⟨r, hr, hb⟩ := List.mem_flatMap.1 hb
  rcases lt_or_ge (U.toLower r) 0x80 with hlow | hhigh
  · rw [encodeRune, if_pos hlow, List.mem_singleton] at hb
    subst hb
    rcases lt_or_ge r 0x80 with hr' | hr'
    · have hmem := mem_of_mem_runes hr hr'
      have hbyte : r = (UInt8.ofNat r).toNat := by simp; omega
      rw [hbyte, toLower_byte U (by rw [UInt8.lt_iff_toNat_lt, ← hbyte]; exact hr'),
        UInt8.ofNat_toNat]
      exact le_lowerByte (h _ hmem)
    · rcases U.toLower_into r hr' hlow with ⟨-, h⟩ | ⟨-, h⟩ <;> rw [h] <;> decide
  · have := le_of_mem_encodeRune hhigh b hb
    grind

theorem rootLabels_below {name : Str} (h : Separable name) {a : UInt8} (ha : a < 2) :
    ∀ l ∈ rootLabels C name, List.Below compare a l := by
  intro l hl b hb
  have hmem : b ∈ toLower C.env.cases name := by
    have hplain : b ∈ plainName C name := mem_of_mem_split (List.mem_reverse.1 hl) hb
    unfold plainName trimSuffix at hplain
    split_ifs at hplain
    · exact List.mem_of_mem_take hplain
    · exact hplain
  have hlt : a < b := by
    have := le_of_mem_toLower h b hmem
    grind
  exact ⟨Std.compare_eq_lt.2 hlt, Std.compare_eq_gt.2 hlt⟩

theorem rootLabels_ne_nil (name : Str) : rootLabels C name ≠ [] := by
  simpa [rootLabels] using split_ne_nil dot (plainName C name)

theorem plainName_eq_of_rootLabels {n n' : Str} (h : rootLabels C n = rootLabels C n') :
    plainName C n = plainName C n' := by
  rw [← join_split dot (plainName C n), ← join_split dot (plainName C n'), List.reverse_inj.1 h]

/-! ## Types -/

theorem compareBytes_typeRank {t t' : Str} (h : t ≠ [] ∨ t' ≠ str "SOA")
    (h' : t ≠ str "SOA" ∨ t' ≠ []) :
    compareBytes (typeRank t) (typeRank t') = compareTypes t t' := by
  unfold typeRank compareTypes
  split_ifs with hs hs' hs'
  · rfl
  · obtain ⟨b, u, hu⟩ := List.exists_cons_of_ne_nil (h'.resolve_left (not_not.2 hs))
    rw [hu]
    rfl
  · obtain ⟨b, u, hu⟩ := List.exists_cons_of_ne_nil (h.resolve_right (not_not.2 hs'))
    rw [hu]
    rfl
  · rfl

theorem eq_of_compareTypes {t t' : Str} (h : compareTypes t t' = .eq) : t = t' := by
  unfold compareTypes at h
  split_ifs at h with hs hs' hs'
  · rw [hs, hs']
  · exact eq_of_compareBytes h

/-! ## Sets -/

/-- **Ties compare as name and type do**, unless one of the types is empty and the other is SOA; and
    sets with the same tie have the same type, and the same lower-case name up to a final dot. -/
theorem compare_setTie (C : Config) (r r' : RecordSet) (hr : Separable r.name)
    (hr' : Separable r'.name)
    (h : r.type ≠ [] ∨ r'.type ≠ str "SOA") (h' : r.type ≠ str "SOA" ∨ r'.type ≠ []) :
    compareBytes (setTie C r) (setTie C r') = (compareNames C r.name r'.name).then
      (compareTypes r.type r'.type) ∧
      (setTie C r = setTie C r' → plainName C r.name = plainName C r'.name ∧ r.type = r'.type) := by
  have hlabels {a : UInt8} (ha : a < 2) :
      ∀ l ∈ rootLabels C r.name ++ rootLabels C r'.name, List.Below compare a l := by
    intro l hl
    rcases List.mem_append.1 hl with hl | hl
    exacts [rootLabels_below hr ha l hl, rootLabels_below hr' ha l hl]
  have hsep : List.Below compare (0 : UInt8) [1] := by
    simp only [List.Below, List.mem_singleton, forall_eq]
    decide
  have hcompare : compareBytes (setTie C r) (setTie C r') =
      (compareNames C r.name r'.name).then (compareTypes r.type r'.type) := by
    rw [← compareBytes_typeRank h h']
    exact List.compareLex_intercalate (rootLabels_ne_nil _) (rootLabels_ne_nil _)
      (hlabels (by decide))
      (hlabels (by decide)) hsep (fun _ => Std.ReflCmp.compare_self) _ _
  refine ⟨hcompare, fun heq => ?_⟩
  rw [heq, compareBytes_self] at hcompare
  obtain ⟨hnames, htypes⟩ := Ordering.then_eq_eq.1 hcompare.symm
  have hlists : List.compareLex (List.compareLex compare) (rootLabels C r.name)
      (rootLabels C r'.name) = .eq := hnames
  exact ⟨plainName_eq_of_rootLabels (Std.LawfulEqCmp.eq_of_compare hlists),
    eq_of_compareTypes htypes⟩

/-- A name and a descendant of it. -/
theorem compare_setTie_descendant :
    Separable (str "Example.test.") ∧ Separable (str "a.example.test.") ∧
      compareBytes (setTie .sample ⟨str "Example.test.", str "TXT", 60, [], [], false⟩)
        (setTie .sample ⟨str "a.example.test.", str "SOA", 60, [], [], false⟩) =
      (compareNames .sample (str "Example.test.") (str "a.example.test.")).then
          (compareTypes (str "TXT") (str "SOA")) := by
  have hn : Separable (str "Example.test.") := by simp [Separable, str]
  have hn' : Separable (str "a.example.test.") := by simp [Separable, str]
  exact ⟨hn, hn', (compare_setTie .sample ⟨str "Example.test.", str "TXT", 60, [], [], false⟩
    ⟨str "a.example.test.", str "SOA", 60, [], [], false⟩ hn hn' (.inl (by simp [str]))
      (.inl (by simp [str]))).1⟩

/-- A set without a type has the tie of the SOA set, and a final dot makes no difference. -/
theorem setTie_untyped :
    let untyped : RecordSet := ⟨str "example.test.", [], 60, [], [], true⟩
    let soa : RecordSet := ⟨str "example.test.", str "SOA", 60, [], [], true⟩
    let undotted : RecordSet := ⟨str "example.test", str "SOA", 60, [], [], true⟩
    (Separable (str "example.test.") ∧ Separable (str "example.test")) ∧
      (setTie .sample untyped = setTie .sample soa ∧ compareTypes untyped.type soa.type = .gt) ∧
      setTie .sample undotted = setTie .sample soa ∧
      toLower Config.sample.env.cases undotted.name ≠ toLower Config.sample.env.cases soa.name := by
  refine ⟨by simp [Separable, str], ?_⟩
  decide +kernel

end TangraDns.Records
