/-
  What the scan of record values accepts (`Validate.scan`): closed strings, and
  plain bytes outside them.  A text that is quoted by `txtQuoter` is one string.
-/
import TangraDns.Validate.Content

namespace TangraDns.Validate

open List Str

variable {v : Str}

/-- A byte that may stand outside quoted strings: ASCII, and none with a meaning in a zone file. -/
def PlainByte (b : UInt8) : Prop := b ∉ str ";()\\@$" ∧ b < 0x80

instance (b : UInt8) : Decidable (PlainByte b) := inferInstanceAs (Decidable (_ ∧ _))

theorem mem_special {b : UInt8} : b ∈ str "\";()\\@$" ↔ b = 34 ∨ b ∈ str ";()\\@$" := mem_cons

/-! ## The scan of a quoted type -/

theorem scanLoop_body {q : Str} (h : Body q) (s : Str) :
    scanLoop true true false (q ++ 34 :: s) = scanLoop true false false s := by
  induction h with
  | nil =>
    rw [nil_append, scanLoop]
    rfl
  | plain hq he _ ih =>
    rw [cons_append, scanLoop, if_neg (by simp), if_neg he, if_neg hq]
    exact ih
  | escaped _ ih =>
    rw [cons_append, cons_append, scanLoop, if_neg (by simp), if_pos rfl, scanLoop, if_pos rfl]
    exact ih

theorem scanLoop_of_quoting (h : Quoting PlainByte v) : scanLoop true false false v = .ok () := by
  induction h with
  | nil => rfl
  | outside hq hb _ ih =>
    have hspecial : ¬ _ ∈ str "\";()\\@$" := fun hm => (mem_special.1 hm).elim hq hb.1
    rw [scanLoop, if_neg (fun h : _ ∧ _ => hq h.1), if_neg hspecial, if_neg (UInt8.not_le.2 hb.2)]
    exact ih
  | quoted hq _ ih =>
    rw [scanLoop, if_pos ⟨rfl, rfl⟩, scanLoop_body hq]
    exact ih

theorem quoting_of_scanLoop (v : Str) :
    (scanLoop true false false v = .ok () → Quoting PlainByte v) ∧
      (scanLoop true true false v = .ok () → ∃ q s, Body q ∧ Quoting PlainByte s ∧
        v = q ++ 34 :: s) ∧
      (scanLoop true true true v = .ok () →
        ∃ b q s, Body q ∧ Quoting PlainByte s ∧ v = b :: (q ++ 34 :: s)) := by
  induction v with
  | nil =>
    refine ⟨fun _ => .nil, ?_, ?_⟩ <;>
    · intro h
      cases h
  | cons b v ih =>
    obtain ⟨hout, hin, hesc⟩ := ih
    refine ⟨fun h => ?_, fun h => ?_, fun h => ?_⟩
    · rw [scanLoop] at h
      split_ifs at h with h34 hspecial hascii
      · obtain ⟨q, s, hq, hs, rfl⟩ := hin h
        rw [h34.1]
        exact .quoted hq hs
      · obtain ⟨hne, hplain⟩ := not_or.1 fun hm => hspecial (mem_special.2 hm)
        exact .outside hne ⟨hplain, UInt8.not_le.1 hascii⟩ (hout h)
    · rw [scanLoop, if_neg (by simp)] at h
      split_ifs at h with h92 h34
      · obtain ⟨c, q, s, hq, hs, rfl⟩ := hesc h
        exact ⟨92 :: c :: q, s, .escaped hq, hs, by rw [h92]; rfl⟩
      · exact ⟨[], v, .nil, hout h, by rw [h34]; rfl⟩
      · obtain ⟨q, s, hq, hs, rfl⟩ := hin h
        exact ⟨b :: q, s, .plain h34 h92 hq, hs, rfl⟩
    · rw [scanLoop, if_pos rfl] at h
      obtain ⟨q, s, hq, hs, rfl⟩ := hin h
      exact ⟨b, q, s, hq, hs, rfl⟩

theorem scanLoop_true_iff : scanLoop true false false v = .ok () ↔ Quoting PlainByte v :=
  ⟨(quoting_of_scanLoop v).1, scanLoop_of_quoting⟩

/-! ## The scan of another type -/

theorem scanLoop_false_iff :
    scanLoop false false false v = .ok () ↔ 34 ∉ v ∧ ∀ b ∈ v, PlainByte b := by
  induction v with
  | nil => exact ⟨fun _ => ⟨not_mem_nil, fun b hb => absurd hb not_mem_nil⟩, fun _ => rfl⟩
  | cons b v ih =>
    rw [scanLoop, if_neg (by simp), mem_cons, not_or, forall_mem_cons]
    constructor
    · intro h
      split_ifs at h with hspecial hascii
      obtain ⟨hne, hplain⟩ := not_or.1 fun hm => hspecial (mem_special.2 hm)
      obtain ⟨hq, hall⟩ := ih.1 h
      exact ⟨⟨Ne.symm hne, hq⟩, ⟨hplain, UInt8.not_le.1 hascii⟩, hall⟩
    · rintro ⟨⟨hne, hq⟩, hb, hall⟩
      have hspecial : ¬ b ∈ str "\";()\\@$" := fun hm => (mem_special.1 hm).elim (Ne.symm hne) hb.1
      rw [if_neg hspecial, if_neg (UInt8.not_le.2 hb.2)]
      exact ih.2 ⟨hq, hall⟩

theorem scan_eq_ok {quoted : Bool} :
    scan v quoted = .ok () ↔ hasControl v = false ∧ scanLoop quoted false false v = .ok () := by
  unfold scan
  split_ifs with h
  · simp [h]
  · simp [h]

/-! ## Quoting -/

theorem txtQuoter_spec (v : Str) : Body (txtQuoter v) ∧ unescape (txtQuoter v) = v := by
  induction v with
  | nil => exact ⟨.nil, rfl⟩
  | cons b v ih =>
    obtain ⟨hbody, hback⟩ := ih
    rw [txtQuoter, flatMap_cons]
    split_ifs with h92 h34
    · refine ⟨.escaped hbody, ?_⟩
      rw [h92]
      exact (unescape_escaped ..).trans (congrArg _ hback)
    · refine ⟨.escaped hbody, ?_⟩
      rw [h34]
      exact (unescape_escaped ..).trans (congrArg _ hback)
    · exact ⟨.plain h34 h92 hbody, (unescape_plain h92 _).trans (congrArg _ hback)⟩

theorem hasControl_txtQuoter (h : hasControl v = false) : hasControl (txtQuoter v) = false := by
  rw [hasControl, any_eq_false] at h ⊢
  intro c hc
  obtain ⟨b, hb, hc⟩ := mem_flatMap.1 hc
  have hcontrol : ∀ c ∈ [(92 : UInt8), 34], ¬ (decide (c < 0x20) || c == 0x7f) = true := by simp
  split_ifs at hc with h92 h34
  · exact hcontrol c (mem_cons.2 (.inl (by simpa using hc)))
  · exact hcontrol c (by simpa using hc)
  · rw [mem_singleton.1 hc]
    exact h b hb

/-- **What the scan accepts,** for the types with strings and for the others; and text that is put
    between quotes by `txtQuoter` is one string, which says that text. -/
theorem scan_grammar (E : Env) (v : Str) :
    (scan v true = .ok () ↔ hasControl v = false ∧ Quoting PlainByte v) ∧
      (scan v false = .ok () ↔ (hasControl v = false ∧ Quoting PlainByte v) ∧ 34 ∉ v) ∧
      (hasControl v = false → ¬ HasPrefix v [34] → ∀ t, t = str "TXT" ∨ t = str "SPF" →
        ∃ q, prepare E t v = 34 :: (q ++ [34]) ∧ scan (34 :: (q ++ [34])) (quotedType t) = .ok () ∧
          Body q ∧ unescape q = v) := by
  refine ⟨?_, ?_, fun hctl hpre t ht => ?_⟩
  · rw [scan_eq_ok, scanLoop_true_iff]
  · rw [scan_eq_ok, scanLoop_false_iff, and_assoc]
    refine and_congr_right fun _ => ⟨fun ⟨hq, hall⟩ => ⟨quoting_of_forall hq hall, hq⟩, ?_⟩
    rintro ⟨hquoting, hq⟩
    exact ⟨hq, hquoting.forall_of_not_mem hq⟩
  · obtain ⟨hbody, hback⟩ := txtQuoter_spec v
    have hquoted : quotedType t = true := by
      rcases ht with rfl | rfl <;> rfl
    refine ⟨txtQuoter v, ?_, ?_, hbody, hback⟩
    · rw [prepare, if_pos ht, if_neg hpre]
      rfl
    · rw [hquoted, scan_eq_ok, scanLoop_true_iff]
      refine ⟨?_, .quoted hbody .nil⟩
      have hctl' := hasControl_txtQuoter hctl
      rw [hasControl, any_eq_false] at hctl' ⊢
      intro b hb
      rcases mem_cons.1 hb with rfl | hb
      · decide
      · rcases mem_append.1 hb with hb | hb
        · exact hctl' b hb
        · rw [mem_singleton.1 hb]
          decide

/-- A text with a quote and a backslash. -/
theorem scan_grammar_sample :
    hasControl (str "a\"b\\c") = false ∧ ¬ HasPrefix (str "a\"b\\c") [34] ∧
      ∃ q, prepare .sample (str "TXT") (str "a\"b\\c") = 34 :: (q ++ [34]) ∧
        scan (34 :: (q ++ [34])) (quotedType (str "TXT")) = .ok () ∧ Body q ∧
        unescape q = str "a\"b\\c" := by
  have hctl : hasControl (str "a\"b\\c") = false := by decide +kernel
  have hpre : ¬ HasPrefix (str "a\"b\\c") [34] := by decide +kernel
  exact ⟨hctl, hpre, (scan_grammar .sample (str "a\"b\\c")).2.2 hctl hpre _ (.inl rfl)⟩

end TangraDns.Validate
