/-
  What `sanitize` leaves of a message (`sanitize_spec`): neither the key, nor a
  control character, nor the beginning of the key at the end of the text.
-/
import TangraDns.Client

namespace TangraDns.Client

open Str

/-- A key as the operator may set it: printable ASCII without white space or square brackets, and
    not part of the word that stands for it. -/
structure IsKey (key : Str) : Prop where
  ne_nil : key ≠ []
  printable : ∀ b ∈ key, 0x21 ≤ b ∧ b ≤ 0x7e
  no_open : 91 ∉ key
  no_close : 93 ∉ key
  not_redacted : ¬ Contains (str "redacted") key

/-- No ASCII control character. -/
def NoControl (msg : Str) : Prop := ∀ b ∈ msg, 0x20 ≤ b ∧ b ≠ 0x7f

variable {key msg : Str}

namespace IsKey

variable (hkey : IsKey key)
include hkey

theorem no_space : 32 ∉ key := fun h => absurd (hkey.printable 32 h).1 (by decide)

theorem ascii : ∀ b ∈ key, b < 0x80 := fun b hb => by
  have := (hkey.printable b hb).2
  rw [UInt8.le_iff_toNat_le] at this
  rw [UInt8.lt_iff_toNat_lt]
  simp at this ⊢
  omega

theorem contains_append (h : ¬ Contains msg key) : ¬ Contains (msg ++ redacted) key := by
  intro hc
  have hform : msg ++ redacted = msg ++ 91 :: (str "redacted" ++ 93 :: []) := by
    simp [redacted, str]
  rw [Contains, hform] at hc
  rcases infix_append_cons hkey.no_open hc with hc | hc
  · exact h hc
  rcases infix_append_cons hkey.no_close hc with hc | hc
  · exact hkey.not_redacted hc
  · exact hkey.ne_nil (List.infix_nil.1 hc)

theorem contains_mapRunes (h : ¬ Contains msg key) : ¬ Contains (mapRunes blank msg) key := by
  refine fun hc => h (infix_of_mapRunes hkey.ne_nil hkey.ascii (fun r _ => ?_) hc)
  unfold blank
  split_ifs with hr
  · exact .inr hkey.no_space
  · exact .inl rfl

theorem contains_cut (msg : Str) (n : ℕ) :
    ¬ Contains ((join 32 (fields (mapRunes blank (replaceAll msg key redacted)))).take n) key := by
  intro h
  have hreplaced : ¬ Contains (replaceAll msg key redacted) key :=
    not_contains_replaceAll hkey.ne_nil hkey.no_open hkey.no_close hkey.not_redacted msg
  have hjoined := List.IsInfix.trans h (List.take_prefix n _).isInfix
  exact hkey.contains_mapRunes hreplaced (infix_of_collapse hkey.ne_nil hkey.no_space hjoined)

theorem not_suffix_redacted {n : ℕ} (hn : 0 < n) : ¬ HasSuffix (msg ++ redacted) (key.take n) := by
  rintro ⟨t, ht⟩
  have hlast : (key.take n).getLast? = some 93 := by
    have hne : key.take n ≠ [] := by simp [hn.ne', hkey.ne_nil]
    have h := congrArg List.getLast? ht
    rw [List.getLast?_append_of_ne_nil _ hne,
      List.getLast?_append_of_ne_nil _ (by simp [redacted, str])] at h
    exact h
  exact hkey.no_close (List.mem_of_mem_take (List.mem_of_getLast? hlast))

end IsKey

theorem redactPartial_cases (key msg : Str) (m : ℕ) :
    redactPartial key msg m = msg ∧ (∀ n, 4 ≤ n → n ≤ m → ¬ HasSuffix msg (key.take n)) ∨
      ∃ t, t <+: msg ∧ redactPartial key msg m = t ++ redacted := by
  induction m with
  | zero => exact .inl ⟨rfl, fun n h4 hn => by omega⟩
  | succ m ih =>
    rw [redactPartial]
    split_ifs with h4 hsuffix
    · exact .inl ⟨rfl, fun n hn hle => by omega⟩
    · refine .inr ⟨_, ?_, rfl⟩
      rw [trimSuffix, if_pos hsuffix]
      exact List.take_prefix ..
    · rcases ih with ⟨heq, hnone⟩ | hcut
      · refine .inl ⟨heq, fun n hn hle => ?_⟩
        rcases Nat.lt_or_ge m n with hlt | hge
        · rwa [show n = m + 1 by omega]
        · exact hnone n hn hge
      · exact .inr hcut

theorem noControl_mapRunes (msg : Str) : NoControl (mapRunes blank msg) := by
  intro b hb
  obtain ⟨r, -, hb⟩ := List.mem_flatMap.1 hb
  by_cases hr : blank r < 0x80
  · rw [encodeRune, if_pos hr, List.mem_singleton] at hb
    have hblank : 0x20 ≤ blank r ∧ blank r ≠ 0x7f := by
      unfold blank
      split_ifs <;> omega
    have hn : b.toNat = blank r := by rw [hb]; simp; omega
    constructor
    · rw [UInt8.le_iff_toNat_le, hn]
      exact hblank.1
    · rintro rfl
      exact hblank.2 hn.symm
  · have hhigh := le_of_mem_encodeRune (not_lt.1 hr) b hb
    constructor
    · exact UInt8.le_trans (by decide) hhigh
    · rintro rfl
      exact absurd hhigh (by decide)

theorem noControl_cut (msg : Str) (n : ℕ) :
    NoControl ((join 32 (fields (mapRunes blank msg))).take n) := by
  intro b hb
  rcases mem_of_mem_collapse (List.mem_of_mem_take hb) with rfl | h
  · decide
  · exact noControl_mapRunes msg b h

theorem noControl_redacted : NoControl redacted := by simp [NoControl, redacted, str]

theorem sanitize_eq (hne : key ≠ []) (msg : Str) :
    sanitize msg key = redactPartial key
      ((join 32 (fields (mapRunes blank (replaceAll msg key redacted)))).take maxErrorMessage)
      (key.length - 1) := by
  simp only [sanitize, if_pos hne]
  split_ifs with hlen
  · rfl
  · rw [List.take_of_length_le (not_lt.1 hlen)]

/-- **A sanitised message does not show the key.**  Whatever the message: the key does not occur in
    the result, nor a control character, and the result does not end in a proper prefix of the key
    of four or more bytes. -/
theorem sanitize_spec (msg key : Str) (hkey : IsKey key) :
    ¬ Contains (sanitize msg key) key ∧ NoControl (sanitize msg key) ∧
      ∀ n, 4 ≤ n → n < key.length → ¬ HasSuffix (sanitize msg key) (key.take n) := by
  rw [sanitize_eq hkey.ne_nil]
  set cut := (join 32 (fields (mapRunes blank (replaceAll msg key redacted)))).take maxErrorMessage
  have habsent : ¬ Contains cut key := hkey.contains_cut msg maxErrorMessage
  have hcontrol : NoControl cut := noControl_cut _ _
  rcases redactPartial_cases key cut (key.length - 1) with ⟨heq, hnone⟩ | ⟨t, ht, heq⟩
  · rw [heq]
    exact ⟨habsent, hcontrol, fun n hn hlt => hnone n hn (by omega)⟩
  · rw [heq]
    refine ⟨hkey.contains_append fun h => habsent (List.IsInfix.trans h ht.isInfix), fun b hb => ?_,
      fun n hn _ => hkey.not_suffix_redacted (by omega)⟩
    rcases List.mem_append.1 hb with hb | hb
    · exact hcontrol b (ht.subset hb)
    · exact noControl_redacted b hb

/-- A key that overlaps itself, in a message with control characters and with the beginning of the
    key at its end. -/
theorem sanitize_overlap :
    ∃ msg, msg = str "x\tababababc abab\x00abc ababa" ∧ IsKey (str "ababac") ∧
      ¬ Contains (sanitize msg (str "ababac")) (str "ababac") ∧
      ¬ HasSuffix (sanitize msg (str "ababac")) (str "ababa") := by
  have hkey : IsKey (str "ababac") :=
    ⟨by simp [str], by simp [str], by simp [str], by simp [str], by decide⟩
  have h := sanitize_spec (str "x\tababababc abab\x00abc ababa") (str "ababac") hkey
  exact ⟨_, rfl, hkey, h.1, h.2.2 5 (by decide) (by decide)⟩

end TangraDns.Client
