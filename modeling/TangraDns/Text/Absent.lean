/-
  Where a word can occur in a rewritten text: a word without the separators of the
  text lies within one of its parts, so replacing, mapping runes and collapsing white
  space bring no word back that was not there.
-/
import TangraDns.Text.Search
import TangraDns.Text.Trim

namespace Str

open List

variable {w s t : Str} {b : UInt8}

/-! ## Separators -/

theorem infix_append_cons (hb : b ∉ w) (h : w <:+: s ++ b :: t) : w <:+: s ∨ w <:+: t := by
  obtain ⟨p, q, h⟩ := h
  rw [append_assoc] at h
  rcases append_eq_append_iff.1 h with ⟨u, rfl, hu⟩ | ⟨u, rfl, hu⟩
  · -- the word begins before the byte, so it ends there
    rcases append_eq_append_iff.1 hu with ⟨v, rfl, -⟩ | ⟨v, rfl, hv⟩
    · exact .inl ⟨p, v, by simp⟩
    · cases v with
      | nil => exact .inl ⟨p, [], by simp⟩
      | cons c v =>
        rw [cons_append, List.cons.injEq] at hv
        exact absurd (by simp [hv.1]) hb
  · cases u with
    | nil =>
      cases w with
      | nil => exact .inr nil_infix
      | cons c w =>
        simp only [nil_append, cons_append, List.cons.injEq] at hu
        exact absurd (by simp [hu.1]) hb
    | cons c u =>
      rw [cons_append, List.cons.injEq] at hu
      exact .inr ⟨u, q, by rw [hu.2, append_assoc]⟩

theorem infix_of_disjoint (hw : w ≠ []) (hs : ∀ b ∈ s, b ∉ w) (h : w <:+: s ++ t) : w <:+: t := by
  induction s with
  | nil => exact h
  | cons b s ih =>
    rcases infix_append_cons (s := []) (hs b (by simp)) h with h | h
    · exact absurd (infix_nil.1 h) hw
    · exact ih (fun c hc => hs c (by simp [hc])) h

theorem infix_of_join {ls : List Str} (hw : w ≠ []) (hb : b ∉ w) (h : w <:+: join b ls) :
    ∃ l ∈ ls, w <:+: l := by
  induction ls with
  | nil => exact absurd (infix_nil.1 h) hw
  | cons l ls ih =>
    cases ls with
    | nil => exact ⟨l, by simp, by rwa [join_singleton] at h⟩
    | cons l' ls =>
      rw [join_cons_cons] at h
      rcases infix_append_cons hb h with h | h
      · exact ⟨l, by simp, h⟩
      · obtain ⟨x, hx, h⟩ := ih h
        exact ⟨x, mem_cons_of_mem _ hx, h⟩

/-! ## Replacing -/

theorem prefix_of_replaceFrom {old new : Str} (hb : b ∉ w)
    (h : w <+: replaceFrom old (b :: new) 0 s) : w <+: s := by
  induction s generalizing w with
  | nil => exact h
  | cons c s ih =>
    cases w with
    | nil => exact nil_prefix
    | cons d w =>
      rw [replaceFrom] at h
      split_ifs at h with hold
      · exact absurd (by simp [(cons_prefix_cons.1 h).1]) hb
      · obtain ⟨rfl, hrest⟩ := cons_prefix_cons.1 h
        exact (prefix_cons_inj _).2 (ih (fun hd => hb (mem_cons_of_mem _ hd)) hrest)

/-- A word is gone once it was replaced by a text between two bytes it does not have, unless it
    occurs in that text. -/
theorem not_contains_replaceAll {c : UInt8} (hw : w ≠ []) (hb : b ∉ w) (hc : c ∉ w)
    (hnew : ¬ Contains t w) (s : Str) :
    ¬ Contains (replaceAll s w (b :: t ++ [c])) w := by
  suffices h : ∀ skip, ¬ w <:+: replaceFrom w (b :: t ++ [c]) skip s from h 0
  induction s with
  | nil =>
    intro skip h
    cases skip <;> exact hw (infix_nil.1 h)
  | cons d s ih =>
    rintro (_ | skip) h
    · rw [replaceFrom] at h
      split_ifs at h with hold
      · rw [cons_append, cons_append, append_assoc] at h
        rcases infix_append_cons (s := []) hb h with h | h
        · exact hw (infix_nil.1 h)
        · rcases infix_append_cons hc h with h | h
          · exact hnew h
          · exact ih _ h
      · rcases infix_cons_iff.1 h with h | h
        · -- an occurrence at the front would be one of the text before
          cases w with
          | nil => exact hw rfl
          | cons x w =>
            obtain ⟨rfl, hrest⟩ := cons_prefix_cons.1 h
            refine hold ((prefix_cons_inj _).2 (prefix_of_replaceFrom (fun hx => hb ?_) hrest))
            exact mem_cons_of_mem _ hx
        · exact ih 0 h
    · exact ih skip h

/-! ## Mapping runes -/

/-- Each rune mapped by `f`; what is not UTF-8 counts as U+FFFD. -/
def mapRunes (f : Nat → Nat) (s : Str) : Str := (runes s).flatMap fun r => encodeRune (f r)

theorem encodeRune_mapped {f : Nat → Nat} {l : List (Str × Nat)} {p : Str × Nat}
    (hw : ∀ b ∈ w, b < 0x80)
    (hf : ∀ r, f r < 0x80 → f r = r ∨ UInt8.ofNat (f r) ∉ w) (hl : Decoded l) (hp : p ∈ l) :
    (∃ b, encodeRune (f p.2) = [b] ∧ p.1 = [b]) ∨ ∀ b ∈ encodeRune (f p.2), b ∉ w := by
  by_cases hr : f p.2 < 0x80
  · have henc : encodeRune (f p.2) = [UInt8.ofNat (f p.2)] := by rw [encodeRune, if_pos hr]
    rcases hf p.2 hr with hsame | hnot
    · obtain ⟨b, hb, hbr⟩ := hl.ascii hp (hsame ▸ hr)
      exact .inl ⟨b, by rw [henc, hsame, ← hbr, UInt8.ofNat_toNat], hb⟩
    · exact .inr (by simpa [henc] using hnot)
  · exact .inr fun b hb hbw => absurd (le_of_mem_encodeRune (not_lt.1 hr) b hb)
      (UInt8.not_le.2 (hw b hbw))

theorem prefix_of_mapped {f : Nat → Nat} {l : List (Str × Nat)} (hw : ∀ b ∈ w, b < 0x80)
    (hf : ∀ r, f r < 0x80 → f r = r ∨ UInt8.ofNat (f r) ∉ w) (hl : Decoded l)
    (h : w <+: l.flatMap fun p => encodeRune (f p.2)) : w <+: bytes l := by
  induction l generalizing w with
  | nil => exact h
  | cons p l ih =>
    cases w with
    | nil => exact nil_prefix
    | cons c w =>
      rw [flatMap_cons] at h
      rcases encodeRune_mapped hw hf hl (mem_cons_self ..) with ⟨b, henc, hp⟩ | hnot
      · rw [henc, singleton_append] at h
        obtain ⟨rfl, hrest⟩ := cons_prefix_cons.1 h
        have hbytes : bytes (p :: l) = c :: bytes l := by simp [bytes, hp]
        rw [hbytes]
        refine (prefix_cons_inj _).2 (ih (fun b hb => hw b (mem_cons_of_mem _ hb)) (fun r hr => ?_)
          hl.2.2 hrest)
        exact (hf r hr).imp_right fun hn hm => hn (mem_cons_of_mem _ hm)
      · obtain ⟨d, t, hd⟩ := exists_cons_of_ne_nil (encodeRune_ne_nil (f p.2))
        rw [hd, cons_append] at h
        exact absurd (by simp [(cons_prefix_cons.1 h).1]) (hnot d (by simp [hd]))

theorem infix_of_mapRunes {f : Nat → Nat} (hne : w ≠ []) (hw : ∀ b ∈ w, b < 0x80)
    (hf : ∀ r, f r < 0x80 → f r = r ∨ UInt8.ofNat (f r) ∉ w) (h : w <:+: mapRunes f s) :
    w <:+: s := by
  suffices hl : ∀ l : List (Str × Nat), Decoded l → (w <:+: l.flatMap fun p => encodeRune (f p.2)) →
      w <:+: bytes l by
    rw [mapRunes, runes, flatMap_map] at h
    rw [← bytes_segments s]
    exact hl _ (decoded_segments s) h
  intro l hl h
  induction l with
  | nil => exact h
  | cons p l ih =>
    have hsuffix : bytes l <:+: bytes (p :: l) := ⟨p.1, [], by simp [bytes]⟩
    have hflat := flatMap_cons ▸ h
    rcases encodeRune_mapped hw hf hl (mem_cons_self ..) with ⟨b, henc, hp⟩ | hnot
    · -- the segment is one byte, so an occurrence begins with it or after it
      rw [henc, singleton_append] at hflat
      rcases infix_cons_iff.1 hflat with hpre | hrest
      · refine (prefix_of_mapped hw hf hl ?_).isInfix
        rw [flatMap_cons, henc]
        exact hpre
      · exact (ih hl.2.2 hrest).trans hsuffix
    · exact (ih hl.2.2 (infix_of_disjoint hne hnot hflat)).trans hsuffix

/-! ## White space -/

theorem infix_of_mem_splitOnP {α : Type} {f : α → Bool} {xs l : List α} (h : l ∈ xs.splitOnP f) :
    l <:+: xs := by
  suffices hs : (∀ l ∈ (xs.splitOnP f).head?, l <+: xs) ∧
      ∀ l ∈ xs.splitOnP f, l <:+: xs from hs.2 l h
  clear h
  induction xs with
  | nil => simp
  | cons a xs ih =>
    have hsuffix : xs <:+: a :: xs := (suffix_cons a xs).isInfix
    rw [splitOnP_cons_eq_if_modifyHead]
    split_ifs with ha
    · exact ⟨by simp, by simpa using fun l hl => (ih.2 l hl).trans hsuffix⟩
    · -- the first part grows at its front
      obtain ⟨l, ls, hls⟩ := exists_cons_of_ne_nil (splitOnP_ne_nil f xs)
      rw [hls] at ih ⊢
      have hl : a :: l <+: a :: xs := (prefix_cons_inj a).2 (ih.1 l rfl)
      refine ⟨by simpa using hl, fun l' hl' => ?_⟩
      rcases mem_cons.1 hl' with rfl | hl'
      · exact hl.isInfix
      · exact (ih.2 l' (by simp [hl'])).trans hsuffix

theorem infix_of_mem_fields {l : Str} (h : l ∈ fields s) : l <:+: s := by
  obtain ⟨x, hx, rfl⟩ := List.mem_map.1 h
  obtain ⟨p, t, hpt⟩ := infix_of_mem_splitOnP (List.mem_filter.1 hx).1
  refine ⟨bytes p, bytes t, ?_⟩
  rw [← bytes_segments s, ← hpt, bytes_append, bytes_append]
  rfl

theorem infix_of_collapse (hw : w ≠ []) (hspace : 32 ∉ w) (h : w <:+: join 32 (fields s)) :
    w <:+: s := by
  obtain ⟨l, hl, h⟩ := infix_of_join hw hspace h
  exact h.trans (infix_of_mem_fields hl)

theorem mem_of_mem_collapse (h : b ∈ join 32 (fields s)) : b = 32 ∨ b ∈ s := by
  rcases mem_join h with rfl | ⟨l, hl, hb⟩
  · exact .inl rfl
  · exact .inr ((infix_of_mem_fields hl).subset hb)

end Str
