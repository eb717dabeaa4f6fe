/-
  Trimming: the runes of a trimmed string are those of the string without the
  white space at both ends, so trimming again changes nothing.
-/
import TangraDns.Text.Labels
import TangraDns.Text.Parts
import TangraDns.Text.Utf8

namespace Str

open List

variable {s t : Str} {c b b1 : UInt8}

/-! ## Decoding a part -/

theorem decodeRune_width (h : s ≠ []) : 1 ≤ (decodeRune s).2 ∧ (decodeRune s).2 ≤ s.length := by
  match s, h with
  | [b0], _ => unfold decodeRune; grind
  | [b0, b1], _ => unfold decodeRune; grind
  | [b0, b1, b2], _ => unfold decodeRune; grind
  | b0 :: b1 :: b2 :: b3 :: s, _ => unfold decodeRune; grind

theorem decodeRune_append (h : s ≠ []) (hw : (decodeRune (s ++ t)).2 ≤ s.length) :
    decodeRune s = decodeRune (s ++ t) := by
  match s, h with
  | [b0], _ =>
    cases t with
    | nil => rfl
    | cons c t => unfold decodeRune at hw ⊢; grind
  | [b0, b1], _ => unfold decodeRune at hw ⊢; grind
  | [b0, b1, b2], _ =>
    cases t with
    | nil => rfl
    | cons c t =>
      simp only [cons_append, nil_append, decodeRune] at hw ⊢
      split_ifs at hw ⊢ <;> first | rfl | (exfalso; simp at hw)
  | b0 :: b1 :: b2 :: b3 :: s, _ => simp [decodeRune]

theorem isCont_of_ascii (hc : c < 0x80) : isCont c = false := by
  rw [isCont, Bool.and_eq_false_iff]
  exact .inl (by grind)

theorem decodeRune_append_ascii (h : s ≠ []) (hc : c < 0x80) (t : Str) :
    decodeRune (s ++ c :: t) = decodeRune s := by
  have hcont := isCont_of_ascii hc
  match s, h with
  | [b0], _ => unfold decodeRune; grind
  | [b0, b1], _ => unfold decodeRune; grind
  | [b0, b1, b2], _ =>
    simp only [cons_append, nil_append, decodeRune, hcont, Bool.false_eq_true, false_and, and_false,
      if_false]
  | b0 :: b1 :: b2 :: b3 :: s, _ => simp [decodeRune]

/-! ## Segments -/

def bytes (l : List (Str × Nat)) : Str := (l.map Prod.fst).flatten

theorem bytes_append (l m : List (Str × Nat)) :
    bytes (l ++ m) = bytes l ++ bytes m := by simp [bytes]

def Decoded : List (Str × Nat) → Prop
  | [] => True
  | p :: l => p.1 ≠ [] ∧ decodeRune (p.1 ++ bytes l) = (p.2, p.1.length) ∧ Decoded l

theorem decoded_segmentsAux : ∀ (n : ℕ) (s : Str), s.length ≤ n →
    Decoded (segmentsAux n s) ∧ bytes (segmentsAux n s) = s
  | 0, [], _ => ⟨trivial, rfl⟩
  | _ + 1, [], _ => ⟨trivial, rfl⟩
  | n + 1, b :: s, h => by
    have hw := decodeRune_width (s := b :: s) (by simp)
    obtain ⟨hd, hb⟩ := decoded_segmentsAux n ((b :: s).drop (decodeRune (b :: s)).2) (by
      rw [length_drop]
      simp only [length_cons] at h ⊢
      omega)
    have htake : ((b :: s).take (decodeRune (b :: s)).2) ++
        (b :: s).drop (decodeRune (b :: s)).2 = b :: s :=
      take_append_drop _ _
    have hlen : ((b :: s).take (decodeRune (b :: s)).2).length = (decodeRune (b :: s)).2 := by
      rw [length_take]
      omega
    refine ⟨⟨?_, ?_, hd⟩, ?_⟩
    · intro hnil
      rw [show (b :: s).take (decodeRune (b :: s)).2 = [] from hnil, length_nil] at hlen
      omega
    · dsimp only
      rw [hb, htake, hlen]
    · rw [segmentsAux, bytes, map_cons, flatten_cons]
      exact (congrArg _ hb).trans htake

theorem decoded_segments (s : Str) : Decoded (segments s) := (decoded_segmentsAux _ s le_rfl).1

theorem segmentsAux_bytes : ∀ {l : List (Str × Nat)} {n : ℕ}, Decoded l → (bytes l).length ≤ n →
    segmentsAux n (bytes l) = l
  | [], n, _, _ => by cases n <;> rfl
  | p :: l, n, h, hn => by
    obtain ⟨hne, hdec, hl⟩ := h
    have hbytes : bytes (p :: l) = p.1 ++ bytes l := rfl
    have hpos : 0 < p.1.length := length_pos_iff.2 hne
    rw [hbytes, length_append] at hn
    obtain ⟨m, rfl⟩ : ∃ m, n = m + 1 := ⟨n - 1, by omega⟩
    obtain ⟨b, t, ht⟩ := exists_cons_of_ne_nil (l := p.1 ++ bytes l) (by simp [hne])
    rw [hbytes, ht, segmentsAux, ← ht, hdec, take_left, drop_left, segmentsAux_bytes hl (by omega)]

theorem segments_bytes {l : List (Str × Nat)} (h : Decoded l) : segments (bytes l) = l :=
  segmentsAux_bytes h le_rfl

theorem Decoded.right : ∀ {l m : List (Str × Nat)}, Decoded (l ++ m) → Decoded m
  | [], _, h => h
  | _ :: l, _, h => Decoded.right (l := l) h.2.2

theorem Decoded.left : ∀ {l m : List (Str × Nat)}, Decoded (l ++ m) → Decoded l
  | [], _, _ => trivial
  | p :: l, m, h => by
    obtain ⟨hne, hdec, hl⟩ : p.1 ≠ [] ∧ decodeRune (p.1 ++ bytes (l ++ m)) = (p.2, p.1.length) ∧
      Decoded (l ++ m) := h
    refine ⟨hne, ?_, hl.left⟩
    rw [bytes_append, ← append_assoc] at hdec
    rw [decodeRune_append (t := bytes m) (by simp [hne]) (by rw [hdec]; simp), hdec]

theorem Decoded.append_ascii (hc : c < 0x80) {m : List (Str × Nat)} (hm : Decoded m)
    (hb : bytes m = c :: t) : ∀ {l : List (Str × Nat)}, Decoded l → Decoded (l ++ m)
  | [], _ => hm
  | p :: l, ⟨hne, hdec, hl⟩ => by
    refine ⟨hne, ?_, hm.append_ascii hc hb hl⟩
    rw [show bytes (l.append m) = bytes l ++ c :: t from hb ▸ bytes_append l m, ← append_assoc,
      decodeRune_append_ascii (by simp [hne]) hc, hdec]

theorem bytes_segments (s : Str) : bytes (segments s) = s := (decoded_segmentsAux _ s le_rfl).2

theorem segments_append_ascii (hc : c < 0x80) (s t : Str) :
    segments (s ++ c :: t) = segments s ++ segments (c :: t) := by
  have hd := (decoded_segments (c :: t)).append_ascii hc (bytes_segments _) (decoded_segments s)
  have hseg := segments_bytes hd
  rwa [bytes_append, bytes_segments, bytes_segments] at hseg

theorem runes_append_ascii (hc : c < 0x80) (s t : Str) :
    runes (s ++ c :: t) = runes s ++ runes (c :: t) := by
  rw [runes, segments_append_ascii hc, map_append]
  rfl

theorem le_rune_two (h : 0xC2 ≤ b ∧ b ≤ 0xDF ∧ isCont b1 = true) :
    128 ≤ b.toNat % 32 * 64 + b1.toNat % 64 := by
  obtain ⟨hlo, hhi, -⟩ := h
  rw [UInt8.le_iff_toNat_le] at hlo hhi
  simp at hlo hhi
  omega

theorem le_rune_three {b2 : UInt8} (h : 0xE0 ≤ b ∧ b ≤ 0xEF ∧ isCont b1 = true ∧ isCont b2 = true ∧
    (b = 0xE0 → 0xA0 ≤ b1) ∧ (b = 0xED → b1 ≤ 0x9F)) :
    128 ≤ b.toNat % 16 * 4096 + b1.toNat % 64 * 64 + b2.toNat % 64 := by
  obtain ⟨hlo, hhi, hc1, -, hmin, -⟩ := h
  simp only [isCont, Bool.and_eq_true, decide_eq_true_eq, UInt8.le_iff_toNat_le, ← UInt8.toNat_inj]
    at hlo hhi hc1 hmin
  simp at hlo hhi hc1 hmin
  omega

theorem le_rune_four {b2 b3 : UInt8}
    (h : 0xF0 ≤ b ∧ b ≤ 0xF4 ∧ isCont b1 = true ∧ isCont b2 = true ∧
    isCont b3 = true ∧ (b = 0xF0 → 0x90 ≤ b1) ∧ (b = 0xF4 → b1 ≤ 0x8F)) :
    128 ≤ b.toNat % 8 * 262144 + b1.toNat % 64 * 4096 + b2.toNat % 64 * 64 + b3.toNat % 64 := by
  obtain ⟨hlo, hhi, hc1, -, -, hmin, -⟩ := h
  simp only [isCont, Bool.and_eq_true, decide_eq_true_eq, UInt8.le_iff_toNat_le, ← UInt8.toNat_inj]
    at hlo hhi hc1 hmin
  simp at hlo hhi hc1 hmin
  omega


theorem decodeRune_lt (hs : s ≠ []) (h : (decodeRune s).1 < 0x80) :
    ∃ b t, s = b :: t ∧ b < 0x80 ∧ (decodeRune s).2 = 1 := by
  obtain ⟨b, t, rfl⟩ := exists_cons_of_ne_nil hs
  refine ⟨b, t, rfl, ?_⟩
  by_cases hb : b < 0x80
  · exact ⟨hb, by simp [decodeRune, hb]⟩
  · -- a longer rune is not ASCII, nor is what stands for an ill-formed byte
    exfalso
    rcases t with _ | ⟨b1, _ | ⟨b2, _ | ⟨b3, t⟩⟩⟩
    · simp [decodeRune, hb] at h
    · simp only [decodeRune, if_neg hb] at h
      split_ifs at h with hc
      · exact absurd h (not_lt.2 (le_rune_two hc))
      · simp at h
    · simp only [decodeRune, if_neg hb] at h
      split_ifs at h with hc hc'
      · exact absurd h (not_lt.2 (le_rune_two hc))
      · exact absurd h (not_lt.2 (le_rune_three hc'))
      · simp at h
    · simp only [decodeRune, if_neg hb] at h
      split_ifs at h with hc hc' hc''
      · exact absurd h (not_lt.2 (le_rune_two hc))
      · exact absurd h (not_lt.2 (le_rune_three hc'))
      · exact absurd h (not_lt.2 (le_rune_four hc''))
      · simp at h

theorem Decoded.ascii {l : List (Str × Nat)} (h : Decoded l) {p : Str × Nat} (hp : p ∈ l)
    (hr : p.2 < 0x80) :
    ∃ b : UInt8, p.1 = [b] ∧ b.toNat = p.2 := by
  induction l with
  | nil => cases hp
  | cons q l ih =>
    obtain ⟨hne, hdec, hl⟩ := h
    rcases mem_cons.1 hp with rfl | hp
    · obtain ⟨b, t, hbt, hb, hw⟩ := decodeRune_lt (s := p.1 ++ bytes l) (by simp [hne])
        (by rw [hdec]; exact hr)
      rw [hdec] at hw
      obtain ⟨c, hc⟩ := length_eq_one_iff.1 hw
      rw [hc, singleton_append, List.cons.injEq] at hbt
      have hlt : c < 0x80 := hbt.1 ▸ hb
      simp only [hc, singleton_append, decodeRune, if_pos hlt] at hdec
      exact ⟨c, hc, congrArg Prod.fst hdec⟩
    · exact ih hl hp

theorem mem_of_mem_runes {r : Nat} (hr : r ∈ runes s) (h : r < 0x80) : UInt8.ofNat r ∈ s := by
  obtain ⟨p, hp, rfl⟩ := List.mem_map.1 hr
  obtain ⟨b, hb, hbr⟩ := (decoded_segments s).ascii hp h
  rw [← hbr, UInt8.ofNat_toNat, ← bytes_segments s]
  exact mem_flatten.2 ⟨p.1, mem_map_of_mem hp, by simp [hb]⟩

theorem isASCII_of_runes (h : ∀ r ∈ runes s, r < 0x80) : isASCII s = true := by
  rw [isASCII_iff, ← bytes_segments s]
  intro b hb
  obtain ⟨t, ht, hb⟩ := mem_flatten.1 hb
  obtain ⟨p, hp, rfl⟩ := List.mem_map.1 ht
  have hr := h p.2 (mem_map_of_mem hp)
  obtain ⟨c, hc, hcr⟩ := (decoded_segments s).ascii hp hr
  rw [hc, mem_singleton] at hb
  rw [hb, UInt8.lt_iff_toNat_lt, hcr]
  exact hr

/-! ## Trimming -/

def trimmed (s : Str) : List (Str × Nat) :=
  (((segments s).dropWhile fun p => isSpace p.2).reverse.dropWhile fun p => isSpace p.2).reverse

theorem trimSpace_eq (s : Str) : trimSpace s = bytes (trimmed s) := rfl

theorem trimmed_within (s : Str) : trimmed s <:+: segments s := by
  have h1 : ((segments s).dropWhile fun p => isSpace p.2) <:+ segments s := dropWhile_suffix _
  have h2 : trimmed s <+: (segments s).dropWhile fun p => isSpace p.2 := by
    rw [← reverse_suffix, trimmed, reverse_reverse]
    exact dropWhile_suffix _
  exact h2.isInfix.trans h1.isInfix

theorem segments_trimSpace (s : Str) : segments (trimSpace s) = trimmed s := by
  rw [trimSpace_eq]
  obtain ⟨pre, post, h⟩ := trimmed_within s
  have hd := decoded_segments s
  rw [← h] at hd
  exact segments_bytes hd.left.right

theorem infix_of_trimSpace (s : Str) : trimSpace s <:+: s := by
  obtain ⟨before, after, h⟩ := trimmed_within s
  refine ⟨bytes before, bytes after, ?_⟩
  have hs := bytes_segments s
  rw [← h] at hs
  simpa [bytes, trimSpace_eq] using hs

theorem runeCount_trimSpace (s : Str) : runeCount (trimSpace s) ≤ runeCount s := by
  simp only [runeCount, runes, length_map, segments_trimSpace]
  exact (trimmed_within s).length_le

theorem head_dropWhile {α : Type} {f : α → Bool} (l : List α) :
    ∀ a ∈ (l.dropWhile f).head?, f a = false := by
  induction l with
  | nil => intro a ha; cases ha
  | cons b l ih =>
    rw [dropWhile_cons]
    split_ifs with hb
    · exact ih
    · intro a ha
      cases ha
      simpa using hb

theorem trimmed_ends (s : Str) :
    (trimmed s).dropWhile (fun p => isSpace p.2) = trimmed s ∧
      (trimmed s).reverse.dropWhile (fun p => isSpace p.2) = (trimmed s).reverse := by
  constructor
  · -- the first segment is the first one that the first pass has kept
    have hpre : trimmed s <+: (segments s).dropWhile fun p => isSpace p.2 := by
      rw [← reverse_suffix, trimmed, reverse_reverse]
      exact dropWhile_suffix _
    have hhead : ∀ p ∈ ((segments s).dropWhile fun p => isSpace p.2).head?, isSpace p.2 = false :=
      head_dropWhile (segments s)
    obtain ⟨m, hm⟩ := hpre
    rw [← hm] at hhead
    cases ht : trimmed s with
    | nil => rfl
    | cons p l =>
      rw [ht] at hhead
      rw [dropWhile_cons, hhead p rfl]
      rfl
  · rw [trimmed, reverse_reverse]
    exact Parts.dropWhile_of_head (head_dropWhile _)

theorem trimSpace_trimSpace (s : Str) : trimSpace (trimSpace s) = trimSpace s := by
  rw [trimSpace_eq (trimSpace s), trimmed, segments_trimSpace, (trimmed_ends s).1,
    (trimmed_ends s).2,
    reverse_reverse]
  rfl

theorem decodeRune_of_getLast {r : Nat} (h : decodeRune s = (r, s.length))
    (hlast : s.getLast? = some c) (hc : c < 0x80) : r = c.toNat := by
  have hcont := isCont_of_ascii hc
  have hlast' : ∀ {b : UInt8} {t : Str}, s = t ++ [b] → b = c := by
    rintro b t rfl
    exact Option.some.inj (getLast?_concat.symm.trans hlast)
  match s, h with
  | [], _ => cases hlast
  | [b0], h =>
    obtain rfl := hlast' (t := []) rfl
    unfold decodeRune at h
    grind
  | [b0, b1], h =>
    obtain rfl := hlast' (t := [b0]) rfl
    unfold decodeRune at h
    grind
  | [b0, b1, b2], h =>
    obtain rfl := hlast' (t := [b0, b1]) rfl
    unfold decodeRune at h
    grind
  | [b0, b1, b2, b3], h =>
    obtain rfl := hlast' (t := [b0, b1, b2]) rfl
    unfold decodeRune at h
    grind
  | b0 :: b1 :: b2 :: b3 :: b4 :: s, h =>
    unfold decodeRune at h
    grind

theorem trimSpace_of_segments (hfirst : ∀ p ∈ (segments s).head?, isSpace p.2 = false)
    (hend : ∀ p ∈ (segments s).reverse.head?, isSpace p.2 = false) : trimSpace s = s := by
  have htrim : trimmed s = segments s := by
    rw [trimmed, Parts.dropWhile_of_head hfirst, Parts.dropWhile_of_head hend, reverse_reverse]
  rw [trimSpace_eq, htrim, bytes_segments]

theorem last_segment (hlast : s.getLast? = some c) (hc : c < 0x80) :
    ∀ p ∈ (segments s).reverse.head?, p.2 = c.toNat := by
  obtain ⟨hd, hbytes⟩ : Decoded (segments s) ∧ bytes (segments s) = s :=
    decoded_segmentsAux _ s le_rfl
  intro p hp
  rw [head?_reverse] at hp
  obtain ⟨l, hl⟩ := getLast?_eq_some_iff.1 hp
  rw [hl] at hd hbytes
  obtain ⟨hne, hdec, -⟩ := hd.right
  have hlast' : p.1.getLast? = some c := by
    rw [← hlast, ← hbytes, bytes, map_append, flatten_append, map_singleton,
      flatten_singleton, getLast?_append_of_ne_nil _ hne]
  rw [show p.1 ++ bytes [] = p.1 from append_nil _] at hdec
  exact decodeRune_of_getLast hdec hlast' hc

theorem trimSpace_of_ends (hhead : s.head? = some b) (hlast : s.getLast? = some c)
    (hb : b < 0x80 ∧ isSpace b.toNat = false) (hc : c < 0x80 ∧ isSpace c.toNat = false) :
    trimSpace s = s := by
  refine trimSpace_of_segments (fun p hp => ?_) fun p hp => ?_
  · obtain ⟨hd, hbytes⟩ : Decoded (segments s) ∧ bytes (segments s) = s :=
      decoded_segmentsAux _ s le_rfl
    obtain ⟨l, hl⟩ := head?_eq_some_iff.1 hp
    rw [hl] at hd hbytes
    obtain ⟨t, rfl⟩ := head?_eq_some_iff.1 hhead
    have hdec := hd.2.1
    rw [show p.1 ++ bytes l = b :: t from hbytes, decodeRune.eq_def] at hdec
    simp only [if_pos hb.1] at hdec
    rw [← (Prod.mk.inj hdec).1]
    exact hb.2
  · rw [last_segment hlast hc.1 p hp]
    exact hc.2

/-- The text begins and ends with printable bytes other than blanks. -/
def Ends (s : Str) : Prop :=
  ∃ b c, s.head? = some b ∧ s.getLast? = some c ∧ (0x21 ≤ b ∧ b ≤ 0x7e) ∧ 0x21 ≤ c ∧ c ≤ 0x7e

theorem ends_of_forall (hne : s ≠ []) (h : ∀ b ∈ s, 0x21 ≤ b ∧ b ≤ 0x7e) : Ends s :=
  ⟨s.head hne, s.getLast hne, head?_eq_some_head hne, getLast?_eq_some_getLast hne,
    h _ (head_mem hne), h _ (getLast_mem hne)⟩

theorem Ends.ne_nil (h : Ends s) : s ≠ [] := by
  rintro rfl
  obtain ⟨b, c, hhead, -⟩ := h
  cases hhead

theorem Ends.trimSpace (h : Ends s) : trimSpace s = s := by
  obtain ⟨b, c, hhead, hlast, hb, hc⟩ := h
  refine trimSpace_of_ends hhead hlast ⟨?_, isSpace_of_printable hb⟩ ⟨?_, isSpace_of_printable hc⟩
  · grind
  · grind

theorem Ends.join {a : UInt8} {ss : List Str} (hne : ss ≠ []) (h : ∀ s ∈ ss, Ends s) :
    Ends (join a ss) := by
  induction ss with
  | nil => exact absurd rfl hne
  | cons s ss ih =>
    obtain ⟨hs, hss⟩ := forall_mem_cons.1 h
    cases ss with
    | nil => rwa [join_singleton]
    | cons s' ss =>
      obtain ⟨b, -, hhead, -, hb, -⟩ := hs
      obtain ⟨-, c, -, hlast, -, hc⟩ := ih (cons_ne_nil _ _) hss
      refine ⟨b, c, ?_, ?_, hb, hc⟩
      · rw [join_cons_cons, head?_append, hhead]
        rfl
      · rw [join_cons_cons, getLast?_append, getLast?_cons, hlast]
        rfl

theorem trimSpace_append (hs : trimSpace s = s) (hne : s ≠ []) (hb : b < 0x80)
    (hlast : (b :: t).getLast? = some c) (hc : c < 0x80 ∧ isSpace c.toNat = false) :
    trimSpace (s ++ b :: t) = s ++ b :: t := by
  refine trimSpace_of_segments (fun p hp => ?_) fun p hp => ?_
  · have hseg : trimmed s = segments s := by
      rw [← segments_trimSpace, hs]
    have hnil : segments s ≠ [] := fun h => hne (by rw [← bytes_segments s, h]; rfl)
    rw [segments_append_ascii hb, head?_append_of_ne_nil _ hnil, ← hseg] at hp
    have hdrop := (trimmed_ends s).1
    obtain ⟨l, hl⟩ := head?_eq_some_iff.1 hp
    rw [hl] at hdrop
    exact head_dropWhile _ p (by rw [hdrop]; rfl)
  · have hlast' : (s ++ b :: t).getLast? = some c := by
      rw [getLast?_append_of_ne_nil _ (cons_ne_nil _ _), hlast]
    rw [last_segment hlast' hc.1 p hp]
    exact hc.2

theorem toLower_append_ascii (U : CaseTables) (hb : b < 0x80) (s t : Str) :
    toLower U (s ++ b :: t) = toLower U s ++ toLower U (b :: t) := by
  rw [toLower_eq, runes_append_ascii hb, flatMap_append, ← toLower_eq, ← toLower_eq]

theorem head_toLower_trimSpace (U : CaseTables) (s : Str) :
    ∀ r ∈ (runes (toLower U (trimSpace s))).head?, isSpace r = false := by
  intro r hr
  rw [runes_toLower, head?_map, Option.mem_def, Option.map_eq_some_iff] at hr
  obtain ⟨r₀, hr₀, rfl⟩ := hr
  rw [runes, segments_trimSpace, head?_map, Option.map_eq_some_iff] at hr₀
  obtain ⟨p, hp, rfl⟩ := hr₀
  by_contra hspace
  have hp' := U.toLower_space _ (Bool.not_eq_false _ ▸ hspace)
  obtain ⟨l, hl⟩ := head?_eq_some_iff.1 hp
  have hdrop := (trimmed_ends s).1
  rw [hl] at hdrop
  exact absurd (head_dropWhile _ p (by rw [hdrop]; rfl)) (by rw [hp']; exact Bool.noConfusion)

end Str
