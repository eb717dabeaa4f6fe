/-
  Owner names read from left to right (`Validate.Names`).
-/
import TangraDns.Proof.NameForms

namespace TangraDns.Validate

open List Str

variable {l n z : Str} {k : ℕ} {b : UInt8}

/-- Where a reader of owner names is: at the beginning, after the `*` of the first label, after a
    letter, digit or `_`, after a hyphen, after a dot, or after what no owner name has. -/
inductive Spot where
  | start | star | word | hyphen | cut | lost
deriving DecidableEq

namespace Spot

def isWord (b : UInt8) : Bool := isLower b || (48 ≤ b && b ≤ 57) || b == 95

def next (s : Spot) (b : UInt8) : Spot :=
  if b = dot then if s = star ∨ s = word then cut else lost
  else if b = 42 then if s = start then star else lost
  else if s = star ∨ s = lost then lost
  else if b = 45 then if s = word ∨ s = hyphen then hyphen else lost
  else if isWord b then word else lost

def read (s : Spot) (n : Str) : Spot := n.foldl next s

variable {s : Spot}

theorem read_cons (s : Spot) (b : UInt8) (n : Str) : s.read (b :: n) = (s.next b).read n := rfl

theorem read_append (s : Spot) (m n : Str) : s.read (m ++ n) = (s.read m).read n := foldl_append ..

theorem lost_read (n : Str) : lost.read n = lost := by
  induction n with
  | nil => rfl
  | cons b n ih =>
    have : lost.next b = lost := by simp [next]
    rw [read_cons, this, ih]

theorem next_dot (s : Spot) : s.next dot = if s = star ∨ s = word then cut else lost := if_pos rfl

theorem eq_dot_of_next (h : s.next b = cut) : b = dot := by
  unfold next at h
  split_ifs at h
  assumption

theorem next_word (hb : isWord b = true) :
    s.next b = if s = star ∨ s = lost then lost else word := by
  have hdot : b ≠ dot ∧ b ≠ 42 ∧ b ≠ 45 := by
    refine ⟨?_, ?_, ?_⟩ <;> rintro rfl <;> revert hb <;> decide
  rw [next, if_neg hdot.1, if_neg hdot.2.1, if_neg hdot.2.2, if_pos hb]

/-! ## Labels -/

/-- A label but for its length. -/
structure Word (l : Str) : Prop where
  ne_nil : l ≠ []
  octets : ∀ b ∈ l, isWord b = true ∨ b = 45
  first : l.head? ≠ some 45
  last : l.getLast? ≠ some 45

theorem labelOK_iff : labelOK l true = true ↔ Word l ∧ l.length ≤ 63 := by
  have hbyte (b : UInt8) : (isLower b || (48 ≤ b && b ≤ 57) || b == 45 || (b == 95 && true)) =
      true ↔
      isWord b = true ∨ b = 45 := by
    simp only [isWord, Bool.or_eq_true, Bool.and_true, beq_iff_eq]
    grind
  have hlen : decide (maxLabel < l.length) = false ↔ l.length ≤ 63 :=
    decide_eq_false_iff_not.trans not_lt
  simp only [labelOK, hlen, Bool.and_eq_true, Bool.not_eq_true', Bool.or_eq_false_iff,
    isEmpty_eq_false_iff,
    all_eq_true, beq_eq_false_iff_ne, hbyte]
  exact ⟨fun ⟨⟨⟨⟨hne, hlen⟩, hfirst⟩, hlast⟩, hall⟩ => ⟨⟨hne, hall, hfirst, hlast⟩, hlen⟩,
    fun ⟨⟨hne, hall, hfirst, hlast⟩, hlen⟩ => ⟨⟨⟨⟨hne, hlen⟩, hfirst⟩, hlast⟩, hall⟩⟩

def Reached (s : Spot) (l : Str) : Spot → Prop
  | star => s = start ∧ l = str "*"
  | word => Word l
  | hyphen => l ≠ [] ∧ (∀ b ∈ l, isWord b = true ∨ b = 45) ∧ l.head? ≠ some 45
  | lost => True
  | t => t = s ∧ l = []

theorem Reached.next {t : Spot} (h : Reached s l t) (hb : b ≠ dot) :
    Reached s (l ++ [b]) (t.next b) := by
  unfold Spot.next
  rw [if_neg hb]
  split_ifs with h42 hstart hgone h45 hin hword
  · subst h42 hstart
    obtain ⟨rfl, rfl⟩ := h
    exact ⟨rfl, rfl⟩
  · trivial
  · trivial
  · subst h45
    have hl : l ≠ [] ∧ (∀ b ∈ l, isWord b = true ∨ b = 45) ∧ l.head? ≠ some 45 := by
      rcases hin with rfl | rfl
      exacts [⟨h.ne_nil, h.octets, h.first⟩, h]
    refine ⟨by simp, ?_, by rw [head?_append_of_ne_nil _ hl.1]; exact hl.2.2⟩
    exact fun c hc => (mem_append.1 hc).elim (hl.2.1 c) fun hc => .inr (mem_singleton.1 hc)
  · trivial
  · have hl : (∀ b ∈ l, isWord b = true ∨ b = 45) ∧ l.head? ≠ some 45 := by
      cases t with
      | word => exact ⟨h.octets, h.first⟩
      | hyphen => exact h.2
      | start | cut => rw [h.2]; simp
      | star | lost => simp at hgone
    refine ⟨by simp, fun c hc => ?_, ?_, by simpa using h45⟩
    · exact (mem_append.1 hc).elim (hl.1 c) fun hc => .inl (mem_singleton.1 hc ▸ hword)
    · rw [head?_append]
      cases l with
      | nil => simpa using h45
      | cons c l => exact hl.2
  · trivial

theorem reached (hs : s = start ∨ s = cut) (hl : dot ∉ l) : Reached s l (s.read l) := by
  induction l using List.reverseRecOn with
  | nil => rcases hs with rfl | rfl <;> exact ⟨rfl, rfl⟩
  | append_singleton l b ih =>
    rw [mem_append, not_or, mem_singleton] at hl
    rw [read_append]
    exact (ih hl.1).next (Ne.symm hl.2)

theorem read_word (hl : Word l) : s.read l = if s = star ∨ s = lost then lost else word := by
  have hin : ∀ {l : Str} {s : Spot}, (∀ b ∈ l, isWord b = true ∨ b = 45) → s = word ∨ s = hyphen →
      s.read l = word ∨ s.read l = hyphen := by
    intro l s hl hs
    induction l generalizing s with
    | nil => exact hs
    | cons b l ih =>
      obtain ⟨hb, hl⟩ := forall_mem_cons.1 hl
      refine ih hl (hb.imp (fun hb => ?_) ?_)
      · rw [next_word hb]
        rcases hs with rfl | rfl <;> rfl
      · rintro rfl
        rcases hs with rfl | rfl <;> rfl
  obtain ⟨c, l, rfl⟩ := exists_cons_of_ne_nil hl.ne_nil
  obtain ⟨hc, hoctets⟩ := forall_mem_cons.1 hl.octets
  rw [read_cons, next_word (hc.resolve_right fun h => hl.first (by rw [h]; rfl))]
  split_ifs
  · exact lost_read _
  -- the last octet is no hyphen either
  induction l using List.reverseRecOn with
  | nil => rfl
  | append_singleton l b _ =>
    have hb : isWord b = true := (hoctets b (by simp)).resolve_right fun h => hl.last (by
      rw [h, ← cons_append, getLast?_concat])
    refine (read_append ..).trans ((next_word hb).trans (if_neg ?_))
    rcases hin (fun d hd => hoctets d (mem_append_left _ hd)) (.inl rfl) with h | h <;>
      rw [h] <;> decide

theorem read_label (hs : s = start ∧ k = 0 ∨ s = cut ∧ k ≠ 0) (hl : dot ∉ l) :
    (s.read l).next dot = cut ∧ l.length ≤ 63 ↔ ownerLabel l k = true := by
  have hstart : s = start ↔ k = 0 := by grind
  rw [ownerLabel, Bool.or_eq_true, Bool.and_eq_true, beq_iff_eq, beq_iff_eq, labelOK_iff, next_dot]
  constructor
  · rintro ⟨hdot, hlen⟩
    have hr := reached (hs.imp And.left And.left) hl
    split_ifs at hdot with h
    rcases h with h | h <;> rw [h] at hr
    exacts [.inl ⟨hr.2, hstart.1 hr.1⟩, .inr ⟨hr, hlen⟩]
  · rintro (⟨rfl, hk⟩ | ⟨hword, hlen⟩)
    · rw [hstart.2 hk]
      decide
    · rw [read_word hword, if_neg (show ¬ (s = star ∨ s = lost) by grind)]
      exact ⟨rfl, hlen⟩

theorem read_closed {ls : List Str} (hs : s = start ∧ k = 0 ∧ ls ≠ [] ∨ s = cut ∧ k ≠ 0)
    (hls : ∀ l ∈ ls, dot ∉ l) :
    s.read (closed dot ls) = cut ∧ (∀ l ∈ ls, l.length ≤ 63) ↔
    ∀ p ∈ ls.zipIdx k, ownerLabel p.1 p.2 = true := by
  induction ls generalizing s k with
  | nil =>
    obtain ⟨rfl, -⟩ := hs.resolve_left fun h => h.2.2 rfl
    simp [read]
  | cons l ls ih =>
    obtain ⟨hl, hls⟩ := forall_mem_cons.1 hls
    have ih := @ih (k + 1) cut (.inr ⟨rfl, by omega⟩) hls
    have hlabel := @read_label l k s (by grind) hl
    rw [closed_cons, read_append, read_cons, zipIdx_cons, forall_mem_cons, forall_mem_cons,
      ← hlabel, ← ih, next_dot]
    split_ifs with h
    · tauto
    · rw [lost_read]
      simp

end Spot

/-! ## Owner names -/

open Spot

theorem isWord_plain (h : isWord b = true ∨ b = 45 ∨ b = 42) :
    (0x21 ≤ b ∧ b ≤ 0x7e) ∧ isUpper b = false ∧ b ≠ 92 ∧ b ≠ dot := by
  simp only [isWord, isLower, isUpper, Bool.or_eq_true, Bool.and_eq_true,
    decide_eq_true_eq, beq_iff_eq,
    Bool.and_eq_false_iff, decide_eq_false_iff_not] at h ⊢
  have : dot = 46 := rfl
  grind

theorem ownerLabel_octets (h : ownerLabel l k = true) :
    l ≠ [] ∧ ∀ b ∈ l, isWord b = true ∨ b = 45 ∨ b = 42 := by
  rw [ownerLabel, Bool.or_eq_true, Bool.and_eq_true, beq_iff_eq, labelOK_iff] at h
  rcases h with ⟨rfl, -⟩ | ⟨hw, -⟩
  · exact ⟨cons_ne_nil _ _, fun b hb => .inr (.inr (mem_singleton.1 hb))⟩
  · exact ⟨hw.ne_nil, fun b hb => (hw.octets b hb).imp_right .inl⟩

theorem labelsOf_concat (u : Str) :
    labelsOf (u ++ [dot]) = Str.split dot u := by rw [labelsOf, dropLast_concat]

/-- **Owner names, octet by octet.** -/
theorem isOwner_iff : IsOwner z n ↔ start.read n = .cut ∧ (∀ l ∈ labelsOf n, l.length ≤ 63) ∧
    n.length ≤ 254 ∧
    (n = z ∨ Under n z) := by
  have hread {u : Str} : start.read (u ++ [dot]) = .cut ∧
      (∀ l ∈ labelsOf (u ++ [dot]), l.length ≤ 63) ↔
      ∀ p ∈ (labelsOf (u ++ [dot])).zipIdx, ownerLabel p.1 p.2 = true := by
    have hne := split_ne_nil dot u
    rw [← read_closed (.inl ⟨rfl, rfl, by rwa [labelsOf_concat]⟩), labelsOf_concat,
      closed_eq_join hne, join_split]
    rw [labelsOf_concat]
    exact fun l hl => not_mem_of_mem_split hl
  constructor
  · intro h
    obtain ⟨u, rfl⟩ := h.canonical.hasSuffix
    obtain ⟨h1, h2⟩ := hread.2 h.labels
    exact ⟨h1, h2, h.canonical.length_le, h.inside⟩
  · rintro ⟨hdot, hlen, hle, hin⟩
    obtain ⟨u, rfl⟩ : ∃ u, n = u ++ [dot] := by
      induction n using List.reverseRecOn with
      | nil => cases hdot
      | append_singleton u b _ =>
        exact ⟨u, by rw [eq_dot_of_next ((read_append ..).symm.trans hdot)]⟩
    have hlabels := hread.1 ⟨hdot, hlen⟩
    have hoctets : ∀ l ∈ Str.split dot u, l ≠ [] ∧ ∀ b ∈ l, isWord b = true ∨ b = 45 ∨ b = 42 := by
      intro l hl
      rw [← labelsOf_concat] at hl
      obtain ⟨i, hi⟩ := mem_iff_getElem?.1 hl
      exact ownerLabel_octets (hlabels (l, i) (mk_mem_zipIdx_iff_getElem?.2 hi))
    have hbyte : ∀ b ∈ u ++ [dot], (0x21 ≤ b ∧ b ≤ 0x7e) ∧ isUpper b = false ∧ b ≠ 92 := by
      intro b hb
      rcases mem_append.1 hb with hb | hb
      · rw [← join_split dot u] at hb
        rcases mem_join hb with rfl | ⟨l, hl, hb⟩
        · decide
        · exact ⟨(isWord_plain ((hoctets l hl).2 b hb)).1,
            (isWord_plain ((hoctets l hl).2 b hb)).2.1,
            (isWord_plain ((hoctets l hl).2 b hb)).2.2.1⟩
      · rw [mem_singleton.1 hb]
        decide
    refine ⟨⟨fun b hb => ⟨by have := (hbyte b hb).1.2; grind, (hbyte b hb).2.1⟩,
      fun b hb => (hbyte b hb).1,
      fun hb => (hbyte 92 hb).2.2 rfl, hle, Str.split dot u, split_ne_nil _ _, by rw [join_split],
      fun l hl => ⟨(hoctets l hl).1, not_mem_of_mem_split hl⟩⟩, hlabels, hin⟩

theorem read_join {s : Spot} {ls : List Str} (hne : ls ≠ []) (hls : ∀ l ∈ ls, Word l) :
    s.read (join dot ls) = if s = star ∨ s = lost then lost else word := by
  induction ls generalizing s with
  | nil => exact absurd rfl hne
  | cons l ls ih =>
    obtain ⟨hl, hls⟩ := forall_mem_cons.1 hls
    cases ls with
    | nil => rw [join_singleton, read_word hl]
    | cons l' ls =>
      rw [join_cons_cons, read_append, read_word hl]
      split_ifs
      · exact lost_read _
      · exact ih (by simp) hls

theorem IsZone.read (hz : IsZone z) (s : Spot) :
    s.read (trimSuffix z [dot]) = if s = star ∨ s = lost then lost else word := by
  obtain ⟨hne, hn, -⟩ := hz.1.labelsOf_spec
  have hwords : ∀ l ∈ labelsOf z, Word l := by
    intro l hl
    obtain ⟨i, hi⟩ := mem_iff_getElem?.1 hl
    exact (labelOK_iff.1 (labelOK_true (hz.2 (l, i) (mk_mem_zipIdx_iff_getElem?.2 hi)))).1
  have hbare : trimSuffix z [dot] = join dot (labelsOf z) := by
    rw [trimSuffix, if_pos hz.1.hasSuffix]
    conv_lhs => rw [hn]
    simp
  rw [hbare, read_join hne hwords]

end TangraDns.Validate
