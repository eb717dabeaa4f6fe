/-
  Texts with gaps: the pieces between the occurrences of a word, and another word
  put in its place.
-/
import Mathlib.Algebra.BigOperators.Group.List.Basic
import Mathlib.Algebra.Order.Ring.Nat
import TangraDns.Text.Trim

namespace Str

open List

variable {s t u old a b : Str} {ws : List Str} {U : CaseTables}

/-! ## Pieces -/

theorem intercalate_gap (b w w' : Str) (ws : List Str) :
    b.intercalate (w :: w' :: ws) = w ++ (b ++ b.intercalate (w' :: ws)) := by
  rw [List.intercalate_cons_cons, append_assoc]

theorem intercalate_cons (c : UInt8) (b w : Str) (ws : List Str) :
    b.intercalate ((c :: w) :: ws) = c :: b.intercalate (w :: ws) := by
  cases ws with
  | nil => rfl
  | cons w' ws => rw [intercalate_gap, intercalate_gap, cons_append]

theorem exists_pieces (old : Str) (k : ℕ) (s : Str) :
    ∃ w ws, ∀ new, replaceFrom old new k s = new.intercalate (w :: ws) := by
  induction s generalizing k with
  | nil => exact ⟨[], [], fun new => by cases k <;> rfl⟩
  | cons c s ih =>
    cases k with
    | succ k => exact ih k
    | zero =>
      by_cases h : HasPrefix (c :: s) old
      · obtain ⟨w, ws, hw⟩ := ih (old.length - 1)
        exact ⟨[], w :: ws, fun new => by rw [replaceFrom, if_pos h, hw, intercalate_gap]; rfl⟩
      · obtain ⟨w, ws, hw⟩ := ih 0
        exact ⟨c :: w, ws, fun new => by rw [replaceFrom, if_neg h, hw, intercalate_cons]⟩

theorem exists_intercalate_append (w : Str) (ws : List Str) (t u : Str) :
    ∃ w' ws', ∀ b : Str, b.intercalate (w :: ws) ++ (t ++ (b ++ u)) =
      b.intercalate (w' :: ws') := by
  induction ws generalizing w with
  | nil =>
    refine ⟨w ++ t, [u], fun b => ?_⟩
    rw [intercalate_gap, intercalate_singleton, intercalate_singleton, append_assoc]
  | cons w' ws ih =>
    obtain ⟨w₁, ws₁, h⟩ := ih w'
    exact ⟨w, w₁ :: ws₁,
      fun b => by rw [intercalate_gap, intercalate_gap, append_assoc, append_assoc, h]⟩

theorem replaceFrom_self (hold : old ≠ []) (k : ℕ) (s : Str) :
    replaceFrom old old k s = s.drop k := by
  induction s generalizing k with
  | nil => cases k <;> rfl
  | cons c s ih =>
    cases k with
    | succ k => exact ih k
    | zero =>
      rw [replaceFrom]
      split_ifs with h
      · obtain ⟨t, ht⟩ := h
        obtain ⟨d, o, rfl⟩ := exists_cons_of_ne_nil hold
        obtain ⟨rfl, rfl⟩ := List.cons.inj ht
        rw [ih, length_cons, Nat.add_sub_cancel]
        exact congrArg _ (drop_left ..)
      · rw [ih]
        rfl

theorem replaceFrom_of_not_mem {c : UInt8} {new x : Str} (hold : old.head? = some c)
    (h : c ∉ x) (t : Str) :
    replaceFrom old new 0 (x ++ t) = x ++ replaceFrom old new 0 t := by
  obtain ⟨o, rfl⟩ := head?_eq_some_iff.1 hold
  induction x with
  | nil => rfl
  | cons d x ih =>
    obtain ⟨hd, hx⟩ := not_or.1 (mt mem_cons.2 h)
    have hpre : ¬ HasPrefix (d :: (x ++ t)) (c :: o) := fun ⟨_, hp⟩ => hd (List.cons.inj hp).1
    rw [cons_append, replaceFrom, if_neg hpre, ih hx]
    rfl

/-! ## Reading pieces -/

theorem length_intercalate (b w : Str) (ws : List Str) :
    (b.intercalate (w :: ws)).length = w.length + (ws.map length).sum + ws.length * b.length := by
  induction ws generalizing w with
  | nil => rw [intercalate_singleton]; simp
  | cons w' ws ih =>
    rw [intercalate_gap, length_append, length_append, ih, map_cons, sum_cons, length_cons,
      Nat.succ_mul]
    omega

theorem foldl_intercalate {σ : Type} {f : σ → UInt8 → σ} (h : ∀ s, a.foldl f s = b.foldl f s)
    (w : Str) (s : σ) :
    (a.intercalate (w :: ws)).foldl f s = (b.intercalate (w :: ws)).foldl f s := by
  induction ws generalizing w s with
  | nil => rfl
  | cons w' ws ih => simp only [intercalate_gap, foldl_append, h, ih]

theorem intercalate_iff_last {P : Str → Prop} (hb : ∀ u t, P (u ++ (b ++ t)) ↔ P t) (w : Str)
    (ws : List Str) :
    P (b.intercalate (w :: ws)) ↔ P ((w :: ws).getLast (cons_ne_nil _ _)) := by
  induction ws generalizing w with
  | nil => rw [intercalate_singleton, getLast_singleton]
  | cons w' ws ih => exact (intercalate_gap ..) ▸ (hb _ _).trans (ih w')

/-! ## Printable words -/

/-- A word in printable bytes other than blanks. -/
def Seam (b : Str) : Prop := b ≠ [] ∧ ∀ c ∈ b, 0x21 ≤ c ∧ c ≤ 0x7e

theorem Seam.isASCII (h : Seam b) : isASCII b = true :=
  isASCII_iff.2 fun c hc => by have := (h.2 c hc).2; grind

theorem Seam.runes_append (h : Seam b) (u t : Str) :
    runes (u ++ (b ++ t)) = runes u ++ (runes b ++ runes t) := by
  have hcons : ∀ {b : Str}, Str.isASCII b = true → runes (b ++ t) = runes b ++ runes t := by
    intro b hb
    induction b with
    | nil => rfl
    | cons c b ih =>
      obtain ⟨hc, hb⟩ := forall_mem_cons.1 (isASCII_iff.1 hb)
      rw [cons_append, runes_cons hc, runes_cons hc, ih (isASCII_iff.2 hb), cons_append]
  obtain ⟨c, b, rfl⟩ := exists_cons_of_ne_nil h.1
  rw [cons_append, runes_append_ascii ((isASCII_iff.1 h.isASCII) c (.head _)), ← cons_append,
    hcons h.isASCII]

theorem Seam.isSpace (h : Seam b) {r : ℕ} (hr : r ∈ runes b) : isSpace r = false := by
  rw [runes_ascii h.isASCII] at hr
  obtain ⟨c, hc, rfl⟩ := List.mem_map.1 hr
  exact isSpace_of_printable (h.2 c hc)

theorem Seam.runes_ne_nil (h : Seam b) : runes b ≠ [] := by
  rw [runes_ascii h.isASCII, Ne, map_eq_nil_iff]
  exact h.1

theorem toLower_intercalate (hb : Seam b) (hlow : IsLowerStr b) (w : Str) (ws : List Str) :
    toLower U (b.intercalate (w :: ws)) = b.intercalate (toLower U w :: ws.map (toLower U)) := by
  induction ws generalizing w with
  | nil => rw [intercalate_singleton, map_nil, intercalate_singleton]
  | cons w' ws ih =>
    rw [intercalate_gap, toLower_eq, hb.runes_append, flatMap_append, flatMap_append, ← toLower_eq,
      ← toLower_eq, ← toLower_eq, toLower_of_isLowerStr _ hlow, ih, map_cons, intercalate_gap]

/-- A text without white space at its ends. -/
theorem trimSpace_eq_self_iff : trimSpace s = s ↔
    (∀ r ∈ (runes s).head?, isSpace r = false) ∧ ∀ r ∈ (runes s).getLast?, isSpace r = false := by
  have hends {l : List (Str × ℕ)} (h : l.dropWhile (fun p => isSpace p.2) = l) :
      ∀ p ∈ l.head?, isSpace p.2 = false := h ▸ head_dropWhile l
  constructor
  · intro h
    have hseg : trimmed s = segments s := by rw [← segments_trimSpace, h]
    obtain ⟨hfirst, hlast⟩ := hseg ▸ trimmed_ends s
    refine ⟨fun r hr => ?_, fun r hr => ?_⟩
    · rw [runes, head?_map] at hr
      obtain ⟨p, hp, rfl⟩ := Option.map_eq_some_iff.1 hr
      exact hends hfirst p hp
    · rw [runes, getLast?_map] at hr
      obtain ⟨p, hp, rfl⟩ := Option.map_eq_some_iff.1 hr
      exact hends hlast p (head?_reverse ▸ hp)
  · rintro ⟨hfirst, hlast⟩
    refine trimSpace_of_segments (fun p hp => hfirst p.2 ?_) fun p hp => hlast p.2 ?_
    · rw [runes, head?_map, Option.mem_def.1 hp]
      rfl
    · rw [runes, getLast?_map, ← head?_reverse, Option.mem_def.1 hp]
      rfl

/-- One printable word may stand for another without white space at the ends coming or going. -/
theorem trimSpace_intercalate {w : Str} (ha : Seam a) (hb : Seam b)
    (h : trimSpace (a.intercalate (w :: ws)) = a.intercalate (w :: ws)) :
    trimSpace (b.intercalate (w :: ws)) = b.intercalate (w :: ws) := by
  have hfirst {b : Str} (hb : Seam b) (u t : Str) :
      (∀ r ∈ (runes (u ++ (b ++ t))).head?, isSpace r = false) ↔
      ∀ r ∈ (runes u).head?, isSpace r = false := by
    rw [hb.runes_append]
    cases runes u with
    | nil =>
      rw [nil_append, head?_append_of_ne_nil _ hb.runes_ne_nil]
      simp only [head?_nil, Option.not_mem_none, false_implies, implies_true, iff_true]
      exact fun r hr => hb.isSpace (mem_of_mem_head? hr)
    | cons r rs => exact .rfl
  have hlast {b : Str} (hb : Seam b) (u t : Str) :
      (∀ r ∈ (runes (u ++ (b ++ t))).getLast?, isSpace r = false) ↔
      ∀ r ∈ (runes t).getLast?, isSpace r = false := by
    rw [hb.runes_append]
    rcases eq_or_ne (runes t) [] with ht | ht
    · rw [ht, append_nil, getLast?_append_of_ne_nil _ hb.runes_ne_nil]
      simp only [getLast?_nil, Option.not_mem_none, false_implies, implies_true, iff_true]
      exact fun r hr => hb.isSpace (mem_of_mem_getLast? hr)
    · rw [← append_assoc, getLast?_append_of_ne_nil _ ht]
  rw [trimSpace_eq_self_iff] at h ⊢
  have hend {b : Str} (hb : Seam b) := intercalate_iff_last
    (P := fun s => ∀ r ∈ (runes s).getLast?, isSpace r = false) (hlast hb) w ws
  refine ⟨?_, (hend hb).2 ((hend ha).1 h.2)⟩
  cases ws with
  | nil => exact h.1
  | cons w' ws =>
    rw [intercalate_gap, hfirst hb]
    rw [intercalate_gap, hfirst ha] at h
    exact h.1

/-! ## Fields -/

theorem closed_append_eq_join (c : UInt8) (xs : List Str) (n : Str) :
    closed c xs ++ n = join c (xs ++ [n]) := by
  rcases eq_or_ne xs [] with rfl | hne
  · rw [closed_nil, nil_append, nil_append, join_singleton]
  · rw [join_append c hne (by simp), closed_eq_join hne, join_singleton, append_assoc]
    rfl

theorem fields_join {ss : List Str} (hne : ss ≠ []) (h : ∀ s ∈ ss, Seam s) :
    fields (join 32 ss) = ss := by
  have hparts (s : Str) : fields s = (Parts.parts (fun p => isSpace p.2) (segments s)).map bytes :=
    rfl
  have hone {s : Str} (hs : Seam s) : fields s = [s] := by
    have hspace : ∀ p ∈ segments s, isSpace p.2 = false := fun p hp =>
      hs.isSpace (mem_map_of_mem hp)
    have hnil : segments s ≠ [] := fun h => hs.runes_ne_nil (by rw [runes, h]; rfl)
    rw [hparts, Parts.parts_of_forall hspace hnil, map_singleton, bytes_segments]
  induction ss with
  | nil => exact absurd rfl hne
  | cons s ss ih =>
    obtain ⟨hs, hss⟩ := forall_mem_cons.1 h
    cases ss with
    | nil => rw [join_singleton, hone hs]
    | cons s' ss =>
      have hblank (t : Str) : segments (32 :: t) = ([32], 32) :: segments t := rfl
      rw [join_cons_cons, hparts, segments_append_ascii (by decide), hblank,
        Parts.parts_append (f := fun p : Str × ℕ => isSpace p.2) rfl, map_append, ← hparts,
          ← hparts, hone hs,
        ih (by simp) hss]
      rfl

end Str
