/-
  Splitting a string at a separator and joining it again.
-/
import TangraDns.Text.Bytes

namespace Str

open List

variable {b : UInt8} {s t : Str} {ls xs ys : List Str}

theorem split_ne_nil (b : UInt8) (s : Str) : split b s ≠ [] := splitOn_ne_nil b s

theorem join_split (b : UInt8) (s : Str) : join b (split b s) = s := intercalate_splitOn b

theorem split_join (h : ∀ l ∈ ls, b ∉ l) (hne : ls ≠ []) : split b (join b ls) = ls :=
  splitOn_intercalate b h hne

theorem split_cons (b c : UInt8) (s : Str) :
    split b (c :: s) = if c = b then [] :: split b s else (split b s).modifyHead (c :: ·) := by
  simp only [split, splitOn_cons_eq_if_modifyHead, beq_iff_eq]

theorem not_mem_of_mem_split {l : Str} (h : l ∈ split b s) : b ∉ l := by
  induction s generalizing l with
  | nil =>
    rw [split, splitOn_nil, mem_singleton] at h
    simp [h]
  | cons c s ih =>
    rw [split_cons] at h
    split_ifs at h with hc
    · rcases mem_cons.1 h with rfl | h
      · simp
      · exact ih h
    · cases hs : split b s with
      | nil => exact absurd hs (split_ne_nil b s)
      | cons l' ls =>
        rw [hs, modifyHead_cons, mem_cons] at h
        rcases h with rfl | h
        · have := ih (l := l') (by simp [hs])
          simp [Ne.symm hc, this]
        · exact ih (by simp [hs, h])

theorem join_cons_cons (b : UInt8) (l l' : Str) (ls : List Str) :
    join b (l :: l' :: ls) = l ++ b :: join b (l' :: ls) := by
  simp [join, intercalate_cons_cons]

theorem join_singleton (b : UInt8) (l : Str) : join b [l] = l := intercalate_singleton

theorem mem_join {a b : UInt8} {ls : List Str} (h : a ∈ join b ls) : a = b ∨ ∃ l ∈ ls, a ∈ l := by
  induction ls with
  | nil => cases h
  | cons l ls ih =>
    cases ls with
    | nil =>
      rw [join_singleton] at h
      exact .inr ⟨l, mem_cons_self .., h⟩
    | cons l' ls =>
      rw [join_cons_cons, mem_append, mem_cons] at h
      rcases h with h | rfl | h
      · exact .inr ⟨l, mem_cons_self .., h⟩
      · exact .inl rfl
      · exact (ih h).imp_right fun ⟨m, hm, ha⟩ => ⟨m, mem_cons_of_mem _ hm, ha⟩

theorem mem_join_of_mem {a b : UInt8} {l : Str} {ls : List Str} (hl : l ∈ ls) (ha : a ∈ l) :
    a ∈ join b ls := by
  induction ls with
  | nil => cases hl
  | cons l' ls ih =>
    cases ls with
    | nil =>
      rw [join_singleton, ← mem_singleton.1 hl]
      exact ha
    | cons l'' ls =>
      rw [join_cons_cons]
      rcases mem_cons.1 hl with rfl | hl
      · exact mem_append_left _ ha
      · exact mem_append_right _ (mem_cons_of_mem _ (ih hl))

theorem mem_of_mem_split {a : UInt8} {l : Str} (hl : l ∈ split b s) (ha : a ∈ l) : a ∈ s := by
  rw [← join_split b s]
  exact mem_join_of_mem hl ha

theorem join_append (b : UInt8) : ∀ {xs ys : List Str}, xs ≠ [] → ys ≠ [] →
    join b (xs ++ ys) = join b xs ++ b :: join b ys
  | [l], ys, _, hy => by
    obtain ⟨l', ls, rfl⟩ := exists_cons_of_ne_nil hy
    rw [join_singleton, singleton_append, join_cons_cons]
  | l :: l' :: xs, ys, _, hy => by
    rw [cons_append, cons_append, join_cons_cons, join_cons_cons, ← cons_append,
      join_append b (by simp) hy, append_assoc, cons_append]

/-- A name that does not start with the separator and holds no two in a row has no empty part. -/
theorem ne_nil_of_mem_split (hs : s ≠ []) (hp : ¬ HasPrefix (s ++ [b]) [b])
    (hc : ¬ Contains (s ++ [b]) [b, b]) {l : Str} (h : l ∈ split b s) : l ≠ [] := by
  rintro rfl
  obtain ⟨xs, ys, hxy⟩ := append_of_mem h
  have hj := join_split b s
  rw [hxy] at hj
  cases xs with
  | nil =>
    cases ys with
    | nil => exact hs (by rw [← hj]; rfl)
    | cons l ls =>
      rw [nil_append, join_cons_cons, nil_append] at hj
      exact hp ⟨join b (l :: ls) ++ [b], by rw [← hj]; simp⟩
  | cons x xs =>
    rw [join_append b (by simp) (by simp)] at hj
    cases ys with
    | nil =>
      rw [join_singleton] at hj
      exact hc ⟨join b (x :: xs), [], by rw [← hj]; simp⟩
    | cons l ls =>
      rw [join_cons_cons, nil_append] at hj
      exact hc ⟨join b (x :: xs), join b (l :: ls) ++ [b], by rw [← hj]; simp⟩

theorem split_nil (b : UInt8) : split b [] = [[]] := splitOn_nil b

theorem split_append (b : UInt8) (s t : Str) : split b (s ++ b :: t) = split b s ++ split b t := by
  induction s with
  | nil => rw [nil_append, split_cons, if_pos rfl, split_nil]; rfl
  | cons c s ih =>
    rw [cons_append, split_cons, split_cons, ih]
    split_ifs
    · rfl
    · obtain ⟨l, ls, hl⟩ := exists_cons_of_ne_nil (split_ne_nil b s)
      rw [hl]
      rfl

theorem not_contains_join (h : ∀ l ∈ ls, l ≠ [] ∧ b ∉ l) (hne : ls ≠ []) :
    ¬ Contains (join b ls ++ [b]) [b, b] := by
  rintro ⟨u, v, huv⟩
  have hs : split b (join b ls ++ [b]) = ls ++ [[]] := by
    rw [split_append, split_join (fun l hl => (h l hl).2) hne, split_nil]
  have hs' : split b (join b ls ++ [b]) = (split b u ++ [[]]) ++ split b v := by
    rw [← huv, append_assoc, cons_append, split_append, singleton_append, split_cons,
      if_pos rfl, append_assoc]
    rfl
  -- the part between the two separators is one of the parts
  have hmem : ([] : Str) ∈ ls := by
    have hd := congrArg List.dropLast (hs.symm.trans hs')
    rw [dropLast_concat, dropLast_append_of_ne_nil (split_ne_nil b v)] at hd
    rw [hd]
    simp
  exact (h [] hmem).1 rfl

theorem not_hasPrefix_join (h : ∀ l ∈ ls, l ≠ [] ∧ b ∉ l) (hne : ls ≠ []) :
    ¬ HasPrefix (join b ls ++ [b]) [b] := by
  rintro ⟨v, hv⟩
  have hs : split b (join b ls ++ [b]) = ls ++ [[]] := by
    rw [split_append, split_join (fun l hl => (h l hl).2) hne, split_nil]
  rw [← hv, singleton_append, split_cons, if_pos rfl] at hs
  obtain ⟨l, ls', rfl⟩ := exists_cons_of_ne_nil hne
  exact (h l (mem_cons_self ..)).1 (List.cons.inj hs).1.symm

/-! ## Parts that end with the separator -/

/-- The parts, each with the separator at its end. -/
def closed (b : UInt8) (ls : List Str) : Str := ls.flatMap (· ++ [b])

@[simp] theorem closed_nil (b : UInt8) : closed b [] = [] := rfl

@[simp] theorem closed_cons (b : UInt8) (l : Str) (ls : List Str) :
    closed b (l :: ls) = l ++ b :: closed b ls := by
  simp [closed]

@[simp] theorem closed_append (b : UInt8) (xs ys : List Str) :
    closed b (xs ++ ys) = closed b xs ++ closed b ys := by
  simp [closed]

theorem closed_eq_join (hne : ls ≠ []) : closed b ls = join b ls ++ [b] := by
  induction ls with
  | nil => exact absurd rfl hne
  | cons l ls ih =>
    cases ls with
    | nil => simp [join_singleton]
    | cons l' ls => rw [closed_cons, ih (by simp), join_cons_cons, append_assoc, cons_append]

theorem split_closed (h : ∀ l ∈ ls, b ∉ l) : split b (closed b ls) = ls ++ [[]] := by
  cases ls with
  | nil => exact split_nil b
  | cons l ls => rw [closed_eq_join (by simp), split_append, split_join h (by simp), split_nil]

theorem closed_inj (hx : ∀ l ∈ xs, b ∉ l) (hy : ∀ l ∈ ys, b ∉ l) :
    closed b xs = closed b ys ↔ xs = ys := by
  refine ⟨fun h => ?_, fun h => by rw [h]⟩
  have hsplit := split_closed hx
  rw [h, split_closed hy] at hsplit
  exact (append_cancel_right hsplit).symm

theorem suffix_closed_iff (hx : ∀ l ∈ xs, b ∉ l) (hy : ∀ l ∈ ys, b ∉ l) :
    closed b xs = closed b ys ∨ b :: closed b ys <:+ closed b xs ↔ ys <:+ xs := by
  constructor
  · rintro (h | ⟨u, hu⟩)
    · rw [(closed_inj hx hy).1 h]
    · have hsplit := split_closed hx
      rw [← hu, split_append, split_closed hy, ← append_assoc] at hsplit
      exact ⟨split b u, append_cancel_right hsplit⟩
  · rintro ⟨zs, rfl⟩
    rcases eq_nil_or_concat zs with rfl | ⟨zs, z, rfl⟩
    · exact .inl rfl
    · exact .inr ⟨closed b zs ++ z, by simp⟩

/-! ## Replacing -/

theorem replaceAll_of_not_contains {old new x : Str} (h : ¬ Contains x old) :
    replaceAll x old new = x := by
  unfold replaceAll
  induction x with
  | nil => rfl
  | cons c x ih =>
    rw [replaceFrom, if_neg fun hp : HasPrefix _ _ => h (List.IsPrefix.isInfix hp),
      ih fun hx => h (hx.trans (suffix_cons ..).isInfix)]

end Str
