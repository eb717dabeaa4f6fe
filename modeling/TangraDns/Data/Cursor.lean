/-
  Positions in a log with ordered keys: a reader that keeps only the key of the
  entry it read last asks for the entries with a greater key.
-/
import Mathlib.Data.List.Basic
import Mathlib.Data.List.Infix
import Mathlib.Tactic.Common

variable {α κ : Type} {lt : κ → κ → Bool} {key : α → κ}

def Ascending (lt : κ → κ → Bool) (key : α → κ) (log : List α) : Prop :=
  log.Pairwise fun a b => lt (key a) (key b) = true

/-- Of the entries after the first `gone` ones, those before position `n` are not beyond `k`, and
    those from `n` on are. -/
structure CursorAt (lt : κ → κ → Bool) (key : α → κ) (log : List α) (gone n : ℕ) (k : κ) :
    Prop where
  gone_le : gone ≤ n
  le : n ≤ log.length
  behind : ∀ a ∈ (log.take n).drop gone, lt k (key a) = false
  ahead : ∀ a ∈ log.drop n, lt k (key a) = true

namespace CursorAt

open List

variable {log : List α} {gone n : ℕ} {k : κ}

theorem filter_eq (h : CursorAt lt key log gone n k) :
    (log.drop gone).filter (fun a => lt k (key a)) = log.drop n := by
  have hsplit : log.drop gone = (log.take n).drop gone ++ log.drop n := by
    conv_lhs => rw [← take_append_drop n log]
    rw [drop_append_of_le_length]
    rw [length_take_of_le h.le]
    exact h.gone_le
  rw [hsplit, filter_append, filter_eq_self.2 h.ahead, filter_eq_nil_iff.2, nil_append]
  intro a ha
  rw [h.behind a ha]
  exact Bool.false_ne_true

theorem append (h : CursorAt lt key log gone n k) {a : α} (ha : lt k (key a) = true) :
    CursorAt lt key (log ++ [a]) gone n k := by
  refine ⟨h.gone_le, ?_, ?_, ?_⟩
  · rw [length_append]
    exact Nat.le_add_right_of_le h.le
  · rw [take_append_of_le_length h.le]
    exact h.behind
  · rw [drop_append_of_le_length h.le]
    intro b hb
    rcases mem_append.1 hb with hb | hb
    · exact h.ahead b hb
    · rwa [mem_singleton.1 hb]

theorem trim (h : CursorAt lt key log gone n k) {gone' : ℕ} (hgone : gone ≤ gone')
    (hn : gone' ≤ n) :
    CursorAt lt key log gone' n k := by
  refine ⟨hn, h.le, fun a ha => h.behind a ?_, h.ahead⟩
  exact (drop_suffix_drop_left _ hgone).mem ha

theorem trim_max (h : CursorAt lt key log gone n k) {gone' : ℕ} (hgone : gone ≤ gone')
    (hle : gone' ≤ log.length) :
    CursorAt lt key log gone' (max n gone') k := by
  rcases le_total gone' n with hn | hn
  · rw [max_eq_left hn]
    exact h.trim hgone hn
  · rw [max_eq_right hn]
    refine ⟨le_rfl, hle, fun a ha => ?_,
      fun a ha => h.ahead a ((drop_suffix_drop_left _ hn).mem ha)⟩
    rw [drop_take, Nat.sub_self] at ha
    cases ha

theorem of_entry (hirrefl : ∀ k, lt k k = false) (hasymm : ∀ k k', lt k k' = true → lt k' k = false)
    (hlog : Ascending lt key log) {a : α} (ha : log[n]? = some a) (hgone : gone ≤ n + 1) :
    CursorAt lt key log gone (n + 1) (key a) := by
  obtain ⟨hn, rfl⟩ := List.getElem?_eq_some_iff.1 ha
  have hsorted := pairwise_iff_getElem.1 hlog
  refine ⟨hgone, hn, fun b hb => ?_, fun b hb => ?_⟩
  · obtain ⟨i, hi, rfl⟩ := getElem_of_mem (mem_of_mem_drop hb)
    rw [length_take_of_le hn] at hi
    rw [getElem_take]
    rcases Nat.lt_succ_iff_lt_or_eq.1 hi with hi | rfl
    · exact hasymm _ _ (hsorted i n (by omega) hn hi)
    · exact hirrefl _
  · obtain ⟨i, hi, rfl⟩ := getElem_of_mem hb
    rw [getElem_drop]
    rw [length_drop] at hi
    exact hsorted n (n + 1 + i) hn (by omega) (by omega)

theorem of_gone (log : List α) (k : κ) : CursorAt lt key log log.length log.length k := by
  refine ⟨le_rfl, le_rfl, fun a ha => ?_, fun a ha => ?_⟩
  · simp at ha
  · simp at ha

end CursorAt
