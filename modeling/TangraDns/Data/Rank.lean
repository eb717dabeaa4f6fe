/-
  The first elements of a sorted list: those with few elements before them.
-/
import Mathlib.Data.List.Sort
import Mathlib.Tactic.Common

namespace List

open List

variable {α : Type} {r : α → α → Prop} [DecidableRel r] [DecidableEq α] {l : List α} {c : α}

theorem mem_take_iff_of_sorted (hl : l.Pairwise r) (hnd : l.Nodup)
    (anti : ∀ a ∈ l, ∀ b ∈ l, r a b → r b a → a = b) (hc : c ∈ l) (k : ℕ) :
    c ∈ l.take k ↔ (l.filter fun a => r a c ∧ a ≠ c).length < k := by
  obtain ⟨pre, post, rfl⟩ := append_of_mem hc
  obtain ⟨hpre, hpost, hacross⟩ := pairwise_append.1 hl
  obtain ⟨-, hnd', hdisj⟩ := nodup_append.1 hnd
  have hcpre : c ∉ pre := fun h => hdisj c h c mem_cons_self rfl
  -- exactly the elements before `c` are counted
  have hbefore : (pre.filter fun a => r a c ∧ a ≠ c) = pre :=
    filter_eq_self.2 fun a ha => decide_eq_true
      ⟨hacross a ha c mem_cons_self, fun h => hcpre (h ▸ ha)⟩
  have hafter : (post.filter fun a => r a c ∧ a ≠ c) = [] := by
    refine filter_eq_nil_iff.2 fun a ha h => ?_
    obtain ⟨hac, hne⟩ := of_decide_eq_true h
    have hca : r c a := rel_of_pairwise_cons hpost ha
    exact hne (anti a (mem_append_right _ (mem_cons_of_mem _ ha)) c hc hac hca)
  rw [filter_append, filter_cons_of_neg (by simp), hbefore, hafter, append_nil]
  constructor
  · intro h
    by_contra hk
    rw [take_append_of_le_length (not_lt.1 hk)] at h
    exact hcpre (mem_of_mem_take h)
  · intro hk
    obtain ⟨m, hm⟩ := Nat.exists_eq_add_of_lt hk
    rw [take_append, take_of_length_le hk.le, show k - pre.length = m + 1 by omega, take_succ_cons]
    exact mem_append_right _ mem_cons_self

/-- An element is among the first `k` of a list without duplicates, once it is sorted, if fewer than
    `k` others come before it. -/
theorem mem_take_insertionSort_iff [Std.Total r] [IsTrans α r] (hnd : l.Nodup)
    (anti : ∀ a ∈ l, ∀ b ∈ l, r a b → r b a → a = b) (hc : c ∈ l) (k : ℕ) :
    c ∈ (l.insertionSort r).take k ↔ (l.filter fun a => r a c ∧ a ≠ c).length < k := by
  have hperm := perm_insertionSort r l
  rw [mem_take_iff_of_sorted (pairwise_insertionSort r l) (hperm.nodup_iff.2 hnd) ?_
    ((mem_insertionSort r).2 hc), (hperm.filter _).length_eq]
  exact fun a ha b hb => anti a ((mem_insertionSort r).1 ha) b ((mem_insertionSort r).1 hb)

end List
