/-
  Aligned blocks: the numbers with a common quotient by a power of two.
-/
import Mathlib.Algebra.BigOperators.Fin
import Mathlib.Algebra.Order.BigOperators.Group.Finset
import Mathlib.Order.Interval.Finset.Nat

/-- The numbers whose quotient by `2 ^ shift` is `index`. -/
structure Block where
  shift : ℕ
  index : ℕ
deriving DecidableEq, Repr

namespace Block

variable {b c d : Block} {l : List Block} {x w : ℕ}

def Has (b : Block) (x : ℕ) : Prop := x / 2 ^ b.shift = b.index

instance : Decidable (b.Has x) := inferInstanceAs (Decidable (_ = _))

def size (b : Block) : ℕ := 2 ^ b.shift

def In (b c : Block) : Prop := b.shift ≤ c.shift ∧ b.index / 2 ^ (c.shift - b.shift) = c.index

instance : Decidable (b.In c) := inferInstanceAs (Decidable (_ ∧ _))

def Outer (l : List Block) (b : Block) : Prop := ∀ c ∈ l, b.In c → c = b

instance : Decidable (Outer l b) := inferInstanceAs (Decidable (∀ c ∈ l, _))

def total (l : List Block) : ℕ := ((l.filter fun b => Outer l b).map size).sum

/-! ## Nesting -/

theorem in_refl (b : Block) : b.In b := ⟨le_rfl, by simp⟩

theorem In.trans (h : b.In c) (h' : c.In d) : b.In d := by
  refine ⟨h.1.trans h'.1, ?_⟩
  rw [← h'.2, ← h.2, Nat.div_div_eq_div_mul, ← pow_add]
  congr 2
  have := h.1
  have := h'.1
  omega

theorem In.eq (h : b.In c) (hs : c.shift ≤ b.shift) : c = b := by
  have hshift : c.shift = b.shift := le_antisymm hs h.1
  have hindex := h.2
  rw [hshift, Nat.sub_self, pow_zero, Nat.div_one] at hindex
  cases b
  cases c
  simp_all

/-- A block that lies in another has its numbers there, and otherwise they have none in common. -/
theorem in_iff_of_has (hs : b.shift ≤ c.shift) (hb : b.Has x) : b.In c ↔ c.Has x := by
  have hsplit : x / 2 ^ c.shift = b.index / 2 ^ (c.shift - b.shift) := by
    rw [← show x / 2 ^ b.shift = b.index from hb, Nat.div_div_eq_div_mul, ← pow_add,
      Nat.add_sub_cancel' hs]
  exact ⟨fun h => hsplit.trans h.2, fun h => ⟨hs, hsplit.symm.trans h⟩⟩

theorem exists_outer (hb : b ∈ l) : ∃ c ∈ l, Outer l c ∧ b.In c := by
  -- the largest of the blocks it lies in
  have hne : (l.toFinset.filter fun c => b.In c).Nonempty := ⟨b, by simp [hb, in_refl]⟩
  obtain ⟨c, hc, hmax⟩ := Finset.exists_max_image _ shift hne
  obtain ⟨hcl, hbc⟩ := Finset.mem_filter.1 hc
  refine ⟨c, List.mem_toFinset.1 hcl, fun d hd hcd => hcd.eq (hmax d ?_), hbc⟩
  exact Finset.mem_filter.2 ⟨List.mem_toFinset.2 hd, hbc.trans hcd⟩

theorem Outer.eq_of_has (hb : Outer l b) (hc : Outer l c) (hbl : b ∈ l) (hcl : c ∈ l)
    (hbx : b.Has x) (hcx : c.Has x) :
    b = c := by
  rcases le_total b.shift c.shift with hs | hs
  · exact (hb c hcl ((in_iff_of_has hs hbx).2 hcx)).symm
  · exact hc b hbl ((in_iff_of_has hs hcx).2 hbx)

/-! ## Counting -/

def numbers (b : Block) : Finset ℕ :=
  Finset.Ico (b.index * 2 ^ b.shift) ((b.index + 1) * 2 ^ b.shift)

theorem mem_numbers : x ∈ b.numbers ↔ b.Has x := by
  have hpos : 0 < 2 ^ b.shift := Nat.two_pow_pos _
  rw [numbers, Finset.mem_Ico, Has, Nat.div_eq_iff hpos, Nat.add_mul]
  omega

theorem card_numbers (b : Block) : b.numbers.card = b.size := by
  rw [numbers, Nat.card_Ico, Nat.add_mul, Nat.add_sub_cancel_left, Nat.one_mul, size]

theorem card_outer (hl : l.Nodup) :
    ((l.filter fun b => Outer l b).toFinset.biUnion numbers).card = total l := by
  rw [Finset.card_biUnion, total, List.sum_toFinset _ (hl.filter _)]
  · simp only [card_numbers]
  · intro b hb c hc hne
    obtain ⟨hbl, hbo⟩ := List.mem_filter.1 (List.mem_toFinset.1 hb)
    obtain ⟨hcl, hco⟩ := List.mem_filter.1 (List.mem_toFinset.1 hc)
    refine Finset.disjoint_left.2 fun x hx hx' => ?_
    exact hne ((of_decide_eq_true hbo).eq_of_has (of_decide_eq_true hco) hbl hcl (mem_numbers.1 hx)
      (mem_numbers.1 hx'))

/-- **Blocks cover the numbers below `2 ^ w` just if the outer ones are that large together.** -/
theorem covers_iff (hl : l.Nodup) (hw : ∀ b ∈ l, ∀ x, b.Has x → x < 2 ^ w) :
    (∀ x < 2 ^ w, ∃ b ∈ l, b.Has x) ↔ 2 ^ w ≤ total l := by
  have hmem (x : ℕ) : x ∈ (l.filter fun b => Outer l b).toFinset.biUnion numbers ↔
      ∃ b ∈ l, b.Has x := by
    simp only [Finset.mem_biUnion, List.mem_toFinset, List.mem_filter, decide_eq_true_eq,
      mem_numbers]
    constructor
    · rintro ⟨b, ⟨hb, -⟩, hx⟩
      exact ⟨b, hb, hx⟩
    · rintro ⟨b, hb, hx⟩
      obtain ⟨c, hc, hout, hin⟩ := exists_outer hb
      exact ⟨c, ⟨hc, hout⟩, (in_iff_of_has hin.1 hx).1 hin⟩
  have hsub : (l.filter fun b => Outer l b).toFinset.biUnion numbers ⊆ Finset.range (2 ^ w) := by
    intro x hx
    obtain ⟨b, hb, hbx⟩ := (hmem x).1 hx
    exact Finset.mem_range.2 (hw b hb x hbx)
  rw [← card_outer hl]
  constructor
  · intro h
    calc 2 ^ w = (Finset.range (2 ^ w)).card := (Finset.card_range _).symm
      _ ≤ _ := Finset.card_le_card fun x hx => (hmem x).2 (h x (Finset.mem_range.1 hx))
  · intro h x hx
    have heq := Finset.eq_of_subset_of_card_le hsub (by rwa [Finset.card_range])
    exact (hmem x).1 (heq ▸ Finset.mem_range.2 hx)

end Block
