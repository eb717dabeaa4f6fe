/-
  Tables: finite collections of rows no two of which clash.

  Which rows clash is given with the row type (`Keyed`): two rows that share a
  primary key or a value of a unique index.  The table carries the proof that
  its rows do not, so a row is determined by any of its keys.
-/
import Mathlib.Data.List.Pairwise
import Mathlib.Tactic.Common

/-- Rows with unique keys: `clash a b` when `a` and `b` cannot be in one table. -/
class Keyed (α : Type) where
  clash : α → α → Bool
  symm : ∀ a b, clash a b = clash b a

structure Table (α : Type) [Keyed α] where
  rows : List α
  noClash : rows.Pairwise fun a b => Keyed.clash a b = false

namespace Table

open List

variable {α : Type} [Keyed α] (t : Table α)
variable {f : α → α} {q : α → Bool} {u : Table α}

def empty : Table α := ⟨[], List.Pairwise.nil⟩

def find (p : α → Bool) : Option α := t.rows.find? p

def insert (a : α) : Option (Table α) :=
  if h : ∀ b ∈ t.rows, Keyed.clash b a = false then
    some ⟨t.rows ++ [a], pairwise_append.2
      ⟨t.noClash, pairwise_singleton _ _, fun b hb c hc => by
        rw [mem_singleton.1 hc]; exact h b hb⟩⟩
  else none

def filter (p : α → Bool) : Table α := ⟨t.rows.filter p, t.noClash.filter p⟩

/-- Every row changed by `f`, which makes no rows clash that did not. -/
def map (f : α → α) (hf : ∀ a b, Keyed.clash (f a) (f b) = Keyed.clash a b) : Table α :=
  ⟨t.rows.map f, pairwise_map.2 (t.noClash.imp fun h => (hf _ _).trans h)⟩

instance : Membership α (Table α) := ⟨fun t a => a ∈ t.rows⟩

theorem mem_iff {t : Table α} {a : α} : a ∈ t ↔ a ∈ t.rows := Iff.rfl

@[ext] theorem ext {t t' : Table α} (h : t.rows = t'.rows) : t = t' := by
  cases t; cases t'; congr

variable {t} {t' : Table α} {a b : α} {p : α → Bool}

theorem eq_of_clash (ha : a ∈ t) (hb : b ∈ t) (h : Keyed.clash a b = true) : a = b := by
  have : Std.Symm fun a b : α => Keyed.clash a b = false := ⟨fun a b h => by rw [Keyed.symm, h]⟩
  by_contra hne
  rw [t.noClash.forall ha hb hne] at h
  cases h

theorem insert_eq_none : t.insert a = none ↔ ∃ b ∈ t, Keyed.clash b a = true := by
  unfold insert
  split_ifs with h
  · simp only [false_iff, not_exists, not_and, Bool.not_eq_true]
    exact h
  · simpa only [mem_iff, true_iff, not_forall, Bool.not_eq_false, exists_prop] using h

theorem insert_rows (h : t.insert a = some t') : t'.rows = t.rows ++ [a] := by
  unfold insert at h
  split_ifs at h with hc
  rw [← Option.some.inj h]

theorem noClash_of_insert (h : t.insert a = some t') (hb : b ∈ t) : Keyed.clash b a = false := by
  unfold insert at h
  split_ifs at h with hc
  exact hc b hb

theorem mem_insert (h : t.insert a = some t') : b ∈ t' ↔ b ∈ t ∨ b = a := by
  rw [mem_iff, insert_rows h, mem_append, mem_singleton]; rfl

@[simp] theorem mem_filter : a ∈ t.filter p ↔ a ∈ t ∧ p a = true := List.mem_filter

@[simp] theorem mem_map {hf} : b ∈ t.map f hf ↔ ∃ a ∈ t, f a = b := List.mem_map

theorem mem_of_find (h : t.find p = some a) : a ∈ t ∧ p a = true :=
  ⟨mem_of_find?_eq_some h, find?_some h⟩

theorem find_eq_none : t.find p = none ↔ ∀ a ∈ t, p a = false := by
  simp only [find, find?_eq_none, Bool.not_eq_true]; rfl

theorem find_eq_some (ha : a ∈ t) (hp : p a = true)
    (huniq : ∀ b ∈ t, p b = true → Keyed.clash b a = true) : t.find p = some a := by
  cases hf : t.find p with
  | none => rw [find_eq_none.1 hf a ha] at hp; cases hp
  | some b =>
    obtain ⟨hb, hpb⟩ := mem_of_find hf
    rw [eq_of_clash hb ha (huniq b hb hpb)]

theorem find_filter_eq_some {κ : Type} [BEq κ] [LawfulBEq κ] {key : α → κ} {k : κ}
    (hkey : ∀ a b, key a = key b → Keyed.clash a b = true) :
    (t.find fun a => key a == k).filter q = some a ↔ a ∈ t ∧ key a = k ∧ q a = true := by
  rw [Option.filter_eq_some_iff]
  constructor
  · rintro ⟨h, hq⟩
    obtain ⟨ha, hk⟩ := mem_of_find h
    exact ⟨ha, eq_of_beq hk, hq⟩
  · rintro ⟨ha, rfl, hq⟩
    exact ⟨find_eq_some ha (beq_self_eq_true _) fun b _ hb => hkey b a (eq_of_beq hb), hq⟩

/-! ## A part of the rows -/

theorem filter_insert (h : t.insert a = some t') (ha : p a = false) :
    t'.rows.filter p = t.rows.filter p := by
  rw [insert_rows h, filter_append, filter_cons_of_neg (by simp [ha]), filter_nil,
    append_nil]

theorem filter_filter (h : ∀ a ∈ t, p a = true → q a = true) :
    (t.filter q).rows.filter p = t.rows.filter p := by
  rw [filter, List.filter_filter]
  refine filter_congr fun a ha => ?_
  cases hp : p a with
  | false => simp
  | true => simp [h a ha hp]

theorem filter_map (hp : ∀ a ∈ t, p (f a) = p a) (hid : ∀ a ∈ t, p a = true → f a = a) :
    (t.rows.map f).filter p = t.rows.filter p := by
  rw [List.filter_map]
  have hcomp : t.rows.filter (p ∘ f) = t.rows.filter p := filter_congr hp
  rw [hcomp]
  refine (map_congr_left fun a ha => ?_).trans (map_id _)
  obtain ⟨hmem, hpa⟩ := List.mem_filter.1 ha
  exact hid a hmem hpa

theorem insert_congr (hp : t.rows.filter p = u.rows.filter p)
    (ht : ∀ b ∈ t, p b = false → Keyed.clash b a = false)
    (hu : ∀ b ∈ u, p b = false → Keyed.clash b a = false) :
    (t.insert a = none ∧ u.insert a = none) ∨
      ∃ t' u', t.insert a = some t' ∧ u.insert a = some u' ∧
        t'.rows.filter p = u'.rows.filter p := by
  have hclash : ∀ {t u : Table α}, t.rows.filter p = u.rows.filter p →
      (∀ b ∈ t, p b = false → Keyed.clash b a = false) → t.insert a = none → u.insert a = none := by
    intro t u hp ht h
    obtain ⟨b, hb, hc⟩ := insert_eq_none.1 h
    have hpb : p b = true := by
      by_contra hpb
      rw [ht b hb (by simpa using hpb)] at hc
      cases hc
    have hb' : b ∈ u.rows.filter p := by
      rw [← hp]
      exact List.mem_filter.2 ⟨hb, hpb⟩
    exact insert_eq_none.2 ⟨b, (List.mem_filter.1 hb').1, hc⟩
  cases h : t.insert a with
  | none => exact .inl ⟨rfl, hclash hp ht h⟩
  | some t' =>
    cases h' : u.insert a with
    | none => rw [hclash hp.symm hu h'] at h; cases h
    | some u' =>
      refine .inr ⟨t', u', rfl, rfl, ?_⟩
      rw [insert_rows h, insert_rows h', filter_append, filter_append, hp]

theorem filter_filter_comm (hp : t.rows.filter p = u.rows.filter p) :
    (t.filter q).rows.filter p = (u.filter q).rows.filter p := by
  have hcomm : ∀ t : Table α, (t.filter q).rows.filter p = (t.rows.filter p).filter q := by
    intro t
    rw [filter, List.filter_filter, List.filter_filter]
    simp only [Bool.and_comm]
  rw [hcomm, hcomm, hp]

theorem filter_map_comm (hp : t.rows.filter p = u.rows.filter p)
    (hf : ∀ a, p (f a) = p a) : (t.rows.map f).filter p = (u.rows.map f).filter p := by
  have hcomm : ∀ t : Table α, (t.rows.map f).filter p = (t.rows.filter p).map f := by
    intro t
    rw [List.filter_map]
    exact congrArg _ (filter_congr fun a _ => hf a)
  rw [hcomm, hcomm, hp]

/-! ## Stand-ins -/

/-- `t` has rows for rows of `o`: a row of `t` is what a row of `o` became, by `R`, and each row of
    `o` with `p` or on the list has one. -/
structure Stands (R : α → α → Prop) (p : α → Prop) (o t : Table α) (done : List α) : Prop where
  from_old : ∀ x ∈ t, ∃ y ∈ o, R y x
  to_new : ∀ y ∈ o, p y ∨ y ∈ done → ∃ x ∈ t, R y x

section Stands

variable {R : α → α → Prop} {p : α → Prop} {o : Table α} {done : List α} {y : α}

theorem Stands.skip (h : Stands R p o t done) (hx : ∃ x ∈ t, R y x) :
    Stands R p o t (done ++ [y]) := by
  refine ⟨h.from_old, fun y' hy' hp => ?_⟩
  by_cases hyy : y' = y
  · rw [hyy]
    exact hx
  · refine h.to_new y' hy' (hp.imp_right fun hmem => ?_)
    rcases mem_append.1 hmem with hmem | hmem
    · exact hmem
    · exact absurd (mem_singleton.1 hmem) hyy

theorem Stands.of_clash (h : Stands R p o t done)
    (hR : ∀ {y x}, R y x → ∀ c, Keyed.clash c x = Keyed.clash c y)
    (hy : y ∈ o) {x : α} (hx : x ∈ t) (hc : Keyed.clash y x = true) : R y x := by
  obtain ⟨y', hy', hr⟩ := h.from_old x hx
  rw [hR hr] at hc
  rwa [eq_of_clash hy hy' hc]

theorem Stands.insert (h : Stands R p o t done)
    (hR : ∀ {y x}, R y x → ∀ c, Keyed.clash c x = Keyed.clash c y)
    (hy : y ∈ o) (ha : R y a) (hmiss : ∀ x ∈ t, ¬ R y x) :
    ∃ t', t.insert a = some t' ∧ Stands R p o t' (done ++ [y]) := by
  cases hi : t.insert a with
  | none =>
    obtain ⟨x, hx, hc⟩ := insert_eq_none.1 hi
    rw [hR ha, Keyed.symm] at hc
    exact absurd (h.of_clash hR hy hx hc) (hmiss x hx)
  | some t' =>
    have hgrow : Stands R p o t' done := by
      refine ⟨fun x hx => ?_, fun y' hy' hp => ?_⟩
      · rcases (mem_insert hi).1 hx with hx | rfl
        · exact h.from_old x hx
        · exact ⟨y, hy, ha⟩
      · obtain ⟨x, hx, hr⟩ := h.to_new y' hy' hp
        exact ⟨x, (mem_insert hi).2 (.inl hx), hr⟩
    exact ⟨t', rfl, hgrow.skip ⟨a, (mem_insert hi).2 (.inr rfl), ha⟩⟩

theorem stands_filter {q : α → Bool} (hrefl : ∀ y, q y = true → R y y)
    (hp : ∀ y, p y → q y = true) :
    Stands R p o (o.filter q) [] := by
  refine ⟨fun x hx => ?_, fun y hy h => ?_⟩
  · obtain ⟨hx, hq⟩ := mem_filter.1 hx
    exact ⟨x, hx, hrefl x hq⟩
  · rcases h with h | h
    · exact ⟨y, mem_filter.2 ⟨hy, hp y h⟩, hrefl y (hp y h)⟩
    · cases h

theorem Stands.image {ι κ : Type} [Inhabited ι] {f : ι → α → α} {key : α → κ}
    (hkey : ∀ a b, key a = key b → Keyed.clash a b = true)
    (hf : ∀ i y c, Keyed.clash c (f i y) = Keyed.clash c y)
    (h : Stands (fun y x => ∃ i, f i y = x) p o t done) (hall : ∀ y ∈ o, p y ∨ y ∈ done) :
    ∃ param : κ → ι, ∀ x, x ∈ t ↔ ∃ y ∈ o, f (param (key y)) y = x := by
  classical
  have hback : ∀ y ∈ o, ∃ i, f i y ∈ t := fun y hy => by
    obtain ⟨x, hx, i, rfl⟩ := h.to_new y hy (hall y hy)
    exact ⟨i, hx⟩
  choose i hi using hback
  have hparam : ∃ param : κ → ι, ∀ y (hy : y ∈ o), param (key y) = i y hy := by
    refine ⟨fun k => if hk : ∃ y, y ∈ o ∧ key y = k then i hk.choose hk.choose_spec.1 else default,
      fun y hy => ?_⟩
    have hk : ∃ y', y' ∈ o ∧ key y' = key y := ⟨y, hy, rfl⟩
    have heq := eq_of_clash hk.choose_spec.1 hy (hkey _ _ hk.choose_spec.2)
    simp only [dif_pos hk, heq]
  obtain ⟨param, hparam⟩ := hparam
  refine ⟨param, fun x => ⟨fun hx => ?_, ?_⟩⟩
  · obtain ⟨y, hy, j, rfl⟩ := h.from_old x hx
    refine ⟨y, hy, ?_⟩
    rw [hparam y hy]
    refine eq_of_clash (hi y hy) hx ?_
    rw [hf, Keyed.symm, hf]
    exact hkey y y rfl
  · rintro ⟨y, hy, rfl⟩
    rw [hparam y hy]
    exact hi y hy

end Stands

end Table
