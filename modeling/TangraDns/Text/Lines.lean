/-
  Texts of lines, and readers of lines.
-/
import TangraDns.Text.Labels

namespace Lines

open List

variable {α : Type} {l lead s v : Str} {ls rest vs : List Str}

def unlines (ls : List Str) : Str := Str.closed 10 ls

def lines (text : Str) : Option (List Str) :=
  if (Str.split 10 text).getLast? = some [] then some (Str.split 10 text).dropLast else none

theorem lines_unlines (h : ∀ l ∈ ls, 10 ∉ l) : lines (unlines ls) = some ls := by
  rw [lines, unlines, Str.split_closed h, if_pos getLast?_concat, dropLast_concat]

@[simp] theorem unlines_nil : unlines [] = [] := rfl

@[simp] theorem unlines_cons (l : Str) (ls : List Str) :
    unlines (l :: ls) = l ++ 10 :: unlines ls := Str.closed_cons ..

@[simp] theorem unlines_append (ls rest : List Str) :
    unlines (ls ++ rest) = unlines ls ++ unlines rest :=
  Str.closed_append ..

/-! ## Readers -/

def after (lead l : Str) : Option Str := if lead <+: l then some (l.drop lead.length) else none

@[simp] theorem after_append (lead s : Str) : after lead (lead ++ s) = some s := by
  rw [after, if_pos (prefix_append ..), drop_left]

def unquote (s : Str) : Option Str :=
  if 2 ≤ s.length ∧ s.head? = some 34 ∧ s.getLast? = some 34 then some s.tail.dropLast else none

def quote (v : Str) : Str := 34 :: v ++ [34]

@[simp] theorem unquote_quote (v : Str) : unquote (quote v) = some v := by
  rw [unquote, if_pos ⟨by simp [quote], rfl, getLast?_concat⟩]
  simp [quote]

def line (l : Str) : List Str → Option (List Str)
  | l' :: rest => if l' = l then some rest else none
  | [] => none

@[simp] theorem line_cons (l : Str) (rest : List Str) : line l (l :: rest) = some rest := if_pos rfl

def value (lead : Str) (read : Str → Option α) : List Str → Option (α × List Str)
  | l :: rest => ((after lead l).bind read).map (·, rest)
  | [] => none

@[simp] theorem value_cons (lead s : Str) (read : Str → Option α) (rest : List Str) :
    value lead read ((lead ++ s) :: rest) = (read s).map (·, rest) := by
  rw [value, after_append, Option.bind_some]

def items (lead : Str) : List Str → List Str × List Str
  | [] => ([], [])
  | l :: rest =>
    match (after lead l).bind unquote with
    | some v => (v :: (items lead rest).1, (items lead rest).2)
    | none => ([], l :: rest)

/-- No further item follows. -/
def Stops (lead : Str) (rest : List Str) : Prop := ∀ l ∈ rest.head?, ¬ lead <+: l

@[simp] theorem items_map (h : Stops lead rest) :
    items lead (vs.map (fun v => lead ++ quote v) ++ rest) = (vs, rest) := by
  induction vs with
  | nil =>
    cases rest with
    | nil => rfl
    | cons l rest =>
      have hno : after lead l = none := if_neg (h l rfl)
      rw [map_nil, nil_append, items, hno]
      rfl
  | cons v vs ih =>
    rw [map_cons, cons_append, items, after_append, Option.bind_some, unquote_quote]
    simp only [ih]

def opt (first : Str) (read : List Str → Option (α × List Str)) (none : α) (ls : List Str) :
    Option (α × List Str) :=
  if ls.head? = some first then read ls.tail else some (none, ls)

@[simp] theorem opt_cons (first : Str) (read : List Str → Option (α × List Str)) (none : α)
    (rest : List Str) :
    opt first read none (first :: rest) = read rest := if_pos rfl

theorem opt_of_ne {first : Str} (read : List Str → Option (α × List Str)) (none : α)
    (h : ls.head? ≠ some first) :
    opt first read none ls = some (none, ls) := if_neg h

def file (read : List Str → Option (α × List Str)) (text : Str) : Option α :=
  (lines text).bind fun ls => (read ls).bind fun p => if p.2 = [] then some p.1 else none

/-! ## Lists in a line -/

def commas (s : Str) : List Str :=
  match Str.split 44 s with
  | f :: fs => f :: fs.map List.tail
  | [] => []

theorem mem_intercalate {sep : Str} {b : UInt8} (h : b ∈ sep.intercalate vs) :
    b ∈ sep ∨ ∃ v ∈ vs, b ∈ v := by
  induction vs with
  | nil => cases h
  | cons v vs ih =>
    cases vs with
    | nil =>
      rw [intercalate_singleton] at h
      exact .inr ⟨v, mem_cons_self, h⟩
    | cons w vs =>
      rw [intercalate_cons_cons] at h
      rcases mem_append.1 h with h | h
      · rcases mem_append.1 h with h | h
        · exact .inr ⟨v, mem_cons_self, h⟩
        · exact .inl h
      · exact (ih h).imp_right fun ⟨v', hv', hb⟩ => ⟨v', mem_cons_of_mem _ hv', hb⟩

theorem commas_intercalate (hne : vs ≠ []) (h : ∀ v ∈ vs, 44 ∉ v) :
    commas ((str ", ").intercalate vs) = vs := by
  obtain ⟨v, vs, rfl⟩ := exists_cons_of_ne_nil hne
  have htext : ∀ (v : Str) (vs : List Str), (str ", ").intercalate (v :: vs) =
      [44].intercalate (v :: vs.map (32 :: ·)) := by
    intro v vs
    induction vs generalizing v with
    | nil => rfl
    | cons w vs ih =>
      rw [map_cons, intercalate_cons_cons, intercalate_cons_cons, ih w]
      simp [show str ", " = [44, 32] by decide]
  have hsplit : Str.split 44 ((str ", ").intercalate (v :: vs)) = v :: vs.map (32 :: ·) := by
    rw [htext]
    refine splitOn_intercalate 44 (fun l hl => ?_) (by simp)
    rcases mem_cons.1 hl with rfl | hl
    · exact h _ mem_cons_self
    · obtain ⟨w, hw, rfl⟩ := List.mem_map.1 hl
      simpa using h w (mem_cons_of_mem _ hw)
  rw [commas, hsplit]
  simp [Function.comp_def]

end Lines
