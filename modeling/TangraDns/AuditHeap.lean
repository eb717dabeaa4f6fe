/-
  Redaction as the code carries it out (package `audit`): maps and lists are
  objects on a heap, a value refers to them, and a copy is allocated and then
  filled.

  A map is its entries in some order, the one an iteration takes.  A value that
  refers to itself would be followed for ever; it runs out of fuel.
-/
import TangraDns.Audit

namespace TangraDns.Audit.Heap

open Str

/-! ## Objects -/

inductive Cell where
  | str (s : Str)
  | map (p : ℕ)
  | list (p : ℕ)
  | int (n : ℤ)
  | bool (b : Bool)
  | null
  | other (code : ℕ)

inductive Obj where
  | map (entries : List (Str × Cell))
  | list (elems : List Cell)

abbrev Objs := List Obj

def put (es : List (Str × Cell)) (k : Str) (c : Cell) : List (Str × Cell) :=
  if k ∈ es.map Prod.fst then es.map fun e => if e.1 = k then (k, c) else e else es ++ [(k, c)]

def putEntry (h : Objs) (q : ℕ) (k : Str) (c : Cell) : Objs :=
  match h[q]? with
  | some (.map es) => h.set q (.map (put es k c))
  | _ => h

def setElem (h : Objs) (q i : ℕ) (c : Cell) : Objs :=
  match h[q]? with
  | some (.list cs) => h.set q (.list (cs.set i c))
  | _ => h

/-! ## Copies -/

variable (U : CaseTables) (f : Objs → Cell → Option (Cell × Objs))

def fillMap (q : ℕ) : List (Str × Cell) → Objs → Option Objs
  | [], h => some h
  | (k, c) :: es, h =>
    if forbiddenKey U k then fillMap q es h
    else match f h c with
      | some (c', h') => fillMap q es (putEntry h' q k c')
      | none => none

def fillList (q : ℕ) : ℕ → List Cell → Objs → Option Objs
  | _, [], h => some h
  | i, c :: cs, h =>
    match f h c with
    | some (c', h') => fillList q (i + 1) cs (setElem h' q i c')
    | none => none

def guardMap (h : Objs) (p : ℕ) : Option (ℕ × Objs) :=
  match h[p]? with
  | some (.map es) => (fillMap U f h.length es (h ++ [.map []])).map fun h' => (h.length, h')
  | _ => none

def guardList (h : Objs) (p : ℕ) : Option (ℕ × Objs) :=
  match h[p]? with
  | some (.list cs) =>
    (fillList f h.length 0 cs (h ++ [.list (List.replicate cs.length .null)])).map fun h' =>
      (h.length, h')
  | _ => none

/-- The copy of a value, with the calls for the values in it one less deep. -/
def guardValue : ℕ → Objs → Cell → Option (Cell × Objs)
  | 0, _, _ => none
  | n + 1, h, c =>
    match c with
    | .str s => some (.str (truncate s), h)
    | .map p => (guardMap U (guardValue n) h p).map fun r => (.map r.1, r.2)
    | .list p => (guardList (guardValue n) h p).map fun r => (.list r.1, r.2)
    | c => some (c, h)

def redact (fuel : ℕ) (h : Objs) (p : ℕ) : Option (ℕ × Objs) := guardMap U (guardValue U fuel) h p

end TangraDns.Audit.Heap
