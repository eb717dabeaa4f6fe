/-
  The questions about zones that the database answers (package `repodb` and the
  function `dns_zone_conflict` of the schema).

  The database holds texts as sequences of characters; a string is passed to it as
  the characters its bytes encode.
-/
import TangraDns.Store
import TangraDns.Text.Sql

namespace TangraDns

open Str

structure Store.ZoneFilter where
  query : Str
  kind : Str
  origin : Str
deriving DecidableEq, Repr

def Store.ZoneFilter.Matches (U : CaseTables) (f : ZoneFilter) (z : Zone) : Bool :=
  if f.kind ≠ [] ∧ z.kind.text ≠ f.kind then false
  else if f.origin ≠ [] ∧ z.origin.text ≠ f.origin then false
  else
    let q := toLower U (trimSpace f.query)
    !(decide (q ≠ []) && !decide (Str.Contains z.name q))

namespace RepoDB

variable (U : CaseTables)

abbrev Text := List ℕ

def text (s : Str) : Text := runes s

def lower (t : Text) : Text := t.map fun r => validRune (U.toLower r)

/-! ## Overlaps -/

/-- `dns_zone_conflict`: a zone of another tenant is equal to, an ancestor of or a descendant of the
    name. -/
def dnsZoneConflict (zones : List Store.Zone) (name : Text) (tenant : Str) : Bool :=
  zones.any fun z => decide (z.tenantID ≠ tenant) &&
    (decide (text z.name = lower U name) ||
      decide (Sql.right (lower U name) ((text z.name).length + 1) = 46 :: text z.name) ||
      decide (Sql.right (text z.name) (name.length + 1) = 46 :: lower U name))

def zoneConflict (zones : List Store.Zone) (tenantID name : Str) : Bool :=
  dnsZoneConflict U zones (text (toLower U name)) tenantID

/-! ## Listing -/

def wildcards : Sql.Wildcards ℕ := ⟨0x25, 0x5F, 0x5C⟩

/-- The pattern that finds the query literally. -/
def likePattern (q : Str) : Str :=
  str "%" ++ (toLower U (trimSpace q)).flatMap (fun b =>
    if b = 0x5C then [0x5C, 0x5C] else if b = 0x25 then [0x5C, 0x25]
      else if b = 0x5F then [0x5C, 0x5F] else [b]) ++
    str "%"

/-- The `WHERE` clause of `ListZones`; an ill-formed pattern is an error. -/
def selects (tenantID : Str) (f : Store.ZoneFilter) (z : Store.Zone) : Option Bool :=
  let q := if trimSpace f.query ≠ [] then likePattern U f.query else []
  (Sql.like wildcards (text z.name) (text q)).map fun found =>
    decide (z.tenantID = tenantID) && (decide (f.kind = []) || decide (z.kind.text = f.kind)) &&
      (decide (f.origin = []) || decide (z.origin.text = f.origin)) && (decide (q = []) || found)

end RepoDB

end TangraDns
