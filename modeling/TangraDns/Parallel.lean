/-
  Calls of the zone service in parallel: every call to a dependency is one
  atomic step, and the steps of the calls are taken in any order.
-/
import Mathlib.Data.Fintype.Basic
import TangraDns.Prog.Pool
import TangraDns.Scope
import TangraDns.Zones

namespace TangraDns.Parallel

open Str

variable {ι : Type} (C : Config)

def Nested (a b : Str) : Prop := Under a b ∨ Under b a

instance (a b : Str) : Decidable (Nested a b) := inferInstanceAs (Decidable (_ ∨ _))

/-! ## Creations -/

abbrev Creations (ι : Type) := Prog.Pool Op Res (Except Err Store.Zone) World ι

/-- Zone creations in parallel: call `i` is made by `subj i` with `input i`. -/
def creations (subj : ι → Subjects) (input : ι → Zones.CreateInput) (w : World) : Creations ι :=
  ⟨fun i => .start (Zones.create C (subj i) (input i)).run, w⟩

/-- The name a program is about to ask the overlap question for. -/
def asking {α : Type} : Prog Op Res α → Option Str
  | .call (.store (.zoneConflict _ n)) _ => some n
  | _ => none

/-- The names a call of the tenant has found free of overlap and may still store a row for. -/
def undecided {α : Type} (T : Str) (t : Prog.Thread Op Res α) : List Str :=
  if t.Done then [] else Scope.pending T t.past

/-- The step does not ask the overlap question for a name while a call of another tenant is
    between its question and its row for a name above or below. -/
def Orderly (subj : ι → Subjects) (P : Creations ι) (i : ι) : Prop :=
  ∀ n ∈ asking (P.threads i).prog, ∀ j, (subj j).tenantID ≠ (subj i).tenantID →
    ∀ m ∈ undecided (subj j).tenantID (P.threads j), ¬ Nested n m

instance [Fintype ι] (subj : ι → Subjects) (P : Creations ι) (i : ι) :
    Decidable (Orderly subj P i) :=
  inferInstanceAs (Decidable (∀ n ∈ asking (P.threads i).prog, _))

/-! ## Updates -/

abbrev Updates (ι : Type) := Prog.Pool Op Res (Except Err Store.Zone) World ι

/-- Updates of one zone in parallel: call `i` is made by `subj i` with `input i`. -/
def updates (subj : ι → Subjects) (id : Str) (input : ι → Zones.UpdateInput) (w : World) :
    Updates ι :=
  ⟨fun i => .start (Zones.update C (subj i) id (input i)).run, w⟩

/-- PowerDNS has the kind, primaries and DNSSEC flag of the row. -/
def InStep (id : Str) (w : World) : Prop :=
  ∀ z ∈ w.store.zones.rows, z.id = id →
    ∃ p ∈ w.pdns.zone z.pdnsID, p.kind = z.kind.pdns ∧ p.masters = z.masters ∧ p.dnssec = z.dnssec

instance (id : Str) (w : World) : Decidable (InStep id w) :=
  inferInstanceAs (Decidable (∀ z ∈ w.store.zones.rows, _))

def puts {α : Type} : Prog Op Res α → Bool
  | .call (.pdns (.updateZoneMetadata ..)) _ => true
  | _ => false

def writes {α : Type} : Prog Op Res α → Bool
  | .call (.store (.updateZone _)) _ => true
  | _ => false

/-- The update has still to write its row, but no longer to put the metadata. -/
def settled {α : Type} : Prog Op Res α → Bool
  | .call .now _ => true
  | p => writes p

def hasPut (past : Past) : Bool :=
  past.any fun e => match e with
    | ⟨.pdns (.updateZoneMetadata ..), _⟩ => true
    | _ => false

/-- The step neither puts metadata nor writes a row after that while another update is between its
    metadata call, or its load if it makes none, and its row. -/
def Exclusive (P : Updates ι) (i : ι) : Prop :=
  puts (P.threads i).prog || writes (P.threads i).prog && hasPut (P.threads i).past →
    ∀ j, j ≠ i → settled (P.threads j).prog = false

instance [Fintype ι] [DecidableEq ι] (P : Updates ι) (i : ι) : Decidable (Exclusive P i) :=
  inferInstanceAs (Decidable (_ → _))

end TangraDns.Parallel
