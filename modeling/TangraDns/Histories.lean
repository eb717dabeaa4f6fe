/-
  Histories: the changes of zones, templates and supermasters by the services,
  each with any failures of its dependencies, and changes of PowerDNS by others.
-/
import TangraDns.Backup
import TangraDns.Faults
import TangraDns.TemplateService

namespace TangraDns

open Str Prog

/-! ## Changes -/

inductive Change where
  | createZone (subj : Subjects) (i : Zones.CreateInput)
  | updateZone (subj : Subjects) (id : Str) (i : Zones.UpdateInput)
  | deleteZone (subj : Subjects) (id : Str)
  | createTemplate (subj : Subjects) (i : Templates.Input)
  | updateTemplate (subj : Subjects) (id : Str) (i : Templates.Input)
  | deleteTemplate (subj : Subjects) (id : Str)
  | createSupermaster (subj : Subjects) (i : Supermasters.Input)
  | deleteSupermaster (subj : Subjects) (id : Str)
  | load (subj : Subjects) (b : Backup.Document) (opts : Backup.Options)

variable (C : Config)

/-- The change; templates are checked with the limits that documents are checked with. -/
def Change.act : Change → Act Unit
  | createZone subj i => do
    let _ ← Zones.create C subj i
    pure ()
  | updateZone subj id i => do
    let _ ← Zones.update C subj id i
    pure ()
  | deleteZone subj id => Zones.delete C subj id
  | createTemplate subj i => do
    let _ ← Templates.create C C.limits subj i
    pure ()
  | updateTemplate subj id i => do
    let _ ← Templates.update C C.limits subj id i
    pure ()
  | deleteTemplate subj id => Templates.delete C subj id
  | createSupermaster subj i => do
    let _ ← Supermasters.create C subj i
    pure ()
  | deleteSupermaster subj id => Supermasters.delete C subj id
  | load subj b opts => do
    let _ ← Backup.import C subj b opts
    pure ()

/-- What happens: a change, with what becomes of its calls, or PowerDNS is changed by others. -/
inductive Moment where
  | change (c : Change) (plan : ℕ → Op → Fate Fault)
  | live (s : PDNS.Server)

def Moment.run (w : World) : Moment → World
  | change c plan => (Failing.exec (faulty C.env.cases plan) (c.act C) (w, 0)).2.1
  | live s => { w with pdns := s }

def runHistory (ms : List Moment) (w : World) : World := ms.foldl (Moment.run C) w

/-- Every moment of a history meets the condition in the world before it. -/
def Throughout (P : World → Moment → Prop) : List Moment → World → Prop
  | [], _ => True
  | m :: ms, w => P w m ∧ Throughout P ms (m.run C w)

/-! ## Primaries -/

def mirroredKind (row : Backup.ZoneRow) (live : PDNS.Zone) : Store.Kind :=
  (Store.Kind.fromPDNS C.env.cases live.kind).getD ((Store.Kind.ofText row.kind).getD .native)

/-- The live zones an import may link have kinds and primaries with `M`. -/
def Mirrors (M : Store.Kind → List Str → Prop) (w : World) : Moment → Prop
  | .change (.load _ b _) _ => ∀ row ∈ b.zones, ∀ live, w.pdns.zone row.name = some live →
      M (mirroredKind C row live) live.masters
  | _ => True

/-- Slave and consumer zones have primaries, the others none, and they are in canonical form. -/
def Consistent (k : Store.Kind) (ms : List Str) : Prop :=
  (ms ≠ [] ↔ k.needsMasters = true) ∧ Validate.masters ms = .ok ms

instance (k : Store.Kind) (ms : List Str) : Decidable (Consistent k ms) :=
  inferInstanceAs (Decidable (_ ∧ _))

/-- The primaries pass validation. -/
def Accepted (_ : Store.Kind) (ms : List Str) : Prop := ∃ m, Validate.masters ms = .ok m

structure Blank (w : World) : Prop where
  zones : w.store.zones.rows = []
  templates : w.store.templates.rows = []
  supermasters : w.store.supermasters.rows = []
  ids : ∀ n, Backup.isUUID (w.ids n) = true

/-- The tenant has at most as many rows of each kind as a document may have. -/
structure Exportable (T : Str) (w : World) : Prop where
  zones : (w.store.zones.rows.filter fun z => z.tenantID == T).length ≤ Backup.maxRows
  templates : (w.store.templates.rows.filter fun t => t.tenantID == T).length ≤ Backup.maxRows
  supermasters : (w.store.supermasters.rows.filter fun m => m.tenantID == T).length ≤ Backup.maxRows

end TangraDns
