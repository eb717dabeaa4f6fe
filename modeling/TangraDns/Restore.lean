/-
  Lost rows: a tenant loses some of its zone, template and supermaster rows and
  gets them back from a document it exported.
-/
import TangraDns.Histories

namespace TangraDns

open Str

/-! ## Loss -/

structure Spared where
  zone : Store.Zone → Bool
  template : Store.Template → Bool
  supermaster : Store.Supermaster → Bool

/-- The store after the tenant has lost the rows it does not keep. -/
def Spared.lose (k : Spared) (T : Str) (S : Store) : Store := { S with
  zones := S.zones.filter fun z => z.tenantID != T || k.zone z
  templates := S.templates.filter fun t => t.tenantID != T || k.template t
  supermasters := S.supermasters.filter fun m => m.tenantID != T || k.supermaster m }

/-! ## What has to be there -/

def Moment.Service : Moment → Prop
  | .change (.load ..) _ => False
  | _ => True

/-- PowerDNS has the zone of the row, as the row says. -/
def ZoneAgrees (C : Config) (s : PDNS.Server) (z : Store.Zone) : Prop :=
  z.pdnsID = z.name ∧ ∃ live ∈ s.zone z.name, live.name = z.name ∧ live.account = z.tenantID ∧
    Store.Kind.fromPDNS C.env.cases live.kind = some z.kind ∧ live.masters = z.masters ∧
    live.dnssec = z.dnssec

instance (C : Config) (s : PDNS.Server) (z : Store.Zone) : Decidable (ZoneAgrees C s z) :=
  inferInstanceAs (Decidable (_ ∧ ∃ live ∈ s.zone z.name, _))

def EntryAgrees (s : PDNS.Server) (m : Store.Supermaster) : Prop :=
  Backup.Importer.entriesOf m.ip m.nameserver s.supermasters.rows ≠ [] ∧
    ∀ e ∈ Backup.Importer.entriesOf m.ip m.nameserver s.supermasters.rows, e.account = m.tenantID

instance (s : PDNS.Server) (m : Store.Supermaster) : Decidable (EntryAgrees s m) :=
  inferInstanceAs (Decidable (_ ∧ _))

/-- The tenant's rows can be restored: they fit in a document, overlap no zone of others and agree
    with PowerDNS. -/
structure Restorable (C : Config) (T : Str) (w : World) : Prop where
  uuid : Backup.isUUID T = true
  size : Exportable T w
  apart : ∀ z ∈ w.store.zones, ∀ y ∈ w.store.zones, z.tenantID = T → y.tenantID ≠ T →
    ¬ Store.Overlaps z.name y.name
  zones : ∀ z ∈ w.store.zones, z.tenantID = T → ZoneAgrees C w.pdns z
  supermasters : ∀ m ∈ w.store.supermasters, m.tenantID = T → EntryAgrees w.pdns m

/-! ## What comes back -/

variable (k : Spared) (T : Str) (doc : Backup.Document) (stamp : Str → ℕ)

/-- The zone row after a restore at the times of `stamp`: a lost one keeps its template if the
    document has it. -/
def Spared.zoneBack (z : Store.Zone) : Store.Zone :=
  if z.tenantID = T ∧ k.zone z = false then
    { z with
      templateID := if z.templateID ∈ doc.templates.map Store.Template.id then z.templateID else []
      updatedAt := stamp z.id }
  else z

def Spared.templateBack (t : Store.Template) : Store.Template :=
  if t.tenantID = T ∧ k.template t = false then { t with updatedAt := stamp t.id } else t

/-- The rows are as before the loss, but for the times of those that were lost; nothing else has
    changed. -/
structure Restored (w w' : World) : Prop where
  zones : ∃ stamp, ∀ x, x ∈ w'.store.zones ↔ ∃ z ∈ w.store.zones, k.zoneBack T doc stamp z = x
  templates : ∃ stamp, ∀ x, x ∈ w'.store.templates ↔
    ∃ t ∈ w.store.templates, k.templateBack T stamp t = x
  supermasters : ∀ m, m ∈ w'.store.supermasters ↔ m ∈ w.store.supermasters
  sync : w'.store.sync = w.store.sync
  challenges : w'.store.challenges = w.store.challenges
  pdns : w'.pdns = w.pdns
  recursor : w'.recursor = w.recursor

end TangraDns
