/-
  The operations of one tenant: those of the zone, record and challenge services
  for its callers, and the IPAM sync of its addresses.
-/
import TangraDns.Challenges
import TangraDns.Sync

namespace TangraDns

open Str Prog.Failing

abbrev Caller (T : Str) := { s : Subjects // s.tenantID = T }

/-! ## Operations -/

/-- An operation of the zone, record and challenge services.  Sets are written to, looked up in and
    removed from a loaded zone by internal callers. -/
inductive Operation (T : Str) where
  | createZone (s : Caller T) (i : Zones.CreateInput)
  | ownedZone (s : Caller T) (id : Str)
  | getZone (s : Caller T) (id : Str)
  | listZones (s : Caller T)
  | zoneByName (s : Caller T) (name : Str)
  | findForName (s : Caller T) (fqdn : Str)
  | updateZone (s : Caller T) (id : Str) (i : Zones.UpdateInput)
  | deleteZone (s : Caller T) (id : Str)
  | exportZone (s : Caller T) (id : Str)
  | notifyZone (s : Caller T) (id : Str)
  | listSets (s : Caller T) (zoneID : Str) (f : Records.Filter)
  | upsertSet (s : Caller T) (zoneID : Str) (i : Validate.RecordSetInput)
  | updateSet (s : Caller T) (zoneID : Str) (k : Records.Key) (i : Validate.RecordSetInput)
  | deleteSet (s : Caller T) (zoneID : Str) (k : Records.Key)
  | applySet (s : Caller T) (zoneID : Str) (i : Validate.RecordSetInput)
  | lookupSet (s : Caller T) (zoneID : Str) (k : Records.Key)
  | removeSet (s : Caller T) (zoneID : Str) (k : Records.Key)
  | present (s : Caller T) (r : Challenges.Request)
  | cleanUp (s : Caller T) (r : Challenges.Request)

variable {T : Str}

abbrev Operation.Ans : Operation T → Type
  | createZone .. | ownedZone .. | zoneByName .. | findForName .. | updateZone .. => Store.Zone
  | getZone .. => Store.Zone × Option (ℕ × ℕ)
  | listZones _ => List Store.Zone
  | exportZone .. => Str × Str
  | listSets .. => List Records.RecordSet
  | upsertSet .. | updateSet .. | applySet .. | lookupSet .. => Records.RecordSet
  | present .. | cleanUp .. => Str
  | deleteZone .. | notifyZone .. | deleteSet .. | removeSet .. => Unit

variable (C : Config)

def Operation.act : (o : Operation T) → Act o.Ans
  | createZone s i => Zones.create C s i
  | ownedZone s id => Zones.owned C s id
  | getZone s id => Zones.get C s id
  | listZones s => Zones.list C s
  | zoneByName s name => Zones.byName C s name
  | findForName s fqdn => Zones.findForName C s fqdn
  | updateZone s id i => Zones.update C s id i
  | deleteZone s id => Zones.delete C s id
  | exportZone s id => Zones.export C s id
  | notifyZone s id => Zones.notify C s id
  | listSets s zoneID f => Records.list C id s zoneID f
  | upsertSet s id i => Records.upsert C s id i
  | updateSet s id k i => Records.update C s id k i
  | deleteSet s id k => Records.delete C s id k
  | applySet s id i => do Records.apply C s (← Zones.owned C s id) i
  | lookupSet s id k => do Records.lookup C s (← Zones.owned C s id) k
  | removeSet s id k => do Records.remove C s (← Zones.owned C s id) k
  | present s r => Challenges.present C s r
  | cleanUp s r => Challenges.cleanUp C s r

def runOperations : List (Operation T) → World → List (Σ o : Operation T, Except Err o.Ans) × World
  | [], w => ([], w)
  | o :: os, w =>
    let r := exec (handler C.env.cases) (o.act C) w
    let rs := runOperations os r.2
    (⟨o, r.1⟩ :: rs.1, rs.2)

/-! ## Activities -/

/-- What happens for a tenant: an operation, or the sync of one of its addresses. -/
inductive Activity (T : Str) where
  | op (o : Operation T)
  | sync (ev : Sync.Event)

def Activity.act : Activity T → Act Unit
  | op o => do
    let _ ← o.act C
    pure ()
  | sync ev => Sync.handle C T ev

def Activity.run (w : World) (a : Activity T) : World := (exec (handler C.env.cases) (a.act C) w).2

def Activity.trace (w : World) (a : Activity T) : List (Prog.Event Op Res) :=
  Prog.trace (handler C.env.cases) (ExceptT.run (a.act C)) w

def runActivities (as : List (Activity T)) (w : World) : World := as.foldl (Activity.run C) w

/-! ## Other tenants -/

/-- The rows of other tenants and their PowerDNS zones are as they were. -/
structure Untouched (T : Str) (w w' : World) : Prop where
  zones : w'.store.zones.rows.filter (fun z => z.tenantID != T) =
    w.store.zones.rows.filter fun z => z.tenantID != T
  sync : w'.store.sync.rows.filter (fun r => r.tenantID != T) =
    w.store.sync.rows.filter fun r => r.tenantID != T
  challenges : w'.store.challenges.rows.filter (fun c => c.tenantID != T) =
    w.store.challenges.rows.filter fun c => c.tenantID != T
  pdns : ∀ z ∈ w.store.zones, z.tenantID ≠ T → w'.pdns.zone z.pdnsID = w.pdns.zone z.pdnsID

/-- A PowerDNS call of the tenant after earlier ones: a mutation is one of a zone the tenant had a
    row of, or of one just made, or makes a zone beside those of other tenants. -/
def Within (T : Str) (w : World) (pre : List (Prog.Event Op Res)) : PDNSCall → Prop
  | .createZone z =>
    z.account = T ∧ ∀ y ∈ w.store.zones, y.tenantID ≠ T → ¬ Store.Overlaps z.name y.name
  | .updateZoneMetadata id _ | .deleteZone id | .patchRRsets id _ | .notifyZone id =>
    (∃ z ∈ w.store.zones, z.tenantID = T ∧ z.pdnsID = id) ∨
      ∃ z c : PDNS.Zone, (⟨.pdns (.createZone z), .ok c⟩ : Prog.Event Op Res) ∈ pre ∧ z.name = id
  | .createSupermaster _ | .deleteSupermaster .. => False
  | .listZoneNames | .getZone _ | .exportZone _ | .listSupermasters => True

/-! ## Worlds alike to a tenant -/

structure SameRows (T : Str) (S S' : Store) : Prop where
  zones : S.zones.rows.filter (fun z => z.tenantID == T) = S'.zones.rows.filter fun z =>
    z.tenantID == T
  templates : S.templates.rows.filter (fun t => t.tenantID == T) =
    S'.templates.rows.filter fun t => t.tenantID == T
  supermasters : S.supermasters.rows.filter (fun m => m.tenantID == T) =
    S'.supermasters.rows.filter fun m => m.tenantID == T
  sync : S.sync.rows.filter (fun r => r.tenantID == T) = S'.sync.rows.filter fun r =>
    r.tenantID == T
  challenges : S.challenges.rows.filter (fun c => c.tenantID == T) =
    S'.challenges.rows.filter fun c => c.tenantID == T

/-- Two worlds agree on the tenant's rows, the contents of its zones, the answer of the overlap
    check for every name, and on whether PowerDNS has a zone of a name that overlaps no other
    tenant's; clock and id source give the same. -/
structure Agree (U : CaseTables) (T : Str) (w w' : World) : Prop where
  rows : SameRows T w.store w'.store
  contents : ∀ z ∈ w.store.zones, z.tenantID = T → w.pdns.zone z.pdnsID = w'.pdns.zone z.pdnsID
  overlap : ∀ n, w.store.zoneConflict U T n = w'.store.zoneConflict U T n
  names : ∀ n, w.store.zoneConflict U T n = false → (w.pdns.zone n).isSome = (w'.pdns.zone n).isSome
  times : w.times = w'.times ∧ w.ticks = w'.ticks
  ids : w.ids = w'.ids ∧ w.minted = w'.minted

def Unused (T : Str) (S : Store) (id : Str) : Prop :=
  (∀ z ∈ S.zones, z.tenantID ≠ T → z.id ≠ id) ∧ ∀ c ∈ S.challenges, c.tenantID ≠ T → c.id ≠ id

/-- PowerDNS calls the zones of other tenants by their names, and the id source gives none of their
    ids again. -/
structure Regular (T : Str) (w : World) : Prop where
  named : ∀ z ∈ w.store.zones, z.tenantID ≠ T → z.pdnsID = z.name
  fresh : ∀ i, w.minted ≤ i → Unused T w.store (w.ids i)

end TangraDns
