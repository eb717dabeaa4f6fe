/-
  Failing dependencies: calls that fail without effect, calls whose reply is
  lost, and cancelled callers.
-/
import TangraDns.Supermasters

namespace TangraDns

open Str Prog

structure Fault where
  store : Err
  pdns : PDNSErr
  recursor : Option ℕ
  ipam : Err

/-- Every call to a dependency may fail; the clock and the id source do not. -/
def fallible : Fallible Op Res Fault
  | .now | .newID => none
  | .store _ => some fun e => .error e.store
  | .pdns _ => some fun e => .error e.pdns
  | .recursor _ => some fun e => .error e.recursor
  | .ipam _ => some fun e => .error e.ipam

abbrev faulty (U : CaseTables) (plan : ℕ → Op → Fate Fault) : Handler Op Res (World × ℕ) :=
  disturb (handler U) fallible plan

/-! ## Writes to both stores -/

/-- The operations that write to PowerDNS and to the store, and undo the first if the second
    fails. -/
inductive Write where
  | createZone (i : Zones.CreateInput)
  | updateZone (id : Str) (i : Zones.UpdateInput)
  | createSupermaster (i : Supermasters.Input)
  | deleteSupermaster (id : Str)

namespace Write

def act (C : Config) (subj : Subjects) : Write → Act Unit
  | createZone i => do
    let _ ← Zones.create C subj i
    pure ()
  | updateZone id i => do
    let _ ← Zones.update C subj id i
    pure ()
  | createSupermaster i => do
    let _ ← Supermasters.create C subj i
    pure ()
  | deleteSupermaster id => Supermasters.delete C subj id

/-- The call that undoes the write to PowerDNS.  An update makes its own only after the row, which
    it has loaded, could not be written. -/
def undoes : Write → Op → Bool
  | createZone _, .pdns (.deleteZone _) => true
  | createSupermaster _, .pdns (.deleteSupermaster ..) => true
  | deleteSupermaster _, .pdns (.createSupermaster _) => true
  | _, _ => false

/-- What is changed or removed is in PowerDNS as the row says, under the tenant's account. -/
def Agreed (subj : Subjects) (w : World) : Write → Prop
  | updateZone id _ => ∀ z ∈ w.store.zones, z.id = id → z.tenantID = subj.tenantID →
      ∃ p ∈ w.pdns.zone z.pdnsID, p.kind = z.kind.pdns ∧ p.masters = z.masters ∧
        p.dnssec = z.dnssec ∧
        p.account = z.tenantID
  | deleteSupermaster id => ∀ m ∈ w.store.supermasters, m.id = id → m.tenantID = subj.tenantID →
      Supermasters.entry m ∈ w.pdns.supermasters
  | _ => True

end Write

/-- The `i`-th call fails without effect, unless it is one that undoes an earlier one. -/
def oneFailure (undoes : Op → Bool) (i : ℕ) (e : Fault) (n : ℕ) (o : Op) : Fate Fault :=
  if n = i ∧ undoes o = false then .failed e else .done

/-- The rows, the zones of PowerDNS with their metadata, and its supermasters are the same. -/
structure Unchanged (w w' : World) : Prop where
  store : w'.store = w.store
  zones : ∀ id, w'.pdns.zone id = w.pdns.zone id
  supermasters : ∀ m, m ∈ w'.pdns.supermasters ↔ m ∈ w.pdns.supermasters

/-! ## Deletion of a zone -/

/-- Store calls fail without effect only, and a failed PowerDNS call does not answer that there is
    no such resource. -/
structure Honest (plan : ℕ → Op → Fate Fault) : Prop where
  store : ∀ n c e, plan n (.store c) ≠ .lost e
  pdns : ∀ n c e, plan n (.pdns c) = .failed e ∨ plan n (.pdns c) = .lost e →
    (Err.pdns e.pdns).Is (.pdns .notFound) = false

structure Owned (w : World) (z : Store.Zone) : Prop where
  id : z.id ≠ []
  challenges : ∀ c ∈ w.store.challenges, c.zoneID = z.id → c.tenantID = z.tenantID
  sync : ∀ r ∈ w.store.sync, r.forwardZoneID = z.id ∨ r.reverseZoneID = z.id →
    r.tenantID = z.tenantID

/-- The sync row `r'` is `r` without references to the zone; a side that is in another zone is
    kept. -/
structure Unlinked (zoneID : Str) (r r' : Store.IPAMSync) : Prop where
  forward : r.forwardZoneID = zoneID → r'.forwardZoneID = [] ∧ r'.forwardName = [] ∧
    r'.forwardType = []
  forward_kept : r.forwardZoneID ≠ zoneID → r'.forwardZoneID = r.forwardZoneID ∧
    r'.forwardName = r.forwardName ∧ r'.forwardType = r.forwardType
  reverse : r.reverseZoneID = zoneID → r'.reverseZoneID = [] ∧ r'.reverseName = []
  reverse_kept : r.reverseZoneID ≠ zoneID →
    r'.reverseZoneID = r.reverseZoneID ∧ r'.reverseName = r.reverseName
  rest : r'.tenantID = r.tenantID ∧ r'.ipAddressID = r.ipAddressID ∧ r'.address = r.address ∧
    r'.hostname = r.hostname ∧ r'.lastEvent = r.lastEvent ∧ r'.updatedAt = r.updatedAt

/-- The zone is gone from PowerDNS and the store, with its challenges and the references to it, and
    nothing else is changed. -/
structure Deleted (z : Store.Zone) (w w' : World) : Prop where
  gone : w'.pdns.zone z.pdnsID = none
  others : ∀ id, id ≠ z.pdnsID → w'.pdns.zone id = w.pdns.zone id
  entries : w'.pdns.supermasters = w.pdns.supermasters
  zones : ∀ y, y ∈ w'.store.zones ↔ y ∈ w.store.zones ∧ y.id ≠ z.id
  challenges : ∀ c, c ∈ w'.store.challenges ↔ c ∈ w.store.challenges ∧ c.zoneID ≠ z.id
  unreferenced : ∀ r ∈ w'.store.sync, r.forwardZoneID ≠ z.id ∧ r.reverseZoneID ≠ z.id
  sync : List.Forall₂ (Unlinked z.id) w.store.sync.rows w'.store.sync.rows
  templates : w'.store.templates = w.store.templates
  supermasters : w'.store.supermasters = w.store.supermasters

/-! ## Cancelled callers and lost replies -/

/-- The context of a caller is live for the first calls, and fails all later ones; the replies of
    some PowerDNS calls are lost or cannot be decoded after PowerDNS has done what it was asked. -/
structure Outage where
  live : ℕ → Bool
  lost : ℕ → Bool
  fault : ℕ → Fault
  ends : ∀ n, live (n + 1) = true → live n = true
  /-- no reply is not the reply that there is no such resource -/
  genuine : ∀ n, (Err.pdns (fault n).pdns).Is (.pdns .notFound) = false

namespace Outage

def plan (x : Outage) (n : ℕ) (o : Op) : Fate Fault :=
  if x.live n then
    match o with
    | .pdns _ => if x.lost n then .lost (x.fault n) else .done
    | _ => .done
  else .failed (x.fault n)

def none : Outage :=
  ⟨fun _ => true, fun _ => false, fun _ =>
    ⟨.repoFailed, .plain .unavailable, Option.none, .ipamFailed⟩,
    fun _ _ => rfl, fun _ => rfl⟩

end Outage

/-- No zone and no supermaster has an id that the id source will give out. -/
def Unminted (w : World) : Prop :=
  ∀ n, w.minted ≤ n → (∀ z ∈ w.store.zones, z.id ≠ w.ids n) ∧
    ∀ m ∈ w.store.supermasters, m.id ≠ w.ids n

/-- The creations that write to PowerDNS first. -/
inductive Creation where
  | zone (i : Zones.CreateInput)
  | supermaster (i : Supermasters.Input)

namespace Creation

variable (C : Config) (subj : Subjects)

def act : Creation → Act Unit
  | zone i => do
    let _ ← Zones.create C subj i
    pure ()
  | supermaster i => do
    let _ ← Supermasters.create C subj i
    pure ()

def Sets (w : World) (kind : Store.Kind) (name : Str) (i : Zones.CreateInput)
    (sets : List PDNS.RRset) : Prop :=
  if i.templateID = [] then sets = i.rrsets
  else kind.needsMasters = false ∧ ∃ l t tpl, C.templates = some l ∧
    w.store.getTemplate subj.tenantID i.templateID = .ok t ∧
    Templates.expandRecords C.env l name t.records = .ok tpl ∧ sets = i.rrsets ++ tpl

def request (name : Str) (kind : Store.Kind) (masters ns : List Str) (i : Zones.CreateInput)
    (sets : List PDNS.RRset) : PDNS.Zone :=
  ⟨[], name, kind.pdns, 0, 0, masters, i.dnssec, (Zones.mergeApexNS C name sets ns).2,
    subj.tenantID,
    (Zones.mergeApexNS C name sets ns).1⟩

structure Placeable (w : World) (p : PDNS.Zone) : Prop where
  named : p.name ≠ [] ∧ HasSuffix p.name [dot]
  sets : p.rrsets.all (PDNS.Server.initialOK p) = true
  free : w.pdns.zone p.name = Option.none
  rows : ∀ z ∈ w.store.zones, z.name ≠ p.name ∧ z.pdnsID ≠ p.name

/-- The input is valid for the caller, and what it asks for is free and acceptable in the store and
    in PowerDNS. -/
def Creatable (w : World) : Creation → Prop
  | zone i => Zones.guard C subj .zonesManage = .ok () ∧
      ∃ name kind masters ns origin sets, Validate.zoneName C.env i.name = .ok name ∧
        Zones.kindMasters (toLower C.env.cases (trimSpace i.kind)) i.masters = .ok (kind, masters) ∧
        Zones.nameservers C kind i.nameservers = .ok ns ∧
        Zones.checkDescription (trimSpace i.description) = .ok () ∧
        Zones.origin subj i.origin = .ok origin ∧ Sets C subj w kind name i sets ∧
        w.store.zoneConflict C.env.cases subj.tenantID name = false ∧
        Placeable w (request C subj name kind masters ns i sets)
  | supermaster i => Supermasters.guardAdmin C subj = .ok () ∧
      ∃ ip ns row, Validate.ipGuard i.ip = .ok ip ∧ Validate.hostname C.env i.nameserver = .ok ns ∧
        (∀ m ∈ w.pdns.supermasters, ¬ (m.ip = ip.toStr ∧ m.nameserver = Supermasters.pdnsName ns)) ∧
        Store.canonIP ip.toStr = some row ∧
        ∀ m ∈ w.store.supermasters, ¬ (m.ip = row ∧ m.nameserver = ns)

/-- The number of calls before the one that creates something in PowerDNS. -/
def reads : Creation → ℕ
  | zone i => if i.templateID = [] then 3 else 4
  | supermaster _ => 0

/-- PowerDNS creates what it is asked for, but the reply is lost, or the context ends before the row
    is written.  A zone is not asked for if the reply to the look-up before it is lost. -/
def Interrupted (x : Outage) (c : Creation) : Prop :=
  x.live c.reads = true ∧ (0 < c.reads → x.lost (c.reads - 1) = false) ∧
    (x.lost c.reads = true ∨ x.live (c.reads + 1) = false)

/-- If the creation fails, PowerDNS has no zone and no supermaster that it had not before, and the
    same creation succeeds once the dependencies are healthy. -/
def Recovers (w : World) (x : Outage) (c : Creation) : Prop :=
  let r := Failing.exec (faulty C.env.cases x.plan) (c.act C subj) (w, 0)
  ∀ e, r.1 = .error e →
    (∀ id, w.pdns.zone id = Option.none → r.2.1.pdns.zone id = Option.none) ∧
      (∀ m ∈ r.2.1.pdns.supermasters, m ∈ w.pdns.supermasters) ∧
      (Failing.exec (handler C.env.cases) (c.act C subj) r.2.1).1 = .ok ()

end Creation

end TangraDns
