/-
  The local store (packages `store`, `repo` and `memstore`): the rows of zones,
  templates, supermasters, IPAM sync state and ACME challenges, with the unique
  guards of the schema, and the operations on them.
-/
import TangraDns.Data.Table
import TangraDns.Errors
import TangraDns.Text.Unicode

namespace TangraDns

namespace Store

open Str

/-! ## Rows -/

inductive Kind where
  | native | master | slave | producer | consumer
deriving DecidableEq, Repr

namespace Kind

def text : Kind → Str
  | native => str "native"
  | master => str "master"
  | slave => str "slave"
  | producer => str "producer"
  | consumer => str "consumer"

def all : List Kind := [native, master, slave, producer, consumer]

def ofText (s : Str) : Option Kind := all.find? fun k => k.text == s

def needsMasters : Kind → Bool
  | slave | consumer => true
  | _ => false

def pdns : Kind → Str
  | native => str "Native"
  | master => str "Master"
  | slave => str "Slave"
  | producer => str "Producer"
  | consumer => str "Consumer"

/-- The kind of a spelling of PowerDNS. -/
def fromPDNS (U : CaseTables) (s : Str) : Option Kind := ofText (toLower U s)

end Kind

inductive Origin where
  | manual | ipam
deriving DecidableEq, Repr

def Origin.text : Origin → Str
  | manual => str "manual"
  | ipam => str "ipam"

structure Zone where
  id : Str
  tenantID : Str
  name : Str
  pdnsID : Str
  kind : Kind
  masters : List Str
  dnssec : Bool
  description : Str
  templateID : Str
  origin : Origin
  nameservers : List Str
  createdBy : Str
  createdAt : ℕ
  updatedAt : ℕ
deriving DecidableEq, Repr

/-- Name and PowerDNS id are unique over all tenants. -/
instance : Keyed Zone where
  clash a b := a.id == b.id || a.name == b.name || a.pdnsID == b.pdnsID
  symm a b := by
    rw [Bool.beq_comm, Bool.beq_comm (a := a.name), Bool.beq_comm (a := a.pdnsID)]

structure TemplateRecord where
  name : Str
  type : Str
  ttl : ℤ
  content : Str
  priority : ℤ
deriving DecidableEq, Repr

structure Template where
  id : Str
  tenantID : Str
  name : Str
  description : Str
  records : List TemplateRecord
  createdAt : ℕ
  updatedAt : ℕ
deriving DecidableEq, Repr

instance : Keyed Template := ⟨fun a b => a.id == b.id, fun a b => by rw [Bool.beq_comm]⟩

def maxTemplateRecords : ℕ := 200

/-- A primary that may provision zones. -/
structure Supermaster where
  id : Str
  tenantID : Str
  ip : Str
  nameserver : Str
  createdBy : Str
  createdAt : ℕ
deriving DecidableEq, Repr

/-- The pair of address and name server is unique over all tenants. -/
instance : Keyed Supermaster where
  clash a b := a.id == b.id || (a.ip == b.ip && a.nameserver == b.nameserver)
  symm a b := by
    rw [Bool.beq_comm, Bool.beq_comm (a := a.ip), Bool.beq_comm (a := a.nameserver)]

inductive SyncEvent where
  | created | updated | scanned | deleted | reconciled
deriving DecidableEq, Repr

/-- What the sync last wrote for one IPAM address; an empty name is no reference. -/
structure IPAMSync where
  tenantID : Str
  ipAddressID : Str
  address : Str
  hostname : Str
  forwardZoneID : Str
  forwardName : Str
  forwardType : Str
  reverseZoneID : Str
  reverseName : Str
  lastEvent : SyncEvent
  updatedAt : ℕ
deriving DecidableEq, Repr

instance : Keyed IPAMSync where
  clash a b := a.tenantID == b.tenantID && a.ipAddressID == b.ipAddressID
  symm a b := by rw [Bool.beq_comm, Bool.beq_comm (a := a.ipAddressID)]

structure Challenge where
  id : Str
  tenantID : Str
  zoneID : Str
  fqdn : Str
  value : Str
  requestedBy : Str
  createdAt : ℕ
deriving DecidableEq, Repr

instance : Keyed Challenge where
  clash a b := a.id == b.id || (a.tenantID == b.tenantID && a.fqdn == b.fqdn && a.value == b.value)
  symm a b := by
    rw [Bool.beq_comm, Bool.beq_comm (a := a.tenantID), Bool.beq_comm (a := a.fqdn),
      Bool.beq_comm (a := a.value)]

/-! ## Names -/

def InZone (name zone : Str) : Prop := name = zone ∨ Under name zone

instance (name zone : Str) : Decidable (InZone name zone) := inferInstanceAs (Decidable (_ ∨ _))

def Overlaps (a b : Str) : Prop := a = b ∨ Under a b ∨ Under b a

instance (a b : Str) : Decidable (Overlaps a b) := inferInstanceAs (Decidable (_ ∨ _ ∨ _))

def longestZone (zones : List Zone) (fqdn : Str) : Option Zone :=
  zones.foldl (fun best z =>
    if InZone fqdn z.name ∧ ∀ b ∈ best, b.name.length < z.name.length then some z else best) none

end Store

/-! ## The store -/

structure Store where
  zones : Table Store.Zone
  templates : Table Store.Template
  supermasters : Table Store.Supermaster
  sync : Table Store.IPAMSync
  challenges : Table Store.Challenge

namespace Store

open Str

def orNow (t now : ℕ) : ℕ := if t = 0 then now else t

variable (S : Store)

/-! ### Zones -/

def createZone (now : ℕ) (z : Zone) : Except Err Unit × Store :=
  let created := orNow z.createdAt now
  match S.zones.insert { z with createdAt := created, updatedAt := orNow z.updatedAt created } with
  | none => (.error .repoConflict, S)
  | some zones => (.ok (), { S with zones })

def zone (tenantID id : Str) : Option Zone :=
  (S.zones.find fun z => z.id == id).filter fun z => z.tenantID == tenantID

def getZone (tenantID id : Str) : Except Err Zone :=
  match S.zone tenantID id with
  | some z => .ok z
  | none => .error .repoNotFound

def getZoneByName (tenantID name : Str) : Except Err Zone :=
  match S.zones.find fun z => z.tenantID == tenantID && z.name == name with
  | some z => .ok z
  | none => .error .repoNotFound

def zonesForTenant (tenantID : Str) : List Zone :=
  (S.zones.rows.filter fun z => z.tenantID == tenantID).insertionSort fun a b =>
    Str.le a.name b.name = true

def updateZone (now : ℕ) (z : Zone) : Except Err Zone × Store :=
  match S.zone z.tenantID z.id with
  | none => (.error .repoNotFound, S)
  | some cur =>
    let upd (c : Zone) : Zone :=
      { c with
        kind := z.kind
        masters := z.masters
        dnssec := z.dnssec
        description := z.description
        updatedAt := orNow z.updatedAt now }
    (.ok (upd cur), { S with
      zones := S.zones.map (fun c => if c.id == z.id then upd c else c) fun a b => by
        have h : ∀ c : Zone, (if c.id == z.id then upd c else c).id = c.id ∧
            (if c.id == z.id then upd c else c).name = c.name ∧
            (if c.id == z.id then upd c else c).pdnsID = c.pdnsID := fun c => by
          split <;> exact ⟨rfl, rfl, rfl⟩
        simp only [Keyed.clash, h] })

def deleteZone (tenantID id : Str) : Except Err Unit × Store :=
  match S.zone tenantID id with
  | none => (.error .repoNotFound, S)
  | some _ => (.ok (), { S with
      zones := S.zones.filter fun z => !(z.id == id)
      challenges := S.challenges.filter fun c => !(c.tenantID == tenantID && c.zoneID == id) })

/-- Whether a zone of another tenant equals, contains or lies inside the name. -/
def zoneConflict (U : CaseTables) (tenantID name : Str) : Bool :=
  S.zones.rows.any fun z => z.tenantID != tenantID && decide (Overlaps (toLower U name) z.name)

/-- No zone of one tenant equals, contains or lies inside a zone of another. -/
def NoOverlap : Prop :=
  ∀ a ∈ S.zones.rows, ∀ b ∈ S.zones.rows, a.tenantID ≠ b.tenantID → ¬ Overlaps a.name b.name

instance : Decidable S.NoOverlap := inferInstanceAs (Decidable (∀ a ∈ S.zones.rows, _))

def allZoneNames : List Str := (S.zones.rows.map Zone.name).insertionSort fun a b =>
    Str.le a b = true

/-! ### Templates -/

def templateNameTaken (U : CaseTables) (t : Template) : Bool :=
  S.templates.rows.any fun x =>
    x.tenantID == t.tenantID && x.id != t.id && decide (EqualFold U x.name t.name)

def createTemplate (U : CaseTables) (now : ℕ) (t : Template) : Except Err Unit × Store :=
  let created := orNow t.createdAt now
  if S.templateNameTaken U t then (.error .repoConflict, S)
  else match S.templates.insert
      { t with createdAt := created, updatedAt := orNow t.updatedAt created } with
    | none => (.error .repoConflict, S)
    | some templates => (.ok (), { S with templates })

def template (tenantID id : Str) : Option Template :=
  (S.templates.find fun t => t.id == id).filter fun t => t.tenantID == tenantID

def getTemplate (tenantID id : Str) : Except Err Template :=
  match S.template tenantID id with
  | some t => .ok t
  | none => .error .repoNotFound

def updateTemplate (U : CaseTables) (now : ℕ) (t : Template) : Except Err Template × Store :=
  match S.template t.tenantID t.id with
  | none => (.error .repoNotFound, S)
  | some cur =>
    if S.templateNameTaken U t then (.error .repoConflict, S)
    else
      let upd (c : Template) : Template :=
        { c with
          name := t.name
          description := t.description
          records := t.records
          updatedAt := orNow t.updatedAt now }
      (.ok (upd cur), { S with
        templates := S.templates.map (fun c => if c.id == t.id then upd c else c) fun a b => by
          have h : ∀ c : Template, (if c.id == t.id then upd c else c).id = c.id := fun c => by
            split <;> rfl
          simp only [Keyed.clash, h] })

def deleteTemplate (tenantID id : Str) : Except Err Unit × Store :=
  match S.template tenantID id with
  | none => (.error .repoNotFound, S)
  | some _ => (.ok (), { S with templates := S.templates.filter fun t => !(t.id == id) })

def tenantTemplates (U : CaseTables) (tenantID : Str) : List Template :=
  (S.templates.rows.filter fun t => t.tenantID == tenantID).insertionSort fun a b =>
    (if toLower U a.name = toLower U b.name then Str.le a.id b.id
      else Str.le (toLower U a.name) (toLower U b.name)) = true

/-! ### Supermasters -/

def canonIP (s : Str) : Option Str := (Addr.parseAddr s).map fun a => a.unmap.toStr

def createSupermaster (now : ℕ) (m : Supermaster) : Except Err Unit × Store :=
  match canonIP m.ip with
  | none => (.error .repoConflict, S)
  | some ip =>
    match S.supermasters.insert { m with ip, createdAt := orNow m.createdAt now } with
    | none => (.error .repoConflict, S)
    | some supermasters => (.ok (), { S with supermasters })

def supermaster (tenantID id : Str) : Option Supermaster :=
  (S.supermasters.find fun m => m.id == id).filter fun m => m.tenantID == tenantID

def getSupermaster (tenantID id : Str) : Except Err Supermaster :=
  match S.supermaster tenantID id with
  | some m => .ok m
  | none => .error .repoNotFound

def tenantSupermasters (tenantID : Str) : List Supermaster :=
  (S.supermasters.rows.filter fun m => m.tenantID == tenantID).insertionSort fun a b =>
    (if Addr.parseAddr a.ip = Addr.parseAddr b.ip then Str.le a.nameserver b.nameserver
      else match Addr.parseAddr a.ip, Addr.parseAddr b.ip with
        | some x, some y => x.le y
        | _, _ => true) = true

def deleteSupermaster (tenantID id : Str) : Except Err Unit × Store :=
  match S.supermaster tenantID id with
  | none => (.error .repoNotFound, S)
  | some _ => (.ok (), { S with supermasters := S.supermasters.filter fun m => !(m.id == id) })

/-! ### IPAM sync -/

def syncRow (tenantID id : Str) : Option IPAMSync :=
  S.sync.find fun r => r.tenantID == tenantID && r.ipAddressID == id

def getIPAMSync (tenantID id : Str) : Except Err IPAMSync :=
  match S.syncRow tenantID id with
  | some r => .ok r
  | none => .error .repoNotFound

def dropSync (tenantID id : Str) : Table IPAMSync :=
  S.sync.filter fun r => !(r.tenantID == tenantID && r.ipAddressID == id)

def upsertIPAMSync (now : ℕ) (r : IPAMSync) : Except Err Unit × Store :=
  match canonIP r.address with
  | none => (.error .repoConflict, S)
  | some address =>
    if r.ipAddressID = [] then (.error .repoConflict, S)
    else match (S.dropSync r.tenantID r.ipAddressID).insert
        { r with address, updatedAt := orNow r.updatedAt now } with
      | none => (.error .repoConflict, S)
      | some sync => (.ok (), { S with sync })

def deleteIPAMSync (tenantID id : Str) : Except Err Unit × Store :=
  match S.syncRow tenantID id with
  | none => (.error .repoNotFound, S)
  | some _ => (.ok (), { S with sync := S.dropSync tenantID id })

def IPAMSync.clear (zoneID : Str) (r : IPAMSync) : IPAMSync :=
  { r with
    forwardZoneID := if r.forwardZoneID = zoneID then [] else r.forwardZoneID
    forwardName := if r.forwardZoneID = zoneID then [] else r.forwardName
    forwardType := if r.forwardZoneID = zoneID then [] else r.forwardType
    reverseZoneID := if r.reverseZoneID = zoneID then [] else r.reverseZoneID
    reverseName := if r.reverseZoneID = zoneID then [] else r.reverseName }

def clearSyncZone (tenantID zoneID : Str) : Store :=
  { S with
    sync := S.sync.map (fun r => if r.tenantID == tenantID then r.clear zoneID else r) fun a b => by
      have h : ∀ r : IPAMSync,
          (if r.tenantID == tenantID then r.clear zoneID else r).tenantID = r.tenantID ∧
          (if r.tenantID == tenantID then r.clear zoneID else r).ipAddressID = r.ipAddressID :=
        fun r => by split <;> exact ⟨rfl, rfl⟩
      simp only [Keyed.clash, h] }

/-! ### Challenges -/

def insertChallenge (now : ℕ) (c : Challenge) : Except Err Unit × Store :=
  match S.zone c.tenantID c.zoneID with
  | none => (.error .repoNotFound, S)
  | some _ =>
    match S.challenges.insert { c with createdAt := orNow c.createdAt now } with
    | none => (.error .repoConflict, S)
    | some challenges => (.ok (), { S with challenges })

def deleteChallenge (tenantID fqdn value : Str) : Except Err Unit × Store :=
  let hit (c : Challenge) : Bool := c.tenantID == tenantID && c.fqdn == fqdn && c.value == value
  match S.challenges.find hit with
  | none => (.error .repoNotFound, S)
  | some _ => (.ok (), { S with challenges := S.challenges.filter fun c => !hit c })

/-- At most `limit` rows of any tenant made before a time, oldest first. -/
def challengesOlderThan (before limit : ℕ) : List Challenge :=
  let out := (S.challenges.rows.filter fun c => c.createdAt < before).insertionSort fun a b =>
    (if a.createdAt = b.createdAt then Str.le a.id b.id else decide (a.createdAt < b.createdAt)) =
      true
  if 0 < limit then out.take limit else out

end Store

end TangraDns
