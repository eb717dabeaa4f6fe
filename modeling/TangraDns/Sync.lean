/-
  The IPAM sync (package `ipamsync`): an event names an address, IPAM's answer
  about it decides what the tenant's DNS has to hold for it.
-/
import TangraDns.Records
import TangraDns.SyncPlan

namespace TangraDns.Sync

open Str Validate

variable (C : Config)

inductive EventType where
  | created | updated | deleted | scanned
deriving DecidableEq, Repr

/-- An address event: only the id is acted on. -/
structure Event where
  type : EventType
  id : Str
deriving DecidableEq, Repr

def lastEvent : EventType → Store.SyncEvent
  | .updated => .updated
  | .scanned => .scanned
  | .deleted => .deleted
  | .created => .created

def comment : Str := str "managed by IPAM sync"

def permanent (e : Err) : Bool :=
  e.Is .syncSkip || e.Is .zonesDuplicate || e.Is .zonesInvalidKind || e.Is .errName ||
    e.Is .errRecord || e.Is .errPublicSuffix

def input (name typ : Str) (ttl : ℤ) (values : List Str) : RecordSetInput :=
  ⟨name, typ, ttl, values.map fun v => ⟨v, false⟩, comment⟩

def contents (r : Records.RecordSet) : List Str := r.values.map RecordValue.content

/-! ## Records -/

def zone (subj : Subjects) (id : Option Str) (name : Str) : Act Store.Zone :=
  match id with
  | some id => Zones.owned C subj id
  | none => do
    match ← (Zones.create C subj ⟨name, str "native", [], [], false, [], [], str "ipam",
      []⟩).attempt with
    | .ok z => return z
    | .error e =>
      if e.Is .zonesDuplicate then
        -- created meanwhile in this tenant
        match ← (Zones.byName C subj name).attempt with
        | .ok own => return own
        | .error _ => throw e
      else throw e

def lookup (subj : Subjects) (z : Store.Zone) (name typ : Str) :
    Act (Option Records.RecordSet) := do
  match ← (Records.lookup C subj z ⟨name, typ⟩).attempt with
  | .ok cur => return some cur
  | .error e => if e.Is .recordsNotFound then return none else throw e

def write (subj : Subjects) (z : Store.Zone) (i : RecordSetInput) : Act Unit := do
  let _ ← Records.apply C subj z i
  pure ()

/-- The TTL of the sync's records as PowerDNS has it. -/
def ttl : ℤ := C.syncTTL % 2 ^ 32

def addValue (subj : Subjects) (z : Store.Zone) (name typ value : Str) : Act Unit := do
  match ← lookup C subj z name typ with
  | some cur =>
    if value ∈ contents cur then pure ()
    else write C subj z (input name typ cur.ttl (contents cur ++ [value]))
  | none => write C subj z (input name typ (ttl C) [value])

def ownedOrGone (subj : Subjects) (zoneID : Str) : Act (Option Store.Zone) := do
  match ← (Zones.owned C subj zoneID).attempt with
  | .ok z => return some z
  | .error e => if e.Is .zonesNotFound then return none else throw e

def removeValue (subj : Subjects) (zoneID name typ value : Str) : Act Unit := do
  match ← ownedOrGone C subj zoneID with
  | none => pure ()
  | some z =>
    match ← lookup C subj z name typ with
    | none => pure ()
    | some cur =>
      let rest := (contents cur).filter fun v => !(v == value)
      if rest.length = cur.values.length then pure ()
      else if rest = [] then Records.remove C subj z ⟨name, typ⟩
      else write C subj z { input name typ cur.ttl rest with comment := cur.comment }

def removeSet (subj : Subjects) (zoneID name typ : Str) : Act Unit := do
  match ← ownedOrGone C subj zoneID with
  | none => pure ()
  | some z => Records.remove C subj z ⟨name, typ⟩

def setPTR (subj : Subjects) (z : Store.Zone) (owner host : Str) : Act Unit := do
  let cur ← lookup C subj z owner (str "PTR")
  if cur.map contents = some [host] then pure ()
  else write C subj z (input owner (str "PTR") (ttl C) [host])

/-! ## One side of an address -/

/-- How a side ended: its error, whether the previous references stay, and the failed removal. -/
structure Side where
  keep : Bool
  err : Option Err
  noted : Option Err

def sideWrite (planErr : Option Err) (write : Act Unit) : Act Side :=
  match planErr with
  | some e => pure ⟨false, some e, none⟩
  | none => do
    match ← write.attempt with
    | .ok _ => return ⟨false, none, none⟩
    | .error e => return ⟨!permanent e, some e, none⟩

/-- One side's transition: a record that moved is removed first, unless the new place failed for
    the moment; a failed removal keeps the previous references and writes nothing. -/
def side (planErr : Option Err) (moved : Bool) (remove write : Act Unit) : Act Side :=
  if moved then
    if planErr.any fun e => !permanent e then pure ⟨true, planErr, none⟩
    else do
      match ← remove.attempt with
      | .error e => return ⟨true, some e, some e⟩
      | .ok _ => sideWrite planErr write
  else sideWrite planErr write

def placed {α : Type} (plan : Except Err α) (zone : α → Act Store.Zone) :
    Act (Except Err (α × Store.Zone)) :=
  match plan with
  | .error e => pure (.error e)
  | .ok f => do
    match ← (zone f).attempt with
    | .ok z => return .ok (f, z)
    | .error e => return .error e

def errOf {α : Type} : Except Err α → Option Err
  | .error e => some e
  | .ok _ => none

def forward (subj : Subjects) (prev : Store.IPAMSync) (all : List Store.Zone) (host address : Str)
    (ip : Addr) : Act (Side × Str × Str × Str) := do
  let p ← placed (planForward C.env all host ip) fun f => zone C subj f.zoneID f.zone
  let moved : Bool := prev.forwardName != [] && match p with
    | .error _ => true
    | .ok (f, z) => prev.forwardZoneID != z.id || prev.forwardName != f.name ||
        prev.forwardType != f.type || prev.address != address
  let s ← side (errOf p) moved
    (removeValue C subj prev.forwardZoneID prev.forwardName prev.forwardType prev.address)
    (match p with
      | .ok (f, z) => addValue C subj z f.name f.type address
      | .error _ => pure ())
  return (s, match s.err, p with
    | none, .ok (f, z) => (z.id, f.name, f.type)
    | _, _ =>
      if s.keep then (prev.forwardZoneID, prev.forwardName, prev.forwardType) else ([], [], []))

/-- The prefix length of the address's subnet, `-1` when it is not known. -/
def subnetPrefix (tenantID subnetID : Str) : Act ℤ :=
  if subnetID = [] then pure (-1)
  else do
    match ← (Act.ipam (.getSubnet tenantID subnetID)).attempt with
    | .ok cidr => return prefixOf cidr
    | .error _ => return -1

/-- The references of the PTR record after the reverse side. -/
def reverse (subj : Subjects) (prev : Store.IPAMSync) (all : List Store.Zone)
    (host : Str) (ip : Addr)
    (subnetID : Str) : Act (Side × Str × Str) := do
  let len ← subnetPrefix subj.tenantID subnetID
  let p ← placed (.ok (planReverse all ip len)) fun r => zone C subj r.zoneID r.zone
  let moved : Bool := prev.reverseName != [] && match p with
    | .error _ => true
    | .ok (r, z) => prev.reverseZoneID != z.id || prev.reverseName != r.owner
  let s ← side (errOf p) moved (removeSet C subj prev.reverseZoneID prev.reverseName (str "PTR"))
    (match p with
      | .ok (r, z) => setPTR C subj z r.owner host
      | .error _ => pure ())
  return (s, match s.err, p with
    | none, .ok (r, z) => (z.id, r.owner)
    | _, _ => if s.keep then (prev.reverseZoneID, prev.reverseName) else ([], []))

/-! ## Events -/

/-- A store call of the sync; its error is passed on with the step. -/
def step {α : Type} (p : Act α) : Act α := do
  match ← p.attempt with
  | .ok a => return a
  | .error e => throw (.syncStep e)

/-- Brings forward and reverse records to the address and the host; each side is recorded on
    success only. -/
def upsert (subj : Subjects) (prev : Store.IPAMSync) (ip : Addr) (host subnetID : Str)
    (last : Store.SyncEvent) : Act Unit := do
  let all ← step (Act.store (.zonesForTenant subj.tenantID))
  let now ← Act.now
  let (f, fz, fn, ft) ← forward C subj prev all host ip.toStr ip
  let (r, rz, rn) ← reverse C subj prev all host ip subnetID
  step (Act.store (.upsertIPAMSync
    ⟨subj.tenantID, prev.ipAddressID, ip.toStr, host, fz, fn, ft, rz, rn, last, now⟩))
  match f.noted.orElse fun _ => r.noted with
  | some e => throw e
  | none => pure ()

def drop (subj : Subjects) (prev : Store.IPAMSync) : Act (Option Err) := do
  let first ← (if prev.forwardName = [] then pure (.ok ()) else
    (removeValue C subj prev.forwardZoneID prev.forwardName prev.forwardType prev.address).attempt)
  let second ← (if prev.reverseName = [] then pure (.ok ()) else
    (removeSet C subj prev.reverseZoneID prev.reverseName (str "PTR")).attempt)
  return (errOf first).orElse fun _ => errOf second

def clear (subj : Subjects) (prev : Store.IPAMSync) (last : Store.SyncEvent) : Act Unit := do
  let e ← drop C subj prev
  let now ← Act.now
  let row : Store.IPAMSync := match e with
    | none => ⟨prev.tenantID, prev.ipAddressID, prev.address, [], [], [], [], [], [], last, now⟩
    | some _ => { prev with hostname := [], lastEvent := last, updatedAt := now }
  step (Act.store (.upsertIPAMSync row))
  match e with
  | some e => throw e
  | none => pure ()

/-- The address is gone: the records and the row go. -/
def release (subj : Subjects) (prev : Store.IPAMSync) : Act Unit := do
  match ← drop C subj prev with
  | some e => throw e
  | none =>
    match ← (Act.store (.deleteIPAMSync prev.tenantID prev.ipAddressID)).attempt with
    | .ok _ => pure ()
    | .error e => if e.Is .repoNotFound then pure () else throw (.syncStep e)

def row (tenantID id : Str) : Act (Option Store.IPAMSync) := do
  match ← (Act.store (.getIPAMSync tenantID id)).attempt with
  | .ok r => return some r
  | .error e => if e.Is .repoNotFound then return none else throw (.syncStep e)

def readAddress (tenantID id : Str) : Act (Option Address) := do
  match ← (Act.ipam (.getAddress tenantID id)).attempt with
  | .ok a => return some a
  | .error e => if e.Is .ipamNotFound then return none else throw (.syncStep e)

def usable (addr : Address) (id : Str) : Option Addr :=
  match Addr.parseAddr (trimSpace addr.address) with
  | some ip => if ip.zone ≠ [] ∨ addr.id ≠ id then none else some ip.unmap
  | none => none

def handle (tenantID : Str) (ev : Event) : Act Unit :=
  if tenantID = [] ∨ ev.id = [] then throw .syncMalformed
  else do
    let prev ← row tenantID ev.id
    match ← readAddress tenantID ev.id with
    | none => match prev with
      | none => pure ()
      | some prev => release C (.systemFor tenantID) prev
    | some addr =>
      match usable addr ev.id with
      | none => throw .syncMalformed
      | some ip =>
        match canonicalHost C.env addr.hostname, prev with
        | none, none => pure ()
        | none, some prev => clear C (.systemFor tenantID) prev (lastEvent ev.type)
        | some host, prev =>
          upsert C (.systemFor tenantID)
            (prev.getD ⟨tenantID, ev.id, [], [], [], [], [], [], [], .created, 0⟩)
            ip host addr.subnetID (lastEvent ev.type)

end TangraDns.Sync
