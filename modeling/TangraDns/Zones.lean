/-
  The zone service (package `zones`): creation, look-up, update, deletion,
  export and NOTIFY of a tenant's zones.

  Writes go to PowerDNS first and to the store second, with a compensating call
  when the second fails.  The functions of `Impl` are the unexported ones.
-/
import TangraDns.Authz
import TangraDns.Recursor
import TangraDns.Templates

namespace TangraDns

open Str Validate

structure Config where
  env : Env
  /-- the permission check of users; without one the HTTP layer has made it -/
  checker : Option Authz.Checker
  recursor : Option Recursor.Config
  /-- the template service, if one is wired: its limits -/
  templates : Option Limits
  limits : Limits
  maxExportBytes : ℕ
  /-- the identity the challenge service serves, and the TTL of a challenge -/
  allowedCaller : Str
  challengeTTL : ℤ
  syncTTL : ℤ

/-- The default limits, with no permission check, recursor or template service wired. -/
def Config.sample : Config :=
  ⟨.sample, none, none, none, defaultLimits, 10000000, str "spiffe://mesh/acme", 60, 3600⟩

namespace Zones

variable (C : Config)

/-- A new zone as a caller submits it; `origin` and `rrsets` are set by internal callers only. -/
structure CreateInput where
  name : Str
  kind : Str
  masters : List Str
  nameservers : List Str
  dnssec : Bool
  description : Str
  templateID : Str
  origin : Str
  rrsets : List PDNS.RRset
deriving DecidableEq, Repr

structure UpdateInput where
  kind : Option Str
  masters : Option (List Str)
  dnssec : Option Bool
  description : Option Str
deriving DecidableEq, Repr

def guard (subj : Subjects) (perm : Permission) : Except Err Unit :=
  if subj.tenantID = [] then .error (.forbidden .tenantRequired)
  else if subj.actorKind = .user ∧ C.checker.isNone then .ok ()
  else Authz.require C.checker subj perm

def mapPDNS : Err → Err
  | .pdns (.api status none) =>
    if 400 ≤ status ∧ status < 500 then .zone (.rejected status) else .pdns (.api status none)
  | .pdns (.api status (some .unavailable)) =>
    if 400 ≤ status ∧ status < 500 then .zone (.rejected status)
    else .pdns (.api status (some .unavailable))
  | .pdns (.api status (some .tooLarge)) =>
    if 400 ≤ status ∧ status < 500 then .zone (.rejected status)
    else .pdns (.api status (some .tooLarge))
  | e => e

def maxDescription : ℕ := 1000

def maxNameservers : ℕ := 16

def checkDescription (d : Str) : Except Err Unit :=
  if maxDescription < runeCount d then .error (.zone .description) else .ok ()

def kindMasters (kind : Str) (ms : List Str) : Except Err (Store.Kind × List Str) :=
  match Store.Kind.ofText kind with
  | none => .error (.zone .unknownKind)
  | some k => do
    let m ← (Validate.masters ms).mapError .masters
    if k.needsMasters ∧ m = [] then .error (.zone (.needsPrimary kind))
    else if ¬ k.needsMasters ∧ m ≠ [] then .error (.masters .notSecondary)
    else .ok (k, m)

def hostnames : List Str → List Str → Except Err (List Str)
  | out, [] => .ok out
  | out, n :: ns => do
    let h ← (Validate.hostname C.env n).mapError .name
    hostnames (if h ∈ out then out else out ++ [h]) ns

/-- The name servers of a zone; secondaries take theirs from the primary. -/
def nameservers (kind : Store.Kind) (ns : List Str) : Except Err (List Str) :=
  if kind.needsMasters then .ok []
  else if maxNameservers < ns.length then .error (.zone .nameservers)
  else hostnames C [] ns

def origin (subj : Subjects) (o : Str) : Except Err Store.Origin :=
  if o = [] ∨ o = str "manual" then .ok .manual
  else if o = str "ipam" then if subj.isHuman then .error (.zone .ipamOrigin) else .ok .ipam
  else .error (.zone .unknownOrigin)

/-- The requested name servers in the last apex NS set of the initial sets, if there is one. -/
def mergeApexNS (zone : Str) (rrsets : List PDNS.RRset) (nameservers : List Str) :
    List PDNS.RRset × List Str :=
  let apexNS (r : PDNS.RRset) : Bool :=
    r.name == zone && decide (EqualFold C.env.cases r.type (str "NS"))
  let add (recs : List PDNS.Record) : List PDNS.Record :=
    nameservers.foldl (fun out n =>
      if n ∈ recs.map (fun r => toLower C.env.cases r.content) ∨
        n ∈ (out.drop recs.length).map PDNS.Record.content then out else out ++ [⟨n, false⟩]) recs
  match rrsets.reverse.findIdx? apexNS with
  | none => (rrsets, nameservers)
  | some i =>
    if nameservers = [] then (rrsets, nameservers)
    else (rrsets.modify (rrsets.length - 1 - i) fun r => { r with records := add r.records }, [])

def syncForward (name : Str) : Act Unit :=
  match C.recursor with
  | none => pure ()
  | some r => do
    let _ ← (Recursor.syncForward C.env.cases r name).attempt
    pure ()

def removeForward (name : Str) : Act Unit :=
  match C.recursor with
  | none => pure ()
  | some r => do
    let _ ← (Recursor.removeForward C.env.cases r name).attempt
    pure ()

def metadata (z : Store.Zone) : PDNS.Zone :=
  ⟨[], z.name, z.kind.pdns, 0, 0, z.masters, z.dnssec, [], z.tenantID, []⟩

def canonicalFQDN (s : Str) : Option Str :=
  let n := C.env.fqdn (toLower C.env.cases (trimSpace s))
  if C.env.isDomainName n ∧ n ≠ [dot] ∧ ¬ Str.Contains n [dot, dot] then some n else none

/-! ## Creation -/

namespace Impl

def prepare (subj : Subjects) (i : CreateInput) : Act Store.Zone := do
  let name ← Act.ofExcept ((Validate.zoneName C.env i.name).mapError .name)
  let id ← Act.newID
  let (kind, masters) ← Act.ofExcept (kindMasters
    (toLower C.env.cases (trimSpace i.kind)) i.masters)
  let nameservers ← Act.ofExcept (nameservers C kind i.nameservers)
  let description := trimSpace i.description
  Act.ofExcept (checkDescription description)
  let origin ← Act.ofExcept (origin subj i.origin)
  return {
    id, tenantID := subj.tenantID, name, pdnsID := name, kind, masters, dnssec :=
      i.dnssec, description,
    templateID := i.templateID, origin, nameservers, createdBy := subj.actorID, createdAt := 0,
    updatedAt := 0 }

def initialSets (z : Store.Zone) (rrsets : List PDNS.RRset) : Act (List PDNS.RRset) :=
  if z.templateID = [] then pure rrsets
  else if z.kind.needsMasters then throw (.zone .templateKind)
  else match C.templates with
    | none => throw (.zone .templateNotFound)
    | some l => do
      let tpl ← Templates.expand C.env l z.tenantID z.templateID z.name
      return rrsets ++ tpl

def free (tenantID name : Str) : Act Unit := do
  match ← (Act.store (.getZoneByName tenantID name)).attempt with
  | .ok _ => throw (.zone .duplicate)
  | .error e =>
    if !e.Is .repoNotFound then throw e
    else
      let taken : Bool ← Act.store (.zoneConflict tenantID name)
      if taken then throw (.zone .duplicate)
      else match ← (Act.pdns (.getZone name)).attempt with
        | .ok _ => throw (.zone .onServer)
        | .error e => if !e.Is (.pdns .notFound) then throw (mapPDNS e) else pure ()

/-- The row, after PowerDNS has the zone; PowerDNS forgets it again if that fails. -/
def insert (z : Store.Zone) : Act Store.Zone := do
  let now ← Act.now
  let z := { z with createdAt := now, updatedAt := now }
  match ← (Act.store (.createZone z)).attempt with
  | .ok _ => return z
  | .error e => do
    let _ ← (Act.pdns (.deleteZone z.pdnsID)).attempt
    if e.Is .repoConflict then throw (.zone .duplicate) else throw e

def make (z : Store.Zone) (rrsets : List PDNS.RRset) : Act Store.Zone := do
  let (rrsets, ns) := mergeApexNS C z.name rrsets z.nameservers
  match ← (Act.pdns (.createZone
      ⟨[], z.name, z.kind.pdns, 0, 0, z.masters, z.dnssec, ns, z.tenantID, rrsets⟩)).attempt with
  | .error e => if e.Is (.pdns .conflict) then throw (.zone .duplicate) else throw (mapPDNS e)
  | .ok created => insert { z with pdnsID := if created.id = [] then z.pdnsID else created.id }

def create (subj : Subjects) (i : CreateInput) : Act Store.Zone := do
  let z ← prepare C subj i
  let rrsets ← initialSets C z i.rrsets
  free z.tenantID z.name
  make C z rrsets

end Impl

def create (subj : Subjects) (i : CreateInput) : Act Store.Zone := do
  Act.ofExcept (guard C subj .zonesManage)
  let z ← Impl.create C subj i
  syncForward C z.name
  return z

/-! ## Look-up -/

namespace Impl

def owned (subj : Subjects) (id : Str) : Act Store.Zone := do
  match ← (Act.store (.getZone subj.tenantID id)).attempt with
  | .ok z => return z
  | .error e => throw (if e.Is .repoNotFound then .zone .notFound else e)

end Impl

def owned (subj : Subjects) (id : Str) : Act Store.Zone := do
  Act.ofExcept (guard C subj .zonesRead)
  Impl.owned subj id

def get (subj : Subjects) (id : Str) : Act (Store.Zone × Option (ℕ × ℕ)) := do
  let z ← owned C subj id
  match ← (Act.pdns (.getZone z.pdnsID)).attempt with
  | .ok pz => return (z, some (pz.serial, pz.notifiedSerial))
  | .error _ => return (z, none)

def list (subj : Subjects) : Act (List Store.Zone) := do
  Act.ofExcept (guard C subj .zonesRead)
  Act.store (.zonesForTenant subj.tenantID)

def byName (subj : Subjects) (name : Str) : Act Store.Zone := do
  Act.ofExcept (guard C subj .zonesRead)
  match canonicalFQDN C name with
  | none => throw (.zone .notFound)
  | some n =>
    match ← (Act.store (.getZoneByName subj.tenantID n)).attempt with
    | .ok z => return z
    | .error e => throw (if e.Is .repoNotFound then .zone .notFound else e)

def findForName (subj : Subjects) (fqdn : Str) : Act Store.Zone := do
  Act.ofExcept (guard C subj .zonesRead)
  match canonicalFQDN C fqdn with
  | none => throw (.zone .notFound)
  | some n => do
    let all ← Act.store (.zonesForTenant subj.tenantID)
    match Store.longestZone all n with
    | some z => return z
    | none => throw (.zone .notFound)

/-! ## Update -/

/-- The row an update makes of the loaded one, before its time is set. -/
def nextRow (prev : Store.Zone) (i : UpdateInput) : Except Err Store.Zone := do
  let kind := match i.kind with
    | some k => toLower C.env.cases (trimSpace k)
    | none => prev.kind.text
  let needs := match Store.Kind.ofText kind with
    | some k => k.needsMasters
    | none => false
  let ms := match i.masters with
    | some m => m
    | none => if needs then prev.masters else []
  let (k, m) ← kindMasters kind ms
  let next := { prev with kind := k, masters := m, dnssec := i.dnssec.getD prev.dnssec }
  match i.description with
  | none => .ok next
  | some d => do
    checkDescription (trimSpace d)
    .ok { next with description := trimSpace d }

def metaChanged (prev next : Store.Zone) : Bool :=
  next.kind != prev.kind || next.dnssec != prev.dnssec || next.masters != prev.masters

namespace Impl

def put (pdnsID : Str) (m : PDNS.Zone) : Act Unit := do
  match ← (Act.pdns (.updateZoneMetadata pdnsID m)).attempt with
  | .ok _ => pure ()
  | .error e => throw (mapPDNS e)

/-- The row, after PowerDNS has the metadata; PowerDNS gets the previous ones if that fails. -/
def save (prev next : Store.Zone) : Act Store.Zone := do
  let now ← Act.now
  match ← (Act.store (.updateZone { next with updatedAt := now })).attempt with
  | .ok saved => return saved
  | .error e =>
    if metaChanged prev next then do
      let _ ← (put prev.pdnsID (metadata prev)).attempt
      throw e
    else throw e

def update (prev : Store.Zone) (i : UpdateInput) : Act Store.Zone := do
  let next ← Act.ofExcept (nextRow C prev i)
  if metaChanged prev next then do
    put prev.pdnsID (metadata next)
    save prev next
  else save prev next

end Impl

def update (subj : Subjects) (id : Str) (i : UpdateInput) : Act Store.Zone := do
  Act.ofExcept (guard C subj .zonesManage)
  let prev ← Impl.owned subj id
  Impl.update C prev i

/-! ## Deletion, export, NOTIFY -/

namespace Impl

def drop (pdnsID : Str) : Act Unit := do
  match ← (Act.pdns (.deleteZone pdnsID)).attempt with
  | .ok _ => pure ()
  | .error e => if e.Is (.pdns .notFound) then pure () else throw (mapPDNS e)

def delete (z : Store.Zone) : Act Unit := do
  drop z.pdnsID
  removeForward C z.name
  Act.store (.clearSyncZone z.tenantID z.id)
  Act.store (.deleteZone z.tenantID z.id)

end Impl

def delete (subj : Subjects) (id : Str) : Act Unit := do
  Act.ofExcept (guard C subj .zonesManage)
  let z ← Impl.owned subj id
  Impl.delete C z

def «export» (subj : Subjects) (id : Str) : Act (Str × Str) := do
  Act.ofExcept (guard C subj .zonesManage)
  let z ← Impl.owned subj id
  match ← (Act.pdns (.exportZone z.pdnsID)).attempt with
  | .error e => throw (mapPDNS e)
  | .ok text =>
    if C.maxExportBytes < List.length text then throw (.zone .exportTooLarge)
      else return (z.name, text)

def notify (subj : Subjects) (id : Str) : Act Unit := do
  Act.ofExcept (guard C subj .zonesManage)
  let z ← Impl.owned subj id
  if z.kind ≠ .master ∧ z.kind ≠ .producer then throw (.zone .notifyKind)
  else match ← (Act.pdns (.notifyZone z.pdnsID)).attempt with
    | .error e => throw (mapPDNS e)
    | .ok _ => pure ()

end Zones

end TangraDns
