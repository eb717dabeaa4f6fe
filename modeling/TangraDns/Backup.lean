/-
  Backup of a tenant's DNS metadata (package `backup`): the export document, its
  validation, and the import into a tenant.

  An import links zones PowerDNS has, it never makes one: a zone is taken when
  its PowerDNS account is free, the target's, or the tenant the document says it
  comes from.
-/
import TangraDns.Zones

namespace TangraDns.Backup

open Str Validate

variable (C : Config)

/-! ## The document -/

inductive Collection where
  | zones | templates | supermasters
deriving DecidableEq, Repr

/-- A zone of a document, with its text; kind and origin are as the caller wrote them. -/
structure ZoneRow where
  id : Str
  tenantID : Str
  name : Str
  kind : Str
  masters : List Str
  dnssec : Bool
  description : Str
  templateID : Str
  origin : Str
  nameservers : List Str
  createdBy : Str
  createdAt : ℕ
  updatedAt : ℕ
  bind : Str
deriving DecidableEq, Repr

/-- A backup document; `tenantID` says which tenant it comes from. -/
structure Document where
  schemaVersion : ℤ
  exportedAt : ℕ
  tenantID : Str
  zones : List ZoneRow
  templates : List Store.Template
  supermasters : List Store.Supermaster
deriving DecidableEq, Repr

def schemaVersion : ℤ := 1

def maxRows : ℕ := 20000

def maxBindBytes : ℕ := 48 * 2 ^ 20

/-- The zone template records are checked against. -/
def placeholderZone : Str := str "placeholder.example."

def isHex (b : UInt8) : Bool := (48 ≤ b && b ≤ 57) || (97 ≤ b && b ≤ 102) || (65 ≤ b && b ≤ 70)

def isUUID (s : Str) : Bool :=
  s.length == 36 && s.zipIdx.all fun (b, i) => if i ∈ [8, 13, 18, 23] then b == 45 else isHex b

def checkZone (z : ZoneRow) : Except Err Unit :=
  if !isUUID z.id || (z.templateID != [] && !isUUID z.templateID)
    then .error (.backupSchema .zoneID)
  else if (zoneName C.env z.name).toOption ≠ some z.name then .error (.backupSchema .zoneName)
  else if (Store.Kind.ofText z.kind).isNone ||
      (z.origin != [] && z.origin != str "manual" && z.origin != str "ipam") then
    .error (.backupSchema .zoneKind)
  else if (masters z.masters).toOption = none then .error (.backupSchema .zoneMasters)
  else if 1000 < runeCount z.description ∨ 16 < z.nameservers.length then
    .error (.backupSchema .zoneDescription)
  else if z.nameservers.any fun n => (hostname C.env n).toOption.isNone then
    .error (.backupSchema .zoneNameserver)
  else .ok ()

def checkTemplate (t : Store.Template) : Except Err Unit :=
  let name := trimSpace t.name
  if !isUUID t.id then .error (.backupSchema .templateID)
  else if name = [] ∨ Templates.maxName < runeCount name ∨ (runes name).any isControl ∨
      Templates.maxDescription < runeCount t.description then
    .error (.backupSchema .templateName)
  else if (Templates.expandRecords C.env C.limits placeholderZone t.records).toOption.isNone then
    .error (.backupSchema .templateRecords)
  else .ok ()

def checkSupermaster (m : Store.Supermaster) : Except Err Unit :=
  if !isUUID m.id then .error (.backupSchema .supermasterID)
  else if (ipGuard m.ip).toOption = none then .error (.backupSchema .supermasterIP)
  else if (hostname C.env m.nameserver).toOption = none then
    .error (.backupSchema .supermasterNameserver)
  else .ok ()

def checkAll {α : Type} (check : α → Except Err Unit) : List α → Except Err Unit
  | [] => .ok ()
  | a :: as => do
    check a
    checkAll check as

def validate (b : Document) : Except Err Unit := do
  if b.schemaVersion ≠ schemaVersion then .error (.backupSchema (.version b.schemaVersion))
  else if maxRows < b.zones.length ∨ maxRows < b.templates.length ∨ maxRows < b.supermasters.length
    then
    .error .backupTooLarge
  else if b.tenantID != [] && !isUUID b.tenantID then .error (.backupSchema .tenantID)
  else do
    checkAll (checkZone C) b.zones
    checkAll (checkTemplate C) b.templates
    checkAll (checkSupermaster C) b.supermasters

/-! ## Access -/

/-- The tenant an operation acts on: the caller's, or for a platform administrator any other. -/
def target (subj : Subjects) (tenantID : Str) : Except Err Str := do
  Zones.guard C subj .backupManage
  if tenantID = [] ∨ tenantID = subj.tenantID then .ok subj.tenantID
  else do
    Authz.requirePlatformAdmin subj
    if !isUUID tenantID then .error (.backupSchema .tenantID) else .ok tenantID

/-! ## Export -/

def zoneRow (z : Store.Zone) (bind : Str) : ZoneRow :=
  ⟨z.id, z.tenantID, z.name, z.kind.text, z.masters, z.dnssec, z.description, z.templateID,
    z.origin.text, z.nameservers, z.createdBy, z.createdAt, z.updatedAt, bind⟩

/-- The zones with their text, as long as the budget lasts; a text that cannot be read is left
    out. -/
def exportZones : ℕ → List Store.Zone → Act (List ZoneRow)
  | _, [] => pure []
  | budget, z :: zs => do
    match ← (Act.pdns (.exportZone z.pdnsID)).attempt with
    | .ok text =>
      if List.length text ≤ budget then do
        let rest ← exportZones (budget - List.length text) zs
        return zoneRow z text :: rest
      else do
        let rest ← exportZones budget zs
        return zoneRow z [] :: rest
    | .error _ => do
      let rest ← exportZones budget zs
      return zoneRow z [] :: rest

def «export» (subj : Subjects) (tenantID : Str) : Act Document := do
  let t ← Act.ofExcept (target C subj tenantID)
  let now ← Act.now
  let zs ← Act.store (.zonesForTenant t)
  let zones ← exportZones maxBindBytes zs
  let templates ← Act.store (.allTemplates t)
  let supermasters ← Act.store (.allSupermasters t)
  return ⟨schemaVersion, now, t, zones, templates, supermasters⟩

/-! ## Import -/

/-- What an import is asked for: the mode, the target tenant and whether templates are wiped. -/
structure Options where
  mode : Str
  tenantID : Str
  full : Bool
deriving DecidableEq, Repr

structure Result where
  tenantID : Str
  overwrite : Bool
  imported : Collection → ℕ
  skipped : Collection → ℕ
  missing : List Str

namespace Result

def addImported (r : Result) (c : Collection) : Result :=
  { r with imported := Function.update r.imported c (r.imported c + 1) }

def addSkipped (r : Result) (c : Collection) (n : ℕ) : Result :=
  { r with skipped := Function.update r.skipped c (r.skipped c + n) }

def addMissing (r : Result) (name : Str) : Result := { r with missing := r.missing ++ [name] }

end Result

/-- One import: the caller, the target, the tenant the document comes from and the mode. -/
structure Importer where
  subj : Subjects
  target : Str
  origin : Str
  overwrite : Bool

def freshIDs {α : Type} (set : Str → α → α) : List α → Act (List α)
  | [] => pure []
  | a :: as => do
    let id ← Act.newID
    let rest ← freshIDs set as
    return set id a :: rest

/-- Fresh ids for every row; template references follow their template or are dropped. -/
def remap (b : Document) : Act Document := do
  let templates ← freshIDs (fun id t => { t with id }) b.templates
  let tpl := ((b.templates.map Store.Template.id).zip (templates.map Store.Template.id)).reverse
  let zones ← freshIDs (fun id z => { z with id, templateID := (tpl.lookup z.templateID).getD [] })
    b.zones
  let supermasters ← freshIDs (fun id m => { m with id }) b.supermasters
  return { b with templates, zones, supermasters }

namespace Importer

variable (im : Importer)

def wrote (c : Collection) (res : Result) {α : Type} : Except Err α → Act Result
  | .ok _ => pure (res.addImported c)
  | .error e =>
    if e.Is .repoConflict || e.Is .repoNotFound then pure (res.addSkipped c 1) else throw e

def template (res : Result) (t : Store.Template) : Act Result := do
  let t := { t with
    tenantID := im.target
    name := trimSpace t.name
    description := trimSpace t.description }
  match ← (Act.store (.getTemplate im.target t.id)).attempt with
  | .ok _ =>
    if !im.overwrite then return res.addSkipped .templates 1
    else do
      let now ← Act.now
      let r ← (Act.store (.updateTemplate { t with updatedAt := now })).attempt
      wrote .templates res r
  | .error e =>
    if !e.Is .repoNotFound then throw e
    else do
      let created ← (if t.createdAt = 0 then Act.now else pure t.createdAt)
      let now ← Act.now
      let r ← (Act.store (.createTemplate
        { t with createdAt := created, updatedAt := now })).attempt
      wrote .templates res r

/-- Whether the target may take over a PowerDNS account: none, its own, or that of the tenant the
    document comes from. -/
def ownAccount (account : Str) : Bool :=
  account == [] || account == im.target || (im.origin != [] && account == im.origin)

def linked (row : ZoneRow) (live : PDNS.Zone) : Store.Zone where
  id := row.id
  tenantID := im.target
  name := row.name
  pdnsID := if live.id = [] then row.name else live.id
  kind := (Store.Kind.fromPDNS C.env.cases live.kind).getD
    ((Store.Kind.ofText row.kind).getD .native)
  masters := live.masters
  dnssec := live.dnssec
  description := row.description
  templateID := row.templateID
  origin := if row.origin = str "ipam" then .ipam else .manual
  nameservers := row.nameservers
  createdBy := row.createdBy
  createdAt := row.createdAt
  updatedAt := row.updatedAt

def keepTemplate (id : Str) : Act Str :=
  if id = [] then pure []
  else do
    match ← (Act.store (.getTemplate im.target id)).attempt with
    | .ok _ => return id
    | .error _ => return []

/-- The account of the live zone becomes the target; a failure does not fail the import. -/
def relabel (pdnsID : Str) (live : PDNS.Zone) : Act Unit :=
  if live.account = im.target then pure ()
  else do
    let _ ← (Act.pdns (.updateZoneMetadata pdnsID
      ⟨[], [], live.kind, 0, 0, live.masters, live.dnssec, [], im.target, []⟩)).attempt
    pure ()

def place (res : Result) (z : Store.Zone) (live : PDNS.Zone) : Act Result := do
  match ← (Act.store (.createZone z)).attempt with
  | .error e => if e.Is .repoConflict then return res.addSkipped .zones 1 else throw e
  | .ok _ => do
    im.relabel z.pdnsID live
    return res.addImported .zones

def link (res : Result) (row : ZoneRow) (live : PDNS.Zone) : Act Result := do
  let z := im.linked C row live
  let created ← (if z.createdAt = 0 then Act.now else pure z.createdAt)
  let now ← Act.now
  let templateID ← im.keepTemplate z.templateID
  im.place res { z with templateID, createdAt := created, updatedAt := now } live

/-- A zone the target does not have: linked if PowerDNS has it and its account may be taken. -/
def newZone (res : Result) (row : ZoneRow) (onServer : List Str) : Act Result :=
  if row.name ∉ onServer then pure (res.addMissing row.name)
  else do
    let taken : Bool ← Act.store (.zoneConflict im.target row.name)
    if taken then return res.addSkipped .zones 1
    else match ← (Act.pdns (.getZone row.name)).attempt with
      | .error e => if e.Is (.pdns .notFound) then return res.addMissing row.name else throw e
      | .ok live =>
        if !im.ownAccount live.account then return res.addSkipped .zones 1
        else im.link C res row live

/-- A document zone: an existing row of its name keeps all but its description. -/
def zone (onServer : List Str) (res : Result) (row : ZoneRow) : Act Result := do
  match ← (Act.store (.getZoneByName im.target row.name)).attempt with
  | .ok «local» =>
    if !im.overwrite then return res.addSkipped .zones 1
    else do
      let now ← Act.now
      let _ ← Act.store (.updateZone { «local» with description := row.description, updatedAt := now
        })
      return res.addImported .zones
  | .error e => if !e.Is .repoNotFound then throw e else im.newZone C res row onServer

def entriesOf (ip ns : Str) (live : List PDNS.Supermaster) : List PDNS.Supermaster :=
  live.filter fun e => e.ip == ip && trimSuffix e.nameserver [dot] == trimSuffix ns [dot]

def unmake (ip : Str) : Option Str → Act Unit
  | none => pure ()
  | some ns => do
    let _ ← (Act.pdns (.deleteSupermaster ip ns)).attempt
    pure ()

/-- The row of a supermaster; `made` is the entry made for it. -/
def insertSupermaster (res : Result) (m : Store.Supermaster) (made : Option Str) : Act Result := do
  match ← (Act.store (.createSupermaster m)).attempt with
  | .ok _ => return res.addImported .supermasters
  | .error e => do
    unmake m.ip made
    if e.Is .repoConflict then return res.addSkipped .supermasters 1 else throw e

def supermaster (live : List PDNS.Supermaster) (res : Result) (m : Store.Supermaster) :
    Act Result := do
  let ip := ((ipGuard m.ip).toOption.map Addr.toStr).getD (str "invalid IP")
  let ns := (hostname C.env m.nameserver).toOption.getD []
  let created ← (if m.createdAt = 0 then Act.now else pure m.createdAt)
  let m := { m with tenantID := im.target, ip, nameserver := ns, createdAt := created }
  match ← (Act.store (.getSupermaster im.target m.id)).attempt with
  | .ok _ => return res.addSkipped .supermasters 1
  | .error e =>
    if !e.Is .repoNotFound then throw e
    else
      let entries := entriesOf ip ns live
      let pdnsNS := trimSuffix ns [dot]
      if entries.any fun x => !im.ownAccount x.account then return res.addSkipped .supermasters 1
      else if entries ≠ [] then insertSupermaster res m none
      else match ← (Act.pdns (.createSupermaster ⟨ip, pdnsNS, im.target⟩)).attempt with
        | .error e =>
          if e.Is (.pdns .conflict) then return res.addSkipped .supermasters 1 else throw e
        | .ok _ => insertSupermaster res m (some pdnsNS)

def each {α : Type} (step : Result → α → Act Result) : Result → List α → Act Result
  | res, [] => pure res
  | res, a :: as => do
    let res ← step res a
    each step res as

def wipe : List Store.Template → Act Unit
  | [] => pure ()
  | t :: ts => do
    match ← (Act.store (.deleteTemplate im.target t.id)).attempt with
    | .ok _ => wipe ts
    | .error e => if e.Is .repoNotFound then wipe ts else throw e

def wipeTemplates (full : Bool) : Act Unit :=
  if full then do
    let list ← Act.store (.allTemplates im.target)
    im.wipe list
  else pure ()

def zones (res : Result) (rows : List ZoneRow) : Act Result :=
  if rows = [] then pure res
  else do
    let names ← Act.pdns .listZoneNames
    each (im.zone C (names.map (toLower C.env.cases))) res rows

def supermasters (res : Result) (rows : List Store.Supermaster) : Act Result :=
  if rows = [] then pure res
  else if !im.subj.isPlatformAdmin then pure (res.addSkipped .supermasters rows.length)
  else do
    let live ← Act.pdns .listSupermasters
    each (im.supermaster C live) res rows

def run (res : Result) (b : Document) (full : Bool) : Act Result := do
  im.wipeTemplates full
  let res ← each im.template res b.templates
  let res ← im.zones C res b.zones
  im.supermasters C res b.supermasters

end Importer

def «import» (subj : Subjects) (b : Document) (opts : Options) : Act Result := do
  let tgt ← Act.ofExcept (target C subj opts.tenantID)
  Act.ofExcept (if opts.full then Authz.requirePlatformAdmin subj else .ok ())
  Act.ofExcept (validate C b)
  let overwrite := opts.mode == str "overwrite"
  let b' ← (if b.tenantID ≠ tgt then remap b else pure b)
  Importer.run C ⟨subj, tgt, b.tenantID, overwrite⟩ ⟨tgt, overwrite, fun _ => 0, fun _ => 0, []⟩ b'
    opts.full

end TangraDns.Backup
