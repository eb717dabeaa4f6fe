/-
  The world the services act on, and the calls they make to it.

  `Op` lists every call to a dependency: the store, PowerDNS, the recursor, IPAM,
  the clock and the id source.  `handler` is the healthy world.  `Act` is the
  monad the services are written in: programs over `Op` that may fail.
-/
import TangraDns.Env
import TangraDns.PowerDNS
import TangraDns.Prog.Failing
import TangraDns.Prog.Fault
import TangraDns.Store

namespace TangraDns

open Str

/-! ## The world -/

structure Address where
  id : Str
  address : Str
  subnetID : Str
  hostname : Str
deriving DecidableEq, Repr

/-- What IPAM answers, per tenant and id: addresses and the CIDR of subnets. -/
structure IPAM where
  address : Str → Str → Option Address
  subnet : Str → Str → Option Str

structure ForwardZone where
  name : Str
  kind : Str
  servers : List Str
deriving DecidableEq, Repr

/-- The dependencies, the clock's next readings and the next ids. -/
structure World where
  store : Store
  pdns : PDNS.Server
  recursor : List ForwardZone
  ipam : IPAM
  hosts : Str → List Addr
  times : ℕ → ℕ
  ticks : ℕ
  ids : ℕ → Str
  minted : ℕ

/-- Nothing anywhere; a clock that counts, and ids of growing length. -/
def World.empty : World where
  store := ⟨.empty, .empty, .empty, .empty, .empty⟩
  pdns := ⟨.empty, .empty⟩
  recursor := []
  ipam := ⟨fun _ _ => none, fun _ _ => none⟩
  hosts := fun _ => []
  times := fun n => n + 1
  ticks := 0
  ids := fun n => List.replicate (n + 1) 105
  minted := 0

/-! ## Calls -/

inductive StoreCall where
  | createZone (z : Store.Zone)
  | getZone (tenantID id : Str)
  | getZoneByName (tenantID name : Str)
  | updateZone (z : Store.Zone)
  | deleteZone (tenantID id : Str)
  | zoneConflict (tenantID name : Str)
  | allZoneNames
  | zonesForTenant (tenantID : Str)
  | createTemplate (t : Store.Template)
  | getTemplate (tenantID id : Str)
  | updateTemplate (t : Store.Template)
  | deleteTemplate (tenantID id : Str)
  | allTemplates (tenantID : Str)
  | createSupermaster (m : Store.Supermaster)
  | getSupermaster (tenantID id : Str)
  | allSupermasters (tenantID : Str)
  | deleteSupermaster (tenantID id : Str)
  | getIPAMSync (tenantID id : Str)
  | upsertIPAMSync (r : Store.IPAMSync)
  | deleteIPAMSync (tenantID id : Str)
  | clearSyncZone (tenantID zoneID : Str)
  | insertChallenge (c : Store.Challenge)
  | deleteChallenge (tenantID fqdn value : Str)
  | challengesOlderThan (before limit : ℕ)

abbrev StoreCall.Ans : StoreCall → Type
  | getZone .. | getZoneByName .. | updateZone _ => Store.Zone
  | zoneConflict .. => Bool
  | allZoneNames => List Str
  | zonesForTenant _ => List Store.Zone
  | getTemplate .. | updateTemplate _ => Store.Template
  | allTemplates _ => List Store.Template
  | getSupermaster .. => Store.Supermaster
  | allSupermasters _ => List Store.Supermaster
  | getIPAMSync .. => Store.IPAMSync
  | challengesOlderThan .. => List Store.Challenge
  | _ => Unit

inductive PDNSCall where
  | listZoneNames
  | getZone (id : Str)
  | createZone (z : PDNS.Zone)
  | updateZoneMetadata (id : Str) (z : PDNS.Zone)
  | deleteZone (id : Str)
  | patchRRsets (id : Str) (changes : List PDNS.RRset)
  | notifyZone (id : Str)
  | exportZone (id : Str)
  | listSupermasters
  | createSupermaster (m : PDNS.Supermaster)
  | deleteSupermaster (ip nameserver : Str)

abbrev PDNSCall.Ans : PDNSCall → Type
  | listZoneNames => List Str
  | getZone _ | createZone _ => PDNS.Zone
  | exportZone _ => Str
  | listSupermasters => List PDNS.Supermaster
  | _ => Unit

inductive RecursorCall where
  | lookup (host : Str)
  | list
  | delete (name : Str)
  | create (z : ForwardZone)

abbrev RecursorCall.Ans : RecursorCall → Type
  | lookup _ => List Addr
  | list => List ForwardZone
  | _ => Unit

inductive IPAMCall where
  | getAddress (tenantID id : Str)
  | getSubnet (tenantID id : Str)

abbrev IPAMCall.Ans : IPAMCall → Type
  | getAddress .. => Address
  | getSubnet .. => Str

inductive Op where
  | now
  | newID
  | store (c : StoreCall)
  | pdns (c : PDNSCall)
  | recursor (c : RecursorCall)
  | ipam (c : IPAMCall)

abbrev Res : Op → Type
  | .now => ℕ
  | .newID => Str
  | .store c => Except Err c.Ans
  | .pdns c => Except PDNSErr c.Ans
  | .recursor c => Except (Option ℕ) c.Ans
  | .ipam c => Except Err c.Ans

/-! ## The healthy world -/

def StoreCall.step (U : CaseTables) (now : ℕ) (S : Store) :
    (c : StoreCall) → Except Err c.Ans × Store
  | createZone z => S.createZone now z
  | getZone t id => (S.getZone t id, S)
  | getZoneByName t n => (S.getZoneByName t n, S)
  | updateZone z => S.updateZone now z
  | deleteZone t id => S.deleteZone t id
  | zoneConflict t n => (.ok (S.zoneConflict U t n), S)
  | allZoneNames => (.ok S.allZoneNames, S)
  | zonesForTenant t => (.ok (S.zonesForTenant t), S)
  | createTemplate t => S.createTemplate U now t
  | getTemplate t id => (S.getTemplate t id, S)
  | updateTemplate t => S.updateTemplate U now t
  | deleteTemplate t id => S.deleteTemplate t id
  | allTemplates t => (.ok (S.tenantTemplates U t), S)
  | createSupermaster m => S.createSupermaster now m
  | getSupermaster t id => (S.getSupermaster t id, S)
  | allSupermasters t => (.ok (S.tenantSupermasters t), S)
  | deleteSupermaster t id => S.deleteSupermaster t id
  | getIPAMSync t id => (S.getIPAMSync t id, S)
  | upsertIPAMSync r => S.upsertIPAMSync now r
  | deleteIPAMSync t id => S.deleteIPAMSync t id
  | clearSyncZone t id => (.ok (), S.clearSyncZone t id)
  | insertChallenge c => S.insertChallenge now c
  | deleteChallenge t n v => S.deleteChallenge t n v
  | challengesOlderThan b l => (.ok (S.challengesOlderThan b l), S)

def PDNSCall.step (U : CaseTables) (S : PDNS.Server) :
    (c : PDNSCall) → Except PDNSErr c.Ans × PDNS.Server
  | listZoneNames => (.ok S.listZoneNames, S)
  | getZone id => (S.getZone id, S)
  | createZone z => S.createZone z
  | updateZoneMetadata id z => S.updateZoneMetadata id z
  | deleteZone id => S.deleteZone id
  | patchRRsets id changes => S.patchRRsets id changes
  | notifyZone id => S.notifyZone U id
  | exportZone id => (S.exportZone id, S)
  | listSupermasters => (.ok S.supermasters.rows, S)
  | createSupermaster m => S.createSupermaster m
  | deleteSupermaster ip ns => S.deleteSupermaster ip ns

/-- The zone in lower case with a final dot (package `recursor`), which is how the recursor compares
    names. -/
def Recursor.canonicalForward (U : CaseTables) (z : Str) : Str :=
  let z := toLower U (trimSpace z)
  if HasSuffix z [dot] then z else z ++ [dot]

/-- The zones but those with the canonical name of `n`. -/
def Recursor.others (U : CaseTables) (n : Str) (zs : List ForwardZone) : List ForwardZone :=
  zs.filter fun z => canonicalForward U z.name ≠ canonicalForward U n

def RecursorCall.step (U : CaseTables) (hosts : Str → List Addr) (zs : List ForwardZone) :
    (c : RecursorCall) → Except (Option ℕ) c.Ans × List ForwardZone
  | lookup host => (.ok (hosts host), zs)
  | list => (.ok zs, zs)
  | delete name =>
    if Recursor.others U name zs = zs then (.error (some 422), zs)
      else (.ok (), Recursor.others U name zs)
  | create z =>
    if Recursor.others U z.name zs = zs then (.ok (), zs ++ [z]) else (.error (some 422), zs)

def IPAMCall.answer (I : IPAM) : (c : IPAMCall) → Except Err c.Ans
  | getAddress t id => match I.address t id with
    | some a => .ok a
    | none => .error .ipamNotFound
  | getSubnet t id => match I.subnet t id with
    | some c => .ok c
    | none => .error .ipamNotFound

/-- The healthy world. -/
def handler (U : CaseTables) : Prog.Handler Op Res World
  | .now, w => (w.times w.ticks, { w with ticks := w.ticks + 1 })
  | .newID, w => (w.ids w.minted, { w with minted := w.minted + 1 })
  | .store c, w =>
    ((c.step U (w.times w.ticks) w.store).1,
      { w with store := (c.step U (w.times w.ticks) w.store).2 })
  | .pdns c, w => ((c.step U w.pdns).1, { w with pdns := (c.step U w.pdns).2 })
  | .recursor c, w =>
    ((c.step U w.hosts w.recursor).1, { w with recursor := (c.step U w.hosts w.recursor).2 })
  | .ipam c, w => (c.answer w.ipam, w)

/-! ## Actions -/

abbrev Act (α : Type) := Prog.Failing Op Res Err α

namespace Act

variable {α : Type}

abbrev ofExcept (e : Except Err α) : Act α := Prog.Failing.ofExcept e

/-- The outcome of an action, as a value. -/
abbrev attempt (p : Act α) : Act (Except Err α) := Prog.Failing.attempt p

def now : Act ℕ := Prog.Failing.ask .now .ok

def newID : Act Str := Prog.Failing.ask .newID .ok

def store (c : StoreCall) : Act c.Ans := Prog.Failing.ask (.store c) id

def pdns (c : PDNSCall) : Act c.Ans := Prog.Failing.ask (.pdns c) fun r =>
    Except.mapError Err.pdns r

def recursor (c : RecursorCall) : Act c.Ans :=
  Prog.Failing.ask (.recursor c) fun r => Except.mapError Err.recursor r

def ipam (c : IPAMCall) : Act c.Ans := Prog.Failing.ask (.ipam c) id

end Act

end TangraDns
