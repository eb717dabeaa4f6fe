/-
  The PowerDNS Authoritative server (package `pdns`): zones with their record
  sets, the supermasters, and the operations of the API as the in-memory server
  `Fake` gives them.
-/
import TangraDns.Data.Table
import TangraDns.Errors
import TangraDns.Text.Unicode

namespace TangraDns.PDNS

open Str

/-! ## Resources -/

structure Record where
  content : Str
  disabled : Bool
deriving DecidableEq, Repr

inductive ChangeType where
  | none | replace | delete
deriving DecidableEq, Repr

/-- A record set; in a patch, `comments := none` keeps the comments there are. -/
structure RRset where
  name : Str
  type : Str
  ttl : ℕ
  changeType : ChangeType
  records : List Record
  comments : Option (List Str)
deriving DecidableEq, Repr

structure Zone where
  id : Str
  name : Str
  kind : Str
  serial : ℕ
  notifiedSerial : ℕ
  masters : List Str
  dnssec : Bool
  nameservers : List Str
  account : Str
  rrsets : List RRset
deriving DecidableEq, Repr

instance : Keyed Zone := ⟨fun a b => a.id == b.id, fun a b => by rw [Bool.beq_comm]⟩

structure Supermaster where
  ip : Str
  nameserver : Str
  account : Str
deriving DecidableEq, Repr

instance : Keyed Supermaster :=
  ⟨fun a b => a.ip == b.ip && a.nameserver == b.nameserver, fun a b => by
    rw [Bool.beq_comm, Bool.beq_comm (a := a.nameserver)]⟩

structure Server where
  zones : Table Zone
  supermasters : Table Supermaster

/-! ## Record sets -/

def InZone (name zone : Str) : Prop := name = zone ∨ Under name zone

instance (name zone : Str) : Decidable (InZone name zone) := inferInstanceAs (Decidable (_ ∨ _))

def RRset.isAt (r : RRset) (name type : Str) : Bool := r.name == name && r.type == type

/-- A set as the server keeps it: no change type, and no empty list of comments. -/
def RRset.stored (r : RRset) : RRset :=
  { r with
    changeType := .none
    comments := if r.comments = some [] then none else r.comments }

def replaceRRset (sets : List RRset) (r : RRset) : List RRset :=
  match sets with
  | [] => [r.stored]
  | s :: sets => if s.isAt r.name r.type then r.stored :: sets else s :: replaceRRset sets r

def commentsOf (sets : List RRset) (name type : Str) : Option (List Str) :=
  match sets.find? fun s => s.isAt name type with
  | some s => if s.comments = some [] then none else s.comments
  | none => none

def applyChange (sets : List RRset) (r : RRset) : List RRset :=
  let kept := sets.filter fun s => !s.isAt r.name r.type
  if r.changeType = .replace ∧ r.records ≠ [] then
    kept ++ [({ r with comments :=
      if r.comments = none then commentsOf sets r.name r.type else r.comments } : RRset).stored]
  else kept

def changeOK (zone : Str) (r : RRset) : Bool :=
  decide (InZone r.name zone) && r.changeType != .none &&
    !(r.type == str "SOA" && r.changeType == .delete)

/-! ## Operations -/

namespace Server

variable (s : Server)

def notFound : PDNSErr := .api 404 (some .notFound)

def unprocessable : PDNSErr := .api 422 none

def conflict : PDNSErr := .api 409 (some .conflict)

def zone (id : Str) : Option Zone := s.zones.find fun z => z.id == id

/-- The zone of an id changed by `f`, which keeps the ids. -/
def modify (id : Str) (f : Zone → Zone) (hf : ∀ z, (f z).id = z.id) : Server :=
  { s with
    zones := s.zones.map (fun z => if z.id == id then f z else z) fun a b => by
      have h : ∀ z : Zone, (if z.id == id then f z else z).id = z.id := fun z => by
        split <;> simp [hf]
      simp only [Keyed.clash, h] }

def listZoneNames : List Str := (s.zones.rows.map Zone.name).insertionSort fun a b =>
    Str.le a b = true

def getZone (id : Str) : Except PDNSErr Zone :=
  match s.zone id with
  | some z => .ok z
  | none => .error notFound

def initialSets (name : Str) (nameservers : List Str) : List RRset :=
  let primary := nameservers.headD (str "a.misconfigured.dns.server.invalid.")
  ⟨name, str "SOA", 3600, .none,
    [⟨primary ++ str " hostmaster." ++ name ++ str " 1 10800 3600 604800 3600", false⟩], none⟩ ::
    if nameservers = [] then []
    else [⟨name, str "NS", 3600, .none, nameservers.map fun n => ⟨n, false⟩, none⟩]

def initialOK (z : Zone) (r : RRset) : Bool :=
  !(!z.nameservers.isEmpty && r.isAt z.name (str "NS")) && decide (InZone r.name z.name)

def newZone (z : Zone) : Zone :=
  { z with
    id := z.name
    kind := if z.kind = [] then str "Native" else z.kind
    serial := 1
    notifiedSerial := 0
    rrsets := z.rrsets.foldl replaceRRset (initialSets z.name z.nameservers) }

/-- A new zone: its id is its name, SOA and NS sets are generated. -/
def createZone (z : Zone) : Except PDNSErr Zone × Server :=
  if z.name = [] ∨ ¬ HasSuffix z.name [dot] then (.error unprocessable, s)
  else match s.zones.insert (newZone z) with
    | none => (.error conflict, s)
    | some zones =>
      if z.rrsets.all (initialOK z) then (.ok (newZone z), { s with zones })
      else (.error unprocessable, s)

/-- New kind, primaries, DNSSEC and account; an empty kind or account is kept. -/
def updateZoneMetadata (id : Str) (m : Zone) : Except PDNSErr Unit × Server :=
  match s.zone id with
  | none => (.error notFound, s)
  | some _ => (.ok (), s.modify id (fun z =>
      { z with
        kind := if m.kind = [] then z.kind else m.kind
        masters := m.masters
        dnssec := m.dnssec
        account := if m.account = [] then z.account else m.account }) fun _ => rfl)

def deleteZone (id : Str) : Except PDNSErr Unit × Server :=
  match s.zone id with
  | none => (.error notFound, s)
  | some _ => (.ok (), { s with zones := s.zones.filter fun z => !(z.id == id) })

def patchRRsets (id : Str) (changes : List RRset) : Except PDNSErr Unit × Server :=
  match s.zone id with
  | none => (.error notFound, s)
  | some z =>
    if changes.all (changeOK z.name) then
      (.ok (), s.modify id (fun z =>
        { z with rrsets := changes.foldl applyChange z.rrsets, serial := z.serial + 1 })
          fun _ => rfl)
    else (.error unprocessable, s)

def notifyZone (U : CaseTables) (id : Str) : Except PDNSErr Unit × Server :=
  match s.zone id with
  | none => (.error notFound, s)
  | some z =>
    if toLower U z.kind ≠ str "master" ∧ toLower U z.kind ≠ str "producer" then
      (.error unprocessable, s)
    else (.ok (), s.modify id (fun z => { z with notifiedSerial := z.serial }) fun _ => rfl)

def exportLines (r : RRset) : Str :=
  (r.records.filter fun x => !x.disabled).flatMap fun x =>
    r.name ++ 9 :: Addr.itoa r.ttl ++ str "\tIN\t" ++ r.type ++ 9 :: x.content ++ [10]

def exportLE (a b : RRset) : Bool :=
  if (a.type == str "SOA") != (b.type == str "SOA") then a.type == str "SOA"
  else if a.name ≠ b.name then Str.le a.name b.name
  else Str.le a.type b.type

def exportZone (id : Str) : Except PDNSErr Str :=
  match s.zone id with
  | none => .error notFound
  | some z => .ok ((z.rrsets.insertionSort fun a b => exportLE a b = true).flatMap exportLines)

def createSupermaster (m : Supermaster) : Except PDNSErr Unit × Server :=
  match s.supermasters.insert m with
  | none => (.error conflict, s)
  | some supermasters => (.ok (), { s with supermasters })

def deleteSupermaster (ip nameserver : Str) : Except PDNSErr Unit × Server :=
  match s.supermasters.find fun m => m.ip == ip && m.nameserver == nameserver with
  | none => (.error notFound, s)
  | some _ => (.ok (), { s with
      supermasters := s.supermasters.filter fun m => !(m.ip == ip && m.nameserver == nameserver) })

end Server

end TangraDns.PDNS
