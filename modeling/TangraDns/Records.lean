/-
  The record service (package `records`): the record sets of a tenant's zone,
  read from PowerDNS and changed by one patch each.

  The functions of `Impl` are the unexported ones.
-/
import TangraDns.Zones

namespace TangraDns.Records

open Str Validate

variable (C : Config)

/-- A record set as callers see it; sets of other than the editable types are read-only. -/
structure RecordSet where
  name : Str
  type : Str
  ttl : ℕ
  values : List RecordValue
  comment : Str
  readOnly : Bool
deriving DecidableEq, Repr

structure Key where
  name : Str
  type : Str
deriving DecidableEq, Repr

structure Filter where
  type : Str
  query : Str
deriving DecidableEq, Repr

def toView (r : PDNS.RRset) : RecordSet where
  name := r.name
  type := toUpper C.env.cases r.type
  ttl := r.ttl
  values := r.records.map fun x => ⟨x.content, x.disabled⟩
  comment := (r.comments.getD []).headD []
  readOnly := !editable C.env (toUpper C.env.cases r.type)

/-- The labels of the name from the root down, joined by the byte 1. -/
def canonical (name : Str) : Str :=
  join 1 (Str.split dot (trimSuffix (toLower C.env.cases name) [dot])).reverse

def typeRank (t : Str) : Str := if t = str "SOA" then [] else t

/-- What breaks ties between sets: the name in DNS order, then the type; the byte 0 ends the
    name. -/
def setTie (r : RecordSet) : Str := canonical C r.name ++ 0 :: typeRank r.type

def Matches (r : PDNS.RRset) (name typ : Str) : Prop :=
  EqualFold C.env.cases r.name name ∧ EqualFold C.env.cases r.type typ

instance (r : PDNS.RRset) (name typ : Str) : Decidable (Matches C r name typ) :=
  inferInstanceAs (Decidable (_ ∧ _))

def find (sets : List PDNS.RRset) (name typ : Str) : Bool := sets.any fun r => Matches C r name typ

def key (z : Store.Zone) (k : Key) : Except Err (Str × Str) := do
  let name ← (recordName C.env z.name k.name).mapError .name
  let t := toUpper C.env.cases (trimSpace k.type)
  if !editable C.env t then .error (.record ⟨.type, .readOnly⟩) else .ok (name, t)

def writable (z : Store.Zone) : Except Err Unit :=
  if z.kind.needsMasters then .error (.zone (.secondary z.kind.text)) else .ok ()

/-- A signed-in user stands for the system here: the HTTP layer has checked the permission. -/
def withoutUser (subj : Subjects) : Subjects :=
  if subj.isHuman then .internal subj.tenantID else subj

namespace Impl

def load (subj : Subjects) (zoneID : Str) (perm : Permission) : Act Store.Zone :=
  if perm = .zonesManage ∧ ¬ subj.isHuman then do
    Act.ofExcept (Authz.require none subj perm)
    Zones.owned C subj zoneID
  else Zones.owned C subj zoneID

def rrsets (z : Store.Zone) : Act (List PDNS.RRset) := do
  match ← (Act.pdns (.getZone z.pdnsID)).attempt with
  | .ok pz => return pz.rrsets
  | .error e => throw (Zones.mapPDNS e)

def patch (z : Store.Zone) (changes : List PDNS.RRset) : Act Unit := do
  match ← (Act.pdns (.patchRRsets z.pdnsID changes)).attempt with
  | .ok _ => pure ()
  | .error e => throw (Zones.mapPDNS e)

def apply (z : Store.Zone) (i : RecordSetInput) : Act PDNS.RRset := do
  Act.ofExcept (writable z)
  let cur ← rrsets z
  let rr ← Act.ofExcept (C.limits.recordSet C.env z.name i cur)
  patch z [rr]
  return rr

def changes (z : Store.Zone) (original : Key) (i : RecordSetInput) (cur : List PDNS.RRset) :
    Except Err (PDNS.RRset × List PDNS.RRset) := do
  let (oldName, oldType) ← key C z original
  if !find C cur oldName oldType then .error .recordNotFound
  else do
    let others := cur.filter fun r => !decide (Matches C r oldName oldType)
    let rr ← C.limits.recordSet C.env z.name i others
    if rr.name ≠ oldName ∨ rr.type ≠ oldType then
      if find C others rr.name rr.type then .error .recordConflict
      else .ok (rr, [rr, ⟨oldName, oldType, 0, .delete, [], none⟩])
    else .ok (rr, [rr])

def update (z : Store.Zone) (original : Key) (i : RecordSetInput) : Act PDNS.RRset := do
  Act.ofExcept (writable z)
  let _ ← Act.ofExcept (key C z original)
  let cur ← rrsets z
  let (rr, ch) ← Act.ofExcept (changes C z original i cur)
  patch z ch
  return rr

def remove (z : Store.Zone) (k : Key) : Act Unit := do
  Act.ofExcept (writable z)
  let (name, typ) ← Act.ofExcept (key C z k)
  let cur ← rrsets z
  if !find C cur name typ then throw .recordNotFound
  else patch z [⟨name, typ, 0, .delete, [], none⟩]

end Impl

def list {α : Type} (page : List RecordSet → α) (subj : Subjects) (zoneID : Str) (f : Filter) :
    Act α := do
  let z ← Impl.load C subj zoneID .zonesRead
  let sets ← Impl.rrsets z
  let typ := toUpper C.env.cases (trimSpace f.type)
  let q := toLower C.env.cases (trimSpace f.query)
  let hit (r : PDNS.RRset) : Bool :=
    (typ.isEmpty || decide (EqualFold C.env.cases r.type typ)) &&
      (q.isEmpty || decide (Str.Contains (toLower C.env.cases r.name) q))
  return page ((sets.filter hit).map (toView C))

def apply (subj : Subjects) (z : Store.Zone) (i : RecordSetInput) : Act RecordSet := do
  Act.ofExcept (Authz.require none (withoutUser subj) .zonesManage)
  let rr ← Impl.apply C z i
  return toView C rr

def upsert (subj : Subjects) (zoneID : Str) (i : RecordSetInput) : Act RecordSet := do
  let z ← Impl.load C subj zoneID .zonesManage
  apply C subj z i

def lookup (subj : Subjects) (z : Store.Zone) (k : Key) : Act RecordSet := do
  Act.ofExcept (Authz.require none (withoutUser subj) .zonesRead)
  let name ← Act.ofExcept ((recordName C.env z.name k.name).mapError .name)
  let typ := toUpper C.env.cases (trimSpace k.type)
  let cur ← Impl.rrsets z
  match cur.find? fun r => Matches C r name typ with
  | some r => return toView C r
  | none => throw .recordNotFound

/-- Replaces the set of a key; a new name or type is written and the old set deleted in one
    patch. -/
def update (subj : Subjects) (zoneID : Str) (original : Key) (i : RecordSetInput) :
    Act RecordSet := do
  let z ← Impl.load C subj zoneID .zonesManage
  let rr ← Impl.update C z original i
  return toView C rr

def delete (subj : Subjects) (zoneID : Str) (k : Key) : Act Unit := do
  let z ← Impl.load C subj zoneID .zonesManage
  Impl.remove C z k

def remove (subj : Subjects) (z : Store.Zone) (k : Key) : Act Unit := do
  Act.ofExcept (Authz.require none (withoutUser subj) .zonesManage)
  match ← (Impl.remove C z k).attempt with
  | .ok _ => pure ()
  | .error e => if e.Is .recordsNotFound then pure () else throw e

end TangraDns.Records
