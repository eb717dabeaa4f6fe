/-
  The supermaster service (package `supermasters`): the primaries that may
  provision zones on the shared server.
-/
import TangraDns.Zones

namespace TangraDns.Supermasters

open Str Validate

variable (C : Config)

/-- A new supermaster; its account is the caller's tenant. -/
structure Input where
  ip : Str
  nameserver : Str
deriving DecidableEq, Repr

def guard (subj : Subjects) : Except Err Unit :=
  if subj.tenantID = [] then .error (.forbidden .tenantRequired)
  else if subj.isHuman ∧ C.checker.isNone then .ok ()
  else Authz.require C.checker subj .supermastersManage

def guardAdmin (subj : Subjects) : Except Err Unit := do
  Authz.requirePlatformAdmin subj
  guard C subj

def mapPDNS : Err → Err
  | .pdns e =>
    if (Err.pdns e).Is (.pdns .conflict) then .supermasterDuplicate
    else match e with
      | .api n _ =>
        if 400 ≤ n ∧ n < 500 ∧ !(Err.pdns e).Is (.pdns .notFound) then .supermasterRejected n
          else .pdns e
      | _ => .pdns e
  | e => e

/-- The name server as PowerDNS stores it, without its final dot. -/
def pdnsName (ns : Str) : Str := trimSuffix ns [dot]

def entry (m : Store.Supermaster) : PDNS.Supermaster := ⟨m.ip, pdnsName m.nameserver, m.tenantID⟩

namespace Impl

def get (subj : Subjects) (id : Str) : Act Store.Supermaster := do
  match ← (Act.store (.getSupermaster subj.tenantID id)).attempt with
  | .ok m => return m
  | .error e => throw (if e.Is .repoNotFound then .supermasterNotFound else e)

def prepare (subj : Subjects) (i : Input) (m : Store.Supermaster) :
    Except Err Store.Supermaster := do
  guardAdmin C subj
  let ip ← (ipGuard i.ip).mapError .masters
  let ns ← (hostname C.env i.nameserver).mapError .name
  .ok { m with ip := ip.toStr, nameserver := ns }

def insert (m : Store.Supermaster) : Act Store.Supermaster := do
  match ← (Act.store (.createSupermaster m)).attempt with
  | .ok _ => return m
  | .error e => do
    let _ ← (Act.pdns (.deleteSupermaster (entry m).ip (entry m).nameserver)).attempt
    throw (if e.Is .repoConflict then .supermasterDuplicate else e)

def create (subj : Subjects) (i : Input) (m : Store.Supermaster) : Act Store.Supermaster := do
  let m ← Act.ofExcept (prepare C subj i m)
  match ← (Act.pdns (.createSupermaster (entry m))).attempt with
  | .error e => throw (mapPDNS e)
  | .ok _ => insert m

/-- The row is removed after the entry; `gone` tells that PowerDNS had none. -/
def drop (m : Store.Supermaster) (gone : Bool) : Act Unit := do
  match ← (Act.store (.deleteSupermaster m.tenantID m.id)).attempt with
  | .ok _ => pure ()
  | .error e =>
    let failure := if e.Is .repoNotFound then .supermasterNotFound else e
    if gone then throw failure
    else do
      let _ ← (Act.pdns (.createSupermaster (entry m))).attempt
      throw failure

end Impl

def get (subj : Subjects) (id : Str) : Act Store.Supermaster := do
  Act.ofExcept (guard C subj)
  Impl.get subj id

def create (subj : Subjects) (i : Input) : Act Store.Supermaster := do
  let id ← Act.newID
  let now ← Act.now
  Impl.create C subj i ⟨id, subj.tenantID, [], [], subj.actorID, now⟩

def delete (subj : Subjects) (id : Str) : Act Unit := do
  Act.ofExcept (guardAdmin C subj)
  let m ← Impl.get subj id
  match ← (Act.pdns (.deleteSupermaster (entry m).ip (entry m).nameserver)).attempt with
  | .ok _ => Impl.drop m false
  | .error e => if e.Is (.pdns .notFound) then Impl.drop m true else throw (mapPDNS e)

end TangraDns.Supermasters
