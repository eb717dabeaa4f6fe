/-
  The access model (package `authz`): the authenticated caller and what it may
  do within its tenant.
-/
import TangraDns.Errors

namespace TangraDns

inductive ActorKind where
  | user | module | ipamSync | system
deriving DecidableEq, Repr

def ActorKind.text : ActorKind → Str
  | user => str "user"
  | module => str "module"
  | ipamSync => str "ipam-sync"
  | system => str "system"

/-- The authenticated caller; `acme` marks a caller admitted by `Authz.challenger`. -/
structure Subjects where
  tenantID : Str
  userID : Str
  roles : List Str
  actorKind : ActorKind
  peerSPIFFE : Str
  acme : Bool
deriving DecidableEq, Repr

namespace Subjects

def user (tenantID userID : Str) (roles : List Str) : Subjects :=
  ⟨tenantID, userID, roles, .user, [], false⟩

/-- The subject the IPAM sync writes under, pinned to one tenant. -/
def systemFor (tenantID : Str) : Subjects := ⟨tenantID, str "ipam-sync", [], .ipamSync, [], false⟩

def internal (tenantID : Str) : Subjects := ⟨tenantID, str "system", [], .system, [], false⟩

/-- A mesh peer acting for a tenant. -/
def module (tenantID spiffeID : Str) : Subjects :=
  ⟨tenantID, spiffeID, [], .module, spiffeID, false⟩

variable (s : Subjects)

def isPlatformAdmin : Bool :=
  match s.actorKind with
  | .system => true
  | .user => s.userID != [] && s.roles.contains (str "platform-admin")
  | _ => false

def actorID : Str := if s.userID ≠ [] then s.userID else s.actorKind.text

def isHuman : Bool := s.actorKind == .user

end Subjects

namespace Authz

abbrev Checker := Str → Str → Permission → Bool

def syncAllowed (perm : Permission) : Bool := perm == .zonesRead || perm == .zonesManage

def moduleAllowed (perm : Permission) : Bool := perm == .zonesRead

def require (c : Option Checker) (s : Subjects) (perm : Permission) : Except Err Unit :=
  if s.tenantID = [] then .error (.forbidden .tenantRequired)
  else
    let ok : Bool := match s.actorKind with
      | .system => true
      | .ipamSync => syncAllowed perm
      | .module => s.peerSPIFFE != [] && (moduleAllowed perm || (s.acme && syncAllowed perm))
      | .user => match c with
        | some has => s.userID != [] && has s.tenantID s.userID perm
        | none => false
    if ok then .ok () else .error (.forbidden (.required perm))

def requirePlatformAdmin (s : Subjects) : Except Err Unit :=
  if s.isPlatformAdmin then .ok () else .error (.forbidden .platformAdmin)

def callerIs (s : Subjects) (spiffeID : Str) : Except Err Unit :=
  if s.actorKind ≠ .module ∨ spiffeID = [] ∨ s.peerSPIFFE = [] ∨ s.peerSPIFFE ≠ spiffeID ∨
    42 ∈ spiffeID
  then .error (.forbidden .caller) else .ok ()

def challenger (s : Subjects) (allowed : Str) : Except Err Subjects :=
  (callerIs s allowed).map fun _ => { s with acme := true }

end Authz

end TangraDns
