/-
  The tenant scope: what the operations of one tenant may ask of the
  dependencies.

  Store calls are made for the tenant only.  A zone is created under a name the
  overlap question has answered "no" for, with a minted id.  PowerDNS is asked
  about a zone the tenant has loaded or just made, and whether there is one of a
  name found free of overlap; everything else there is off limits.  The recursor
  is asked only if there is one, and IPAM and the sync rows only by the sync.
-/
import TangraDns.World

namespace TangraDns

open Str

abbrev Past := Prog.Past Op Res

def Did (past : Past) (o : Op) (r : Res o) : Prop := (⟨o, r⟩ : Prog.Event Op Res) ∈ past

namespace Scope

variable (U : CaseTables) (T : Str) (net sync : Prop)

def isCreate : Prog.Event Op Res → Bool
  | ⟨.store (.createZone _), _⟩ => true
  | _ => false

/-- The name an event found free of overlap with other tenants' zones. -/
def freed : Prog.Event Op Res → Option Str
  | ⟨.store (.zoneConflict t n), r⟩ =>
    match (r : Except Err Bool) with
    | .ok false => if t = T then some n else none
    | _ => none
  | _ => none

/-- The names found free of overlap since the last creation of a row. -/
def pending : Past → List Str
  | [] => []
  | e :: past => if isCreate e then [] else (freed T e).toList ++ pending past

/-- The name was found free of overlap, and no row was created since. -/
def Pending (name : Str) (past : Past) : Prop := name ∈ pending T past

/-- The overlap question was answered "no" for the name. -/
def Cleared (past : Past) (name : Str) : Prop :=
  Did past (.store (.zoneConflict T name)) (.ok false)

def Loaded (past : Past) (z : Store.Zone) : Prop :=
  (∃ id, Did past (.store (.getZone T id)) (.ok z)) ∨
    (∃ n, Did past (.store (.getZoneByName T n)) (.ok z)) ∨
    ∃ zs : List Store.Zone, Did past (.store (.zonesForTenant T)) (.ok zs) ∧ z ∈ zs

def Made (past : Past) (name : Str) : Prop :=
  ∃ z c : PDNS.Zone, Did past (.pdns (.createZone z)) (.ok c) ∧ z.name = name

/-- A PowerDNS id the operation may use: of a loaded row, or of a zone it made. -/
def Own (past : Past) (id : Str) : Prop := (∃ z, Loaded T past z ∧ z.pdnsID = id) ∨ Made past id

def StoreOK (past : Past) : StoreCall → Prop
  | .createZone z =>
    z.tenantID = T ∧ Pending T z.name past ∧ Did past .newID z.id ∧ Made past z.name ∧
      z.pdnsID = z.name
  | .getZone t _ | .getZoneByName t _ | .deleteZone t _ | .zonesForTenant t | .getTemplate t _
  | .clearSyncZone t _ | .deleteChallenge t _ _ => t = T
  | .updateZone z => z.tenantID = T
  | .zoneConflict t n => t = T ∧ toLower U n = n
  | .getIPAMSync t _ | .deleteIPAMSync t _ => sync ∧ t = T
  | .upsertIPAMSync r => sync ∧ r.tenantID = T
  | .insertChallenge c => c.tenantID = T ∧ Did past .newID c.id
  | _ => False

def PDNSOK (past : Past) : PDNSCall → Prop
  | .getZone id => Own T past id ∨ Cleared T past id
  | .createZone z => Pending T z.name past ∧ z.account = T
  | .updateZoneMetadata id m => Own T past id ∧ m.account = T
  | .deleteZone id | .patchRRsets id _ | .notifyZone id | .exportZone id => Own T past id
  | _ => False

def Allowed (past : Past) : Op → Prop
  | .store c => StoreOK U T sync past c
  | .pdns c => PDNSOK T past c
  | .ipam (.getAddress t _) | .ipam (.getSubnet t _) => sync ∧ t = T
  | .recursor _ => net
  | _ => True

/-- What the answers can be relied on for: rows are of the tenant and key asked for, and PowerDNS
    calls a new zone by its name. -/
def Answer : (o : Op) → Res o → Prop
  | .store (.getZone t id), r => ∀ z : Store.Zone, r = .ok z → z.tenantID = t ∧ z.id = id
  | .store (.getZoneByName t n), r => ∀ z : Store.Zone, r = .ok z → z.tenantID = t ∧ z.name = n
  | .store (.zonesForTenant t), r => ∀ zs : List Store.Zone, r = .ok zs → ∀ z ∈ zs, z.tenantID = t
  | .store (.getIPAMSync t id), r =>
    ∀ x : Store.IPAMSync, r = .ok x → x.tenantID = t ∧ x.ipAddressID = id
  | .pdns (.createZone z), r => ∀ c : PDNS.Zone, r = .ok c → c.id = z.name
  | _, _ => True

/-- Answers that make no difference: what a zone holds that was asked for only because its name was
    found free. -/
def Same (past : Past) : (o : Op) → Res o → Res o → Prop
  | .pdns (.getZone id), r, r' =>
    r = r' ∨ ¬ Own T past id ∧ ∃ z z' : PDNS.Zone, r = .ok z ∧ r' = .ok z'
  | _, r, r' => r = r'

/-- **The tenant scope.**  `net` tells whether there is a recursor, `sync` whether it is the
    sync. -/
def discipline : Prog.Discipline Op Res := ⟨Allowed U T net sync, Answer, Same T⟩

end Scope

end TangraDns
