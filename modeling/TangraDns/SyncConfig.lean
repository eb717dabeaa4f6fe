/-
  The section of the configuration that says whose streams the sync consumes
  (package `config`: `IPAMSync`, `validateSync`, `SyncTenants`).
-/
import TangraDns.Backup
import TangraDns.ChallengeSets
import TangraDns.Consumer

namespace TangraDns

structure SyncConfig where
  enabled : Bool
  tenants : List Str
  service : Str
  defaultTTL : ℤ

inductive SyncConfigErr where
  | notTenantID (t : Str) | serviceRequired | tenantsRequired | defaultTTL
deriving DecidableEq

namespace SyncConfig

variable (s : SyncConfig)

def syncTenants (enrollTenant : Str) : List Str :=
  if s.tenants ≠ [] then s.tenants
  else if Backup.isUUID enrollTenant then [enrollTenant]
  else []

def validateSync (records : Validate.Limits) (enrollTenant : Str) : Except SyncConfigErr Unit :=
  match s.tenants.find? fun t => !Backup.isUUID t with
  | some t => .error (.notTenantID t)
  | none =>
    if !s.enabled then .ok ()
    else if s.service = [] then .error .serviceRequired
    else if s.syncTenants enrollTenant = [] then .error .tenantsRequired
    else if !Challenges.within s.defaultTTL records.minTTL records.maxTTL then .error .defaultTTL
    else .ok ()

def consumer (enrollTenant : Str) (json : Str → Option Sync.Payload) : Consumer :=
  ⟨s.syncTenants enrollTenant, none, json⟩

end SyncConfig

end TangraDns
