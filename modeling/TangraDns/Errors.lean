/-
  The errors of the module.

  One constructor stands for each place that makes an error and carries what
  its text is built from.  `Err.Is` is the module's way to look at an error:
  which sentinel errors it wraps.
-/
import TangraDns.Net.Addr

namespace TangraDns

/-! ## Refusals of the validation -/

/-- Refused names (`validate.ErrName`). -/
inductive NameErr where
  | notASCII
  | root
  | emptyLabel
  | tooLong
  | zoneLabel (l : Str)
  | reverseZone (z : Str)
  | publicSuffix (z : Str)
  | label (l : Str)
  | outside (name zone : Str)
  | notQualified (name : Str)
  | hostLabel (l : Str)
  | looksLikeIP (name : Str)
deriving DecidableEq, Repr

/-- Refused primaries and addresses (`validate.ErrMasters`). -/
inductive MastersErr where
  | notIP (s : Str)
  | notUnicast (a : Addr)
  /-- at most 16 primaries -/
  | tooMany
  | notIPPort (s : Str)
  | port
  | duplicate (s : Str)
  | notSecondary
deriving DecidableEq, Repr

inductive RecField where
  | type | content | ttl | values | comment | name | priority
  /-- `values[i].content` -/
  | value (i : ℕ)
  /-- `records[i].f`, of a template -/
  | record (i : ℕ) (f : RecField)
deriving DecidableEq, Repr

/-- The field as callers see it. -/
def RecField.path : RecField → Str
  | type => str "type"
  | content => str "content"
  | ttl => str "ttl"
  | values => str "values"
  | comment => str "comment"
  | name => str "name"
  | priority => str "priority"
  | value i => str "values[" ++ Addr.itoa i ++ str "].content"
  | record i f => str "records[" ++ Addr.itoa i ++ str "]." ++ f.path

inductive RecMsg where
  | soaReadOnly | notEditable | readOnly
  | control | notAllowed (c : UInt8) | nonASCII | unterminated
  | empty | tooLong | directive | notValid (t : Str)
  | targetRoot | targetLabel (l : Str) | mappedAAAA | nullMX
  | caaFlags | caaIodef | caaTag
  | dsType | dsHex | dsLength (n digestType : ℕ)
  | keyFlags | keyProtocol | keyBase64
  | tlsaUsage | tlsaSelector | tlsaMatching | tlsaHex | tlsaLength (matching n : ℕ)
  | sshfpAlgorithm | sshfpType | sshfpHex | sshfpLength (type n : ℕ)
  | naptrFlags
  | ttlRange (lo hi : ℤ) | valueCount (max : ℤ) | commentText
  | cnameApex | cnameValues | otherData (name : Str) | cnameExists (name : Str) | duplicate
  | priorityRange | priorityType | priorityTwice | badName (e : NameErr)
deriving DecidableEq, Repr

/-- A record refusal (`validate.RecordError`): the field and the message. -/
structure RecordErr where
  field : RecField
  msg : RecMsg
deriving DecidableEq, Repr

/-! ## Errors of the dependencies -/

inductive PDNSKind where
  | notFound | conflict | unavailable | tooLarge
deriving DecidableEq, Repr

inductive PDNSErr where
  | api (status : ℕ) (kind : Option PDNSKind)
  /-- a sentinel without a reply (transport, size, path) -/
  | plain (kind : PDNSKind)
  | decode
deriving DecidableEq, Repr

/-! ## Errors of the services -/

inductive Permission where
  | zonesRead | zonesManage | templatesManage | supermastersManage | dashboardRead | backupManage
  | configManage
deriving DecidableEq, Repr

/-- Refusals of the access model (`authz.ErrForbidden`). -/
inductive Forbidden where
  | tenantRequired | required (perm : Permission) | platformAdmin | caller
deriving DecidableEq, Repr

inductive ZoneErr where
  | notFound | duplicate
  | onServer
  | unknownKind
  | needsPrimary (kind : Str)
  | templateKind
  | notifyKind
  /-- records of slave and consumer zones come from their primaries -/
  | secondary (kind : Str)
  | description | nameservers | ipamOrigin | unknownOrigin
  | rejected (status : ℕ)
  | templateNotFound | exportTooLarge
deriving DecidableEq, Repr

/-- What is wrong with a backup document (`backup.ErrBadSchema`). -/
inductive BackupPart where
  | malformedJSON | trailingData
  | version (n : ℤ)
  | tenantID | zoneID | zoneName | zoneKind | zoneMasters | zoneDescription | zoneNameserver
  | templateID | templateName | templateRecords
  | supermasterID | supermasterIP | supermasterNameserver
deriving DecidableEq, Repr

inductive Err where
  | name (e : NameErr)
  | masters (e : MastersErr)
  | record (e : RecordErr)
  | forbidden (e : Forbidden)
  | repoNotFound
  | repoConflict
  | repoFailed
  | pdns (e : PDNSErr)
  | recursor (status : Option ℕ)
  | recursorZone
  | zone (e : ZoneErr)
  | recordNotFound
  | recordConflict
  | templateDuplicate
  | templateInvalid
  | supermasterNotFound
  | supermasterDuplicate
  | supermasterRejected (status : ℕ)
  | challengeInvalid
  | challengeNotFound
  | challengeCNAME (name : Str)
  | challengeSecondary (kind : Str)
  | challengeWrite (e : Err)
  | syncSkip
  | syncMalformed
  | ipamNotFound
  | ipamFailed
  | syncStep (e : Err)
  | backupSchema (what : BackupPart)
  | backupTooLarge
deriving DecidableEq, Repr

inductive Sentinel where
  | errName | errPublicSuffix | errMasters | errRecord | errForbidden
  | repoNotFound | repoConflict
  | pdns (kind : PDNSKind)
  | recursorUnavailable
  | zonesNotFound | zonesDuplicate | zonesInvalidKind | zonesInvalid | zonesRejected
  | zonesTemplateNotFound | zonesExportTooLarge
  | recordsNotFound | recordsConflict
  | templatesDuplicate | templatesInvalid
  | supermastersNotFound | supermastersDuplicate | supermastersRejected
  | acmeInvalid | acmeNotFound | acmePrecondition
  | syncSkip | syncMalformed | ipamNotFound
  | backupBadSchema | backupTooLarge
deriving DecidableEq, Repr

def ZoneErr.sentinel : ZoneErr → Sentinel
  | notFound => .zonesNotFound
  | duplicate | onServer => .zonesDuplicate
  | unknownKind | needsPrimary _ | templateKind | notifyKind | secondary _ => .zonesInvalidKind
  | description | nameservers | ipamOrigin | unknownOrigin => .zonesInvalid
  | rejected _ => .zonesRejected
  | templateNotFound => .zonesTemplateNotFound
  | exportTooLarge => .zonesExportTooLarge

def Err.sentinels : Err → List Sentinel
  | name (.publicSuffix _) => [.errName, .errPublicSuffix]
  | name _ => [.errName]
  | masters _ => [.errMasters]
  | record _ => [.errRecord]
  | forbidden _ => [.errForbidden]
  | repoNotFound => [.repoNotFound]
  | repoConflict => [.repoConflict]
  | repoFailed => []
  | pdns (.api _ (some k)) => [.pdns k]
  | pdns (.api _ none) => []
  | pdns (.plain k) => [.pdns k]
  | pdns .decode => []
  | recursor (some n) => if 500 ≤ n then [.recursorUnavailable] else []
  | recursor none => [.recursorUnavailable]
  | recursorZone => []
  | zone e => [e.sentinel]
  | recordNotFound => [.recordsNotFound]
  | recordConflict => [.recordsConflict]
  | templateDuplicate => [.templatesDuplicate]
  | templateInvalid => [.templatesInvalid]
  | supermasterNotFound => [.supermastersNotFound]
  | supermasterDuplicate => [.supermastersDuplicate]
  | supermasterRejected _ => [.supermastersRejected]
  | challengeInvalid => [.acmeInvalid]
  | challengeNotFound => [.acmeNotFound]
  | challengeCNAME _ | challengeSecondary _ => [.acmePrecondition]
  | challengeWrite e => .acmePrecondition :: e.sentinels
  | syncSkip => [.syncSkip]
  | syncMalformed => [.syncMalformed]
  | ipamNotFound => [.ipamNotFound]
  | ipamFailed => []
  | syncStep e => e.sentinels
  | backupSchema _ => [.backupBadSchema]
  | backupTooLarge => [.backupTooLarge]

def Err.Is (e : Err) (s : Sentinel) : Bool := e.sentinels.contains s

end TangraDns
