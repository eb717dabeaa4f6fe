/-
  The server configuration (package `dnsconf`): a typed model with defaults and
  strict validation.
-/
import TangraDns.Net.Addr
import TangraDns.Text.Unicode

namespace TangraDns.Dnsconf

open Str

/-! ## The model -/

structure FieldError where
  field : Str
  msg : Str
deriving DecidableEq, Repr

def maxList : ℕ := 32

structure Recursor where
  listenAddresses : List Str
  port : ℤ
  allowedNetworks : List Str
  upstreamResolvers : List Str
  dnssecValidation : Str
  allowOpenResolver : Bool
deriving DecidableEq, Repr

structure Authoritative where
  listenAddresses : List Str
  port : ℤ
  transferPeers : List Str
deriving DecidableEq, Repr

structure Model where
  recursor : Recursor
  authoritative : Authoritative
deriving DecidableEq, Repr

/-- The configuration of a deployment that has saved none. -/
def defaults : Model where
  recursor :=
    { listenAddresses := [str "0.0.0.0", str "::"]
      port := 53
      allowedNetworks := [str "127.0.0.0/8", str "10.0.0.0/8", str "172.16.0.0/12",
        str "192.168.0.0/16",
        str "::1/128", str "fc00::/7"]
      upstreamResolvers := []
      dnssecValidation := str "off"
      allowOpenResolver := false }
  authoritative := ⟨[str "0.0.0.0"], 53, []⟩

/-! ## Validation -/

def entry (field : Str) (i : ℕ) : Str := field ++ 91 :: Addr.itoa i ++ [93]

def port (field : Str) (p : ℤ) : Except FieldError ℤ :=
  if p < 1 ∨ 65535 < p then .error ⟨field, str "must be within [1, 65535]"⟩ else .ok p

/-- The entries from the `i`th on, each canonical and none twice. -/
def listLoop (field : Str) (f : Str → Except Str Str) : ℕ → List Str → List Str →
    Except FieldError (List Str)
  | _, out, [] => .ok out
  | i, out, raw :: rest =>
    match f (trimSpace raw) with
    | .error msg => .error ⟨entry field i, msg⟩
    | .ok v =>
      if v ∈ out then .error ⟨entry field i, str "duplicate entry " ++ v⟩
      else listLoop field f (i + 1) (out ++ [v]) rest

/-- Canonicalises every entry, refusing duplicates, too many entries and, where one is required,
    none. -/
def list (field : Str) (entries : List Str) (required : Bool) (f : Str → Except Str Str) :
    Except FieldError (List Str) :=
  if maxList < entries.length then .error ⟨field, str "at most " ++ Addr.itoa maxList ++
    str " entries are allowed"⟩
  else if required ∧ entries.length = 0 then .error ⟨field, str "at least one entry is required"⟩
  else listLoop field f 0 [] entries

def listenAddr (s : Str) : Except Str Str :=
  match (Addr.parseAddr s).filter fun a => a.zone == [] with
  | none => .error (str "must be an IP address literal")
  | some a => .ok a.unmap.toStr

def network (s : Str) : Except Str Str :=
  if 47 ∉ s then
    match (Addr.parseAddr s).filter fun a => a.zone == [] with
    | none => .error (str "must be an IP address or CIDR")
    | some a => .ok (Addr.toStrPrefix a.unmap (if a.unmap.is4 then 32 else 128))
  else
    match Addr.parsePrefix s with
    | none => .error (str "must be an IP address or CIDR")
    | some (a, n) => .ok (Addr.toStrPrefix (a.masked n) n)

def resolver (a : Addr) : Bool :=
  a.zone == [] && !a.isUnspecified && !a.isMulticast && !a.isLoopback && !a.isLinkLocalUnicast &&
    a != .broadcast

def upstream (s : Str) : Except Str Str :=
  match Addr.parseAddrPort s with
  | some (a, p) =>
    if p = 0 then .error (str "port must be within [1, 65535]")
    else if !resolver a.unmap then .error (str "must be a unicast resolver address")
    else .ok (Addr.toStrPort a.unmap p)
  | none =>
    match Addr.parseAddr s with
    | none => .error (str "must be IP or IP:port")
    | some a =>
      if !resolver a.unmap then .error (str "must be a unicast resolver address")
        else .ok a.unmap.toStr

def isOpen (n : Str) : Bool := n == str "0.0.0.0/0" || n == str "::/0"

def checkOpen (allowed : Bool) : ℕ → List Str → Except FieldError Unit
  | _, [] => .ok ()
  | i, n :: ns =>
    if isOpen n && !allowed then
      .error ⟨entry (str "recursor.allowed_networks") i,
        n ++ str " opens the resolver to every client; set allow_open_resolver to confirm"⟩
    else checkOpen allowed (i + 1) ns

def modes : List Str := [str "off", str "process", str "validate"]

def mode (U : CaseTables) (s : Str) : Except FieldError Str :=
  if toLower U (trimSpace s) ∈ modes then .ok (toLower U (trimSpace s))
  else .error ⟨str "recursor.dnssec_validation", str "must be off, process or validate"⟩

variable (U : CaseTables)

def Model.canonical (m : Model) : Except FieldError Model := do
  let r := m.recursor
  let a := m.authoritative
  let listen ← list (str "recursor.listen_addresses") r.listenAddresses true listenAddr
  let rport ← port (str "recursor.port") r.port
  let networks ← list (str "recursor.allowed_networks") r.allowedNetworks false network
  checkOpen r.allowOpenResolver 0 networks
  let upstreams ← list (str "recursor.upstream_resolvers") r.upstreamResolvers false upstream
  let dnssec ← mode U r.dnssecValidation
  let alisten ← list (str "authoritative.listen_addresses") a.listenAddresses true listenAddr
  let aport ← port (str "authoritative.port") a.port
  let peers ← list (str "authoritative.transfer_peers") a.transferPeers false network
  return ⟨⟨listen, rport, networks, upstreams, dnssec, r.allowOpenResolver⟩,
    ⟨alisten, aport, peers⟩⟩

structure Validated where
  model : Model
  ok : ∃ m : Model, m.canonical U = .ok model

def Model.validate (m : Model) : Except FieldError (Validated U) :=
  match h : m.canonical U with
  | .ok out => .ok ⟨out, m, h⟩
  | .error e => .error e

def Validated.openResolver (v : Validated U) : Bool := v.model.recursor.allowedNetworks.any isOpen

end TangraDns.Dnsconf
