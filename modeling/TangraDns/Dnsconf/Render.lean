/-
  Rendering of a validated configuration into the include files of the resolver
  (YAML) and of the authoritative server (`key=value`).
-/
import TangraDns.Dnsconf.Model

namespace TangraDns.Dnsconf

open Str

structure UnsafeValue where
  value : Str
deriving DecidableEq, Repr

/-- The first line of a managed file, with an em dash in UTF-8. -/
def header : Str :=
  str "# Managed by Freya DNS " ++ [0xE2, 0x80, 0x94] ++ str " do not edit by hand.\n"

def addrByte (b : UInt8) : Bool :=
  (48 ≤ b && b ≤ 57) || (65 ≤ b && b ≤ 70) || (97 ≤ b && b ≤ 102) || b == 46 ||
    b == 58 || b == 47 ||
    b == 91 || b == 93

def addrRE (v : Str) : Bool := 1 ≤ v.length && v.length ≤ 64 && v.all addrByte

def modeRE (v : Str) : Bool := v ∈ modes

structure Writer where
  text : Str
  err : Option UnsafeValue
deriving DecidableEq, Repr

namespace Writer

def new : Writer := ⟨header, none⟩

variable (w : Writer)

def line (s : Str) : Writer := { w with text := w.text ++ s ++ [10] }

def refuse (v : Str) : Writer := { w with err := w.err.or (some ⟨v⟩) }

def quoted (v : Str) (re : Str → Bool) : Writer × Str :=
  if re v then (w, 34 :: v ++ [34]) else (w.refuse v, [34, 34])

def item (lead v : Str) (re : Str → Bool) : Writer :=
  (w.quoted v re).1.line (lead ++ (w.quoted v re).2)

def items (lead : Str) (vs : List Str) : Writer := vs.foldl (fun w v => w.item lead v addrRE) w

def bare (vs : List Str) : Writer × Str :=
  (vs.foldl (fun w v => if addrRE v then w else w.refuse v) w, (str ", ").intercalate vs)

def setting (lead : Str) (vs : List Str) : Writer := (w.bare vs).1.line (lead ++ (w.bare vs).2)

def result : Except UnsafeValue Str :=
  match w.err with
  | some e => .error e
  | none => .ok w.text

end Writer

variable {U : CaseTables}

def renderRecursorYAML (v : Validated U) : Except UnsafeValue Str :=
  let r := v.model.recursor
  let w := (Writer.new.line (str "incoming:")).line (str "  listen:")
  let w := w.items (str "    - ") r.listenAddresses
  let w := w.line (str "  port: " ++ Addr.itoa r.port.toNat)
  let w := if r.allowedNetworks ≠ [] then
      (w.line (str "  allow_from:")).items (str "    - ") r.allowedNetworks
    else w
  let w := (w.line (str "dnssec:")).item (str "  validation: ") r.dnssecValidation modeRE
  let w := if r.upstreamResolvers ≠ [] then
      let w := (w.line (str "recursor:")).line (str "  forward_zones_recurse:")
      let w := (w.line (str "    - zone: \".\"")).line (str "      forwarders:")
      w.items (str "        - ") r.upstreamResolvers
    else w
  w.result

def renderAuthConf (v : Validated U) : Except UnsafeValue Str :=
  let a := v.model.authoritative
  let w := Writer.new.setting (str "local-address=") a.listenAddresses
  let w := w.line (str "local-port=" ++ Addr.itoa a.port.toNat)
  let w := if a.transferPeers ≠ [] then w.setting (str "allow-axfr-ips=") a.transferPeers else w
  w.result

end TangraDns.Dnsconf
