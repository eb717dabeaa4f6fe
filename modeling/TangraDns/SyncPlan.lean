/-
  The plan of the IPAM sync (package `ipamsync`): which zone and owner name the
  address record and the PTR record of an address belong to.
-/
import TangraDns.Store
import TangraDns.Validate.Names

namespace TangraDns.Sync

open Str Validate

variable (E : Env)

def canonicalHost (h : Str) : Option Str :=
  match Validate.hostname E h with
  | .error _ => none
  | .ok fq => if Under fq v4Suffix ∨ Under fq v6Suffix then none else some fq

/-- The planned address record of a host; `zoneID` is set when the zone exists. -/
structure Forward where
  zone : Str
  zoneID : Option Str
  name : Str
  type : Str
deriving DecidableEq, Repr

def recordType (a : Addr) : Str := if a.unmap.is4 then str "A" else str "AAAA"

/-- The longest of the reverse, or of the forward, zones that equals or contains the name. -/
def longest (zones : List Store.Zone) (name : Str) (reverse : Bool) : Option Store.Zone :=
  Store.longestZone (zones.filter fun z => isReverse z.name == reverse) name

def planForward (zones : List Store.Zone) (host : Str) (addr : Addr) : Except Err Forward :=
  match canonicalHost E host with
  | none => .error .syncSkip
  | some h =>
    match longest zones h false with
    | some z => .ok ⟨z.name, some z.id, h, recordType addr⟩
    | none =>
      match E.effectiveTLDPlusOne (trimSuffix h [dot]) with
      | none => .error .syncSkip
      | some reg =>
        match Validate.zoneName E reg with
        | .error _ => .error .syncSkip
        | .ok zone =>
          if Store.InZone h zone then .ok ⟨zone, none, h, recordType addr⟩ else .error .syncSkip

def nibbles (g : ℕ) : List Str :=
  [g / 4096 % 16, g / 256 % 16, g / 16 % 16, g % 16].map fun n => [Addr.hexByte n]

def labels (a : Addr) : List Str × Str :=
  match a.unmap with
  | .v4 ip => ([ip.a, ip.b, ip.c, ip.d].map fun b => Addr.itoa b.toNat, v4Suffix)
  | .v6 ip _ => ((Addr.groups ip).flatMap nibbles, v6Suffix)

def reverseName (parts : List Str) (suffix : Str) : Str :=
  (parts.reverse.flatMap fun p => p ++ [dot]) ++ suffix

def ptrOwner (a : Addr) : Str := reverseName (labels a).1 (labels a).2

/-- The reverse zone of an address in a subnet of the given prefix length: rounded down to a label
    and clamped; a length out of range is an unknown subnet. -/
def reverseZone (a : Addr) (prefixLen : ℤ) : Str :=
  let (unit, lo, hi, full) : ℕ × ℕ × ℕ × ℕ :=
    if a.unmap.is4 then (8, 8, 24, 32) else (4, 4, 64, 128)
  let len : ℕ := if prefixLen < 0 ∨ (full : ℤ) < prefixLen then hi else prefixLen.toNat
  let bits := min (max (len / unit * unit) lo) hi
  reverseName ((labels a).1.take (bits / unit)) (labels a).2

/-- The planned PTR record of an address; `zoneID` is set when the zone exists. -/
structure Reverse where
  zone : Str
  zoneID : Option Str
  owner : Str
deriving DecidableEq, Repr

/-- The zone of an address's PTR record: the tenant's longest reverse zone over it, or the
    subnet-sized one, to be created. -/
def planReverse (zones : List Store.Zone) (a : Addr) (prefixLen : ℤ) : Reverse :=
  match longest zones (ptrOwner a) true with
  | some z => ⟨z.name, some z.id, ptrOwner a⟩
  | none => ⟨reverseZone a prefixLen, none, ptrOwner a⟩

def prefixOf (cidr : Str) : ℤ :=
  match Addr.parsePrefix (trimSpace cidr) with
  | some (_, n) => n
  | none => -1

end TangraDns.Sync
