/-
  IP addresses and their text forms: parsing and printing of addresses,
  address-port pairs and prefixes, and the classes of special addresses.
-/
import TangraDns.Text.Bytes

structure IP4 where
  (a b c d : UInt8)
deriving DecidableEq, Repr

structure IP6 where
  (g0 g1 g2 g3 g4 g5 g6 g7 : UInt16)
deriving DecidableEq, Repr

/-- An address; an IPv6 address may carry a scope zone. -/
inductive Addr where
  | v4 (ip : IP4)
  | v6 (ip : IP6) (zone : Str)
deriving DecidableEq, Repr

namespace Addr

def groups (ip : IP6) : List ℕ :=
  [ip.g0, ip.g1, ip.g2, ip.g3, ip.g4, ip.g5, ip.g6, ip.g7].map UInt16.toNat

def ofGroups : List ℕ → Option IP6
  | [g0, g1, g2, g3, g4, g5, g6, g7] => some
    ⟨.ofNat g0, .ofNat g1, .ofNat g2, .ofNat g3, .ofNat g4, .ofNat g5, .ofNat g6, .ofNat g7⟩
  | _ => none

def zone : Addr → Str
  | v4 _ => []
  | v6 _ z => z

def is4 : Addr → Bool
  | v4 _ => true
  | v6 .. => false

def mapped (ip : IP6) : Bool :=
  ip.g0 == 0 && ip.g1 == 0 && ip.g2 == 0 && ip.g3 == 0 && ip.g4 == 0 && ip.g5 == 0xFFFF

def low4 (ip : IP6) : IP4 :=
  ⟨.ofNat (ip.g6.toNat / 256), .ofNat (ip.g6.toNat % 256), .ofNat (ip.g7.toNat / 256),
    .ofNat (ip.g7.toNat % 256)⟩

def unmap : Addr → Addr
  | v4 ip => v4 ip
  | v6 ip z => if mapped ip then v4 (low4 ip) else v6 ip z

def parts : Addr → List ℕ
  | v4 ip => [ip.a, ip.b, ip.c, ip.d].map UInt8.toNat
  | v6 ip _ => groups ip

def le (x y : Addr) : Bool :=
  if x.is4 ≠ y.is4 then x.is4
  else if x.parts ≠ y.parts then decide (x.parts < y.parts)
  else Str.le x.zone y.zone

/-! ## Numbers in text -/

def itoa (n : ℕ) : Str := (Nat.toDigits 10 n).map fun c => UInt8.ofNat c.toNat

def digit (b : UInt8) : Option ℕ := if 48 ≤ b ∧ b ≤ 57 then some (b.toNat - 48) else none

def decimal (s : Str) : Option ℕ :=
  if s = [] then none else s.foldlM (fun n b => (digit b).map fun d => n * 10 + d) 0

def hexDigit (b : UInt8) : Option ℕ :=
  if 48 ≤ b ∧ b ≤ 57 then some (b.toNat - 48)
  else if 97 ≤ b ∧ b ≤ 102 then some (b.toNat - 87)
  else if 65 ≤ b ∧ b ≤ 70 then some (b.toNat - 55)
  else none

def hexByte (n : ℕ) : UInt8 := if n < 10 then .ofNat (48 + n) else .ofNat (87 + n)

def hexGroup (n : ℕ) : Str :=
  if n < 16 then [hexByte n]
  else if n < 256 then [hexByte (n / 16), hexByte (n % 16)]
  else if n < 4096 then [hexByte (n / 256), hexByte (n / 16 % 16), hexByte (n % 16)]
  else [hexByte (n / 4096), hexByte (n / 256 % 16), hexByte (n / 16 % 16), hexByte (n % 16)]

/-! ## Parsing -/

def parseOctet (s : Str) : Option UInt8 :=
  if s.length ≤ 3 ∧ (s.length = 1 ∨ s.head? ≠ some 48) then
    match decimal s with
    | some n => if n ≤ 255 then some (.ofNat n) else none
    | none => none
  else none

def parseIPv4 (s : Str) : Option IP4 :=
  match (Str.split 46 s).mapM parseOctet with
  | some [a, b, c, d] => some ⟨a, b, c, d⟩
  | _ => none

def parseGroup (s : Str) : Option ℕ :=
  if s = [] ∨ 4 < s.length then none
  else s.foldlM (fun n b => (hexDigit b).map fun d => n * 16 + d) 0

def groups4 (ip : IP4) : List ℕ :=
  [ip.a.toNat * 256 + ip.b.toNat, ip.c.toNat * 256 + ip.d.toNat]

def parseGroups : List Str → Option (List ℕ)
  | [] => some []
  | [f] => if f.contains 46 then (parseIPv4 f).map groups4 else (parseGroup f).map fun g => [g]
  | f :: fs => match parseGroup f, parseGroups fs with
    | some g, some gs => some (g :: gs)
    | _, _ => none

def cutEllipsis : Str → Option (Str × Str)
  | 58 :: 58 :: r => some ([], r)
  | b :: s => (cutEllipsis s).map fun p => (b :: p.1, p.2)
  | [] => none

def fieldGroups (s : Str) : Option (List ℕ) :=
  if s = [] then some [] else parseGroups (Str.split 58 s)

/-- The eight groups of an IPv6 text: `::` stands for at least one group of zeros. -/
def parseIPv6 (s : Str) : Option IP6 :=
  match cutEllipsis s with
  | none => (fieldGroups s).bind ofGroups
  | some (l, r) =>
    -- only the last field of the whole text may be an IPv4 address
    if l.contains 46 then none else
    match fieldGroups l, fieldGroups r with
    | some gl, some gr =>
      if gl.length + gr.length ≤ 7 then
        ofGroups (gl ++ List.replicate (8 - gl.length - gr.length) 0 ++ gr)
      else none
    | _, _ => none

def cut (b : UInt8) (s : Str) : Str × Option Str :=
  match s.dropWhile (· != b) with
  | [] => (s, none)
  | _ :: r => (s.takeWhile (· != b), some r)

/-- An address, decided by the first of `.`, `:` and `%`. -/
def parseAddr (s : Str) : Option Addr :=
  match s.find? fun b => b == 46 || b == 58 || b == 37 with
  | some 46 => (parseIPv4 s).map v4
  | some 58 =>
    match cut 37 s with
    | (body, none) => (parseIPv6 body).map fun ip => v6 ip []
    | (body, some z) => if z = [] then none else (parseIPv6 body).map fun ip => v6 ip z
  | _ => none

/-! ## Printing -/

def toStr4 (ip : IP4) : Str :=
  Str.join 46 [itoa ip.a.toNat, itoa ip.b.toNat, itoa ip.c.toNat, itoa ip.d.toNat]

def zeros (gs : List ℕ) : ℕ := (gs.takeWhile (· == 0)).length

def zeroRun (gs : List ℕ) : Option (ℕ × ℕ) :=
  (List.range gs.length).foldl (fun best i =>
    let l := zeros (gs.drop i)
    if 2 ≤ l ∧ (best.map Prod.snd).getD 0 < l then some (i, l) else best) none

def joinGroups (gs : List ℕ) : Str := Str.join 58 (gs.map hexGroup)

def toStr6 (ip : IP6) : Str :=
  match zeroRun (groups ip) with
  | none => joinGroups (groups ip)
  | some (i, l) =>
    joinGroups ((groups ip).take i) ++ [58, 58] ++ joinGroups ((groups ip).drop (i + l))

def toStr : Addr → Str
  | v4 ip => toStr4 ip
  | v6 ip z =>
    (if mapped ip then str "::ffff:" ++ toStr4 (low4 ip) else toStr6 ip) ++
      if z = [] then [] else 37 :: z

/-! ## Address-port pairs and prefixes -/

def cutLast (b : UInt8) (s : Str) : Option (Str × Str) :=
  match cut b s.reverse with
  | (_, none) => none
  | (r, some l) => some (l.reverse, r.reverse)

/-- `ip:port`, an IPv6 address in square brackets. -/
def parseAddrPort (s : Str) : Option (Addr × ℕ) :=
  match cutLast 58 s with
  | none => none
  | some (ip, port) =>
    if ip = [] ∨ port = [] then none else
    let bracket := ip.head? = some 91
    if bracket ∧ (ip.length < 2 ∨ ip.getLast? ≠ some 93) then none else
    match decimal port, parseAddr (if bracket then ip.tail.dropLast else ip) with
    | some p, some a => if 65535 < p ∨ (bracket ↔ a.is4) then none else some (a, p)
    | _, _ => none

def toStrPort (a : Addr) (port : ℕ) : Str :=
  if a.is4 then a.toStr ++ 58 :: itoa port else 91 :: a.toStr ++ [93, 58] ++ itoa port

def parsePrefix (s : Str) : Option (Addr × ℕ) :=
  match cutLast 47 s with
  | none => none
  | some (ip, bits) =>
    match parseAddr ip, decimal bits with
    | some a, some n =>
      if a.zone ≠ [] ∨ (1 < bits.length ∧ bits.head? = some 48) ∨ (if a.is4 then 32 else 128) < n
      then none else some (a, n)
    | _, _ => none

/-- The leading `n` of `width` bits of a number; the others are cleared. -/
def maskBits (width n x : ℕ) : ℕ := x / Nat.pow 2 (width - n) * Nat.pow 2 (width - n)

/-- The octet or group at a place, counted from the right, of a number. -/
def place (base i x : ℕ) : ℕ := x / Nat.pow base i % base

def masked : Addr → ℕ → Addr
  | v4 ip, n =>
    let x := maskBits 32 n ((v4 ip).parts.foldl (fun x o => x * 256 + o) 0)
    v4 ⟨.ofNat (place 256 3 x), .ofNat (place 256 2 x), .ofNat (place 256 1 x),
      .ofNat (place 256 0 x)⟩
  | v6 ip z, n =>
    let x := maskBits 128 n ((groups ip).foldl (fun x g => x * 65536 + g) 0)
    v6 ⟨.ofNat (place 65536 7 x), .ofNat (place 65536 6 x), .ofNat (place 65536 5 x),
      .ofNat (place 65536 4 x),
      .ofNat (place 65536 3 x), .ofNat (place 65536 2 x), .ofNat (place 65536 1 x),
        .ofNat (place 65536 0 x)⟩ z

def toStrPrefix (a : Addr) (n : ℕ) : Str := a.toStr ++ 47 :: itoa n

/-! ## Special addresses -/

def isLoopback : Addr → Bool
  | v4 ip => ip.a == 127
  | v6 ip _ => ip == ⟨0, 0, 0, 0, 0, 0, 0, 1⟩

def isLinkLocalUnicast : Addr → Bool
  | v4 ip => ip.a == 169 && ip.b == 254
  | v6 ip _ => ip.g0 &&& 0xFFC0 == 0xFE80

def isMulticast : Addr → Bool
  | v4 ip => ip.a &&& 0xF0 == 0xE0
  | v6 ip _ => ip.g0 &&& 0xFF00 == 0xFF00

def isLinkLocalMulticast : Addr → Bool
  | v4 ip => ip.a == 224 && ip.b == 0 && ip.c == 0
  | v6 ip _ => ip.g0 &&& 0xFF0F == 0xFF02

def isInterfaceLocalMulticast : Addr → Bool
  | v4 _ => false
  | v6 ip _ => ip.g0 &&& 0xFF0F == 0xFF01

def isUnspecified : Addr → Bool
  | v4 ip => ip == ⟨0, 0, 0, 0⟩
  | v6 ip z => ip == ⟨0, 0, 0, 0, 0, 0, 0, 0⟩ && z == []

def broadcast : Addr := v4 ⟨255, 255, 255, 255⟩

end Addr
