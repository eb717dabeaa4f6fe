/-
  The checks of the record form (`ui/src/schemas/record.ts`): what the browser says
  about a value before it is sent.

  A value is the list of its characters; `white` is what the regular expressions of
  the browser take for white space, which is not what the server does.
-/
import TangraDns.Text.Bytes

namespace TangraDns.Form

def chars (s : String) : List ℕ := s.toList.map Char.toNat

/-! ## Text -/

/-- `\s`, which `trim` removes too. -/
def white (r : ℕ) : Bool :=
  (9 ≤ r && r ≤ 13) || r == 0x20 || r == 0xA0 || r == 0x1680 || (0x2000 ≤ r && r ≤ 0x200A) ||
    r == 0x2028 ||
    r == 0x2029 || r == 0x202F || r == 0x205F || r == 0x3000 || r == 0xFEFF

def trim (v : List ℕ) : List ℕ := ((v.dropWhile white).reverse.dropWhile white).reverse

/-- `split(/\s+/)` of a text that `trim` left. -/
def split (v : List ℕ) : List (List ℕ) := (v.splitOnP white).filter fun f => !f.isEmpty

def hasControl (v : List ℕ) : Bool := v.any fun r => r < 0x20 || r == 0x7f

/-- ASCII lower case: a regular expression with the flag `i` compares no other letters with ASCII
    ones. -/
def lower (r : ℕ) : ℕ := if 65 ≤ r ∧ r ≤ 90 then r + 32 else r

def directives : List (List ℕ) := [chars "$include", chars "$origin", chars "$ttl",
    chars "$generate"]

/-- `/\$(include|origin|ttl|generate)/i`. -/
def hasDirective (v : List ℕ) : Bool := directives.any fun d => decide (d <:+: v.map lower)

/-! ## Patterns -/

def isDigit (r : ℕ) : Bool := 48 ≤ r && r ≤ 57

def isHex (r : ℕ) : Bool := isDigit r || (97 ≤ r && r ≤ 102) || (65 ≤ r && r ≤ 70)

/-- `25[0-5]|2[0-4]\d|1\d\d|[1-9]?\d` -/
def octet : List ℕ → Bool
  | [d] => isDigit d
  | [c, d] => isDigit c && c != 48 && isDigit d
  | [c, d, e] =>
    isDigit d && isDigit e && (c == 49 || (c == 50 && (d < 53 || (d == 53 && e ≤ 53))))
  | _ => false

def ipv4 (v : List ℕ) : Bool := (v.splitOn 46).length == 4 && (v.splitOn 46).all octet

/-- `/^[0-9a-fA-F]+$/` -/
def hex (v : List ℕ) : Bool := !v.isEmpty && v.all isHex

def number (v : List ℕ) : ℕ := v.foldl (fun n r => n * 10 + (r - 48)) 0

def word (v : List ℕ) : Bool := !v.isEmpty && v.all isDigit && number v ≤ 65535

/-- `/^(0|128)\s+(issue|issuewild|iodef)\s+\S/i`: the first field is the flags, the second the tag,
    and there is a third. -/
def caa (f : List (List ℕ)) : Bool :=
  match f with
  | flags :: tag :: _ :: _ =>
    [chars "0", chars "128"].contains flags &&
      [chars "issue", chars "issuewild", chars "iodef"].contains (tag.map lower)
  | _ => false

def ds (f : List (List ℕ)) : Bool :=
  match f with
  | [_, _, type, digest] => [chars "1", chars "2", chars "4"].contains type && hex digest
  | _ => false

def tlsa (f : List (List ℕ)) : Bool :=
  match f with
  | [usage, selector, matching, data] =>
    [chars "0", chars "1", chars "2", chars "3"].contains usage &&
      [chars "0", chars "1"].contains selector &&
      [chars "0", chars "1", chars "2"].contains matching && hex data
  | _ => false

def sshfp (f : List (List ℕ)) : Bool :=
  match f with
  | [algorithm, type, fingerprint] =>
    [chars "1", chars "2", chars "3", chars "4", chars "6"].contains algorithm &&
      [chars "1", chars "2"].contains type && hex fingerprint
  | _ => false

def dnskey (f : List (List ℕ)) : Bool :=
  match f with
  | flags :: protocol :: _ :: _ :: _ =>
    [chars "0", chars "256", chars "257"].contains flags && protocol == chars "3"
  | _ => false

def mx (f : List (List ℕ)) : Bool :=
  match f with
  | [priority, _] => word priority
  | _ => false

def srv (f : List (List ℕ)) : Bool :=
  match f with
  | [priority, weight, port, _] => word priority && word weight && word port
  | _ => false

def aaaa (v : List ℕ) : Bool :=
  v.contains 58 && v.all (fun r => isHex r || r == 58 || r == 46) &&
    !decide (chars "::ffff:" <+: v.map lower)

/-! ## The check -/

/-- The rule of a type for a trimmed value, with the message if it is not met. -/
def rule (type : Str) (v : List ℕ) : Bool × Str :=
  let f := split v
  if type = str "A" then (ipv4 v, str "Enter an IPv4 address.")
  else if type = str "AAAA" then (aaaa v, str "Enter an IPv6 address.")
  else if type = str "CNAME" ∨ type = str "NS" ∨ type = str "PTR" then
    (f.length == 1 && v != [46], str "Enter one host name.")
  else if type = str "MX" then (mx f,
    str "Enter a priority and a host name (10 mail.example.com.).")
  else if type = str "SRV" then (srv f, str "Enter priority, weight, port and target.")
  else if type = str "CAA" then
    (caa f, str "Enter flags (0 or 128), a tag (issue, issuewild, iodef) and a value.")
  else if type = str "DS" then (ds f, str "Enter key tag, algorithm, digest type and hex digest.")
  else if type = str "TLSA" then
    (tlsa f, str "Enter usage (0-3), selector (0-1), matching type (0-2) and hex data.")
  else if type = str "SSHFP" then
    (sshfp f, str "Enter algorithm, fingerprint type (1 or 2) and hex fingerprint.")
  else if type = str "DNSKEY" then (dnskey f,
    str "Enter flags (256/257), protocol 3, algorithm and key.")
  else (true, [])

/-- What the form says about a value; nothing if it looks acceptable. -/
def checkContent (type : Str) (raw : List ℕ) : Str :=
  let v := trim raw
  if v = [] then str "A value is required."
  else if hasControl raw then str "Line breaks and control characters are not allowed."
  else if hasDirective v then str "Zone-file directives are not allowed."
  else if (rule type v).1 then [] else (rule type v).2

end TangraDns.Form
