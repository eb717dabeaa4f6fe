/-
  The messages of the PowerDNS client (package `pdns`, file `client.go`): the text of
  an error reply is made safe to log and to return.
-/
import TangraDns.Text.Absent

namespace TangraDns.Client

open Str

def maxErrorMessage : ℕ := 200

def redacted : Str := str "[redacted]"

def blank (r : Nat) : Nat := if r < 0x20 ∨ r = 0x7f then 32 else r

/-- The loop over the prefixes of the key, from the one of length `n` down: the first that ends the
    text is replaced. -/
def redactPartial (key msg : Str) : ℕ → Str
  | 0 => msg
  | n + 1 =>
    if n + 1 < 4 then msg
    else if HasSuffix msg (key.take (n + 1)) then trimSuffix msg (key.take (n + 1)) ++ redacted
    else redactPartial key msg n

def sanitize (msg key : Str) : Str :=
  let msg := if key ≠ [] then replaceAll msg key redacted else msg
  let msg := mapRunes blank msg
  let msg := join 32 (fields msg)
  let msg := if msg.length > maxErrorMessage then msg.take maxErrorMessage else msg
  if key ≠ [] then redactPartial key msg (key.length - 1) else msg

end TangraDns.Client
