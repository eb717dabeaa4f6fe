/-
  The cached secret source (package `secrets`, type `Cached`): the credentials are
  fetched when they are used and kept for a while, and a value that cannot be read
  again is served for a while longer.

  The mutex is held through the whole of `get`, the fetch included, so calls come one
  after another; `history` is the run of a list of calls on a new source, each with
  what the clock and the fetcher answer while it is going on.
-/
import TangraDns.Text.Unicode

namespace TangraDns.Secrets

open Str

inductive Err where
  | notConfigured | unavailable | empty
  | fetch (text : Str)

structure Entry where
  val : Str
  time : ℤ

abbrev Cache := Str → Option Entry

/-- The settings of a source.  Durations are `int64` nanoseconds, as in the source. -/
structure Cached where
  /-- Whether a fetcher is wired. -/
  fetcher : Bool
  refresh : Int64
  maxStale : Int64

/-- What one call meets: the clock when the cached value is looked at, what the fetcher
    returns if it is asked, and the clock after that. -/
structure Reading where
  before : ℤ
  fetched : Except Err Str
  after : ℤ

structure Answer where
  result : Except Err Str
  asked : Bool
  cache : Cache

/-- `t.Sub(u)`, which saturates. -/
def sub (t u : ℤ) : Int64 := Int64.ofIntClamp (t - u)

namespace Cached

variable (c : Cached)

/-- How long a value is served that cannot be read again.  The product wraps around. -/
def effectiveStale : Int64 := if c.maxStale ≤ 0 then 10 * c.refresh else c.maxStale

def stale (cache : Cache) (e : Option Entry) (after : ℤ) (err : Err) : Answer :=
  match e with
  | some e => if sub after e.time < c.effectiveStale then ⟨.ok e.val, true, cache⟩
      else ⟨.error err, true, cache⟩
  | none => ⟨.error err, true, cache⟩

def read (cache : Cache) (ref : Str) (r : Reading) : Answer :=
  if !c.fetcher then ⟨.error .unavailable, false, cache⟩ else
  match r.fetched with
  | .error err => c.stale cache (cache ref) r.after err
  | .ok v =>
    if v = [] then c.stale cache (cache ref) r.after .empty
    else ⟨.ok v, true, Function.update cache ref (some ⟨v, r.after⟩)⟩

def get (cache : Cache) (ref : Str) (r : Reading) : Answer :=
  if trimSpace ref = [] then ⟨.error .notConfigured, false, cache⟩ else
  match cache ref with
  | some e => if sub r.before e.time < c.refresh then ⟨.ok e.val, false, cache⟩
      else c.read cache ref r
  | none => c.read cache ref r

/-! ## Runs -/

inductive Event where
  | get (ref : Str) (r : Reading)
  | invalidate

inductive Moment where
  | get (ref : Str) (r : Reading) (asked : Bool) (result : Except Err Str)
  | invalidate

def step (cache : Cache) : Event → Moment × Cache
  | .get ref r =>
    let a := c.get cache ref r
    (.get ref r a.asked a.result, a.cache)
  | .invalidate => (.invalidate, fun _ => none)

def run (cache : Cache) : List Event → List Moment
  | [] => []
  | e :: es => (c.step cache e).1 :: run (c.step cache e).2 es

def history (es : List Event) : List Moment := c.run (fun _ => none) es

end Cached

end TangraDns.Secrets
