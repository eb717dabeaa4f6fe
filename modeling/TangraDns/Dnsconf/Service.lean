/-
  The configuration service: saves a validated configuration, renders and writes
  the include files that changed, and restarts the containers of their servers.

  The state keeps a log of what happened to the files and the servers, which the
  service itself never reads.  `Troubles` says which of the calls of one request
  fail; a write that fails leaves the file as it was, since the new content only
  gets there by a rename.
-/
import TangraDns.Authz
import TangraDns.Dnsconf.Render

namespace TangraDns.Dnsconf

open Str

inductive Server where
  | recursor | authoritative
deriving DecidableEq, Repr

/-! ## State -/

/-- The stored row: what its JSON sections decode to, if they do, and the hashes recorded last. -/
structure ServerConfig where
  recursor : Option Recursor
  authoritative : Option Authoritative
  recursorHash : Str
  authHash : Str
deriving DecidableEq, Repr

def ServerConfig.hashOf (c : ServerConfig) : Server → Str
  | .recursor => c.recursorHash
  | .authoritative => c.authHash

inductive Event where
  | wrote (path content : Str)
  | restarted (s : Server)
  | restartFailed (s : Server)
  | reconciled
deriving DecidableEq, Repr

/-- The stored row, the files by path and the events, the newest first. -/
structure State where
  config : Option ServerConfig
  files : Str → Option Str
  log : List Event

namespace State

variable (w : State)

def record (e : Event) : State := { w with log := e :: w.log }

def write (path content : Str) : State :=
  { w with files := Function.update w.files path (some content), log := .wrote path content ::
    w.log }

/-- The stored row; the sections of a row that was never saved decode to zero values. -/
def row : ServerConfig :=
  w.config.getD ⟨some ⟨[], 0, [], [], [], false⟩, some ⟨[], 0, []⟩, [], []⟩

def saveServerConfig (m : Model) : State :=
  { w with
    config := some
      { w.row with recursor := some m.recursor, authoritative := some m.authoritative } }

def setConfigHashes (recursorHash authHash : Str) : State :=
  { w with config := some { w.row with recursorHash, authHash } }

end State

/-! ## Dependencies -/

/-- The wiring of the service: an empty path means that a server is not managed, and the
    configuration of the process refuses two equal ones. -/
structure Deps where
  cases : CaseTables
  hash : Str → Str
  checker : Option Authz.Checker
  path : Server → Str
  distinct : path .recursor ≠ [] → path .recursor ≠ path .authoritative
  restarts : Bool
  container : Server → Str
  reconcile : Bool

inductive WriteStep where
  | read | createTemp | writeString | sync | close | chmod | rename
deriving DecidableEq, Repr

/-- The calls of one request that fail. -/
structure Troubles where
  get : Bool
  save : Bool
  write : Server → Option WriteStep
  restart : Server → Bool
  hashes : Bool

def writeIfChanged (hash : Str → Str) (trouble : Option WriteStep) (path content : Str)
    (w : State) :
    Except WriteStep Bool × State :=
  if trouble = some .read then (.error .read, w)
  else if (w.files path).map hash = some (hash content) then (.ok false, w)
  else match trouble with
    | some step => (.error step, w)
    | none => (.ok true, w.write path content)

/-! ## Applying -/

inductive Reason where
  | writeFailed | restartFailed | notManaged
deriving DecidableEq, Repr

structure ServerError where
  server : Server
  reason : Reason
deriving DecidableEq, Repr

/-- What a request reports; restarts are reported by container name. -/
structure Result where
  recursor : Recursor
  authoritative : Authoritative
  changed : List Server
  restarted : List Str
  restartRequired : List Str
  errors : List ServerError
deriving DecidableEq, Repr

inductive Failure where
  | refused (e : Err)
  | invalid (e : FieldError)
  | unsafeValue (e : UnsafeValue)
  | store
  | stored (s : Server)

structure Applying where
  state : State
  res : Result
  hashes : Server → Str
  recursorRestarted : Bool

section Service

variable (d : Deps) (t : Troubles)

def render : Server → Validated d.cases → Except UnsafeValue Str
  | .recursor => renderRecursorYAML
  | .authoritative => renderAuthConf

def restart (s : Server) (x : Applying) : Applying × Bool :=
  if !d.restarts then
    ({ x with res.restartRequired := x.res.restartRequired ++ [d.container s] }, false)
  else if t.restart s then
    ({ x with
        state := x.state.record (.restartFailed s)
        res.errors := x.res.errors ++ [⟨s, .restartFailed⟩]
        res.restartRequired := x.res.restartRequired ++ [d.container s] }, false)
  else
    ({ x with
        state := x.state.record (.restarted s)
        res.restarted := x.res.restarted ++ [d.container s] }, true)

/-- The turn of one server, once its file is rendered. -/
def serve (reportUnmanaged : Bool) (s : Server) (content : Str) (x : Applying) : Applying :=
  let x := { x with hashes := Function.update x.hashes s (d.hash content) }
  if d.path s = [] then
    if reportUnmanaged then { x with res.errors := x.res.errors ++ [⟨s, .notManaged⟩] } else x
  else
    match writeIfChanged d.hash (t.write s) (d.path s) content x.state with
    | (.error _, w) => { x with state := w, res.errors := x.res.errors ++ [⟨s, .writeFailed⟩] }
    | (.ok false, w) => { x with state := w }
    | (.ok true, w) =>
      let (x, ok) := restart d t s { x with state := w, res.changed := x.res.changed ++ [s] }
      if ok ∧ s = .recursor then { x with recursorRestarted := true } else x

/-- The turns of the servers; a file that cannot be rendered ends the application. -/
def serveAll (v : Validated d.cases) (reportUnmanaged : Bool) :
    List Server → Applying → Except UnsafeValue Unit × Applying
  | [], x => (.ok (), x)
  | s :: ss, x =>
    match render d s v with
    | .error e => (.error e, x)
    | .ok content => serveAll v reportUnmanaged ss (serve d t reportUnmanaged s content x)

/-- Records the hashes (a failure is only logged) and has a restarted resolver synchronised
    again. -/
def finish (x : Applying) : State :=
  let w := if t.hashes then x.state
    else x.state.setConfigHashes (x.hashes .recursor) (x.hashes .authoritative)
  if x.recursorRestarted && d.reconcile then w.record .reconciled else w

/-- Renders and writes both files and restarts the changed containers. -/
def apply (v : Validated d.cases) (reportUnmanaged : Bool) (w : State) :
    Except Failure Result × State :=
  let res : Result := ⟨v.model.recursor, v.model.authoritative, [], [], [], []⟩
  match serveAll d t v reportUnmanaged [.recursor, .authoritative] ⟨w, res, fun _ => [], false⟩ with
  | (.error e, x) => (.error (.unsafeValue e), x.state)
  | (.ok (), x) => (.ok x.res, finish d t x)

/-! ## Requests -/

def authorize (subj : Subjects) : Except Err Unit := do
  Authz.requirePlatformAdmin subj
  if d.checker.isSome then Authz.require d.checker subj .configManage

/-- The saved model, or the defaults and `false` when none was saved. -/
def stored (w : State) : Except Failure (Model × Bool) :=
  if t.get then .error .store
  else match w.config with
    | none => .ok (defaults, false)
    | some row =>
      match row.recursor, row.authoritative with
      | none, _ => .error (.stored .recursor)
      | some _, none => .error (.stored .authoritative)
      | some r, some a => .ok (⟨r, a⟩, true)

def update (subj : Subjects) (m : Model) (w : State) : Except Failure Result × State :=
  match authorize d subj with
  | .error e => (.error (.refused e), w)
  | .ok () =>
    match m.validate d.cases with
    | .error e => (.error (.invalid e), w)
    | .ok v =>
      if t.save then (.error .store, w) else apply d t v true (w.saveServerConfig v.model)

/-- Re-applies the stored configuration; nothing happens when none was ever saved. -/
def reapply (w : State) : Except Failure Result × State :=
  match stored t w with
  | .error e => (.error e, w)
  | .ok (_, false) => (.ok ⟨⟨[], 0, [], [], [], false⟩, ⟨[], 0, []⟩, [], [], [], []⟩, w)
  | .ok (m, true) =>
    match m.validate d.cases with
    | .error e => (.error (.invalid e), w)
    | .ok v => apply d t v false w

end Service

/-! ## Runs -/

inductive Call where
  | update (subj : Subjects) (m : Model)
  | reapply

variable (d : Deps)

def Call.run (c : Call) (t : Troubles) (w : State) : Except Failure Result × State :=
  match c with
  | .update subj m => Dnsconf.update d t subj m w
  | .reapply => Dnsconf.reapply d t w

def Call.applied (c : Call) (t : Troubles) (w : State) : Option (Validated d.cases) :=
  match c with
  | .update subj m => if (authorize d subj).isOk && !t.save then (m.validate d.cases).toOption
      else none
  | .reapply =>
    match stored t w with
    | .ok (m, true) => (m.validate d.cases).toOption
    | _ => none

/-- Every request of a run, in the state before it, meets the condition. -/
def Along (P : State → Call → Troubles → Prop) : List (Call × Troubles) → State → Prop
  | [], _ => True
  | (c, t) :: cs, w => P w c t ∧ Along P cs (c.run d t w).2

end TangraDns.Dnsconf
