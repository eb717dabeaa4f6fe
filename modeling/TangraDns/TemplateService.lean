/-
  The template service (package `templates`): named lists of records of a
  tenant, checked against a placeholder zone when they are saved.
-/
import TangraDns.Zones

namespace TangraDns.Templates

open Str Validate

variable (C : Config) (l : Limits)

structure Input where
  name : Str
  description : Str
  records : List Store.TemplateRecord
deriving DecidableEq, Repr

def placeholderZone : Str := str "placeholder.example."

def guard (subj : Subjects) (perm : Permission) : Except Err Unit :=
  if subj.tenantID = [] then .error (.forbidden .tenantRequired)
  else if subj.isHuman ∧ C.checker.isNone then .ok ()
  else Authz.require C.checker subj perm

def hasControl (s : Str) : Bool := (runes s).any isControl

def normalizeRecord (r : Store.TemplateRecord) : Store.TemplateRecord :=
  { r with
    name := trimSpace r.name
    content := trimSpace r.content
    type := toUpper C.env.cases (trimSpace r.type) }

def normalize (i : Input) : Except Err Input := do
  let out : Input := ⟨trimSpace i.name, trimSpace i.description, i.records.map (normalizeRecord C)⟩
  if out.name = [] ∨ maxName < runeCount out.name ∨ hasControl out.name then .error .templateInvalid
  else if maxDescription < runeCount out.description then .error .templateInvalid
  else do
    let _ ← expandRecords C.env l placeholderZone out.records
    .ok out

def get (subj : Subjects) (id : Str) : Act Store.Template := do
  Act.ofExcept (guard C subj .zonesRead)
  match ← (Act.store (.getTemplate subj.tenantID id)).attempt with
  | .ok t => return t
  | .error e => throw (mapStore e)

def create (subj : Subjects) (i : Input) : Act Store.Template := do
  Act.ofExcept (guard C subj .templatesManage)
  let n ← Act.ofExcept (normalize C l i)
  let now ← Act.now
  let id ← Act.newID
  let t : Store.Template := ⟨id, subj.tenantID, n.name, n.description, n.records, now, now⟩
  match ← (Act.store (.createTemplate t)).attempt with
  | .ok _ => return t
  | .error e => throw (mapStore e)

def update (subj : Subjects) (id : Str) (i : Input) : Act Store.Template := do
  Act.ofExcept (guard C subj .templatesManage)
  let n ← Act.ofExcept (normalize C l i)
  let now ← Act.now
  match ← (Act.store (.updateTemplate ⟨id, subj.tenantID, n.name, n.description, n.records, 0,
    now⟩)).attempt with
  | .ok t => return t
  | .error e => throw (mapStore e)

/-- Removes a template; zones made from it are kept. -/
def delete (subj : Subjects) (id : Str) : Act Unit := do
  Act.ofExcept (guard C subj .templatesManage)
  match ← (Act.store (.deleteTemplate subj.tenantID id)).attempt with
  | .ok _ => pure ()
  | .error e => throw (mapStore e)

end TangraDns.Templates
