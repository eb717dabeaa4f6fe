/-
  Backup documents as JSON texts (packages `backup` and `httpapi`): the document is
  read from the text with a streaming decoder, which must then have nothing left, and
  an import request carries it as the export wrote it.

  `decode` gives the document of the text of one JSON value, unknown fields refused,
  and `stamp` the text of a time; they are parameters.
-/
import TangraDns.Backup
import TangraDns.Text.Json
import TangraDns.Text.JsonWrite

namespace TangraDns.Backup

open Str

/-! ## Reading -/

/-- Whether the decoder has another value: the next byte that is not white space is there and closes
    no array or object. -/
def more (rest : Str) : Bool :=
  match Json.skip rest with
  | [] => false
  | c :: _ => c != 93 && c != 125

def parse (C : Config) (decode : Str → Option Document) (raw : Str) : Except Err Document :=
  match Json.next raw with
  | none => .error (.backupSchema .malformedJSON)
  | some (value, rest) =>
    match decode value with
    | none => .error (.backupSchema .malformedJSON)
    | some b =>
      if more rest then .error (.backupSchema .trailingData)
      else do
        validate C b
        return b

/-! ## Writing -/

section

open Json (Tree)

variable (stamp : ℕ → Str)

def boolTree (b : Bool) : Tree := .plain (if b then str "true" else str "false")

def intTree (n : ℤ) : Tree :=
  .plain (if n < 0 then 45 :: Addr.itoa n.natAbs else Addr.itoa n.natAbs)

def timeTree (t : ℕ) : Tree := .plain (34 :: (stamp t ++ [34]))

def omitEmpty (name value : Str) : List (Str × Tree) :=
  if value = [] then [] else [(name, .text value)]

def zoneFields (z : ZoneRow) : List (Str × Tree) :=
  [(str "id", .text z.id), (str "tenant_id", .text z.tenantID), (str "name", .text z.name),
    (str "kind", .text z.kind),
    (str "masters", .array (z.masters.map .text)), (str "dnssec", boolTree z.dnssec)] ++
  omitEmpty (str "description") z.description ++ omitEmpty (str "template_id") z.templateID ++
  [(str "origin", .text z.origin), (str "nameservers", .array (z.nameservers.map .text))] ++
  omitEmpty (str "created_by") z.createdBy ++
  [(str "created_at", timeTree stamp z.createdAt), (str "updated_at", timeTree stamp z.updatedAt)]

def zoneTree (z : ZoneRow) : Tree := .object (zoneFields stamp z ++ omitEmpty (str "bind") z.bind)

def recordTree (r : Store.TemplateRecord) : Tree :=
  .object ([(str "name", .text r.name), (str "type", .text r.type), (str "ttl", intTree r.ttl),
    (str "content", .text r.content)] ++
      (if r.priority = 0 then [] else [(str "priority", intTree r.priority)]))

def templateTree (t : Store.Template) : Tree :=
  .object ([(str "id", .text t.id), (str "tenant_id", .text t.tenantID),
    (str "name", .text t.name)] ++
    omitEmpty (str "description") t.description ++
    [(str "records", .array (t.records.map recordTree)),
      (str "created_at", timeTree stamp t.createdAt),
      (str "updated_at", timeTree stamp t.updatedAt)])

def supermasterTree (m : Store.Supermaster) : Tree :=
  .object ([(str "id", .text m.id), (str "tenant_id", .text m.tenantID), (str "ip", .text m.ip),
    (str "nameserver", .text m.nameserver)] ++ omitEmpty (str "created_by") m.createdBy ++
    [(str "created_at", timeTree stamp m.createdAt)])

def documentTree (b : Document) : Tree :=
  .object [(str "schema_version", intTree b.schemaVersion),
    (str "exported_at", timeTree stamp b.exportedAt),
    (str "tenant_id", .text b.tenantID), (str "zones", .array (b.zones.map (zoneTree stamp))),
    (str "templates", .array (b.templates.map (templateTree stamp))),
    (str "supermasters", .array (b.supermasters.map (supermasterTree stamp)))]

def importRequest (opts : Options) (b : Document) : Tree :=
  .object (omitEmpty (str "mode") opts.mode ++ omitEmpty (str "tenant_id") opts.tenantID ++
    (if opts.full then [(str "full", boolTree true)] else []) ++
    [(str "backup", documentTree stamp b)])

end

def maxImportBytes : ℕ := 64 * 2 ^ 20

def answering (U : CaseTables) (texts : Str → Except PDNSErr Str) : Prog.Handler Op Res World
  | .pdns (.exportZone id), w => (texts id, w)
  | o, w => handler U o w

end TangraDns.Backup
