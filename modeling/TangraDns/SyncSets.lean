/-
  What the sync's changes of an address set leave alone.
-/
import TangraDns.RecordData
import TangraDns.Sync

namespace TangraDns.Sync

open Str Validate Records

variable (C : Config)

def contentsOf (o : Option PDNS.RRset) : List Str :=
  ((o.map PDNS.RRset.records).getD []).map PDNS.Record.content

def others (value : Str) (records : List PDNS.Record) : List PDNS.Record :=
  records.filter fun x => !(x.content == value)

def commentsIn (r : PDNS.RRset) : List Str := r.comments.getD []

/-- Nothing but the value has changed: the other records are there, in their order and enabled or
    disabled as before, and a set that is still there has its TTL and its comments. -/
structure Framed (value : Str) (r : PDNS.RRset) (o : Option PDNS.RRset) : Prop where
  others : others value ((o.map PDNS.RRset.records).getD []) = others value r.records
  kept : ∀ r' ∈ o, r'.ttl = r.ttl ∧ commentsIn r' = commentsIn r

instance (value : Str) (r : PDNS.RRset) (o : Option PDNS.RRset) : Decidable (Framed value r o) :=
  decidable_of_iff (others value ((o.map PDNS.RRset.records).getD []) = others value r.records ∧
    ∀ r' ∈ o, r'.ttl = r.ttl ∧ commentsIn r' = commentsIn r) ⟨fun h =>
      ⟨h.1, h.2⟩, fun h => ⟨h.1, h.2⟩⟩

/-- The record is enabled, and its content is in the form validation gives it. -/
def Settled (zone typ : Str) (x : PDNS.Record) : Prop :=
  x.disabled = false ∧ ∃ z, canonicalZone C.env zone = .ok z ∧
    content C.env typ z x.content = .ok x.content

/-- A set that is not changed beside the value when the value is added: it has the value, or it is
    as the sync writes it. -/
def Addable (zone typ value : Str) (r : PDNS.RRset) : Prop :=
  value ∈ r.records.map PDNS.Record.content ∨
    commentsIn r = [comment] ∧ ∀ x ∈ r.records, Settled C zone typ x

/-- A set that is not changed beside the value when the value is removed: it does not have the
    value, it has no other one, or the others are enabled and canonical and there is at most one
    comment, without space around it. -/
def Removable (zone typ value : Str) (r : PDNS.RRset) : Prop :=
  value ∉ r.records.map PDNS.Record.content ∨ others value r.records = [] ∨
    (commentsIn r = [] ∨ ∃ c, commentsIn r = [c] ∧ c ≠ [] ∧ trimSpace c = c) ∧
      ∀ x ∈ others value r.records, Settled C zone typ x

/-! ## A sample -/

def sampleHost : Str := str "www.example.com."

def sampleAddr : Addr := .v4 ⟨192, 0, 2, 2⟩

/-- A set of the host as the sync writes it, with two addresses. -/
def sampleSet : PDNS.RRset :=
  ⟨sampleHost, str "A", 300, .none, [⟨str "192.0.2.1", false⟩, ⟨str "192.0.2.3", false⟩],
    some [comment]⟩

end TangraDns.Sync
