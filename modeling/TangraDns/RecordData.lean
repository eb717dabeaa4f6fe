/-
  The record data of a zone, and sequences of calls of the record service on it.
-/
import TangraDns.Records

namespace TangraDns.Records

open Str Validate Prog.Failing

/-- Well-formed record data: names in lower case inside the zone, types in upper case, one set per
    name and type, and a CNAME alone at its name, below the apex, with one value. -/
structure WellFormed (zone : Str) (sets : List PDNS.RRset) : Prop where
  lower : ∀ r ∈ sets, IsLowerStr r.name
  upper : ∀ r ∈ sets, IsUpperStr r.type
  inside : ∀ r ∈ sets, PDNS.InZone r.name zone
  unique : sets.Pairwise fun r s => ¬ (r.name = s.name ∧ r.type = s.type)
  alone : ∀ r ∈ sets, r.type = str "CNAME" → ∀ s ∈ sets, s.name = r.name → s.type = str "CNAME"
  apex : ∀ r ∈ sets, r.type = str "CNAME" → r.name ≠ zone
  single : ∀ r ∈ sets, r.type = str "CNAME" → r.records.length = 1

def CaseNormal (sets : List PDNS.RRset) : Prop := ∀ r ∈ sets, IsLowerStr r.name ∧ IsUpperStr r.type

instance (sets : List PDNS.RRset) : Decidable (CaseNormal sets) :=
  List.decidableBAll (fun r : PDNS.RRset => IsLowerStr r.name ∧ IsUpperStr r.type) sets

def setAt (C : Config) (sets : List PDNS.RRset) (n t : Str) : Option PDNS.RRset :=
  sets.find? fun r => Matches C r n t

def Written (C : Config) (zone : Str) (r : PDNS.RRset) : Prop :=
  ∃ i existing rr, C.limits.recordSet C.env zone i existing = .ok rr ∧ r = rr.stored

inductive Call where
  | upsert (subj : Subjects) (i : RecordSetInput)
  | apply (subj : Subjects) (i : RecordSetInput)
  | update (subj : Subjects) (k : Key) (i : RecordSetInput)
  | delete (subj : Subjects) (k : Key)
  | remove (subj : Subjects) (k : Key)
deriving DecidableEq, Repr

variable (C : Config) (z : Store.Zone)

/-- The action of a call on the zone: by its id, or on the loaded row. -/
def Call.act : Call → Act Unit
  | upsert subj i => do
    let _ ← Records.upsert C subj z.id i
    pure ()
  | apply subj i => do
    let _ ← Records.apply C subj z i
    pure ()
  | update subj k i => do
    let _ ← Records.update C subj z.id k i
    pure ()
  | delete subj k => Records.delete C subj z.id k
  | remove subj k => Records.remove C subj z k

def Call.run (w : World) (c : Call) : World := (exec (handler C.env.cases) (c.act C z) w).2

def runCalls (calls : List Call) (w : World) : World := calls.foldl (Call.run C z) w

/-! ## A sample -/

def sampleZone : Store.Zone :=
  ⟨str "z", str "t", str "example.com.", str "example.com.", .native, [], false, [], [],
    .manual, [],
    str "u", 1, 1⟩

def samplePDNS : PDNS.Zone :=
  ⟨str "example.com.", str "example.com.", str "Native", 1, 0, [], false, [], str "t",
    PDNS.Server.initialSets (str "example.com.") []⟩

def sampleWorld : World :=
  { World.empty with
    store := { World.empty.store with zones := ⟨[sampleZone], List.pairwise_singleton _ _⟩ }
    pdns := { World.empty.pdns with zones := ⟨[samplePDNS], List.pairwise_singleton _ _⟩ } }

def sampleWith (r : PDNS.RRset) : World :=
  { sampleWorld with
    pdns := { sampleWorld.pdns with
      zones := ⟨[{ samplePDNS with rrsets := samplePDNS.rrsets ++ [r] }],
        List.pairwise_singleton _ _⟩ } }

end TangraDns.Records
