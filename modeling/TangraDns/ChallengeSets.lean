/-
  The TXT set at the name of a challenge: when PowerDNS serves a value, when the
  set it has keeps one back, and the laws of the two operations on it.
-/
import TangraDns.Challenges
import TangraDns.RecordData

namespace TangraDns.Challenges

open Str Records Prog.Failing

variable (C : Config)

/-! ## Configuration -/

/-- Between two bounds (`config.within`). -/
def within (n lo hi : ℤ) : Bool := lo ≤ n && n ≤ hi

/-- The limits of record sets that pass the check of the configuration (`config.validateRest`). -/
def limitsOK (l : Validate.Limits) : Bool :=
  within l.minTTL 1 l.maxTTL && within l.maxTTL l.minTTL 2147483647 && within l.maxValues 1 1000

def defaultTTL : ℤ := 60

/-- The TTL of challenges of a service that is given one, or 0 for none (`New`). -/
def ttlOf (ttl : ℤ) : ℤ := if ttl ≤ 0 then defaultTTL else ttl

/-! ## Values -/

def Serves (sets : List PDNS.RRset) (fqdn value : Str) : Prop :=
  ∃ r ∈ sets, Matches C r fqdn (str "TXT") ∧ (⟨quoted value, false⟩ : PDNS.Record) ∈ r.records

instance (sets : List PDNS.RRset) (fqdn value : Str) : Decidable (Serves C sets fqdn value) :=
  inferInstanceAs (Decidable (∃ r ∈ sets, _))

/-- The set at the name has the value, but it is disabled. -/
def Withheld (sets : List PDNS.RRset) (fqdn value : Str) : Prop :=
  (∃ r ∈ setAt C sets fqdn (str "TXT"), quoted value ∈ r.records.map PDNS.Record.content) ∧
    ¬ Serves C sets fqdn value

/-! ## Operations -/

inductive Op where
  | present | cleanUp
deriving DecidableEq, Repr

def Op.act (op : Op) (subj : Subjects) (r : Request) : Act Str :=
  match op with
  | present => Challenges.present C subj r
  | cleanUp => Challenges.cleanUp C subj r

def Op.run (op : Op) (subj : Subjects) (r : Request) (w : World) : Except Err Str × World :=
  exec (handler C.env.cases) (op.act C subj r) w

def Op.Succeeds (op : Op) (subj : Subjects) (r : Request) (w : World) : Prop :=
  ∃ zone, (op.run C subj r w).1 = .ok zone

def textSet (w : World) (z : Store.Zone) (fqdn : Str) : Option PDNS.RRset :=
  (w.pdns.zone z.pdnsID).bind fun pz => setAt C pz.rrsets fqdn (str "TXT")

def valuesOf (o : Option PDNS.RRset) : List PDNS.Record := (o.map PDNS.RRset.records).getD []

def commentsOf (o : Option PDNS.RRset) : Option (List Str) := o.bind PDNS.RRset.comments

def others (value : Str) (records : List PDNS.Record) : List PDNS.Record :=
  records.filter fun r => !(r.content == quoted value)

/-- The laws of the operations for the requests `v` and `u`, which have one name and two values. -/
structure Laws (subj : Subjects) (z : Store.Zone) (fqdn : Str) (v u : Request) (w : World) :
    Prop where
  /-- the other values and the comment are kept, and the value is there once -/
  present : Op.present.Succeeds C subj v w →
    ∃ r, textSet C (Op.present.run C subj v w).2 z fqdn = some r ∧
    others v.value r.records = others v.value (valuesOf (textSet C w z fqdn)) ∧
    (r.records.filter fun x => x.content == quoted v.value).length = 1 ∧
    r.comments = commentsOf (textSet C w z fqdn)
  /-- everything but the value is kept; a set with no other value is deleted -/
  cleanUp : Op.cleanUp.Succeeds C subj v w → textSet C (Op.cleanUp.run C subj v w).2 z fqdn =
    (textSet C w z fqdn).bind fun r =>
      if others v.value r.records = [] then none
        else some { r with records := others v.value r.records }
  /-- doing it again changes nothing -/
  twice : ∀ op : Op, (op.run C subj v (op.run C subj v w).2).1 = (op.run C subj v w).1 ∧
    textSet C (op.run C subj v (op.run C subj v w).2).2 z fqdn =
      textSet C (op.run C subj v w).2 z fqdn
  /-- a value that was not there is taken out again -/
  undo : quoted v.value ∉ (valuesOf (textSet C w z fqdn)).map PDNS.Record.content →
    (Op.present.Succeeds C subj v w → Op.cleanUp.Succeeds C subj v (Op.present.run C subj v w).2) ∧
    valuesOf (textSet C (Op.cleanUp.run C subj v (Op.present.run C subj v w).2).2 z fqdn) =
      valuesOf (textSet C w z fqdn)
  /-- the order of two operations does not matter, if the set is not emptied in between -/
  commute : ∀ a b : Op, a.Succeeds C subj v w → b.Succeeds C subj u (a.run C subj v w).2 →
    b.Succeeds C subj u w → a.Succeeds C subj v (b.run C subj u w).2 →
    let s := textSet C (b.run C subj u (a.run C subj v w).2).2 z fqdn
    let t := textSet C (a.run C subj v (b.run C subj u w).2).2 z fqdn
    (valuesOf s).Perm (valuesOf t) ∧ (s = none ↔ t = none) ∧
      (textSet C w z fqdn = none ∨
        textSet C (a.run C subj v w).2 z fqdn ≠ none ∧
        textSet C (b.run C subj u w).2 z fqdn ≠ none →
        commentsOf s = commentsOf t)

/-! ## A sample -/

def sampleCaller : Subjects := .module (str "t") (str "spiffe://mesh/acme")

def sampleValue : Str := List.replicate 43 65

def sampleRequest : Request := ⟨str "example.com", str "_acme-challenge.example.com", sampleValue⟩

def sampleOther : Request := { sampleRequest with value := List.replicate 43 66 }

def sampleName : Str := str "_acme-challenge.example.com."

def sampleSet : PDNS.RRset := ⟨sampleName, str "TXT", 300, .none, [⟨str "\"text\"", false⟩],
    some [str "kept"]⟩

end TangraDns.Challenges
