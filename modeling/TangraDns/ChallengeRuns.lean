/-
  Runs of the challenge service and its sweeper: calls one after another, each
  with what becomes of its calls to the dependencies.
-/
import TangraDns.ChallengeSets
import TangraDns.Faults
import TangraDns.Prog.Machine

namespace TangraDns.Challenges

open Str Prog Prog.Failing

variable (C : Config)

def Carries (w : World) (z : Store.Zone) (fqdn value : Str) : Prop :=
  quoted value ∈ (valuesOf (textSet C w z fqdn)).map PDNS.Record.content

instance (w : World) (z : Store.Zone) (fqdn value : Str) : Decidable (Carries C w z fqdn value) :=
  inferInstanceAs (Decidable (_ ∈ _))

inductive Call where
  | present (subj : Subjects) (r : Request)
  | cleanUp (subj : Subjects) (r : Request)
  | sweep (maxAge : ℕ)

def Call.act : Call → Act Unit
  | present subj r => do
    let _ ← Challenges.present C subj r
    pure ()
  | cleanUp subj r => do
    let _ ← Challenges.cleanUp C subj r
    pure ()
  | sweep maxAge => do
    let _ ← Challenges.sweep C maxAge
    pure ()

/-- A value that was presented at a name by a tenant, and when. -/
structure Publication where
  tenantID : Str
  fqdn : Str
  value : Str
  time : ℕ
deriving DecidableEq, Repr

/-- What a present publishes, if it succeeds; it reads the clock once. -/
def Call.publication (w : World) : Call → Option Publication
  | present subj r => match check C r with
    | .ok fqdn => some ⟨subj.tenantID, fqdn, r.value, w.times w.ticks⟩
    | .error _ => none
  | _ => none

structure Moment where
  call : Call
  plan : ℕ → TangraDns.Op → Fate Fault

structure Log where
  world : World
  published : List Publication

def Moment.run (w : World) (m : Moment) : Except Err Unit × World :=
  let r := exec (faulty C.env.cases m.plan) (m.call.act C) (w, 0)
  (r.1, r.2.1)

def Log.step (s : Log) (m : Moment) : Option Log :=
  some ⟨(m.run C s.world).2,
    if (m.run C s.world).1.isOk then (m.call.publication C s.world).toList ++ s.published
      else s.published⟩

/-- The calls to PowerDNS may fail, and their replies may be lost; the others succeed. -/
def Steady (plan : ℕ → TangraDns.Op → Fate Fault) : Prop :=
  ∀ n o, plan n o = .done ∨ ∃ c e, o = .pdns c ∧ (plan n o = .failed e ∨ plan n o = .lost e)

def Books (c : Store.Challenge) (T fqdn value : Str) : Prop :=
  c.tenantID = T ∧ c.fqdn = fqdn ∧ c.value = value

/-- No row books what the call publishes. -/
def Unbooked (w : World) (c : Call) : Prop :=
  ∀ p ∈ c.publication C w, ∀ r ∈ w.store.challenges, ¬ Books r p.tenantID p.fqdn p.value

/-- In every zone of PowerDNS names are in lower case and types in upper case. -/
def Tidy (w : World) : Prop := ∀ id pz, w.pdns.zone id = some pz → Records.CaseNormal pz.rrsets

/-- The value was published, and every time it was is more than `maxAge` before `now`. -/
def Stale (published : List Publication) (T fqdn value : Str) (maxAge now : ℕ) : Prop :=
  (∃ p ∈ published, p.tenantID = T ∧ p.fqdn = fqdn ∧ p.value = value) ∧
    ∀ p ∈ published, p.tenantID = T → p.fqdn = fqdn → p.value = value → p.time + maxAge < now

instance (published : List Publication) (T fqdn value : Str) (maxAge now : ℕ) :
    Decidable (Stale published T fqdn value maxAge now) :=
  inferInstanceAs (Decidable ((∃ p ∈ published, _) ∧ ∀ p ∈ published, _))

def Call.undisturbed (c : Call) : Moment := ⟨c, fun _ _ => .done⟩

/-! ## Passes -/

def tryRow (w : World) (c : Store.Challenge) : World :=
  (exec (handler C.env.cases) (Impl.sweepRow C c) w).2

def pass (maxAge : ℕ) (w : World) : World := (exec (handler C.env.cases) (sweep C maxAge) w).2

def passes (maxAge : ℕ) : ℕ → World → World
  | 0, w => w
  | k + 1, w => pass C maxAge (passes maxAge k w)

inductive Reaches (w : World) : World → Prop
  | start : Reaches w w
  | tick {w' : World} (h : Reaches w w') : Reaches w { w' with ticks := w'.ticks + 1 }
  | tried {w' : World} {c : Store.Challenge} (h : Reaches w w') (hc : c ∈ w.store.challenges) :
      Reaches w (tryRow C w' c)

def Fails (w : World) (c : Store.Challenge) : Prop :=
  ∀ w', Reaches C w w' → c ∈ w'.store.challenges → c ∈ (tryRow C w' c).store.challenges

def Works (w : World) (c : Store.Challenge) : Prop :=
  ∀ w', Reaches C w w' → c ∉ (tryRow C w' c).store.challenges

def staleRows (maxAge : ℕ) (w : World) : List Store.Challenge :=
  w.store.challenges.rows.filter fun c => c.createdAt < w.times w.ticks - maxAge

def Older (a b : Store.Challenge) : Prop :=
  (if a.createdAt = b.createdAt then Str.le a.id b.id else decide (a.createdAt < b.createdAt)) =
    true

instance : DecidableRel Older := fun _ _ => inferInstanceAs (Decidable (_ = true))

def Gone (w : World) (c : Store.Challenge) : Prop :=
  c ∉ w.store.challenges ∧ ∀ z, w.store.zone c.tenantID c.zoneID = some z →
    ¬ Carries C w z c.fqdn c.value

def SpelledIn (name : Str) (sets : List PDNS.RRset) : Prop :=
  ∀ r ∈ sets, r.type = str "TXT" → ∀ x ∈ r.records, ∀ zone v, Validate.canonicalZone C.env
    name = .ok zone →
    valueOK v = true → Validate.content C.env (str "TXT") zone x.content = .ok (quoted v) →
    x.content = quoted v

def OneSpelling (w : World) : Prop :=
  ∀ z ∈ w.store.zones, ∀ pz, w.pdns.zone z.pdnsID = some pz → SpelledIn C z.name pz.rrsets

def Proper (c : Store.Challenge) : Prop := ∃ r, check C r = .ok c.fqdn ∧ c.value = r.value

/-- Rows as the service makes them, records as PowerDNS keeps them, and a clock that does not go
    back. -/
structure Sound (w : World) : Prop where
  clock : Monotone w.times
  tidy : Tidy w
  spelling : OneSpelling C w
  proper : ∀ c ∈ w.store.challenges, Proper C c

end TangraDns.Challenges
