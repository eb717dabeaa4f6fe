/-
  Creations of cancelled callers and under lost replies.
-/
import TangraDns.Proof.Compensation
import TangraDns.RecordData

namespace TangraDns

open Str Prog Prog.Failing

variable {C : Config} {U : CaseTables} {x : Outage} {w w₀ : World} {n : ℕ} {α β : Type}
variable {z : Store.Zone} {subj : Subjects} {i : Zones.CreateInput} {k : ℕ}

/-! ## The calls under an outage -/

def OutageStep (U : CaseTables) (x : Outage) : Steps Op Res (World × ℕ) := fun o s r s' =>
  (r, s') = faulty U x.plan o s

theorem Outage.dead_succ (h : x.live n = false) : x.live (n + 1) = false := by
  cases hl : x.live (n + 1) with
  | false => rfl
  | true =>
    rw [x.ends n hl] at h
    cases h

theorem Outage.dead_of_le {m : ℕ} (hm : n ≤ m) (h : x.live n = false) : x.live m = false := by
  induction hm with
  | refl => exact h
  | step _ ih => exact dead_succ ih

theorem outageStep_store {c : StoreCall} {r : Except Err c.Ans} {s' : World × ℕ}
    (h : OutageStep U x (.store c) (w, n) r s') :
    (x.live n = true ∧ r = (c.step U (w.times w.ticks) w.store).1 ∧
      s' = ({ w with store := (c.step U (w.times w.ticks) w.store).2 }, n + 1)) ∨
    (x.live n = false ∧ r = .error (x.fault n).store ∧ s' = (w, n + 1)) := by
  cases hv : x.live n with
  | true =>
    have hfate : x.plan n (.store c) = .done := if_pos hv
    rw [OutageStep, faulty, disturb_done rfl hfate] at h
    exact .inl ⟨rfl, Prod.mk.inj h⟩
  | false =>
    have hfate : x.plan n (.store c) = .failed (x.fault n) := if_neg (by simp [hv])
    rw [OutageStep, faulty, disturb_failed rfl hfate] at h
    exact .inr ⟨rfl, Prod.mk.inj h⟩

theorem outage_store {c : StoreCall} {f : Except Err c.Ans → Act β}
    {Q : Except Err β → World × ℕ → Prop}
    (h : x.live n = true → Ensures (OutageStep U x) Q
      ({ w with store := (c.step U (w.times w.ticks) w.store).2 }, n + 1)
      (f (c.step U (w.times w.ticks) w.store).1))
    (hf : x.live n = false → Ensures (OutageStep U x) Q (w, n + 1) (f (.error (x.fault n).store))) :
    Ensures (OutageStep U x) Q (w, n) (attempt (Act.store c) >>= f) := by
  rintro r s' hr
  rcases outageStep_store hr with ⟨hv, rfl, rfl⟩ | ⟨hv, rfl, rfl⟩
  exacts [h hv, hf hv]

theorem outage_look {c : StoreCall} {f : Except Err c.Ans → Act β}
    {Q : Except Err β → World × ℕ → Prop}
    (hread : (c.step U (w.times w.ticks) w.store).2 = w.store)
    (h : ∀ r, x.live n = true ∧ r = (c.step U (w.times w.ticks) w.store).1 ∨
      x.live n = false ∧ r = .error (x.fault n).store →
      Ensures (OutageStep U x) Q (w, n + 1) (f r)) :
    Ensures (OutageStep U x) Q (w, n) (attempt (Act.store c) >>= f) := by
  refine outage_store (fun hv => ?_) fun hv => h _ (.inr ⟨hv, rfl⟩)
  rw [hread]
  exact h _ (.inl ⟨hv, rfl⟩)

theorem outage_pdns {c : PDNSCall} {f : Except Err c.Ans → Act β}
    {Q : Except Err β → World × ℕ → Prop}
    (h : x.live n = true → x.lost n = false → Ensures (OutageStep U x) Q
      ({ w with pdns := (c.step U w.pdns).2 }, n + 1)
      (f (Except.mapError Err.pdns (c.step U w.pdns).1)))
    (hl : x.live n = true → x.lost n = true → Ensures (OutageStep U x) Q
      ({ w with pdns := (c.step U w.pdns).2 }, n + 1) (f (.error (.pdns (x.fault n).pdns))))
    (hf : x.live n = false →
      Ensures (OutageStep U x) Q (w, n + 1) (f (.error (.pdns (x.fault n).pdns)))) :
    Ensures (OutageStep U x) Q (w, n) (attempt (Act.pdns c) >>= f) := by
  rintro r s' hr
  cases hv : x.live n with
  | true =>
    cases ht : x.lost n with
    | false =>
      have hfate : x.plan n (.pdns c) = .done := (if_pos hv).trans (if_neg (by simp [ht]))
      rw [OutageStep, faulty, disturb_done rfl hfate] at hr
      obtain ⟨rfl, rfl⟩ := Prod.mk.inj hr
      exact h hv ht
    | true =>
      have hfate : x.plan n (.pdns c) = .lost (x.fault n) := (if_pos hv).trans (if_pos ht)
      rw [OutageStep, faulty, disturb_lost rfl hfate] at hr
      obtain ⟨rfl, rfl⟩ := Prod.mk.inj hr
      exact hl hv ht
  | false =>
    have hfate : x.plan n (.pdns c) = .failed (x.fault n) := if_neg (by simp [hv])
    rw [OutageStep, faulty, disturb_failed rfl hfate] at hr
    obtain ⟨rfl, rfl⟩ := Prod.mk.inj hr
    exact hf hv

theorem outage_read {c : StoreCall} {f : c.Ans → Act β} {Q : Except Err β → World × ℕ → Prop}
    (h : x.live n = true → ∀ a, (c.step U (w.times w.ticks) w.store).1 = .ok a →
      Ensures (OutageStep U x) Q
      ({ w with store := (c.step U (w.times w.ticks) w.store).2 }, n + 1) (f a))
    (he : x.live n = true → ∀ e, (c.step U (w.times w.ticks) w.store).1 = .error e →
      Q (.error e) ({ w with store := (c.step U (w.times w.ticks) w.store).2 }, n + 1))
    (hf : x.live n = false → Q (.error (x.fault n).store) (w, n + 1)) :
    Ensures (OutageStep U x) Q (w, n) (Act.store c >>= f) := by
  refine Ensures.bind (Q := OutageStep U x (.store c) (w, n)) (ensures_ask fun r s' hr => hr) ?_ ?_
  · intro a s' hr
    rcases outageStep_store hr with ⟨hv, ha, rfl⟩ | ⟨-, ha, -⟩
    · exact h hv a ha.symm
    · cases ha
  · intro e s' hr
    rcases outageStep_store hr with ⟨hv, ha, rfl⟩ | ⟨hv, ha, rfl⟩
    · exact he hv e ha.symm
    · cases ha
      exact hf hv

theorem outage_ask {o : Op} {g : Res o → Except Err α} {f : α → Act β} {a : α}
    {Q : Except Err β → World × ℕ → Prop} (ho : fallible o = none)
    (hg : g (handler U o w).1 = .ok a)
    (h : Ensures (OutageStep U x) Q ((handler U o w).2, n) (f a)) :
    Ensures (OutageStep U x) Q (w, n) ((ask o g : Act α) >>= f) := by
  refine Ensures.bind (Q := fun r s => r = .ok a ∧ s = ((handler U o w).2, n)) ?_ ?_ ?_
  · refine ensures_ask fun r s' hr => ?_
    rw [OutageStep, faulty, disturb_none ho] at hr
    obtain ⟨rfl, rfl⟩ := Prod.mk.inj hr
    exact ⟨hg, rfl⟩
  · rintro _ _ ⟨h1, rfl⟩
    cases h1
    exact h
  · rintro _ _ ⟨h1, -⟩
    cases h1

/-! ## Outcomes -/

/-- Some call fails or loses its reply. -/
def Outage.Disturbs (x : Outage) : Prop := ∃ n, x.live n = false ∨ x.lost n = true

/-- PowerDNS has something it had not before. -/
def LeftOver (w₀ w : World) : Prop :=
  (∃ id, w₀.pdns.zone id = none ∧ w.pdns.zone id ≠ none) ∨
    ∃ m ∈ w.pdns.supermasters, m ∉ w₀.pdns.supermasters

/-- What a result says about a creation that is possible (`K`) and interrupted (`I`). -/
def Outcome (K I : Prop) (x : Outage) (w₀ : World) : Except Err α → World × ℕ → Prop
  | .ok _, _ => K ∧ ¬ I
  | .error _, s => Unchanged w₀ s.1 ∧ (K → ¬ I ∧ x.Disturbs) ∨ LeftOver w₀ s.1 ∧ (K → I)

variable {K I : Prop}

theorem Outcome.error {e e' : Err} {s : World × ℕ}
    (h : Outcome K I x w₀ (.error e : Except Err α) s) :
    Outcome K I x w₀ (.error e' : Except Err β) s := h

theorem outcome_early {e : Err} {s : World × ℕ} (hs : s.1.store = w₀.store)
    (hp : s.1.pdns = w₀.pdns)
    (h : K → ¬ I ∧ x.Disturbs) : Outcome K I x w₀ (.error e : Except Err α) s :=
  .inl ⟨⟨hs, fun id => by rw [hp], fun m => by rw [hp]⟩, h⟩

def AsBefore (w₀ : World) (s : World × ℕ) : Prop := s.1.store = w₀.store ∧ s.1.pdns = w₀.pdns

/-- What the result of a step that only reads says. -/
def Reading (K I : Prop) (x : Outage) (w₀ : World) (Q : α → World × ℕ → Prop) :
    Except Err α → World × ℕ → Prop
  | .ok a, s => AsBefore w₀ s ∧ Q a s
  | .error _, s => AsBefore w₀ s ∧ (K → ¬ I ∧ x.Disturbs)

theorem reading_outcome {p : Act α} {f : α → Act β} {Q : α → World × ℕ → Prop} {s : World × ℕ}
    (hp : Ensures (OutageStep U x) (Reading K I x w₀ Q) s p)
    (hf : ∀ a s', AsBefore w₀ s' → Q a s' → Ensures (OutageStep U x) (Outcome K I x w₀) s' (f a)) :
    Ensures (OutageStep U x) (Outcome K I x w₀) s (p >>= f) :=
  hp.bind (fun a s' h => hf a s' h.1 h.2) fun _ _ h => outcome_early h.1.1 h.1.2 h.2

/-! ## Zones -/

theorem createZone_ok_iff {s : PDNS.Server} {p : PDNS.Zone} :
    (∃ c, (s.createZone p).1 = .ok c) ↔
      (p.name ≠ [] ∧ HasSuffix p.name [dot]) ∧ p.rrsets.all (PDNS.Server.initialOK p) = true ∧
        s.zone p.name = none := by
  have hfree : s.zones.insert (PDNS.Server.newZone p) = none ↔ s.zone p.name ≠ none := by
    rw [Table.insert_eq_none, Ne, PDNS.Server.zone_eq_none]
    simp [Keyed.clash, PDNS.Server.newZone]
  unfold PDNS.Server.createZone
  by_cases hn : p.name = [] ∨ ¬ HasSuffix p.name [dot]
  · rw [if_pos hn]
    simp only [reduceCtorEq]
    tauto
  rw [if_neg hn]
  rw [not_or, not_not] at hn
  split
  · next h => simp [hfree.1 h]
  · next zones h =>
    have hz : s.zone p.name = none := by
      by_contra hz
      rw [hfree.2 hz] at h
      cases h
    by_cases hall : p.rrsets.all (PDNS.Server.initialOK p) = true
    · rw [if_pos hall]
      exact ⟨fun _ => ⟨hn, hall, hz⟩, fun _ => ⟨_, rfl⟩⟩
    · rw [if_neg hall]
      simp [hall]

theorem leftOver_zone {p : PDNS.Zone} {zones : Table PDNS.Zone}
    (hi : w₀.pdns.zones.insert p = some zones)
    (hp : w.pdns = { w₀.pdns with zones }) : LeftOver w₀ w := by
  refine .inl ⟨p.id, PDNS.Server.zone_eq_none.2 fun y hy hid => ?_, ?_⟩
  · have := Table.noClash_of_insert hi hy
    simp [Keyed.clash, hid] at this
  · rw [hp, PDNS.Server.zone_insert hi, if_pos rfl]
    exact Option.some_ne_none _

theorem insert_outcome {p : PDNS.Zone} {zones : Table PDNS.Zone}
    (hs : w.store = w₀.store) (hi : w₀.pdns.zones.insert p = some zones)
    (hp : w.pdns = { w₀.pdns with zones }) (hid : z.pdnsID = p.id) (hname : z.name = p.id)
    (hfresh : ∀ y ∈ w₀.store.zones, y.id ≠ z.id)
    (hK : K ↔ ∀ y ∈ w₀.store.zones, y.name ≠ p.id ∧ y.pdnsID ≠ p.id)
    (hI : I ↔ x.live (k + 1) = false) :
    Ensures (OutageStep U x) (Outcome K I x w₀) (w, k + 1) (Zones.Impl.insert z) := by
  -- the compensation, after a failure that says what it means for the creation
  have hundo {w : World} {e : Err} {m : ℕ} (hs : w.store = w₀.store)
      (hp : w.pdns = { w₀.pdns with zones })
      (hKI : K → I) (hdead : ¬ K ∨ x.live m = false) :
      Ensures (OutageStep U x) (Outcome K I x w₀) (w, m) (do
        let _ ← (Act.pdns (.deleteZone z.pdnsID)).attempt
        if e.Is .repoConflict then throw (.zone .duplicate) else throw e : Act Store.Zone) := by
    have hback {e : Err} {m' : ℕ} (hv : x.live m = true) :
        Outcome K I x w₀ (.error e : Except Err Store.Zone)
        ({ w with pdns := (w.pdns.deleteZone z.pdnsID).2 }, m') := by
      have hk : ¬ K := hdead.resolve_right (by rw [hv]; exact Bool.noConfusion)
      rw [hp, hid]
      obtain ⟨h1, h2⟩ := deleteZone_insert hi
      exact .inl ⟨⟨hs, h1, fun m => by rw [h2]⟩, fun h => absurd h hk⟩
    refine outage_pdns (fun hv _ => ?_) (fun hv _ => ?_) fun _ => ?_
    · exact Ensures.ite (fun _ => ensures_throw (hback hv)) fun _ => ensures_throw (hback hv)
    · exact Ensures.ite (fun _ => ensures_throw (hback hv)) fun _ => ensures_throw (hback hv)
    · have hleft := leftOver_zone hi hp
      exact Ensures.ite (fun _ => ensures_throw (.inr ⟨hleft, hKI⟩)) fun _ =>
        ensures_throw (.inr ⟨hleft, hKI⟩)
  refine outage_ask rfl rfl (outage_store (fun hv => ?_) fun hv => ?_)
  · have hnotI : ¬ I := by rw [hI, hv]; exact Bool.noConfusion
    dsimp only [StoreCall.step, handler]
    rcases w.store.createZone_cases (w.times (w.ticks + 1)) { z with
        createdAt := w.times w.ticks, updatedAt := w.times w.ticks } with
      ⟨⟨y, hy, hc⟩, h⟩ | ⟨rows, z', hrows, hkeys, h⟩ <;> rw [h]
    · -- a row is in the way
      have hk : ¬ K := fun hk => by
        rw [hs] at hy
        have := hK.1 hk y hy
        simp [Keyed.clash, hfresh y hy, hid, hname, this.1, this.2] at hc
      exact hundo hs hp (fun h => absurd h hk) (.inl hk)
    · refine ensures_pure ⟨hK.2 fun y hy => ?_, hnotI⟩
      rw [← hs] at hy
      have hc : Keyed.clash y z' = false := Table.noClash_of_insert hrows hy
      have hn' : z'.name = p.id := (Store.name_of_keys hkeys).trans hname
      have hp' : z'.pdnsID = p.id := (Store.pdnsID_of_keys hkeys).trans hid
      simp only [Keyed.clash, Bool.or_eq_false_iff, beq_eq_false_iff_ne, hn', hp'] at hc
      exact ⟨hc.1.2, hc.2⟩
  · exact hundo hs hp (fun _ => hI.2 hv) (.inr (Outage.dead_succ hv))

theorem make_outcome {sets : List PDNS.RRset} {p : PDNS.Zone}
    (hs : w.store = w₀.store) (hp : w.pdns = w₀.pdns)
    (hreq : p = ⟨[], z.name, z.kind.pdns, 0, 0, z.masters, z.dnssec,
      (Zones.mergeApexNS C z.name sets z.nameservers).2,
      z.tenantID, (Zones.mergeApexNS C z.name sets z.nameservers).1⟩)
    (hfresh : ∀ y ∈ w₀.store.zones, y.id ≠ z.id) (hK : K ↔ Creation.Placeable w₀ p)
    (hI : I ↔ x.live k = true ∧ (x.lost k = true ∨ x.live (k + 1) = false)) :
    Ensures (OutageStep U x) (Outcome K I x w₀) (w, k) (Zones.Impl.make C z sets) := by
  have hname : p.name = z.name := by rw [hreq]
  have hfail {e : Err} {s : World × ℕ} (h : Outcome K I x w₀ (.error e : Except Err Store.Zone) s) :
      Ensures (OutageStep U x) (Outcome K I x w₀) s
        (if e.Is (.pdns .conflict) then throw (.zone .duplicate)
          else throw (Zones.mapPDNS e) : Act Store.Zone) :=
    Ensures.ite (fun _ => ensures_throw h.error) fun _ => ensures_throw h.error
  -- PowerDNS refuses only what cannot be created
  have hrefused {e : PDNSErr} (h : (w₀.pdns.createZone p).1 = .error e) : ¬ K := fun hk => by
    obtain ⟨c, hc⟩ := createZone_ok_iff.2 ⟨(hK.1 hk).named, (hK.1 hk).sets, (hK.1 hk).free⟩
    rw [h] at hc
    cases hc
  unfold Zones.Impl.make
  dsimp only
  rw [← hreq]
  refine outage_pdns (fun hv hl => ?_) (fun hv hl => ?_) fun hv => ?_
  · dsimp only [PDNSCall.step]
    rcases hcreate : w₀.pdns.createZone_cases p with ⟨e, h⟩ | ⟨zones, hi, h⟩ <;> rw [hp, h]
    · exact hfail (outcome_early hs rfl fun hk => absurd hk (hrefused (congrArg Prod.fst h)))
    · obtain ⟨hnamed, hall, hzone⟩ := createZone_ok_iff.1 ⟨_, congrArg Prod.fst h⟩
      refine insert_outcome (p := PDNS.Server.newZone p) hs hi rfl ?_ hname.symm hfresh ?_ ?_
      · exact if_neg hnamed.1
      · rw [hK]
        exact ⟨fun h => h.rows, fun h => ⟨hnamed, hall, hzone, h⟩⟩
      · rw [hI]
        simp [hv, hl]
  · dsimp only [PDNSCall.step]
    rcases hcreate : w₀.pdns.createZone_cases p with ⟨e, h⟩ | ⟨zones, hi, h⟩ <;> rw [hp, h]
    · exact hfail (outcome_early hs rfl fun hk => absurd hk (hrefused (congrArg Prod.fst h)))
    · exact hfail (.inr ⟨leftOver_zone hi rfl, fun _ => hI.2 ⟨hv, .inl hl⟩⟩)
  · refine hfail (outcome_early hs hp fun _ => ⟨fun h => ?_, k, .inl hv⟩)
    rw [(hI.1 h).1] at hv
    cases hv

theorem free_outcome {T name : Str} (hs : w.store = w₀.store) (hp : w.pdns = w₀.pdns)
    (hK : K → w₀.store.zoneConflict U T name = false ∧ (∀ y ∈ w₀.store.zones, y.name ≠ name) ∧
      w₀.pdns.zone name = none)
    (hI : I → x.live (k + 3) = true ∧ x.lost (k + 2) = false) :
    Ensures (OutageStep U x) (Reading K I x w₀ fun _ s => s.2 = k + 3 ∧ x.lost (k + 2) = false ∧
      w₀.store.zoneConflict U T name = false) (w, k) (Zones.Impl.free T name) := by
  have hdead {m : ℕ} (hm : m ≤ k + 3) (hv : x.live m = false) : ¬ I ∧ x.Disturbs := by
    refine ⟨fun h => ?_, m, .inl hv⟩
    rw [Outage.dead_of_le hm hv] at hI
    cases (hI h).1
  have hsame {m : ℕ} : AsBefore w₀ (w, m) := ⟨hs, hp⟩
  unfold Zones.Impl.free
  refine outage_look rfl fun r hr => ?_
  cases r with
  | ok z =>
    refine ensures_throw ⟨hsame, fun hk => ?_⟩
    rcases hr with ⟨-, hz⟩ | ⟨-, hz⟩
    · obtain ⟨hmem, -, hname⟩ := Store.getZoneByName_eq_ok.1 hz.symm
      exact absurd hname ((hK hk).2.1 z (hs ▸ hmem))
    · cases hz
  | error e =>
    refine Ensures.ite (fun he => ensures_throw ⟨hsame, fun _ => ?_⟩) fun _ => ?_
    · rcases hr with ⟨-, hz⟩ | ⟨hv, -⟩
      · obtain ⟨rfl, -⟩ := Store.getZoneByName_eq_error hz.symm
        cases he
      · exact hdead (by omega) hv
    -- the conflict check and the look-up in PowerDNS; no call passes after the context has ended
    refine outage_read (fun hv taken htaken => ?_) (fun hv e he => by cases he) fun hv => ?_
    · cases htaken
      refine Ensures.ite (fun ht => ensures_throw ⟨hsame, fun hk => ?_⟩) fun ht => ?_
      · rw [hs, (hK hk).1] at ht
        cases ht
      rw [Bool.not_eq_true, hs] at ht
      refine outage_pdns (fun hv hl => ?_) (fun hv hl => ?_) fun hv => ?_
      · dsimp only [PDNSCall.step, PDNS.Server.getZone]
        cases hz : w.pdns.zone name with
        | some p =>
          refine ensures_throw ⟨hsame, fun hk => ?_⟩
          rw [hp, (hK hk).2.2] at hz
          cases hz
        | none => exact ensures_pure ⟨hsame, rfl, hl, ht⟩
      · refine Ensures.ite (fun _ => ensures_throw ⟨hsame, fun _ => ⟨fun h => ?_, k + 2, .inr hl⟩⟩)
          fun hg => ?_
        · rw [(hI h).2] at hl
          cases hl
        · exact absurd (x.genuine (k + 2)) (by simpa using hg)
      · refine Ensures.ite (fun _ => ensures_throw ⟨hsame, fun _ => hdead (by omega) hv⟩) fun hg =>
          ?_
        exact absurd (x.genuine (k + 2)) (by simpa using hg)
    · exact ⟨hsame, fun _ => hdead (by omega) hv⟩

structure Prepared (C : Config) (subj : Subjects) (i : Zones.CreateInput) (z : Store.Zone) :
    Prop where
  name : Validate.zoneName C.env i.name = .ok z.name
  kind : Zones.kindMasters (toLower C.env.cases (trimSpace i.kind))
    i.masters = .ok (z.kind, z.masters)
  nameservers : Zones.nameservers C z.kind i.nameservers = .ok z.nameservers
  description : Zones.checkDescription (trimSpace i.description) = .ok ()
  origin : Zones.origin subj i.origin = .ok z.origin
  rest : z.tenantID = subj.tenantID ∧ z.pdnsID = z.name ∧ z.dnssec = i.dnssec ∧
    z.templateID = i.templateID

theorem prepare_outcome (hK : K → ∃ z, Prepared C subj i z) (hs : AsBefore w₀ (w, n)) :
    Ensures (OutageStep U x) (Reading K I x w₀ fun z s => s.2 = n ∧ z.id = w.ids w.minted ∧
      Prepared C subj i z)
      (w, n) (Zones.Impl.prepare C subj i) := by
  have hno {e : Err} {s : World × ℕ} (hs : AsBefore w₀ s) (h : ∀ z, ¬ Prepared C subj i z) :
      Reading K I x w₀ (fun z s => s.2 = n ∧ z.id = w.ids w.minted ∧ Prepared C subj i z)
        (.error e : Except Err Store.Zone) s :=
    ⟨hs, fun hk => absurd (hK hk) (not_exists.2 h)⟩
  refine ensures_check (fun name hn => ?_) fun e he => hno hs fun z hz => ?_
  swap
  · rw [hz.name] at he
    cases he
  replace hn := Except.mapError_eq_ok.1 hn
  refine outage_ask rfl rfl ?_
  refine ensures_check (fun km hkm => ?_) fun e he => hno hs fun z hz => ?_
  swap
  · rw [hz.kind] at he
    cases he
  obtain ⟨kind, masters⟩ := km
  have hkind {z : Store.Zone} (hz : Prepared C subj i z) : z.kind = kind := by
    have := hz.kind.symm.trans hkm
    cases this
    rfl
  refine ensures_check (fun ns hns => ?_) fun e he => hno hs fun z hz => ?_
  swap
  · rw [← hkind hz, hz.nameservers] at he
    cases he
  refine ensures_check (fun _ hd => ?_) fun e he => hno hs fun z hz => ?_
  swap
  · rw [hz.description] at he
    cases he
  refine ensures_check (fun origin ho => ?_) fun e he => hno hs fun z hz => ?_
  swap
  · rw [hz.origin] at he
    cases he
  exact ensures_pure ⟨hs, rfl, rfl, hn, hkm, hns, hd, ho, rfl, rfl, rfl, rfl⟩

theorem initialSets_outcome (hz : Prepared C subj i z) (hs : AsBefore w₀ (w, 0))
    (hK : K → ∃ sets, Creation.Sets C subj w₀ z.kind z.name i sets)
    (hI : I → x.live 0 = true) :
    Ensures (OutageStep U x) (Reading K I x w₀ fun sets s => s.1 = w ∧
      s.2 + 3 = (Creation.zone i).reads ∧
      Creation.Sets C subj w₀ z.kind z.name i sets) (w, 0)
        (Zones.Impl.initialSets C z i.rrsets) := by
  obtain ⟨hT, -, -, htpl⟩ := hz.rest
  unfold Zones.Impl.initialSets
  rw [htpl]
  refine Ensures.ite (fun h => ?_) fun h => ?_
  · refine ensures_pure ⟨hs, rfl, ?_, ?_⟩
    · exact (if_pos h).symm
    · rw [Creation.Sets, if_pos h]
  -- a template is asked for
  have hK' (hk : K) : z.kind.needsMasters = false ∧ ∃ l t tpl, C.templates = some l ∧
      w₀.store.getTemplate subj.tenantID i.templateID = .ok t ∧
      Templates.expandRecords C.env l z.name t.records = .ok tpl := by
    obtain ⟨sets, hsets⟩ := hK hk
    rw [Creation.Sets, if_neg h] at hsets
    obtain ⟨hm, l, t, tpl, hl, ht, he, -⟩ := hsets
    exact ⟨hm, l, t, tpl, hl, ht, he⟩
  refine Ensures.ite (fun hm => ensures_throw ⟨hs, fun hk => ?_⟩) fun hm => ?_
  · rw [(hK' hk).1] at hm
    cases hm
  cases hl : C.templates with
  | none =>
    refine ensures_throw ⟨hs, fun hk => ?_⟩
    obtain ⟨-, l, t, tpl, hl', -⟩ := hK' hk
    rw [hl] at hl'
    cases hl'
  | some l =>
    have hexpand : Ensures (OutageStep U x) (Reading K I x w₀ fun tpl s => s.1 = w ∧ s.2 = 1 ∧
        ∃ t, w₀.store.getTemplate subj.tenantID i.templateID = .ok t ∧
          Templates.expandRecords C.env l z.name t.records = .ok tpl) (w, 0)
        (Templates.expand C.env l z.tenantID i.templateID z.name) := by
      refine outage_store (fun hv => ?_) fun hv =>
        ensures_throw ⟨hs, fun _ => ⟨fun h => ?_, 0, .inl hv⟩⟩
      · dsimp only [StoreCall.step]
        rw [hT]
        have hstore : w.store = w₀.store := hs.1
        cases ht : w.store.getTemplate subj.tenantID i.templateID with
        | error e =>
          refine ensures_throw ⟨hs, fun hk => ?_⟩
          obtain ⟨-, _, t, _, -, ht', -⟩ := hK' hk
          rw [← hstore, ht] at ht'
          cases ht'
        | ok t =>
          rw [hstore] at ht
          cases he : Templates.expandRecords C.env l z.name t.records with
          | ok tpl =>
            dsimp only
            rw [he]
            exact ensures_ofExcept ⟨hs, rfl, rfl, t, ht, he⟩
          | error e =>
            dsimp only
            rw [he]
            refine ensures_ofExcept ⟨hs, fun hk => ?_⟩
            obtain ⟨-, _, _, _, hl', ht', he'⟩ := hK' hk
            rw [ht] at ht'
            rw [hl] at hl'
            cases ht'
            cases hl'
            rw [he] at he'
            cases he'
      · rw [hI h] at hv
        cases hv
    refine hexpand.bind (fun tpl s htpl => ensures_pure ?_) fun e s he => he
    obtain ⟨hs', hw, hn, t, ht, he⟩ := htpl
    refine ⟨hs', hw, ?_, ?_⟩
    · rw [hn, Creation.reads, if_neg h]
    · rw [Creation.Sets, if_neg h]
      exact ⟨by simpa using hm, l, t, tpl, hl, ht, he, rfl⟩

theorem sets_unique {kind : Store.Kind} {name : Str}
    {sets sets' : List PDNS.RRset} (h : Creation.Sets C subj w kind name i sets)
    (h' : Creation.Sets C subj w kind name i sets') : sets = sets' := by
  unfold Creation.Sets at h h'
  split_ifs at h h'
  · exact h.trans h'.symm
  · obtain ⟨-, l, t, tpl, hl, ht, he, rfl⟩ := h
    obtain ⟨-, l', t', tpl', hl', ht', he', rfl⟩ := h'
    rw [hl] at hl'
    cases hl'
    rw [ht] at ht'
    cases ht'
    rw [he] at he'
    cases he'
    rfl

theorem creatable_zone :
    (Creation.zone i).Creatable C subj w ↔ Zones.guard C subj .zonesManage = .ok () ∧
      ∃ z sets, Prepared C subj i z ∧ Creation.Sets C subj w z.kind z.name i sets ∧
        w.store.zoneConflict C.env.cases subj.tenantID z.name = false ∧
        Creation.Placeable w (Creation.request C subj z.name z.kind z.masters z.nameservers
          i sets) := by
  refine and_congr_right fun _ => ⟨?_, ?_⟩
  · rintro ⟨name, kind, masters, ns, origin, sets, hn, hk, hns, hd, ho, h⟩
    exact ⟨⟨[], subj.tenantID, name, name, kind, masters, i.dnssec, [], i.templateID, origin,
      ns, [], 0, 0⟩,
      sets, ⟨hn, hk, hns, hd, ho, rfl, rfl, rfl, rfl⟩, h⟩
  · rintro ⟨z, sets, hz, h⟩
    exact ⟨z.name, z.kind, z.masters, z.nameservers, z.origin, sets, hz.name, hz.kind,
      hz.nameservers,
      hz.description, hz.origin, h⟩

theorem Prepared.unique {z' : Store.Zone}
    (h : Prepared C subj i z) (h' : Prepared C subj i z') :
    z'.name = z.name ∧ z'.kind = z.kind ∧ z'.masters = z.masters ∧
    z'.nameservers = z.nameservers := by
  have hname := h'.name.symm.trans h.name
  have hkind := h'.kind.symm.trans h.kind
  have hns := h'.nameservers
  simp only [Except.ok.injEq, Prod.mk.injEq] at hname hkind
  rw [hkind.1, h.nameservers] at hns
  exact ⟨hname, hkind.1, hkind.2, (Except.ok.inj hns).symm⟩

theorem zone_outcome (subj : Subjects) (i : Zones.CreateInput) (hfresh : Unminted w) :
    Ensures (OutageStep C.env.cases x)
      (Outcome ((Creation.zone i).Creatable C subj w) ((Creation.zone i).Interrupted x) x w)
      (w, 0) (Zones.create C subj i) := by
  have hw : AsBefore w (w, 0) := ⟨rfl, rfl⟩
  refine ensures_check (fun _ hguard => ?_) fun e he => outcome_early rfl rfl fun hk => ?_
  swap
  · rw [hk.1] at he
    cases he
  have himpl : Ensures (OutageStep C.env.cases x)
      (Outcome ((Creation.zone i).Creatable C subj w) ((Creation.zone i).Interrupted x) x w)
      (w, 0) (Zones.Impl.create C subj i) := by
    refine reading_outcome (prepare_outcome (fun hk => ?_) hw) fun z s hs hz => ?_
    · obtain ⟨-, z, -, hz, -⟩ := creatable_zone.1 hk
      exact ⟨z, hz⟩
    obtain ⟨w', n⟩ := s
    obtain ⟨rfl, hid, hz⟩ := hz
    -- the creation is possible if the rest of its conditions hold for the row
    have hK : (Creation.zone i).Creatable C subj w ↔
        ∃ sets, Creation.Sets C subj w z.kind z.name i sets ∧
        w.store.zoneConflict C.env.cases subj.tenantID z.name = false ∧
        Creation.Placeable w (Creation.request C subj z.name z.kind z.masters z.nameservers
          i sets) := by
      rw [creatable_zone]
      constructor
      · rintro ⟨-, z', sets, hz', h⟩
        obtain ⟨h1, h2, h3, h4⟩ := hz.unique hz'
        rw [h1, h2, h3, h4] at h
        exact ⟨sets, h⟩
      · rintro ⟨sets, h⟩
        exact ⟨hguard, z, sets, hz, h⟩
    refine reading_outcome (initialSets_outcome hz hs (fun hk => ?_) fun hi => ?_)
      fun sets s hs hsets => ?_
    · obtain ⟨sets, h, -⟩ := hK.1 hk
      exact ⟨sets, h⟩
    · by_contra h0
      have hdead : x.live (Creation.zone i).reads = false :=
        Outage.dead_of_le (Nat.zero_le _) (Bool.eq_false_of_not_eq_true h0)
      rw [hi.1] at hdead
      cases hdead
    obtain ⟨w'', b⟩ := s
    obtain ⟨rfl, hb, hsets⟩ := hsets
    replace hK : (Creation.zone i).Creatable C subj w ↔
        w.store.zoneConflict C.env.cases subj.tenantID z.name = false ∧
        Creation.Placeable w (Creation.request C subj z.name z.kind z.masters z.nameservers
          i sets) := by
      rw [hK]
      constructor
      · rintro ⟨sets', hsets', h⟩
        rw [sets_unique hsets hsets']
        exact h
      · exact fun h => ⟨sets, hsets, h⟩
    have hI : (Creation.zone i).Interrupted x ↔ x.live (b + 3) = true ∧ x.lost (b + 2) = false ∧
        (x.lost (b + 3) = true ∨ x.live (b + 3 + 1) = false) := by
      rw [Creation.Interrupted, ← hb]
      simp
    rw [hz.rest.1]
    refine reading_outcome (free_outcome hs.1 hs.2 (fun hk => ?_) fun hi => ?_) fun _ s hs hfree =>
      ?_
    · have h := hK.1 hk
      exact ⟨h.1, fun y hy => (h.2.rows y hy).1, h.2.free⟩
    · exact ⟨(hI.1 hi).1, (hI.1 hi).2.1⟩
    obtain ⟨w'', k⟩ := s
    obtain ⟨rfl, hl, hconflict⟩ := hfree
    refine make_outcome (p := Creation.request C subj z.name z.kind z.masters z.nameservers i sets)
      hs.1 hs.2
      ?_ (fun y hy => ?_) ?_ ?_
    · rw [hz.rest.1, hz.rest.2.2.1]
      rfl
    · rw [hid]
      exact (hfresh _ le_rfl).1 y hy
    · rw [hK]
      exact and_iff_right hconflict
    · rw [hI]
      simp [hl]
  refine himpl.bind (fun z s h => ?_) fun e s h => h.error
  unfold Zones.syncForward
  split
  · exact ensures_pure h
  · exact Ensures.bind (Q := fun r _ => r = .ok ()) (ensures_ignore fun s => ensures_pure rfl)
      (fun _ s _ => ensures_pure h) fun e s h => by cases h

/-! ## Supermasters -/

theorem leftOver_supermaster {m : PDNS.Supermaster} {entries : Table PDNS.Supermaster}
    (hi : w₀.pdns.supermasters.insert m = some entries)
    (hp : w.pdns = { w₀.pdns with supermasters := entries }) : LeftOver w₀ w := by
  refine .inr ⟨m, ?_, fun hm => ?_⟩
  · rw [hp]
    exact (Table.mem_insert hi).2 (.inr rfl)
  · have := Table.noClash_of_insert hi hm
    simp [Keyed.clash] at this

theorem insertSupermaster_outcome {m : Store.Supermaster} {entries : Table PDNS.Supermaster}
    (hs : w.store = w₀.store) (hi : w₀.pdns.supermasters.insert
      (Supermasters.entry m) = some entries)
    (hp : w.pdns = { w₀.pdns with supermasters := entries })
    (hfresh : ∀ y ∈ w₀.store.supermasters, y.id ≠ m.id)
    (hK : K ↔ ∃ row, Store.canonIP m.ip = some row ∧
      ∀ y ∈ w₀.store.supermasters, ¬ (y.ip = row ∧ y.nameserver = m.nameserver))
    (hI : I ↔ x.live n = false) :
    Ensures (OutageStep U x) (Outcome K I x w₀) (w, n) (Supermasters.Impl.insert m) := by
  have hundo {e : Err} {k : ℕ} (hKI : K → I) (hdead : ¬ K ∨ x.live k = false) :
      Ensures (OutageStep U x) (Outcome K I x w₀) (w, k) (do
        let _ ← (Act.pdns (.deleteSupermaster (Supermasters.entry m).ip
          (Supermasters.entry m).nameserver)).attempt
        throw e : Act Store.Supermaster) := by
    have hback {k' : ℕ} (hv : x.live k = true) :
        Outcome K I x w₀ (.error e : Except Err Store.Supermaster)
          ({ w with pdns := (w.pdns.deleteSupermaster (Supermasters.entry m).ip
            (Supermasters.entry m).nameserver).2 }, k') := by
      have hk : ¬ K := hdead.resolve_right (by rw [hv]; exact Bool.noConfusion)
      rw [hp]
      refine .inl ⟨⟨hs, fun id => ?_, deleteSupermaster_insert hi⟩, fun h => absurd h hk⟩
      dsimp only [PDNS.Server.deleteSupermaster]
      split <;> rfl
    refine outage_pdns (fun hv _ => ensures_throw (hback hv)) (fun hv _ => ensures_throw (hback hv))
      fun _ => ?_
    exact ensures_throw (.inr ⟨leftOver_supermaster hi hp, hKI⟩)
  refine outage_store (fun hv => ?_) fun hv => hundo (fun _ => hI.2 hv) (.inr (Outage.dead_succ hv))
  have hnotI : ¬ I := by rw [hI, hv]; exact Bool.noConfusion
  dsimp only [StoreCall.step, Store.createSupermaster]
  cases hrow : Store.canonIP m.ip with
  | none =>
    have hk : ¬ K := fun hk => by
      obtain ⟨row, h, -⟩ := hK.1 hk
      rw [hrow] at h
      cases h
    exact hundo (fun h => absurd h hk) (.inl hk)
  | some row =>
    dsimp only
    split
    · next hn =>
      have hk : ¬ K := fun hk => by
        obtain ⟨row', h, hfree⟩ := hK.1 hk
        rw [hrow] at h
        cases h
        obtain ⟨y, hy, hc⟩ := Table.insert_eq_none.1 hn
        rw [hs] at hy
        simp only [Keyed.clash, Bool.or_eq_true, Bool.and_eq_true, beq_iff_eq] at hc
        exact hc.elim (hfresh y hy) (hfree y hy)
      exact hundo (fun h => absurd h hk) (.inl hk)
    · next rows hr =>
      refine ensures_pure ⟨hK.2 ⟨row, hrow, fun y hy hc => ?_⟩, hnotI⟩
      rw [← hs] at hy
      have := Table.noClash_of_insert hr hy
      simp [Keyed.clash, hc] at this

theorem supermaster_outcome (subj : Subjects) (i : Supermasters.Input) (hfresh : Unminted w) :
    Ensures (OutageStep U x)
      (Outcome ((Creation.supermaster i).Creatable C subj w)
        ((Creation.supermaster i).Interrupted x) x w)
      (w, 0) (Supermasters.create C subj i) := by
  refine outage_ask rfl rfl (outage_ask rfl rfl ?_)
  unfold Supermasters.Impl.create
  refine ensures_check (fun m hm => ?_) fun e he => outcome_early rfl rfl fun hk => ?_
  · -- the row is valid
    simp only [Supermasters.Impl.prepare, Except.bind_eq_ok, Except.mapError_eq_ok] at hm
    obtain ⟨_, hguard, ip, hip, ns, hns, hrow⟩ := hm
    cases hrow
    have hI : (Creation.supermaster i).Interrupted x ↔
        x.live 0 = true ∧ (x.lost 0 = true ∨ x.live 1 = false) := by
      simp [Creation.Interrupted, Creation.reads]
    have hK : (Creation.supermaster i).Creatable C subj w ↔
        (∀ m ∈ w.pdns.supermasters, ¬ (m.ip = ip.toStr ∧ m.nameserver = Supermasters.pdnsName ns)) ∧
        ∃ row, Store.canonIP ip.toStr = some row ∧
          ∀ m ∈ w.store.supermasters, ¬ (m.ip = row ∧ m.nameserver = ns) := by
      constructor
      · rintro ⟨-, ip', ns', row, hip', hns', h⟩
        cases hip.symm.trans hip'
        cases hns.symm.trans hns'
        exact ⟨h.1, row, h.2⟩
      · rintro ⟨h, row, h'⟩
        exact ⟨hguard, ip, ns, row, hip, hns, h, h'⟩
    refine outage_pdns (fun hv hl => ?_) (fun hv hl => ?_) fun hv => ?_
    · dsimp only [PDNSCall.step, PDNS.Server.createSupermaster]
      split
      · next hn =>
        refine ensures_throw (outcome_early rfl rfl fun hk => ?_)
        obtain ⟨y, hy, hc⟩ := Table.insert_eq_none.1 hn
        simp only [Keyed.clash, Bool.and_eq_true, beq_iff_eq] at hc
        exact absurd hc ((hK.1 hk).1 y hy)
      · next entries hi =>
        refine insertSupermaster_outcome rfl hi rfl (fun y hy => (hfresh _ le_rfl).2 y hy) ?_ ?_
        · rw [hK]
          refine and_iff_right fun y hy hc => ?_
          have := Table.noClash_of_insert hi hy
          simp [Keyed.clash, Supermasters.entry, hc] at this
        · rw [hI]
          simp [hv, hl]
    · dsimp only [PDNSCall.step, PDNS.Server.createSupermaster]
      split
      · next hn =>
        refine ensures_throw (outcome_early rfl rfl fun hk => ?_)
        obtain ⟨y, hy, hc⟩ := Table.insert_eq_none.1 hn
        simp only [Keyed.clash, Bool.and_eq_true, beq_iff_eq] at hc
        exact absurd hc ((hK.1 hk).1 y hy)
      · next entries hi =>
        exact ensures_throw (.inr ⟨leftOver_supermaster hi rfl, fun _ => hI.2 ⟨hv, .inl hl⟩⟩)
    · refine ensures_throw (outcome_early rfl rfl fun _ => ⟨fun h => ?_, 0, .inl hv⟩)
      rw [(hI.1 h).1] at hv
      cases hv
  · obtain ⟨hguard, ip, ns, _, hip, hns, -⟩ := hk
    rw [Supermasters.Impl.prepare, hguard, hip, hns] at he
    cases he

/-! ## Recovery -/

theorem act_outcome (subj : Subjects) (c : Creation) (hfresh : Unminted w) :
    Ensures (OutageStep C.env.cases x) (Outcome (c.Creatable C subj w) (c.Interrupted x) x w) (w, 0)
      (c.act C subj) := by
  cases c with
  | zone i => exact (zone_outcome subj i hfresh).bind (fun _ _ h => ensures_pure h) fun _ _ h =>
    h.error
  | supermaster i =>
    exact (supermaster_outcome subj i hfresh).bind (fun _ _ h => ensures_pure h) fun _ _ h =>
      h.error

theorem exec_outcome (C : Config) (x : Outage) (subj : Subjects) (c : Creation)
    (hfresh : Unminted w) :
    Outcome (c.Creatable C subj w) (c.Interrupted x) x w
      (exec (faulty C.env.cases x.plan) (c.act C subj) (w, 0)).1
      (exec (faulty C.env.cases x.plan) (c.act C subj) (w, 0)).2 :=
  Ensures.exec (π := id) (fun _ _ => rfl) (act_outcome subj c hfresh)

theorem minted_kept (p : Act α) (s : World × ℕ) :
    (exec (faulty U x.plan) p s).2.1.ids = s.1.ids ∧
    s.1.minted ≤ (exec (faulty U x.plan) p s).2.1.minted := by
  have hstep (o : Op) (s₁ : World × ℕ) (r : Res o) (s₂ : World × ℕ)
      (h : s₁.1.ids = s.1.ids ∧ s.1.minted ≤ s₁.1.minted) (hr : OutageStep U x o s₁ r s₂) :
      s₂.1.ids = s.1.ids ∧ s.1.minted ≤ s₂.1.minted := by
    have hw : s₂ = (faulty U x.plan o s₁).2 := congrArg Prod.snd hr
    have hhandler : (handler U o s₁.1).2.ids = s₁.1.ids ∧
        s₁.1.minted ≤ (handler U o s₁.1).2.minted := by
      cases o <;> simp [handler]
    rw [hw]
    have hstate : (faulty U x.plan o s₁).2.1 = s₁.1 ∨
        (faulty U x.plan o s₁).2.1 = (handler U o s₁.1).2 :=
      disturb_state s₁
    rcases hstate with hd | hd <;> rw [hd]
    · exact h
    · exact ⟨hhandler.1.trans h.1, h.2.trans hhandler.2⟩
  exact Ensures.exec (π := id) (fun o t => rfl) (keeps_all hstep p s ⟨rfl, le_rfl⟩)

theorem Unchanged.creatable {c : Creation} (h : Unchanged w₀ w) :
    c.Creatable C subj w ↔ c.Creatable C subj w₀ := by
  have hsets {kind : Store.Kind} {name : Str} {i : Zones.CreateInput} {sets : List PDNS.RRset} :
      Creation.Sets C subj w kind name i sets ↔ Creation.Sets C subj w₀ kind name i sets := by
    rw [Creation.Sets, Creation.Sets, h.store]
  have hplace {p : PDNS.Zone} : Creation.Placeable w p ↔ Creation.Placeable w₀ p := by
    constructor
    · exact fun hp => ⟨hp.named, hp.sets, (h.zones _).symm.trans hp.free, h.store ▸ hp.rows⟩
    · exact fun hp => ⟨hp.named, hp.sets, (h.zones _).trans hp.free, h.store ▸ hp.rows⟩
  cases c with
  | zone i => simp only [Creation.Creatable, h.store, hsets, hplace]
  | supermaster i => simp only [Creation.Creatable, h.store, h.supermasters]

theorem healthy_ok_iff (C : Config) (subj : Subjects) (c : Creation) (hfresh : Unminted w) :
    (exec (handler C.env.cases) (c.act C subj) w).1 = .ok () ↔ c.Creatable C subj w := by
  have hrun : (exec (faulty C.env.cases Outage.none.plan) (c.act C subj) (w, 0)).1 =
      (exec (handler C.env.cases) (c.act C subj) w).1 := by
    refine (run_disturb_done _ fun m o _ => ?_).1
    cases o <;> rfl
  have hcalm : ¬ Outage.none.Disturbs := by
    rintro ⟨n, h | h⟩ <;> cases h
  have h := exec_outcome C .none subj c hfresh
  rw [← hrun]
  cases hr : (exec (faulty C.env.cases Outage.none.plan) (c.act C subj) (w, 0)).1 with
  | ok u =>
    rw [hr] at h
    exact ⟨fun _ => h.1, fun _ => rfl⟩
  | error e =>
    rw [hr] at h
    refine ⟨fun hok => (by cases hok), fun hk => ?_⟩
    rcases h with ⟨-, h⟩ | ⟨-, h⟩
    · exact absurd (h hk).2 hcalm
    · obtain ⟨-, -, hl | hl⟩ := h hk <;> cases hl

/-- **When a failed creation leaves nothing behind and can be repeated.**  Exactly if it was
    possible in the first place, and the outage does not fall between PowerDNS and the row. -/
theorem creation_recovers_iff (C : Config) (subj : Subjects) (w : World) (hfresh : Unminted w)
    (x : Outage)
    (c : Creation) : c.Recovers C subj w x ↔ c.Creatable C subj w ∧ ¬ c.Interrupted x := by
  have h := exec_outcome C x subj c hfresh
  have hids := minted_kept (U := C.env.cases) (x := x) (c.act C subj) (w, 0)
  unfold Creation.Recovers
  dsimp only at h hids ⊢
  generalize exec (faulty C.env.cases x.plan) (c.act C subj) (w, 0) = r at h hids ⊢
  obtain ⟨r, w', n⟩ := r
  cases r with
  | ok u => exact ⟨fun _ => h, fun _ e he => (by cases he)⟩
  | error e =>
    rcases h with ⟨hsame, hK⟩ | ⟨hleft, hK⟩
    · -- nothing was left: the repetition decides
      have hfresh' : Unminted w' := fun n hn => by
        rw [hsame.store, hids.1]
        exact hfresh n (hids.2.trans hn)
      have hagain := (healthy_ok_iff C subj c hfresh').trans hsame.creatable
      constructor
      · intro hrec
        have hk := hagain.1 (hrec e rfl).2.2
        exact ⟨hk, (hK hk).1⟩
      · rintro ⟨hk, -⟩ _ -
        exact ⟨fun id hid => (hsame.zones id).trans hid, fun m hm => (hsame.supermasters m).1 hm,
          hagain.2 hk⟩
    · refine ⟨fun hrec => ?_, fun ⟨hk, hi⟩ => absurd (hK hk) hi⟩
      obtain ⟨hzones, hentries, -⟩ := hrec e rfl
      rcases hleft with ⟨id, h0, h1⟩ | ⟨m, hm, h0⟩
      · exact absurd (hzones id h0) h1
      · exact absurd (hentries m hm) h0

/-- The sample zone and a supermaster, in the store and in PowerDNS. -/
def servedWorld : World :=
  { Records.sampleWorld with
    store := { Records.sampleWorld.store with
      supermasters := ⟨[⟨str "m", str "t", str "192.0.2.1", str "ns.example.org", str "u", 1⟩],
        List.pairwise_singleton _ _⟩ }
    pdns := { Records.sampleWorld.pdns with
      supermasters := ⟨[⟨str "192.0.2.1", str "ns.example.org.", str "t"⟩],
        List.pairwise_singleton _ _⟩ } }

/-- The caller is cancelled before PowerDNS is asked for a second zone: the creation fails, and can
    be repeated. -/
theorem creation_recovers_cancelled :
    let x : Outage := ⟨fun n => decide (n < 3), fun _ => false,
      fun _ => ⟨.repoFailed, .plain .unavailable, none, .ipamFailed⟩,
      fun _ h => decide_eq_true (Nat.lt_of_succ_lt (of_decide_eq_true h)), fun _ => rfl⟩
    let c : Creation := .zone ⟨str "example.net", str "native", [], [], false, [], [], [], []⟩
    Unminted servedWorld ∧
      (exec (faulty Config.sample.env.cases x.plan) (c.act .sample (.internal (str "t")))
        (servedWorld, 0)).1 = .error (.pdns (.plain .unavailable)) ∧
      c.Recovers .sample (.internal (str "t")) servedWorld x := by
  intro x c
  have fresh {id : Str} (hid : (105 : UInt8) ∉ id) (n : ℕ) : id ≠ servedWorld.ids n := by
    rintro rfl
    exact hid (List.mem_replicate.2 ⟨n.succ_ne_zero, rfl⟩)
  have hfresh : Unminted servedWorld := fun n _ =>
    ⟨fun z hz => List.mem_singleton.1 hz ▸ fresh (by decide) n,
      fun m hm => List.mem_singleton.1 hm ▸ fresh (by decide) n⟩
  refine ⟨hfresh, by decide +kernel, (creation_recovers_iff .sample _ servedWorld hfresh x c).2
    ⟨?_, ?_⟩⟩
  · exact (healthy_ok_iff _ _ _ hfresh).1 (by decide +kernel)
  · rintro ⟨h, -⟩
    cases h

/-- The caller is cancelled after PowerDNS has made the zone: neither the row nor the compensation
    is written, the zone stays, and the repetition finds it in the way. -/
theorem orphaned :
    ¬ (Creation.zone ⟨str "example.com", str "native", [], [], false, [], [], [], []⟩).Recovers
      .sample
      (.internal (str "t")) .empty
      ⟨fun n => decide (n < 4), fun _ => false,
        fun _ => ⟨.repoFailed, .plain .unavailable, none, .ipamFailed⟩,
        fun _ h => decide_eq_true (Nat.lt_of_succ_lt (of_decide_eq_true h)), fun _ => rfl⟩ := by
  intro h
  have hgone := (h .repoFailed rfl).1 (str "example.com.") rfl
  cases hgone

end TangraDns
