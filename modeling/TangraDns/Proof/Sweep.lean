/-
  What the sweeper removes, and when.
-/
import TangraDns.ChallengeRuns
import TangraDns.Proof.Challenges

namespace TangraDns.Challenges

open List Str Validate Records Prog Prog.Failing PDNS

variable {C : Config} {w w' : World} {subj : Subjects} {z z' : Store.Zone}
  {fqdn fqdn' value value' : Str}
  {shaky lossy : Prop} {c : Store.Challenge} {pz : PDNS.Zone} {rr : RRset}
variable {sets : List RRset} {s : Log} {S : Store} {T : Str}
variable {r : Except Err Unit}

/-! ## Rows -/

theorem mem_deleteChallenge :
    c ∈ (S.deleteChallenge T fqdn value).2.challenges ↔ c ∈ S.challenges ∧
    ¬ Books c T fqdn value := by
  have hhit : (c.tenantID == T && c.fqdn == fqdn && c.value == value) = true ↔
      Books c T fqdn value := by
    simp only [Bool.and_eq_true, beq_iff_eq, Books, and_assoc]
  unfold Store.deleteChallenge
  dsimp only
  split
  · next hnone =>
    refine ⟨fun hc => ⟨hc, fun hb => ?_⟩, And.left⟩
    have := Table.find_eq_none.1 hnone c hc
    rw [hhit.2 hb] at this
    cases this
  · rw [Table.mem_filter, Bool.not_eq_true', ← Bool.not_eq_true, hhit]

theorem mem_insertChallenge {now : ℕ} {x : Store.Challenge}
    (h : c ∈ (S.insertChallenge now x).2.challenges) :
    c ∈ S.challenges ∨ c = { x with createdAt := Store.orNow x.createdAt now } := by
  unfold Store.insertChallenge at h
  split at h
  · exact .inl h
  · split at h
    · exact .inl h
    · next hi => exact (Table.mem_insert hi).1 h

/-! ## Sets -/

theorem carries_iff : Carries C w z fqdn value ↔
    ∃ pz, w.pdns.zone z.pdnsID = some pz ∧ Holds C pz.rrsets fqdn value := by
  unfold Carries textSet
  cases w.pdns.zone z.pdnsID with
  | none =>
    constructor
    · exact fun h => absurd h not_mem_nil
    · rintro ⟨pz, ⟨⟩, -⟩
  | some pz =>
    constructor
    · exact fun h => ⟨pz, rfl, h⟩
    · rintro ⟨_, ⟨⟩, h⟩
      exact h

theorem patch_zone_one (hz : w.pdns.zone z.pdnsID = some pz) (hok : changeOK pz.name rr = true) :
    (w.patch z.pdnsID [rr]).pdns.zone z.pdnsID =
      some { pz with rrsets := applyChange pz.rrsets rr, serial := pz.serial + 1 } :=
  World.patch_zone hz (by simpa using hok)

theorem Tidy.patch (h : Tidy w) (hz : w.pdns.zone z.pdnsID = some pz)
    (hok : changeOK pz.name rr = true)
    (hsets : CaseNormal (applyChange pz.rrsets rr)) : Tidy (w.patch z.pdnsID [rr]) := by
  intro id pz' hz'
  by_cases hid : id = z.pdnsID
  · subst hid
    rw [patch_zone_one hz hok] at hz'
    cases hz'
    exact hsets
  · rw [World.patch_zone_of_ne hid] at hz'
    exact h id pz' hz'

theorem Tidy.write (h : Tidy w) {i : RecordSetInput} {existing : List RRset}
    (hz : w.pdns.zone z.pdnsID = some pz)
    (hrr : C.limits.recordSet C.env z.name i existing = .ok rr)
    (hok : changeOK pz.name rr = true) : Tidy (w.patch z.pdnsID [rr]) := by
  obtain ⟨hc, hne, hcom⟩ := recordSet_replaces hrr
  exact h.patch hz hok ((h _ pz hz).replace (recordSet_normal hrr) hc hne hcom)

theorem Tidy.delete (h : Tidy w) {n t : Str} (hz : w.pdns.zone z.pdnsID = some pz)
    (hok : changeOK pz.name (deletion n t) = true) : Tidy (w.patch z.pdnsID [deletion n t]) := by
  refine h.patch hz hok ?_
  rw [deletion, applyChange_delete]
  exact (h _ pz hz).without

theorem carries_patch (hz : w.pdns.zone z.pdnsID = some pz) (hok : changeOK pz.name rr = true)
    (hid : z'.pdnsID = z.pdnsID) :
    Carries C (w.patch z.pdnsID [rr]) z' fqdn value ↔
    Holds C (applyChange pz.rrsets rr) fqdn value := by
  rw [carries_iff, hid, patch_zone_one hz hok]
  constructor
  · rintro ⟨_, ⟨⟩, h⟩
    exact h
  · exact fun h => ⟨_, rfl, h⟩

theorem Holds.congr {sets' : List RRset}
    (hset : setAt C sets' fqdn (str "TXT") = setAt C sets fqdn (str "TXT"))
    (h : Holds C sets fqdn value) : Holds C sets' fqdn value := by
  rwa [Holds, valuesAt, hset]

theorem holds_written {r : RRset} (hsets : CaseNormal sets)
    (hrr : C.limits.recordSet C.env z.name (rest C r fqdn value) sets = .ok rr)
    (hname : Name C fqdn)
    (hne : value' ≠ value) (hv : valueOK value' = true)
    (hmem : quoted value' ∈ r.records.map Record.content) :
    Holds C (applyChange sets rr) fqdn value' := by
  obtain ⟨hc, hnil, hcom⟩ := recordSet_replaces hrr
  obtain ⟨hlow, hup⟩ := recordSet_normal hrr
  obtain ⟨zone, t, n, records, hzone, hvalid, hcanon, -, rfl⟩ := recordSet_eq_ok.1 hrr
  obtain rfl : n = fqdn := (hname.recordName_eq hvalid.name).1
  obtain rfl : t = str "TXT" := (editableType_spec hvalid.type).1.trans upper_txt
  have hset := setAt_applyChange (C := C) (hsets.exact hlow hup) hc hnil hcom
  refine (holds_iff hset).2 ?_
  -- the value is its own canonical form
  obtain ⟨x, hx, hxv⟩ := List.mem_map.1 ((mem_others_iff hne).2 hmem)
  obtain ⟨y, hy, hxy, -⟩ := forall₂_mem_right hcanon.flip
    (mem_map_of_mem (f := fun x : Record => (⟨x.content, x.disabled⟩ : RecordValue)) hx)
  refine List.mem_map.2 ⟨y, hy, ?_⟩
  rw [hxv, content_quoted (canonicalZone_spec hzone).plainName hv] at hxy
  exact (Except.ok.inj hxy).symm

theorem recordSet_rest_name {r : RRset}
    (hrr : C.limits.recordSet C.env z.name (rest C r fqdn value) sets = .ok rr)
    (hname : Name C fqdn) :
    rr.name = fqdn := by
  obtain ⟨zone, t, n, records, hzone, hvalid, -, -, rfl⟩ := recordSet_eq_ok.1 hrr
  exact (hname.recordName_eq hvalid.name).1

theorem recordSet_rest_type {r : RRset}
    (hrr : C.limits.recordSet C.env z.name (rest C r fqdn value) sets = .ok rr) :
    rr.type = str "TXT" := by
  obtain ⟨zone, t, n, records, hzone, hvalid, -, -, rfl⟩ := recordSet_eq_ok.1 hrr
  exact (editableType_spec hvalid.type).1.trans upper_txt

theorem Dropped.elsewhere {n t : Str} (h : Dropped C w subj z fqdn value shaky lossy r w')
    (htidy : Tidy w) (hname : Name C fqdn) (hn : IsLowerStr n) (ht : IsUpperStr t)
    (hne : ¬ (z'.pdnsID = z.pdnsID ∧ n = fqdn ∧ t = str "TXT"))
    (hz : w.pdns.zone z'.pdnsID = some pz) :
    ∃ pz', w'.pdns.zone z'.pdnsID = some pz' ∧ pz'.name = pz.name ∧
      setAt C pz'.rrsets n t = setAt C pz.rrsets n t := by
  cases h with
  | failed | absent => exact ⟨pz, hz, rfl, rfl⟩
  | @emptied pz₀ n₀ r hread hr _ hnil hok =>
    obtain rfl := (hname.recordName_eq hread.name).1
    by_cases hid : z'.pdnsID = z.pdnsID
    · cases (hid ▸ hread.zone).symm.trans hz
      rw [hid, patch_zone_one hread.zone hok]
      refine ⟨_, rfl, rfl, ?_⟩
      rw [deletion, applyChange_delete]
      exact setAt_without_of_ne (htidy _ _ hread.zone) hn ht fun h => hne ⟨hid, h⟩
    · exact ⟨pz, by rw [World.patch_zone_of_ne hid, hz], rfl, rfl⟩
  | @rewritten pz₀ n₀ r rr hread hr _ hne' hrr hok =>
    obtain rfl := (hname.recordName_eq hread.name).1
    by_cases hid : z'.pdnsID = z.pdnsID
    · cases (hid ▸ hread.zone).symm.trans hz
      rw [hid, patch_zone_one hread.zone hok]
      obtain ⟨hc, hnil, hcom⟩ := recordSet_replaces hrr
      refine ⟨_, rfl, rfl, ?_⟩
      refine setAt_applyChange_of_ne (htidy _ _ hread.zone) hn ht (recordSet_normal hrr) hc hnil
        hcom fun h => ?_
      rw [recordSet_rest_name hrr hname, recordSet_rest_type hrr] at h
      exact hne ⟨hid, h⟩
    · exact ⟨pz, by rw [World.patch_zone_of_ne hid, hz], rfl, rfl⟩

theorem Dropped.spares (h : Dropped C w subj z fqdn value shaky lossy r w') (htidy : Tidy w)
    (hname : Name C fqdn) (hlow : IsLowerStr fqdn') (hv : valueOK value' = true)
    (hc : Carries C w z' fqdn' value') :
    Carries C w' z' fqdn' value' ∨ z'.pdnsID = z.pdnsID ∧ fqdn' = fqdn ∧ value' = value := by
  have hup : IsUpperStr (str "TXT") := by decide
  obtain ⟨pz, hz, hold⟩ := carries_iff.1 hc
  by_cases hsame : z'.pdnsID = z.pdnsID ∧ fqdn' = fqdn
  · obtain ⟨hid, rfl⟩ := hsame
    by_cases hvalue : value' = value
    · exact .inr ⟨hid, rfl, hvalue⟩
    left
    cases h with
    | failed | absent => exact hc
    | @emptied pz' n r hread hr _ hnil hok =>
      obtain rfl := (hname.recordName_eq hread.name).1
      cases (hid ▸ hread.zone).symm.trans hz
      have hmem := (mem_others_iff hvalue).2 ((holds_iff hr).1 hold)
      rw [hnil] at hmem
      cases hmem
    | @rewritten pz' n r rr hread hr _ hne hrr hok =>
      obtain rfl := (hname.recordName_eq hread.name).1
      cases (hid ▸ hread.zone).symm.trans hz
      exact (carries_patch hread.zone hok hid).2
        (holds_written (htidy _ _ hread.zone) hrr hname hvalue hv ((holds_iff hr).1 hold))
  · obtain ⟨pz', hz', -, hset⟩ := h.elsewhere htidy hname hlow hup (fun h => hsame ⟨h.1, h.2.1⟩) hz
    exact .inl (carries_iff.2 ⟨pz', hz', hold.congr hset⟩)

theorem Dropped.tidy (h : Dropped C w subj z fqdn value shaky lossy r w') (htidy : Tidy w) :
    Tidy w' := by
  cases h with
  | failed | absent => exact htidy
  | emptied hread _ _ _ hok => exact htidy.delete hread.zone hok
  | rewritten hread _ _ _ hrr hok => exact htidy.write hread.zone hrr hok

/-! ## One row -/

inductive Tried (C : Config) (w : World) (c : Store.Challenge) (shaky lossy : Prop) :
    Except Err Bool → World → Prop
  | forbidden (h : c.tenantID = []) : Tried C w c shaky lossy (.ok false) w
  | forgotten (h : w.store.zone c.tenantID c.zoneID = none) :
      Tried C w c shaky lossy (.ok false) (unbooked c.tenantID c.fqdn c.value w)
  | kept {z : Store.Zone} (hz : w.store.zone c.tenantID c.zoneID = some z)
      (h : shaky ∨ Stuck C w (.internal c.tenantID) z c.fqdn c.value) :
      Tried C w c shaky lossy (.ok false) w
  | lost {z : Store.Zone} {e : Err} {w₁ : World} (hl : lossy)
      (hz : w.store.zone c.tenantID c.zoneID = some z)
      (h : Dropped C w (.internal c.tenantID) z c.fqdn c.value shaky lossy (.error e) w₁) :
      Tried C w c shaky lossy (.ok false) w₁
  | removed {z : Store.Zone} {w₁ : World} (hz : w.store.zone c.tenantID c.zoneID = some z)
      (h : Dropped C w (.internal c.tenantID) z c.fqdn c.value shaky lossy (.ok ()) w₁) :
      Tried C w c shaky lossy (.ok true) (unbooked c.tenantID c.fqdn c.value w₁)

theorem require_internal (hT : T ≠ []) (checker : Option Authz.Checker) (perm : Permission) :
    Authz.require checker (.internal T) perm = .ok () := by
  have hT : (Subjects.internal T).tenantID ≠ [] := hT
  unfold Authz.require
  rw [if_neg hT]
  rfl

theorem guard_internal {perm : Permission} {e : Err}
    (h : Zones.guard C (.internal T) perm = .error e) :
    T = [] ∧ e.Is .zonesNotFound = false := by
  by_cases hT : (Subjects.internal T).tenantID = []
  · rw [Zones.guard, if_pos hT] at h
    cases h
    exact ⟨hT, rfl⟩
  · rw [Zones.guard, if_neg hT, if_neg (fun h => by cases h.1), @require_internal T hT] at h
    cases h

theorem sweepRow_ensures : Ensures (Act.Answers C.env.cases shaky lossy) (Tried C w c shaky lossy) w
    (Impl.sweepRow C c) := by
  refine (Zones.owned_ensures _ _).catch fun r w' h => ?_
  cases h with
  | forbidden h =>
    obtain ⟨hT, he⟩ := guard_internal h
    exact Ensures.ite (fun h => by rw [he] at h; cases h) fun _ => ensures_pure (.forbidden hT)
  | missing h =>
    refine Ensures.ite (fun _ => ?_) fun h => absurd rfl h
    exact Act.ensures_store (ensures_pure (.forgotten h))
  | @found z hz =>
    refine remove_ensures.catch fun r w' h => ?_
    rcases h with ⟨e, rfl, h⟩ | ⟨w₁, h, rfl, rfl⟩
    · rcases h.stuck with hl | ⟨rfl, hstuck⟩
      · exact ensures_pure (.lost hl hz h)
      · exact ensures_pure (.kept hz hstuck)
    · refine ensures_pure ?_
      rw [(Store.zone_eq_some.1 hz).2.2]
      exact .removed hz h

/-! ## A pass -/

structure Shrunk (w w' : World) : Prop where
  zones : w'.store.zones = w.store.zones
  rows : ∀ c ∈ w'.store.challenges, c ∈ w.store.challenges
  tidy : Tidy w → Tidy w'
  clock : w'.times = w.times ∧ w.ticks ≤ w'.ticks

theorem Shrunk.refl (w : World) : Shrunk w w := ⟨rfl, fun _ h => h, id, rfl, le_rfl⟩

theorem Shrunk.trans {w₁ w₂ : World} (h : Shrunk w w₁) (h' : Shrunk w₁ w₂) : Shrunk w w₂ :=
  ⟨h'.zones.trans h.zones, fun c hc => h.rows c (h'.rows c hc), fun ht => h'.tidy (h.tidy ht),
    h'.clock.1.trans h.clock.1, h.clock.2.trans h'.clock.2⟩

theorem shrunk_unbooked : Shrunk w (unbooked T fqdn value w) := by
  refine ⟨?_, fun c hc => (mem_deleteChallenge.1 hc).1, id, rfl, le_rfl⟩
  dsimp only [unbooked, Store.deleteChallenge]
  split <;> rfl

theorem Dropped.store_eq (h : Dropped C w subj z fqdn value shaky lossy r w') :
    w'.store = w.store ∧ w'.times = w.times ∧ w'.ticks = w.ticks := by
  cases h <;> exact ⟨rfl, rfl, rfl⟩

theorem Dropped.shrunk (h : Dropped C w subj z fqdn value shaky lossy r w') : Shrunk w w' := by
  obtain ⟨hstore, htimes, hticks⟩ := h.store_eq
  exact ⟨by rw [hstore], fun c hc => hstore ▸ hc, h.tidy, htimes, hticks.ge⟩

theorem Tried.shrunk {r : Except Err Bool} (h : Tried C w c shaky lossy r w') : Shrunk w w' := by
  cases h with
  | forbidden | kept => exact .refl w
  | forgotten => exact shrunk_unbooked
  | lost _ _ h => exact h.shrunk
  | removed _ h => exact h.shrunk.trans shrunk_unbooked

def Accounted (C : Config) (rows : List Store.Challenge) (w w' : World) : Prop :=
  ∀ z ∈ w.store.zones, ∀ fqdn value, IsLowerStr fqdn → valueOK value = true →
    Carries C w z fqdn value →
    Carries C w' z fqdn value ∨ ∃ c ∈ rows, Books c z.tenantID fqdn value

theorem Tried.accounted {r : Except Err Bool} (h : Tried C w c shaky lossy r w') (htidy : Tidy w)
    (hname : Name C c.fqdn) :
    Accounted C [c] w w' := by
  intro z' hz' fqdn' value' hlow hv hc
  cases h with
  | forbidden | kept | forgotten => exact .inl hc
  | @lost z _ _ _ hz h | @removed z _ hz h =>
    obtain ⟨hmem, -, hT⟩ := Store.zone_eq_some.1 hz
    refine (h.spares htidy hname hlow hv hc).imp id ?_
    rintro ⟨hid, rfl, rfl⟩
    obtain rfl : z' = z := Table.eq_of_clash hz' hmem (by simp [Keyed.clash, hid])
    exact ⟨c, mem_singleton.2 rfl, hT.symm, rfl, rfl⟩

theorem sweepRows_ensures (rows : List Store.Challenge) (n : ℕ) (w : World) :
    Ensures (Act.Answers C.env.cases shaky lossy) (fun _ w' => Shrunk w w' ∧
      (Tidy w → (∀ c ∈ rows, Name C c.fqdn) → Accounted C rows w w')) w
        (Impl.sweepRows C n rows) := by
  induction rows generalizing n w with
  | nil => exact ensures_pure ⟨.refl w, fun _ _ z _ fqdn value _ _ h => .inl h⟩
  | cons c rows ih =>
    refine sweepRow_ensures.bind (fun removed w₁ h₁ => ?_) ?_
    · refine (ih (if removed then n + 1 else n) w₁).mono fun _ w₂ h₂ => ⟨h₁.shrunk.trans h₂.1, ?_⟩
      intro htidy hname z hz fqdn value hlow hv hc
      obtain ⟨hc₁, hrows⟩ := forall_mem_cons.1 hname
      rcases h₁.accounted htidy hc₁ z hz fqdn value hlow hv hc with hkept | ⟨c', hc', hb⟩
      · refine (h₂.2 (h₁.shrunk.tidy htidy) hrows z (h₁.shrunk.zones ▸ hz) fqdn value hlow hv
          hkept).imp id ?_
        rintro ⟨c', hc', hb⟩
        exact ⟨c', mem_cons_of_mem _ hc', hb⟩
      · exact .inr ⟨c, mem_cons_self, mem_singleton.1 hc' ▸ hb⟩
    · rintro e w' h
      cases h

theorem mem_challengesOlderThan {before limit : ℕ} (h : c ∈ S.challengesOlderThan before limit) :
    c ∈ S.challenges ∧ c.createdAt < before := by
  have hsort : c ∈ S.challenges.rows.filter fun c => c.createdAt < before := by
    unfold Store.challengesOlderThan at h
    dsimp only at h
    split_ifs at h
    · exact (mem_insertionSort _).1 (mem_of_mem_take h)
    · exact (mem_insertionSort _).1 h
  exact ⟨(List.mem_filter.1 hsort).1, of_decide_eq_true (List.mem_filter.1 hsort).2⟩

/-- What a pass removes is among the rows that are older than `maxAge`. -/
structure Swept (C : Config) (maxAge : ℕ) (w w' : World) : Prop where
  shrunk : Shrunk w w'
  rows : ∃ rows, (∀ c ∈ rows, c ∈ w.store.challenges ∧ c.createdAt + maxAge < w.times w.ticks) ∧
    (Tidy w → (∀ c ∈ rows, Name C c.fqdn) → Accounted C rows w w')

theorem sweep_ensures (maxAge : ℕ) :
    Ensures (Act.Answers C.env.cases shaky lossy) (fun _ w' => Swept C maxAge w w') w
      (sweep C maxAge) := by
  refine Act.ensures_now ?_
  refine Ensures.bind (Q := fun r w' =>
    r = .ok (w.store.challengesOlderThan (w.times w.ticks - maxAge) sweepBatch) ∧
    w' = { w with ticks := w.ticks + 1 }) ?_ ?_ ?_
  · rintro _ _ ⟨⟩
    exact ⟨rfl, rfl⟩
  · rintro rows _ ⟨hrows, rfl⟩
    cases hrows
    have htick : Shrunk w { w with ticks := w.ticks + 1 } :=
      ⟨rfl, fun _ h => h, id, rfl, Nat.le_succ _⟩
    refine (sweepRows_ensures _ 0 _).mono fun _ w' h => ⟨htick.trans h.1, _, fun c hc => ?_, h.2⟩
    obtain ⟨hmem, hold⟩ := mem_challengesOlderThan hc
    exact ⟨hmem, by omega⟩
  · rintro e _ ⟨⟨⟩, -⟩

/-! ## Runs -/

theorem answers_faulty {U : CaseTables} {plan : ℕ → TangraDns.Op → Fate Fault} (hplan : Steady plan)
    (o : TangraDns.Op) (s : World × ℕ) :
    Act.Answers U True True o s.1 (faulty U plan o s).1 (faulty U plan o s).2.1 := by
  obtain ⟨w, n⟩ := s
  have hdone {o : TangraDns.Op} (ho : ∀ c, o ≠ .pdns c) : plan n o = .done :=
    (hplan n o).resolve_right fun ⟨c, _, hc, _⟩ => ho c hc
  cases o with
  | now | newID => rfl
  | pdns c =>
    rcases hplan n (.pdns c) with h | ⟨_, e, -, h | h⟩
    · rw [faulty, disturb_done rfl h]
      exact .inl rfl
    · rw [faulty, disturb_failed rfl h]
      exact .inr ⟨trivial, .inl rfl, e.pdns, rfl⟩
    · rw [faulty, disturb_lost rfl h]
      exact .inr ⟨trivial, .inr ⟨trivial, rfl⟩, e.pdns, rfl⟩
  | store c | recursor c | ipam c =>
    rw [faulty, disturb_done rfl (hdone (by rintro c ⟨⟩))]
    rfl

theorem Moment.ensures {m : Moment} (hplan : Steady m.plan) {Q : Except Err Unit → World → Prop}
    (h : Ensures (Act.Answers C.env.cases True True) Q w (m.call.act C)) :
    Q (m.run C w).1 (m.run C w).2 :=
  Ensures.exec (π := fun s : World × ℕ => s.1) (answers_faulty hplan) (t := (w, 0)) h

inductive Ended (C : Config) (w : World) (subj : Subjects) (req : Request) :
    Except Err Unit → World → Prop
  | failed (e : Err) {w₁ : World} (h : Shrunk w w₁) : Ended C w subj req (.error e) w₁
  | done {s : Subjects} {z : Store.Zone} {fqdn : Str} {w₁ : World} (hname : check C req = .ok fqdn)
      (hT : z.tenantID = subj.tenantID) (h : Shrunk w w₁)
      (hsame : w₁.store = w.store ∧ w₁.ticks = w.ticks) :
      Ended C w subj req (.ok ()) (booked s z fqdn req.value w₁)

theorem present_ended (subj : Subjects) (req : Request) :
    Ensures (Act.Answers C.env.cases True True) (Ended C w subj req) w
      ((Call.present subj req).act C) := by
  have hpresent : Ensures (Act.Answers C.env.cases True True)
      (fun r w' => Ended C w subj req (r.map fun _ => ()) w') w
      (present C subj req) := by
    refine (resolve_ensures req).bind ?_ ?_
    · rintro ⟨s, z, fqdn⟩ _ (_ | hres)
      refine present_ensures.bind ?_ ?_
      · rintro ⟨⟩ w' h
        refine ensures_pure ?_
        cases h with
        | there hread hv => exact .done hres.name hres.mem.2 (.refl w) ⟨rfl, rfl⟩
        | added hread hv hrr hok =>
          exact .done hres.name hres.mem.2 ⟨rfl, fun _ h => h, fun h => h.write hread.zone hrr hok,
            rfl, le_rfl⟩
            ⟨rfl, rfl⟩
      · rintro e w' h
        cases h with
        | failed => exact .failed e (.refl w)
        | lost _ hread hrr hok =>
          exact .failed e ⟨rfl, fun _ h => h, fun h => h.write hread.zone hrr hok, rfl, le_rfl⟩
    · rintro e w' ⟨h⟩
      exact .failed e (.refl w)
  exact hpresent.bind (fun _ _ h => ensures_pure h) fun _ _ h => h

theorem cleanUp_shrunk (subj : Subjects) (req : Request) :
    Ensures (Act.Answers C.env.cases True True) (fun _ w' => Shrunk w w') w
      ((Call.cleanUp subj req).act C) := by
  have hclean : Ensures (Act.Answers C.env.cases True True) (fun _ w' => Shrunk w w') w
      (cleanUp C subj req) := by
    refine (resolve_ensures req).bind ?_ ?_
    · rintro ⟨s, z, fqdn⟩ _ (_ | hres)
      refine remove_ensures.bind ?_ ?_
      · rintro ⟨⟩ w' (⟨e, ⟨⟩, -⟩ | ⟨w₁, h, -, rfl⟩)
        exact ensures_pure (h.shrunk.trans shrunk_unbooked)
      · rintro e w' (⟨e', -, h⟩ | ⟨w₁, -, ⟨⟩, -⟩)
        exact h.shrunk
    · rintro e w' ⟨h⟩
      exact .refl w
  exact hclean.bind (fun _ _ h => ensures_pure h) fun _ _ h => h

theorem sweep_swept (maxAge : ℕ) :
    Ensures (Act.Answers C.env.cases True True) (fun _ w' => Swept C maxAge w w') w
      ((Call.sweep maxAge).act C) :=
  (sweep_ensures maxAge).bind (fun _ _ h => ensures_pure h) fun _ _ h => h

structure Recorded (C : Config) (s : Log) : Prop where
  clock : Monotone s.world.times
  tidy : Tidy s.world
  past : ∀ p ∈ s.published, p.time ≤ s.world.times s.world.ticks
  rows : ∀ c ∈ s.world.store.challenges, Name C c.fqdn ∧
    (∃ p ∈ s.published, Books c p.tenantID p.fqdn p.value) ∧
    ∀ p ∈ s.published, Books c p.tenantID p.fqdn p.value → p.time ≤ c.createdAt

theorem Recorded.shrunk (h : Recorded C s) (hw : Shrunk s.world w') :
    Recorded C ⟨w', s.published⟩ := by
  refine ⟨hw.clock.1 ▸ h.clock, hw.tidy h.tidy, fun p hp => (h.past p hp).trans ?_,
    fun c hc => h.rows c (hw.rows c hc)⟩
  rw [hw.clock.1]
  exact h.clock hw.clock.2

theorem le_orNow {t now : ℕ} (h : t ≤ now) : t ≤ Store.orNow t now := by
  unfold Store.orNow
  split_ifs
  exacts [h, le_rfl]

theorem Recorded.booked (h : Recorded C s) {subj : Subjects} {z : Store.Zone} {w₁ : World}
    (hname : Name C fqdn) (hw : Shrunk s.world w₁)
    (hsame : w₁.store = s.world.store ∧ w₁.ticks = s.world.ticks)
    (hfree : ∀ c ∈ s.world.store.challenges, ¬ Books c z.tenantID fqdn value) :
    Recorded C ⟨booked subj z fqdn value w₁,
      ⟨z.tenantID, fqdn, value, s.world.times s.world.ticks⟩ :: s.published⟩ := by
  have hw' := h.shrunk hw
  have hlater : s.world.times s.world.ticks ≤ w₁.times (w₁.ticks + 1) := by
    rw [hw.clock.1, hsame.2]
    exact h.clock (Nat.le_succ _)
  refine ⟨hw'.clock, hw'.tidy, fun p hp => ?_, fun c hc => ?_⟩
  · rcases mem_cons.1 hp with rfl | hp
    · exact hlater
    · exact (h.past p hp).trans hlater
  · rcases mem_insertChallenge hc with hold | rfl
    · -- an old row is of another value
      rw [hsame.1] at hold
      obtain ⟨hn, ⟨p, hp, hb⟩, hall⟩ := h.rows c hold
      refine ⟨hn, ⟨p, mem_cons_of_mem _ hp, hb⟩, fun p' hp' hb' => ?_⟩
      rcases mem_cons.1 hp' with rfl | hp'
      · exact absurd hb' (hfree c hold)
      · exact hall p' hp' hb'
    · refine ⟨hname, ⟨_, mem_cons_self, rfl, rfl, rfl⟩, fun p hp _ => ?_⟩
      have hnow : w₁.times w₁.ticks = s.world.times s.world.ticks := by rw [hw.clock.1, hsame.2]
      have hcreated : s.world.times s.world.ticks ≤
          Store.orNow (w₁.times w₁.ticks) (w₁.times (w₁.ticks + 1)) := by
        rw [hnow]
        exact le_orNow hlater
      rcases mem_cons.1 hp with rfl | hp
      · exact hcreated
      · exact (h.past p hp).trans hcreated

theorem Recorded.step {s' : Log} {m : Moment} (h : Recorded C s) (hplan : Steady m.plan)
    (hfree : Unbooked C s.world m.call) (hs : s.step C m = some s') : Recorded C s' := by
  obtain rfl := Option.some.inj hs
  obtain ⟨call, plan⟩ := m
  cases call with
  | present subj req =>
    have hend := Moment.ensures (m := ⟨.present subj req, plan⟩) hplan
      (present_ended (C := C) (w := s.world) subj req)
    dsimp only
    generalize Moment.run C s.world ⟨.present subj req, plan⟩ = r at hend
    obtain ⟨r, w'⟩ := r
    cases hend with
    | failed e hw => exact h.shrunk hw
    | @done _ z fqdn w₁ hname hT hw hsame =>
      have hpub : (Call.present subj req).publication C s.world =
          some ⟨z.tenantID, fqdn, req.value, s.world.times s.world.ticks⟩ := by
        rw [Call.publication, hname, hT]
      rw [hpub]
      exact h.booked (check_spec hname).1 hw hsame (hfree _ hpub)
  | cleanUp subj req =>
    have hend := Moment.ensures (m := ⟨.cleanUp subj req, plan⟩) hplan
      (cleanUp_shrunk (C := C) (w := s.world) subj req)
    dsimp only [Call.publication]
    rw [Option.toList_none, nil_append, ite_self]
    exact h.shrunk hend
  | sweep maxAge =>
    have hend := Moment.ensures (m := ⟨.sweep maxAge, plan⟩) hplan
      (sweep_swept (C := C) (w := s.world) maxAge)
    dsimp only [Call.publication]
    rw [Option.toList_none, nil_append, ite_self]
    exact h.shrunk hend.shrunk

/-- **Sweeps remove stale values only.**  In a run in which no value is presented while a row books
    it, with a clock that does not go back, a sweep takes a value out of a set only if it was
    published, the last time more than the maximum age before. -/
theorem sweep_removes_stale (C : Config) (w : World) (hclock : Monotone w.times) (htidy : Tidy w)
    (hrows : ∀ c, c ∉ w.store.challenges) (ms : List Moment) (s : Log)
    (hrun : Machine.Path (Log.step C) (fun s m => Steady m.plan ∧ Unbooked C s.world m.call)
      ⟨w, []⟩ ms s)
    (maxAge : ℕ) (plan : ℕ → TangraDns.Op → Fate Fault) (hplan : Steady plan)
    (z : Store.Zone) (hz : z ∈ s.world.store.zones) (fqdn value : Str) (hfqdn : IsLowerStr fqdn)
    (hvalue : valueOK value = true) (hbefore : Carries C s.world z fqdn value)
    (hafter : ¬ Carries C (Moment.run C s.world ⟨.sweep maxAge, plan⟩).2 z fqdn value) :
    Stale s.published z.tenantID fqdn value maxAge (s.world.times s.world.ticks) := by
  have hrec : Recorded C s := by
    refine hrun.invariant (fun s m s' h hC hs => h.step hC.1 hC.2 hs) ⟨hclock, htidy, ?_, ?_⟩
    · exact fun p hp => absurd hp not_mem_nil
    · exact fun c hc => absurd hc (hrows c)
  obtain ⟨rows, hold, hacc⟩ :=
    (Moment.ensures (m := ⟨.sweep maxAge, plan⟩) hplan
      (sweep_swept (C := C) (w := s.world) maxAge)).rows
  have hnames : ∀ c ∈ rows, Name C c.fqdn := fun c hc => (hrec.rows c (hold c hc).1).1
  obtain ⟨c, hc, hT, rfl, rfl⟩ :=
    (hacc hrec.tidy hnames z hz fqdn value hfqdn hvalue hbefore).resolve_left hafter
  obtain ⟨hmem, hage⟩ := hold c hc
  obtain ⟨-, ⟨p, hp, hb⟩, hall⟩ := hrec.rows c hmem
  refine ⟨⟨p, hp, hb.1.symm.trans hT, hb.2.1.symm, hb.2.2.symm⟩, fun p' hp' hT' hf' hv' => ?_⟩
  have := hall p' hp' ⟨hT.trans hT'.symm, hf'.symm, hv'.symm⟩
  omega

theorem steady_done : Steady fun _ _ => .done := fun _ _ => .inl rfl

theorem tidy_sample : Tidy sampleWorld := by
  intro id pz h
  obtain ⟨hmem, -⟩ := PDNS.Server.zone_eq_some.1 h
  obtain rfl := mem_singleton.1 hmem
  decide +kernel

def lostPatches (_ : ℕ) : TangraDns.Op → Fate Fault
  | .pdns (.patchRRsets ..) => .lost ⟨.zone .notFound, .decode, none, .zone .notFound⟩
  | _ => .done

theorem steady_lostPatches : Steady lostPatches := by
  intro n o
  unfold lostPatches
  split
  · exact .inr ⟨_, _, rfl, .inr rfl⟩
  · exact .inl rfl

/-- A value that was presented once, and swept with the reply to the patch lost. -/
theorem sweep_removes_stale_sample :
    ∃ s, Machine.Path (Log.step .sample) (fun s m => Steady m.plan ∧
      Unbooked .sample s.world m.call)
      ⟨sampleWorld, []⟩ [(Call.present sampleCaller sampleRequest).undisturbed] s ∧
      Stale s.published (str "t") sampleName sampleValue 0 (s.world.times s.world.ticks) := by
  have hfree : Unbooked .sample sampleWorld (.present sampleCaller sampleRequest) :=
    fun _ _ r hr => by cases hr
  refine ⟨_, .cons rfl ⟨steady_done, hfree⟩ (.nil _), ?_⟩
  refine sweep_removes_stale .sample sampleWorld (fun m n h => Nat.succ_le_succ h) tidy_sample
    (fun c hc => by cases hc) _ _
    (.cons rfl ⟨steady_done, hfree⟩ (.nil _)) 0 lostPatches steady_lostPatches sampleZone
    (Table.mem_iff.2 ?_)
    sampleName sampleValue ?_ ?_ ?_ ?_
  all_goals decide +kernel

/-- A value that was presented again, a moment before the sweep: its row is still the first one. -/
theorem sweep_after_second_present :
    ∃ s, Machine.Path (Log.step .sample) (fun _ m => Steady m.plan) ⟨sampleWorld, []⟩
      [(Call.present sampleCaller sampleRequest).undisturbed,
        (Call.present sampleCaller sampleRequest).undisturbed] s ∧
      Carries .sample s.world sampleZone sampleName sampleValue ∧
      ¬ Carries .sample (Moment.run .sample s.world (Call.sweep 1).undisturbed).2 sampleZone
        sampleName sampleValue ∧
      ¬ Stale s.published (str "t") sampleName sampleValue 1 (s.world.times s.world.ticks) := by
  refine ⟨_, .cons rfl steady_done (.cons rfl steady_done (.nil _)), ?_⟩
  decide +kernel

end TangraDns.Challenges
