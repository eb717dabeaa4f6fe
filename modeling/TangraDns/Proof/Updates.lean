/-
  Updates of record sets, exactly.
-/
import TangraDns.Proof.Records

namespace TangraDns.Records

open Str Validate Prog Prog.Failing PDNS

variable {C : Config} {w : World} {z : Store.Zone} {k : Key} {i : RecordSetInput}

/-! ## The patch -/

/-- The new set in place of the old one, of the name `n` and type `t`, where no other set has its
    name and type. -/
structure Replacement (C : Config) (z : Store.Zone) (k : Key) (i : RecordSetInput)
    (cur : List RRset) (n t : Str)
    (rr : RRset) : Prop where
  name : recordName C.env z.name k.name = .ok n
  type : t = toUpper C.env.cases (trimSpace k.type)
  old : ∃ r ∈ cur, r.isAt n t = true
  new : C.limits.recordSet C.env z.name i (without cur n t) = .ok rr
  free : ∀ r ∈ cur, r.isAt rr.name rr.type = true → r.isAt n t = true

/-- **What the patch of an update does:** the other sets as they were, and the new set. -/
theorem changes_spec {cur ch : List RRset} {rr : RRset} (hcur : CaseNormal cur)
    (h : Impl.changes C z k i cur = .ok (rr, ch)) :
    ∃ n t, Replacement C z k i cur n t rr ∧ ch.foldl applyChange cur = without cur n t ++
      [rr.stored] := by
  obtain ⟨⟨n, t⟩, hk, h⟩ := Except.bind_eq_ok.1 h
  obtain ⟨hn, ht, hedit⟩ := key_eq_ok hk
  have hlow := recordName_lower hn
  have hup := editableTypes_upper t hedit
  dsimp only at h
  split_ifs at h with hf
  obtain ⟨rr', hrr, h⟩ := Except.bind_eq_ok.1 h
  rw [filter_matches hcur hlow hup] at hrr h
  have hold : ∃ r ∈ cur, r.isAt n t = true := (find_iff hcur hlow hup).1 (by simpa using hf)
  obtain ⟨hreplace, hne, hcom⟩ := recordSet_replaces hrr
  split_ifs at h with hmove hc
  · cases h
    have hnormal : CaseNormal (without cur n t) := fun r hr => hcur r (List.mem_of_mem_filter hr)
    obtain ⟨hlow', hup'⟩ := recordSet_normal hrr
    have hfree : ∀ r ∈ without cur n t, r.isAt rr.name rr.type = false := fun r hr =>
      Bool.eq_false_iff.2 fun hat => hc ((find_iff hnormal hlow' hup').2 ⟨r, hr, hat⟩)
    refine ⟨n, t, ⟨hn, ht, hold, hrr, fun r hr hat => ?_⟩, ?_⟩
    · by_contra hother
      rw [hfree r (List.mem_filter.2 ⟨hr, by simpa using hother⟩)] at hat
      cases hat
    · rw [List.foldl_cons, List.foldl_cons, List.foldl_nil, applyChange_delete,
        applyChange_move (Option.isSome_iff_ne_none.2 hcom), applyChange_eq hreplace hne hcom,
          without_eq_self hfree]
      rw [RRset.isAt, Bool.and_eq_false_iff, beq_eq_false_iff_ne, beq_eq_false_iff_ne]
      exact hmove
  · cases h
    obtain ⟨rfl, rfl⟩ := (not_or.1 hmove).imp not_not.1 not_not.1
    exact ⟨_, _, ⟨hn, ht, hold, hrr, fun _ _ hat => hat⟩, applyChange_eq hreplace hne hcom⟩

/-! ## The calls of an update -/

def asks : Op → Bool
  | .store (.getZone ..) | .pdns (.getZone _) => true
  | _ => false

def patches : Op → Bool
  | .pdns (.patchRRsets ..) => true
  | _ => false

def onePatch : Discipline Op Res where
  allowed past o := (∀ e ∈ past, asks e.1 = true) ∧ (asks o = true ∨ patches o = true)
  answer _ _ := True
  same _ _ _ _ := False

def Asked (past : Past) : Prop := ∀ e ∈ past, asks e.1 = true

def PatchedOnce (past : Past) : Prop :=
  ∃ e asked, past = e :: asked ∧ patches e.1 = true ∧ Asked asked

theorem Asked.cons {past : Past} {o : Op} {r : Res o} (h : Asked past) (ho : asks o = true) :
    Asked (⟨o, r⟩ :: past) :=
  List.forall_mem_cons.2 ⟨ho, h⟩

theorem safe_question {α β : Type} {past : Past} {o : Op} {f : Res o → Except Err α}
    {g : Except Err α → Act β}
    {Q : Past → β → Prop} (hpast : Asked past) (ho : asks o = true)
    (h : ∀ past' r, Asked past' → Safe onePatch Q past' (g r)) :
    Safe onePatch Q past (attempt (ask o f) >>= g) :=
  safe_ask_catch ⟨hpast, .inl ho⟩ (fun _ _ hs => hs.elim) fun _ _ => h _ _ (hpast.cons ho)

theorem safe_check {α β : Type} {past : Past} {e : Except Err α} {g : α → Act β}
    {Q : Past → β → Prop}
    (hpast : Asked past) (h : ∀ past' a, Asked past' → Safe onePatch Q past' (g a)) :
    Safe onePatch Q past (Act.ofExcept e >>= g) :=
  Safe.bind (Q := fun past' _ => Asked past') (safe_ofExcept fun _ _ => hpast) fun past' a _ hp =>
    h past' a hp

theorem load_asks (subj : Subjects) (zoneID : Str) (perm : Permission) :
    Safe onePatch (fun past _ => Asked past) [] (Impl.load C subj zoneID perm) := by
  have hnil : Asked [] := fun _ he => absurd he List.not_mem_nil
  have howned {past : Past} (hpast : Asked past) :
      Safe onePatch (fun past' _ => Asked past') past (Zones.owned C subj zoneID) := by
    refine safe_check hpast fun past' _ hp => safe_question hp rfl fun past'' r hp => ?_
    split
    · exact safe_pure hp
    · split_ifs <;> exact safe_throw _
  exact Safe.ite (fun _ => safe_check hnil fun _ _ hp => howned hp) fun _ => howned hnil

theorem update_asks (z : Store.Zone) (k : Key) (i : RecordSetInput) {past : Past}
    (hpast : Asked past) :
    Safe onePatch (fun past' _ => PatchedOnce past') past (Impl.update C z k i) := by
  refine safe_check hpast fun _ _ hp => safe_check hp fun _ _ hp => ?_
  refine Safe.bind (Q := fun past' _ => Asked past') (safe_question hp rfl fun past' r hp => ?_)
    fun past' cur _ hp => ?_
  · cases r with
    | ok pz => exact safe_pure hp
    | error e => exact safe_throw _
  · refine safe_check hp fun past' ch hp => ?_
    refine Safe.bind (Q := fun past' _ => PatchedOnce past')
      (safe_ask_catch ⟨hp, .inr rfl⟩ (fun _ _ hs => hs.elim) fun r _ => ?_) fun _ _ _ hp =>
        safe_pure hp
    cases r with
    | ok _ => exact safe_pure ⟨_, _, rfl, rfl, hp⟩
    | error e => exact safe_throw _

theorem trace_update {S : Type} (h : Handler Op Res S) (s : S) (subj : Subjects)
    (zoneID : Str) (k : Key)
    (i : RecordSetInput) : ∃ asked, Asked asked ∧
      ((trace h (update C subj zoneID k i).run s = asked ∧
        ∃ e, (exec h (update C subj zoneID k i) s).1 = .error e) ∨
        ∃ e, patches e.1 = true ∧ trace h (update C subj zoneID k i).run s = asked ++ [e]) := by
  have hsafe : Safe onePatch (fun past _ => PatchedOnce past) [] (update C subj zoneID k i) :=
    (load_asks subj zoneID .zonesManage).bind fun past z _ hp =>
      (update_asks z k i hp).bind fun _ _ _ hp => safe_pure hp
  obtain ⟨hI, hQ⟩ := Obeys.run (h := h) (s := s) (D := onePatch)
    (I := fun past _ => Asked past ∨ PatchedOnce past) hsafe (fun _ _ => trivial)
    (by
      rintro past s o - ⟨hp, ho | ho⟩
      · exact .inl (Asked.cons hp ho)
      · exact .inr ⟨_, past, rfl, ho, hp⟩)
    (.inl fun _ he => absurd he List.not_mem_nil)
  rw [List.append_nil] at hI hQ
  have hpatched : PatchedOnce (trace h (update C subj zoneID k i).run s).reverse →
      ∃ asked, Asked asked ∧ ∃ e, patches e.1 = true ∧
        trace h (update C subj zoneID k i).run s = asked ++ [e] := by
    rintro ⟨e, asked, heq, he, hasked⟩
    refine ⟨asked.reverse, fun e he => hasked e (List.mem_reverse.1 he), e, he, ?_⟩
    rw [← List.reverse_reverse (trace h _ s), heq, List.reverse_cons]
  rcases hI with hI | hI
  · cases hr : (exec h (update C subj zoneID k i) s).1 with
    | ok rs =>
      obtain ⟨asked, hasked, hpatch⟩ := hpatched (hQ rs hr)
      exact ⟨asked, hasked, .inr hpatch⟩
    | error e => exact ⟨_, fun e he => hI e (List.mem_reverse.2 he), .inl ⟨rfl, e, rfl⟩⟩
  · obtain ⟨asked, hasked, hpatch⟩ := hpatched hI
    exact ⟨asked, hasked, .inr hpatch⟩

/-! ## Updates -/

/-- The ways an update by a caller ends: with an error and nothing changed, or with the new set in
    place of the old one and everything else as it was. -/
inductive Replaced (C : Config) (w : World) (subj : Subjects) (zoneID : Str) (k : Key)
    (i : RecordSetInput) :
    Except Err RecordSet → World → Prop
  | failed (e : Err) : Replaced C w subj zoneID k i (.error e) w
  | done {z : Store.Zone} {pz : PDNS.Zone} {n t : Str} {rr : RRset} {w' : World}
      (hrow : w.store.zone subj.tenantID zoneID = some z) (hz : w.pdns.zone z.pdnsID = some pz)
      (h : Replacement C z k i pz.rrsets n t rr) (hstore : w'.store = w.store)
      (hsets : w'.pdns.zone z.pdnsID =
        some { pz with rrsets := without pz.rrsets n t ++ [rr.stored], serial := pz.serial + 1 })
      (hothers : ∀ id ≠ z.pdnsID, w'.pdns.zone id = w.pdns.zone id) :
      Replaced C w subj zoneID k i (.ok (toView C rr)) w'

/-- **Updates replace one set.**  Whatever calls to PowerDNS fail, an update that succeeds leaves
    the previous sets of the zone without the original one, and the new set; it overwrites no other
    set.  One that fails changes nothing.  All its calls but the last are questions, and the last is
    one patch, if it gets that far. -/
theorem update_replaces (C : Config) (w : World) (subj : Subjects) (zoneID : Str) (k : Key)
    (i : RecordSetInput)
    (hpdns : ∀ id pz, w.pdns.zone id = some pz → CaseNormal pz.rrsets) :
    Ensures (Act.Steps C.env.cases True) (Replaced C w subj zoneID k i) w
      (update C subj zoneID k i) ∧
      ∀ (S : Type) (h : Handler Op Res S) (s : S), ∃ asked, (∀ e ∈ asked, asks e.1 = true) ∧
        ((trace h (update C subj zoneID k i).run s = asked ∧
            ∃ e, (exec h (update C subj zoneID k i) s).1 = .error e) ∨
          ∃ e, patches e.1 = true ∧ trace h (update C subj zoneID k i).run s = asked ++ [e]) := by
  refine ⟨(load_ensures .zonesManage).bind ?_ ?_, fun S h s => trace_update h s subj zoneID k i⟩
  · rintro z _ ⟨rfl, hz⟩
    refine (update_ensures k i).bind ?_ ?_
    · rintro rr w' h
      cases h with
      | done hw hpz hch hok =>
        obtain ⟨n, t, hrep, hsets⟩ := changes_spec (hpdns _ _ hpz) hch
        refine ensures_pure (.done (hz z rfl) hpz hrep rfl ?_ fun id hid =>
          World.patch_zone_of_ne hid)
        rw [World.patch_zone hpz hok, hsets]
    · rintro e w' ⟨e⟩
      exact .failed e
  · rintro e _ ⟨rfl, -⟩
    exact .failed e

def sampleOld : RRset := ⟨str "www.example.com.", str "A", 300, .none,
    [⟨str "192.0.2.1", false⟩], some []⟩

def sampleNew : RecordSetInput := ⟨str "ftp", str "A", 300, [⟨str "192.0.2.2", false⟩], []⟩

/-- An address record that is renamed, its key in another letter case. -/
theorem update_replaces_sample :
    ∃ w', exec (handler Config.sample.env.cases)
        (update .sample (.internal (str "t")) (str "z") ⟨str "WWW", str "a"⟩ sampleNew)
        (sampleWith sampleOld) =
          (.ok ⟨str "ftp.example.com.", str "A", 300, [⟨str "192.0.2.2", false⟩], [], false⟩, w') ∧
      Replaced .sample (sampleWith sampleOld) (.internal (str "t")) (str "z")
        ⟨str "WWW", str "a"⟩ sampleNew
        (.ok ⟨str "ftp.example.com.", str "A", 300, [⟨str "192.0.2.2", false⟩], [], false⟩) w' := by
  have hcase : ∀ id pz, (sampleWith sampleOld).pdns.zone id = some pz → CaseNormal pz.rrsets := by
    intro id pz h
    obtain ⟨hmem, -⟩ := PDNS.Server.zone_eq_some.1 h
    obtain rfl := List.mem_singleton.1 hmem
    decide +kernel
  have hrun := Act.ensures_exec (update_replaces .sample (sampleWith sampleOld)
    (.internal (str "t")) (str "z")
    ⟨str "WWW", str "a"⟩ sampleNew hcase).1
  have hok : (exec (handler Config.sample.env.cases)
      (update .sample (.internal (str "t")) (str "z") ⟨str "WWW", str "a"⟩ sampleNew)
      (sampleWith sampleOld)).1 =
        .ok ⟨str "ftp.example.com.", str "A", 300, [⟨str "192.0.2.2", false⟩], [],
          false⟩ := by decide +kernel
  rw [hok] at hrun
  exact ⟨_, Prod.ext hok rfl, hrun⟩

end TangraDns.Records
