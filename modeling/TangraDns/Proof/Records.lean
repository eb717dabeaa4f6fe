/-
  What the calls of the record service answer and change.
-/
import TangraDns.Proof.Exec
import TangraDns.Proof.RecordData
import TangraDns.Proof.Steps

namespace TangraDns

open Str Validate Prog.Failing PDNS

variable {C : Config} {w : World} {shaky lossy : Prop}
variable {e : Err} {k : Key} {pz : PDNS.Zone} {rr : RRset} {zone n t : Str} {w' : World}

/-! ## Worlds after a patch -/

def World.patch (w : World) (id : Str) (changes : List RRset) : World :=
  { w with pdns := (w.pdns.patchRRsets id changes).2 }

theorem World.patch_zone {id : Str} {changes : List RRset}
    (hz : w.pdns.zone id = some pz) (hok : changes.all (changeOK pz.name) = true) :
    (w.patch id changes).pdns.zone id =
      some { pz with rrsets := changes.foldl applyChange pz.rrsets, serial := pz.serial + 1 } := by
  simp only [World.patch, Server.patchRRsets, hz, if_pos hok, Server.zone_modify_self,
    Option.map_some]

theorem World.patch_zone_of_ne {id id' : Str} {changes : List RRset} (h : id' ≠ id) :
    (w.patch id changes).pdns.zone id' = w.pdns.zone id' := by
  rcases w.pdns.patchRRsets_cases id changes with ⟨e, he, -⟩ | ⟨z, -, -, he⟩ <;>
    simp only [World.patch, he, Server.zone_modify_of_ne h]

/-! ## Zones -/

namespace Zones

inductive Found (C : Config) (w : World) (subj : Subjects) (id : Str) :
    Except Err Store.Zone → World → Prop
  | forbidden {e : Err} (h : guard C subj .zonesRead = .error e) : Found C w subj id (.error e) w
  | missing (h : w.store.zone subj.tenantID id = none) :
      Found C w subj id (.error (.zone .notFound)) w
  | found {z : Store.Zone} (h : w.store.zone subj.tenantID id = some z) :
      Found C w subj id (.ok z) w

theorem owned_ensures (subj : Subjects) (id : Str) :
    Ensures (Act.Answers C.env.cases shaky lossy) (Found C w subj id) w (owned C subj id) := by
  refine ensures_check (fun _ _ => ?_) fun e h => .forbidden h
  refine Act.ensures_store ?_
  dsimp only [StoreCall.step, Store.getZone]
  cases h : w.store.zone subj.tenantID id with
  | some z => exact .found h
  | none => exact .missing h

end Zones

namespace Records

variable {z : Store.Zone} {zoneID : Str} {subj : Subjects}
variable {i : RecordSetInput}

theorem load_ensures (perm : Permission) :
    Ensures (Act.Answers C.env.cases shaky lossy)
      (fun r w' => w' = w ∧ ∀ z, r = .ok z → w.store.zone subj.tenantID zoneID = some z) w
      (Impl.load C subj zoneID perm) := by
  have howned : Ensures (Act.Answers C.env.cases shaky lossy)
      (fun r w' => w' = w ∧ ∀ z, r = .ok z → w.store.zone subj.tenantID zoneID = some z) w
      (Zones.owned C subj zoneID) := by
    refine (Zones.owned_ensures subj zoneID).mono ?_
    rintro r _ (h | h | h)
    · exact ⟨rfl, fun z hz => by cases hz⟩
    · exact ⟨rfl, fun z hz => by cases hz⟩
    · refine ⟨rfl, ?_⟩
      rintro z ⟨⟩
      exact h
  refine Ensures.ite (fun _ => ensures_check (fun _ _ => howned) fun e _ => ⟨rfl, ?_⟩) fun _ =>
    howned
  rintro z ⟨⟩

/-! ## Accepted sets -/

variable {i : RecordSetInput}

theorem recordName_lower {name : Str} (h : recordName C.env zone name = .ok n) : IsLowerStr n := by
  obtain ⟨z', hz', -⟩ := Except.bind_eq_ok.1 h
  rw [← recordName_canonicalZone hz'] at h
  exact (recordName_spec (canonicalZone_spec hz') h).canonical.lower

theorem recordSet_normal {existing : List RRset}
    (h : C.limits.recordSet C.env zone i existing = .ok rr) : IsLowerStr rr.name ∧
    IsUpperStr rr.type := by
  obtain ⟨z', t, n, records, hz', hv, -, -, rfl⟩ := recordSet_eq_ok.1 h
  exact ⟨recordName_lower hv.name, editableTypes_upper t (editableType_spec hv.type).2⟩

theorem recordSet_replaces {existing : List RRset}
    (h : C.limits.recordSet C.env zone i existing = .ok rr) :
    rr.changeType = .replace ∧ rr.records ≠ [] ∧ rr.comments ≠ none := by
  obtain ⟨z', t, n, records, -, hv, hcanon, -, rfl⟩ := recordSet_eq_ok.1 h
  refine ⟨rfl, fun hnil => ?_, by simp [written]⟩
  obtain rfl : records = [] := hnil
  exact hv.count.1 (List.length_eq_zero_iff.1 hcanon.length_eq)

/-! ## Reading and patching -/

inductive Sets (w : World) (z : Store.Zone) (shaky : Prop) : Except Err (List RRset) → World → Prop
  | failed (e : PDNSErr) (h : shaky ∨ w.pdns.zone z.pdnsID = none) :
      Sets w z shaky (.error (Zones.mapPDNS (.pdns e))) w
  | found {pz : PDNS.Zone} (h : w.pdns.zone z.pdnsID = some pz) : Sets w z shaky (.ok pz.rrsets) w

theorem rrsets_ensures :
    Ensures (Act.Answers C.env.cases shaky lossy) (Sets w z shaky) w (Impl.rrsets z) := by
  refine Act.ensures_pdns ?_ fun hs e w' hw' => ?_
  case refine_2 =>
    obtain rfl : w' = w := hw'.elim id And.right
    exact .failed e (.inl hs)
  dsimp only [PDNSCall.step, Server.getZone]
  cases h : w.pdns.zone z.pdnsID with
  | some pz => exact .found h
  | none => exact .failed _ (.inr h)

inductive Patched (w : World) (z : Store.Zone) (changes : List RRset) (shaky lossy : Prop) :
    Except Err Unit → World → Prop
  | failed (e : PDNSErr)
      (h : shaky ∨ ∀ pz, w.pdns.zone z.pdnsID = some pz → changes.all (changeOK pz.name) = false) :
      Patched w z changes shaky lossy (.error (Zones.mapPDNS (.pdns e))) w
  | done {pz : PDNS.Zone} (hz : w.pdns.zone z.pdnsID = some pz)
      (hok : changes.all (changeOK pz.name) = true) :
      Patched w z changes shaky lossy (.ok ()) (w.patch z.pdnsID changes)
  | lost (e : PDNSErr) (hl : lossy) {pz : PDNS.Zone} (hz : w.pdns.zone z.pdnsID = some pz)
      (hok : changes.all (changeOK pz.name) = true) :
      Patched w z changes shaky lossy (.error (Zones.mapPDNS (.pdns e))) (w.patch z.pdnsID changes)

theorem patch_ensures (changes : List RRset) :
    Ensures (Act.Answers C.env.cases shaky lossy) (Patched w z changes shaky lossy) w
      (Impl.patch z changes) := by
  have hstep : (PDNSCall.patchRRsets z.pdnsID changes).step C.env.cases w.pdns =
    w.pdns.patchRRsets z.pdnsID changes := rfl
  refine Act.ensures_pdns ?_ fun hs e w' hw' => ?_
  all_goals rw [hstep] at *
  all_goals rcases w.pdns.patchRRsets_cases z.pdnsID changes with ⟨e', he, hbad⟩ | ⟨pz, hz, hok, he⟩
  · rw [he]
    exact .failed _ (.inr hbad)
  · have hdone : Patched w z changes shaky lossy _ _ := .done hz hok
    rw [World.patch, he] at hdone
    rw [he]
    exact hdone
  · rw [he] at hw'
    obtain rfl : w' = w := hw'.elim id And.right
    exact .failed e (.inl hs)
  · rcases hw' with rfl | ⟨hl, rfl⟩
    · exact .failed e (.inl hs)
    · exact .lost e hl hz hok

/-! ## Writing a set -/

inductive Applied (C : Config) (w : World) (z : Store.Zone) (i : RecordSetInput)
    (shaky lossy : Prop) :
    Except Err RRset → World → Prop
  | secondary {e : Err} (h : writable z = .error e) : Applied C w z i shaky lossy (.error e) w
  | invalid {e : Err} {pz : PDNS.Zone} (hz : w.pdns.zone z.pdnsID = some pz)
      (h : C.limits.recordSet C.env z.name i pz.rrsets = .error e) :
      Applied C w z i shaky lossy (.error e) w
  | failed (e : PDNSErr) (h : shaky ∨ ∀ pz rr, w.pdns.zone z.pdnsID = some pz →
      C.limits.recordSet C.env z.name i pz.rrsets = .ok rr → changeOK pz.name rr = false) :
      Applied C w z i shaky lossy (.error (Zones.mapPDNS (.pdns e))) w
  | done {pz : PDNS.Zone} {rr : RRset} (hw : writable z = .ok ())
      (hz : w.pdns.zone z.pdnsID = some pz)
      (h : C.limits.recordSet C.env z.name i pz.rrsets = .ok rr)
      (hok : changeOK pz.name rr = true) :
      Applied C w z i shaky lossy (.ok rr) (w.patch z.pdnsID [rr])
  | lost {e : Err} (hl : lossy) {pz : PDNS.Zone} {rr : RRset} (hw : writable z = .ok ())
      (hz : w.pdns.zone z.pdnsID = some pz)
      (h : C.limits.recordSet C.env z.name i pz.rrsets = .ok rr)
      (hok : changeOK pz.name rr = true) :
      Applied C w z i shaky lossy (.error e) (w.patch z.pdnsID [rr])

theorem apply_ensures (i : RecordSetInput) :
    Ensures (Act.Answers C.env.cases shaky lossy) (Applied C w z i shaky lossy) w
      (Impl.apply C z i) := by
  refine ensures_check (fun ⟨⟩ hw => ?_) fun e h => .secondary h
  refine rrsets_ensures.bind ?_ ?_
  · rintro cur _ (_ | hz)
    refine ensures_check (fun rr hrr => ?_) fun e h => .invalid hz h
    refine (patch_ensures [rr]).bind ?_ ?_
    · rintro ⟨⟩ _ (_ | ⟨hz', hok⟩)
      cases hz.symm.trans hz'
      exact .done hw hz hrr (by simpa using hok)
    · rintro e _ (⟨e, h⟩ | _ | ⟨e, hl, hz', hok⟩)
      · refine .failed e (h.imp_right fun h pz' rr' hz' hrr' => ?_)
        cases hz.symm.trans hz'
        cases hrr.symm.trans hrr'
        simpa using h _ hz
      · cases hz.symm.trans hz'
        exact .lost hl hw hz hrr (by simpa using hok)
  · rintro e _ ⟨e, h⟩
    exact .failed e (h.imp_right fun h pz rr hz => by rw [h] at hz; cases hz)

inductive Unwritable (C : Config) (w : World) (subj : Subjects) (z : Store.Zone)
    (i : RecordSetInput) : Prop
  | forbidden {e : Err} (h : Authz.require none (withoutUser subj) .zonesManage = .error e)
  | secondary {e : Err} (h : writable z = .error e)
  | gone (h : w.pdns.zone z.pdnsID = none)
  | invalid {pz : PDNS.Zone} {e : Err} (hz : w.pdns.zone z.pdnsID = some pz)
      (h : C.limits.recordSet C.env z.name i pz.rrsets = .error e)
  | outside {pz : PDNS.Zone} {rr : RRset} (hz : w.pdns.zone z.pdnsID = some pz)
      (h : C.limits.recordSet C.env z.name i pz.rrsets = .ok rr) (hok : changeOK pz.name rr = false)

inductive Wrote (C : Config) (w : World) (subj : Subjects) (z : Store.Zone) (i : RecordSetInput)
    (shaky lossy : Prop) : Except Err Unit → World → Prop
  | failed {e : Err} (h : shaky ∨ Unwritable C w subj z i) :
      Wrote C w subj z i shaky lossy (.error e) w
  | done {pz : PDNS.Zone} {rr : RRset} (hw : writable z = .ok ())
      (hz : w.pdns.zone z.pdnsID = some pz)
      (h : C.limits.recordSet C.env z.name i pz.rrsets = .ok rr)
      (hok : changeOK pz.name rr = true) :
      Wrote C w subj z i shaky lossy (.ok ()) (w.patch z.pdnsID [rr])
  | lost {e : Err} (hl : lossy) {pz : PDNS.Zone} {rr : RRset} (hz : w.pdns.zone z.pdnsID = some pz)
      (h : C.limits.recordSet C.env z.name i pz.rrsets = .ok rr)
      (hok : changeOK pz.name rr = true) :
      Wrote C w subj z i shaky lossy (.error e) (w.patch z.pdnsID [rr])

theorem Applied.wrote (h : Applied C w z i shaky lossy (.error e) w') :
    Wrote C w subj z i shaky lossy (.error e) w' := by
  cases h with
  | secondary h => exact .failed (.inr (.secondary h))
  | invalid hz he => exact .failed (.inr (.invalid hz he))
  | failed e h =>
    refine .failed (h.imp_right fun h => ?_)
    cases hz : w.pdns.zone z.pdnsID with
    | none => exact .gone hz
    | some pz =>
      cases hrr : C.limits.recordSet C.env z.name i pz.rrsets with
      | error e => exact .invalid hz hrr
      | ok rr => exact .outside hz hrr (h pz rr hz hrr)
  | lost hl _ hz hrr hok => exact .lost hl hz hrr hok

theorem write_ensures (i : RecordSetInput) :
    Ensures (Act.Answers C.env.cases shaky lossy) (Wrote C w subj z i shaky lossy) w
      (do let _ ← apply C subj z i; pure ()) := by
  have happly : Ensures (Act.Answers C.env.cases shaky lossy)
      (fun r w' => Wrote C w subj z i shaky lossy (r.map fun _ => ()) w') w (apply C subj z i) := by
    refine ensures_check (fun ⟨⟩ _ => (apply_ensures i).bind ?_ ?_) fun e h =>
      .failed (.inr (.forbidden h))
    · rintro rr w' ⟨⟩
      next hw hz hrr hok => exact ensures_pure (.done hw hz hrr hok)
    · exact fun e w' h => h.wrote
  exact happly.bind (fun _ _ h => ensures_pure h) fun _ _ h => h

/-! ## Removing a set -/

def deletion (name type : Str) : RRset := ⟨name, type, 0, .delete, [], none⟩

inductive Removed (C : Config) (w : World) (z : Store.Zone) (k : Key) (shaky lossy : Prop) :
    Except Err Unit → World → Prop
  | secondary {e : Err} (h : writable z = .error e) : Removed C w z k shaky lossy (.error e) w
  | badKey {e : Err} (h : key C z k = .error e) : Removed C w z k shaky lossy (.error e) w
  | failed (e : PDNSErr) (h : shaky ∨ ∀ pz n t, w.pdns.zone z.pdnsID = some pz →
      key C z k = .ok (n, t) →
      changeOK pz.name (deletion n t) = false) :
      Removed C w z k shaky lossy (.error (Zones.mapPDNS (.pdns e))) w
  | absent {pz : PDNS.Zone} {n t : Str} (hk : key C z k = .ok (n, t))
      (hz : w.pdns.zone z.pdnsID = some pz) (hf : find C pz.rrsets n t = false) :
      Removed C w z k shaky lossy (.error .recordNotFound) w
  | done {pz : PDNS.Zone} {n t : Str} (hw : writable z = .ok ()) (hk : key C z k = .ok (n, t))
      (hz : w.pdns.zone z.pdnsID = some pz) (hok : changeOK pz.name (deletion n t) = true) :
      Removed C w z k shaky lossy (.ok ()) (w.patch z.pdnsID [deletion n t])
  | lost (e : PDNSErr) (hl : lossy) {pz : PDNS.Zone} {n t : Str} (hw : writable z = .ok ())
      (hk : key C z k = .ok (n, t)) (hz : w.pdns.zone z.pdnsID = some pz)
      (hok : changeOK pz.name (deletion n t) = true) :
      Removed C w z k shaky lossy (.error (Zones.mapPDNS (.pdns e)))
        (w.patch z.pdnsID [deletion n t])

theorem remove_ensures (k : Key) :
    Ensures (Act.Answers C.env.cases shaky lossy) (Removed C w z k shaky lossy) w
      (Impl.remove C z k) := by
  refine ensures_check (fun ⟨⟩ hw => ?_) fun e h => .secondary h
  refine ensures_check (fun (n, t) hk => ?_) fun e h => .badKey h
  refine rrsets_ensures.bind ?_ ?_
  · rintro cur _ (_ | hz)
    refine Ensures.ite (fun hf => .absent hk hz (by simpa using hf)) fun _ => ?_
    refine (patch_ensures [deletion n t]).mono ?_
    rintro _ _ (⟨e, h⟩ | ⟨hz', hok⟩ | ⟨e, hl, hz', hok⟩)
    · refine .failed e (h.imp_right fun h pz' n' t' hz' hk' => ?_)
      cases hk.symm.trans hk'
      simpa using h _ hz'
    · exact .done hw hk hz' (by simpa using hok)
    · exact .lost e hl hw hk hz' (by simpa using hok)
  · rintro e _ ⟨e, h⟩
    exact .failed e (h.imp_right fun h pz n t hz => by rw [h] at hz; cases hz)

/-! ## Looking up a set -/

theorem mapPDNS_not_recordsNotFound (e : PDNSErr) :
    (Zones.mapPDNS (.pdns e)).Is .recordsNotFound = false := by
  have hpdns : (Err.pdns e).Is .recordsNotFound = false := by
    cases e with
    | api status kind => cases kind <;> rfl
    | plain k => rfl
    | decode => rfl
  unfold Zones.mapPDNS
  split
  · split_ifs <;> rfl
  · split_ifs <;> rfl
  · split_ifs <;> rfl
  · exact hpdns

inductive LookedUp (C : Config) (w : World) (subj : Subjects) (z : Store.Zone) (k : Key)
    (shaky : Prop) :
    Except Err RecordSet → World → Prop
  | forbidden {e : Err} (h : Authz.require none (withoutUser subj) .zonesRead = .error e)
      (hf : e.Is .recordsNotFound = false) : LookedUp C w subj z k shaky (.error e) w
  | badName {e : NameErr} (h : recordName C.env z.name k.name = .error e) :
      LookedUp C w subj z k shaky (.error (.name e)) w
  | failed (e : PDNSErr) (h : shaky ∨ w.pdns.zone z.pdnsID = none) :
      LookedUp C w subj z k shaky (.error (Zones.mapPDNS (.pdns e))) w
  | absent {pz : PDNS.Zone} {n : Str} (hn : recordName C.env z.name k.name = .ok n)
      (hz : w.pdns.zone z.pdnsID = some pz)
      (hr : setAt C pz.rrsets n (toUpper C.env.cases (trimSpace k.type)) = none) :
      LookedUp C w subj z k shaky (.error .recordNotFound) w
  | found {pz : PDNS.Zone} {n : Str} {r : RRset} (hn : recordName C.env z.name k.name = .ok n)
      (hz : w.pdns.zone z.pdnsID = some pz)
      (hr : setAt C pz.rrsets n (toUpper C.env.cases (trimSpace k.type)) = some r) :
      LookedUp C w subj z k shaky (.ok (toView C r)) w

theorem require_not_recordsNotFound {c : Option Authz.Checker} {p : Permission}
    (h : Authz.require c subj p = .error e) : e.Is .recordsNotFound = false := by
  unfold Authz.require at h
  dsimp only at h
  split_ifs at h <;> cases h <;> rfl

theorem lookup_ensures (k : Key) :
    Ensures (Act.Answers C.env.cases shaky lossy) (LookedUp C w subj z k shaky) w
      (lookup C subj z k) := by
  refine ensures_check (fun ⟨⟩ _ => ?_) fun e h => .forbidden h (require_not_recordsNotFound h)
  refine ensures_check (fun n hn => ?_) fun e h => ?_
  · refine rrsets_ensures.bind ?_ ?_
    · rintro cur _ (_ | hz)
      have hn := Except.mapError_eq_ok.1 hn
      split
      next r hr => exact ensures_pure (.found hn hz hr)
      next hr => exact ensures_throw (.absent hn hz hr)
    · rintro e _ ⟨e, h⟩
      exact .failed e h
  · obtain ⟨e, he, rfl⟩ := Except.mapError_eq_error.1 h
    exact .badName he

theorem LookedUp.notFound (h : LookedUp C w subj z k shaky (.error e) w')
    (he : e.Is .recordsNotFound = true) : w' = w ∧ ∃ pz n, recordName C.env z.name k.name = .ok n ∧
      w.pdns.zone z.pdnsID = some pz ∧ setAt C pz.rrsets n
        (toUpper C.env.cases (trimSpace k.type)) = none := by
  cases h with
  | forbidden _ hf => rw [hf] at he; cases he
  | @badName e _ => cases e <;> cases he
  | failed e _ => rw [mapPDNS_not_recordsNotFound] at he; cases he
  | absent hn hz hr => exact ⟨rfl, _, _, hn, hz, hr⟩

inductive Unreadable (C : Config) (w : World) (subj : Subjects) (z : Store.Zone) (name : Str) : Prop
  | forbidden {e : Err} (h : Authz.require none (withoutUser subj) .zonesRead = .error e)
  | badName {e : NameErr} (h : recordName C.env z.name name = .error e)
  | gone (h : w.pdns.zone z.pdnsID = none)

theorem unreadable_of_lookedUp {name : Str}
    (h : LookedUp C w subj z ⟨name, t⟩ shaky (.error e) w')
    (he : e.Is .recordsNotFound = false) : w' = w ∧ (shaky ∨ Unreadable C w subj z name) := by
  cases h with
  | forbidden h _ => exact ⟨rfl, .inr (.forbidden h)⟩
  | badName h => exact ⟨rfl, .inr (.badName h)⟩
  | failed _ h => exact ⟨rfl, h.imp_right .gone⟩
  | absent => cases he

/-! ## Removing a set for a caller -/

/-- Without a failure of PowerDNS the set is not removed for the caller. -/
inductive Undeletable (C : Config) (w : World) (subj : Subjects) (z : Store.Zone) (k : Key) : Prop
  | forbidden {e : Err} (h : Authz.require none (withoutUser subj) .zonesManage = .error e)
  | secondary {e : Err} (h : writable z = .error e)
  | badKey {e : Err} (h : key C z k = .error e)
  | gone (h : w.pdns.zone z.pdnsID = none)
  | outside {pz : PDNS.Zone} {n t : Str} (hz : w.pdns.zone z.pdnsID = some pz)
      (hk : key C z k = .ok (n, t))
      (hok : changeOK pz.name (deletion n t) = false)

inductive Deleted (C : Config) (w : World) (subj : Subjects) (z : Store.Zone) (k : Key)
    (shaky lossy : Prop) :
    Except Err Unit → World → Prop
  | failed {e : Err} (h : shaky ∨ Undeletable C w subj z k) :
      Deleted C w subj z k shaky lossy (.error e) w
  | absent {pz : PDNS.Zone} {n t : Str} (hk : key C z k = .ok (n, t))
      (hz : w.pdns.zone z.pdnsID = some pz)
      (hf : find C pz.rrsets n t = false) : Deleted C w subj z k shaky lossy (.ok ()) w
  | done {pz : PDNS.Zone} {n t : Str} (hw : writable z = .ok ()) (hk : key C z k = .ok (n, t))
      (hz : w.pdns.zone z.pdnsID = some pz) (hok : changeOK pz.name (deletion n t) = true) :
      Deleted C w subj z k shaky lossy (.ok ()) (w.patch z.pdnsID [deletion n t])
  | lost {e : Err} (hl : lossy) {pz : PDNS.Zone} {n t : Str} (hk : key C z k = .ok (n, t))
      (hz : w.pdns.zone z.pdnsID = some pz) (hok : changeOK pz.name (deletion n t) = true) :
      Deleted C w subj z k shaky lossy (.error e) (w.patch z.pdnsID [deletion n t])

theorem key_not_recordsNotFound (h : key C z k = .error e) : e.Is .recordsNotFound = false := by
  unfold key at h
  cases hn : recordName C.env z.name k.name with
  | error ne =>
    rw [hn] at h
    cases h
    cases ne <;> rfl
  | ok n =>
    rw [hn] at h
    simp only [Except.mapError, bind, Except.bind] at h
    split_ifs at h
    cases h
    rfl

theorem writable_not_recordsNotFound (h : writable z = .error e) :
    e.Is .recordsNotFound = false := by
  unfold writable at h
  split_ifs at h
  cases h
  rfl

theorem removeAs_ensures (k : Key) :
    Ensures (Act.Answers C.env.cases shaky lossy) (Deleted C w subj z k shaky lossy) w
      (remove C subj z k) := by
  refine ensures_check (fun ⟨⟩ _ => (remove_ensures k).catch fun r w' h => ?_) fun e h =>
    .failed (.inr (.forbidden h))
  cases h with
  | secondary h =>
    refine Ensures.ite (fun he => ?_) fun _ => ensures_throw (.failed (.inr (.secondary h)))
    rw [writable_not_recordsNotFound h] at he
    cases he
  | badKey h =>
    refine Ensures.ite (fun he => ?_) fun _ => ensures_throw (.failed (.inr (.badKey h)))
    rw [key_not_recordsNotFound h] at he
    cases he
  | failed e h =>
    refine Ensures.ite (fun he => ?_) fun _ => ensures_throw (.failed (h.imp_right fun h => ?_))
    · rw [mapPDNS_not_recordsNotFound] at he
      cases he
    · cases hz : w.pdns.zone z.pdnsID with
      | none => exact .gone hz
      | some pz =>
        cases hk : key C z k with
        | error e => exact .badKey hk
        | ok nt => exact .outside hz hk (h pz nt.1 nt.2 hz hk)
  | absent hk hz hf =>
    exact Ensures.ite (fun _ => ensures_pure (.absent hk hz hf)) fun he => absurd rfl he
  | done hw hk hz hok => exact ensures_pure (.done hw hk hz hok)
  | lost e hl _ hk hz hok =>
    refine Ensures.ite (fun he => ?_) fun _ => ensures_throw (.lost hl hk hz hok)
    rw [mapPDNS_not_recordsNotFound] at he
    cases he

/-! ## Calls as edits -/

def Edits (C : Config) (z : Store.Zone) (w w' : World) : Prop :=
  w' = w ∨ ∃ pz changes, writable z = .ok () ∧ w.pdns.zone z.pdnsID = some pz ∧
    changes.all (changeOK pz.name) = true ∧ w' = w.patch z.pdnsID changes ∧
    (∀ r ∈ changes, (r.records.map Record.content).Nodup) ∧
    (WellFormed z.name pz.rrsets → Edit C.env z.name pz.rrsets
      (changes.foldl applyChange pz.rrsets))

theorem Applied.edits (hz : IsZone z.name) {r : Except Err RRset}
    (h : Applied C w z i shaky lossy r w') : Edits C z w w' := by
  cases h with
  | done hw hpz hrr hok | lost _ hw hpz hrr hok =>
    have hacc := recordSet_accepted hz hrr
    exact .inr ⟨_, _, hw, hpz, by simpa using hok, rfl, by simpa using hacc.distinct,
      fun _ => .write _ hacc⟩
  | _ => exact .inl rfl

theorem key_eq_ok (h : key C z k = .ok (n, t)) :
    recordName C.env z.name k.name = .ok n ∧ t = toUpper C.env.cases (trimSpace k.type) ∧
    t ∈ editableTypes := by
  obtain ⟨n', hn, h⟩ := Except.bind_eq_ok.1 h
  dsimp only at h
  split_ifs at h with he
  cases h
  exact ⟨Except.mapError_eq_ok.1 hn, rfl, mem_editableTypes (by simpa using he)⟩

theorem key_spec (hz : IsZone z.name) (h : key C z k = .ok (n, t)) :
    IsOwner z.name n ∧ t ∈ editableTypes := by
  obtain ⟨hn, -, ht⟩ := key_eq_ok h
  exact ⟨recordName_spec hz hn, ht⟩

theorem Removed.edits (hz : IsZone z.name) {r : Except Err Unit}
    (h : Removed C w z k shaky lossy r w') : Edits C z w w' := by
  cases h with
  | done hw hk hpz hok | lost _ _ hw hk hpz hok =>
    refine .inr ⟨_, _, hw, hpz, by simpa using hok, rfl, by simp [deletion], fun _ => ?_⟩
    rw [List.foldl_cons, List.foldl_nil]
    exact applyChange_delete _ _ ▸ .delete _ _ (key_spec hz hk).2
  | _ => exact .inl rfl

theorem changes_distinct (hz : IsZone z.name) {cur ch : List RRset}
    (h : Impl.changes C z k i cur = .ok (rr, ch)) :
    ∀ r ∈ ch, (r.records.map Record.content).Nodup := by
  obtain ⟨⟨n, t⟩, -, h⟩ := Except.bind_eq_ok.1 h
  dsimp only at h
  split_ifs at h
  obtain ⟨rr', hrr, h⟩ := Except.bind_eq_ok.1 h
  have hacc := recordSet_accepted hz hrr
  split_ifs at h <;> cases h <;> simpa using hacc.distinct

theorem changes_edit (hz : IsZone z.name) {cur ch : List RRset}
    (h : Impl.changes C z k i cur = .ok (rr, ch)) (hwf : WellFormed z.name cur) :
    Edit C.env z.name cur (ch.foldl applyChange cur) := by
  obtain ⟨⟨n, t⟩, hk, h⟩ := Except.bind_eq_ok.1 h
  dsimp only at h
  split_ifs at h with hf
  obtain ⟨rr', hrr, h⟩ := Except.bind_eq_ok.1 h
  obtain ⟨hn, ht⟩ := key_spec hz hk
  rw [filter_matches hwf.caseNormal hn.canonical.lower (editableTypes_upper _ ht)] at hrr h
  have hacc := recordSet_accepted hz hrr
  have hcom := recordSet_comments hrr
  split_ifs at h with hne hc
  · cases h
    rw [List.foldl_cons, List.foldl_cons, List.foldl_nil, applyChange_delete, applyChange_move hcom]
    · exact .move _ _ _ ht hacc
    · rw [RRset.isAt, Bool.and_eq_false_iff, beq_eq_false_iff_ne, beq_eq_false_iff_ne]
      exact hne
  · cases h
    obtain ⟨rfl, rfl⟩ := (not_or.1 hne).imp not_not.1 not_not.1
    rw [List.foldl_cons, List.foldl_nil, ← applyChange_without hcom]
    exact .move _ _ _ ht hacc

inductive Updated (C : Config) (w : World) (z : Store.Zone) (k : Key) (i : RecordSetInput) :
    Except Err RRset → World → Prop
  | failed (e : Err) : Updated C w z k i (.error e) w
  | done {pz : PDNS.Zone} {rr : RRset} {ch : List RRset} (hw : writable z = .ok ())
      (hz : w.pdns.zone z.pdnsID = some pz) (h : Impl.changes C z k i pz.rrsets = .ok (rr, ch))
      (hok : ch.all (changeOK pz.name) = true) : Updated C w z k i (.ok rr) (w.patch z.pdnsID ch)

theorem update_ensures (k : Key) (i : RecordSetInput) :
    Ensures (Act.Steps C.env.cases shaky) (Updated C w z k i) w (Impl.update C z k i) := by
  refine ensures_check (fun ⟨⟩ hw => ?_) fun _ _ => .failed _
  refine ensures_check (fun _ _ => ?_) fun _ _ => .failed _
  refine rrsets_ensures.bind ?_ ?_
  · rintro cur _ (_ | hpz)
    refine ensures_check (fun (rr, ch) hch => ?_) fun _ _ => .failed _
    refine (patch_ensures ch).bind ?_ ?_
    · rintro ⟨⟩ _ (_ | ⟨hpz', hok⟩)
      cases hpz.symm.trans hpz'
      exact .done hw hpz hch hok
    · rintro e _ (_ | _ | ⟨_, hl, -, -⟩)
      · exact .failed _
      · exact hl.elim
  · rintro e _ ⟨e, h⟩
    exact .failed _

theorem Updated.edits (hz : IsZone z.name) {r : Except Err RRset}
    (h : Updated C w z k i r w') : Edits C z w w' := by
  cases h with
  | failed e => exact .inl rfl
  | done hw hpz hch hok =>
    exact .inr ⟨_, _, hw, hpz, hok, rfl, changes_distinct hz hch, changes_edit hz hch⟩

/-! ## Sequences of calls -/

theorem load_bind {α : Type} (hmem : z ∈ w.store.zones) (perm : Permission) {f : Store.Zone → Act α}
    (hf : Ensures (Act.Steps C.env.cases shaky) (fun _ w' => Edits C z w w') w (f z)) :
    Ensures (Act.Steps C.env.cases shaky) (fun _ w' => Edits C z w w') w
      (Impl.load C subj z.id perm >>= f) := by
  refine (load_ensures perm).bind ?_ ?_
  · rintro z' _ ⟨rfl, hz'⟩
    obtain ⟨hmem', hid, -⟩ := Store.zone_eq_some.1 (hz' z' rfl)
    have : z' = z := Table.eq_of_clash hmem' hmem (by simp [Keyed.clash, hid])
    exact this ▸ hf
  · rintro e _ ⟨rfl, -⟩
    exact .inl rfl

theorem applyAs_edits (hz : IsZone z.name) (i : RecordSetInput) :
    Ensures (Act.Steps C.env.cases shaky) (fun _ w' => Edits C z w w') w (apply C subj z i) :=
  ensures_check (fun _ _ => (apply_ensures i).bind (fun _ _ h => h.edits hz)
    fun _ _ h => h.edits hz)
    fun _ _ => .inl rfl

theorem Call.edits (hz : IsZone z.name) (hmem : z ∈ w.store.zones) (c : Call) :
    Edits C z w (c.run C z w) := by
  have : Ensures (Act.Steps C.env.cases False) (fun _ w' => Edits C z w w') w (c.act C z) := by
    cases c with
    | upsert subj i =>
      refine Ensures.bind (load_bind hmem _ (applyAs_edits hz i)) ?_ ?_ <;> exact fun _ _ h => h
    | apply subj i => refine Ensures.bind (applyAs_edits hz i) ?_ ?_ <;> exact fun _ _ h => h
    | update subj k i =>
      refine Ensures.bind (load_bind hmem _ ?_) ?_ ?_
      · exact (update_ensures k i).bind (fun _ _ h => h.edits hz) fun _ _ h => h.edits hz
      all_goals exact fun _ _ h => h
    | delete subj k =>
      refine load_bind hmem _ ((remove_ensures k).mono fun _ _ h => h.edits hz)
    | remove subj k =>
      refine ensures_check (fun _ _ => (remove_ensures k).catch fun r w' h => ?_) fun _ _ =>
        .inl rfl
      have he := h.edits hz
      cases r with
      | ok => exact he
      | error e => exact Ensures.ite (fun _ => he) fun _ => he
  exact Act.ensures_exec this

/-- What holds of a zone's data along calls, beside what it was at first. -/
structure Kept (z : Store.Zone) (w : World) (pz : PDNS.Zone) (w' : World) (pz' : PDNS.Zone) :
    Prop where
  store : w'.store = w.store
  zone : w'.pdns.zone z.pdnsID = some pz'
  wellFormed : WellFormed z.name pz'.rrsets
  distinct : ∀ r ∈ pz'.rrsets, r ∈ pz.rrsets ∨ (r.records.map Record.content).Nodup
  soa : soa pz'.rrsets = soa pz.rrsets
  secondary : z.kind.needsMasters = true → pz' = pz

theorem Kept.step {w₀ : World} {pz₀ : PDNS.Zone} (hk : Kept z w₀ pz₀ w pz)
    (he : Edits C z w w') : ∃ pz', Kept z w₀ pz₀ w' pz' := by
  rcases he with rfl | ⟨pz', changes, hw, hpz, hok, rfl, -, hedit⟩
  · exact ⟨pz, hk⟩
  · cases hk.zone.symm.trans hpz
    have he := hedit hk.wellFormed
    refine ⟨_, hk.store, World.patch_zone hpz hok, he.wellFormed hk.wellFormed, fun r hr => ?_,
      he.soa.trans hk.soa, fun hsec => ?_⟩
    · rcases he.mem hr with hr | hr
      exacts [hk.distinct r hr, .inr hr]
    · simp only [writable, hsec, if_true, reduceCtorEq] at hw

theorem runCalls_kept (hz : IsZone z.name) (calls : List Call) {w₀ : World} {pz₀ : PDNS.Zone}
    (hmem : z ∈ w₀.store.zones) (hk : Kept z w₀ pz₀ w pz) :
    ∃ pz', Kept z w₀ pz₀ (runCalls C z calls w) pz' := by
  induction calls generalizing w pz with
  | nil => exact ⟨pz, hk⟩
  | cons c calls ih =>
    obtain ⟨pz', hk'⟩ := hk.step (Call.edits hz (hk.store ▸ hmem) c)
    exact ih hk'

/-- Nothing was changed, or sets of distinct values were written into the zone. -/
def Writes (z : Store.Zone) (w w' : World) : Prop :=
  w' = w ∨ ∃ changes, w' = w.patch z.pdnsID changes ∧
    ∀ r ∈ changes, (r.records.map Record.content).Nodup

/-- **Record data stay well formed.**  After any calls on a zone whose data are well formed, they
    are so again: a CNAME stands alone, below the apex, with one value; names lie inside the zone; a
    name and type occur once.  Every call writes sets of distinct values, a set that was not there
    at first has such, the SOA set is as it was, and a secondary zone is unchanged. -/
theorem runCalls_wellFormed (C : Config) (z : Store.Zone) (w : World) (pz : PDNS.Zone)
    (calls : List Call) (hname : IsZone z.name) (hrow : z ∈ w.store.zones)
    (hzone : w.pdns.zone z.pdnsID = some pz) (hwf : WellFormed z.name pz.rrsets) :
    ∃ pz', (runCalls C z calls w).pdns.zone z.pdnsID = some pz' ∧ WellFormed z.name pz'.rrsets ∧
      (∀ r ∈ pz'.rrsets, r ∈ pz.rrsets ∨ (r.records.map Record.content).Nodup) ∧
      (∀ before c after, calls = before ++ c :: after →
        Writes z (runCalls C z before w) (c.run C z (runCalls C z before w))) ∧
      soa pz'.rrsets = soa pz.rrsets ∧ (z.kind.needsMasters = true → pz' = pz) := by
  have hkept (calls : List Call) : ∃ pz', Kept z w pz (runCalls C z calls w) pz' :=
    runCalls_kept hname calls hrow ⟨rfl, hzone, hwf, fun r hr => .inl hr, rfl, fun _ => rfl⟩
  have hwrites (before : List Call) (c : Call) :
      Writes z (runCalls C z before w) (c.run C z (runCalls C z before w)) := by
    obtain ⟨_, hk⟩ := hkept before
    rcases Call.edits (C := C) hname (hk.store.symm ▸ hrow) c with h | ⟨_, changes, -, -,
      -, h, hd, -⟩
    exacts [.inl h, .inr ⟨changes, h, hd⟩]
  obtain ⟨pz', hk⟩ := hkept calls
  exact ⟨pz', hk.zone, hk.wellFormed, hk.distinct, fun before c _ _ => hwrites before c, hk.soa,
    hk.secondary⟩

theorem sample_wellFormed : WellFormed sampleZone.name samplePDNS.rrsets where
  lower := by decide
  upper := by decide
  inside := by decide
  unique := by decide
  alone := by decide
  apex := by decide
  single := by decide

/-- An address record, renamed and made an alias, in a zone of its own. -/
theorem runCalls_wellFormed_sample :
    let calls : List Call :=
      [.upsert (.internal (str "t")) ⟨str "www", str "A", 300, [⟨str "192.0.2.1", false⟩], []⟩,
        .update (.internal (str "t")) ⟨str "www", str "A"⟩
          ⟨str "ftp", str "CNAME", 300, [⟨str "example.net.", false⟩], []⟩]
    ∃ pz', (runCalls .sample sampleZone calls sampleWorld).pdns.zone
      (str "example.com.") = some pz' ∧
      WellFormed (str "example.com.") pz'.rrsets ∧ soa pz'.rrsets = soa samplePDNS.rrsets := by
  intro calls
  obtain ⟨pz', hz, hwf, -, -, hsoa, -⟩ :=
    runCalls_wellFormed .sample sampleZone sampleWorld samplePDNS
    calls (zoneName_spec (E := .sample) (s := str "example.com") (by decide +kernel))
    (List.mem_singleton.2 rfl) (by decide +kernel) sample_wellFormed
  exact ⟨pz', hz, hwf, hsoa⟩

end Records

end TangraDns
