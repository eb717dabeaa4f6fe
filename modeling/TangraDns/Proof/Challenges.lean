/-
  What presenting and cleaning up a challenge does to the set at its name.
-/
import TangraDns.ChallengeSets
import TangraDns.Proof.Content
import TangraDns.Proof.Records

namespace TangraDns.Challenges

open List Str Validate Records Prog.Failing PDNS

variable {C : Config} {w w' : World} {subj : Subjects} {z : Store.Zone} {fqdn value : Str}
  {shaky lossy : Prop}
variable {sets : List RRset} {vs : List Record} {pz : PDNS.Zone} {n v : Str}

/-! ## Requests -/

structure Name (C : Config) (fqdn : Str) : Prop where
  lower : ∃ x s, IsLowerStr s ∧ fqdn = toLower C.env.cases x ++ s
  head : fqdn.head? = some 95
  dotted : HasSuffix fqdn [dot]
  noEscape : 92 ∉ fqdn
  domain : C.env.isDomainName fqdn = true
  nonempty : fqdn ≠ [dot] ∧ ¬ Str.Contains fqdn [dot, dot]

theorem check_spec {r : Request} (h : check C r = .ok fqdn) :
    Name C fqdn ∧ valueOK r.value = true := by
  unfold check at h
  split_ifs at h with hv
  split at h
  · cases h
  next domain _ =>
    split_ifs at h with hc
    cases h
    refine ⟨?_, by simpa using hv⟩
    unfold canonical at hc
    dsimp only at hc
    split_ifs at hc with h1 h2
    obtain ⟨hdot, hdots, hchars⟩ := not_or.1 (fun h => h1 (h.imp_right id)) |>.imp_right not_or.1
    have hname := Option.some.inj hc
    have hesc : 92 ∉ C.env.fqdn (toLower C.env.cases (trimSpace r.fqdn)) := by
      intro hmem
      exact hchars (any_eq_true.2 ⟨92, hmem, by decide⟩)
    generalize htl : toLower C.env.cases (trimSpace r.fqdn) = t at *
    have ht : 92 ∉ t := by
      rcases C.env.fqdn_eq t with h | h <;> rw [h] at hesc
      · exact hesc
      · exact fun hm => hesc (mem_append_left _ hm)
    refine ⟨⟨trimSpace r.fqdn, if HasSuffix t [dot] then [] else [dot], ?_, ?_⟩, rfl, ?_,
      hname ▸ hesc, hname ▸ h2,
      hname ▸ ⟨hdot, hdots⟩⟩
    · split_ifs <;> decide
    · rw [← hname, C.env.fqdn_plain t ht, htl]
      split_ifs
      exacts [(append_nil t).symm, rfl]
    · rw [← hname, C.env.fqdn_plain t ht]
      split_ifs with hs
      exacts [hs, ⟨t, rfl⟩]

theorem Name.trimSpace_eq (h : Name C fqdn) : trimSpace fqdn = fqdn := by
  obtain ⟨t, ht⟩ := h.dotted
  exact trimSpace_of_ends h.head (by rw [← ht, getLast?_concat]) (by decide) (by decide)

theorem Name.fqdn_eq (h : Name C fqdn) : C.env.fqdn fqdn = fqdn := by
  rw [C.env.fqdn_plain fqdn h.noEscape, if_pos h.dotted]

theorem Name.recordName_eq (h : Name C fqdn) {s : Str} (hn : recordName C.env s fqdn = .ok n) :
    n = fqdn ∧ IsLowerStr fqdn := by
  obtain ⟨z', -, hn⟩ := Except.bind_eq_ok.1 hn
  have hne : ¬ (fqdn = [] ∨ fqdn = str "@") := by
    have := h.head
    rintro (rfl | rfl) <;> revert this <;> decide
  dsimp only at hn
  have hrel : ¬ (¬ HasSuffix fqdn [dot] ∧ HasPrefix fqdn [dot]) := fun hp => hp.1 h.dotted
  rw [h.trimSpace_eq, if_neg hne, if_neg hrel, if_pos h.dotted] at hn
  obtain ⟨⟨fq, ls⟩, hs, hn⟩ := Except.bind_eq_ok.1 hn
  have hfq : fq = fqdn ∧ IsLowerStr fqdn := by
    unfold Validate.split at hs
    dsimp only at hs
    rw [h.trimSpace_eq] at hs
    split_ifs at hs with h1 h2 h3 h4
    have hascii : isASCII (toLower C.env.cases fqdn) = true := by
      rw [isASCII_iff]
      intro b hb
      have := fun hp => h1 (any_eq_true.2 ⟨b, hb, hp⟩)
      simp only [Bool.or_eq_true, decide_eq_true_eq] at this
      grind
    obtain ⟨x, s, hs', hx⟩ := h.lower
    have hlow : IsLowerStr fqdn := by
      rw [hx] at hascii ⊢
      exact isLowerStr_toLower _ hs' hascii
    obtain ⟨rfl, -⟩ := Prod.mk.inj (Except.ok.inj hs)
    exact ⟨by rw [toLower_of_isLowerStr _ hlow, h.fqdn_eq], hlow⟩
  dsimp only at hn
  split at hn
  · cases hn
  · split_ifs at hn
    cases hn
    exact hfq

/-! ## Values -/

theorem valueOK_spec (h : valueOK v = true) :
    v.length = 43 ∧ v.all isPlainOctet = true ∧ 36 ∉ v := by
  simp only [valueOK, Bool.and_eq_true, beq_iff_eq, all_eq_true] at h
  refine ⟨h.1, all_eq_true.2 fun b hb => ?_, fun hb => absurd (h.2 _ hb) (by decide)⟩
  have := h.2 b hb
  simp only [isUpper, isLower, Bool.or_eq_true, Bool.and_eq_true, decide_eq_true_eq,
    beq_iff_eq] at this
  simp only [isPlainOctet, Bool.and_eq_true, bne_iff_ne, decide_eq_true_eq]
  grind

theorem quoted_eq (h : valueOK v = true) : quoted v = charStrings [v] :=
  (charStrings_singleton (valueOK_spec h).2.1).symm

theorem hasDirective_quoted (h : valueOK v = true) : hasDirective C.env (quoted v) = false := by
  have hascii : isASCII (quoted v) = true := by
    rw [isASCII_iff, quoted_eq h]
    intro b hb
    have := charStrings_printable [v] b hb
    grind
  refine hasDirective_eq_false hascii fun hm => ?_
  rw [quoted] at hm
  simp only [cons_append, mem_cons, mem_append, not_mem_nil, or_false] at hm
  rcases hm with hm | hm | hm
  exacts [absurd hm (by decide), (valueOK_spec h).2.2 hm, absurd hm (by decide)]

theorem content_quoted {s : Str} (hs : PlainName s) (h : valueOK v = true) :
    content C.env (str "TXT") s (quoted v) = .ok (quoted v) := by
  have hd : hasDirective C.env (quoted v) = false := hasDirective_quoted h
  have hlen : (quoted v).length = 45 := by simp [quoted, (valueOK_spec h).1]
  have hss : TextStrings [v] := ⟨by simp, by simp [(valueOK_spec h).1]⟩
  rw [quoted_eq h] at hd hlen ⊢
  rw [content_charStrings hs hss hd, if_neg (by rw [hlen]; decide)]

/-! ## Reading the set -/

theorem upper_literal {t : Str} (hp : ∀ b ∈ t, 0x21 ≤ b ∧ b ≤ 0x7e) (hu : IsUpperStr t) :
    toUpper C.env.cases (trimSpace t) = t := by
  rw [trimSpace_of_printable hp, toUpper_of_isUpperStr _ hu]

theorem upper_txt : toUpper C.env.cases (trimSpace (str "TXT")) = str "TXT" :=
  upper_literal (by decide +kernel) (by decide +kernel)

theorem upper_cname : toUpper C.env.cases (trimSpace (str "CNAME")) = str "CNAME" :=
  upper_literal (by decide +kernel) (by decide +kernel)

structure Read (C : Config) (w : World) (z : Store.Zone) (fqdn : Str) (pz : PDNS.Zone) (n : Str) :
    Prop where
  name : recordName C.env z.name fqdn = .ok n
  zone : w.pdns.zone z.pdnsID = some pz
  alone : setAt C pz.rrsets n (str "CNAME") = none

inductive Current (C : Config) (w : World) (subj : Subjects) (z : Store.Zone) (fqdn : Str)
    (shaky : Prop) :
    Except Err (Option RecordSet) → World → Prop
  | failed {e : Err} (h : shaky ∨ Unreadable C w subj z fqdn) :
      Current C w subj z fqdn shaky (.error e) w
  | cname {pz : PDNS.Zone} {n : Str} {r : RRset} (hn : recordName C.env z.name fqdn = .ok n)
      (hz : w.pdns.zone z.pdnsID = some pz) (hr : setAt C pz.rrsets n (str "CNAME") = some r) :
      Current C w subj z fqdn shaky (.error (.challengeCNAME fqdn)) w
  | read {pz : PDNS.Zone} {n : Str} (h : Read C w z fqdn pz n) :
      Current C w subj z fqdn shaky (.ok ((setAt C pz.rrsets n (str "TXT")).map (toView C))) w

theorem current_ensures :
    Ensures (Act.Answers C.env.cases shaky lossy) (Current C w subj z fqdn shaky) w
      (Impl.current C subj z fqdn) := by
  refine (lookup_ensures ⟨fqdn, str "CNAME"⟩).catch fun r w' h => ?_
  cases r with
  | ok v =>
    cases h with
    | found hn hz hr =>
      rw [upper_cname] at hr
      exact ensures_throw (.cname hn hz hr)
  | error e =>
    refine Ensures.ite (fun he => ?_) fun he => ?_
    · obtain ⟨rfl, hf⟩ := unreadable_of_lookedUp h (by simpa using he)
      exact ensures_throw (.failed hf)
    obtain ⟨rfl, pz, n, hn, hz, hr⟩ := h.notFound (by simpa using he)
    rw [upper_cname] at hr
    have hread {o : Option RRset} (ho : setAt C pz.rrsets n (str "TXT") = o) :
        Current C w' subj z fqdn shaky (.ok (o.map (toView C))) w' := ho ▸ .read ⟨hn, hz, hr⟩
    refine (lookup_ensures ⟨fqdn, str "TXT"⟩).catch fun r w'' h => ?_
    cases r with
    | ok v =>
      cases h with
      | @found pz' n' r hn' hz' hr' =>
        cases hn.symm.trans hn'
        cases hz.symm.trans hz'
        rw [upper_txt] at hr'
        exact ensures_pure (hread hr')
    | error e =>
      refine Ensures.ite (fun he => ?_) fun he => ?_
      · obtain ⟨rfl, pz', n', hn', hz', hr'⟩ := h.notFound he
        cases hn.symm.trans hn'
        cases hz.symm.trans hz'
        rw [upper_txt] at hr'
        exact ensures_pure (hread hr')
      · obtain ⟨rfl, hf⟩ := unreadable_of_lookedUp h (by simpa using he)
        exact ensures_throw (.failed hf)

theorem key_txt {t : Str} (h : key C z ⟨fqdn, str "TXT"⟩ = .ok (n, t)) :
    recordName C.env z.name fqdn = .ok n ∧ t = str "TXT" := by
  obtain ⟨n', hn, h⟩ := Except.bind_eq_ok.1 h
  dsimp only at h
  split_ifs at h
  obtain ⟨rfl, rfl⟩ := Prod.mk.inj (Except.ok.inj h)
  exact ⟨Except.mapError_eq_ok.1 hn, upper_txt⟩

theorem key_text (h : recordName C.env z.name fqdn = .ok n) :
    key C z ⟨fqdn, str "TXT"⟩ = .ok (n, str "TXT") := by
  have hed : editable C.env (str "TXT") = true := by
    rw [editable, toUpper_of_isUpperStr _ (by decide)]
    decide
  simp only [key, h, Except.mapError, bind, Except.bind, upper_txt, hed]
  rfl

theorem changeOK_text {r : RRset} (ht : r.type = str "TXT") (hc : r.changeType ≠ .none) :
    changeOK n r = decide (InZone r.name n) := by
  have hsoa : (str "TXT" == str "SOA") = false := by decide
  have hc : (r.changeType != .none) = true := bne_iff_ne.2 hc
  rw [changeOK, ht, hsoa, hc, Bool.false_and, Bool.not_false, Bool.and_true, Bool.and_true]

theorem changeOK_written {i : RecordSetInput} :
    changeOK n (written i fqdn (str "TXT") vs) = decide (InZone fqdn n) :=
  changeOK_text rfl (by rintro ⟨⟩)

theorem changeOK_deletion : changeOK n (deletion fqdn (str "TXT")) = decide (InZone fqdn n) :=
  changeOK_text rfl (by rintro ⟨⟩)

/-! ## Other values -/

theorem quoted_injective {u : Str} (h : quoted u = quoted v) : u = v := by
  simpa [quoted] using h

theorem not_mem_others : quoted value ∉ (others value vs).map Record.content := by
  intro h
  obtain ⟨x, hx, hc⟩ := List.mem_map.1 h
  have := (List.mem_filter.1 hx).2
  rw [hc, beq_self_eq_true] at this
  cases this

theorem mem_others_iff {u : Str} (hne : u ≠ v) :
    quoted u ∈ (others v vs).map Record.content ↔ quoted u ∈ vs.map Record.content := by
  have hq : quoted u ≠ quoted v := fun h => hne (quoted_injective h)
  constructor
  · intro h
    obtain ⟨x, hx, hc⟩ := List.mem_map.1 h
    exact List.mem_map.2 ⟨x, mem_of_mem_filter hx, hc⟩
  · intro h
    obtain ⟨x, hx, hc⟩ := List.mem_map.1 h
    exact List.mem_map.2 ⟨x, List.mem_filter.2 ⟨hx, by simpa [hc] using hq⟩, hc⟩

/-! ## Presenting a value -/

def valuesAt (C : Config) (sets : List RRset) (n : Str) : List Record :=
  ((setAt C sets n (str "TXT")).map RRset.records).getD []

def Holds (C : Config) (sets : List RRset) (n value : Str) : Prop :=
  quoted value ∈ (valuesAt C sets n).map Record.content

theorem viewed_contents (sets : List RRset) (n : Str) :
    ((((setAt C sets n (str "TXT")).map (toView C)).map RecordSet.values).getD []).map
      RecordValue.content =
      (valuesAt C sets n).map Record.content := by
  rw [valuesAt]
  cases setAt C sets n (str "TXT") with
  | none => rfl
  | some r => simp [toView]

def offered (C : Config) (sets : List RRset) (n fqdn value : Str) : RecordSetInput :=
  Impl.withValue C ((setAt C sets n (str "TXT")).map (toView C)) fqdn value

/-- The value is not taken, with no failure of PowerDNS. -/
inductive Refused (C : Config) (w : World) (subj : Subjects) (z : Store.Zone) (fqdn value : Str) :
    Prop
  | unreadable (h : Unreadable C w subj z fqdn)
  | cname {pz : PDNS.Zone} {n : Str} {r : RRset} (hn : recordName C.env z.name fqdn = .ok n)
      (hz : w.pdns.zone z.pdnsID = some pz) (hr : setAt C pz.rrsets n (str "CNAME") = some r)
  | forbidden {e : Err} (h : Authz.require none (withoutUser subj) .zonesManage = .error e)
  | secondary {e : Err} (h : writable z = .error e)
  | invalid {pz : PDNS.Zone} {n : Str} {e : Err} (h : Read C w z fqdn pz n)
      (hv : ¬ Holds C pz.rrsets n value)
      (he : C.limits.recordSet C.env z.name (offered C pz.rrsets n fqdn value) pz.rrsets = .error e)
  | outside {pz : PDNS.Zone} {n : Str} {rr : RRset} (h : Read C w z fqdn pz n)
      (hv : ¬ Holds C pz.rrsets n value)
      (hrr : C.limits.recordSet C.env z.name (offered C pz.rrsets n fqdn value) pz.rrsets = .ok rr)
      (hok : changeOK pz.name rr = false)

def booked (subj : Subjects) (z : Store.Zone) (fqdn value : Str) (w : World) : World :=
  { w with
    minted := w.minted + 1
    ticks := w.ticks + 1
    store := (w.store.insertChallenge (w.times (w.ticks + 1))
      ⟨w.ids w.minted, z.tenantID, z.id, fqdn, value, subj.peerSPIFFE, w.times w.ticks⟩).2 }

theorem record_ensures : Ensures (Act.Answers C.env.cases shaky lossy)
    (fun r w' => r = .ok () ∧ w' = booked subj z fqdn value w) w
    (Impl.record subj z fqdn value) := by
  refine Act.ensures_newID (Act.ensures_now (Act.ensures_store ?_))
  exact ensures_pure ⟨rfl, rfl⟩

inductive Presented (C : Config) (w : World) (subj : Subjects) (z : Store.Zone) (fqdn value : Str)
    (shaky lossy : Prop) : Except Err Unit → World → Prop
  | failed {e : Err} (h : shaky ∨ Refused C w subj z fqdn value) :
      Presented C w subj z fqdn value shaky lossy (.error e) w
  | there {pz : PDNS.Zone} {n : Str} (h : Read C w z fqdn pz n) (hv : Holds C pz.rrsets n value) :
      Presented C w subj z fqdn value shaky lossy (.ok ()) (booked subj z fqdn value w)
  | added {pz : PDNS.Zone} {n : Str} {rr : RRset} (h : Read C w z fqdn pz n)
      (hv : ¬ Holds C pz.rrsets n value)
      (hrr : C.limits.recordSet C.env z.name (offered C pz.rrsets n fqdn value) pz.rrsets = .ok rr)
      (hok : changeOK pz.name rr = true) :
      Presented C w subj z fqdn value shaky lossy (.ok ())
        (booked subj z fqdn value (w.patch z.pdnsID [rr]))
  | lost {e : Err} (hl : lossy) {pz : PDNS.Zone} {n : Str} {rr : RRset} (h : Read C w z fqdn pz n)
      (hrr : C.limits.recordSet C.env z.name (offered C pz.rrsets n fqdn value) pz.rrsets = .ok rr)
      (hok : changeOK pz.name rr = true) :
      Presented C w subj z fqdn value shaky lossy (.error e) (w.patch z.pdnsID [rr])

theorem refused_of_unwritable (hread : Read C w z fqdn pz n)
    (hv : ¬ Holds C pz.rrsets n value)
    (h : Unwritable C w subj z (offered C pz.rrsets n fqdn value)) :
    Refused C w subj z fqdn value := by
  cases h with
  | forbidden h => exact .forbidden h
  | secondary h => exact .secondary h
  | gone h => exact .unreadable (.gone h)
  | invalid hz he =>
    cases hread.zone.symm.trans hz
    exact .invalid hread hv he
  | outside hz hrr hok =>
    cases hread.zone.symm.trans hz
    exact .outside hread hv hrr hok

theorem writeMapped_ensures (i : RecordSetInput) :
    Ensures (Act.Answers C.env.cases shaky lossy) (Wrote C w subj z i shaky lossy) w
      (Impl.write (do let _ ← Records.apply C subj z i; pure ())) := by
  refine (write_ensures i).catch fun r w' h => ?_
  cases h with
  | failed h => exact ensures_throw (.failed h)
  | done hw hz hrr hok => exact ensures_pure (.done hw hz hrr hok)
  | lost hl hz hrr hok => exact ensures_throw (.lost hl hz hrr hok)

theorem present_ensures : Ensures (Act.Answers C.env.cases shaky lossy)
    (Presented C w subj z fqdn value shaky lossy) w
    (Impl.present C subj z fqdn value) := by
  refine current_ensures.bind ?_ ?_
  · rintro rs w' h
    cases h with
    | @read pz n hread =>
      refine Ensures.ite (fun hv => ?_) fun hv => ?_
      · rw [viewed_contents] at hv
        refine record_ensures.mono ?_
        rintro _ _ ⟨rfl, rfl⟩
        exact .there hread hv
      rw [viewed_contents] at hv
      refine (writeMapped_ensures _).bind ?_ ?_
      · rintro ⟨⟩ w' h
        cases h with
        | done hw hz hrr hok =>
          cases hread.zone.symm.trans hz
          refine record_ensures.mono ?_
          rintro _ _ ⟨rfl, rfl⟩
          exact .added hread hv hrr hok
      · rintro e w' h
        cases h with
        | failed h => exact .failed (h.imp_right (refused_of_unwritable hread hv))
        | lost hl hz hrr hok =>
          cases hread.zone.symm.trans hz
          exact .lost hl hread hrr hok
  · rintro e w' h
    cases h with
    | failed h => exact .failed (h.imp_right .unreadable)
    | cname hn hz hr => exact .failed (.inr (.cname hn hz hr))

/-! ## Removing a value -/

/-- The set without the value, as it is sent to the record service. -/
def rest (C : Config) (r : RRset) (fqdn value : Str) : RecordSetInput :=
  ⟨fqdn, str "TXT", r.ttl, (others value r.records).map fun x => ⟨x.content, x.disabled⟩,
    (toView C r).comment⟩

/-- The value is not taken out, with no failure of PowerDNS. -/
inductive Stuck (C : Config) (w : World) (subj : Subjects) (z : Store.Zone) (fqdn value : Str) :
    Prop
  | unreadable (h : Unreadable C w subj z fqdn)
  | cname {pz : PDNS.Zone} {n : Str} {r : RRset} (hn : recordName C.env z.name fqdn = .ok n)
      (hz : w.pdns.zone z.pdnsID = some pz) (hr : setAt C pz.rrsets n (str "CNAME") = some r)
  | undeletable {pz : PDNS.Zone} {n : Str} (h : Read C w z fqdn pz n)
      (hv : Holds C pz.rrsets n value)
      (hu : Undeletable C w subj z ⟨fqdn, str "TXT"⟩)
  | unwritable {pz : PDNS.Zone} {n : Str} {r : RRset} (h : Read C w z fqdn pz n)
      (hr : setAt C pz.rrsets n (str "TXT") = some r) (hv : Holds C pz.rrsets n value)
      (hne : others value r.records ≠ []) (hu : Unwritable C w subj z (rest C r fqdn value))

inductive Replied (lossy : Prop) : Except Err Unit → Prop
  | ok : Replied lossy (.ok ())
  | lost {e : Err} (h : lossy) : Replied lossy (.error e)

/-- The ways taking a value out of its set ends. -/
inductive Dropped (C : Config) (w : World) (subj : Subjects) (z : Store.Zone) (fqdn value : Str)
    (shaky lossy : Prop) : Except Err Unit → World → Prop
  | failed {e : Err} (h : shaky ∨ Stuck C w subj z fqdn value) :
      Dropped C w subj z fqdn value shaky lossy (.error e) w
  | absent {pz : PDNS.Zone} {n : Str} (h : Read C w z fqdn pz n)
      (hv : ¬ Holds C pz.rrsets n value) :
      Dropped C w subj z fqdn value shaky lossy (.ok ()) w
  | emptied {pz : PDNS.Zone} {n : Str} {r : RRset} (h : Read C w z fqdn pz n)
      (hr : setAt C pz.rrsets n (str "TXT") = some r) (hv : Holds C pz.rrsets n value)
      (hnil : others value r.records = []) (hok : changeOK pz.name (deletion n (str "TXT")) = true)
      {a : Except Err Unit} (ha : Replied lossy a) :
      Dropped C w subj z fqdn value shaky lossy a (w.patch z.pdnsID [deletion n (str "TXT")])
  | rewritten {pz : PDNS.Zone} {n : Str} {r rr : RRset} (h : Read C w z fqdn pz n)
      (hr : setAt C pz.rrsets n (str "TXT") = some r) (hv : Holds C pz.rrsets n value)
      (hne : others value r.records ≠ [])
      (hrr : C.limits.recordSet C.env z.name (rest C r fqdn value) pz.rrsets = .ok rr)
      (hok : changeOK pz.name rr = true) {a : Except Err Unit} (ha : Replied lossy a) :
      Dropped C w subj z fqdn value shaky lossy a (w.patch z.pdnsID [rr])

theorem holds_iff {r : RRset} (hr : setAt C sets n (str "TXT") = some r) :
    Holds C sets n value ↔ quoted value ∈ r.records.map Record.content := by
  rw [Holds, valuesAt, hr]
  rfl

theorem drop_ensures {r : RRset} (hread : Read C w z fqdn pz n)
    (hr : setAt C pz.rrsets n (str "TXT") = some r) :
    Ensures (Act.Answers C.env.cases shaky lossy) (Dropped C w subj z fqdn value shaky lossy) w
      (Impl.drop C subj z (toView C r) fqdn value) := by
  have hcontents : (toView C r).values.map RecordValue.content = r.records.map Record.content := by
    simp [toView]
  have hrest : (toView C r).values.filter (fun v => !(v.content == quoted value)) =
      (others value r.records).map fun x => ⟨x.content, x.disabled⟩ := by
    rw [others, toView, List.filter_map]
    rfl
  unfold Impl.drop
  dsimp only
  rw [hcontents, hrest]
  refine Ensures.ite (fun hv => ensures_pure (.absent hread fun h => hv ((holds_iff hr).1 h)))
    fun hv => ?_
  have hv : Holds C pz.rrsets n value := (holds_iff hr).2 (not_not.1 hv)
  refine Ensures.ite (fun hnil => ?_) fun hne => ?_
  · refine (removeAs_ensures _).catch fun r' w' h => ?_
    cases h with
    | failed h => exact ensures_throw (.failed (h.imp_right (.undeletable hread hv)))
    | @absent pz' n' t hk hz hf =>
      -- the set was found in the same state
      obtain ⟨hn', rfl⟩ := key_txt hk
      cases hread.name.symm.trans hn'
      cases hread.zone.symm.trans hz
      rw [find, any_eq_false] at hf
      exact absurd (by simpa using find?_some hr) (hf r (mem_of_find?_eq_some hr))
    | @done pz' n' t hw hk hz hok =>
      obtain ⟨hn', rfl⟩ := key_txt hk
      cases hread.name.symm.trans hn'
      cases hread.zone.symm.trans hz
      exact ensures_pure (.emptied hread hr hv (map_eq_nil_iff.1 hnil) hok .ok)
    | lost hl hk hz hok =>
      obtain ⟨hn', rfl⟩ := key_txt hk
      cases hread.name.symm.trans hn'
      cases hread.zone.symm.trans hz
      exact ensures_throw (.emptied hread hr hv (map_eq_nil_iff.1 hnil) hok (.lost hl))
  · have hne : others value r.records ≠ [] := fun h => hne (by rw [h]; rfl)
    refine (writeMapped_ensures _).mono fun r' w' h => ?_
    cases h with
    | failed h => exact .failed (h.imp_right (.unwritable hread hr hv hne))
    | done hw hz hrr hok =>
      cases hread.zone.symm.trans hz
      exact .rewritten hread hr hv hne hrr hok .ok
    | lost hl hz hrr hok =>
      cases hread.zone.symm.trans hz
      exact .rewritten hread hr hv hne hrr hok (.lost hl)

def unbooked (T fqdn value : Str) (w : World) : World :=
  { w with store := (w.store.deleteChallenge T fqdn value).2 }

theorem remove_ensures : Ensures (Act.Answers C.env.cases shaky lossy)
    (fun r w' => (∃ e, r = .error e ∧ Dropped C w subj z fqdn value shaky lossy (.error e) w') ∨
      ∃ w₁, Dropped C w subj z fqdn value shaky lossy (.ok ()) w₁ ∧ r = .ok () ∧
        w' = unbooked z.tenantID fqdn value w₁) w
    (Impl.remove C subj z fqdn value) := by
  have hfound : Ensures (Act.Answers C.env.cases shaky lossy)
      (Dropped C w subj z fqdn value shaky lossy) w
      (Impl.dropFound C subj z fqdn value) := by
    refine current_ensures.bind ?_ ?_
    · rintro rs w' h
      cases h with
      | @read pz n hread =>
        cases hr : setAt C pz.rrsets n (str "TXT") with
        | none =>
          refine ensures_pure (.absent hread ?_)
          rw [Holds, valuesAt, hr]
          exact not_mem_nil
        | some r => exact drop_ensures hread hr
    · rintro e w' h
      cases h with
      | failed h => exact .failed (h.imp_right .unreadable)
      | cname hn hz hr => exact .failed (.inr (.cname hn hz hr))
  refine hfound.bind ?_ ?_
  · rintro ⟨⟩ w₁ h
    refine Act.ensures_store (ensures_pure (.inr ⟨w₁, h, rfl, ?_⟩))
    rfl
  · exact fun e w' h => .inl ⟨e, rfl, h⟩

theorem Dropped.stuck (h : Dropped C w subj z fqdn value shaky lossy (.error e) w') :
    lossy ∨ w' = w ∧ (shaky ∨ Stuck C w subj z fqdn value) := by
  cases h with
  | failed h => exact .inr ⟨rfl, h⟩
  | emptied _ _ _ _ _ ha | rewritten _ _ _ _ _ _ ha =>
    cases ha with
    | lost hl => exact .inl hl

/-! ## Requests and their zones -/

structure Resolved (C : Config) (w : World) (subj : Subjects) (req : Request) (s : Subjects)
    (z : Store.Zone)
    (fqdn : Str) : Prop where
  caller : Authz.challenger subj C.allowedCaller = .ok s
  name : check C req = .ok fqdn
  allowed : Zones.guard C s .zonesRead = .ok ()
  zone : ∃ n, Zones.canonicalFQDN C fqdn = some n ∧
    Store.longestZone (w.store.zonesForTenant subj.tenantID) n = some z
  primary : z.kind.needsMasters = false

inductive Unresolved (C : Config) (w : World) (subj : Subjects) (req : Request) : Prop
  | forbidden {e : Err} (h : Authz.challenger subj C.allowedCaller = .error e)
  | invalid {e : Err} (h : check C req = .error e)
  | notAllowed {s : Subjects} {e : Err} (hs : Authz.challenger subj C.allowedCaller = .ok s)
      (h : Zones.guard C s .zonesRead = .error e)
  | noZone {fqdn : Str} (hc : check C req = .ok fqdn)
      (h : ∀ n z, Zones.canonicalFQDN C fqdn = some n →
      Store.longestZone (w.store.zonesForTenant subj.tenantID) n = some z →
      z.kind.needsMasters = true)

theorem challenger_tenantID {s : Subjects} (h : Authz.challenger subj C.allowedCaller = .ok s) :
    s.tenantID = subj.tenantID := by
  obtain ⟨⟨⟩, -, rfl⟩ := Except.map_eq_ok.1 h
  rfl

theorem Resolved.mem {req : Request} {s : Subjects} (h : Resolved C w subj req s z fqdn) :
    z ∈ w.store.zones ∧ z.tenantID = subj.tenantID := by
  obtain ⟨n, -, hz⟩ := h.zone
  exact Store.mem_zonesForTenant.1 (Store.longestZone_spec hz).1

inductive Resolves (C : Config) (w : World) (subj : Subjects) (req : Request) :
    Except Err (Subjects × Store.Zone × Str) → World → Prop
  | failed {e : Err} (h : Unresolved C w subj req) : Resolves C w subj req (.error e) w
  | done {s : Subjects} {z : Store.Zone} {fqdn : Str} (h : Resolved C w subj req s z fqdn) :
      Resolves C w subj req (.ok (s, z, fqdn)) w

theorem resolve_ensures (req : Request) :
    Ensures (Act.Answers C.env.cases shaky lossy) (Resolves C w subj req) w
      (Impl.resolve C subj req) := by
  refine ensures_check (fun s hs => ?_) fun e h => .failed (.forbidden h)
  refine ensures_check (fun fqdn hc => ?_) fun e h => .failed (.invalid h)
  have hfind : Ensures (Act.Answers C.env.cases shaky lossy) (fun r w' => w' = w ∧
      ((∃ e, r = .error e ∧ Unresolved C w subj req) ∨ ∃ z, r = .ok z ∧
        Zones.guard C s .zonesRead = .ok () ∧
        ∃ n, Zones.canonicalFQDN C fqdn = some n ∧
          Store.longestZone (w.store.zonesForTenant subj.tenantID) n = some z)) w
            (Zones.findForName C s fqdn) := by
    refine ensures_check (fun ⟨⟩ hg => ?_) fun e h => ⟨rfl, .inl ⟨e, rfl, .notAllowed hs h⟩⟩
    split
    next hn =>
      refine ensures_throw ⟨rfl, .inl ⟨_, rfl, .noZone hc fun n z h => ?_⟩⟩
      rw [hn] at h
      cases h
    next n hn =>
      refine Act.ensures_read rfl ?_
      rw [challenger_tenantID hs]
      split
      next z hz => exact ensures_pure ⟨rfl, .inr ⟨z, rfl, hg, n, hn, hz⟩⟩
      next hz =>
        refine ensures_throw ⟨rfl, .inl ⟨_, rfl, .noZone hc fun n' z h hz' => ?_⟩⟩
        cases hn.symm.trans h
        rw [hz] at hz'
        cases hz'
  refine hfind.catch ?_
  rintro _ _ ⟨rfl, ⟨e, rfl, hu⟩ | ⟨z, rfl, hg, n, hn, hz⟩⟩
  · exact ensures_throw (.failed hu)
  · refine Ensures.ite (fun hk => ensures_throw (.failed (.noZone hc fun n' z' hn' hz' => ?_)))
        fun hk =>
      ensures_pure (.done ⟨hs, hc, hg, ⟨n, hn, hz⟩, by simpa using hk⟩)
    cases hn.symm.trans hn'
    cases hz.symm.trans hz'
    exact hk

/-! ## Serving the value -/

theorem offered_spec {rr : RRset} (hname : Name C fqdn) (hv : valueOK value = true)
    (hrr : C.limits.recordSet C.env z.name (offered C pz.rrsets n fqdn value) pz.rrsets = .ok rr) :
    rr.name = fqdn ∧ rr.type = str "TXT" ∧ rr.changeType = .replace ∧
      ∃ rs, rr.records = rs ++ [⟨quoted value, false⟩] := by
  obtain ⟨z', t, n', records, hz', hvalid, hcanon, -, rfl⟩ := recordSet_eq_ok.1 hrr
  dsimp only [offered, Impl.withValue] at hcanon hvalid
  obtain ⟨rfl, -⟩ := hname.recordName_eq hvalid.name
  obtain rfl : t = str "TXT" := (editableType_spec hvalid.type).1.trans upper_txt
  refine ⟨rfl, rfl, rfl, ?_⟩
  obtain ⟨rs, ⟨c, d⟩, hrecords, -, hc, hd⟩ := canon_concat hcanon
  dsimp only at hc hd
  rw [content_quoted (canonicalZone_spec hz').plainName hv] at hc
  cases hc
  cases hd
  exact ⟨rs, hrecords⟩

theorem applyChange_mem (sets : List RRset) {rr : RRset} (hc : rr.changeType = .replace)
    (hne : rr.records ≠ []) :
    ∃ r ∈ applyChange sets rr, r.name = rr.name ∧ r.type = rr.type ∧ r.records = rr.records := by
  rw [applyChange, if_pos ⟨hc, hne⟩]
  exact ⟨_, mem_append_right _ (mem_singleton.2 rfl), rfl, rfl, rfl⟩

theorem found_of_holds (h : Holds C sets n value) :
    ∃ r ∈ setAt C sets n (str "TXT"), quoted value ∈ r.records.map Record.content := by
  unfold Holds valuesAt at h
  cases hr : setAt C sets n (str "TXT") with
  | none => rw [hr] at h; cases h
  | some r => rw [hr] at h; exact ⟨r, rfl, h⟩

theorem holds_of_found (h : ∃ r ∈ setAt C sets n (str "TXT"), quoted value ∈
    r.records.map Record.content) : Holds C sets n value := by
  obtain ⟨r, hr, hmem⟩ := h
  exact (holds_iff hr).2 hmem

/-- **A value that was presented is served, unless it was in the set, disabled.** -/
theorem present_serves (C : Config) (subj : Subjects) (req : Request) (w : World) (shaky : Prop) :
    Ensures (Act.Steps C.env.cases shaky) (fun r w' => ∀ zone, r = .ok zone → ∃ z ∈ w.store.zones,
      z.tenantID = subj.tenantID ∧ z.name = zone ∧ ∃ fqdn pz pz', check C req = .ok fqdn ∧
        w.pdns.zone z.pdnsID = some pz ∧ w'.pdns.zone z.pdnsID = some pz' ∧
        (Serves C pz'.rrsets fqdn req.value ↔ ¬ Withheld C pz.rrsets fqdn req.value)) w
      (present C subj req) := by
  refine (resolve_ensures req).bind ?_ ?_
  · rintro ⟨s, z, fqdn⟩ _ (_ | hres)
    obtain ⟨hname, hvalue⟩ := check_spec hres.name
    refine present_ensures.bind ?_ ?_
    · rintro ⟨⟩ w' h
      refine ensures_pure ?_
      rintro _ ⟨⟩
      refine ⟨z, hres.mem.1, hres.mem.2, rfl, fqdn, ?_⟩
      cases h with
      | @there pz n hread hv =>
        obtain ⟨rfl, -⟩ := hname.recordName_eq hread.name
        refine ⟨pz, pz, hres.name, hread.zone, hread.zone, fun hs hw => hw.2 hs,
          fun hw => not_not.1 fun hs => hw ?_⟩
        exact ⟨found_of_holds hv, hs⟩
      | @added pz n rr hread hv hrr hok =>
        obtain ⟨rfl, -⟩ := hname.recordName_eq hread.name
        obtain ⟨hn, ht, hc, rs, hrs⟩ := offered_spec hname hvalue hrr
        refine ⟨pz, _, hres.name, hread.zone, World.patch_zone hread.zone (by simpa using hok), ?_⟩
        obtain ⟨r, hr, hrn, hrt, hrr⟩ := applyChange_mem pz.rrsets hc (by rw [hrs]; simp)
        have hserves : Serves C (applyChange pz.rrsets rr) n req.value := by
          refine ⟨r, hr, ⟨?_, ?_⟩, by rw [hrr, hrs]; simp⟩
          · rw [hrn, hn]
            rfl
          · rw [hrt, ht]
            rfl
        exact ⟨fun _ hw => hv (holds_of_found hw.1), fun _ => hserves⟩
    · rintro e w' _ zone ⟨⟩
  · rintro e w' _ zone ⟨⟩

/-- The value is in the set, disabled: it is presented and not served. -/
theorem present_withheld :
    let r := exec (handler .ascii) (present .sample sampleCaller sampleRequest)
      (sampleWith ⟨sampleName, str "TXT", 60, .none, [⟨quoted sampleValue, true⟩], none⟩)
    r.1 = .ok (str "example.com.") ∧ ∃ pz ∈ r.2.pdns.zone (str "example.com."),
      ¬ Serves .sample pz.rrsets sampleName sampleValue := by
  decide +kernel

end TangraDns.Challenges
