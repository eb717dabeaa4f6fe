/-
  Which stale rows sweep passes get to.
-/
import TangraDns.Data.Rank
import TangraDns.Proof.Sweep
import Mathlib.Data.List.Perm.Subperm

namespace TangraDns.Challenges

open List Str Validate Records Prog Prog.Failing PDNS

variable {C : Config} {w w' : World} {subj : Subjects} {z z' : Store.Zone}
  {fqdn fqdn' value value' : Str}
  {shaky : Prop} {c d : Store.Challenge} {pz : PDNS.Zone} {r rr : RRset} {maxAge : ℕ}

/-! ## Values that are gone -/

theorem mem_rest {sets : List RRset} (hspell : SpelledIn C z.name sets) (hr : r ∈ sets)
    (ht : r.type = str "TXT")
    (hrr : C.limits.recordSet C.env z.name (rest C r fqdn value) sets = .ok rr)
    (hv : valueOK value' = true)
    (h : quoted value' ∈ rr.records.map Record.content) :
    quoted value' ∈ (others value r.records).map Record.content := by
  obtain ⟨zone, t, n, records, hzone, hvalid, hcanon, -, rfl⟩ := recordSet_eq_ok.1 hrr
  obtain rfl : t = str "TXT" := (editableType_spec hvalid.type).1.trans upper_txt
  obtain ⟨y, hy, hyv⟩ := List.mem_map.1 h
  obtain ⟨v, hv', hvy, -⟩ := forall₂_mem_right hcanon hy
  obtain ⟨x, hx, rfl⟩ := List.mem_map.1 hv'
  rw [hyv] at hvy
  exact List.mem_map.2 ⟨x, hx, hspell r hr ht x (mem_of_mem_filter hx) zone value' hzone hv hvy⟩

theorem spelledIn_write {sets : List RRset} (hspell : SpelledIn C z.name sets)
    {i : RecordSetInput} {existing : List RRset}
    (hrr : C.limits.recordSet C.env z.name i existing = .ok rr) :
    SpelledIn C z.name (applyChange sets rr) := by
  obtain ⟨hc, hnil, hcom⟩ := recordSet_replaces hrr
  obtain ⟨zone, t, n, records, hzone, hvalid, hcanon, -, rfl⟩ := recordSet_eq_ok.1 hrr
  rw [applyChange_eq hc hnil hcom]
  intro r hr ht x hx zone' v hzone' hv hx'
  rcases mem_append.1 hr with hr | hr
  · exact hspell r (mem_of_mem_filter hr) ht x hx zone' v hzone' hv hx'
  · -- canonical forms are their own
    obtain rfl := mem_singleton.1 hr
    obtain rfl : t = str "TXT" := ht
    cases hzone.symm.trans hzone'
    obtain ⟨u, -, hux, -⟩ := forall₂_mem_right hcanon (show x ∈ records from hx)
    rw [content_txt_self (canonicalZone_spec hzone).plainName hux] at hx'
    split_ifs at hx'
    exact Except.ok.inj hx'

theorem Dropped.zone_of_after {r : Except Err Unit} {id : Str}
    (h : Dropped C w subj z fqdn value shaky False r w')
    (hz : w'.pdns.zone id = some pz) : ∃ pz', w.pdns.zone id = some pz' := by
  cases h with
  | failed | absent => exact ⟨pz, hz⟩
  | emptied hread | rewritten hread =>
    by_cases hid : id = z.pdnsID
    · exact ⟨_, hid ▸ hread.zone⟩
    · exact ⟨pz, by rwa [World.patch_zone_of_ne hid] at hz⟩

theorem Dropped.only (h : Dropped C w subj z fqdn value shaky False (.ok ()) w') (htidy : Tidy w)
    (hspell : OneSpelling C w)
    (hz : z ∈ w.store.zones) (hname : Name C fqdn) (hlow : IsLowerStr fqdn')
    (hv : valueOK value' = true)
    (hc : Carries C w' z' fqdn' value') :
    Carries C w z' fqdn' value' ∧ ¬ (z'.pdnsID = z.pdnsID ∧ fqdn' = fqdn ∧ value' = value) := by
  have hup : IsUpperStr (str "TXT") := by decide
  by_cases hsame : z'.pdnsID = z.pdnsID ∧ fqdn' = fqdn
  · obtain ⟨hid, rfl⟩ := hsame
    cases h with
    | @absent pz n hread hnot =>
      obtain rfl := (hname.recordName_eq hread.name).1
      refine ⟨hc, ?_⟩
      rintro ⟨-, -, rfl⟩
      obtain ⟨pz', hz', hold⟩ := carries_iff.1 hc
      cases (hid ▸ hread.zone).symm.trans hz'
      exact hnot hold
    | @emptied pz n r hread hr _ hnil hok =>
      obtain rfl := (hname.recordName_eq hread.name).1
      rw [carries_patch hread.zone hok hid, deletion, applyChange_delete, Holds, valuesAt,
        setAt_without ((htidy _ _ hread.zone).exact hlow hup)] at hc
      cases hc
    | @rewritten pz n r rr hread hr _ hne hrr hok =>
      obtain rfl := (hname.recordName_eq hread.name).1
      have hsets := htidy _ _ hread.zone
      have hmem : r ∈ pz.rrsets := mem_of_find?_eq_some hr
      have htype : r.type = str "TXT" := by
        have hat := hsets.exact hlow hup r hmem (by simpa using find?_some hr)
        rw [RRset.isAt, Bool.and_eq_true, beq_iff_eq, beq_iff_eq] at hat
        exact hat.2
      obtain ⟨hrepl, hnil, hcom⟩ := recordSet_replaces hrr
      obtain ⟨hrlow, hrup⟩ := recordSet_normal hrr
      have hset := setAt_applyChange (C := C) (hsets.exact hrlow hrup) hrepl hnil hcom
      rw [recordSet_rest_name hrr hname, recordSet_rest_type hrr] at hset
      rw [carries_patch hread.zone hok hid, holds_iff hset] at hc
      have hrest := mem_rest (hspell z hz pz hread.zone) hmem htype hrr hv hc
      have hvalue : value' ≠ value := by
        rintro rfl
        exact not_mem_others hrest
      exact ⟨carries_iff.2 ⟨pz, hid ▸ hread.zone,
        (holds_iff hr).2 ((mem_others_iff hvalue).1 hrest)⟩,
        fun h => hvalue h.2.2⟩
  · refine ⟨?_, fun h => hsame ⟨h.1, h.2.1⟩⟩
    obtain ⟨pz', hz', hnew⟩ := carries_iff.1 hc
    obtain ⟨pz, hz⟩ := h.zone_of_after hz'
    obtain ⟨pz'', hz'', -, hset⟩ := h.elsewhere htidy hname hlow hup
      (fun h => hsame ⟨h.1, h.2.1⟩) hz
    cases hz'.symm.trans hz''
    exact carries_iff.2 ⟨pz, hz, hnew.congr hset.symm⟩

theorem OneSpelling.patch (h : OneSpelling C w) (hz : z ∈ w.store.zones)
    (hpz : w.pdns.zone z.pdnsID = some pz)
    (hok : changeOK pz.name rr = true) (hsets : SpelledIn C z.name (applyChange pz.rrsets rr)) :
    OneSpelling C (w.patch z.pdnsID [rr]) := by
  intro z' hz' pz' hpz'
  by_cases hid : z'.pdnsID = z.pdnsID
  · obtain rfl : z' = z := Table.eq_of_clash hz' hz (by simp [Keyed.clash, hid])
    rw [patch_zone_one hpz hok] at hpz'
    cases hpz'
    exact hsets
  · rw [World.patch_zone_of_ne hid] at hpz'
    exact h z' hz' pz' hpz'

theorem Dropped.spelling (h : Dropped C w subj z fqdn value shaky False (.ok ()) w')
    (hspell : OneSpelling C w)
    (hz : z ∈ w.store.zones) : OneSpelling C w' := by
  cases h with
  | absent => exact hspell
  | @emptied pz n r hread hr _ hnil hok =>
    refine hspell.patch hz hread.zone hok ?_
    rw [deletion, applyChange_delete]
    exact fun r hr => hspell z hz pz hread.zone r (mem_of_mem_filter hr)
  | @rewritten pz n r rr hread hr _ hne hrr hok =>
    exact hspell.patch hz hread.zone hok (spelledIn_write (hspell z hz pz hread.zone) hrr)

theorem Dropped.lower (h : Dropped C w subj z fqdn value shaky False (.ok ()) w')
    (hname : Name C fqdn) :
    IsLowerStr fqdn := by
  cases h with
  | absent hread | emptied hread | rewritten hread => exact (hname.recordName_eq hread.name).2

/-! ## Tries -/

theorem tryRow_spec (C : Config) (w : World) (c : Store.Challenge) :
    ∃ removed, exec (handler C.env.cases) (Impl.sweepRow C c) w = (.ok removed, tryRow C w c) ∧
      Tried C w c False False (.ok removed) (tryRow C w c) := by
  have h : Tried C w c False False _ _ := Act.ensures_exec sweepRow_ensures
  cases hr : (exec (handler C.env.cases) (Impl.sweepRow C c) w).1 with
  | ok removed =>
    rw [hr] at h
    exact ⟨removed, Prod.ext hr rfl, h⟩
  | error e =>
    rw [hr] at h
    generalize (exec (handler C.env.cases) (Impl.sweepRow C c) w).2 = w' at h
    cases h

theorem tryRow_shrunk (C : Config) (w : World) (c : Store.Challenge) : Shrunk w (tryRow C w c) := by
  obtain ⟨_, -, h⟩ := tryRow_spec C w c
  exact h.shrunk

theorem Tried.books {r : Except Err Bool} (h : Tried C w c shaky False r w')
    (hd : d ∈ w.store.challenges)
    (hgone : d ∉ w'.store.challenges) : Books d c.tenantID c.fqdn c.value := by
  cases h with
  | forbidden | kept => exact absurd hd hgone
  | lost hl => exact hl.elim
  | forgotten => exact of_not_not fun hb => hgone (mem_deleteChallenge.2 ⟨hd, hb⟩)
  | removed _ h =>
    exact of_not_not fun hb => hgone (mem_deleteChallenge.2 ⟨h.store_eq.1.symm ▸ hd, hb⟩)

theorem books_of_tryRow (hd : d ∈ w.store.challenges)
    (hgone : d ∉ (tryRow C w c).store.challenges) :
    Books d c.tenantID c.fqdn c.value := by
  obtain ⟨_, -, h⟩ := tryRow_spec C w c
  exact h.books hd hgone

theorem Books.eq (h : Books d c.tenantID c.fqdn c.value) (hd : d ∈ w.store.challenges)
    (hc : c ∈ w.store.challenges) :
    d = c :=
  Table.eq_of_clash hd hc (by simp [Keyed.clash, h.1, h.2.1, h.2.2])

theorem Proper.name (h : Proper C c) : Name C c.fqdn ∧ valueOK c.value = true := by
  obtain ⟨r, hr, hv⟩ := h
  rw [hv]
  exact check_spec hr

structure Passed (C : Config) (w w' : World) : Prop where
  shrunk : Shrunk w w'
  spelling : OneSpelling C w'
  gone : ∀ c ∈ w.store.challenges, c ∉ w'.store.challenges →
    ∀ z, w.store.zone c.tenantID c.zoneID = some z →
    IsLowerStr c.fqdn ∧ ¬ Carries C w' z c.fqdn c.value

theorem Shrunk.zone_eq (h : Shrunk w w') (T id : Str) : w'.store.zone T id = w.store.zone T id := by
  rw [Store.zone, Store.zone, h.zones]

theorem Passed.trial {w'' : World} {r : Except Err Bool} (h : Passed C w w') (htidy : Tidy w)
    (hproper : ∀ c ∈ w.store.challenges, Proper C c) (hc : c ∈ w.store.challenges)
    (htried : Tried C w' c shaky False r w'') : Passed C w w'' := by
  have hshrunk := h.shrunk.trans htried.shrunk
  have hkey {d : Store.Challenge} (hd : d ∈ w.store.challenges) (hd' : d ∈ w'.store.challenges)
      (hgone : d ∉ w''.store.challenges) : d = c := (htried.books hd' hgone).eq hd hc
  cases htried with
  | forbidden | kept => exact h
  | lost hl => exact hl.elim
  | forgotten hz =>
    refine ⟨hshrunk, fun z hz => ?_, fun d hd hgone z hzone => ?_⟩
    · exact h.spelling z (shrunk_unbooked.zones ▸ hz)
    · by_cases hd' : d ∈ w'.store.challenges
      · obtain rfl := hkey hd hd' hgone
        rw [h.shrunk.zone_eq, hzone] at hz
        cases hz
      · exact h.gone d hd hd' z hzone
  | @removed z₀ w₁ hz hdrop =>
    have hz₀ := (Store.zone_eq_some.1 hz).1
    have hname := (hproper c hc).name.1
    refine ⟨hshrunk, fun z hz => ?_, fun d hd hgone z hzone => ?_⟩
    · exact hdrop.spelling h.spelling hz₀ z (shrunk_unbooked.zones ▸ hz)
    · by_cases hd' : d ∈ w'.store.challenges
      · obtain rfl := hkey hd hd' hgone
        rw [h.shrunk.zone_eq, hzone] at hz
        cases hz
        have hlow := hdrop.lower hname
        refine ⟨hlow, fun hcar => ?_⟩
        exact (hdrop.only (h.shrunk.tidy htidy) h.spelling hz₀ hname hlow (hproper d hd).name.2
          hcar).2 ⟨rfl, rfl, rfl⟩
      · obtain ⟨hlow, hnot⟩ := h.gone d hd hd' z hzone
        refine ⟨hlow, fun hcar => hnot ?_⟩
        exact (hdrop.only (h.shrunk.tidy htidy) h.spelling hz₀ hname hlow
          (hproper d hd).name.2 hcar).1

theorem Passed.tried (h : Passed C w w') (htidy : Tidy w)
    (hproper : ∀ c ∈ w.store.challenges, Proper C c)
    (hc : c ∈ w.store.challenges) : Passed C w (tryRow C w' c) := by
  obtain ⟨_, -, htried⟩ := tryRow_spec C w' c
  exact h.trial htidy hproper hc htried

theorem Reaches.passed (h : Reaches C w w') (htidy : Tidy w) (hspell : OneSpelling C w)
    (hproper : ∀ c ∈ w.store.challenges, Proper C c) : Passed C w w' := by
  induction h with
  | start => exact ⟨.refl w, hspell, fun c hc hgone => absurd hc hgone⟩
  | tick _ ih =>
    exact ⟨ih.shrunk.trans ⟨rfl, fun _ h => h, id, rfl, Nat.le_succ _⟩, ih.spelling, ih.gone⟩
  | tried _ hc ih => exact ih.tried htidy hproper hc

/-! ## Passes -/

theorem exec_sweepRows (rows : List Store.Challenge) (n : ℕ) (w : World) :
    (exec (handler C.env.cases) (Impl.sweepRows C n rows) w).2 = rows.foldl (tryRow C) w := by
  induction rows generalizing n w with
  | nil => rfl
  | cons c rows ih =>
    obtain ⟨removed, hexec, -⟩ := tryRow_spec C w c
    rw [Impl.sweepRows, exec_bind_ok hexec, ih]
    rfl

/-- The rows that a pass tries. -/
def batch (maxAge : ℕ) (w : World) : List Store.Challenge :=
  w.store.challengesOlderThan (w.times w.ticks - maxAge) sweepBatch

theorem pass_eq (C : Config) (maxAge : ℕ) (w : World) :
    pass C maxAge w = (batch maxAge w).foldl (tryRow C) { w with ticks := w.ticks + 1 } :=
  exec_sweepRows (batch maxAge w) 0 { w with ticks := w.ticks + 1 }

/-! ## The order of rows -/

instance : Std.Total Older where
  total a b := by
    unfold Older
    rcases lt_trichotomy a.createdAt b.createdAt with h | h | h
    · exact .inl (by rw [if_neg h.ne]; exact decide_eq_true h)
    · rw [if_pos h, if_pos h.symm]
      exact Str.le.total _ _
    · exact .inr (by rw [if_neg h.ne]; exact decide_eq_true h)

theorem older_iff : Older c d ↔ c.createdAt < d.createdAt ∨ c.createdAt = d.createdAt ∧
    Str.le c.id d.id = true := by
  unfold Older
  split_ifs with h
  · simp [h]
  · simp [h]

instance : IsTrans Store.Challenge Older where
  trans a b c h h' := by
    rw [older_iff] at h h' ⊢
    rcases h with h | ⟨h, hid⟩ <;> rcases h' with h' | ⟨h', hid'⟩
    · exact .inl (h.trans h')
    · exact .inl (h' ▸ h)
    · exact .inl (h ▸ h')
    · exact .inr ⟨h.trans h', Str.le.trans hid hid'⟩

theorem Older.antisymm (h : Older c d) (h' : Older d c) (hc : c ∈ w.store.challenges)
    (hd : d ∈ w.store.challenges) :
    c = d := by
  rw [older_iff] at h h'
  have hid : c.id = d.id := by
    rcases h with h | ⟨h, hid⟩
    · omega
    · rcases h' with h' | ⟨-, hid'⟩
      · omega
      · exact Str.le.antisymm hid hid'
  exact Table.eq_of_clash hc hd (by simp [Keyed.clash, hid])

theorem nodup_rows (w : World) : w.store.challenges.rows.Nodup :=
  w.store.challenges.noClash.imp fun h he => by simp [he, Keyed.clash] at h

theorem mem_staleRows :
    c ∈ staleRows maxAge w ↔ c ∈ w.store.challenges ∧ c.createdAt < w.times w.ticks - maxAge := by
  rw [staleRows, List.mem_filter, decide_eq_true_eq]
  rfl

theorem mem_batch (hc : c ∈ staleRows maxAge w) : c ∈ batch maxAge w ↔
    ((staleRows maxAge w).filter fun a => Older a c ∧ a ≠ c).length < sweepBatch := by
  have hanti : ∀ a ∈ staleRows maxAge w, ∀ b ∈ staleRows maxAge w, Older a b → Older b a → a = b :=
    fun a ha b hb h h' => h.antisymm h' (mem_staleRows.1 ha).1 (mem_staleRows.1 hb).1
  exact List.mem_take_insertionSort_iff ((nodup_rows w).filter _) hanti hc sweepBatch

theorem subset_of_batch (hc : c ∈ batch maxAge w) : c ∈ w.store.challenges :=
  (mem_challengesOlderThan hc).1

/-! ## Rows that are tried -/

section Tries

variable {w₀ : World} {rows : List Store.Challenge}

theorem foldl_shrunk (rows : List Store.Challenge) (w : World) :
    Shrunk w (rows.foldl (tryRow C) w) := by
  induction rows generalizing w with
  | nil => exact .refl w
  | cons c rows ih => exact (tryRow_shrunk C w c).trans (ih _)

theorem Reaches.foldl (h : Reaches C w₀ w) (hrows : ∀ c ∈ rows, c ∈ w₀.store.challenges) :
    Reaches C w₀ (rows.foldl (tryRow C) w) := by
  induction rows generalizing w with
  | nil => exact h
  | cons c rows ih =>
    obtain ⟨hc, hrows⟩ := forall_mem_cons.1 hrows
    exact ih (h.tried hc) hrows

theorem mem_foldl (h : Reaches C w₀ w) (hrows : ∀ c ∈ rows, c ∈ w₀.store.challenges)
    (hd₀ : d ∈ w₀.store.challenges)
    (hd : d ∈ w.store.challenges) (hstay : d ∉ rows ∨ Fails C w₀ d) :
    d ∈ (rows.foldl (tryRow C) w).store.challenges := by
  induction rows generalizing w with
  | nil => exact hd
  | cons c rows ih =>
    obtain ⟨hc, hrows⟩ := forall_mem_cons.1 hrows
    refine ih (h.tried hc) hrows ?_ (hstay.imp_left fun h hd => h (mem_cons_of_mem _ hd))
    by_contra hgone
    obtain rfl := (books_of_tryRow hd hgone).eq hd₀ hc
    rcases hstay with hstay | hfails
    · exact hstay mem_cons_self
    · exact hgone (hfails w h hd)

theorem not_mem_foldl (h : Reaches C w₀ w) (hrows : ∀ c ∈ rows, c ∈ w₀.store.challenges)
    (hd : d ∈ rows)
    (hworks : Works C w₀ d) : d ∉ (rows.foldl (tryRow C) w).store.challenges := by
  induction rows generalizing w with
  | nil => cases hd
  | cons c rows ih =>
    obtain ⟨hc, hrows⟩ := forall_mem_cons.1 hrows
    rcases mem_cons.1 hd with rfl | hd
    · exact fun hmem => hworks w h ((foldl_shrunk rows _).rows d hmem)
    · exact ih (h.tried hc) hrows hd

end Tries

/-! ## Runs of passes -/

theorem passes_reaches (C : Config) (maxAge : ℕ) (htidy : Tidy w) (hspell : OneSpelling C w)
    (hproper : ∀ c ∈ w.store.challenges, Proper C c) (k : ℕ) :
    Reaches C w (passes C maxAge k w) := by
  induction k with
  | zero => exact .start
  | succ k ih =>
    rw [passes, pass_eq]
    refine ih.tick.foldl fun c hc => ?_
    exact (ih.passed htidy hspell hproper).shrunk.rows c (subset_of_batch hc)

def waiting (C : Config) (maxAge : ℕ) (F : Store.Challenge → Bool) (w : World) (k : ℕ) :
    List Store.Challenge :=
  (staleRows maxAge w).filter fun c => F c = false ∧ c ∈ (passes C maxAge k w).store.challenges.rows

theorem mem_waiting {F : Store.Challenge → Bool} {k : ℕ} : c ∈ waiting C maxAge F w k ↔
    c ∈ staleRows maxAge w ∧ F c = false ∧ c ∈ (passes C maxAge k w).store.challenges := by
  rw [waiting, List.mem_filter, decide_eq_true_eq]
  rfl

theorem passes_shrunk (C : Config) (maxAge k : ℕ) (w : World) :
    Shrunk (passes C maxAge k w) (passes C maxAge (k + 1) w) := by
  have htick : Shrunk (passes C maxAge k w)
      { passes C maxAge k w with ticks := (passes C maxAge k w).ticks + 1 } :=
    ⟨rfl, fun _ h => h, id, rfl, Nat.le_succ _⟩
  rw [passes, pass_eq]
  exact htick.trans (foldl_shrunk _ _)

section Passes

variable (hw : Sound C w) (k : ℕ)

include hw

theorem Sound.reaches : Reaches C w (passes C maxAge k w) :=
  passes_reaches C maxAge hw.tidy hw.spelling hw.proper k

theorem Sound.passed : Passed C w (passes C maxAge k w) :=
  (hw.reaches k).passed hw.tidy hw.spelling hw.proper

theorem Sound.batch_subset : ∀ c ∈ batch maxAge (passes C maxAge k w), c ∈ w.store.challenges :=
  fun c hc => (hw.passed k).shrunk.rows c (subset_of_batch hc)

theorem Sound.stale (hc : c ∈ staleRows maxAge w)
    (hk : c ∈ (passes C maxAge k w).store.challenges) :
    c ∈ staleRows maxAge (passes C maxAge k w) := by
  obtain ⟨-, hold⟩ := mem_staleRows.1 hc
  obtain ⟨htimes, hticks⟩ := (@Sound.passed C w maxAge hw k).shrunk.clock
  refine mem_staleRows.2 ⟨hk, hold.trans_le ?_⟩
  rw [htimes]
  exact Nat.sub_le_sub_right (hw.clock hticks) maxAge

theorem Sound.stale_of_older (hc : c ∈ staleRows maxAge w)
    (hd : d ∈ staleRows maxAge (passes C maxAge k w))
    (h : Older d c) : d ∈ staleRows maxAge w := by
  refine mem_staleRows.2 ⟨(hw.passed k).shrunk.rows d (mem_staleRows.1 hd).1, ?_⟩
  have hold := (mem_staleRows.1 hc).2
  rw [older_iff] at h
  omega

theorem Sound.fails (hc : c ∈ w.store.challenges) (hfails : Fails C w c) :
    c ∈ (passes C maxAge k w).store.challenges := by
  induction k with
  | zero => exact hc
  | succ k ih =>
    rw [passes, pass_eq]
    exact mem_foldl (hw.reaches k).tick (hw.batch_subset k) hc ih (.inr hfails)

variable {F : Store.Challenge → Bool}

theorem Sound.starved (hfail : ∀ f ∈ staleRows maxAge w, F f = true → Fails C w f)
    (hc : c ∈ staleRows maxAge w)
    (hmany : sweepBatch ≤ ((staleRows maxAge w).filter fun f => F f ∧ Older f c ∧ f ≠ c).length) :
    c ∈ (passes C maxAge k w).store.challenges := by
  induction k with
  | zero => exact (mem_staleRows.1 hc).1
  | succ k ih =>
    rw [passes, pass_eq]
    refine mem_foldl (hw.reaches k).tick (hw.batch_subset k) (mem_staleRows.1 hc).1 ih
      (.inl fun hmem => ?_)
    refine absurd ((mem_batch (hw.stale k hc ih)).1 hmem) (not_lt.2 (hmany.trans ?_))
    -- the failing rows are still there
    refine (List.Nodup.subperm ((nodup_rows w).filter _ |>.filter _) fun f hf => ?_).length_le
    obtain ⟨hf, hbefore⟩ := List.mem_filter.1 hf
    obtain ⟨hF, hbefore⟩ := of_decide_eq_true hbefore
    exact List.mem_filter.2 ⟨hw.stale k hf (hw.fails k (mem_staleRows.1 hf).1 (hfail f hf hF)),
      decide_eq_true hbefore⟩

theorem Sound.reached (hok : ∀ c ∈ staleRows maxAge w, F c = false → Works C w c)
    (hfew : ∀ c ∈ staleRows maxAge w, F c = false →
      ((staleRows maxAge w).filter fun f => F f ∧ Older f c ∧ f ≠ c).length < sweepBatch)
    (hne : waiting C maxAge F w k ≠ []) :
    ∃ c ∈ waiting C maxAge F w k, c ∉ (passes C maxAge (k + 1) w).store.challenges := by
  obtain ⟨c, rest, hsort⟩ := exists_cons_of_ne_nil
    (l := (waiting C maxAge F w k).insertionSort Older)
    fun h => hne (length_eq_zero_iff.1 (by rw [← length_insertionSort Older, h]; rfl))
  have hmem {a : Store.Challenge} : a ∈ waiting C maxAge F w k ↔ a ∈ c :: rest := by
    rw [← hsort, mem_insertionSort]
  have hfirst : ∀ a ∈ rest, Older c a := by
    have := pairwise_insertionSort Older (waiting C maxAge F w k)
    rw [hsort] at this
    exact fun a ha => rel_of_pairwise_cons this ha
  have hc := hmem.2 mem_cons_self
  obtain ⟨hstale, hF, hthere⟩ := mem_waiting.1 hc
  refine ⟨c, hc, ?_⟩
  rw [passes, pass_eq]
  refine not_mem_foldl (hw.reaches k).tick (hw.batch_subset k)
    ((mem_batch (hw.stale k hstale hthere)).2 ?_)
    (hok c hstale hF)
  -- the rows before it are those whose removal fails
  refine lt_of_le_of_lt (List.Nodup.subperm (((nodup_rows _).filter _).filter _) fun a ha =>
    ?_).length_le
    (hfew c hstale hF)
  obtain ⟨ha, hbefore⟩ := List.mem_filter.1 ha
  obtain ⟨holder, hac⟩ := of_decide_eq_true hbefore
  have hastale := hw.stale_of_older k hstale ha holder
  refine List.mem_filter.2 ⟨hastale, decide_eq_true ⟨?_, holder, hac⟩⟩
  by_contra hFa
  rcases mem_cons.1 (hmem.1 (mem_waiting.2 ⟨hastale, by simpa using hFa,
    (mem_staleRows.1 ha).1⟩)) with h | h
  · exact hac h
  · exact hac (holder.antisymm (hfirst a h) (mem_staleRows.1 hastale).1 (mem_staleRows.1 hstale).1)

theorem Sound.served (hok : ∀ c ∈ staleRows maxAge w, F c = false → Works C w c)
    (hfew : ∀ c ∈ staleRows maxAge w, F c = false →
      ((staleRows maxAge w).filter fun f => F f ∧ Older f c ∧ f ≠ c).length < sweepBatch) :
    waiting C maxAge F w w.store.challenges.rows.length = [] := by
  have hnext (k : ℕ) : waiting C maxAge F w (k + 1) =
      (waiting C maxAge F w k).filter fun c =>
        c ∈ (passes C maxAge (k + 1) w).store.challenges.rows := by
    rw [waiting, waiting, List.filter_filter]
    refine filter_congr fun c _ => ?_
    rw [← Bool.decide_and, decide_eq_decide]
    exact ⟨fun h => ⟨h.2, h.1, (passes_shrunk C maxAge k w).rows c h.2⟩, fun h => ⟨h.2.1, h.1⟩⟩
  have hcount (k : ℕ) : waiting C maxAge F w k = [] ∨
      (waiting C maxAge F w k).length + k ≤ w.store.challenges.rows.length := by
    induction k with
    | zero => exact .inr ((length_filter_le _ _).trans (length_filter_le _ _))
    | succ k ih =>
      by_cases hne : waiting C maxAge F w k = []
      · exact .inl (by rw [hnext, hne]; rfl)
      · obtain ⟨c, hc, hgone⟩ := hw.reached k hok hfew hne
        have hlt : (waiting C maxAge F w (k + 1)).length < (waiting C maxAge F w k).length := by
          rw [hnext]
          exact length_filter_lt_length_iff_exists.2
            ⟨c, hc, fun h => hgone (Table.mem_iff.2 (of_decide_eq_true h))⟩
        have := ih.resolve_left hne
        exact .inr (by omega)
  rcases hcount w.store.challenges.rows.length with h | h
  · exact h
  · exact length_eq_zero_iff.1 (by omega)

end Passes

/-- **Which rows passes remove.**  Where the removal of some stale rows fails in every pass and that
    of the others does not, the others are all removed, with their values, within as many passes as
    there are rows, if and only if each has fewer than a hundred failing rows before it. -/
theorem passes_remove_iff (C : Config) (w : World) (maxAge : ℕ) (F : Store.Challenge → Bool)
    (hw : Sound C w)
    (hfail : ∀ c ∈ staleRows maxAge w, F c = true → Fails C w c)
    (hok : ∀ c ∈ staleRows maxAge w, F c = false → Works C w c) :
    (∀ c ∈ staleRows maxAge w, F c = false →
      ∃ k ≤ w.store.challenges.rows.length, Gone C (passes C maxAge k w) c) ↔
    ∀ c ∈ staleRows maxAge w, F c = false →
      ((staleRows maxAge w).filter fun f => F f ∧ Older f c ∧ f ≠ c).length < sweepBatch := by
  constructor
  · intro h c hc hF
    obtain ⟨k, -, hgone, -⟩ := h c hc hF
    by_contra hmany
    exact hgone (hw.starved k hfail hc (not_lt.1 hmany))
  · intro hfew c hc hF
    have hgone : c ∉ (passes C maxAge w.store.challenges.rows.length w).store.challenges := by
      intro hthere
      have hwait := mem_waiting.2 ⟨hc, hF, hthere⟩
      rw [hw.served hok hfew] at hwait
      cases hwait
    have hpassed := @Sound.passed C w maxAge hw w.store.challenges.rows.length
    refine ⟨_, le_rfl, hgone, fun z hz => ?_⟩
    rw [hpassed.shrunk.zone_eq] at hz
    exact (hpassed.gone c (mem_staleRows.1 hc).1 hgone z hz).2

/-! ## Rows whose removal fails, and rows whose removal works -/

theorem Reaches.elsewhere {n t : Str} (h : Reaches C w w') (hw : Sound C w)
    (hz : w.pdns.zone z.pdnsID = some pz)
    (hn : IsLowerStr n) (ht : IsUpperStr t)
    (hother : ∀ d ∈ w.store.challenges, ¬ (n = d.fqdn ∧ t = str "TXT")) :
    ∃ pz', w'.pdns.zone z.pdnsID = some pz' ∧ pz'.name = pz.name ∧
      setAt C pz'.rrsets n t = setAt C pz.rrsets n t := by
  induction h with
  | start => exact ⟨pz, hz, rfl, rfl⟩
  | tick _ ih => exact ih
  | @tried w' c hreach hc ih =>
    obtain ⟨pz', hz', hname, hset⟩ := ih
    obtain ⟨_, -, htried⟩ := tryRow_spec C w' c
    generalize tryRow C w' c = w'' at htried
    cases htried with
    | forbidden | kept | forgotten => exact ⟨pz', hz', hname, hset⟩
    | lost hl => exact hl.elim
    | removed _ hdrop =>
      have htidy := (hreach.passed hw.tidy hw.spelling hw.proper).shrunk.tidy hw.tidy
      obtain ⟨pz'', hz'', hname', hset'⟩ :=
        hdrop.elsewhere htidy (hw.proper c hc).name.1 hn ht (fun h => hother c hc h.2) hz'
      exact ⟨pz'', hz'', hname'.trans hname, hset'.trans hset⟩

theorem fails_of_cname (hw : Sound C w) (hz : w.store.zone c.tenantID c.zoneID = some z)
    (hpz : w.pdns.zone z.pdnsID = some pz) (hlow : IsLowerStr c.fqdn)
    (hr : setAt C pz.rrsets c.fqdn (str "CNAME") = some r) : Fails C w c := by
  intro w' hreach hc
  have hshrunk := (hreach.passed hw.tidy hw.spelling hw.proper).shrunk
  have hname := (hw.proper c (hshrunk.rows c hc)).name.1
  obtain ⟨pz', hpz', -, hset⟩ := hreach.elsewhere hw hpz hlow (by decide : IsUpperStr (str "CNAME"))
    fun _ _ h => absurd h.2 (by decide)
  have halone {n : Str} {pz₀ : PDNS.Zone} (hread : Read C w' z c.fqdn pz₀ n) : False := by
    obtain rfl := (hname.recordName_eq hread.name).1
    cases hpz'.symm.trans hread.zone
    rw [hread.alone, hr] at hset
    cases hset
  obtain ⟨_, -, htried⟩ := tryRow_spec C w' c
  generalize tryRow C w' c = w'' at htried
  cases htried with
  | forbidden | kept => exact hc
  | lost hl => exact hl.elim
  | forgotten hgone =>
    rw [hshrunk.zone_eq, hz] at hgone
    cases hgone
  | removed hz' hdrop =>
    rw [hshrunk.zone_eq, hz] at hz'
    cases hz'
    cases hdrop with
    | absent hread | emptied hread | rewritten hread => exact (halone hread).elim

theorem Reaches.own_set (h : Reaches C w w') (hw : Sound C w) (hc : c ∈ w.store.challenges)
    (hz : w.store.zone c.tenantID c.zoneID = some z) (hpz : w.pdns.zone z.pdnsID = some pz)
    (hlow : IsLowerStr c.fqdn)
    (hset : ∀ r, setAt C pz.rrsets c.fqdn (str "TXT") = some r → others c.value r.records = [])
    (hown : ∀ d ∈ w.store.challenges, d.fqdn = c.fqdn → d = c) :
    ∃ pz', w'.pdns.zone z.pdnsID = some pz' ∧ pz'.name = pz.name ∧
      (setAt C pz'.rrsets c.fqdn (str "TXT") = none ∨
        setAt C pz'.rrsets c.fqdn (str "TXT") = setAt C pz.rrsets c.fqdn (str "TXT")) := by
  have hup : IsUpperStr (str "TXT") := by decide
  induction h with
  | start => exact ⟨pz, hpz, rfl, .inr rfl⟩
  | tick _ ih => exact ih
  | @tried w' d hreach hd ih =>
    obtain ⟨pz', hpz', hname, hcur⟩ := ih
    obtain ⟨_, -, htried⟩ := tryRow_spec C w' d
    generalize tryRow C w' d = w'' at htried
    have hpassed := hreach.passed hw.tidy hw.spelling hw.proper
    have htidy := hpassed.shrunk.tidy hw.tidy
    have hdname := (hw.proper d hd).name.1
    cases htried with
    | forbidden | kept | forgotten => exact ⟨pz', hpz', hname, hcur⟩
    | lost hl => exact hl.elim
    | @removed z₀ w₁ hz₀ hdrop =>
      by_cases hfqdn : d.fqdn = c.fqdn
      · obtain rfl := hown d hd hfqdn
        rw [hpassed.shrunk.zone_eq, hz] at hz₀
        cases hz₀
        cases hdrop with
        | absent => exact ⟨pz', hpz', hname, hcur⟩
        | @emptied pz₀ n r hread hr _ hnil hok =>
          obtain rfl := (hdname.recordName_eq hread.name).1
          cases hpz'.symm.trans hread.zone
          refine ⟨_, patch_zone_one hread.zone hok, hname, .inl ?_⟩
          rw [deletion, applyChange_delete]
          exact setAt_without ((htidy _ _ hread.zone).exact hlow hup)
        | @rewritten pz₀ n r rr hread hr _ hne hrr hok =>
          obtain rfl := (hdname.recordName_eq hread.name).1
          cases hpz'.symm.trans hread.zone
          rcases hcur with hcur | hcur
          · rw [hcur] at hr
            cases hr
          · exact absurd (hset r (hcur.symm.trans hr)) hne
      · obtain ⟨pz'', hpz'', hname', hset'⟩ :=
          hdrop.elsewhere htidy hdname hlow hup (fun h => hfqdn h.2.1.symm) hpz'
        exact ⟨pz'', hpz'', hname'.trans hname, by rwa [hset']⟩

theorem works_of_alone (hw : Sound C w) (hc : c ∈ w.store.challenges) (hT : c.tenantID ≠ [])
    (hz : w.store.zone c.tenantID c.zoneID = some z) (hkind : z.kind.needsMasters = false)
    (hpz : w.pdns.zone z.pdnsID = some pz) (hname : recordName C.env z.name c.fqdn = .ok c.fqdn)
    (hin : PDNS.InZone c.fqdn pz.name) (halone : setAt C pz.rrsets c.fqdn (str "CNAME") = none)
    (hset : ∀ r, setAt C pz.rrsets c.fqdn (str "TXT") = some r → others c.value r.records = [])
    (hown : ∀ d ∈ w.store.challenges, d.fqdn = c.fqdn → d = c) : Works C w c := by
  intro w' hreach
  have hlow := ((hw.proper c hc).name.1.recordName_eq hname).2
  have hzone := (hreach.passed hw.tidy hw.spelling hw.proper).shrunk.zone_eq c.tenantID c.zoneID
  obtain ⟨pz₁, hpz₁, -, hcname⟩ := hreach.elsewhere hw hpz hlow
    (by decide : IsUpperStr (str "CNAME"))
    fun _ _ h => absurd h.2 (by decide)
  obtain ⟨pz₂, hpz₂, hpname, htext⟩ := hreach.own_set hw hc hz hpz hlow hset hown
  cases hpz₁.symm.trans hpz₂
  have hrequire (perm : Permission) :
      Authz.require none (withoutUser (.internal c.tenantID)) perm = .ok () :=
    require_internal hT none perm
  have hwritable : writable z = .ok () := by rw [writable, hkind]; rfl
  have hnot : ¬ Stuck C w' (.internal c.tenantID) z c.fqdn c.value := by
    rintro (⟨⟨h⟩ | ⟨h⟩ | ⟨h⟩⟩ | ⟨hn, hz', hr⟩ | ⟨hread, -, hu⟩ | ⟨hread, hr, -, hne, -⟩)
    · rw [hrequire] at h
      cases h
    · rw [hname] at h
      cases h
    · rw [hpz₁] at h
      cases h
    · cases hname.symm.trans hn
      cases hpz₁.symm.trans hz'
      rw [hcname, halone] at hr
      cases hr
    · cases hu with
      | forbidden h =>
        rw [hrequire] at h
        cases h
      | secondary h =>
        rw [hwritable] at h
        cases h
      | badKey h =>
        rw [key_text hname] at h
        cases h
      | gone h =>
        rw [hpz₁] at h
        cases h
      | outside hz' hk hok =>
        rw [key_text hname] at hk
        cases hk
        cases hpz₁.symm.trans hz'
        rw [changeOK_deletion, hpname, decide_eq_false_iff_not] at hok
        exact hok hin
    · cases hname.symm.trans hread.name
      cases hpz₁.symm.trans hread.zone
      rcases htext with htext | htext
      · rw [htext] at hr
        cases hr
      · exact hne (hset _ (htext.symm.trans hr))
  obtain ⟨_, -, htried⟩ := tryRow_spec C w' c
  generalize tryRow C w' c = w'' at htried
  cases htried with
  | forbidden h => exact absurd h hT
  | lost hl => exact hl.elim
  | kept hz' h =>
    rw [hzone, hz] at hz'
    cases hz'
    exact absurd (h.resolve_left id) hnot
  | forgotten | removed => exact fun h => (mem_deleteChallenge.1 h).2 ⟨rfl, rfl, rfl⟩

/-! ## A crowded name -/

def crowdValue (i : ℕ) : Str := UInt8.ofNat (65 + i / 10) :: UInt8.ofNat (65 + i % 10) ::
    List.replicate 41 65

def crowdName : Str := str "_acme-challenge.a.example.com."

def crowdRow (i : ℕ) : Store.Challenge :=
  ⟨crowdValue i, str "t", str "z", crowdName, crowdValue i, [], 1⟩

def lateName : Str := str "_acme-challenge.b.example.com."

def lateRow : Store.Challenge := ⟨[], str "t", str "z", lateName, sampleValue, [], 2⟩

def crowd (n : ℕ) : List Store.Challenge := (List.range n).map crowdRow ++ [lateRow]

theorem crowdValue_injective {i j : ℕ} (hi : i < 100) (hj : j < 100)
    (h : crowdValue i = crowdValue j) : i = j := by
  obtain ⟨h₁, h₂⟩ := List.cons.inj h
  have h₁ := congrArg UInt8.toNat h₁
  have h₂ := congrArg UInt8.toNat (List.cons.inj h₂).1
  simp only [UInt8.toNat_ofNat'] at h₁ h₂
  omega

theorem crowd_noClash {n : ℕ} (hn : n ≤ 100) :
    (crowd n).Pairwise fun a b => Keyed.clash a b = false := by
  refine pairwise_append.2 ⟨pairwise_map.2 ?_, pairwise_singleton _ _, fun a ha b hb => ?_⟩
  · refine List.pairwise_lt_range.imp_of_mem fun hi hj hlt => ?_
    have hne := mt (crowdValue_injective ((mem_range.1 hi).trans_le hn)
      ((mem_range.1 hj).trans_le hn)) hlt.ne
    simp [Keyed.clash, crowdRow, hne]
  · obtain ⟨i, -, rfl⟩ := List.mem_map.1 ha
    obtain rfl := mem_singleton.1 hb
    have hname : (crowdName == lateName) = false := by decide +kernel
    simp [Keyed.clash, crowdRow, lateRow, crowdValue, hname]

def crowdPDNS : PDNS.Zone :=
  { samplePDNS with rrsets := samplePDNS.rrsets ++
    [⟨crowdName, str "CNAME", 60, .none, [⟨str "example.com.", false⟩], none⟩,
      ⟨lateName, str "TXT", 60, .none, [⟨quoted sampleValue, false⟩], none⟩] }

/-- Rows for a name with a CNAME, and a later row, all stale. -/
def crowdWorld (n : ℕ) (hn : n ≤ 100) : World :=
  { sampleWorld with
    store := { sampleWorld.store with challenges := ⟨crowd n, crowd_noClash hn⟩ }
    pdns := { sampleWorld.pdns with zones := ⟨[crowdPDNS], pairwise_singleton _ _⟩ }
    ticks := 9 }

theorem crowdWorld_zone {n : ℕ} {hn : n ≤ 100} {id : Str} {pz : PDNS.Zone}
    (h : (crowdWorld n hn).pdns.zone id = some pz) : pz = crowdPDNS := by
  obtain ⟨hmem, -⟩ := PDNS.Server.zone_eq_some.1 h
  exact mem_singleton.1 hmem

theorem crowdWorld_row (n : ℕ) (hn : n ≤ 100) :
    (crowdWorld n hn).store.zone (str "t") (str "z") = some sampleZone := rfl

theorem crowdWorld_pdns (n : ℕ) (hn : n ≤ 100) :
    (crowdWorld n hn).pdns.zone sampleZone.pdnsID = some crowdPDNS := rfl

theorem check_label {domain v : Str} (hv : valueOK v = true)
    (hd : canonical C (trimPrefix (trimSpace domain) (str "*.")) = some domain)
    (hf : canonical C (label ++ domain) = some (label ++ domain)) :
    check C ⟨domain, label ++ domain, v⟩ = .ok (label ++ domain) := by
  simp only [check, hv, hd, hf, Bool.not_true, Bool.false_eq_true, if_false, if_true]

theorem valueOK_crowdValue {i : ℕ} (hi : i < 100) : valueOK (crowdValue i) = true := by
  have hall : ∀ i < 100, valueOK (crowdValue i) = true := by decide +kernel
  exact hall i hi

theorem mem_crowd {n : ℕ} {c : Store.Challenge} :
    c ∈ crowd n ↔ (∃ i < n, crowdRow i = c) ∨ c = lateRow := by
  simp only [crowd, mem_append, List.mem_map, mem_range, mem_singleton]

theorem sound_crowdWorld (n : ℕ) (hn : n ≤ 100) : Sound .sample (crowdWorld n hn) := by
  refine ⟨fun i j h => Nat.succ_le_succ h, fun id pz h => ?_, fun z hz pz hpz => ?_, fun c hc => ?_⟩
  · rw [crowdWorld_zone h]
    decide +kernel
  · obtain rfl := crowdWorld_zone hpz
    intro r hr ht x hx zone v hzone hv hcontent
    have htext : ∀ r ∈ crowdPDNS.rrsets, r.type = str "TXT" →
        r.records = [⟨quoted sampleValue, false⟩] := by
      decide +kernel
    rw [htext r hr ht, mem_singleton] at hx
    subst hx
    rw [content_quoted (canonicalZone_spec hzone).plainName (by decide +kernel)] at hcontent
    exact Except.ok.inj hcontent
  · rcases mem_crowd.1 hc with ⟨i, hi, rfl⟩ | rfl
    · exact ⟨⟨str "a.example.com.", _, crowdValue i⟩,
        check_label (valueOK_crowdValue (hi.trans_le hn)) (by decide +kernel) (by decide +kernel),
          rfl⟩
    · exact ⟨⟨str "b.example.com.", _, sampleValue⟩,
        check_label (by decide +kernel) (by decide +kernel) (by decide +kernel), rfl⟩

def isCrowd (c : Store.Challenge) : Bool := c.fqdn == crowdName

theorem isCrowd_late : isCrowd lateRow = false := by decide +kernel

theorem staleRows_crowdWorld (n : ℕ) (hn : n ≤ 100) : staleRows 0 (crowdWorld n hn) = crowd n := by
  refine filter_eq_self.2 fun c hc => decide_eq_true ?_
  have hold : c.createdAt < 10 := by
    rcases mem_crowd.1 hc with ⟨i, -, rfl⟩ | rfl
    · exact (by decide : 1 < 10)
    · exact (by decide : 2 < 10)
  exact hold

theorem crowd_fails (n : ℕ) (hn : n ≤ 100) :
    ∀ c ∈ staleRows 0 (crowdWorld n hn), isCrowd c = true → Fails .sample (crowdWorld n hn) c := by
  intro c hc hF
  rw [staleRows_crowdWorld] at hc
  rcases mem_crowd.1 hc with ⟨i, -, rfl⟩ | rfl
  · have hcname : setAt Config.sample crowdPDNS.rrsets crowdName (str "CNAME") =
        some ⟨crowdName, str "CNAME", 60, .none, [⟨str "example.com.", false⟩],
          none⟩ := by decide +kernel
    exact fails_of_cname (sound_crowdWorld n hn) (crowdWorld_row n hn) (crowdWorld_pdns n hn)
      (by decide +kernel : IsLowerStr crowdName) hcname
  · rw [isCrowd_late] at hF
    cases hF

theorem late_works (n : ℕ) (hn : n ≤ 100) :
    ∀ c ∈ staleRows 0 (crowdWorld n hn), isCrowd c = false → Works .sample (crowdWorld n hn) c := by
  intro c hc hF
  rw [staleRows_crowdWorld] at hc
  have hnames : lateName ≠ crowdName := by decide +kernel
  rcases mem_crowd.1 hc with ⟨i, -, rfl⟩ | rfl
  · rw [isCrowd, crowdRow, beq_self_eq_true] at hF
    cases hF
  · refine works_of_alone (sound_crowdWorld n hn) hc (by decide) (crowdWorld_row n hn) rfl
      (crowdWorld_pdns n hn)
      (by decide +kernel) (by decide +kernel) (by decide +kernel) ?_ fun d hd hfqdn => ?_
    · decide +kernel
    · rcases mem_crowd.1 hd with ⟨i, -, rfl⟩ | rfl
      · exact absurd hfqdn.symm hnames
      · rfl

theorem crowd_before (n : ℕ) (hn : n ≤ 100) :
    ((staleRows 0 (crowdWorld n hn)).filter fun f => isCrowd f ∧ Older f lateRow ∧
      f ≠ lateRow).length = n := by
  rw [staleRows_crowdWorld, crowd, filter_append, filter_cons_of_neg (by simp), filter_nil,
    append_nil, filter_eq_self.2, length_map, length_range]
  intro c hc
  obtain ⟨i, -, rfl⟩ := List.mem_map.1 hc
  exact decide_eq_true ⟨beq_self_eq_true _, rfl, by rintro ⟨⟩⟩

/-- Behind one failing row, the later one is removed. -/
theorem passes_remove_iff_sample :
    ∃ w, Sound .sample w ∧ lateRow ∈ staleRows 0 w ∧
      ∃ k ≤ w.store.challenges.rows.length, Gone .sample (passes .sample 0 k w) lateRow := by
  have hlate : lateRow ∈ staleRows 0 (crowdWorld 1 (by decide)) := by
    rw [staleRows_crowdWorld]
    exact mem_crowd.2 (.inr rfl)
  refine ⟨crowdWorld 1 (by decide), sound_crowdWorld 1 _, hlate, ?_⟩
  refine (passes_remove_iff .sample (crowdWorld 1 (by decide)) 0 isCrowd (sound_crowdWorld 1 _)
    (crowd_fails 1 _)
    (late_works 1 _)).2 (fun c hc hF => ?_) lateRow hlate isCrowd_late
  rw [staleRows_crowdWorld] at hc
  rcases mem_crowd.1 hc with ⟨i, -, rfl⟩ | rfl
  · rw [isCrowd, crowdRow, beq_self_eq_true] at hF
    cases hF
  · rw [crowd_before]
    decide

/-- Behind a hundred failing rows, the later one is there after any number of passes. -/
theorem passes_starve :
    ∃ w, Sound .sample w ∧ (∀ c ∈ staleRows 0 w, isCrowd c = true → Fails .sample w c) ∧
      (∀ c ∈ staleRows 0 w, isCrowd c = false → Works .sample w c) ∧ lateRow ∈ staleRows 0 w ∧
      isCrowd lateRow = false ∧
      ∀ k, lateRow ∈ (passes .sample 0 k w).store.challenges := by
  have hlate : lateRow ∈ staleRows 0 (crowdWorld 100 le_rfl) := by
    rw [staleRows_crowdWorld]
    exact mem_crowd.2 (.inr rfl)
  refine ⟨crowdWorld 100 le_rfl, sound_crowdWorld 100 _, crowd_fails 100 _, late_works 100 _, hlate,
    isCrowd_late, fun k => ?_⟩
  exact (sound_crowdWorld 100 _).starved k (crowd_fails 100 _) hlate (crowd_before 100 _).ge

end TangraDns.Challenges
