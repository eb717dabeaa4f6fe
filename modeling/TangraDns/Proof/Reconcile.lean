/-
  The reconciler's pass: which forward entries it leaves, and which it removes.
-/
import TangraDns.Data.Except
import TangraDns.Prog.Spec
import TangraDns.RecordData
import TangraDns.Scope
import TangraDns.Text.Trim

namespace TangraDns.Recursor

open List Str Prog Prog.Failing

variable {U : CaseTables} {c : Config} {r : Reconciler} {w : World}
variable {n z : Str} {past : Past}

/-! ## Canonical names -/

theorem canonicalForward_self (z : Str) :
    canonicalForward U (canonicalForward U z) = canonicalForward U z := by
  set y := toLower U (trimSpace z) with hy
  -- the canonical form is `y`, or `y` and a dot; either way it ends with a dot and has nothing to
  -- trim
  obtain ⟨s, hs, hlast, hlower, hhead⟩ : ∃ s, canonicalForward U z = s ∧ s.getLast? = some dot ∧
      toLower U s = s ∧
      ∀ p ∈ (runes s).head?, isSpace p = false := by
    by_cases hdot : HasSuffix y [dot]
    · obtain ⟨t, ht⟩ := hdot
      refine ⟨y, if_pos ⟨t, ht⟩, by rw [← ht, getLast?_concat], toLower_toLower U _,
        head_toLower_trimSpace U z⟩
    · refine ⟨y ++ [dot], if_neg hdot, getLast?_concat, ?_, ?_⟩
      · rw [toLower_append_ascii U (by decide), hy, toLower_toLower, toLower_cons U (by decide)]
        rfl
      · rw [runes_append_ascii (by decide), head?_append]
        cases hr : (runes y).head? with
        | none => simp [runes_cons (show dot < 0x80 by decide),
            show isSpace (dot.toNat) = false by decide]
        | some p =>
          rintro q ⟨⟩
          exact head_toLower_trimSpace U z p hr
  have htrim : trimSpace s = s := by
    refine trimSpace_of_segments (fun p hp => hhead p.2 ?_) fun p hp => ?_
    · rw [runes, head?_map, Option.mem_def, Option.map_eq_some_iff]
      exact ⟨p, hp, rfl⟩
    · rw [last_segment hlast (by decide) p hp]
      decide
  obtain ⟨t, ht⟩ := getLast?_eq_some_iff.1 hlast
  rw [hs, canonicalForward, htrim, hlower]
  exact if_pos ⟨t, ht.symm⟩

theorem canon_eq (z : Str) :
    canon U z = if canonicalForward U z = [dot] then none else some (canonicalForward U z) := by
  unfold canon canonicalForward
  generalize toLower U (trimSpace z) = y
  dsimp only
  by_cases hdot : HasSuffix y [dot]
  · obtain ⟨t, rfl⟩ := id hdot
    rw [if_pos hdot, trimSuffix, if_pos hdot, length_append, Nat.add_sub_cancel, take_left']
    · simp only [append_eq_singleton_iff, cons_ne_nil, and_true, and_false, or_false]
    · rfl
  · rw [if_neg hdot, trimSuffix, if_neg hdot]
    simp only [append_eq_singleton_iff, cons_ne_nil, and_true, and_false, or_false]

/-! ## The recursor's calls -/

/-- What the calls of a pass may answer and leave: any of them may fail, and a delete or a create
    that fails may have taken effect; the recursor compares names in canonical form, and answers 404
    or 422 to a delete only for a zone it does not have.  The other dependencies answer as they
    like. -/
def Steps (U : CaseTables) : Prog.Steps Op Res World
  | .store .allZoneNames, w, a, w' => w' = w ∧ ∀ ns, a = .ok ns → ns = w.store.allZoneNames
  | .recursor .list, w, a, w' => w' = w ∧ ∀ zs, a = .ok zs → zs = w.recursor
  | .recursor (.delete n), w, a, w' =>
    (w' = w ∨ w' = { w with recursor := others U n w.recursor }) ∧
      (a = .ok () → w' = { w with recursor := others U n w.recursor }) ∧
      (a = .error (some 404) ∨ a = .error (some 422) → w' = w ∧ others U n w.recursor = w.recursor)
  | .recursor (.create z), w, a, w' =>
    (w' = w ∨ w' = { w with recursor := w.recursor ++ [z] }) ∧
      (a = .ok () → w' = { w with recursor := w.recursor ++ [z] })
  | _, w, _, w' => w' = w

/-- A forward entry has the canonical name `n`. -/
def Forwards (U : CaseTables) (zs : List ForwardZone) (n : Str) : Prop :=
  ∃ z ∈ zs, IsForward U z ∧ canonicalForward U z.name = n

theorem forwards_others {zs : List ForwardZone} {m : Str} :
    Forwards U (others U m zs) n ↔ Forwards U zs n ∧ n ≠ canonicalForward U m := by
  constructor
  · rintro ⟨z, hz, hf, rfl⟩
    obtain ⟨hz, hne⟩ := List.mem_filter.1 hz
    exact ⟨⟨z, hz, hf, rfl⟩, of_decide_eq_true hne⟩
  · rintro ⟨⟨z, hz, hf, rfl⟩, hne⟩
    exact ⟨z, List.mem_filter.2 ⟨hz, decide_eq_true hne⟩, hf, rfl⟩

theorem forwards_concat {zs : List ForwardZone} {t m : Str} :
    Forwards U (zs ++ [⟨n, str "Forwarded", [t]⟩]) m ↔ Forwards U zs m ∨
    m = canonicalForward U n := by
  constructor
  · rintro ⟨z, hz, hf, rfl⟩
    rcases mem_append.1 hz with hz | hz
    · exact .inl ⟨z, hz, hf, rfl⟩
    · rw [mem_singleton.1 hz]
      exact .inr rfl
  · rintro (⟨z, hz, hf, rfl⟩ | rfl)
    · exact ⟨z, mem_append_left _ hz, hf, rfl⟩
    · exact ⟨_, mem_append_right _ (mem_singleton.2 rfl), (rfl : EqualFold U _ _), rfl⟩

/-! ## One zone -/

theorem target_ensures : Ensures (Steps U) (fun _ w' => w' = w) w (target c) := by
  unfold target
  split
  · exact ensures_pure rfl
  · refine (ensures_ask (Q := fun _ w' => w' = w) fun _ _ h => h).bind (fun addrs w' hw => ?_)
      fun _ _ hw => hw
    split
    · exact ensures_pure hw
    · split
      · exact ensures_pure hw
      · exact ensures_throw hw

theorem syncForward_ensures (hc : c.enabled = true) (z : Str) :
    Ensures (Steps U) (fun a w' => a = .ok () →
      ∀ n, Forwards U w'.recursor n ↔ Forwards U w.recursor n ∨ n = canonicalForward U z) w
        (syncForward U c z) := by
  unfold syncForward
  rw [hc, canon_eq]
  refine Ensures.ite (fun h => absurd h Bool.false_ne_true) fun _ => ?_
  by_cases hroot : canonicalForward U z = [dot]
  · rw [if_pos hroot]
    exact ensures_throw fun h => absurd h Except.error_ne_ok
  rw [if_neg hroot]
  refine target_ensures.bind (fun t w₁ hw₁ => ?_) fun _ _ _ h => absurd h Except.error_ne_ok
  subst hw₁
  -- whatever the delete answers, it takes no other entry
  refine Ensures.catch (Q := fun _ w₂ => ∀ n, Forwards U w₂.recursor n ∨ n = canonicalForward U z ↔
    Forwards U w₁.recursor n ∨ n = canonicalForward U z) (ensures_ask fun a w₂ h n => ?_)
      fun _ w₂ hw₂ => ?_
  · obtain ⟨rfl | rfl, -⟩ := h
    · rfl
    · rw [forwards_others, canonicalForward_self, and_or_right, and_iff_left (ne_or_eq _ _)]
  · refine ensures_ask fun a w₃ h ha n => ?_
    rw [h.2 (Except.mapError_eq_ok.1 ha), forwards_concat, canonicalForward_self, hw₂]

theorem removeForward_ensures (hc : c.enabled = true) (z : Str) :
    Ensures (Steps U) (fun a w' => a = .ok () →
      ∀ n, Forwards U w'.recursor n ↔ Forwards U w.recursor n ∧ n ≠ canonicalForward U z) w
        (removeForward U c z) := by
  unfold removeForward
  rw [hc, canon_eq]
  refine Ensures.ite (fun h => absurd h Bool.false_ne_true) fun _ => ?_
  by_cases hroot : canonicalForward U z = [dot]
  · rw [if_pos hroot]
    exact ensures_throw fun h => absurd h Except.error_ne_ok
  rw [if_neg hroot]
  refine Ensures.catch (Q := fun a w₁ => (a = .ok () ∨ a = .error (.recursor (some 404)) ∨
      a = .error (.recursor (some 422))) → w₁.recursor = others U (canonicalForward U z) w.recursor)
    (ensures_ask fun a w₁ h ha => ?_) fun a w₁ hw₁ => ?_
  · cases a with
    | ok _ => rw [h.2.1 rfl]
    | error status =>
      have hstatus : status = some 404 ∨ status = some 422 := by
        rcases ha with ha | ha | ha
        · cases ha
        · exact .inl (Err.recursor.inj (Except.error.inj ha))
        · exact .inr (Err.recursor.inj (Except.error.inj ha))
      obtain ⟨rfl, habsent⟩ := h.2.2 (hstatus.imp (congrArg _) (congrArg _))
      exact habsent.symm
  · have hdone (hw : w₁.recursor = others U (canonicalForward U z) w.recursor) (n : Str) :
        Forwards U w₁.recursor n ↔ Forwards U w.recursor n ∧ n ≠ canonicalForward U z := by
      rw [hw, forwards_others, canonicalForward_self]
    cases a with
    | ok _ => exact ensures_pure fun _ => hdone (hw₁ (.inl rfl))
    | error e =>
      refine Ensures.ite (fun he => ensures_pure fun _ => hdone (hw₁ (.inr ?_))) fun _ =>
        ensures_throw fun h => absurd h Except.error_ne_ok
      exact he.imp (congrArg _) (congrArg _)

/-! ## All zones -/

theorem note_eq_none {first : Option Err} {a : Except Err Unit} (h : note first a = none) :
    first = none ∧ a = .ok () := by
  cases a with
  | ok _ => exact ⟨h, rfl⟩
  | error e => cases first <;> cases h

theorem syncAll_ensures (hc : r.client.enabled = true) (zs : List Str) (first : Option Err)
    (w : World) :
    Ensures (Steps U) (fun a w' => a = .ok none → first = none ∧
      ∀ n, Forwards U w'.recursor n ↔ Forwards U w.recursor n ∨ n ∈ zs.map (canonicalForward U)) w
      (syncAll U r first zs) := by
  induction zs generalizing first w with
  | nil => exact ensures_pure fun h => ⟨Except.ok.inj h, fun n => by simp⟩
  | cons z zs ih =>
    refine (syncForward_ensures hc z).catch fun a w₁ h₁ =>
      (ih (note first a) w₁).mono fun a' w₂ h₂ ha' => ?_
    obtain ⟨hnote, hall⟩ := h₂ ha'
    obtain ⟨hfirst, ha⟩ := note_eq_none hnote
    refine ⟨hfirst, fun n => ?_⟩
    rw [hall, h₁ ha, map_cons, mem_cons, or_assoc]

theorem removeAll_ensures (hc : r.client.enabled = true) (keep : List Str) (zs : List Str)
    (first : Option Err)
    (w : World) :
    Ensures (Steps U) (fun a w' => a = .ok none → first = none ∧
      ∀ n, Forwards U w'.recursor n ↔ Forwards U w.recursor n ∧
        (n ∈ zs.map (canonicalForward U) → n ∈ keep)) w
      (removeAll U r keep first zs) := by
  induction zs generalizing first w with
  | nil => exact ensures_pure fun h => ⟨Except.ok.inj h, fun n => by simp⟩
  | cons z zs ih =>
    rw [removeAll]
    refine Ensures.ite (fun hz => ?_) fun hz => ?_
    · refine (ih first w).mono fun a w₁ h₁ ha => ⟨(h₁ ha).1, fun n => ?_⟩
      rw [(h₁ ha).2, map_cons, mem_cons]
      refine and_congr_right fun _ => ⟨fun h hn => ?_, fun h hn => h (.inr hn)⟩
      rcases hn with rfl | hn
      exacts [hz, h hn]
    · refine (removeForward_ensures hc z).catch fun a w₁ h₁ =>
        (ih (note first a) w₁).mono fun a' w₂ h₂ ha' => ?_
      obtain ⟨hnote, hall⟩ := h₂ ha'
      obtain ⟨hfirst, ha⟩ := note_eq_none hnote
      refine ⟨hfirst, fun n => ?_⟩
      rw [hall, h₁ ha, map_cons, mem_cons, and_assoc]
      refine and_congr_right fun _ => ⟨fun ⟨hne, h⟩ hn => hn.elim (fun he => absurd he hne) h,
        fun h => ⟨?_, ?_⟩⟩
      · rintro rfl
        exact hz (h (.inl rfl))
      · exact fun hn => h (.inr hn)

theorem listForwards_ensures (hc : c.enabled = true) :
    Ensures (Steps U) (fun a w' => w' = w ∧
      ∀ ns, a = .ok ns → ∀ n, n ∈ ns.map (canonicalForward U) ↔ Forwards U w.recursor n) w
        (listForwards U c) := by
  unfold listForwards
  rw [hc]
  refine Ensures.ite (fun h => absurd h Bool.false_ne_true) fun _ => ?_
  refine (ensures_ask (Q := fun a w' => w' = w ∧ ∀ zs, a = .ok zs → zs = w.recursor)
    fun a w' h => ?_).bind
    (fun zs w' h => ?_) fun _ _ h => ⟨h.1, fun _ h' => absurd h' Except.error_ne_ok⟩
  · exact ⟨h.1, fun zs ha => h.2 zs (Except.mapError_eq_ok.1 ha)⟩
  · obtain ⟨rfl, h⟩ := h
    obtain rfl := h zs rfl
    refine ensures_pure ⟨rfl, ?_⟩
    rintro ns ⟨⟩ n
    simp only [map_map, List.mem_map, List.mem_filter, decide_eq_true_eq,
      Function.comp_apply, Forwards]
    exact ⟨fun ⟨z, ⟨hz, hf⟩, hn⟩ => ⟨z, hz, hf, hn⟩, fun ⟨z, hz, hf, hn⟩ => ⟨z, ⟨hz, hf⟩, hn⟩⟩

/-- The entries after a pass without error. -/
def Reconciled (U : CaseTables) (r : Reconciler) (w w' : World) : Prop :=
  ∀ n, Forwards U w'.recursor n ↔ n ∈ w.store.allZoneNames.map (canonicalForward U) ∨
    Forwards U w.recursor n ∧ (n = [dot] ∨ n ∈ r.static.map (canonicalForward U))

theorem reconcile_ensures (hc : r.client.enabled = true) :
    Ensures (Steps U) (fun a w' => a = .ok () → Reconciled U r w w') w (reconcile U r) := by
  unfold reconcile
  rw [hc]
  refine Ensures.ite (fun h => absurd h Bool.false_ne_true) fun _ => ?_
  refine (ensures_ask (Q := fun a w₁ => w₁ = w ∧ ∀ ns, a = .ok ns → ns = w.store.allZoneNames)
    fun _ _ h => h).bind
    (fun managed w₁ h₁ => ?_) fun _ _ _ h => absurd h Except.error_ne_ok
  obtain ⟨rfl, h₁⟩ := h₁
  obtain rfl := h₁ managed rfl
  have hcount : Ensures (Steps U) (fun _ w₂ => w₂ = w₁) w₁ (countUnowned U w₁.store.allZoneNames) :=
    (ensures_ask (Q := fun _ w₂ => w₂ = w₁) fun _ _ h => h).bind (fun _ _ hw => ensures_pure hw)
      fun _ _ hw => hw
  refine Ensures.bind (Q := fun _ w₂ => w₂ = w₁)
    (Ensures.ite (fun _ => hcount.attempt.mono fun _ _ ⟨_, _, hw⟩ => hw) fun _ => ensures_pure rfl)
    (fun unowned w₂ hw₂ => ?_) fun _ _ _ h => absurd h Except.error_ne_ok
  subst hw₂
  refine Ensures.ite (fun h => absurd h Bool.false_ne_true) fun _ => ?_
  refine (syncAll_ensures hc _ none w₂).bind (fun first w₃ hsync => ?_) fun _ _ _ h =>
    absurd h Except.error_ne_ok
  refine (listForwards_ensures hc).bind (fun current w₄ hlist => ?_) fun _ _ _ h =>
    absurd h Except.error_ne_ok
  obtain ⟨rfl, hlist⟩ := hlist
  refine (removeAll_ensures hc _ current first w₄).bind (fun last w₅ hremove => ?_) fun _ _ _ h =>
    absurd h Except.error_ne_ok
  cases last with
  | some e => exact ensures_throw fun h => absurd h Except.error_ne_ok
  | none =>
    refine ensures_ofExcept fun _ n => ?_
    obtain ⟨rfl, hleft⟩ := hremove rfl
    rw [hleft, hlist current rfl, (hsync rfl).2, keep, map_append, mem_cons, mem_append]
    constructor
    · rintro ⟨hn, hkeep⟩
      rcases hkeep hn with hroot | hstatic | hmanaged
      · exact hn.symm.imp id fun hn => ⟨hn, .inl hroot⟩
      · exact hn.symm.imp id fun hn => ⟨hn, .inr hstatic⟩
      · exact .inl hmanaged
    · rintro (hmanaged | ⟨hn, hkeep⟩)
      · exact ⟨.inr hmanaged, fun _ => .inr (.inr hmanaged)⟩
      · exact ⟨.inl hn, fun _ => hkeep.imp id .inl⟩

/-! ## The deletes of a pass -/

def namesOf : Event Op Res → Option (List Str)
  | ⟨.store .allZoneNames, .ok ns⟩ => some ns
  | _ => none

def managedIn (past : Past) : Option (List Str) := past.findSome? namesOf

/-- The zone whose entry was deleted by the last call, to be created again. -/
def resyncing (U : CaseTables) : Past → Option Str
  | ⟨.recursor (.delete n), _⟩ :: past =>
    if n ∈ ((managedIn past).getD []).map (canonicalForward U) then some n else none
  | _ => none

def Creates (n : Str) (o : Op) : Prop := ∃ t, o = .recursor (.create ⟨n, str "Forwarded", [t]⟩)

/-- Deletes are of managed zones or of zones not to keep, and after the former the entry is created
    at once. -/
def passes (U : CaseTables) (r : Reconciler) : Discipline Op Res where
  allowed past o :=
    (∀ n, resyncing U past = some n → Creates n o) ∧
    ∀ n, o = .recursor (.delete n) → ∃ managed, managedIn past = some managed ∧
      (n ∈ managed.map (canonicalForward U) ∨ n ∉ keep U r managed)
  answer _ _ := True
  same _ _ _ _ := False

def Settled (U : CaseTables) (managed : List Str) (past : Past) : Prop :=
  managedIn past = some managed ∧ resyncing U past = none

theorem mem_of_managedIn {managed : List Str} (h : managedIn past = some managed) :
    Did past (.store .allZoneNames) (.ok managed) := by
  obtain ⟨e, he, hnames⟩ := exists_of_findSome?_eq_some h
  unfold namesOf at hnames
  split at hnames
  · cases hnames
    exact he
  · cases hnames

variable {managed : List Str} {past : Past}

theorem allowed_question {o : Op} (h : resyncing U past = none)
    (ho : ∀ n, o ≠ .recursor (.delete n)) :
    (passes U r).allowed past o := by
  refine ⟨fun n hn => ?_, fun n hn => absurd hn (ho n)⟩
  rw [h] at hn
  cases hn

theorem target_settled (h : Settled U managed past) :
    Leaves (passes U r) (Settled U managed) past (target c) := by
  unfold target
  split
  · exact leaves_pure h
  · refine Leaves.bind (I := Settled U managed)
      (leaves_ask (allowed_question h.2 fun _ ho => nomatch ho) (fun _ _ h => h)
        fun a => ⟨h.1, rfl⟩)
      (fun past' addrs h' => ?_) fun _ h' => h'
    split
    · exact leaves_pure h'
    · split
      · exact leaves_pure h'
      · exact leaves_throw h'

theorem syncForward_settled (h : Settled U managed past) (hz : z ∈ managed) :
    Leaves (passes U r) (Settled U managed) past (syncForward U c z) := by
  refine Leaves.ite (fun _ => leaves_pure h) fun _ => ?_
  rw [canon_eq]
  by_cases hroot : canonicalForward U z = [dot]
  · rw [if_pos hroot]
    exact leaves_throw h
  rw [if_neg hroot]
  have hmem : canonicalForward U z ∈ managed.map (canonicalForward U) := mem_map_of_mem hz
  refine (target_settled h).bind (fun past₁ t h₁ => ?_) fun _ h' => h'
  -- between its delete and its create
  refine Leaves.catch (I := fun past' => managedIn past' = some managed ∧
    resyncing U past' = some (canonicalForward U z))
    (leaves_ask ⟨?_, ?_⟩ (fun _ _ h => h) fun a => ⟨h₁.1, ?_⟩) fun past₂ _ h₂ => ?_
  · intro n hn
    rw [h₁.2] at hn
    cases hn
  · rintro n ⟨⟩
    exact ⟨managed, h₁.1, .inl hmem⟩
  · rw [resyncing, h₁.1]
    exact if_pos hmem
  · refine leaves_ask ⟨fun n hn => ?_, fun n hn => nomatch hn⟩ (fun _ _ h => h) fun a => ⟨h₂.1, rfl⟩
    rw [h₂.2] at hn
    cases hn
    exact ⟨t, rfl⟩

theorem removeForward_settled (h : Settled U managed past)
    (hz : canonicalForward U z ∉ keep U r managed) :
    Leaves (passes U r) (Settled U managed) past (removeForward U c z) := by
  refine Leaves.ite (fun _ => leaves_pure h) fun _ => ?_
  rw [canon_eq]
  by_cases hroot : canonicalForward U z = [dot]
  · rw [if_pos hroot]
    exact leaves_throw h
  rw [if_neg hroot]
  have hfree : canonicalForward U z ∉ managed.map (canonicalForward U) := fun hmem =>
    hz (mem_cons_of_mem _ (by rw [map_append]; exact mem_append_right _ hmem))
  refine Leaves.catch (I := Settled U managed)
    (leaves_ask ⟨?_, ?_⟩ (fun _ _ h => h) fun a => ⟨h.1, ?_⟩)
    fun past₁ a h₁ => ?_
  · intro n hn
    rw [h.2] at hn
    cases hn
  · rintro n ⟨⟩
    exact ⟨managed, h.1, .inr hz⟩
  · rw [resyncing, h.1]
    exact if_neg hfree
  · cases a with
    | ok _ => exact leaves_pure h₁
    | error e => exact Leaves.ite (fun _ => leaves_pure h₁) fun _ => leaves_throw h₁

theorem syncAll_settled (zs : List Str) (hzs : zs ⊆ managed) (first : Option Err)
    (h : Settled U managed past) : Leaves (passes U r) (Settled U managed) past
      (syncAll U r first zs) := by
  induction zs generalizing first past with
  | nil => exact leaves_pure h
  | cons z zs ih =>
    obtain ⟨hz, hzs⟩ := cons_subset.1 hzs
    exact (syncForward_settled h hz).catch fun past' a h' => ih hzs (note first a) h'

theorem removeAll_settled (zs : List Str) (first : Option Err) (h : Settled U managed past) :
    Leaves (passes U r) (Settled U managed) past (removeAll U r (keep U r managed) first zs) := by
  induction zs generalizing first past with
  | nil => exact leaves_pure h
  | cons z zs ih =>
    rw [removeAll]
    exact Leaves.ite (fun _ => ih first h) fun hz =>
      (removeForward_settled h hz).catch fun past' a h' => ih (note first a) h'

theorem listForwards_settled (h : Settled U managed past) :
    Leaves (passes U r) (Settled U managed) past (listForwards U c) :=
  Leaves.ite (fun _ => leaves_pure h) fun _ => Leaves.bind (I := Settled U managed)
    (leaves_ask (allowed_question h.2 fun _ ho => nomatch ho) (fun _ _ h => h) fun _ => ⟨h.1, rfl⟩)
    (fun _ _ h => leaves_pure h) fun _ h => h

theorem reconcile_settled :
    Leaves (passes U r) (fun past => resyncing U past = none) [] (reconcile U r) := by
  refine Leaves.ite (fun _ => leaves_pure rfl) fun _ => ?_
  refine leaves_ask_bind (allowed_question rfl fun _ ho => nomatch ho) (fun _ _ h => h)
    (fun a managed ha => ?_) fun _ => rfl
  obtain rfl : a = .ok managed := ha
  have hread : Settled U managed [⟨.store .allZoneNames, .ok managed⟩] := ⟨rfl, rfl⟩
  have hcount : Leaves (passes U r) (Settled U managed) [⟨.store .allZoneNames, .ok managed⟩]
      (countUnowned U managed) :=
    Leaves.bind (I := Settled U managed)
      (leaves_ask (allowed_question rfl fun _ ho => nomatch ho) (fun _ _ h => h)
        fun _ => ⟨rfl, rfl⟩)
      (fun _ _ h => leaves_pure h) fun _ h => h
  refine Leaves.bind (I := Settled U managed)
    (Leaves.ite (fun _ => hcount.attempt) fun _ => leaves_pure hread)
    (fun past₁ unowned h₁ => Leaves.ite (fun _ => leaves_ofExcept h₁.2) fun _ => ?_) fun _ h => h.2
  refine (syncAll_settled managed (List.Subset.refl _) none h₁).bind (fun past₂ first h₂ => ?_)
    fun _ h => h.2
  refine (listForwards_settled h₂).bind (fun past₃ current h₃ => ?_) fun _ h => h.2
  refine (removeAll_settled current first h₃).bind (fun past₄ last h₄ => ?_) fun _ h => h.2
  cases last with
  | some e => exact leaves_throw h₄.2
  | none => exact leaves_ofExcept h₄.2

/-- **A pass is exact.**  Whatever fails, a pass that returns no error leaves the forward entries of
    the managed zones and, of the entries before, those of the root and of the static forwards, in
    canonical form; and every pass deletes an entry of a managed zone only to create it with its
    next call, and no other entry to keep. -/
theorem reconcile_exact (U : CaseTables) (r : Reconciler) (hc : r.client.enabled = true)
    (w : World) :
    Ensures (Steps U) (fun a w' => a = .ok () → Reconciled U r w w') w (reconcile U r) ∧
      ∀ (S : Type) (h : Handler Op Res S) (s : S) (pre post : Past) (n : Str)
        (a : Except (Option ℕ) Unit),
        trace h (reconcile U r).run s = pre ++ ⟨.recursor (.delete n), a⟩ :: post →
          ∃ managed, Did pre (.store .allZoneNames) (.ok managed) ∧
            ((n ∈ managed.map (canonicalForward U) ∧ ∃ e post', post = e :: post' ∧ Creates n e.1) ∨
              n ∉ keep U r managed) := by
  refine ⟨reconcile_ensures hc, fun S h s pre post n a htrace => ?_⟩
  have hobeys : Obeys (passes U r) (fun past _ => resyncing U past = none) [] (reconcile U r).run :=
    reconcile_settled
  have hallowed {pre post : Past} {e : Event Op Res}
      (he : trace h (reconcile U r).run s = pre ++ e :: post) :
      (passes U r).allowed pre.reverse e.1 := by
    obtain ⟨-, -, hallowed, -⟩ := hobeys.event (I := fun _ _ => True) (fun _ _ => trivial)
      (fun _ _ _ _ _ => trivial)
      trivial he
    rwa [append_nil] at hallowed
  obtain ⟨managed, hread, hn⟩ := (hallowed htrace).2 n rfl
  refine ⟨managed, mem_reverse.1 (mem_of_managedIn hread), hn.imp (fun hn => ⟨hn, ?_⟩) id⟩
  have hpending : resyncing U (⟨.recursor (.delete n), a⟩ :: pre.reverse) = some n := by
    rw [resyncing, hread]
    exact if_pos hn
  cases post with
  | nil =>
    -- a pass does not end between the two calls
    obtain ⟨-, hend⟩ := hobeys.run (h := h) (s := s) (I := fun _ _ => True) (fun _ _ => trivial)
      (fun _ _ _ _ _ => trivial) trivial
    rw [htrace, append_nil, reverse_append, reverse_singleton, singleton_append, hpending] at hend
    cases hend
  | cons e post' =>
    refine ⟨e, post', rfl, (@hallowed (pre ++ [⟨.recursor (.delete n), a⟩]) post' e ?_).1 n ?_⟩
    · rw [htrace, append_assoc, singleton_append]
    · rw [reverse_append, reverse_singleton, singleton_append, hpending]

def sampleReconciler : Reconciler := ⟨⟨true, str "192.0.2.53", 53⟩, [str "Static.Example"], false⟩

/-- A world with one managed zone and the forwards of the root, of the static forward and of a zone
    that is gone. -/
def sampleForwards : World :=
  { Records.sampleWorld with
    recursor := [⟨[dot], str "Forwarded", []⟩, ⟨str "static.example.", str "Forwarded", []⟩,
      ⟨str "old.example.", str "Forwarded", []⟩] }

theorem reconcile_exact_sample :
    ((exec (handler .ascii) (reconcile .ascii sampleReconciler) sampleForwards).1 = .ok () ∧
      (exec (handler .ascii) (reconcile .ascii sampleReconciler) sampleForwards).2.recursor.map
        ForwardZone.name =
        [[dot], str "static.example.", str "example.com."]) ∧
    Ensures (Steps .ascii) (fun a w' => a = .ok () →
      Reconciled .ascii sampleReconciler sampleForwards w') sampleForwards
      (reconcile .ascii sampleReconciler) :=
  ⟨by decide +kernel, (reconcile_exact .ascii sampleReconciler rfl sampleForwards).1⟩

/-! ## The loop -/

/-- An entry that a pass may change: of a managed zone, or not to keep. -/
def Swept (U : CaseTables) (r : Reconciler) (w : World) (n : Str) : Prop :=
  n ∈ w.store.allZoneNames.map (canonicalForward U) ∨
    ¬ (n = [dot] ∨ n ∈ r.static.map (canonicalForward U))

structure Passed (U : CaseTables) (r : Reconciler) (w w' : World) : Prop where
  store : w'.store = w.store
  forwards : ∀ n, ¬ Swept U r w n → (Forwards U w'.recursor n ↔ Forwards U w.recursor n)

variable {w₀ : World}

theorem delete_passed (hn : Swept U r w₀ (canonicalForward U n)) :
    Keeps (Steps U) (Passed U r w₀) (Act.recursor (.delete n)) := by
  refine keeps_ask fun w _ w' h hw => ?_
  obtain ⟨rfl | rfl, -⟩ := hw
  · exact h
  · refine ⟨h.store, fun m hm => ?_⟩
    rw [forwards_others, h.forwards m hm]
    exact and_iff_left fun he => hm (he ▸ hn)

theorem syncForward_passed (hz : Swept U r w₀ (canonicalForward U z)) :
    Keeps (Steps U) (Passed U r w₀) (syncForward U c z) := by
  refine Keeps.ite keeps_pure ?_
  rw [canon_eq]
  split_ifs with hroot
  · exact keeps_throw
  rw [← canonicalForward_self] at hz
  refine Keeps.bind (fun w h => target_ensures.mono fun _ _ hw => hw ▸ h) fun t => ?_
  refine (delete_passed hz).attempt.bind fun _ => keeps_ask fun w _ w' h hw => ?_
  obtain ⟨rfl | rfl, -⟩ := hw
  · exact h
  · refine ⟨h.store, fun m hm => ?_⟩
    rw [forwards_concat, h.forwards m hm]
    exact or_iff_left fun he => hm (he ▸ hz)

theorem removeForward_passed (hz : Swept U r w₀ (canonicalForward U z)) :
    Keeps (Steps U) (Passed U r w₀) (removeForward U c z) := by
  refine Keeps.ite keeps_pure ?_
  rw [canon_eq]
  split_ifs with hroot
  · exact keeps_throw
  rw [← canonicalForward_self] at hz
  exact (delete_passed hz).catch (fun _ => keeps_pure) fun _ => Keeps.ite keeps_pure keeps_throw

theorem syncAll_passed (zs : List Str) (hzs : zs ⊆ w₀.store.allZoneNames) (first : Option Err) :
    Keeps (Steps U) (Passed U r w₀) (syncAll U r first zs) := by
  induction zs generalizing first with
  | nil => exact keeps_pure
  | cons z zs ih =>
    obtain ⟨hz, hzs⟩ := cons_subset.1 hzs
    exact (syncForward_passed (.inl (mem_map_of_mem hz))).attempt.bind fun a =>
      ih hzs (note first a)

theorem removeAll_passed (zs : List Str) (first : Option Err) :
    Keeps (Steps U) (Passed U r w₀) (removeAll U r (keep U r w₀.store.allZoneNames) first zs) := by
  induction zs generalizing first with
  | nil => exact keeps_pure
  | cons z zs ih =>
    rw [removeAll]
    split_ifs with hz
    · exact ih first
    · refine (removeForward_passed (.inr fun h => hz ?_)).attempt.bind fun a => ih (note first a)
      rw [keep, map_append, mem_cons, mem_append]
      exact h.imp id .inl

theorem reconcile_passed : Keeps (Steps U) (Passed U r w₀) (reconcile U r) := by
  refine Keeps.ite keeps_pure fun w h => ?_
  refine (ensures_ask (Q := fun a w₁ => w₁ = w ∧ ∀ ns, a = .ok ns → ns = w.store.allZoneNames)
    fun _ _ h => h).bind
    (fun managed w₁ h₁ => ?_) fun _ _ h₁ => h₁.1 ▸ h
  obtain ⟨rfl, h₁⟩ := h₁
  obtain rfl : managed = w₀.store.allZoneNames := h.store ▸ h₁ managed rfl
  have hcount : Keeps (Steps U) (Passed U r w₀) (countUnowned U w₀.store.allZoneNames) :=
    (keeps_ask fun _ _ _ h hw => (show _ = _ from hw) ▸ h).bind fun _ => keeps_pure
  have hlist : Keeps (Steps U) (Passed U r w₀) (listForwards U r.client) :=
    Keeps.ite keeps_pure ((keeps_ask fun _ _ _ h hw => hw.1 ▸ h).bind fun _ => keeps_pure)
  refine (Keeps.ite hcount.attempt keeps_pure).bind
    (fun unowned => Keeps.ite keeps_ofExcept ?_) w₁ h
  refine (syncAll_passed _ (List.Subset.refl _) none).bind fun first => hlist.bind fun current => ?_
  refine (removeAll_passed current first).bind fun last => ?_
  cases last with
  | some e => exact keeps_throw
  | none => exact keeps_ofExcept

/-- **The loop stabilises.**  Whatever fails in the passes before, a pass without error leaves the
    entries that it would have left of those the loop began with. -/
theorem run_stabilises (U : CaseTables) (r : Reconciler) (hc : r.client.enabled = true)
    (w : World) (n : ℕ) :
    Ensures (Steps U) (fun a w' => a = .ok () → Reconciled U r w w') w (run U r n) := by
  suffices h : ∀ w₁, Passed U r w w₁ →
      Ensures (Steps U) (fun a w' => a = .ok () → Reconciled U r w w') w₁ (run U r n) from
    h w ⟨rfl, fun _ _ => Iff.rfl⟩
  induction n with
  | zero =>
    refine fun w₁ h => (reconcile_ensures hc).mono fun a w' h' ha m => ?_
    rw [h' ha m, h.store]
    -- an entry of a managed zone is there either way
    by_cases hm : m ∈ w.store.allZoneNames.map (canonicalForward U)
    · exact iff_of_true (.inl hm) (.inl hm)
    · refine or_congr_right (and_congr_left fun hkeep => h.forwards m fun hs => ?_)
      exact hs.elim hm fun hnot => hnot hkeep
  | succ n ih => exact fun w₁ h => Ensures.catch (reconcile_passed w₁ h) fun _ w₂ h₂ => ih w₂ h₂

theorem run_stabilises_sample :
    (exec (handler .ascii) (run .ascii sampleReconciler 2) sampleForwards).1 = .ok () ∧
    Ensures (Steps .ascii) (fun a w' => a = .ok () →
      Reconciled .ascii sampleReconciler sampleForwards w') sampleForwards
      (run .ascii sampleReconciler 2) :=
  ⟨by decide +kernel, run_stabilises .ascii sampleReconciler rfl sampleForwards 2⟩

end TangraDns.Recursor
