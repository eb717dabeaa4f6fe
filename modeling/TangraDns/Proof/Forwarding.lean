/-
  A reconciler's pass beside calls that create and delete zones, every call to a
  dependency one atomic step.
-/
import Mathlib.Data.Fintype.Basic
import TangraDns.Prog.Rely
import TangraDns.Proof.Creation
import TangraDns.Proof.Reconcile
import TangraDns.Proof.Steps

namespace TangraDns.Recursor

open List Str Prog Prog.Failing

variable {ι : Type} {U : CaseTables} {c : Config} {r : Reconciler} {w w' w'' : World} {n : Str}
variable {z : Store.Zone} {o : Op} {C : TangraDns.Config}

/-! ## What runs -/

inductive Job where
  | pass
  | create (subj : Subjects) (i : Zones.CreateInput)
  | delete (subj : Subjects) (id : Str)

def Job.act (C : TangraDns.Config) (r : Reconciler) : Job → Act Unit
  | pass => reconcile C.env.cases r
  | create s i => do
    let _ ← Zones.create C s i
    pure ()
  | delete s id => Zones.delete C s id

abbrev Jobs (ι : Type) := Pool Op Res (Except Err Unit) World ι

def jobs (C : TangraDns.Config) (r : Reconciler) (job : ι → Job) (w : World) : Jobs ι :=
  ⟨fun i => .start ((job i).act C r).run, w⟩

def Agrees (U : CaseTables) (w : World) (n : Str) : Prop :=
  Forwards U w.recursor n ↔ n ∈ w.store.allZoneNames.map (canonicalForward U)

/-- The forward entries other than the root and the static ones are exactly the managed zones. -/
def Exact (U : CaseTables) (r : Reconciler) (w : World) : Prop :=
  ∀ n, n ≠ [dot] → n ∉ r.static.map (canonicalForward U) → Agrees U w n

/-- Names to work on: all of them, or one. -/
inductive Area where
  | all
  | one (n : Str)
deriving DecidableEq

def Area.Covers : Area → Str → Prop
  | all, _ => True
  | one m, n => n = m

def Area.Apart : Area → Area → Prop
  | one m, one n => m ≠ n
  | _, _ => False

instance : (a b : Area) → Decidable (a.Apart b)
  | .one m, .one n => inferInstanceAs (Decidable (m ≠ n))
  | .all, _ => isFalse id
  | .one _, .all => isFalse id

theorem Area.Apart.symm {a b : Area} (h : a.Apart b) : b.Apart a := by
  cases a <;> cases b
  case one.one m m' => exact Ne.symm h
  all_goals exact h.elim

theorem Area.Apart.not_covers {a b : Area} (h : a.Apart b) (ha : a.Covers n) : ¬ b.Covers n := by
  cases a <;> cases b
  case one.one m m' => exact fun hb => h (ha.symm.trans hb)
  all_goals exact h.elim

/-- What a call begins to work on: a pass when it reads the names, a deletion when it reads the row,
    a creation when it has stored the row. -/
def opens (U : CaseTables) : Event Op Res → Option Area
  | ⟨.store .allZoneNames, _⟩ => some .all
  | ⟨.store (.getZone ..), .ok z⟩ => some (.one (canonicalForward U z.name))
  | ⟨.store (.createZone z), .ok _⟩ => some (.one (canonicalForward U z.name))
  | _ => none

def opened (U : CaseTables) (past : Past) : Option Area :=
  past.foldr (fun e m => m.or (opens U e)) none

def atWork (U : CaseTables) {α : Type} (t : Thread Op Res α) : Option Area :=
  if t.Done then none else opened U t.past

def opening (U : CaseTables) (P : Jobs ι) (i : ι) : Option Area :=
  match (P.threads i).prog with
  | .ret _ => none
  | .call o _ => opens U ⟨o, (handler U o P.state).1⟩

/-- The step begins to work on no name that another thread is at work on. -/
def Exclusive (U : CaseTables) (P : Jobs ι) (i : ι) : Prop :=
  ∀ a ∈ opening U P i, ∀ j, j ≠ i → ∀ b ∈ atWork U (P.threads j), a.Apart b

instance [Fintype ι] [DecidableEq ι] (P : Jobs ι) (i : ι) : Decidable (Exclusive U P i) :=
  inferInstanceAs (Decidable (∀ a ∈ opening U P i, _))

/-! ## One name -/

def entriesAt (U : CaseTables) (n : Str) (w : World) : List ForwardZone :=
  w.recursor.filter fun z => canonicalForward U z.name = n

def rowsAt (U : CaseTables) (n : Str) (w : World) : List Store.Zone :=
  w.store.zones.rows.filter fun z => canonicalForward U z.name = n

theorem forwards_iff : Forwards U w.recursor n ↔ ∃ z ∈ entriesAt U n w, IsForward U z := by
  constructor
  · rintro ⟨z, hz, hf, hn⟩
    exact ⟨z, List.mem_filter.2 ⟨hz, decide_eq_true hn⟩, hf⟩
  · rintro ⟨z, hz, hf⟩
    obtain ⟨hz, hn⟩ := List.mem_filter.1 hz
    exact ⟨z, hz, hf, of_decide_eq_true hn⟩

theorem managed_iff : n ∈ w.store.allZoneNames.map (canonicalForward U) ↔ rowsAt U n w ≠ [] := by
  rw [Store.allZoneNames, ((perm_insertionSort _ _).map _).mem_iff, map_map, List.mem_map,
    rowsAt, Ne, filter_eq_nil_iff]
  push Not
  simp only [decide_eq_true_eq, Function.comp_apply]

theorem agrees_iff :
    Agrees U w n ↔ ((∃ z ∈ entriesAt U n w, IsForward U z) ↔ rowsAt U n w ≠ []) := by
  rw [Agrees, forwards_iff, managed_iff]

structure Like (U : CaseTables) (n : Str) (w w' : World) : Prop where
  entries : entriesAt U n w' = entriesAt U n w
  rows : rowsAt U n w' = rowsAt U n w

theorem Like.trans (h : Like U n w w') (h' : Like U n w' w'') : Like U n w w'' :=
  ⟨h'.entries.trans h.entries, h'.rows.trans h.rows⟩

theorem like_of_same (hr : w'.recursor = w.recursor) (hz : w'.store.zones = w.store.zones) :
    Like U n w w' := by
  constructor
  · rw [entriesAt, hr, entriesAt]
  · rw [rowsAt, hz, rowsAt]

theorem Like.agrees (h : Like U n w w') (hw : Agrees U w n) : Agrees U w' n := by
  rw [agrees_iff, h.entries, h.rows]
  exact agrees_iff.1 hw

/-- Rows have canonical names, and the address of the authoritative server can be found. -/
structure Apt (U : CaseTables) (c : Config) (w : World) : Prop where
  names : ∀ z ∈ w.store.zones, canonicalForward U z.name = z.name
  target : Addr.parseAddr c.fwdHost = none → w.hosts c.fwdHost ≠ []

theorem Apt.row_eq (hw : Apt U c w) {y : Store.Zone} (hy : y ∈ w.store.zones)
    (hz : z ∈ w.store.zones)
    (h : canonicalForward U y.name = canonicalForward U z.name) : y = z := by
  rw [hw.names y hy, hw.names z hz] at h
  exact Table.eq_of_clash hy hz (by simp [Keyed.clash, h])

/-! ## What the threads rely on and guarantee -/

/-- A thread is alone at work on its names, and works on no others. -/
def terms (U : CaseTables) (c : Config) : Terms Op Res World (Option Area) where
  next m e := m.or (opens U e)
  rely m w w' := (Apt U c w → Apt U c w') ∧ ∀ a ∈ m, ∀ n, a.Covers n → Like U n w w'
  guar m e w w' := (Apt U c w → Apt U c w') ∧ ∀ n, (∀ a ∈ m.or (opens U e), ¬ a.Covers n) →
    Like U n w w'
  refl _ _ := ⟨id, fun _ _ _ _ => ⟨rfl, rfl⟩⟩
  trans _ _ _ _ h h' := ⟨h'.1 ∘ h.1, fun a ha n hn => (h.2 a ha n hn).trans (h'.2 a ha n hn)⟩

/-- Calls that change neither rows nor entries, and begin no work. -/
def plain : Op → Bool
  | .store (.getZone ..) | .store .allZoneNames => false
  | .store c => !c.writesZones
  | .recursor (.delete _) | .recursor (.create _) => false
  | _ => true

theorem plain_step (ho : plain o = true) (w : World) : (handler U o w).2.recursor = w.recursor ∧
    (handler U o w).2.store.zones = w.store.zones ∧ (handler U o w).2.hosts = w.hosts := by
  cases o with
  | now | newID | pdns c | ipam c => exact ⟨rfl, rfl, rfl⟩
  | store c =>
    refine ⟨rfl, (c.step_frame U _ w.store).1 ?_, rfl⟩
    cases c <;> first | rfl | cases ho
  | recursor c =>
    cases c with
    | lookup | list => exact ⟨rfl, rfl, rfl⟩
    | delete | create => cases ho

theorem plain_opens (ho : plain o = true) (a : Res o) : opens U ⟨o, a⟩ = none := by
  cases o with
  | now | newID | pdns c | ipam c | recursor c => rfl
  | store c => cases c <;> first | rfl | cases ho

theorem Apt.of_same (hw : Apt U c w) (hz : w'.store.zones = w.store.zones)
    (hh : w'.hosts = w.hosts) :
    Apt U c w' := ⟨hz ▸ hw.names, hh ▸ hw.target⟩

theorem plain_guar (ho : plain o = true) (m : Option Area) (e : Event Op Res) (w : World) :
    (terms U c).guar m e w (handler U o w).2 := by
  obtain ⟨hr, hz, hh⟩ := plain_step (U := U) ho w
  exact ⟨fun hw => hw.of_same hz hh, fun _ _ => like_of_same hr hz⟩

def plainly : Discipline Op Res where
  allowed _ o := plain o = true
  answer _ _ := True
  same _ _ _ _ := False

theorem abides_plain {α : Type} {V : Past → α → Prop} {past : Past} {p : Act α} {m : Option Area}
    (hp : Safe plainly V past p) (hw : Apt U c w) : Abides (terms U c) (handler U)
      (fun a m' w' => m' = m ∧ (Apt U c w' ∧ ∀ b ∈ m, ∀ n, b.Covers n → Like U n w w') ∧
        ∀ x, a = .ok x → ∃ past', V past' x) m w p := by
  refine Safe.abides (I := fun w' => Apt U c w' ∧ ∀ b ∈ m, ∀ n, b.Covers n → Like U n w w') hp
    (fun _ _ => trivial) ?_ ?_ ⟨hw, fun _ _ _ _ => ⟨rfl, rfl⟩⟩
  · rintro w₁ w₂ ⟨hw₁, hlike⟩ ⟨hapt, hrely⟩
    exact ⟨hapt hw₁, fun b hb n hn => (hlike b hb n hn).trans (hrely b hb n hn)⟩
  · rintro past o w₁ ho ⟨hw₁, hlike⟩
    obtain ⟨hr, hz, hh⟩ := plain_step (U := U) ho w₁
    refine ⟨plain_guar ho _ _ _, ?_, hw₁.of_same hz hh,
      fun b hb n hn => (hlike b hb n hn).trans (like_of_same hr hz)⟩
    change m.or (opens U ⟨o, _⟩) = m
    rw [plain_opens ho, Option.or_none]

/-! ## The recursor's calls -/

theorem entriesAt_others (m : Str) : entriesAt U n { w with recursor := others U m w.recursor } =
    if n = canonicalForward U m then [] else entriesAt U n w := by
  unfold entriesAt others
  rw [List.filter_filter]
  split_ifs with h
  · refine filter_eq_nil_iff.2 fun z _ => ?_
    simp [h]
  · refine filter_congr fun z _ => ?_
    by_cases hz : canonicalForward U z.name = n <;> simp [hz, h]

theorem others_eq_iff {m : Str} :
    others U m w.recursor = w.recursor ↔ entriesAt U (canonicalForward U m) w = [] := by
  unfold others entriesAt
  rw [filter_eq_self, filter_eq_nil_iff]
  simp

theorem delete_state (m : Str) :
    (handler U (.recursor (.delete m)) w).2 = { w with recursor := others U m w.recursor } := by
  dsimp only [handler, RecursorCall.step]
  split_ifs with h
  · rw [h]
  · rfl

/-- The thread is at work on `a`, and the rows of `n` are those of `w`. -/
def Still (U : CaseTables) (c : Config) (a : Area) (n : Str) (w : World) (m : Option Area)
    (w' : World) : Prop :=
  m = some a ∧ Apt U c w' ∧ rowsAt U n w' = rowsAt U n w

variable {a : Area}

theorem Still.trans {m m' : Option Area} (h : Still U c a n w m w') (h' : Still U c a n w' m' w'') :
    Still U c a n w m' w'' := ⟨h'.1, h'.2.1, h'.2.2.trans h.2.2⟩

theorem abides_delete (m : Str) (hm : a.Covers (canonicalForward U m)) (hn : a.Covers n)
    (hw : Apt U c w) :
    Abides (terms U c) (handler U) (fun _ mode w' => Still U c a n w mode w' ∧
      entriesAt U n w' = if n = canonicalForward U m then [] else entriesAt U n w) (some a) w
      (Act.recursor (.delete m)) := by
  refine abides_ask fun w₁ ⟨hapt, hrely⟩ => ?_
  have hlike := hrely a rfl n hn
  rw [delete_state]
  refine ⟨⟨fun h => h.of_same rfl rfl, fun k hk => ⟨?_, rfl⟩⟩,
    ⟨rfl, (hapt hw).of_same rfl rfl, hlike.rows⟩, ?_⟩
  · rw [entriesAt_others, if_neg]
    rintro rfl
    exact hk a rfl hm
  · rw [entriesAt_others, hlike.entries]

theorem abides_create (m t : Str) (hm : a.Covers (canonicalForward U m)) (hn : a.Covers n)
    (hw : Apt U c w) :
    Abides (terms U c) (handler U) (fun _ mode w' => Still U c a n w mode w' ∧
      (n = canonicalForward U m → entriesAt U n w = [] → ∃ z ∈ entriesAt U n w', IsForward U z) ∧
      (n ≠ canonicalForward U m → entriesAt U n w' = entriesAt U n w)) (some a) w
      (Act.recursor (.create ⟨m, str "Forwarded", [t]⟩)) := by
  refine abides_ask fun w₁ ⟨hapt, hrely⟩ => ?_
  have hlike := hrely a rfl n hn
  have hadd (k : Str) (hk : k ≠ canonicalForward U m) :
      entriesAt U k { w₁ with recursor := w₁.recursor ++ [⟨m, str "Forwarded", [t]⟩] } = entriesAt
        U k w₁ := by
    unfold entriesAt
    rw [filter_append, filter_cons_of_neg (by simpa using hk.symm), filter_nil, append_nil]
  by_cases hfree : entriesAt U (canonicalForward U m) w₁ = []
  · have hstate : (handler U (.recursor (.create ⟨m, str "Forwarded", [t]⟩)) w₁).2 =
        { w₁ with recursor := w₁.recursor ++ [⟨m, str "Forwarded", [t]⟩] } := by
      dsimp only [handler, RecursorCall.step]
      rw [if_pos (others_eq_iff.2 hfree)]
    rw [hstate]
    refine ⟨⟨fun h => h.of_same rfl rfl, fun k hk => ⟨hadd k ?_, rfl⟩⟩,
      ⟨rfl, (hapt hw).of_same rfl rfl, hlike.rows⟩, fun h _ => ?_, fun h =>
        (hadd n h).trans hlike.entries⟩
    · rintro rfl
      exact hk a rfl hm
    · refine ⟨⟨m, str "Forwarded", [t]⟩,
        List.mem_filter.2 ⟨mem_append_right _ ?_, decide_eq_true h.symm⟩,
        (rfl : EqualFold U _ _)⟩
      exact mem_singleton.2 rfl
  · have hstate : (handler U (.recursor (.create ⟨m, str "Forwarded", [t]⟩)) w₁).2 = w₁ := by
      dsimp only [handler, RecursorCall.step]
      rw [if_neg (fun h => hfree (others_eq_iff.1 h))]
    rw [hstate]
    refine ⟨⟨id, fun _ _ => ⟨rfl, rfl⟩⟩, ⟨rfl, hapt hw, hlike.rows⟩, fun h hnone => ?_,
      fun _ => hlike.entries⟩
    subst h
    exact absurd (hlike.entries.trans hnone) hfree

/-! ## The pass -/

theorem target_abides (hn : a.Covers n) (hw : Apt U c w) : Abides (terms U c) (handler U)
    (fun x m w' => (∃ t, x = .ok t) ∧ Still U c a n w m w' ∧ entriesAt U n w' = entriesAt U n w)
    (some a) w
    (target c) := by
  unfold target
  split
  · exact abides_pure ⟨⟨_, rfl⟩, ⟨rfl, hw, rfl⟩, rfl⟩
  next hp =>
  refine Abides.bind (Q := fun x m w' => (∃ t ts, x = .ok (t :: ts)) ∧ Still U c a n w m w' ∧
    entriesAt U n w' = entriesAt U n w) (abides_ask fun w₁ ⟨hapt, hrely⟩ => ?_) ?_ ?_
  · obtain ⟨t, ts, hts⟩ := exists_cons_of_ne_nil ((hapt hw).target hp)
    exact ⟨plain_guar rfl _ _ _, ⟨t, ts, congrArg Except.ok hts⟩,
      ⟨rfl, hapt hw, (hrely a rfl n hn).rows⟩,
      (hrely a rfl n hn).entries⟩
  · rintro addrs m w₁ ⟨⟨t, ts, ⟨⟩⟩, h⟩
    dsimp only
    split
    · exact abides_pure ⟨⟨_, rfl⟩, h⟩
    · exact abides_pure ⟨⟨_, rfl⟩, h⟩
  · rintro e m w₁ ⟨⟨t, ts, ⟨⟩⟩, -⟩

theorem syncForward_abides (hc : c.enabled = true) (z : Str) (hz : a.Covers (canonicalForward U z))
    (hn : a.Covers n) (hw : Apt U c w) :
    Abides (terms U c) (handler U) (fun _ m w' => Still U c a n w m w' ∧
      (n = canonicalForward U z → n ≠ [dot] → ∃ e ∈ entriesAt U n w', IsForward U e) ∧
      (n ≠ canonicalForward U z → entriesAt U n w' = entriesAt U n w)) (some a) w
        (syncForward U c z) := by
  unfold syncForward
  rw [hc, canon_eq]
  refine Abides.ite (fun h => absurd h Bool.false_ne_true) fun _ => ?_
  by_cases hroot : canonicalForward U z = [dot]
  · rw [if_pos hroot]
    exact abides_throw ⟨⟨rfl, hw, rfl⟩, fun h hne => absurd (h.trans hroot) hne, fun _ => rfl⟩
  rw [if_neg hroot]
  have hself := canonicalForward_self (U := U) z
  rw [← hself] at hz
  refine (target_abides hn hw).bind (fun t m w₁ h₁ => ?_) ?_
  · obtain ⟨-, ⟨rfl, hw₁, hr₁⟩, he₁⟩ := h₁
    refine (abides_delete _ hz hn hw₁).catch fun _ m w₂ h₂ => ?_
    obtain ⟨⟨rfl, hw₂, hr₂⟩, he₂⟩ := h₂
    rw [hself, he₁] at he₂
    refine (abides_create _ t hz hn hw₂).mono fun _ m w₃ h₃ => ?_
    obtain ⟨⟨hm, hw₃, hr₃⟩, hnew, hold⟩ := h₃
    rw [hself] at hnew hold
    refine ⟨⟨hm, hw₃, (hr₃.trans hr₂).trans hr₁⟩, fun h _ => hnew h ?_, fun h => (hold h).trans ?_⟩
    · rw [he₂, if_pos h]
    · rw [he₂, if_neg h]
  · rintro e m w₁ ⟨⟨t, ⟨⟩⟩, -⟩

theorem removeForward_abides (hc : c.enabled = true) (z : Str)
    (hz : a.Covers (canonicalForward U z))
    (hn : a.Covers n) (hw : Apt U c w) :
    Abides (terms U c) (handler U) (fun _ m w' => Still U c a n w m w' ∧
      (n = canonicalForward U z → n ≠ [dot] → entriesAt U n w' = []) ∧
      (n ≠ canonicalForward U z → entriesAt U n w' = entriesAt U n w)) (some a) w
        (removeForward U c z) := by
  unfold removeForward
  rw [hc, canon_eq]
  refine Abides.ite (fun h => absurd h Bool.false_ne_true) fun _ => ?_
  by_cases hroot : canonicalForward U z = [dot]
  · rw [if_pos hroot]
    exact abides_throw ⟨⟨rfl, hw, rfl⟩, fun h hne => absurd (h.trans hroot) hne, fun _ => rfl⟩
  rw [if_neg hroot]
  have hself := canonicalForward_self (U := U) z
  rw [← hself] at hz
  refine (abides_delete _ hz hn hw).catch fun x m w₁ h₁ => ?_
  obtain ⟨hstill, he⟩ := h₁
  rw [hself] at he
  have hdone : Still U c a n w m w₁ ∧
      (n = canonicalForward U z → n ≠ [dot] → entriesAt U n w₁ = []) ∧
      (n ≠ canonicalForward U z → entriesAt U n w₁ = entriesAt U n w) :=
    ⟨hstill, fun h _ => he.trans (if_pos h), fun h => he.trans (if_neg h)⟩
  cases x with
  | ok _ => exact abides_pure hdone
  | error e => exact Abides.ite (fun _ => abides_pure hdone) fun _ => abides_throw hdone

theorem syncAll_abides (hc : r.client.enabled = true) (zs : List Str)
    (first : Option Err) (w : World)
    (hw : Apt U r.client w) : Abides (terms U r.client) (handler U) (fun x m w' =>
      ((∃ f, x = .ok f) ∧ Still U r.client .all n w m w') ∧
      (n ∈ zs.map (canonicalForward U) → n ≠ [dot] → ∃ e ∈ entriesAt U n w', IsForward U e) ∧
      (n ∉ zs.map (canonicalForward U) → entriesAt U n w' = entriesAt U n w)) (some .all) w
          (syncAll U r first zs) := by
  induction zs generalizing first w with
  | nil => exact abides_pure ⟨⟨⟨_, rfl⟩, rfl, hw, rfl⟩, fun h => absurd h not_mem_nil, fun _ => rfl⟩
  | cons z zs ih =>
    refine (syncForward_abides (a := .all) (n := n) hc z trivial trivial hw).catch fun x m w₁ h₁ =>
      ?_
    obtain ⟨⟨rfl, hw₁, hr₁⟩, hnew, hold⟩ := h₁
    refine (ih (note first x) w₁ hw₁).mono fun _ m w₂ h₂ => ?_
    obtain ⟨⟨hok, hstill⟩, hin, hout⟩ := h₂
    refine ⟨⟨hok, Still.trans ⟨rfl, hw₁, hr₁⟩ hstill⟩, fun h hn => ?_, fun h => ?_⟩
    · by_cases hzs : n ∈ zs.map (canonicalForward U)
      · exact hin hzs hn
      · rw [hout hzs]
        exact hnew ((mem_cons.1 h).resolve_right hzs) hn
    · obtain ⟨hz, hzs⟩ := not_or.1 (mt mem_cons.2 h)
      exact (hout hzs).trans (hold hz)

theorem removeAll_abides (hc : r.client.enabled = true) (keep zs : List Str) (first : Option Err)
    (w : World) (hw : Apt U r.client w) : Abides (terms U r.client) (handler U) (fun x m w' =>
      ((∃ f, x = .ok f) ∧ Still U r.client .all n w m w') ∧
      (n ∈ zs.map (canonicalForward U) → n ∉ keep → n ≠ [dot] → entriesAt U n w' = []) ∧
      (n ∉ zs.map (canonicalForward U) ∨ n ∈ keep → entriesAt U n w' = entriesAt U n w))
        (some .all) w
      (removeAll U r keep first zs) := by
  induction zs generalizing first w with
  | nil => exact abides_pure ⟨⟨⟨_, rfl⟩, rfl, hw, rfl⟩, fun h => absurd h not_mem_nil, fun _ => rfl⟩
  | cons z zs ih =>
    rw [removeAll]
    refine Abides.ite (fun hz => ?_) fun hz => ?_
    · refine (ih first w hw).mono fun _ m w₁ h₁ => ?_
      obtain ⟨hstill, hgone, hkept⟩ := h₁
      refine ⟨hstill, fun h hk => hgone ((mem_cons.1 h).resolve_left ?_) hk,
        fun h => hkept (h.imp (mt (mem_cons_of_mem _)) id)⟩
      rintro rfl
      exact hk hz
    · refine (removeForward_abides (a := .all) (n := n) hc z trivial trivial hw).catch
        fun x m w₁ h₁ => ?_
      obtain ⟨⟨rfl, hw₁, hr₁⟩, hnone, hold⟩ := h₁
      refine (ih (note first x) w₁ hw₁).mono fun _ m w₂ h₂ => ?_
      obtain ⟨⟨hok, hstill⟩, hgone, hkept⟩ := h₂
      refine ⟨⟨hok, Still.trans ⟨rfl, hw₁, hr₁⟩ hstill⟩, fun h hk hn => ?_, fun h => ?_⟩
      · by_cases hzs : n ∈ zs.map (canonicalForward U)
        · exact hgone hzs hk hn
        · rw [hkept (.inl hzs)]
          exact hnone ((mem_cons.1 h).resolve_right hzs) hn
      · refine (hkept (h.imp (mt (mem_cons_of_mem _)) id)).trans (hold ?_)
        rintro rfl
        exact h.elim (fun h => h mem_cons_self) hz

theorem listForwards_abides (hc : c.enabled = true) (hn : a.Covers n) (hw : Apt U c w) :
    Abides (terms U c) (handler U) (fun x m w' =>
      (Still U c a n w m w' ∧ entriesAt U n w' = entriesAt U n w) ∧
      ∃ ns, x = .ok ns ∧ (n ∈ ns.map (canonicalForward U) ↔ ∃ e ∈ entriesAt U n w, IsForward U e))
        (some a) w
      (listForwards U c) := by
  unfold listForwards
  rw [hc]
  refine Abides.ite (fun h => absurd h Bool.false_ne_true) fun _ => ?_
  refine Abides.bind (Q := fun x m w' =>
    (Still U c a n w m w' ∧ entriesAt U n w' = entriesAt U n w) ∧
    x = .ok w'.recursor) (abides_ask fun w₁ ⟨hapt, hrely⟩ => ?_) ?_ ?_
  · exact ⟨plain_guar rfl _ _ _, ⟨⟨rfl, hapt hw, (hrely a rfl n hn).rows⟩,
      (hrely a rfl n hn).entries⟩, rfl⟩
  · rintro zs m w₁ ⟨h, ⟨⟩⟩
    refine abides_pure ⟨h, _, rfl, ?_⟩
    rw [← h.2, ← forwards_iff]
    simp only [map_map, List.mem_map, List.mem_filter, decide_eq_true_eq,
      Function.comp_apply, Forwards]
    constructor
    · rintro ⟨z, ⟨hz, hf⟩, hn⟩
      exact ⟨z, hz, hf, hn⟩
    · rintro ⟨z, hz, hf, hn⟩
      exact ⟨z, ⟨hz, hf⟩, hn⟩
  · rintro e m w₁ ⟨-, ⟨⟩⟩

/-- The names the thread has worked on have entries as they should. -/
def Restored (U : CaseTables) (r : Reconciler) (m : Option Area) (w : World) : Prop :=
  ∀ a ∈ m, ∀ n, a.Covers n → n ≠ [dot] → n ∉ r.static.map (canonicalForward U) → Agrees U w n

theorem not_mem_keep {managed : List Str} (hn : n ≠ [dot])
    (hs : n ∉ r.static.map (canonicalForward U))
    (hm : n ∉ managed.map (canonicalForward U)) : n ∉ keep U r managed := by
  rw [keep, mem_cons, map_append, mem_append]
  rintro (h | h | h)
  exacts [hn h, hs h, hm h]

theorem passRest_abides (hc : r.client.enabled = true) (hw : Apt U r.client w) {managed : List Str}
    (hm : n ∈ managed.map (canonicalForward U) ↔ rowsAt U n w ≠ []) {finish : Option Err → Act Unit}
    (hfinish : ∀ first, ∃ x, finish first = Act.ofExcept x) :
    Abides (terms U r.client) (handler U) (fun _ m w' => m = some .all ∧
      (n ≠ [dot] → n ∉ r.static.map (canonicalForward U) → Agrees U w' n)) (some .all) w (do
        let first ← syncAll U r none managed
        let current ← listForwards U r.client
        let first ← removeAll U r (keep U r managed) first current
        finish first) := by
  refine (syncAll_abides (n := n) hc managed none w hw).bind (fun first m w₁ h₁ => ?_) ?_
  swap
  · rintro e m w₁ ⟨⟨⟨f, ⟨⟩⟩, -⟩, -⟩
  obtain ⟨⟨-, rfl, hw₁, hr₁⟩, hsynced, -⟩ := h₁
  refine (listForwards_abides (a := .all) (n := n) hc trivial hw₁).bind
    (fun current m w₂ h₂ => ?_) ?_
  swap
  · rintro e m w₂ ⟨-, ns, ⟨⟩, -⟩
  obtain ⟨⟨⟨rfl, hw₂, hr₂⟩, he₂⟩, ns, ⟨⟩, hlist⟩ := h₂
  refine (removeAll_abides (n := n) hc (keep U r managed) current first w₂ hw₂).bind
    (fun last m w₃ h₃ => ?_) ?_
  swap
  · rintro e m w₃ ⟨⟨⟨f, ⟨⟩⟩, -⟩, -⟩
  obtain ⟨⟨-, rfl, hw₃, hr₃⟩, hgone, hkept⟩ := h₃
  have hagrees (hn : n ≠ [dot]) (hs : n ∉ r.static.map (canonicalForward U)) : Agrees U w₃ n := by
    rw [agrees_iff, hr₃, hr₂, hr₁, ← hm]
    by_cases hn' : n ∈ managed.map (canonicalForward U)
    · have hkeep : n ∈ keep U r managed := by
        rw [keep, map_append]
        exact mem_cons_of_mem _ (mem_append_right _ hn')
      rw [hkept (.inr hkeep), he₂]
      exact iff_of_true (hsynced hn' hn) hn'
    · refine iff_of_false ?_ hn'
      rintro ⟨e, he, hf⟩
      by_cases hcur : n ∈ current.map (canonicalForward U)
      · rw [hgone hcur (not_mem_keep hn hs hn') hn] at he
        exact absurd he not_mem_nil
      · rw [hkept (.inl hcur), he₂] at he
        exact hcur (hlist.2 ⟨e, he, hf⟩)
  obtain ⟨x, hx⟩ := hfinish last
  rw [hx]
  exact abides_ofExcept ⟨rfl, hagrees⟩

theorem reconcile_abides (hc : r.client.enabled = true) (hw : Apt U r.client w) :
    Abides (terms U r.client) (handler U) (fun _ m w' => Restored U r m w') none w
      (reconcile U r) := by
  unfold reconcile
  rw [hc]
  refine Abides.ite (fun h => absurd h Bool.false_ne_true) fun _ => ?_
  refine Abides.bind (Q := fun x m w' => (m = some .all ∧ Apt U r.client w') ∧
    x = .ok w'.store.allZoneNames)
    (abides_ask fun w₁ ⟨hapt, _⟩ => ⟨⟨id, fun n h => absurd trivial (h .all rfl)⟩,
      ⟨rfl, hapt hw⟩, rfl⟩) ?_ ?_
  swap
  · rintro e m w₁ ⟨-, ⟨⟩⟩
  rintro managed m w₁ ⟨⟨rfl, hw₁⟩, ⟨⟩⟩
  -- counting the zones without owner is a plain call
  have hcount : Safe plainly (fun _ _ => True) [] (countUnowned U w₁.store.allZoneNames) :=
    safe_ask_bind rfl (fun _ _ h => h.elim) fun _ _ _ _ => safe_pure trivial
  refine Abides.bind (Q := fun x m w' => (∃ u, x = .ok u) ∧ m = some .all ∧ Apt U r.client w' ∧
    ∀ n, rowsAt U n w' = rowsAt U n w₁) (Abides.ite (fun _ => ?_) fun _ => ?_) ?_ ?_
  · refine (abides_plain hcount hw₁).attempt.mono fun x m w₂ h => ?_
    obtain ⟨u, hu, rfl, ⟨hw₂, hlike⟩, -⟩ := h
    exact ⟨⟨u, hu⟩, rfl, hw₂, fun n => (hlike .all rfl n trivial).rows⟩
  · exact abides_pure ⟨⟨_, rfl⟩, rfl, hw₁, fun _ => rfl⟩
  · rintro unowned m w₂ ⟨-, rfl, hw₂, hr₂⟩
    refine Abides.ite (fun h => absurd h Bool.false_ne_true) fun _ => ?_
    have hmanaged (n : Str) : n ∈ w₁.store.allZoneNames.map (canonicalForward U) ↔
        rowsAt U n w₂ ≠ [] := by
      rw [managed_iff, hr₂]
    refine (abides_forall fun n => passRest_abides hc hw₂ (hmanaged n) fun first => ?_).mono
      fun _ m w₃ h => ?_
    · cases first with
      | some e => exact ⟨.error e, rfl⟩
      | none => exact ⟨_, rfl⟩
    · exact fun _ _ n _ => (h n).2
  · rintro e m w₂ ⟨⟨u, ⟨⟩⟩, -⟩

/-! ## Calls -/

theorem canonicalForward_of_isZone {z : Str} (h : Validate.IsZone z) :
    canonicalForward U z = z := by
  rw [canonicalForward, trimSpace_of_printable h.1.printable, toLower_of_isLowerStr U h.1.lower]
  exact if_pos h.1.hasSuffix

theorem looksUp_plain (h : Zones.looksUp o = true) : plain o = true := by
  cases o with
  | now | newID | pdns c | ipam c | recursor c => first | rfl | cases h
  | store c => cases c <;> first | rfl | cases h

theorem prepare_plain (subj : Subjects) (i : Zones.CreateInput) :
    Safe plainly (fun _ z => Validate.IsZone z.name) [] (Zones.Impl.prepare C subj i) :=
  Zones.prepare_safe (fun _ _ => looksUp_plain) (fun _ _ _ _ => id) subj i

theorem initialSets_plain (z : Store.Zone) (rrsets : List PDNS.RRset) :
    Safe plainly (fun _ _ => True) [] (Zones.Impl.initialSets C z rrsets) :=
  Zones.initialSets_safe (fun _ _ => looksUp_plain) (fun _ _ _ _ => id) z rrsets

theorem free_plain (T name : Str) : Safe plainly (fun _ _ => True) [] (Zones.Impl.free T name) :=
  Zones.free_safe (fun _ _ => looksUp_plain) (fun _ _ _ _ => id) T name

theorem abides_createZone (hz : Validate.IsZone z.name) (hw : Apt U c w) :
    Abides (terms U c) (handler U) (fun x m w' => Apt U c w' ∧
      ((∃ e, x = .error e) ∧ m = none ∨ x = .ok () ∧ m = some (.one z.name) ∧
        rowsAt U z.name w' ≠ [])) none w
      (Act.store (.createZone z)) := by
  refine abides_ask fun w₁ ⟨hapt, _⟩ => ?_
  have hw₁ := hapt hw
  dsimp only [handler, StoreCall.step]
  rcases w₁.store.createZone_cases (w₁.times w₁.ticks) z with ⟨-, h⟩ | ⟨zones, z', hinsert, hkeys,
    h⟩ <;> rw [h]
  · exact ⟨⟨id, fun _ _ => ⟨rfl, rfl⟩⟩, hw₁, .inl ⟨⟨_, rfl⟩, rfl⟩⟩
  · have hname := Store.name_of_keys hkeys
    have hrows (k : Str) : rowsAt U k { w₁ with store := { w₁.store with zones } } =
        rowsAt U k w₁ ++ if k = z.name then [z'] else [] := by
      change zones.rows.filter _ = w₁.store.zones.rows.filter _ ++ _
      rw [Table.insert_rows hinsert, filter_append, filter_singleton, hname,
        canonicalForward_of_isZone hz]
      by_cases hk : k = z.name <;> simp [hk, eq_comm]
    have hapt' : Apt U c { w₁ with store := { w₁.store with zones } } := by
      refine ⟨fun y hy => ?_, hw₁.target⟩
      rcases (Table.mem_insert hinsert).1 hy with hy | rfl
      · exact hw₁.names y hy
      · rw [hname, canonicalForward_of_isZone hz]
    have hopens : opens U ⟨.store (.createZone z), .ok ()⟩ = some (.one z.name) :=
      congrArg (fun n => some (Area.one n)) (canonicalForward_of_isZone hz)
    refine ⟨⟨fun _ => hapt', fun k hk => ⟨rfl, ?_⟩⟩, hapt', .inr ⟨rfl, hopens, ?_⟩⟩
    · have hne : k ≠ z.name := hk _ hopens
      rw [hrows, if_neg hne, append_nil]
    · rw [hrows, if_pos rfl]
      exact append_ne_nil_of_right_ne_nil _ (cons_ne_nil _ _)

def Stored (U : CaseTables) (c : Config) (x : Except Err Store.Zone) (m : Option Area) (w : World) :
    Prop :=
  Apt U c w ∧ ((∃ e, x = .error e) ∧ m = none ∨
    ∃ z, x = .ok z ∧ m = some (.one z.name) ∧ Validate.IsZone z.name ∧ rowsAt U z.name w ≠ [])

theorem insert_abides (hz : Validate.IsZone z.name) (hw : Apt U c w) :
    Abides (terms U c) (handler U) (Stored U c) none w (Zones.Impl.insert z) := by
  unfold Zones.Impl.insert
  have hnow : Safe plainly (fun _ _ => True) [] Act.now :=
    safe_ask rfl (fun _ _ h => h.elim) fun _ _ _ _ => trivial
  refine (abides_plain hnow hw).bind (fun t m w₁ h₁ => ?_) fun e m w₁ h₁ =>
    ⟨h₁.2.1.1, .inl ⟨⟨e, rfl⟩, h₁.1⟩⟩
  obtain ⟨rfl, ⟨hw₁, -⟩, -⟩ := h₁
  refine (abides_createZone (z := { z with createdAt := t, updatedAt := t }) hz hw₁).catch
    fun x m w₂ h₂ => ?_
  obtain ⟨hw₂, ⟨⟨e, rfl⟩, rfl⟩ | ⟨rfl, rfl, hrows⟩⟩ := h₂
  · have hdrop : Safe plainly (fun _ _ => True) [] (Act.pdns (.deleteZone z.pdnsID)) :=
      safe_ask rfl (fun _ _ h => h.elim) fun _ _ _ _ => trivial
    refine (abides_plain hdrop hw₂).catch fun _ m w₃ h₃ => ?_
    exact Abides.ite (fun _ => abides_throw ⟨h₃.2.1.1, .inl ⟨⟨_, rfl⟩, h₃.1⟩⟩)
      fun _ => abides_throw ⟨h₃.2.1.1, .inl ⟨⟨_, rfl⟩, h₃.1⟩⟩
  · exact abides_pure ⟨hw₂, .inr ⟨_, rfl, rfl, hz, hrows⟩⟩

theorem implCreate_abides (subj : Subjects) (i : Zones.CreateInput) (hw : Apt U c w) :
    Abides (terms U c) (handler U) (Stored U c) none w (Zones.Impl.create C subj i) := by
  unfold Zones.Impl.create
  refine (abides_plain (prepare_plain subj i) hw).bind (fun z m w₁ h₁ => ?_)
    fun e m w₁ h₁ => ⟨h₁.2.1.1, .inl ⟨⟨e, rfl⟩, h₁.1⟩⟩
  obtain ⟨rfl, ⟨hw₁, -⟩, hz⟩ := h₁
  obtain ⟨-, hz⟩ := hz z rfl
  refine (abides_plain (initialSets_plain z i.rrsets) hw₁).bind (fun rrsets m w₂ h₂ => ?_)
    fun e m w₂ h₂ => ⟨h₂.2.1.1, .inl ⟨⟨e, rfl⟩, h₂.1⟩⟩
  obtain ⟨rfl, ⟨hw₂, -⟩, -⟩ := h₂
  refine (abides_plain (free_plain z.tenantID z.name) hw₂).bind (fun _ m w₃ h₃ => ?_)
    fun e m w₃ h₃ => ⟨h₃.2.1.1, .inl ⟨⟨e, rfl⟩, h₃.1⟩⟩
  obtain ⟨rfl, ⟨hw₃, -⟩, -⟩ := h₃
  unfold Zones.Impl.make
  have hmake (pz : PDNS.Zone) : Safe plainly (fun _ _ => True) [] (Act.pdns (.createZone pz)) :=
    safe_ask rfl (fun _ _ h => h.elim) fun _ _ _ _ => trivial
  refine (abides_plain (hmake _) hw₃).catch fun x m w₄ h₄ => ?_
  obtain ⟨rfl, ⟨hw₄, -⟩, -⟩ := h₄
  cases x with
  | error e =>
    exact Abides.ite (fun _ => abides_throw ⟨hw₄, .inl ⟨⟨_, rfl⟩, rfl⟩⟩)
      fun _ => abides_throw ⟨hw₄, .inl ⟨⟨_, rfl⟩, rfl⟩⟩
  | ok created => exact insert_abides hz hw₄

theorem create_abides (hr : C.recursor = some r.client) (hc : r.client.enabled = true)
    (subj : Subjects) (i : Zones.CreateInput) (hw : Apt C.env.cases r.client w) :
    Abides (terms C.env.cases r.client) (handler C.env.cases)
      (fun _ m w' => Restored C.env.cases r m w') none w
      (Zones.create C subj i) := by
  unfold Zones.create
  refine abides_check (fun _ _ => ?_) fun _ _ => nofun
  refine (implCreate_abides subj i hw).bind (fun z m w₁ h₁ => ?_) fun e m w₁ h₁ => ?_
  · obtain ⟨hw₁, ⟨⟨e, ⟨⟩⟩, -⟩ | ⟨_, ⟨⟩, rfl, hz, hrows⟩⟩ := h₁
    have hcanon := canonicalForward_of_isZone (U := C.env.cases) hz
    rw [Zones.syncForward, hr]
    refine Abides.bind (Q := fun _ m w₂ => Restored C.env.cases r m w₂) ?_
      (fun _ m w₂ h => abides_pure h)
      fun _ _ _ h => h
    refine (syncForward_abides (a := .one z.name) (n := z.name) hc z.name hcanon rfl hw₁).catch
      fun _ m w₂ h₂ => ?_
    obtain ⟨⟨rfl, -, hr₂⟩, hsynced, -⟩ := h₂
    refine abides_pure ?_
    rintro _ ⟨⟩ n rfl hn -
    rw [agrees_iff, hr₂]
    exact iff_of_true (hsynced hcanon.symm hn) hrows
  · obtain ⟨-, ⟨-, rfl⟩ | ⟨_, ⟨⟩, -⟩⟩ := h₁
    exact nofun

theorem abides_deleteZone (hn : canonicalForward U z.name = n) (hz : z ∈ rowsAt U n w)
    (hw : Apt U c w) : Abides (terms U c) (handler U) (fun _ m w' => m = some (.one n) ∧
      rowsAt U n w' = [] ∧
      entriesAt U n w' = entriesAt U n w) (some (.one n)) w
        (Act.store (.deleteZone z.tenantID z.id)) := by
  refine abides_ask fun w₁ ⟨hapt, hrely⟩ => ?_
  have hw₁ := hapt hw
  have hlike := hrely _ rfl n rfl
  rw [← hlike.rows] at hz
  have hmem : z ∈ w₁.store.zones := (List.mem_filter.1 hz).1
  dsimp only [handler, StoreCall.step, Store.deleteZone]
  rw [Store.zone_eq_some.2 ⟨hmem, rfl, rfl⟩]
  refine ⟨⟨fun _ => ⟨fun y hy => hw₁.names y (Table.mem_filter.1 hy).1, hw₁.target⟩,
    fun k hk => ⟨rfl, ?_⟩⟩, rfl, ?_,
    hlike.entries⟩
  · change (w₁.store.zones.rows.filter _).filter _ = w₁.store.zones.rows.filter _
    rw [List.filter_filter]
    refine filter_congr fun y hy => ?_
    -- a row of another name has another id
    by_cases hyz : y.id = z.id
    · have : y = z := Table.eq_of_clash hy hmem (by simp [Keyed.clash, hyz])
      subst this
      have hne : canonicalForward U y.name ≠ k := fun h => hk _ rfl (h.symm.trans hn)
      simp [hne]
    · simp [hyz]
  · change (w₁.store.zones.rows.filter _).filter _ = []
    refine filter_eq_nil_iff.2 fun y hy hyn => ?_
    obtain ⟨hy, hne⟩ := List.mem_filter.1 hy
    rw [hw₁.row_eq hy hmem ((of_decide_eq_true hyn).trans hn.symm)] at hne
    simp at hne

theorem drop_abides (pdnsID : Str) (hw : Apt U c w) : Abides (terms U c) (handler U) (fun x m w' =>
    x = .ok () ∧ m = some a ∧ Apt U c w' ∧ ∀ n, a.Covers n → Like U n w w') (some a) w
        (Zones.Impl.drop pdnsID) := by
  unfold Zones.Impl.drop
  refine Abides.catch (Q := fun x m w' => (x = .ok () ∨ x = .error (.pdns PDNS.Server.notFound)) ∧
    m = some a ∧
    Apt U c w' ∧ ∀ n, a.Covers n → Like U n w w') (abides_ask fun w₁ ⟨hapt, hrely⟩ => ?_)
      fun x m w₁ h₁ => ?_
  · refine ⟨plain_guar rfl _ _ _, ?_, rfl, (hapt hw).of_same rfl rfl,
      fun n hn => (hrely a rfl n hn).trans (like_of_same rfl rfl)⟩
    dsimp only [handler, PDNSCall.step, PDNS.Server.deleteZone]
    split
    exacts [.inr rfl, .inl rfl]
  · obtain ⟨rfl | rfl, h⟩ := h₁
    · exact abides_pure ⟨rfl, h⟩
    · exact abides_pure ⟨rfl, h⟩

theorem owned_abides (subj : Subjects) (id : Str) (hw : Apt U c w) :
    Abides (terms U c) (handler U) (fun x m w' =>
    Apt U c w' ∧ ((∃ e, x = .error e) ∧ m = none ∨ ∃ z, x = .ok z ∧
      m = some (.one (canonicalForward U z.name)) ∧
      z ∈ rowsAt U (canonicalForward U z.name) w')) none w (Zones.Impl.owned subj id) := by
  unfold Zones.Impl.owned
  refine Abides.catch (Q := fun x m w' => Apt U c w' ∧ ((∃ e, x = .error e) ∧ m = none ∨
    ∃ z, x = .ok z ∧ m = some (.one (canonicalForward U z.name)) ∧
      z ∈ rowsAt U (canonicalForward U z.name) w'))
    (abides_ask fun w₁ ⟨hapt, _⟩ => ?_) fun x m w₁ h₁ => ?_
  · refine ⟨⟨fun h => h, fun _ _ => ⟨rfl, rfl⟩⟩, hapt hw, ?_⟩
    dsimp only [handler, StoreCall.step]
    cases hz : w₁.store.getZone subj.tenantID id with
    | error e => exact .inl ⟨⟨e, rfl⟩, rfl⟩
    | ok z =>
      obtain ⟨hmem, -⟩ := Store.getZone_eq_ok.1 hz
      exact .inr ⟨z, rfl, rfl, List.mem_filter.2 ⟨hmem, decide_eq_true rfl⟩⟩
  · obtain ⟨hw₁, ⟨⟨e, rfl⟩, rfl⟩ | ⟨z, rfl, h⟩⟩ := h₁
    · exact abides_throw ⟨hw₁, .inl ⟨⟨_, rfl⟩, rfl⟩⟩
    · exact abides_pure ⟨hw₁, .inr ⟨z, rfl, h⟩⟩

theorem delete_abides (hr : C.recursor = some r.client) (hc : r.client.enabled = true)
    (subj : Subjects) (id : Str) (hw : Apt C.env.cases r.client w) :
    Abides (terms C.env.cases r.client) (handler C.env.cases)
      (fun _ m w' => Restored C.env.cases r m w') none w
      (Zones.delete C subj id) := by
  unfold Zones.delete
  refine abides_check (fun _ _ => ?_) fun _ _ => nofun
  refine (owned_abides subj id hw).bind (fun z m w₁ h₁ => ?_) fun e m w₁ h₁ => ?_
  swap
  · obtain ⟨-, ⟨-, rfl⟩ | ⟨_, ⟨⟩, -⟩⟩ := h₁
    exact nofun
  obtain ⟨hw₁, ⟨⟨e, ⟨⟩⟩, -⟩ | ⟨_, ⟨⟩, rfl, hz⟩⟩ := h₁
  generalize hn : canonicalForward C.env.cases z.name = n at hz
  unfold Zones.Impl.delete
  refine (drop_abides z.pdnsID hw₁).bind (fun _ m w₂ h₂ => ?_) fun e m w₂ h₂ =>
    absurd h₂.1 Except.error_ne_ok
  obtain ⟨-, rfl, hw₂, hlike⟩ := h₂
  rw [← (hlike n rfl).rows] at hz
  rw [Zones.removeForward, hr]
  -- the forward is gone, whatever the answer
  refine Abides.bind (Q := fun x m w₃ => x = .ok () ∧
    Still C.env.cases r.client (.one n) n w₂ m w₃ ∧
    (n ≠ [dot] → entriesAt C.env.cases n w₃ = [])) ?_ (fun _ m w₃ h₃ => ?_)
    fun e m w₃ h₃ => absurd h₃.1 Except.error_ne_ok
  · refine (removeForward_abides (a := .one n) (n := n) hc z.name hn rfl hw₂).catch fun _ m w₃ h₃ =>
      ?_
    exact abides_pure ⟨rfl, h₃.1, h₃.2.1 hn.symm⟩
  obtain ⟨-, ⟨rfl, hw₃, hr₃⟩, hgone⟩ := h₃
  refine Abides.bind (Q := fun x m w₄ => x = .ok () ∧ m = some (.one n) ∧
    Apt C.env.cases r.client w₄ ∧
    Like C.env.cases n w₃ w₄) (abides_ask fun w₄ ⟨hapt, hrely⟩ => ?_) (fun _ m w₄ h₄ => ?_)
    fun e m w₄ h₄ => absurd h₄.1 Except.error_ne_ok
  · exact ⟨plain_guar rfl _ _ _, rfl, rfl, (hapt hw₃).of_same rfl rfl,
      (hrely _ rfl n rfl).trans (like_of_same rfl rfl)⟩
  obtain ⟨-, rfl, hw₄, hlike₄⟩ := h₄
  rw [← hr₃, ← hlike₄.rows] at hz
  refine (abides_deleteZone hn hz hw₄).mono fun _ m w₅ h₅ => ?_
  obtain ⟨rfl, hrows, hentries⟩ := h₅
  rintro _ ⟨⟩ k rfl hk -
  rw [agrees_iff, hrows, hentries, hlike₄.entries, hgone hk]
  exact iff_of_false (fun ⟨_, h, _⟩ => absurd h not_mem_nil) (not_not_intro rfl)

/-! ## All together -/

theorem Job.act_abides (hr : C.recursor = some r.client) (hc : r.client.enabled = true)
    (j : Job) (hw : Apt C.env.cases r.client w) : Abides
      (terms C.env.cases r.client) (handler C.env.cases)
      (fun _ m w' => Restored C.env.cases r m w') none w (j.act C r) := by
  cases j with
  | pass => exact reconcile_abides hc hw
  | create s i => exact (create_abides hr hc s i hw).bind (fun _ _ _ h =>
      abides_pure h) fun _ _ _ h => h
  | delete s id => exact delete_abides hr hc s id hw

/-- Threads at work are apart; a name that was worked on and is not any more has its entry as it
    should; and a pass that has begun works on all names. -/
structure Tended [DecidableEq ι] (C : TangraDns.Config) (r : Reconciler) (job : ι → Job)
    (P : Jobs ι) : Prop where
  apart : ∀ i j, i ≠ j → ∀ a ∈ atWork C.env.cases (P.threads i), ∀ b ∈
    atWork C.env.cases (P.threads j), a.Apart b
  agrees : ∀ n, n ≠ [dot] → n ∉ r.static.map (canonicalForward C.env.cases) →
    (∃ j, ∃ a ∈ opened C.env.cases (P.threads j).past, a.Covers n) →
    (∀ j, ∀ a ∈ atWork C.env.cases (P.threads j), ¬ a.Covers n) → Agrees C.env.cases P.state n
  pass : ∀ j, job j = .pass → P.threads j = .start (reconcile C.env.cases r).run ∨
    opened C.env.cases (P.threads j).past = some .all

theorem mem_atWork {α : Type} {t : Thread Op Res α} :
    a ∈ atWork U t ↔ ¬ t.Done ∧ a ∈ opened U t.past := by
  unfold atWork
  split_ifs with h
  · exact ⟨nofun, fun h' => absurd h h'.1⟩
  · exact ⟨fun h' => ⟨h, h'⟩, fun h' => h'.2⟩

section Step

variable [DecidableEq ι] {C : TangraDns.Config} {job : ι → Job} {P : Jobs ι} {i : ι} {o : Op}
variable {k : Res o → Prog Op Res (Except Err Unit)}

theorem Tended.apart_step (hP : Tended C r job P) (hi : (P.threads i).prog = .call o k)
    (hex : Exclusive C.env.cases P i) {b : Area} {j : ι} (hj : j ≠ i)
    (ha : a ∈ (opened C.env.cases (P.threads i).past).or
      (opens C.env.cases ⟨o, (handler C.env.cases o P.state).1⟩))
    (hb : b ∈ atWork C.env.cases (P.threads j)) : a.Apart b := by
  cases hopened : opened C.env.cases (P.threads i).past with
  | some a₀ =>
    rw [hopened] at ha
    cases ha
    exact hP.apart i j hj.symm a (mem_atWork.2 ⟨Pool.not_done_of_call hi, hopened⟩) b hb
  | none =>
    rw [hopened] at ha
    refine hex a ?_ j hj b hb
    rw [opening, hi]
    exact ha

theorem tended_step (hc : r.client.enabled = true) (hi : (P.threads i).prog = .call o k)
    (hP : Tended C r job P)
    (hex : Exclusive C.env.cases P i)
    (hguar : (terms C.env.cases r.client).guar (opened C.env.cases (P.threads i).past)
      ⟨o, (handler C.env.cases o P.state).1⟩ P.state (handler C.env.cases o P.state).2)
    (hrest : Upholds (terms C.env.cases r.client) (handler C.env.cases)
      (fun _ m w' => Restored C.env.cases r m w')
      ((opened C.env.cases (P.threads i).past).or
        (opens C.env.cases ⟨o, (handler C.env.cases o P.state).1⟩))
      (handler C.env.cases o P.state).2 (k (handler C.env.cases o P.state).1)) :
    Tended C r job (Pool.step (handler C.env.cases) P i) := by
  have hself := Pool.step_threads_self (handler C.env.cases) hi
  have hother {j : ι} (hj : j ≠ i) := Pool.step_threads_of_ne (handler C.env.cases) (P := P) hj
  have hwork {a : Area} (ha : a ∈ atWork C.env.cases
      ((Pool.step (handler C.env.cases) P i).threads i)) :
      a ∈ (opened C.env.cases (P.threads i).past).or
        (opens C.env.cases ⟨o, (handler C.env.cases o P.state).1⟩) := by
    rw [hself] at ha
    exact (mem_atWork.1 ha).2
  refine ⟨fun j j' hne a ha b hb => ?_, fun n hn hs htouched hfree => ?_, fun j hj => ?_⟩
  · by_cases hji : j = i
    · subst hji
      rw [hother hne.symm] at hb
      exact hP.apart_step hi hex hne.symm (hwork ha) hb
    · rw [hother hji] at ha
      by_cases hji' : j' = i
      · subst hji'
        exact (hP.apart_step hi hex hne (hwork hb) ha).symm
      · rw [hother hji'] at hb
        exact hP.apart j j' hne a ha b hb
  · rw [Pool.step_state _ hi]
    by_cases hcov : ∃ a ∈ (opened C.env.cases (P.threads i).past).or
        (opens C.env.cases ⟨o, (handler C.env.cases o P.state).1⟩), a.Covers n
    · -- the thread has worked on the name and does not any more: it has ended
      obtain ⟨a, ha, hcov⟩ := hcov
      have hdone : ((Pool.step (handler C.env.cases) P i).threads i).Done := by
        by_contra hnot
        refine hfree i a (mem_atWork.2 ⟨hnot, ?_⟩) hcov
        rw [hself]
        exact ha
      rw [hself] at hdone
      obtain ⟨x, hx⟩ := hdone
      rw [show k (handler C.env.cases o P.state).1 = _ from hx] at hrest
      exact hrest a ha n hcov hn hs
    · -- the step does not touch the name
      push Not at hcov
      refine (hguar.2 n hcov).agrees (hP.agrees n hn hs ?_ fun j a ha => ?_)
      · obtain ⟨j, a, ha, hcov'⟩ := htouched
        by_cases hji : j = i
        · subst hji
          rw [hself] at ha
          exact absurd hcov' (hcov a ha)
        · rw [hother hji] at ha
          exact ⟨j, a, ha, hcov'⟩
      · by_cases hji : j = i
        · subst hji
          refine hcov a ?_
          rw [(mem_atWork.1 ha).2]
          exact rfl
        · refine hfree j a ?_
          rw [hother hji]
          exact ha
  · by_cases hji : j = i
    · subst hji
      rw [hself]
      refine .inr ?_
      rcases hP.pass j hj with hstart | hall
      · -- the first step of a pass reads the names
        rw [hstart, Thread.start, reconcile, hc] at hi
        cases hi
        rw [hstart]
        rfl
      · change (opened C.env.cases (P.threads j).past).or _ = _
        rw [hall]
        rfl
    · rw [hother hji]
      exact hP.pass j hj

end Step

/-- **The entries are those of the managed zones once the passes and calls have ended**, if none
    begins to work on a name that another is at work on. -/
theorem pass_beside_calls [DecidableEq ι] (C : TangraDns.Config) (r : Reconciler)
    (job : ι → Job) (w : World)
    (sched : List ι) (hr : C.recursor = some r.client) (hc : r.client.enabled = true)
    (hpass : ∃ i, job i = .pass) (hw : Apt C.env.cases r.client w)
    (hex : Pool.Meets (handler C.env.cases) (Exclusive C.env.cases) (jobs C r job w) sched)
    (hend : ∀ i, ((Pool.run (handler C.env.cases) (jobs C r job w) sched).threads i).Done) :
    Exact C.env.cases r (Pool.run (handler C.env.cases) (jobs C r job w) sched).state := by
  have hinv : Tended C r job (Pool.run (handler C.env.cases) (jobs C r job w) sched) := by
    refine Pool.run_upholds (T := terms C.env.cases r.client) none
      (Q := fun _ _ m w' => Restored C.env.cases r m w') (I := Tended C r job) ?_ sched _
      (fun j => (job j).act_abides hr hc hw) ⟨?_, ?_, ?_⟩ hex
    · intro P i o k hi hP hex hguar hrest
      refine ⟨fun j hj hnot => ⟨hguar.1, fun b hb n hn => hguar.2 n fun a ha hcov => ?_⟩,
        tended_step hc hi hP hex hguar hrest⟩
      exact (hP.apart_step hi hex hj ha (mem_atWork.2 ⟨hnot, hb⟩)).not_covers hcov hn
    · exact fun i _ _ a ha => absurd (mem_atWork.1 ha).2 nofun
    · rintro n - - ⟨j, a, ⟨⟩, -⟩
    · exact fun j hj => .inl (congrArg (fun x => Thread.start (Job.act C r x).run) hj)
  intro n hn hs
  obtain ⟨i, hi⟩ := hpass
  refine hinv.agrees n hn hs ⟨i, .all, ?_, trivial⟩ fun j a ha =>
    absurd (hend j) (mem_atWork.1 ha).1
  refine (hinv.pass i hi).resolve_left fun hstart => ?_
  obtain ⟨x, hx⟩ := hend i
  rw [hstart, Thread.start, reconcile, hc] at hx
  cases hx

/-! ### A zone created during a pass -/

/-- A recursor is wired, without static forwards. -/
def besideReconciler : Reconciler := ⟨⟨true, str "192.0.2.53", 53⟩, [], false⟩

def besideConfig : TangraDns.Config :=
  { Config.sample with recursor := some besideReconciler.client }

def besideJob : Bool → Job
  | true => .pass
  | false => .create (.user (str "a") (str "u") [])
      ⟨str "example.com", str "native", [], [], false, [], [], [], []⟩

theorem apt_empty : Apt .ascii besideReconciler.client .empty :=
  ⟨fun z hz => absurd hz not_mem_nil, fun h => absurd h (by decide)⟩

/-- The creation takes its last steps after the pass has ended: the zone has its entry. -/
theorem pass_beside_calls_sample :
    let P := Pool.run (handler .ascii) (jobs besideConfig besideReconciler besideJob .empty)
      (List.replicate 5 false ++ List.replicate 2 true ++ List.replicate 4 false)
    Exact .ascii besideReconciler P.state ∧ P.state.store.allZoneNames = [str "example.com."] :=
  ⟨pass_beside_calls besideConfig besideReconciler besideJob .empty _ rfl rfl ⟨true, rfl⟩ apt_empty
    (by decide +kernel) (by decide +kernel), by decide +kernel⟩

/-- The zone is created after the pass has read the names and before it lists the entries: the pass
    removes the entry, and the zone is managed without one. -/
theorem pass_beside_creation :
    let P := Pool.run (handler .ascii) (jobs besideConfig besideReconciler besideJob .empty)
      ([true] ++ List.replicate 9 false ++ List.replicate 2 true)
    Apt .ascii besideReconciler.client World.empty ∧ Exact .ascii besideReconciler World.empty ∧
      (∀ i, (P.threads i).Done) ∧ ¬ Exact .ascii besideReconciler P.state := by
  refine ⟨apt_empty, fun n _ _ => ?_, by decide +kernel, fun h => ?_⟩
  · exact iff_of_false (fun ⟨z, hz, _⟩ => absurd hz not_mem_nil) (not_mem_nil)
  · obtain ⟨z, hz, -⟩ := (h (str "example.com.") (by decide) (by decide)).2 (by decide +kernel)
    have hnone : (Pool.run (handler .ascii) (jobs besideConfig besideReconciler besideJob .empty)
      ([true] ++ List.replicate 9 false ++ List.replicate 2 true)).state.recursor =
        [] := by decide +kernel
    rw [hnone] at hz
    exact absurd hz not_mem_nil

end TangraDns.Recursor
