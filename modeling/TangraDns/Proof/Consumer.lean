/-
  What the consumer dispatches (`dispatched_in_order`): for each of its tenants the
  entries its stream got after the start position, in order, up to some point.
-/
import TangraDns.Consumer

namespace TangraDns.Consumer

open List Str Streams Machine

variable {C : Consumer}

def Pc.tenants : Pc → List Str
  | .starting todo | .reading todo _ => todo
  | .dispatching t _ todo => t :: todo
  | .head | .pausing | .stopped => []

def Pc.batch : Pc → Option (Str × List Entry)
  | .dispatching t es _ => some (t, es)
  | .starting _ | .reading _ _ | .head | .pausing | .stopped => none

/-- The loop reads, so it has found every position known. -/
def Pc.reads : Pc → Bool
  | .reading _ _ | .dispatching _ _ _ => true
  | .starting _ | .head | .pausing | .stopped => false

namespace Run

variable {s s' : Run}
variable {t : Str} {todo : List Str}

inductive Move (C : Consumer) (s : Run) : Step → Run → Prop
  | append (k : Str) (e : Entry) (h : s.bus.Fresh k e.id) :
      Move C s (.append k e) { s with bus := s.bus.xAdd k e h }
  | trim (k : Str) (n : ℕ) (h : s.bus.gone k + n ≤ (s.bus.log k).length) :
      Move C s (.trim k n) { s with bus := s.bus.trim k n h }
  | cancel : Move C s .cancel { s with done := true }
  | idle (l : Step) (started : Bool) (pc : Pc) (hbatch : pc.batch = none)
      (htenants : ∀ t ∈ pc.tenants, t ∈ s.pc.tenants ∨ t ∈ C.tenants)
      (hreads : pc.reads = true → s.pc.reads = true ∨ C.tenants.length ≤ s.last.keys.length) :
      Move C s l { s with started := started, pc := pc }
  | start (ok : Bool) (t : Str) (todo : List Str) (hpc : s.pc = .starting (t :: todo))
      (hlast : s.last.lookup t = none) : Move C
        s (.xLast ok) { s.startAt C t with pc := .starting todo }
  | read (n : ℕ) (t : Str) (todo : List Str) (progressed : Bool) (id : Str)
      (hpc : s.pc = .reading (t :: todo) progressed) (hid : s.last.lookup t = some id) :
      Move C s (.xRead (some n))
        { s with pc := .dispatching t ((s.bus.after (C.key t) id).take n) todo }
  | dispatch (t : Str) (e : Entry) (batch : List Entry) (todo : List Str)
      (hpc : s.pc = .dispatching t (e :: batch) todo) :
      Move C s .dispatch { s.dispatch C t e with pc := .dispatching t batch todo }

theorem Move.pass (l : Step) (pc : Pc) (hbatch : pc.batch = none)
    (htenants : ∀ t ∈ pc.tenants, t ∈ s.pc.tenants ∨ t ∈ C.tenants)
    (hreads : pc.reads = true → s.pc.reads = true) : Move C s l { s with pc := pc } :=
  Move.idle l s.started pc hbatch htenants fun h => Or.inl (hreads h)

theorem move_of_step {l : Step} (h : s.step C l = some s') : Move C s l s' := by
  cases l with
  | append k e =>
    simp only [step] at h
    split_ifs at h with hfresh
    cases h
    exact .append k e hfresh
  | trim k n =>
    simp only [step] at h
    split_ifs at h with hn
    cases h
    exact .trim k n hn
  | cancel =>
    cases h
    exact .cancel
  | turn =>
    simp only [step] at h
    split at h
    · cases h
      split_ifs
      · exact .pass _ .stopped rfl (fun t ht => by cases ht) (fun h => by cases h)
      · exact .pass _ (.starting C.tenants) rfl (fun t ht => Or.inr ht) (fun h => by cases h)
    · cases h
  | xLast ok =>
    simp only [step] at h
    split at h
    · next t todo hpc =>
      split_ifs at h with hknown
      · cases h
        refine .pass _ (.starting todo) rfl (fun t' ht => Or.inl ?_) (fun h => by cases h)
        rw [hpc]
        exact mem_cons_of_mem _ ht
      · cases h
        rw [not_or, Option.not_isSome_iff_eq_none] at hknown
        exact .start ok t todo hpc hknown.1
    · split_ifs at h with hlen
      · cases h
        exact .pass _ .pausing rfl (fun t ht => by cases ht) (fun h => by cases h)
      · cases h
        exact .idle _ true (.reading C.tenants false) rfl (fun t ht => Or.inr ht) fun _ =>
          Or.inr (Nat.le_of_not_lt hlen)
    · cases h
  | xRead n =>
    simp only [step] at h
    split at h
    · next t todo progressed hpc =>
      have htodo : ∀ t' ∈ todo, t' ∈ s.pc.tenants := by
        rw [hpc]
        exact fun t' ht => mem_cons_of_mem _ ht
      cases n with
      | none =>
        cases h
        split_ifs
        · exact .pass _ .stopped rfl (fun t ht => by cases ht) (fun h => by cases h)
        · exact .pass _ (.reading todo progressed) rfl (fun t' ht => Or.inl (htodo t' ht))
            fun _ => by rw [hpc]; rfl
      | some n =>
        simp only at h
        split at h
        · next id hid =>
          split_ifs at h
          cases h
          exact .read n t todo progressed id hpc hid
        · cases h
    · cases h
      split_ifs
      · exact .pass _ .head rfl (fun t ht => by cases ht) (fun h => by cases h)
      · exact .pass _ .pausing rfl (fun t ht => by cases ht) (fun h => by cases h)
    · cases h
  | dispatch =>
    simp only [step] at h
    split at h
    · next t e batch todo hpc =>
      cases h
      exact .dispatch t e batch todo hpc
    · next t todo hpc =>
      cases h
      refine .pass _ (.reading todo true) rfl (fun t' ht => Or.inl ?_) fun _ => by rw [hpc]; rfl
      rw [hpc]
      exact mem_cons_of_mem _ ht
    · cases h
  | resume =>
    simp only [step] at h
    split at h
    · cases h
      exact .pass _ .head rfl (fun t ht => by cases ht) (fun h => by cases h)
    · cases h

/-! ## The invariant -/

section Dispatch

variable (C : Consumer) (s : Run) (t : Str) (e : Entry)

@[simp] theorem dispatch_bus : (s.dispatch C t e).bus = s.bus := by
  unfold dispatch
  split <;> rfl

@[simp] theorem dispatch_last : (s.dispatch C t e).last = s.last.insert t e.id := by
  unfold dispatch
  split <;> rfl

@[simp] theorem dispatch_start : (s.dispatch C t e).start = s.start := by
  unfold dispatch
  split <;> rfl

@[simp] theorem dispatch_dispatched : (s.dispatch C t e).dispatched = s.dispatched ++ [(t, e)] := by
  unfold dispatch
  split <;> rfl

end Dispatch

structure Inv (C : Consumer) (s : Run) : Prop where
  unknown : ∀ t, s.last.lookup t = none → s.start t = none ∧ s.dispatchedTo t = []
  known : ∀ t id, s.last.lookup t = some id → ∃ k, s.start t = some k ∧
    s.dispatchedTo t <+: (s.bus.log (C.key t)).drop k ∧
    s.bus.At (C.key t) (k + (s.dispatchedTo t).length) id
  batch : ∀ t es, s.pc.batch = some (t, es) → ∃ k, s.start t = some k ∧
    es <+: (s.bus.log (C.key t)).drop (k + (s.dispatchedTo t).length)
  tenants : ∀ t ∈ s.pc.tenants, t ∈ C.tenants
  keys : ∀ t ∈ s.last.keys, t ∈ C.tenants
  reads : s.pc.reads = true → C.tenants.length ≤ s.last.keys.length

theorem inv_new (C : Consumer) (bus : Bus) : (C.new bus).Inv C where
  unknown t _ := ⟨rfl, rfl⟩
  known t id h := by
    rw [new, AList.lookup_empty] at h
    cases h
  batch t es h := by
    unfold new at h
    split_ifs at h <;> cases h
  tenants t h := by
    unfold new at h
    split_ifs at h <;> cases h
  keys t h := by
    unfold new at h
    simp at h
  reads h := by
    unfold new at h
    split_ifs at h <;> cases h

theorem Inv.append (hs : s.Inv C) (k : Str) (e : Entry) (h : s.bus.Fresh k e.id) :
    Inv C { s with bus := s.bus.xAdd k e h } where
  unknown := hs.unknown
  known t id hid := by
    obtain ⟨n, hn, hpre, hat⟩ := hs.known t id hid
    exact ⟨n, hn, hpre.trans ((Bus.log_prefix_xAdd k e h _).drop n), hat.xAdd k e h⟩
  batch t es hes := by
    obtain ⟨n, hn, hpre⟩ := hs.batch t es hes
    exact ⟨n, hn, hpre.trans ((Bus.log_prefix_xAdd k e h _).drop _)⟩
  tenants := hs.tenants
  keys := hs.keys
  reads := hs.reads

theorem Inv.idle (hs : s.Inv C) (started : Bool) (pc : Pc) (hbatch : pc.batch = none)
    (htenants : ∀ t ∈ pc.tenants, t ∈ s.pc.tenants ∨ t ∈ C.tenants)
    (hreads : pc.reads = true → s.pc.reads = true ∨ C.tenants.length ≤ s.last.keys.length) :
    Inv C { s with started := started, pc := pc } where
  unknown := hs.unknown
  known := hs.known
  batch t es h := by
    rw [hbatch] at h
    cases h
  tenants t ht := (htenants t ht).elim (hs.tenants t) id
  keys := hs.keys
  reads h := (hreads h).elim hs.reads id

theorem length_keys_insert {α : Type} {β : α → Type} [DecidableEq α] (m : AList β)
    (a : α) (b : β a) :
    m.keys.length ≤ (m.insert a b).keys.length := by
  rw [AList.keys_insert, length_cons, length_erase]
  split <;> omega

theorem Inv.keys_insert (hs : s.Inv C) (ht : t ∈ C.tenants) (id : Str) :
    ∀ t' ∈ (s.last.insert t id).keys, t' ∈ C.tenants := by
  intro t' ht'
  rw [← AList.mem_keys, AList.mem_insert] at ht'
  rcases ht' with rfl | h
  · exact ht
  · exact hs.keys t' (AList.mem_keys.1 h)

theorem Inv.start (hs : s.Inv C) (hpc : s.pc = .starting (t :: todo))
    (hlast : s.last.lookup t = none) : Inv C { s.startAt C t with pc := .starting todo } where
  unknown t' h := by
    have hne : t' ≠ t := by
      rintro rfl
      simp [startAt] at h
    simp only [startAt, AList.lookup_insert_ne hne] at h
    simp only [startAt, Function.update_of_ne hne]
    exact hs.unknown t' h
  known t' id h := by
    by_cases hne : t' = t
    · subst hne
      have hnone : s.dispatchedTo t' = [] := (hs.unknown t' hlast).2
      simp only [startAt, AList.lookup_insert, Option.some.injEq] at h
      refine ⟨_, Function.update_self .., ?_, ?_⟩
      · change s.dispatchedTo t' <+: _
        rw [hnone]
        exact nil_prefix
      · change s.bus.At (C.key t') (_ + (s.dispatchedTo t').length) id
        rw [hnone, ← h]
        exact Bus.at_tail s.bus (C.key t')
    · simp only [startAt, AList.lookup_insert_ne hne] at h
      simp only [startAt, Function.update_of_ne hne]
      exact hs.known t' id h
  batch t' es h := by cases h
  tenants t' ht' := hs.tenants t' (by rw [hpc]; exact mem_cons_of_mem _ ht')
  keys := hs.keys_insert (hs.tenants t (by rw [hpc]; exact mem_cons_self)) _
  reads h := by cases h

theorem Inv.read (hs : s.Inv C) {n : ℕ} {id : Str} {progressed : Bool}
    (hpc : s.pc = .reading (t :: todo) progressed) (hid : s.last.lookup t = some id) :
    Inv C { s with pc := .dispatching t ((s.bus.after (C.key t) id).take n) todo } where
  unknown := hs.unknown
  known := hs.known
  batch t' es h := by
    cases h
    obtain ⟨k, hk, -, hat⟩ := hs.known t id hid
    refine ⟨k, hk, ?_⟩
    rw [hat.after_eq]
    exact take_prefix n _
  tenants t' ht' := hs.tenants t' (by rw [hpc]; exact ht')
  keys := hs.keys
  reads _ := hs.reads (by rw [hpc]; rfl)

@[simp] theorem dispatchedTo_dispatch_self (t : Str) (e : Entry) :
    (s.dispatch C t e).dispatchedTo t = s.dispatchedTo t ++ [e] := by simp [dispatchedTo]

theorem dispatchedTo_dispatch_of_ne {t' : Str} (h : t' ≠ t) (e : Entry) :
    (s.dispatch C t e).dispatchedTo t' = s.dispatchedTo t' := by simp [dispatchedTo, h.symm]

theorem Inv.head (hs : s.Inv C) {e : Entry} {es : List Entry} (h : s.pc.batch = some (t, e :: es)) :
    ∃ k, s.start t = some k ∧ s.dispatchedTo t ++ [e] <+: (s.bus.log (C.key t)).drop k ∧
      s.bus.At (C.key t) (k + (s.dispatchedTo t ++ [e]).length) e.id ∧
      es <+: (s.bus.log (C.key t)).drop (k + (s.dispatchedTo t ++ [e]).length) := by
  obtain ⟨k, hk, rest, hrest⟩ := hs.batch t (e :: es) h
  obtain ⟨id, hid⟩ : ∃ id, s.last.lookup t = some id := by
    by_contra hnone
    rw [(hs.unknown t (Option.eq_none_iff_forall_ne_some.2 fun id h => hnone ⟨id, h⟩)).1] at hk
    cases hk
  obtain ⟨k', hk', ⟨r, hr⟩, hat⟩ := hs.known t id hid
  obtain rfl : k' = k := Option.some.inj (hk'.symm.trans hk)
  have hsplit : r = e :: (es ++ rest) := by
    rw [← cons_append, hrest, ← drop_drop, ← hr, drop_left]
  have hget : (s.bus.log (C.key t))[k' + (s.dispatchedTo t).length]? = some e := by
    rw [← Nat.add_zero (k' + _), ← getElem?_drop, ← hrest]
    rfl
  refine ⟨k', hk, ⟨es ++ rest, ?_⟩, ?_, ⟨rest, ?_⟩⟩
  · rw [← hr, hsplit, append_assoc, singleton_append]
  · rw [length_append, length_singleton]
    exact Bus.At.next hat.cursor.gone_le hget
  · rw [length_append, length_singleton, ← Nat.add_assoc, ← drop_drop, ← hrest]
    rfl

theorem Inv.dispatch (hs : s.Inv C) {e : Entry} {es : List Entry}
    (hpc : s.pc = .dispatching t (e :: es) todo) :
    Inv C { s.dispatch C t e with pc := .dispatching t es todo } := by
  obtain ⟨k, hk, hdone, hat, hes⟩ := hs.head (by rw [hpc]; rfl)
  have ht : t ∈ C.tenants := hs.tenants t (by rw [hpc]; exact mem_cons_self)
  -- the positions of the other tenants stay
  have hother : ∀ t' ≠ t, (s.dispatch C t e).last.lookup t' = s.last.lookup t' := fun t' hne => by
    rw [dispatch_last, AList.lookup_insert_ne hne]
  refine ⟨fun t' h => ?_, fun t' id h => ?_, fun t' es' h => ?_, fun t' ht' => ?_, fun t' ht' => ?_,
    fun _ => ?_⟩
  · have hne : t' ≠ t := by
      rintro rfl
      simp at h
    change (s.dispatch C t e).start t' = none ∧ (s.dispatch C t e).dispatchedTo t' = []
    rw [dispatch_start, dispatchedTo_dispatch_of_ne hne]
    exact hs.unknown t' ((hother t' hne).symm.trans h)
  · change ∃ k, (s.dispatch C t e).start t' = some k ∧
      (s.dispatch C t e).dispatchedTo t' <+: ((s.dispatch C t e).bus.log (C.key t')).drop k ∧
      (s.dispatch C t e).bus.At (C.key t') (k + ((s.dispatch C t e).dispatchedTo t').length) id
    rw [dispatch_start, dispatch_bus]
    by_cases hne : t' = t
    · subst hne
      simp only [dispatch_last, AList.lookup_insert, Option.some.injEq] at h
      subst h
      rw [dispatchedTo_dispatch_self]
      exact ⟨k, hk, hdone, hat⟩
    · rw [dispatchedTo_dispatch_of_ne hne]
      exact hs.known t' id ((hother t' hne).symm.trans h)
  · cases h
    refine ⟨k, ?_, ?_⟩
    · simpa using hk
    · change es <+: ((s.dispatch C t e).bus.log (C.key t)).drop
        (k + ((s.dispatch C t e).dispatchedTo t).length)
      rwa [dispatch_bus, dispatchedTo_dispatch_self]
  · exact hs.tenants t' (by rw [hpc]; exact ht')
  · rw [show ({ s.dispatch C t e with pc := .dispatching t es todo } : Run).last =
      s.last.insert t e.id from
      dispatch_last C s t e] at ht'
    exact hs.keys_insert ht e.id t' ht'
  · have hlen := hs.reads (by rw [hpc]; rfl)
    change C.tenants.length ≤ (s.dispatch C t e).last.keys.length
    rw [dispatch_last]
    exact hlen.trans (length_keys_insert _ _ _)

theorem Inv.step {l : Step} (hs : s.Inv C) (hl : ∀ k n, l ≠ .trim k n) (h : s.step C l = some s') :
    s'.Inv C := by
  cases move_of_step h with
  | append k e hfresh => exact hs.append k e hfresh
  | trim k n => exact absurd rfl (hl k n)
  | cancel => exact ⟨hs.unknown, hs.known, hs.batch, hs.tenants, hs.keys, hs.reads⟩
  | idle _ started pc hbatch htenants hreads => exact hs.idle started pc hbatch htenants hreads
  | start ok t todo hpc hlast => exact hs.start hpc hlast
  | read n t todo progressed id hpc hid => exact hs.read hpc hid
  | dispatch t e es todo hpc => exact hs.dispatch hpc

end Run

/-! ## What is dispatched -/

/-- The bus trims no stream. -/
def Untrimmed : Step → Prop
  | .trim _ _ => False
  | _ => True

instance (l : Step) : Decidable (Untrimmed l) := by
  cases l <;> unfold Untrimmed <;> infer_instance

theorem inv_of_path {bus : Bus} {ls : List Step} {s : Run}
    (h : Path (Run.step C) (fun _ l => Untrimmed l) (C.new bus) ls s) : s.Inv C := by
  refine h.invariant (fun s l s' hs hl hstep => hs.step (fun k n heq => ?_) hstep)
    (Run.inv_new C bus)
  subst heq
  exact hl

/-- **At every moment the entries dispatched for a tenant are the first ones its stream got after
    the tenant's start position, in the order of their ids.** -/
theorem dispatched_in_order (C : Consumer) {bus : Bus} {ls : List Step} {s : Run}
    (h : Path (Run.step C) (fun _ l => Untrimmed l) (C.new bus) ls s) :
    (∀ d ∈ s.dispatched, d.1 ∈ C.tenants) ∧
      ∀ t, (s.start t = none → s.dispatchedTo t = []) ∧
        ∀ k, s.start t = some k →
          s.dispatchedTo t <+: (s.bus.log (C.key t)).drop k ∧
            Ascending less Entry.id (s.dispatchedTo t) ∧
            ∀ e ∈ s.dispatchedTo t, ∀ e' ∈ (s.bus.log (C.key t)).take k, less e'.id
              e.id = true := by
  have hs := inv_of_path h
  have hknown : ∀ t k, s.start t = some k → s.dispatchedTo t <+: (s.bus.log (C.key t)).drop k := by
    intro t k hk
    cases hid : s.last.lookup t with
    | none =>
      rw [(hs.unknown t hid).2]
      exact nil_prefix
    | some id =>
      obtain ⟨k', hk', hpre, -⟩ := hs.known t id hid
      rwa [← Option.some.inj (hk'.symm.trans hk)]
  refine ⟨fun d hd => ?_, fun t => ⟨fun hnone => ?_,
    fun k hk => ⟨hknown t k hk, ?_, fun e he e' he' => ?_⟩⟩⟩
  · -- a tenant with a dispatched entry has a position
    cases hid : s.last.lookup d.1 with
    | none =>
      have hmem : d.2 ∈ s.dispatchedTo d.1 := List.mem_map.2 ⟨d, by simpa using hd, rfl⟩
      rw [(hs.unknown d.1 hid).2] at hmem
      cases hmem
    | some id =>
      refine hs.keys d.1 (AList.mem_keys.1 (AList.lookup_isSome.1 ?_))
      rw [hid]
      rfl
  · cases hid : s.last.lookup t with
    | none => exact (hs.unknown t hid).2
    | some id =>
      obtain ⟨k, hk, -⟩ := hs.known t id hid
      rw [hnone] at hk
      cases hk
  · exact (s.bus.ascending (C.key t)).sublist ((hknown t k hk).sublist.trans (drop_sublist _ _))
  · have hsorted := s.bus.ascending (C.key t)
    rw [Ascending, ← take_append_drop k (s.bus.log (C.key t)), pairwise_append] at hsorted
    exact hsorted.2.2 e' he' e ((hknown t k hk).mem he)

/-- A tenant whose stream has an entry before the start and two after it, one of them read so
    far. -/
theorem dispatched_in_order_two : ∃ (C : Consumer) (s : Run) (ls : List Step),
    Path (Run.step C) (fun _ l => Untrimmed l) (C.new Bus.empty) ls s ∧
    (s.dispatchedTo (str "t")).length = 1 ∧
      s.dispatchedTo (str "t") <+: (s.bus.log (C.key (str "t"))).drop 1 := by
  let C : Consumer := ⟨[str "t", str "u"], none, fun _ => none⟩
  let entry (id : String) : Entry := ⟨str id, fun _ => []⟩
  obtain ⟨s, hpath, hs⟩ := exists_path (Run.step C) (fun _ l => Untrimmed l) (C.new Bus.empty)
    [.append (Streams.key (str "t")) (entry "1-1"), .turn, .xLast true, .xLast false, .xLast true,
      .resume, .turn,
      .append (Streams.key (str "t")) (entry "1-2"), .xLast true, .xLast true, .xLast true,
      .append (Streams.key (str "t")) (entry "2-1"), .xRead (some 1), .dispatch, .dispatch,
        .xRead none]
    (fun s => (s.dispatchedTo (str "t")).length == 1 && s.start (str "t") == some 1)
      (by decide +kernel)
  simp only [Bool.and_eq_true, beq_iff_eq] at hs
  exact ⟨C, s, _, hpath, hs.1, (((dispatched_in_order C hpath).2 _).2 1 hs.2).1⟩

end TangraDns.Consumer
