/-
  The consumer's start-up (`startsUp_iff`): it ends as soon as every start position
  is known, and the pass that ends it reads every stream, just if no tenant is
  configured twice.
-/
import TangraDns.SyncConfig

namespace TangraDns.Consumer

open Str Streams Machine

variable {C : Consumer}
variable {s s' : Run} {l : Step}

/-! ## What a pass reads -/

def Step.reads : Step → Pc → List Str
  | .xRead _, .reading (t :: _) _ => [t]
  | _, _ => []

def readsOf (C : Consumer) : Run → List Step → List Str
  | _, [] => []
  | s, l :: ls => l.reads s.pc ++ ((s.step C l).elim [] fun s' => readsOf C s' ls)

/-- The next step ends the start-up, and the streams of all tenants are read before the pass
    ends. -/
def Run.ReadsAll (C : Consumer) (s : Run) : Prop :=
  ∀ ok, ∃ s', s.step C (.xLast ok) = some s' ∧ s'.started = true ∧
    s'.pc = .reading C.tenants false ∧
    ∀ ls s'' progressed, Path (Run.step C) (fun _ l => l ≠ .turn) s' ls s'' →
      s''.pc = .reading [] progressed →
      readsOf C s' ls = C.tenants

/-- Once the start positions of all tenants are known, their streams are read in the same pass. -/
def StartsUp (C : Consumer) : Prop :=
  ∀ bus ls s, Path (Run.step C) (fun _ _ => True) (C.new bus) ls s → s.pc = .starting [] →
    (∀ t ∈ C.tenants, (s.last.lookup t).isSome) → s.ReadsAll C

def Pc.unread : Pc → Option (List Str)
  | .reading todo _ | .dispatching _ _ todo => some todo
  | .starting _ | .head | .pausing | .stopped => none

def Pc.over : Pc → Bool
  | .head | .pausing | .stopped => true
  | .starting _ | .reading _ _ | .dispatching _ _ _ => false

theorem pc_beside (h : s.step C l = some s')
    (hl : l = .cancel ∨ (∃ k e, l = .append k e) ∨ ∃ k n, l = .trim k n) :
    s'.pc = s.pc ∧ l.reads s.pc = [] := by
  rcases hl with rfl | ⟨k, e, rfl⟩ | ⟨k, n, rfl⟩
  · cases h
    exact ⟨rfl, rfl⟩
  · simp only [Run.step] at h
    split_ifs at h
    cases h
    exact ⟨rfl, rfl⟩
  · simp only [Run.step] at h
    split_ifs at h
    cases h
    exact ⟨rfl, rfl⟩

theorem unread_step {todo : List Str} (h : s.step C l = some s')
    (hs : s.pc.unread = some todo) :
    (∃ todo', s'.pc.unread = some todo' ∧ l.reads s.pc ++ todo' = todo) ∨ s'.pc.over = true := by
  have hbeside (hl : l = .cancel ∨ (∃ k e, l = .append k e) ∨ ∃ k n, l = .trim k n) :
      (∃ todo', s'.pc.unread = some todo' ∧ l.reads s.pc ++ todo' = todo) ∨ s'.pc.over = true := by
    obtain ⟨hpc, hreads⟩ := pc_beside h hl
    exact .inl ⟨todo, hpc ▸ hs, by rw [hreads, List.nil_append]⟩
  cases l with
  | cancel => exact hbeside (.inl rfl)
  | append k e => exact hbeside (.inr (.inl ⟨k, e, rfl⟩))
  | trim k n => exact hbeside (.inr (.inr ⟨k, n, rfl⟩))
  | turn | xLast ok | resume =>
    simp only [Run.step] at h
    split at h <;> next hpc => first | (rw [hpc] at hs; cases hs) | cases h
  | xRead n =>
    simp only [Run.step] at h
    split at h
    · next t rest progressed hpc =>
      rw [hpc] at hs ⊢
      cases hs
      cases n with
      | none =>
        cases h
        split_ifs
        · exact .inr rfl
        · exact .inl ⟨rest, rfl, rfl⟩
      | some n =>
        simp only at h
        split at h
        · split_ifs at h
          cases h
          exact .inl ⟨rest, rfl, rfl⟩
        · cases h
    · cases h
      split_ifs <;> exact .inr rfl
    · cases h
  | dispatch =>
    simp only [Run.step] at h
    split at h
    · next t e batch rest hpc =>
      rw [hpc] at hs
      cases hs
      cases h
      exact .inl ⟨todo, rfl, rfl⟩
    · next t rest hpc =>
      rw [hpc] at hs
      cases hs
      cases h
      exact .inl ⟨todo, rfl, rfl⟩
    · cases h

theorem over_step (h : s.step C l = some s') (hl : l ≠ .turn) (hs : s.pc.over = true) :
    s'.pc.over = true := by
  cases l with
  | cancel => exact (pc_beside h (.inl rfl)).1 ▸ hs
  | append k e => exact (pc_beside h (.inr (.inl ⟨k, e, rfl⟩))).1 ▸ hs
  | trim k n => exact (pc_beside h (.inr (.inr ⟨k, n, rfl⟩))).1 ▸ hs
  | turn => exact absurd rfl hl
  | resume =>
    simp only [Run.step] at h
    split at h
    · cases h
      rfl
    · cases h
  | xLast ok | xRead n | dispatch =>
    simp only [Run.step] at h
    split at h <;> next hpc => first | (rw [hpc] at hs; cases hs) | cases h

theorem readsOf_pass {ls : List Step} {progressed : Bool}
    (h : Path (Run.step C) (fun _ l => l ≠ .turn) s ls s') (hs' : s'.pc = .reading [] progressed) :
    (∀ todo, s.pc.unread = some todo → readsOf C s ls = todo) ∧ s.pc.over = false := by
  induction h with
  | nil s =>
    rw [hs']
    exact ⟨fun todo h => Option.some.inj h, rfl⟩
  | @cons s s₁ s' l ls hl hturn rest ih =>
    obtain ⟨hreads, hover⟩ := ih hs'
    refine ⟨fun todo hs => ?_, Bool.eq_false_iff.2 fun hs => ?_⟩
    · rcases unread_step hl hs with ⟨todo', hs₁, rfl⟩ | hend
      · rw [readsOf, hl, Option.elim_some, hreads todo' hs₁]
      · rw [hend] at hover
        cases hover
    · rw [over_step hl hturn hs] at hover
      cases hover

/-! ## The count -/

theorem nodup_keys (m : AList fun _ : Str => Str) : m.keys.Nodup := m.nodupKeys

theorem mem_keys_iff {m : AList fun _ : Str => Str} {t : Str} :
    t ∈ m.keys ↔ (m.lookup t).isSome := by
  rw [← AList.mem_keys, AList.lookup_isSome]

theorem readsAll_of_length (hpc : s.pc = .starting []) (h : C.tenants.length ≤ s.last.keys.length) :
    s.ReadsAll C := by
  intro ok
  refine ⟨{ s with started := true, pc := .reading C.tenants false }, ?_, rfl, rfl,
    fun ls s'' progressed hp hend => ?_⟩
  · simp only [Run.step, hpc]
    exact if_neg (Nat.not_lt.2 h)
  · exact (readsOf_pass hp hend).1 C.tenants rfl

theorem path_starting (s : Run) (todo : List Str) (hpc : s.pc = .starting todo) : ∃ s' : Run,
    Path (Run.step C) (fun _ _ => True) s (todo.map fun _ => .xLast true) s' ∧
    s'.pc = .starting [] ∧
      (∀ t, (s'.last.lookup t).isSome ↔ (s.last.lookup t).isSome ∨ t ∈ todo) := by
  induction todo generalizing s with
  | nil => exact ⟨s, .nil s, hpc, fun t => by simp⟩
  | cons t todo ih =>
    by_cases hknown : (s.last.lookup t).isSome
    · have hstep : s.step C (.xLast true) = some { s with pc := .starting todo } := by
        simp only [Run.step, hpc]
        exact if_pos (.inl hknown)
      obtain ⟨s', hpath, hend, hlast⟩ := ih { s with pc := .starting todo } rfl
      refine ⟨s', .cons hstep trivial hpath, hend, fun t' => (hlast t').trans ?_⟩
      rw [List.mem_cons]
      exact ⟨fun h => h.imp_right .inr, fun h => h.elim .inl fun h =>
        h.elim (fun h => .inl (h ▸ hknown)) .inr⟩
    · have hstep : s.step C (.xLast true) = some { s.startAt C t with pc := .starting todo } := by
        simp only [Run.step, hpc]
        exact if_neg (not_or.2 ⟨hknown, Bool.noConfusion⟩)
      obtain ⟨s', hpath, hend, hlast⟩ := ih { s.startAt C t with pc := .starting todo } rfl
      refine ⟨s', .cons hstep trivial hpath, hend, fun t' => (hlast t').trans ?_⟩
      rw [List.mem_cons]
      by_cases ht : t' = t
      · subst ht
        simp [Run.startAt]
      · simp [Run.startAt, AList.lookup_insert_ne ht, ht]

theorem exists_stuck (hdup : ¬ C.tenants.Nodup) (bus : Bus) : ∃ ls s,
    Path (Run.step C) (fun _ _ => True) (C.new bus) ls s ∧ s.pc = .starting [] ∧
      (∀ t ∈ C.tenants, (s.last.lookup t).isSome) ∧ ¬ s.ReadsAll C := by
  have hne : C.tenants ≠ [] := fun h => hdup (h ▸ List.nodup_nil)
  have hturn : (C.new bus).step C .turn = some { C.new bus with pc := .starting C.tenants } := by
    simp only [Run.step, new, if_neg hne]
    rfl
  obtain ⟨s, hpath, hpc, hlast⟩ := path_starting (C := C)
    { C.new bus with pc := .starting C.tenants } _ rfl
  have hkeys (t : Str) : t ∈ s.last.keys ↔ t ∈ C.tenants := by
    rw [mem_keys_iff, hlast]
    exact ⟨fun h => h.resolve_left (by simp [new]), .inr⟩
  -- one position for each tenant is too few
  have hlen : s.last.keys.length < C.tenants.length := by
    by_contra hle
    have hsub : s.last.keys.Subperm C.tenants := List.subperm_of_subset (nodup_keys _) fun t ht =>
      (hkeys t).1 ht
    exact hdup ((hsub.perm_of_length_le (Nat.not_lt.1 hle)).nodup_iff.1 (nodup_keys _))
  refine ⟨_, s, .cons hturn trivial hpath, hpc, fun t ht => mem_keys_iff.1 ((hkeys t).2 ht),
    fun h => ?_⟩
  obtain ⟨s', hstep, -, hread, -⟩ := h true
  simp only [Run.step, hpc, if_pos hlen] at hstep
  cases hstep
  cases hread

/-- **The consumer leaves its start-up once all start positions are known, and reads every stream in
    that pass**, just if no tenant is configured twice. -/
theorem startsUp_iff (C : Consumer) : C.StartsUp ↔ C.tenants.Nodup := by
  constructor
  · intro h
    by_contra hdup
    obtain ⟨ls, s, hpath, hpc, hknown, hstuck⟩ := exists_stuck hdup .empty
    exact hstuck (h .empty ls s hpath hpc hknown)
  · intro hnodup bus ls s _ hpc hknown
    have hsub : C.tenants.Subperm s.last.keys := List.subperm_of_subset hnodup fun t ht =>
      mem_keys_iff.2 (hknown t ht)
    exact readsAll_of_length hpc hsub.length_le

def twice : SyncConfig :=
  ⟨true, [str "11111111-1111-1111-1111-111111111111", str "11111111-1111-1111-1111-111111111111"],
    str "ipam", 3600⟩

/-- It is accepted, and its consumer stays in its start-up although all positions are known. -/
theorem twice_stuck : twice.validateSync Validate.defaultLimits [] = .ok () ∧ ∃ ls s,
    Path (Run.step (twice.consumer [] fun _ => none)) (fun _ _ => True)
      ((twice.consumer [] fun _ => none).new .empty) ls s ∧ s.pc = .starting [] ∧
      (∀ t ∈ (twice.consumer [] fun _ => none).tenants, (s.last.lookup t).isSome) ∧
      ¬ s.ReadsAll (twice.consumer [] fun _ => none) :=
  ⟨by decide +kernel, exists_stuck (by decide +kernel) .empty⟩

end TangraDns.Consumer
