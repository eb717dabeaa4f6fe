/-
  What the hub delivers.
-/
import TangraDns.Proof.Served

namespace TangraDns.Streams

open List Str Machine

variable {cfg : Config}

namespace Hub

variable {h h' : Hub} {i : ℕ}
variable {l : Step}

/-! ## What stays of a subscription -/

def fixed (s : Sub) : Str × Str × Str × ℕ × ℕ := (s.tenant, s.user, s.lastID, s.first, s.since)

theorem fixed_push (s : Sub) (ev : Event) : fixed (s.push ev).1 = fixed s := by
  obtain ⟨huser, -, hlastID, -, -, -, hfirst, hsince, htenant⟩ := push_keeps s ev
  rw [fixed, fixed, huser, hlastID, hfirst, hsince, htenant]

theorem subscribe_subs (hinv : h.Inv cfg) (hf : h.Flow) (tenant user lastID : Str) (ok : Bool) :
    h.subscribe cfg tenant user lastID ok = h ∨
      (h.subscribe cfg tenant user lastID ok).nsubs = h.nsubs + 1 ∧
        (h.subscribe cfg tenant user lastID ok).bus = h.bus ∧
        (∀ j ≠ h.nsubs, (h.subscribe cfg tenant user lastID ok).subs j = h.subs j) ∧
        ∃ n ≤ (h.bus.log (key tenant)).length, fixed
          ((h.subscribe cfg tenant user lastID ok).subs h.nsubs) =
          (tenant, user, lastID, n, (h.bus.log (key tenant)).length) := by
  rcases subscribe_cases cfg hinv tenant user lastID ok with heq | ⟨-, heq, -⟩
  · exact Or.inl heq
  right
  obtain ⟨hbase, ho, hsubs, hnsubs, hbus, -, -⟩ := hinv.tenantSub tenant
  have hflow := hf.tenantSub tenant
  rw [heq]
  generalize (h.tenantSub tenant).1 = h₁ at *
  generalize (h.tenantSub tenant).2 = o at *
  have he := hbase.entry tenant o ho
  refine ⟨congrArg (· + 1) hnsubs, hbus, fun j hj => ?_, (h₁.objs o).pos, ?_, ?_⟩
  · rw [← hnsubs] at hj
    rw [← hsubs]
    exact Function.update_of_ne hj ..
  · rw [← hbus, ← he.tenant]
    exact (hflow.loop o he.made).pos_le
  · have hsub : (h₁.insert o tenant user lastID).subs h₁.nsubs = h₁.opened o tenant user lastID :=
      Function.update_self ..
    rw [← hnsubs, ← hbus, hsub]
    rfl

theorem fixed_step (hinv : h.Inv cfg) (hf : h.Flow) (hl : h.step cfg l = some h') {j : ℕ}
    (hj : j < h.nsubs) :
    fixed (h'.subs j) = fixed (h.subs j) := by
  have hset : ∀ (i : ℕ) (s : Sub), fixed s = fixed (h.subs i) →
      fixed ((h.setSub i s).subs j) = fixed (h.subs j) :=
    fun i s hs => apply_update_eq fixed h.subs hs j
  have hclose : ∀ i, fixed ((h.closeSub i).subs j) = fixed (h.subs j) := by
    intro i
    obtain ⟨-, -, hother, -, hself⟩ := closeSub_subs hinv i
    by_cases hji : j = i
    · subst hji
      rcases hself with heq | heq
      · rw [heq]
      · rw [heq]
        rfl
    · rw [hother j hji]
  cases move_of_step hl with
  | append | refused | trim | wait | read | next | dispatched | hub => rfl
  | subscribe tenant user lastID ok =>
    rcases subscribe_subs hinv hf tenant user lastID ok with heq | ⟨-, -, hother, -⟩
    · rw [heq]
    · rw [hother j hj.ne]
  | reset i now ok data hreplay => exact hset i _ (fixed_push (h.subs i) _)
  | replay i now hreplay => exact hset i _ rfl
  | replayed i hreplay => exact hset i _ rfl
  | replayPush i e rest hreplay =>
    refine hset i _ ?_
    split_ifs
    · exact fixed_push (h.subs i) _
    · rfl
  | receive i ev q hq => exact hset i _ rfl
  | close i => exact hclose i
  | push o i e subs rest hpc hi => exact hset i _ (fixed_push (h.subs i) _)
  | drop o i e subs rest hpc => exact hclose i
  | hubClose c i cs => exact hclose i

theorem nsubs_step (hinv : h.Inv cfg) (hl : h.step cfg l = some h') :
    h'.nsubs = h.nsubs ∨ ∃ tenant user lastID ok, l = .subscribe tenant user lastID ok := by
  have hclose : ∀ i, (h.closeSub i).nsubs = h.nsubs := fun i => (closeSub_subs hinv i).1
  cases move_of_step hl with
  | append | refused | trim | wait | read | next | dispatched | hub | reset | replay | replayed
  | replayPush | receive
  | push => exact Or.inl rfl
  | subscribe tenant user lastID ok => exact Or.inr ⟨tenant, user, lastID, ok, rfl⟩
  | close i => exact Or.inl (hclose i)
  | drop o i e subs rest hpc => exact Or.inl (hclose i)
  | hubClose c i cs => exact Or.inl (hclose i)

theorem Served.step_of_open (hs : h.Served i) (hinv : h.Inv cfg) (hf : h.Flow)
    (hord : i < h.nsubs → orderly cfg i h l = true) (hun : i < h.nsubs → h.Unlost i)
    (hl : h.step cfg l = some h') : h'.Served i := by
  by_cases hi : i < h.nsubs
  · exact hs.step hinv hf (hord hi) (hun hi) hl
  rcases nsubs_step hinv hl with hnsubs | ⟨tenant, user, lastID, ok, rfl⟩
  · intro hopen
    rw [(hinv.step hl).fresh i (hnsubs ▸ Nat.le_of_not_lt hi)] at hopen
    cases hopen
  · cases hl
    exact hs.subscribe hinv hf tenant user lastID ok

/-! ## Subscriptions without a last id -/

def running : LoopPc → Bool
  | .stopped => false
  | .waiting | .batch _ | .pushing _ _ _ | .closing _ _ _ _ => true

theorem running_of_ne {pc : LoopPc} (h : pc ≠ .stopped) : running pc = true := by
  cases pc <;> first | rfl | exact absurd rfl h

def reach (t : TenantSub) : ℕ := t.pos + t.pc.rest.length

/-- No entry is trimmed before the tenant's loop has read it. -/
def readFirst (h : Hub) : Step → Bool
  | .trim k n => (List.range h.nobjs).all fun o =>
    !(h.tenants (h.objs o).tenant == some o && key (h.objs o).tenant == k &&
      running (h.objs o).pc) ||
      decide (h.bus.gone k + n ≤ reach (h.objs o))
  | _ => true

def Kept (h : Hub) : Prop := ∀ t o, h.tenants t = some o → (h.objs o).pc ≠ .stopped →
  h.bus.gone (key t) ≤ reach (h.objs o)

theorem Kept.setObj (hk : h.Kept) (o : ℕ) (t : TenantSub)
    (ht : t.pc ≠ .stopped → (h.objs o).pc ≠ .stopped ∧ (reach (h.objs o) ≤ reach t ∨
      ∀ t', h.tenants t' = some o → h.bus.gone (key t') ≤ reach t)) : (h.setObj o t).Kept := by
  intro t' o' ho' hpc
  by_cases hoo : o' = o
  · subst hoo
    have hobj : (h.setObj o' t).objs o' = t := Function.update_self ..
    rw [hobj] at hpc ⊢
    obtain ⟨hold, hle | hle⟩ := ht hpc
    · exact (hk t' o' ho' hold).trans hle
    · exact hle t' ho'
  · have hobj : (h.setObj o t).objs o' = h.objs o' := Function.update_of_ne hoo ..
    rw [hobj] at hpc ⊢
    exact hk t' o' ho' hpc

theorem Kept.closeSub (hk : h.Kept) (j : ℕ) : (h.closeSub j).Kept := by
  intro t o ho hpc
  obtain ⟨-, -, hbus, hobjs⟩ := closeSub_frame h j
  rw [(hobjs o).1] at hpc
  rw [hbus, reach, (hobjs o).1, (hobjs o).2.1]
  exact hk t o (closeSub_tenants h j ho) hpc

theorem Kept.subscribe (hk : h.Kept) (hinv : h.Inv cfg) (tenant user lastID : Str) (ok : Bool) :
    (h.subscribe cfg tenant user lastID ok).Kept := by
  rcases subscribe_cases cfg hinv tenant user lastID ok with heq | ⟨-, heq, -⟩
  · rwa [heq]
  rw [heq]
  have hk₁ : (h.tenantSub tenant).1.Kept := by
    unfold Hub.tenantSub
    cases ho : h.tenants tenant with
    | some o => exact hk
    | none =>
      intro t o ho' hpc
      by_cases ht : t = tenant
      · subst ht
        simp only [Function.update_self, Option.some.injEq] at ho'
        subst ho'
        simp only [Function.update_self, reach]
        exact (h.bus.gone_le _).trans (Nat.le_add_right _ _)
      · simp only [Function.update_of_ne ht] at ho'
        simp only [Function.update_of_ne (hinv.entry t o ho').made.ne] at hpc ⊢
        exact hk t o ho' hpc
  intro t o ho hpc
  obtain ⟨hpc', hpos, -⟩ := insert_frame (h.tenantSub tenant).1 (h.tenantSub tenant).2 tenant
    user lastID o
  rw [hpc'] at hpc
  rw [reach, hpc', hpos]
  exact hk₁ t o ho hpc

theorem Kept.step (hk : h.Kept) (hinv : h.Inv cfg) (hread : readFirst h l = true)
    (hl : h.step cfg l = some h') : h'.Kept := by
  cases move_of_step hl with
  | append _ k e hfresh => exact hk
  | refused | reset | replay | replayed | replayPush | receive | hub => exact hk
  | trim k n hn =>
    intro t o ho hpc
    by_cases hkey : key t = k
    · subst hkey
      have ho' : h.tenants t = some o := ho
      have he := hinv.entry t o ho'
      simp only [readFirst, all_eq_true, mem_range] at hread
      have hle := hread o he.made
      simp only [he.tenant, ho', running_of_ne hpc, beq_self_eq_true, Bool.and_self, Bool.not_true,
        Bool.false_or,
        decide_eq_true_eq] at hle
      exact (Bus.trim_gone_self h.bus (key t) n hn).le.trans hle
    · exact (Bus.trim_gone_of_ne h.bus hkey n hn).le.trans (hk t o ho hpc)
  | subscribe tenant user lastID ok => exact hk.subscribe hinv tenant user lastID ok
  | close i => exact hk.closeSub i
  | wait _ o pc hpc hpc' =>
    refine hk.setObj o _ fun _ => ⟨?_, Or.inl ?_⟩
    · rcases hpc with hpc | hpc <;> rw [hpc] <;> exact LoopPc.noConfusion
    · have hnil : (h.objs o).pc.rest = [] := by rcases hpc with hpc | hpc <;> rw [hpc] <;> rfl
      simp only [reach, hnil]
      exact Nat.le_add_right _ _
  | read o n hpc =>
    refine hk.setObj o _ fun _ => ⟨by rw [hpc]; exact LoopPc.noConfusion, Or.inr fun t ht => ?_⟩
    rw [reach, (hinv.entry t o ht).tenant]
    exact (le_max_right _ _).trans (Nat.le_add_right _ _)
  | next o e rest hpc =>
    refine hk.setObj o _ fun _ => ⟨by rw [hpc]; exact LoopPc.noConfusion, Or.inl ?_⟩
    simp only [reach, hpc, LoopPc.rest, length_cons]
    omega
  | dispatched o e rest hpc =>
    refine hk.setObj o _ fun _ => ⟨by rw [hpc]; exact LoopPc.noConfusion, Or.inl ?_⟩
    simp only [reach, hpc, LoopPc.rest]
    exact le_rfl
  | push o i e subs rest hpc hi =>
    refine Kept.setObj (h := h.setSub i _) hk o _ fun _ => ⟨?_, Or.inl ?_⟩
    · simp only [Hub.setSub, hpc]
      exact LoopPc.noConfusion
    · simp only [reach, Hub.setSub, hpc]
      split_ifs <;> exact le_rfl
  | drop o i e subs rest hpc =>
    have hpc' : ((h.closeSub i).objs o).pc = .closing i e subs rest :=
      ((closeSub_frame h i).2.2.2 o).1.trans hpc
    refine (hk.closeSub i).setObj o _ fun _ => ⟨by rw [hpc']; exact LoopPc.noConfusion, Or.inl ?_⟩
    simp only [reach, hpc', LoopPc.rest]
    exact le_rfl
  | hubClose c i cs => exact hk.closeSub i

theorem Kept.unlost (hk : h.Kept) (hf : h.Flow) (hlastID : (h.subs i).lastID = []) :
    h.Unlost i where
  asking hreplay := by
    rw [(hf.plain i hlastID).1] at hreplay
    cases hreplay
  waiting o ho hpc e he := by
    obtain ⟨j, hj, hj', -⟩ := mem_between.1 he
    have := hk _ o ho (by rw [hpc]; exact LoopPc.noConfusion)
    simp only [reach, hpc, LoopPc.rest, length_nil] at this
    omega

theorem less_nil (id : Str) : less [] id = less zeroID id := by
  have h1 : (parseID []).1 = (parseID zeroID).1 := rfl
  have h2 : (parseID []).2.1 = (parseID zeroID).2.1 := rfl
  simp only [less, h1, h2]

theorem Flow.orderly (hf : h.Flow) (hlastID : (h.subs i).lastID = [])
    (hl : h.step cfg l = some h') :
    orderly cfg i h l = true := by
  have hdone := (hf.plain i hlastID).1
  cases l with
  | push o j =>
    simp only [Hub.orderly, Bool.or_eq_true, bne_iff_ne, ne_eq]
    right
    split
    · next e subs rest hpc =>
      have hloop := hf.loop o (hf.made (by rw [hpc]; exact LoopPc.noConfusion))
      have hmem := mem_of_getElem? (hloop.current e (by rw [hpc]; rfl)).2
      have hless : less (h.subs i).lastID e.id = true := by
        rw [hlastID, less_nil]
        exact h.bus.positive _ e hmem
      simp [hdone, hless]
    · rfl
  | replay j now ok =>
    by_cases hij : j = i
    · subst hij
      simp [Hub.step, hdone] at hl
    · simp [Hub.orderly, hij]
  | replayPush j => simp [Hub.orderly, hdone]
  | append | publish | trim | subscribe | receive | close | read | stop | next | drop | hubCancel
  | hubCollect | hubClose
  | hubReturn => rfl

/-- Opened subscriptions know where their stream and its loop stood. -/
def Dated (h : Hub) : Prop := ∀ i < h.nsubs, (h.subs i).first ≤ (h.subs i).since ∧
  (h.subs i).since ≤ (h.bus.log (key (h.subs i).tenant)).length

theorem log_step (hinv : h.Inv cfg) (hf : h.Flow) (hl : h.step cfg l = some h') (k : Str) :
    h.bus.log k <+: h'.bus.log k := by
  have hclose : ∀ i, h.bus.log k <+: (h.closeSub i).bus.log k :=
    fun i => by rw [(closeSub_frame h i).2.2.1]
  cases move_of_step hl with
  | append _ k' e hfresh => exact Bus.log_prefix_xAdd k' e hfresh k
  | refused | trim | wait | read | next | dispatched | hub | reset | replay | replayed | replayPush
  | receive | push =>
    exact prefix_rfl
  | subscribe tenant user lastID ok =>
    rcases subscribe_subs hinv hf tenant user lastID ok with heq | ⟨-, hbus, -⟩
    · rw [heq]
    · rw [hbus]
  | close i => exact hclose i
  | drop o i e subs rest hpc => exact hclose i
  | hubClose c i cs => exact hclose i

theorem Dated.step (hd : h.Dated) (hinv : h.Inv cfg) (hf : h.Flow) (hl : h.step cfg l = some h') :
    h'.Dated := by
  intro i hi
  by_cases hold : i < h.nsubs
  · have hfixed := fixed_step hinv hf hl hold
    simp only [fixed, Prod.mk.injEq] at hfixed
    obtain ⟨htenant, -, -, hfirst, hsince⟩ := hfixed
    rw [htenant, hfirst, hsince]
    exact ⟨(hd i hold).1, (hd i hold).2.trans (log_step hinv hf hl _).length_le⟩
  rcases nsubs_step hinv hl with hnsubs | ⟨tenant, user, lastID, ok, rfl⟩
  · exact absurd (hnsubs ▸ hi) hold
  · cases hl
    rcases subscribe_subs hinv hf tenant user lastID ok with heq | ⟨hnsubs, hbus, -, n, hn, hfixed⟩
    · rw [heq] at hi
      exact absurd hi hold
    · obtain rfl : i = h.nsubs := by omega
      simp only [fixed, Prod.mk.injEq] at hfixed
      obtain ⟨htenant, -, -, hfirst, hsince⟩ := hfixed
      rw [htenant, hfirst, hsince, hbus]
      exact ⟨hn, le_rfl⟩

structure Live (cfg : Config) (h : Hub) : Prop where
  inv : h.Inv cfg
  flow : h.Flow
  kept : h.Kept
  dated : h.Dated
  served : ∀ i, (h.subs i).lastID = [] → h.Served i

theorem Live.step (hlive : h.Live cfg) (hread : readFirst h l = true)
    (hl : h.step cfg l = some h') :
    h'.Live cfg where
  inv := hlive.inv.step hl
  flow := hlive.flow.step hlive.inv hl
  kept := hlive.kept.step hlive.inv hread hl
  dated := hlive.dated.step hlive.inv hlive.flow hl
  served i hnil := by
    have hlastID : i < h.nsubs → (h.subs i).lastID = [] := fun hi => by
      have hfixed := fixed_step hlive.inv hlive.flow hl hi
      simp only [fixed, Prod.mk.injEq] at hfixed
      rw [← hfixed.2.2.1, hnil]
    have hs : h.Served i := by
      by_cases hi : i < h.nsubs
      · exact hlive.served i (hlastID hi)
      · intro hopen
        rw [hlive.inv.fresh i (Nat.le_of_not_lt hi)] at hopen
        cases hopen
    exact hs.step_of_open hlive.inv hlive.flow (fun hi => hlive.flow.orderly (hlastID hi) hl)
      (fun hi => hlive.kept.unlost hlive.flow (hlastID hi)) hl

theorem live_new (cfg : Config) (bus : Bus) : (new bus).Live cfg where
  inv := inv_new cfg bus
  flow := flow_new bus
  kept t o ho := by cases ho
  dated i hi := absurd hi (Nat.not_lt_zero i)
  served i _ hopen := by cases hopen

/-- **An open subscription without a last id has got, in order and each once, the entries for its
    user that its tenant's loop has passed since `first`, which is no later than when it was opened;
    all of them, unless the loop is about to push the last one or to close it.  So when the loop has
    passed the whole stream it has got every entry for its user since it was opened, and one that
    missed an entry is closed.** -/
theorem delivered_live (cfg : Config) {bus : Bus} {ls : List Step} {h : Hub}
    (hpath : Path (step cfg) (fun h l => readFirst h l = true) (new bus) ls h) {i : ℕ}
    (hopen : (h.subs i).closed = false) (hlastID : (h.subs i).lastID = []) :
    let s := h.subs i
    let log := h.bus.log (key s.tenant)
    s.first ≤ s.since ∧ s.since ≤ log.length ∧
      s.delivered <+: ((log.drop s.first).filter (Entry.isFor s.user)).map Entry.event ∧
      s.delivered.Pairwise (fun a b => less a.id b.id = true) ∧
      ∃ o, h.tenants s.tenant = some o ∧
        (i ∉ (h.objs o).pc.pending →
          s.delivered = (((log.take (h.objs o).pos).drop s.first).filter (Entry.isFor s.user)).map
            Entry.event ∧
            ((h.objs o).pos = log.length →
              s.delivered = ((log.drop s.first).filter (Entry.isFor s.user)).map Entry.event)) := by
  intro s log
  have hlive : h.Live cfg :=
    hpath.invariant (fun h l h' hh hread hl => hh.step hread hl) (live_new cfg bus)
  obtain ⟨o, ho⟩ := Option.isSome_iff_exists.1 (hlive.inv.open_ i hopen)
  obtain ⟨hdone, hreset, hknown⟩ := hlive.flow.plain i hlastID
  have hserved := hlive.served i hlastID hopen hreset o ho
  have hi : i < h.nsubs := by
    by_contra hlt
    rw [hlive.inv.fresh i (Nat.le_of_not_lt hlt)] at hopen
    cases hopen
  have hwanted : ∀ e ∈ log, s.wanted e = e.isFor s.user := by
    intro e he
    rw [Sub.wanted, hlastID, less_nil, h.bus.positive _ e he, Bool.true_and]
  have hdelivered : s.delivered = want (Entry.isFor s.user) s.first (passed i (h.objs o)) log := by
    rw [hserved.done hdone, hknown, Nat.zero_max, want_congr hwanted]
    exact congrArg (want _ · _ _) (if_pos hlastID)
  obtain ⟨hsince, hlen⟩ := hlive.dated i hi
  refine ⟨hsince, hlen, ?_, ?_, o, ho, fun hpending => ?_⟩
  · rw [hdelivered]
    exact want_prefix
  · rw [hdelivered, want, pairwise_map]
    exact (h.bus.ascending _).sublist
      (filter_sublist.trans ((drop_sublist _ _).trans (take_sublist _ _)))
  · rw [passed_of_not_mem hpending] at hdelivered
    refine ⟨hdelivered, fun hpos => ?_⟩
    rw [hdelivered, want, hpos, take_length]

/-- A subscription that got the first of two published events, the second being on its way. -/
theorem delivered_live_two : ∃ (cfg : Config) (ls : List Step) (h : Hub),
    Path (step cfg) (fun h l => readFirst h l = true) (new Bus.empty) ls h ∧
    (h.subs 0).received.length = 1 ∧
      (h.subs 0).delivered <+:
        (((h.bus.log (key (h.subs 0).tenant)).drop (h.subs 0).first).filter
          (Entry.isFor (h.subs 0).user)).map
          Entry.event := by
  let p : Publish := ⟨[str "u"], false, str "zone", str "1", true, true, 0⟩
  obtain ⟨h, hpath, hh⟩ := exists_path (step ⟨0, 0, 0, 0⟩) (fun h l => readFirst h l = true)
    (new Bus.empty)
    [.subscribe (str "t") (str "u") [] true, .publish (str "t") p (str "1-1"),
      .publish (str "t") p (str "1-2"),
      .read 0 (some 100), .next 0, .push 0 0, .next 0, .next 0, .receive 0]
    (fun h => !(h.subs 0).closed && (h.subs 0).lastID == [] && (h.subs 0).received.length == 1)
      (by decide +kernel)
  simp only [Bool.and_eq_true, Bool.not_eq_true', beq_iff_eq] at hh
  exact ⟨_, _, h, hpath, hh.2, (delivered_live _ hpath hh.1.1 hh.1.2).2.2.1⟩

/-! ## Subscriptions with a last id -/

/-- The stream of the subscription `i` is not trimmed past its last id. -/
def spares (i : ℕ) (h : Hub) : Step → Bool
  | .trim k n => !(decide (i < h.nsubs) && k == key (h.subs i).tenant) ||
    ((h.bus.log k).take (h.bus.gone k + n)).all fun e => !less (h.subs i).lastID e.id
  | .subscribe tenant _ lastID _ => h.nsubs != i ||
    ((h.bus.log (key tenant)).take (h.bus.gone (key tenant))).all fun e => !less lastID e.id
  | _ => true

def Spared (i : ℕ) (h : Hub) : Prop := i < h.nsubs →
  ∀ e ∈ (h.bus.log (key (h.subs i).tenant)).take (h.bus.gone (key (h.subs i).tenant)),
    less (h.subs i).lastID e.id = false

theorem Spared.unlost (hsp : Spared i h) (hi : i < h.nsubs) : h.Unlost i where
  asking _ := hsp hi
  waiting o _ _ e he := by
    rw [Sub.wanted, hsp hi e (mem_of_mem_drop he), Bool.false_and]

theorem Spared.step (hsp : Spared i h) (hinv : h.Inv cfg) (hf : h.Flow)
    (hspares : spares i h l = true)
    (hl : h.step cfg l = some h') : Spared i h' := by
  intro hi
  by_cases hold : i < h.nsubs
  · have hfixed := fixed_step hinv hf hl hold
    simp only [fixed, Prod.mk.injEq] at hfixed
    obtain ⟨htenant, -, hlastID, -⟩ := hfixed
    have hsame : h'.bus = h.bus → ∀ e ∈ (h'.bus.log (key (h'.subs i).tenant)).take
        (h'.bus.gone (key (h'.subs i).tenant)),
        less (h'.subs i).lastID e.id = false := by
      intro hbus
      rw [hbus, htenant, hlastID]
      exact hsp hold
    have hclose : ∀ j, (h.closeSub j).bus = h.bus := fun j => (closeSub_frame h j).2.2.1
    cases move_of_step hl with
    | append _ k e hfresh =>
      have htake : ((h.bus.xAdd k e hfresh).log (key (h.subs i).tenant)).take
          (h.bus.gone (key (h.subs i).tenant)) =
          (h.bus.log (key (h.subs i).tenant)).take (h.bus.gone (key (h.subs i).tenant)) := by
        obtain ⟨r, hr⟩ := Bus.log_prefix_xAdd k e hfresh (key (h.subs i).tenant)
        rw [← hr, take_append_of_le_length (h.bus.gone_le _)]
      exact fun e' he' => hsp hold e' (htake ▸ he')
    | trim k n hn =>
      intro e he
      by_cases hk : key (h.subs i).tenant = k
      · subst hk
        simp only [spares, hold, decide_true, beq_self_eq_true, Bool.and_self, Bool.not_true,
          Bool.false_or,
          all_eq_true, Bool.not_eq_true'] at hspares
        refine hspares e ?_
        rw [← Bus.trim_gone_self h.bus _ n hn]
        exact he
      · refine hsp hold e ?_
        rw [← Bus.trim_gone_of_ne h.bus hk n hn]
        exact he
    | subscribe tenant user lastID ok =>
      rcases subscribe_subs hinv hf tenant user lastID ok with heq | ⟨-, hbus, -⟩
      · exact hsame (by rw [heq])
      · exact hsame hbus
    | refused | wait | read | next | dispatched | hub | reset | replay | replayed | replayPush
    | receive | push =>
      exact hsame rfl
    | close j => exact hsame (hclose j)
    | drop o j e subs rest hpc => exact hsame (hclose j)
    | hubClose c j cs => exact hsame (hclose j)
  rcases nsubs_step hinv hl with hnsubs | ⟨tenant, user, lastID, ok, rfl⟩
  · exact absurd (hnsubs ▸ hi) hold
  · cases hl
    rcases subscribe_subs hinv hf tenant user lastID ok with heq | ⟨hnsubs, hbus, -, n, hn, hfixed⟩
    · rw [heq] at hi
      exact absurd hi hold
    · obtain rfl : i = h.nsubs := by omega
      simp only [fixed, Prod.mk.injEq] at hfixed
      obtain ⟨htenant, -, hlastID, -⟩ := hfixed
      rw [htenant, hlastID, hbus]
      simpa [spares] using hspares

/-- **If the steps of a run are orderly for a subscription with a last id, and its stream is not
    trimmed past that id, then, while it is open and was sent no reset, what it has received is a
    prefix of the entries after the last id that are for its user.** -/
theorem delivered_after_replay (cfg : Config) (i : ℕ) {bus : Bus} {ls : List Step} {h : Hub}
    (hpath : Path (step cfg) (fun h l => (orderly cfg i h l && spares i h l) = true) (new bus) ls h)
    (hopen : (h.subs i).closed = false) (hreset : (h.subs i).reset = false)
    (hlastID : (h.subs i).lastID ≠ []) :
    (h.subs i).received <+:
      ((h.bus.log (key (h.subs i).tenant)).filter
        (fun e => less (h.subs i).lastID e.id && e.isFor (h.subs i).user)).map
        Entry.event := by
  obtain ⟨hinv, hf, -, hs⟩ := hpath.invariant (I := fun h => h.Inv cfg ∧ h.Flow ∧
    Spared i h ∧ h.Served i)
    (fun h l h' hh hC hl => by
      obtain ⟨hinv, hf, hsp, hs⟩ := hh
      rw [Bool.and_eq_true] at hC
      exact ⟨hinv.step hl, hf.step hinv hl, hsp.step hinv hf hC.2 hl,
        hs.step_of_open hinv hf (fun _ => hC.1) (fun hi => hsp.unlost hi) hl⟩)
    ⟨inv_new cfg bus, flow_new bus, fun hi => absurd hi (Nat.not_lt_zero i),
      fun hopen => by cases hopen⟩
  obtain ⟨o, ho⟩ := Option.isSome_iff_exists.1 (hinv.open_ i hopen)
  have hserved := hs hopen hreset o ho
  have hreceived : (h.subs i).received <+: (h.subs i).delivered := prefix_append _ _
  refine hreceived.trans ?_
  cases hreplay : (h.subs i).replay with
  | asking =>
    rw [hserved.asking hreplay]
    exact nil_prefix
  | pushing rest =>
    obtain ⟨⟨done, hsplit, hdelivered⟩, -⟩ := hserved.pushing rest hreplay
    have hpre : done <+: (h.bus.log (key (h.subs i).tenant)).filter fun e =>
        less (h.subs i).lastID e.id :=
      (prefix_append done rest).trans (hsplit ▸ (List.take_prefix _ _).filter _)
    rw [hdelivered]
    refine List.IsPrefix.map _ ((hpre.filter _).trans ?_)
    rw [List.filter_filter]
    simp only [Bool.and_comm]
    exact prefix_rfl
  | done =>
    rw [hserved.done hreplay, show (h.subs i).start = 0 from if_neg hlastID]
    exact want_prefix

/-- Three entries for everyone; a subscription after the first of them gets the second by its replay
    and the third live. -/
theorem delivered_after_replay_two : ∃ (cfg : Config) (ls : List Step) (h : Hub),
    Path (step cfg) (fun h l => (orderly cfg 1 h l && spares 1 h l) = true) (new Bus.empty) ls h ∧
      (h.subs 1).received.length = 2 ∧
      (h.subs 1).received <+:
        ((h.bus.log (key (h.subs 1).tenant)).filter
          (fun e => less (h.subs 1).lastID e.id && e.isFor (h.subs 1).user)).map Entry.event := by
  let entry (id : String) : Entry := ⟨str id, fun k => if k = str "to" then str "*" else []⟩
  let k := key (str "t")
  obtain ⟨h, hpath, hh⟩ := exists_path (step ⟨0, 0, 0, 0⟩)
    (fun h l => (orderly ⟨0, 0, 0, 0⟩ 1 h l && spares 1 h l) = true) (new Bus.empty)
    [.subscribe (str "t") (str "u") [] true, .append k (entry "1-1"), .append k (entry "2-1"),
      .read 0 (some 100),
      .next 0, .push 0 0, .next 0, .next 0, .push 0 0, .next 0, .next 0,
      .subscribe (str "t") (str "v") (str "1-1") true, .append k (entry "3-1"), .replay 1 0 true,
        .replayPush 1,
      .replayPush 1, .replayPush 1, .read 0 (some 100), .next 0, .push 0 1, .receive 1, .receive 1]
    (fun h => !(h.subs 1).closed && !(h.subs 1).reset && (h.subs 1).lastID != [] &&
      (h.subs 1).received.length == 2)
    (by decide +kernel)
  simp only [Bool.and_eq_true, Bool.not_eq_true', bne_iff_ne, ne_eq, beq_iff_eq] at hh
  exact ⟨_, _, h, hpath, hh.2, delivered_after_replay _ 1 hpath hh.1.1.1 hh.1.1.2 hh.1.2⟩

/-- The third entry is dispatched between the subscription's opening and its replay, which then
    takes the second one for delivered: it is lost, and the subscription stays open. -/
theorem replay_gap : ∃ (cfg : Config) (ls : List Step) (h : Hub),
    Path (step cfg) (fun h l => spares 1 h l = true) (new Bus.empty) ls h ∧
      (h.subs 1).closed = false ∧ (h.subs 1).reset = false ∧ (h.subs 1).lastID = str "1-1" ∧
      ¬(h.subs 1).received <+:
        ((h.bus.log (key (h.subs 1).tenant)).filter
          (fun e => less (h.subs 1).lastID e.id && e.isFor (h.subs 1).user)).map Entry.event := by
  let entry (id : String) : Entry := ⟨str id, fun k => if k = str "to" then str "*" else []⟩
  let k := key (str "t")
  obtain ⟨h, hpath, hh⟩ := exists_path (step ⟨0, 0, 0, 0⟩) (fun h l => spares 1 h l = true)
    (new Bus.empty)
    [.subscribe (str "t") (str "u") [] true, .append k (entry "1-1"), .append k (entry "2-1"),
      .read 0 (some 100),
      .next 0, .push 0 0, .next 0, .next 0, .push 0 0, .next 0, .next 0,
      .subscribe (str "t") (str "v") (str "1-1") true, .append k (entry "3-1"),
        .read 0 (some 100), .next 0,
      .push 0 1, .replay 1 0 true, .replayPush 1, .replayPush 1, .replayPush 1, .receive 1]
    (fun h => !(h.subs 1).closed && !(h.subs 1).reset && (h.subs 1).lastID == str "1-1" &&
      decide (¬(h.subs 1).received <+: ((h.bus.log (key (h.subs 1).tenant)).filter
        (fun e => less (h.subs 1).lastID e.id && e.isFor (h.subs 1).user)).map Entry.event))
    (by decide +kernel)
  simp only [Bool.and_eq_true, Bool.not_eq_true', beq_iff_eq, decide_eq_true_eq] at hh
  exact ⟨_, _, h, hpath, hh.1.1.1, hh.1.1.2, hh.1.2, hh.2⟩

end Hub

end TangraDns.Streams
