/-
  The hub's bookkeeping: which subscriptions are open, counted and fanned out to.
-/
import Mathlib.Algebra.BigOperators.Group.Finset.Basic
import Mathlib.Algebra.GroupWithZero.Nat
import TangraDns.Streams.Hub

namespace TangraDns.Streams

open List Str Machine

variable {cfg : Config}
variable {l : Step} {t : Str} {o : ℕ}

theorem Config.streamsPerUser_pos (c : Config) : 0 < c.effective.streamsPerUser := by
  unfold Config.effective
  dsimp only
  split_ifs <;> omega

theorem Config.streamsPerTenant_pos (c : Config) : 0 < c.effective.streamsPerTenant := by
  unfold Config.effective
  dsimp only
  split_ifs <;> omega

theorem apply_update_eq {ι α β : Type} [DecidableEq ι] (f : α → β) (g : ι → α) {i : ι} {a : α}
    (h : f a = f (g i))
    (j : ι) : f (Function.update g i a j) = f (g j) := by
  by_cases hj : j = i
  · subst hj
    rw [Function.update_self, h]
  · rw [Function.update_of_ne hj]

namespace Hub

variable {h h' : Hub}
variable {i : ℕ}

/-- How many of the subscriptions of `o` are the user's. -/
def counted (h : Hub) (o : ℕ) (u : Str) : ℕ := (h.objs o).conns.countP fun i =>
    decide ((h.subs i).user = u)

/-! ## Quiet steps -/

structure Quiet (h h' : Hub) : Prop where
  tenants : h'.tenants = h.tenants
  nobjs : h'.nobjs = h.nobjs
  nsubs : h'.nsubs = h.nsubs
  tenant : ∀ o, (h'.objs o).tenant = (h.objs o).tenant
  conns : ∀ o, (h'.objs o).conns = (h.objs o).conns
  byUser : ∀ o, (h'.objs o).byUser = (h.objs o).byUser
  cancelled : ∀ o, (h'.objs o).cancelled = (h.objs o).cancelled
  subTenant : ∀ i, (h'.subs i).tenant = (h.subs i).tenant
  user : ∀ i, (h'.subs i).user = (h.subs i).user
  once : ∀ i, (h'.subs i).once = (h.subs i).once
  closed : ∀ i, (h'.subs i).closed = (h.subs i).closed
  chanClosed : ∀ i, (h'.subs i).chanClosed = (h.subs i).chanClosed
  panicked : ∀ i, (h'.subs i).panicked = (h.subs i).panicked

namespace Quiet

theorem setBus (h : Hub) (b : Bus) :
    Quiet h { h with bus := b } := by constructor <;> intros <;> rfl

theorem setClosers (h : Hub) (ctxDone : Bool) (cs : ℕ → CloserPc) :
    Quiet h { h with ctxDone := ctxDone, closers := cs } := by constructor <;> intros <;> rfl

theorem setSub {i : ℕ} {s : Sub} (htenant : s.tenant = (h.subs i).tenant)
    (huser : s.user = (h.subs i).user)
    (honce : s.once = (h.subs i).once) (hclosed : s.closed = (h.subs i).closed)
    (hchan : s.chanClosed = (h.subs i).chanClosed) (hpanic : s.panicked = (h.subs i).panicked) :
    Quiet h (h.setSub i s) := by
  refine ⟨rfl, rfl, rfl, fun _ => rfl, fun _ => rfl, fun _ => rfl, fun _ => rfl, ?_, ?_,
    ?_, ?_, ?_, ?_⟩
  · exact apply_update_eq Sub.tenant h.subs htenant
  · exact apply_update_eq Sub.user h.subs huser
  · exact apply_update_eq Sub.once h.subs honce
  · exact apply_update_eq Sub.closed h.subs hclosed
  · exact apply_update_eq Sub.chanClosed h.subs hchan
  · exact apply_update_eq Sub.panicked h.subs hpanic

theorem setObj (h : Hub) (o : ℕ) (last : Str) (pc : LoopPc) (pos : ℕ) :
    Quiet h (h.setObj o { h.objs o with last := last, pc := pc, pos := pos }) := by
  refine ⟨rfl, rfl, rfl, ?_, ?_, ?_, ?_, fun _ => rfl, fun _ => rfl, fun _ => rfl, fun _ => rfl,
    fun _ => rfl,
    fun _ => rfl⟩
  · exact apply_update_eq TenantSub.tenant h.objs rfl
  · exact apply_update_eq TenantSub.conns h.objs rfl
  · exact apply_update_eq TenantSub.byUser h.objs rfl
  · exact apply_update_eq TenantSub.cancelled h.objs rfl

theorem goto (h : Hub) (o : ℕ) (pc : LoopPc) : Quiet h (h.goto o pc) := setObj h o _ pc _

theorem counted (q : Quiet h h') (o : ℕ) (u : Str) : h'.counted o u = h.counted o u := by
  simp only [Hub.counted, q.conns, q.user]

end Quiet

theorem push_frame {s : Sub} (hs : s.chanClosed = s.closed) (ev : Event) :
    (s.push ev).1.tenant = s.tenant ∧ (s.push ev).1.user = s.user ∧ (s.push ev).1.once = s.once ∧
      (s.push ev).1.closed = s.closed ∧ (s.push ev).1.chanClosed = s.chanClosed ∧
      (s.push ev).1.panicked = s.panicked := by
  unfold Sub.push
  split
  · exact ⟨rfl, rfl, rfl, rfl, rfl, rfl⟩
  · next hdrops =>
    have hopen : s.chanClosed = false := by
      rw [hs]
      rw [Sub.drops, Bool.or_eq_true, not_or, Bool.not_eq_true] at hdrops
      exact hdrops.1
    dsimp only
    split_ifs <;> simp_all

/-! ## The invariant -/

/-- The entry of the tenant `t` lists the tenant's open subscriptions and counts them. -/
structure EntryOK (cfg : Config) (h : Hub) (t : Str) (o : ℕ) : Prop where
  made : o < h.nobjs
  tenant : (h.objs o).tenant = t
  running : (h.objs o).cancelled = false
  nodup : (h.objs o).conns.Nodup
  conns : ∀ i, i ∈ (h.objs o).conns ↔ (h.subs i).closed = false ∧ (h.subs i).tenant = t
  counter : ∀ u, (h.objs o).byUser.lookup u = if h.counted o u = 0 then none
    else some (h.counted o u)
  perUser : ∀ u, (h.counted o u : ℤ) ≤ cfg.effective.streamsPerUser
  perTenant : ((h.objs o).conns.length : ℤ) ≤ cfg.effective.streamsPerTenant

structure Base (cfg : Config) (h : Hub) : Prop where
  once : ∀ i, (h.subs i).once = (h.subs i).closed
  chanClosed : ∀ i, (h.subs i).chanClosed = (h.subs i).closed
  panicked : ∀ i, (h.subs i).panicked = false
  fresh : ∀ i, h.nsubs ≤ i → (h.subs i).closed = true
  entry : ∀ t o, h.tenants t = some o → EntryOK cfg h t o
  loop : ∀ o, (h.objs o).cancelled = false → h.tenants (h.objs o).tenant = some o
  empty : ∀ o, (h.objs o).cancelled = true → (h.objs o).conns = []
  open_ : ∀ i, (h.subs i).closed = false → (h.tenants (h.subs i).tenant).isSome = true

structure Inv (cfg : Config) (h : Hub) : Prop extends Base cfg h where
  nonempty : ∀ t o, h.tenants t = some o → (h.objs o).conns ≠ []

theorem inv_new (cfg : Config) (bus : Bus) : (new bus).Inv cfg where
  once _ := rfl
  chanClosed _ := rfl
  panicked _ := rfl
  fresh _ _ := rfl
  entry t o ho := by cases ho
  loop o ho := by cases ho
  empty o _ := rfl
  open_ i hi := by cases hi
  nonempty t o ho := by cases ho

theorem Inv.quiet (hinv : h.Inv cfg) (q : Quiet h h') : h'.Inv cfg where
  once i := by rw [q.once, q.closed, hinv.once]
  chanClosed i := by rw [q.chanClosed, q.closed, hinv.chanClosed]
  panicked i := by rw [q.panicked, hinv.panicked]
  fresh i hi := by
    rw [q.nsubs] at hi
    rw [q.closed, hinv.fresh i hi]
  entry t o ho := by
    rw [q.tenants] at ho
    have he := hinv.entry t o ho
    refine ⟨by rw [q.nobjs]; exact he.made, by rw [q.tenant]; exact he.tenant,
      by rw [q.cancelled]; exact he.running,
      by rw [q.conns]; exact he.nodup, fun i => ?_, fun u => ?_, fun u => ?_, ?_⟩
    · rw [q.conns, q.closed, q.subTenant]
      exact he.conns i
    · rw [q.byUser, q.counted]
      exact he.counter u
    · rw [q.counted]
      exact he.perUser u
    · rw [q.conns]
      exact he.perTenant
  loop o hc := by
    rw [q.cancelled] at hc
    rw [q.tenants, q.tenant]
    exact hinv.loop o hc
  empty o hc := by
    rw [q.cancelled] at hc
    rw [q.conns, hinv.empty o hc]
  open_ i hi := by
    rw [q.closed] at hi
    rw [q.tenants, q.subTenant]
    exact hinv.open_ i hi
  nonempty t o ho := by
    rw [q.tenants] at ho
    rw [q.conns]
    exact hinv.nonempty t o ho

theorem Inv.of_mem_conns (hinv : h.Inv cfg) (hi : i ∈ (h.objs o).conns) :
    (h.subs i).closed = false ∧ (h.subs i).tenant = (h.objs o).tenant ∧
    h.tenants (h.subs i).tenant = some o := by
  cases hc : (h.objs o).cancelled with
  | true =>
    rw [hinv.empty o hc] at hi
    cases hi
  | false =>
    have ho := hinv.loop o hc
    obtain ⟨hopen, htenant⟩ := ((hinv.entry _ o ho).conns i).1 hi
    exact ⟨hopen, htenant, htenant ▸ ho⟩

theorem Inv.nodup_conns (hinv : h.Inv cfg) (o : ℕ) : (h.objs o).conns.Nodup := by
  cases hc : (h.objs o).cancelled with
  | true =>
    rw [hinv.empty o hc]
    exact nodup_nil
  | false => exact (hinv.entry _ o (hinv.loop o hc)).nodup

/-! ## A subscription closes -/

theorem countP_erase_user {conns : List ℕ} (hi : i ∈ conns) (user : ℕ → Str) (u : Str) :
    (conns.erase i).countP (fun j => decide (user j = u)) =
      conns.countP (fun j => decide (user j = u)) - if user i = u then 1 else 0 := by
  rw [(perm_cons_erase hi).countP_eq, countP_cons]
  simp

theorem EntryOK.counter_remove (he : EntryOK cfg h t o) (hi : i ∈ (h.objs o).conns) (u : Str) :
    (Hub.remove (h.objs o) i (h.subs i).user).byUser.lookup u =
      let n := h.counted o u - if (h.subs i).user = u then 1 else 0
      if n = 0 then none else some n := by
  have hpos : h.counted o (h.subs i).user ≠ 0 := by
    refine (countP_pos_iff.2 ⟨i, hi, ?_⟩).ne'
    exact decide_eq_true rfl
  have hn : ((h.objs o).byUser.lookup (h.subs i).user).getD 0 - 1 =
      h.counted o (h.subs i).user - 1 := by
    rw [he.counter, if_neg hpos]
    rfl
  simp only [Hub.remove, hn]
  by_cases hu : u = (h.subs i).user
  · subst hu
    simp only [if_true]
    split_ifs with hzero
    · exact AList.lookup_erase _ _
    · exact AList.lookup_insert _
  · rw [if_neg (Ne.symm hu), Nat.sub_zero, ← he.counter u]
    split_ifs
    · exact AList.lookup_erase_ne hu
    · exact AList.lookup_insert_ne hu

theorem EntryOK.remove (he : EntryOK cfg h t o) (hi : i ∈ (h.objs o).conns)
    (h₁ : Hub) (hsubs : h₁.subs = Function.update h.subs i (h.subs i).shut)
    (hnobjs : h₁.nobjs = h.nobjs)
    (hobj : h₁.objs o = Hub.remove (h.objs o) i (h.subs i).user) : EntryOK cfg h₁ t o := by
  have hconns : (h₁.objs o).conns = (h.objs o).conns.erase i := by rw [hobj]; rfl
  have huser : ∀ j, (h₁.subs j).user = (h.subs j).user := by
    rw [hsubs]
    exact apply_update_eq Sub.user h.subs rfl
  have hcounted : ∀ u, h₁.counted o u = h.counted o u - if (h.subs i).user = u then 1 else 0 := by
    intro u
    unfold counted
    simp only [hconns, huser]
    exact countP_erase_user hi _ u
  refine ⟨hnobjs ▸ he.made, by rw [hobj]; exact he.tenant, by rw [hobj]; exact he.running,
    by rw [hconns]; exact he.nodup.erase i, fun j => ?_, fun u => ?_, fun u => ?_, ?_⟩
  · rw [hconns, he.nodup.mem_erase_iff, he.conns j, hsubs]
    by_cases hj : j = i
    · subst hj
      simp [Sub.shut]
    · simp [hj]
  · rw [hcounted, hobj]
    exact he.counter_remove hi u
  · rw [hcounted]
    have := he.perUser u
    omega
  · rw [hconns]
    have := he.perTenant
    have := length_erase_le (a := i) (l := (h.objs o).conns)
    omega

theorem EntryOK.other (he : EntryOK cfg h t o) (ht : (h.subs i).tenant ≠ t) (h₁ : Hub)
    (hsubs : h₁.subs = Function.update h.subs i (h.subs i).shut) (hnobjs : h₁.nobjs = h.nobjs)
    (hobj : h₁.objs o = h.objs o) : EntryOK cfg h₁ t o := by
  have huser : ∀ j, (h₁.subs j).user = (h.subs j).user := by
    rw [hsubs]
    exact apply_update_eq Sub.user h.subs rfl
  have hcounted : ∀ u, h₁.counted o u = h.counted o u := by
    intro u
    simp only [counted, hobj, huser]
  refine ⟨hnobjs ▸ he.made, hobj ▸ he.tenant, hobj ▸ he.running, hobj ▸ he.nodup, fun j => ?_,
    fun u => ?_,
    fun u => hcounted u ▸ he.perUser u, hobj ▸ he.perTenant⟩
  · rw [hobj, he.conns j, hsubs]
    by_cases hj : j = i
    · subst hj
      simp [Sub.shut, ht]
    · simp [hj]
  · rw [hobj, hcounted]
    exact he.counter u

theorem closeSub_eq (hinv : h.Inv cfg) (hopen : (h.subs i).closed = false)
    (ho : h.tenants (h.subs i).tenant = some o) :
    h.closeSub i =
      let t := Hub.remove (h.objs o) i (h.subs i).user
      if t.conns = [] then
        { h with
          subs := Function.update h.subs i (h.subs i).shut
          objs := Function.update h.objs o { t with cancelled := true }
          tenants := Function.update h.tenants (h.subs i).tenant none }
      else
        { h with
          subs := Function.update h.subs i (h.subs i).shut
          objs := Function.update h.objs o t } := by
  unfold Hub.closeSub
  dsimp only
  rw [if_neg (by rw [hinv.once, hopen]; exact Bool.false_ne_true), ho]

theorem closeSub_of_closed (hinv : h.Inv cfg) (hclosed : (h.subs i).closed = true) :
    h.closeSub i = h := by
  unfold Hub.closeSub
  rw [if_pos (by rw [hinv.once, hclosed])]

theorem Inv.shut (hinv : h.Inv cfg) (i : ℕ) :
    let subs := Function.update h.subs i (h.subs i).shut
    (h.subs i).closed = false → (∀ j, (subs j).once = (subs j).closed) ∧
      (∀ j, (subs j).chanClosed = (subs j).closed) ∧
      (∀ j, (subs j).panicked = false) ∧ (∀ j, h.nsubs ≤ j → (subs j).closed = true) ∧
      ∀ j, (subs j).closed = false → j ≠ i ∧ (h.subs j).closed = false ∧
        (subs j).tenant = (h.subs j).tenant := by
  intro subs hopen
  have hself : subs i = (h.subs i).shut := Function.update_self ..
  have hother : ∀ j ≠ i, subs j = h.subs j := fun j hj => Function.update_of_ne hj ..
  refine ⟨fun j => ?_, fun j => ?_, fun j => ?_, fun j hj => ?_, fun j hj => ?_⟩
  · by_cases hji : j = i
    · rw [hji, hself]
      rfl
    · rw [hother j hji, hinv.once]
  · by_cases hji : j = i
    · rw [hji, hself]
      rfl
    · rw [hother j hji, hinv.chanClosed]
  · by_cases hji : j = i
    · rw [hji, hself]
      simp [Sub.shut, hinv.panicked, hinv.chanClosed, hopen]
    · rw [hother j hji, hinv.panicked]
  · by_cases hji : j = i
    · rw [hji, hself]
      rfl
    · rw [hother j hji, hinv.fresh j hj]
  · have hji : j ≠ i := by
      rintro rfl
      rw [hself] at hj
      cases hj
    rw [hother j hji] at hj ⊢
    exact ⟨hji, hj, rfl⟩

theorem Inv.closeSub (hinv : h.Inv cfg) (i : ℕ) : (h.closeSub i).Inv cfg := by
  cases hopen : (h.subs i).closed with
  | true => rwa [closeSub_of_closed hinv hopen]
  | false =>
    obtain ⟨o, ho⟩ := Option.isSome_iff_exists.1 (hinv.open_ i hopen)
    have he := hinv.entry _ o ho
    have hi : i ∈ (h.objs o).conns := (he.conns i).2 ⟨hopen, rfl⟩
    obtain ⟨honce, hchan, hpanic, hfresh, hlive⟩ := hinv.shut i hopen
    -- an entry of another tenant has another loop
    have hobj : ∀ t o', t ≠ (h.subs i).tenant → h.tenants t = some o' → o' ≠ o := by
      rintro t o' ht ho' rfl
      exact ht ((hinv.entry t o' ho').tenant.symm.trans he.tenant)
    rw [closeSub_eq hinv hopen ho]
    dsimp only
    split_ifs with hlast
    · refine ⟨⟨honce, hchan, hpanic, hfresh, fun t o' ho' => ?_, fun o' hc => ?_, fun o' hc => ?_,
        fun j hj => ?_⟩,
        fun t o' ho' => ?_⟩
      · have ht : t ≠ (h.subs i).tenant := by
          rintro rfl
          simp at ho'
        simp only [Function.update_of_ne ht] at ho'
        exact (hinv.entry t o' ho').other (Ne.symm ht) _ rfl rfl
          (Function.update_of_ne (hobj t o' ht ho') ..)
      · have hne : o' ≠ o := by
          rintro rfl
          simp at hc
        simp only [Function.update_of_ne hne] at hc ⊢
        have hloop := hinv.loop o' hc
        have ht : (h.objs o').tenant ≠ (h.subs i).tenant := by
          intro heq
          rw [heq, ho] at hloop
          exact hne (Option.some.inj hloop).symm
        rw [Function.update_of_ne ht, hloop]
      · by_cases hne : o' = o
        · subst hne
          simpa using hlast
        · simp only [Function.update_of_ne hne] at hc ⊢
          exact hinv.empty o' hc
      · obtain ⟨hji, hj', htenant⟩ := hlive j hj
        -- the entry had no other subscription
        have ht : (h.subs j).tenant ≠ (h.subs i).tenant := by
          intro heq
          have hmem : j ∈ (h.objs o).conns := (he.conns j).2 ⟨hj', heq⟩
          have : j ∈ (Hub.remove (h.objs o) i (h.subs i).user).conns :=
            (he.nodup.mem_erase_iff).2 ⟨hji, hmem⟩
          rw [hlast] at this
          cases this
        simp only [htenant, Function.update_of_ne ht]
        exact hinv.open_ j hj'
      · have ht : t ≠ (h.subs i).tenant := by
          rintro rfl
          simp at ho'
        simp only [Function.update_of_ne ht] at ho'
        simp only [Function.update_of_ne (hobj t o' ht ho')]
        exact hinv.nonempty t o' ho'
    · refine ⟨⟨honce, hchan, hpanic, hfresh, fun t o' ho' => ?_, fun o' hc => ?_, fun o' hc => ?_,
        fun j hj => ?_⟩,
        fun t o' ho' => ?_⟩
      · by_cases ht : t = (h.subs i).tenant
        · subst ht
          obtain rfl : o = o' := Option.some.inj (ho.symm.trans ho')
          exact he.remove hi _ rfl rfl (Function.update_self ..)
        · exact (hinv.entry t o' ho').other (Ne.symm ht) _ rfl rfl
            (Function.update_of_ne (hobj t o' ht ho') ..)
      · by_cases hne : o' = o
        · subst hne
          simp only [Function.update_self] at hc ⊢
          exact hinv.loop o' hc
        · simp only [Function.update_of_ne hne] at hc ⊢
          exact hinv.loop o' hc
      · by_cases hne : o' = o
        · subst hne
          simp only [Function.update_self] at hc
          exact absurd (he.running.symm.trans hc) Bool.false_ne_true
        · simp only [Function.update_of_ne hne] at hc ⊢
          exact hinv.empty o' hc
      · obtain ⟨hji, hj', htenant⟩ := hlive j hj
        simp only [htenant]
        exact hinv.open_ j hj'
      · by_cases ht : t = (h.subs i).tenant
        · subst ht
          obtain rfl : o = o' := Option.some.inj (ho.symm.trans ho')
          simpa using hlast
        · simp only [Function.update_of_ne (hobj t o' ht ho')]
          exact hinv.nonempty t o' ho'

/-! ## A subscription opens -/

theorem Inv.tenantSub (hinv : h.Inv cfg) (tenant : Str) :
    let h₁ := (h.tenantSub tenant).1
    let o := (h.tenantSub tenant).2
    h₁.Base cfg ∧ h₁.tenants tenant = some o ∧ h₁.subs = h.subs ∧ h₁.nsubs = h.nsubs ∧
      h₁.bus = h.bus ∧
      (h₁ = h ∨ (h₁.objs o).conns = [] ∧ (h₁.objs o).byUser = ∅) ∧
      ∀ t o', t ≠ tenant → h₁.tenants t = some o' → (h₁.objs o').conns ≠ [] := by
  unfold Hub.tenantSub
  cases ho : h.tenants tenant with
  | some o => exact ⟨hinv.toBase, ho, rfl, rfl, rfl, Or.inl rfl, fun t o' _ => hinv.nonempty t o'⟩
  | none =>
    dsimp only
    -- the tenant has no open subscription, so the empty entry is right
    have hnone : ∀ i, ¬((h.subs i).closed = false ∧ (h.subs i).tenant = tenant) := by
      rintro i ⟨hi, rfl⟩
      have := hinv.open_ i hi
      rw [ho] at this
      cases this
    have hnew : ∀ t o', h.tenants t = some o' → o' ≠ h.nobjs := fun t o' ho' =>
      (hinv.entry t o' ho').made.ne
    refine ⟨⟨hinv.once, hinv.chanClosed, hinv.panicked, hinv.fresh, fun t o' ho' => ?_,
      fun o' hc => ?_,
      fun o' hc => ?_, fun i hi => ?_⟩, Function.update_self .., rfl, rfl, rfl, Or.inr ⟨?_, ?_⟩,
        fun t o' ht ho' => ?_⟩
    · by_cases ht : t = tenant
      · subst ht
        simp only [Function.update_self, Option.some.injEq] at ho'
        subst ho'
        refine ⟨Nat.lt_succ_self _, ?_, ?_, ?_, fun i => ?_, fun u => ?_, fun u => ?_, ?_⟩
        · simp
        · simp
        · simp
        · simpa using hnone i
        · simp [counted, AList.lookup_empty]
        · simpa [counted] using (cfg.streamsPerUser_pos).le
        · simpa using (cfg.streamsPerTenant_pos).le
      · simp only [Function.update_of_ne ht] at ho'
        have he := hinv.entry t o' ho'
        have hobj := Function.update_of_ne (hnew t o' ho')
          (⟨tenant, [], ∅, false, h.bus.tail (key tenant), .waiting,
            (h.bus.log (key tenant)).length⟩ : TenantSub) h.objs
        refine ⟨Nat.lt_succ_of_lt he.made, ?_, ?_, ?_, fun i => ?_, fun u => ?_, fun u => ?_, ?_⟩
        all_goals simp only [counted, hobj]
        · exact he.tenant
        · exact he.running
        · exact he.nodup
        · exact he.conns i
        · exact he.counter u
        · exact he.perUser u
        · exact he.perTenant
    · by_cases hne : o' = h.nobjs
      · subst hne
        simp
      · simp only [Function.update_of_ne hne] at hc ⊢
        have hloop := hinv.loop o' hc
        have ht : (h.objs o').tenant ≠ tenant := by
          intro heq
          rw [heq, ho] at hloop
          cases hloop
        rw [Function.update_of_ne ht, hloop]
    · by_cases hne : o' = h.nobjs
      · subst hne
        simp
      · simp only [Function.update_of_ne hne] at hc ⊢
        exact hinv.empty o' hc
    · have ht : (h.subs i).tenant ≠ tenant := fun heq => hnone i ⟨hi, heq⟩
      simp only [Function.update_of_ne ht]
      exact hinv.open_ i hi
    · simp
    · simp
    · simp only [Function.update_of_ne ht] at ho'
      simp only [Function.update_of_ne (hnew t o' ho')]
      exact hinv.nonempty t o' ho'

def opened (h : Hub) (o : ℕ) (tenant user lastID : Str) : Sub :=
  ⟨tenant, user, lastID, [], false, false, false, false, [], [], if lastID = [] then .done
    else .asking, false,
    (h.objs o).pos, (h.bus.log (key tenant)).length, 0⟩

def insert (h : Hub) (o : ℕ) (tenant user lastID : Str) : Hub :=
  { h with
    objs := Function.update h.objs o
      { h.objs o with
        conns := (h.objs o).conns ++ [h.nsubs]
        byUser := (h.objs o).byUser.insert user (((h.objs o).byUser.lookup user).getD 0 + 1) }
    subs := Function.update h.subs h.nsubs (h.opened o tenant user lastID)
    nsubs := h.nsubs + 1 }

theorem insert_frame (h : Hub) (o : ℕ) (tenant user lastID : Str) (o' : ℕ) :
    let t := (h.insert o tenant user lastID).objs o'
    t.pc = (h.objs o').pc ∧ t.pos = (h.objs o').pos ∧ t.last = (h.objs o').last ∧
      t.tenant = (h.objs o').tenant ∧
      t.cancelled = (h.objs o').cancelled := by
  by_cases ho : o' = o
  · subst ho
    simp [Hub.insert]
  · simp [Hub.insert, ho]

theorem subscribe_cases (cfg : Config) (hinv : h.Inv cfg) (tenant user lastID : Str) (ok : Bool) :
    h.subscribe cfg tenant user lastID ok = h ∨
      (h.ctxDone = false ∧
        h.subscribe cfg tenant user lastID ok =
          (h.tenantSub tenant).1.insert (h.tenantSub tenant).2 tenant user lastID ∧
        let t := (h.tenantSub tenant).1.objs (h.tenantSub tenant).2
        ((t.byUser.lookup user).getD 0 : ℤ) < cfg.effective.streamsPerUser ∧
          (t.conns.length : ℤ) < cfg.effective.streamsPerTenant) := by
  obtain ⟨-, -, -, -, -, hmade, -⟩ := hinv.tenantSub tenant
  unfold Hub.subscribe
  by_cases hctx : h.ctxDone = true ∨ h.tenants tenant = none ∧ ok = false
  · rw [if_pos hctx]
    exact Or.inl rfl
  rw [if_neg hctx]
  dsimp only
  set t := (h.tenantSub tenant).1.objs (h.tenantSub tenant).2 with ht
  by_cases hlimit : cfg.effective.streamsPerUser ≤ ((t.byUser.lookup user).getD 0 : ℤ) ∨
      cfg.effective.streamsPerTenant ≤ t.conns.length
  · rw [if_pos hlimit]
    -- a new entry is within the limits
    refine Or.inl (hmade.resolve_right fun hempty => ?_)
    have h1 := cfg.streamsPerUser_pos
    have h2 := cfg.streamsPerTenant_pos
    rw [hempty.1, hempty.2] at hlimit
    simp only [AList.lookup_empty, Option.getD_none, length_nil] at hlimit
    omega
  · rw [if_neg hlimit]
    push Not at hctx hlimit
    exact Or.inr ⟨by simpa using hctx.1, rfl, hlimit⟩

theorem EntryOK.counted_insert (he : EntryOK cfg h t o) (hfresh : (h.subs h.nsubs).closed = true)
    (x : Sub) (u : Str) :
    ((h.objs o).conns.countP fun i => decide ((Function.update h.subs h.nsubs x i).user = u)) =
      h.counted o u := by
  refine countP_congr fun i hi => ?_
  have hne : i ≠ h.nsubs := by
    rintro rfl
    rw [((he.conns _).1 hi).1] at hfresh
    cases hfresh
  rw [Function.update_of_ne hne]

theorem EntryOK.insert {tenant user lastID : Str} (he : EntryOK cfg h tenant o)
    (hfresh : (h.subs h.nsubs).closed = true)
    (huser : (((h.objs o).byUser.lookup user).getD 0 : ℤ) < cfg.effective.streamsPerUser)
    (htotal : ((h.objs o).conns.length : ℤ) < cfg.effective.streamsPerTenant) :
    EntryOK cfg (h.insert o tenant user lastID) tenant o := by
  have hobj : (h.insert o tenant user lastID).objs o = { h.objs o with
      conns := (h.objs o).conns ++ [h.nsubs]
      byUser := (h.objs o).byUser.insert user (((h.objs o).byUser.lookup user).getD 0 + 1) } :=
    Function.update_self ..
  have hnot : h.nsubs ∉ (h.objs o).conns := fun hmem => by
    rw [((he.conns _).1 hmem).1] at hfresh
    cases hfresh
  have hn : ((h.objs o).byUser.lookup user).getD 0 = h.counted o user := by
    rw [he.counter]
    split_ifs with hzero
    · exact hzero.symm
    · rfl
  have hcounted : ∀ u, (h.insert o tenant user lastID).counted o u = h.counted o u +
      if user = u then 1 else 0 := by
    intro u
    unfold counted
    rw [hobj, countP_append]
    congr 1
    · exact he.counted_insert hfresh _ u
    · simp [Hub.insert, opened]
  refine ⟨he.made, hobj ▸ he.tenant, hobj ▸ he.running, ?_, fun i => ?_, fun u => ?_,
    fun u => ?_, ?_⟩
  · rw [hobj]
    refine nodup_append.2 ⟨he.nodup, nodup_singleton _, fun i hi j hj => ?_⟩
    rintro rfl
    exact hnot (mem_singleton.1 hj ▸ hi)
  · rw [hobj, mem_append, mem_singleton, he.conns i]
    by_cases hi : i = h.nsubs
    · subst hi
      simp [Hub.insert, opened]
    · simp [Hub.insert, hi]
  · rw [hcounted, hobj, hn]
    by_cases hu : u = user
    · subst hu
      simp
    · rw [AList.lookup_insert_ne hu, if_neg (Ne.symm hu), Nat.add_zero]
      exact he.counter u
  · rw [hcounted]
    have := he.perUser u
    split_ifs with hu
    · subst hu
      rw [hn] at huser
      push_cast
      omega
    · simpa using this
  · rw [hobj, length_append, length_singleton]
    push_cast
    omega

theorem EntryOK.insert_other {tenant user lastID : Str} {o' : ℕ} (he : EntryOK cfg h t o')
    (hfresh : (h.subs h.nsubs).closed = true) (ht : t ≠ tenant) (ho : o' ≠ o) :
    EntryOK cfg (h.insert o tenant user lastID) t o' := by
  have hobj : (h.insert o tenant user lastID).objs o' = h.objs o' := Function.update_of_ne ho ..
  have hcounted : ∀ u, (h.insert o tenant user lastID).counted o' u = h.counted o' u := by
    intro u
    unfold counted
    rw [hobj]
    exact he.counted_insert hfresh _ u
  refine ⟨he.made, hobj ▸ he.tenant, hobj ▸ he.running, hobj ▸ he.nodup, fun i => ?_, fun u => ?_,
    fun u => hcounted u ▸ he.perUser u, hobj ▸ he.perTenant⟩
  · rw [hobj, he.conns i]
    by_cases hi : i = h.nsubs
    · subst hi
      simp [Hub.insert, opened, hfresh, Ne.symm ht]
    · simp [Hub.insert, hi]
  · rw [hcounted, hobj]
    exact he.counter u

theorem Inv.subscribe (hinv : h.Inv cfg) (tenant user lastID : Str) (ok : Bool) :
    (h.subscribe cfg tenant user lastID ok).Inv cfg := by
  rcases subscribe_cases cfg hinv tenant user lastID ok with heq | ⟨-, heq, huser, htotal⟩
  · rwa [heq]
  rw [heq]
  obtain ⟨hbase, ho, -, -, -, -, hothers⟩ := hinv.tenantSub tenant
  generalize (h.tenantSub tenant).1 = h₁ at *
  generalize (h.tenantSub tenant).2 = o at *
  have hfresh : (h₁.subs h₁.nsubs).closed = true := hbase.fresh _ le_rfl
  have he := hbase.entry tenant o ho
  have hne : ∀ t o', t ≠ tenant → h₁.tenants t = some o' → o' ≠ o := by
    rintro t o' ht ho' rfl
    exact ht ((hbase.entry t o' ho').tenant.symm.trans he.tenant)
  refine ⟨⟨fun i => ?_, fun i => ?_, fun i => ?_, fun i hi => ?_, fun t o' ho' => ?_,
    fun o' hc => ?_,
    fun o' hc => ?_, fun i hi => ?_⟩, fun t o' ho' => ?_⟩
  · by_cases hi : i = h₁.nsubs
    · simp [Hub.insert, opened, hi]
    · simpa [Hub.insert, hi] using hbase.once i
  · by_cases hi : i = h₁.nsubs
    · simp [Hub.insert, opened, hi]
    · simpa [Hub.insert, hi] using hbase.chanClosed i
  · by_cases hi : i = h₁.nsubs
    · simp [Hub.insert, opened, hi]
    · simpa [Hub.insert, hi] using hbase.panicked i
  · have hi' : h₁.nsubs < i := hi
    simpa [Hub.insert, hi'.ne'] using hbase.fresh i hi'.le
  · have ho'' : h₁.tenants t = some o' := ho'
    by_cases ht : t = tenant
    · subst ht
      obtain rfl : o = o' := Option.some.inj (ho.symm.trans ho'')
      exact he.insert hfresh huser htotal
    · exact (hbase.entry t o' ho'').insert_other hfresh ht (hne t o' ht ho'')
  · by_cases hoo : o' = o
    · subst hoo
      simpa [Hub.insert, he.tenant] using ho
    · have hobj : (h₁.insert o tenant user lastID).objs o' = h₁.objs o' :=
        Function.update_of_ne hoo ..
      rw [hobj] at hc ⊢
      exact hbase.loop o' hc
  · by_cases hoo : o' = o
    · subst hoo
      rw [(insert_frame h₁ o' tenant user lastID o').2.2.2.2, he.running] at hc
      cases hc
    · have hobj : (h₁.insert o tenant user lastID).objs o' = h₁.objs o' :=
        Function.update_of_ne hoo ..
      rw [hobj] at hc ⊢
      exact hbase.empty o' hc
  · by_cases hin : i = h₁.nsubs
    · subst hin
      simpa [Hub.insert, opened] using Option.isSome_iff_exists.2 ⟨o, ho⟩
    · have hsub : (h₁.insert o tenant user lastID).subs i = h₁.subs i :=
        Function.update_of_ne hin ..
      rw [hsub] at hi ⊢
      exact hbase.open_ i hi
  · by_cases ht : t = tenant
    · subst ht
      obtain rfl : o = o' := Option.some.inj (ho.symm.trans ho')
      simp [Hub.insert]
    · have hobj : (h₁.insert o tenant user lastID).objs o' = h₁.objs o' :=
        Function.update_of_ne (hne t o' ht ho') ..
      rw [hobj]
      exact hothers t o' ht ho'

/-! ## Steps -/

inductive Move (cfg : Config) (h : Hub) : Step → Hub → Prop
  | append (l : Step) (k : Str) (e : Entry) (hfresh : h.bus.Fresh k e.id) :
      Move cfg h l { h with bus := h.bus.xAdd k e hfresh }
  | refused (l : Step) : Move cfg h l h
  | trim (k : Str) (n : ℕ) (hn : h.bus.gone k + n ≤ (h.bus.log k).length) :
      Move cfg h (.trim k n) { h with bus := h.bus.trim k n hn }
  | subscribe (tenant user lastID : Str) (ok : Bool) :
      Move cfg h (.subscribe tenant user lastID ok) (h.subscribe cfg tenant user lastID ok)
  | reset (i : ℕ) (now : ℤ) (ok : Bool) (data : Str) (hreplay : (h.subs i).replay = .asking) :
      Move cfg h (.replay i now ok) (h.resetSub i data)
  | replay (i : ℕ) (now : ℤ) (hreplay : (h.subs i).replay = .asking) :
      Move cfg h (.replay i now true) (h.setSub i { h.subs i with
        replay := .pushing ((h.bus.after (key (h.subs i).tenant) (h.subs i).lastID).take
          cfg.effective.maxLen.toNat)
        known := (h.bus.log (key (h.subs i).tenant)).length })
  | replayed (i : ℕ) (hreplay : (h.subs i).replay = .pushing []) :
      Move cfg h (.replayPush i) (h.setSub i { h.subs i with replay := .done })
  | replayPush (i : ℕ) (e : Entry) (rest : List Entry) (hreplay : (h.subs i).replay = .pushing
      (e :: rest)) :
      Move cfg h (.replayPush i) (h.setSub i
        { (if e.isFor (h.subs i).user then ((h.subs i).push e.event).1 else h.subs
          i) with replay := .pushing rest })
  | receive (i : ℕ) (ev : Event) (q : List Event) (hq : (h.subs i).queue = ev :: q) :
      Move cfg h (.receive i) (h.setSub i
        { h.subs i with queue := q, received := (h.subs i).received ++ [ev] })
  | close (i : ℕ) : Move cfg h (.close i) (h.closeSub i)
  | wait (l : Step) (o : ℕ) (pc : LoopPc) (hpc : (h.objs o).pc =
      .waiting ∨ (h.objs o).pc = .batch [])
      (hpc' : pc = .waiting ∨ pc = .stopped ∧ h.loopDone o = true) : Move cfg h l (h.goto o pc)
  | read (o n : ℕ) (hpc : (h.objs o).pc = .waiting) :
      Move cfg h (.read o (some n)) (h.setObj o { h.objs o with
        pc := .batch ((h.bus.after (key (h.objs o).tenant) (h.objs o).last).take n)
        pos := max (h.objs o).pos (h.bus.gone (key (h.objs o).tenant)) })
  | next (o : ℕ) (e : Entry) (rest : List Entry) (hpc : (h.objs o).pc = .batch (e :: rest)) :
      Move cfg h (.next o) (h.setObj o { h.objs o with
        last := e.id
        pc := .pushing e ((h.objs o).conns.filter fun i => e.isFor (h.subs i).user) rest
        pos := (h.objs o).pos + 1 })
  | dispatched (o : ℕ) (e : Entry) (rest : List Entry) (hpc : (h.objs o).pc = .pushing e [] rest) :
      Move cfg h (.next o) (h.goto o (.batch rest))
  | push (o i : ℕ) (e : Entry) (subs : List ℕ) (rest : List Entry)
      (hpc : (h.objs o).pc = .pushing e subs rest)
      (hi : i ∈ subs) :
      Move cfg h (.push o i) ((h.setSub i ((h.subs i).push e.event).1).goto o
        (if ((h.subs i).push e.event).2 then .pushing e (subs.erase i) rest
          else .closing i e (subs.erase i) rest))
  | drop (o i : ℕ) (e : Entry) (subs : List ℕ) (rest : List Entry)
      (hpc : (h.objs o).pc = .closing i e subs rest) :
      Move cfg h (.drop o) ((h.closeSub i).goto o (.pushing e subs rest))
  | hub (l : Step) (ctxDone : Bool) (hctx : h.ctxDone = true → ctxDone = true) (cs : ℕ → CloserPc) :
      Move cfg h l { h with ctxDone := ctxDone, closers := cs }
  | hubClose (c i : ℕ) (cs : ℕ → CloserPc) :
      Move cfg h (.hubClose c i) { h.closeSub i with closers := cs }

theorem move_of_step (hl : h.step cfg l = some h') : Move cfg h l h' := by
  cases l with
  | append k e =>
    simp only [step] at hl
    split_ifs at hl with hfresh
    cases hl
    exact .append _ k e hfresh
  | publish tenant p id =>
    simp only [step] at hl
    split at hl
    · cases hl
      exact .refused _
    · split_ifs at hl with hfresh
      cases hl
      exact .append _ _ _ hfresh
  | trim k n =>
    simp only [step] at hl
    split_ifs at hl with hn
    cases hl
    exact .trim k n hn
  | subscribe tenant user lastID ok =>
    cases hl
    exact .subscribe tenant user lastID ok
  | replay i now ok =>
    simp only [step] at hl
    split at hl
    · next hreplay =>
      split_ifs at hl
      cases hl
      unfold Hub.replay
      dsimp only
      split_ifs with hwindow hok
      · exact .reset i now ok _ hreplay
      · exact .reset i now ok _ hreplay
      · obtain rfl : ok = true := by simpa using hok
        exact .replay i now hreplay
    · cases hl
  | replayPush i =>
    simp only [step] at hl
    split_ifs at hl
    split at hl
    · next hreplay =>
      cases hl
      exact .replayed i hreplay
    · next e rest hreplay =>
      cases hl
      exact .replayPush i e rest hreplay
    · cases hl
  | receive i =>
    simp only [step] at hl
    split at hl
    · next ev q hq =>
      split_ifs at hl
      cases hl
      exact .receive i ev q hq
    · cases hl
  | close i =>
    simp only [step] at hl
    split_ifs at hl
    cases hl
    exact .close i
  | read o n =>
    simp only [step] at hl
    split at hl
    · next hpc =>
      rw [Option.ite_none_right_eq_some] at hl
      cases n with
      | none =>
        cases hl.2
        split_ifs with hdone
        · exact .wait _ o .stopped (Or.inl hpc) (Or.inr ⟨rfl, hdone⟩)
        · exact .wait _ o .waiting (Or.inl hpc) (Or.inl rfl)
      | some n =>
        obtain ⟨-, hl⟩ := hl
        rw [Option.ite_none_right_eq_some] at hl
        cases hl.2
        exact .read o n hpc
    · cases hl
  | stop o =>
    simp only [step] at hl
    split at hl
    · next hpc =>
      split_ifs at hl with hdone
      cases hl
      exact .wait _ o .stopped (Or.inl hpc) (Or.inr ⟨rfl, hdone.2⟩)
    · cases hl
  | next o =>
    simp only [step] at hl
    split at hl
    · next hpc =>
      cases hl
      exact .wait _ o .waiting (Or.inr hpc) (Or.inl rfl)
    · next e rest hpc =>
      cases hl
      exact .next o e rest hpc
    · next e rest hpc =>
      cases hl
      exact .dispatched o e rest hpc
    · cases hl
  | push o i =>
    simp only [step] at hl
    split at hl
    · next e subs rest hpc =>
      rw [Option.ite_none_right_eq_some] at hl
      cases hl.2
      exact .push o i e subs rest hpc hl.1
    · cases hl
  | drop o =>
    simp only [step] at hl
    split at hl
    · next i e subs rest hpc =>
      cases hl
      exact .drop o i e subs rest hpc
    · cases hl
  | hubCancel c =>
    simp only [step] at hl
    split at hl
    · cases hl
      exact .hub _ true (fun _ => rfl) _
    · cases hl
  | hubCollect c =>
    simp only [step] at hl
    split at hl
    · cases hl
      exact .hub _ h.ctxDone id _
    · cases hl
  | hubClose c i =>
    simp only [step] at hl
    split at hl
    · split_ifs at hl
      cases hl
      exact .hubClose c i _
    · cases hl
  | hubReturn c =>
    simp only [step] at hl
    split at hl
    · split_ifs at hl
      cases hl
      exact .hub _ h.ctxDone id _
    · cases hl

theorem Inv.quiet_push (hinv : h.Inv cfg) (i : ℕ) (ev : Event) (s : Sub)
    (hs : s = ((h.subs i).push ev).1 ∨ s = h.subs i) (r : Replay) (reset : Bool) :
    Quiet h (h.setSub i { s with replay := r, reset := reset }) := by
  obtain ⟨h1, h2, h3, h4, h5, h6⟩ := push_frame (hinv.chanClosed i) ev
  rcases hs with rfl | rfl
  · exact Quiet.setSub h1 h2 h3 h4 h5 h6
  · exact Quiet.setSub rfl rfl rfl rfl rfl rfl

theorem Inv.step (hinv : h.Inv cfg) (hl : h.step cfg l = some h') : h'.Inv cfg := by
  cases move_of_step hl with
  | append _ k e hfresh => exact hinv.quiet (.setBus h _)
  | refused => exact hinv
  | trim k n hn => exact hinv.quiet (.setBus h _)
  | subscribe tenant user lastID ok => exact hinv.subscribe tenant user lastID ok
  | reset i now ok data hreplay => exact hinv.quiet (hinv.quiet_push i _ _ (Or.inl rfl) .done _)
  | replay i now hreplay => exact hinv.quiet (.setSub rfl rfl rfl rfl rfl rfl)
  | replayed i hreplay => exact hinv.quiet (.setSub rfl rfl rfl rfl rfl rfl)
  | replayPush i e rest hreplay =>
    refine hinv.quiet (hinv.quiet_push i e.event _ ?_ (.pushing rest) _)
    split_ifs
    · exact Or.inl rfl
    · exact Or.inr rfl
  | receive i ev q hq => exact hinv.quiet (.setSub rfl rfl rfl rfl rfl rfl)
  | close i => exact hinv.closeSub i
  | wait _ o pc hpc hpc' => exact hinv.quiet (.goto h o pc)
  | read o n hpc => exact hinv.quiet (.setObj h o _ _ _)
  | next o e rest hpc => exact hinv.quiet (.setObj h o _ _ _)
  | dispatched o e rest hpc => exact hinv.quiet (.goto h o _)
  | push o i e subs rest hpc hi =>
    have hq := hinv.quiet_push i e.event
      _ (Or.inl rfl) ((h.subs i).push e.event).1.replay ((h.subs i).push e.event).1.reset
    exact (hinv.quiet hq).quiet (.goto _ o _)
  | drop o i e subs rest hpc => exact (hinv.closeSub i).quiet (.goto _ o _)
  | hub _ ctxDone hctx cs => exact hinv.quiet (.setClosers h ctxDone cs)
  | hubClose c i cs => exact (hinv.closeSub i).quiet (.setClosers _ _ cs)

/-! ## Loops -/

def Running (h : Hub) : Prop := ∀ o < h.nobjs, (h.objs o).pc = .stopped → h.loopDone o = true

theorem Running.of (hrun : h.Running) (hnobjs : h'.nobjs = h.nobjs)
    (hdone : ∀ o', h.loopDone o' = true → h'.loopDone o' = true)
    (hother : ∀ o', o' ≠ o → (h'.objs o').pc = (h.objs o').pc)
    (hself : (h'.objs o).pc = .stopped → (h.objs o).pc = .stopped ∨ h'.loopDone o = true) :
    h'.Running := by
  intro o' ho' hstopped
  rw [hnobjs] at ho'
  by_cases hoo : o' = o
  · subst hoo
    exact (hself hstopped).elim (fun hpc => hdone o' (hrun o' ho' hpc)) id
  · exact hdone o' (hrun o' ho' ((hother o' hoo).symm.trans hstopped))

theorem Running.same (hrun : h.Running) (hnobjs : h'.nobjs = h.nobjs)
    (hdone : ∀ o', h.loopDone o' = true → h'.loopDone o' = true)
    (hpc : ∀ o', (h'.objs o').pc = (h.objs o').pc) :
    h'.Running := hrun.of (o := 0) hnobjs hdone (fun o' _ => hpc o') fun h0 =>
      Or.inl ((hpc 0).symm.trans h0)

theorem Running.setObj (hrun : h.Running) (o : ℕ) (t : TenantSub)
    (ht : t.cancelled = (h.objs o).cancelled)
    (hpc : t.pc = .stopped → h.loopDone o = true) : (h.setObj o t).Running := by
  have hdone : ∀ o', (h.setObj o t).loopDone o' = h.loopDone o' := fun o' =>
    congrArg (h.ctxDone || ·) (apply_update_eq TenantSub.cancelled h.objs ht o')
  refine hrun.of (o := o) rfl (fun o' h' => (hdone o').trans h') (fun o' ho' => ?_) fun hstopped =>
    Or.inr ?_
  · exact congrArg TenantSub.pc (Function.update_of_ne ho' ..)
  · rw [hdone]
    exact hpc ((congrArg TenantSub.pc (Function.update_self ..)).symm.trans hstopped)

theorem closeSub_frame (h : Hub) (i : ℕ) :
    (h.closeSub i).nobjs = h.nobjs ∧ (h.closeSub i).ctxDone = h.ctxDone ∧
    (h.closeSub i).bus = h.bus ∧
      ∀ o, ((h.closeSub i).objs o).pc = (h.objs o).pc ∧
        ((h.closeSub i).objs o).pos = (h.objs o).pos ∧
        ((h.closeSub i).objs o).last = (h.objs o).last ∧
        ((h.closeSub i).objs o).tenant = (h.objs o).tenant ∧
        ((h.objs o).cancelled = true → ((h.closeSub i).objs o).cancelled = true) := by
  have hupdate : ∀ (o₁ : ℕ) (t : TenantSub), t.pc = (h.objs o₁).pc → t.pos = (h.objs o₁).pos →
      t.last = (h.objs o₁).last → t.tenant = (h.objs o₁).tenant →
      ((h.objs o₁).cancelled = true → t.cancelled = true) → ∀ o,
        (Function.update h.objs o₁ t o).pc = (h.objs o).pc ∧
        (Function.update h.objs o₁ t o).pos = (h.objs o).pos ∧
        (Function.update h.objs o₁ t o).last = (h.objs o).last ∧
        (Function.update h.objs o₁ t o).tenant = (h.objs o).tenant ∧
        ((h.objs o).cancelled = true → (Function.update h.objs o₁ t o).cancelled = true) := by
    intro o₁ t h1 h2 h3 h4 h5 o
    by_cases ho : o = o₁
    · subst ho
      simp only [Function.update_self]
      exact ⟨h1, h2, h3, h4, h5⟩
    · simp only [Function.update_of_ne ho]
      exact ⟨trivial, trivial, trivial, trivial, id⟩
  unfold Hub.closeSub
  dsimp only
  split
  · exact ⟨rfl, rfl, rfl, fun o => ⟨rfl, rfl, rfl, rfl, id⟩⟩
  · split
    · exact ⟨rfl, rfl, rfl, fun o => ⟨rfl, rfl, rfl, rfl, id⟩⟩
    · next o₁ _ =>
      split_ifs
      · exact ⟨rfl, rfl, rfl, hupdate o₁ _ rfl rfl rfl rfl fun _ => rfl⟩
      · exact ⟨rfl, rfl, rfl, hupdate o₁ _ rfl rfl rfl rfl id⟩

theorem Running.closeSub (hrun : h.Running) (i : ℕ) : (h.closeSub i).Running := by
  obtain ⟨hnobjs, hctx, -, hobjs⟩ := closeSub_frame h i
  refine hrun.same hnobjs (fun o ho => ?_) fun o => (hobjs o).1
  rw [loopDone, Bool.or_eq_true] at ho ⊢
  rw [hctx]
  exact ho.imp_right (hobjs o).2.2.2.2

theorem Running.tenantSub (hrun : h.Running) (tenant : Str) : (h.tenantSub tenant).1.Running := by
  unfold Hub.tenantSub
  split
  · exact hrun
  · intro o ho hstopped
    by_cases hnew : o = h.nobjs
    · subst hnew
      simp at hstopped
    · simp only [Function.update_of_ne hnew] at hstopped
      have hdone := hrun o (lt_of_le_of_ne (Nat.le_of_lt_succ ho) hnew) hstopped
      simpa only [loopDone, Function.update_of_ne hnew] using hdone

theorem Running.insert (hrun : h.Running) (o : ℕ) (tenant user lastID : Str) :
    (h.insert o tenant user lastID).Running := by
  refine hrun.same rfl (fun o' ho' => ?_) fun o' => ?_
  · rw [loopDone, (insert_frame h o tenant user lastID o').2.2.2.2]
    exact ho'
  · exact (insert_frame h o tenant user lastID o').1

theorem Running.step (hrun : h.Running)
    (hinv : h.Inv cfg) (hl : h.step cfg l = some h') : h'.Running := by
  cases move_of_step hl with
  | append | refused | trim | reset | replay | replayed | replayPush | receive => exact hrun
  | subscribe tenant user lastID ok =>
    rcases subscribe_cases cfg hinv tenant user lastID ok with heq | ⟨-, heq, -⟩
    · rwa [heq]
    · rw [heq]
      exact (hrun.tenantSub tenant).insert _ tenant user lastID
  | close i => exact hrun.closeSub i
  | wait _ o pc hpc hpc' =>
    refine hrun.setObj o _ rfl fun hstopped => ?_
    rcases hpc' with rfl | ⟨-, hdone⟩
    · cases hstopped
    · exact hdone
  | read o n hpc => exact hrun.setObj o _ rfl fun hstopped => by cases hstopped
  | next o e rest hpc => exact hrun.setObj o _ rfl fun hstopped => by cases hstopped
  | dispatched o e rest hpc => exact hrun.setObj o _ rfl fun hstopped => by cases hstopped
  | push o i e subs rest hpc hi =>
    refine Running.setObj (h := h.setSub i _) hrun o _ rfl fun hstopped => ?_
    split_ifs at hstopped
  | drop o i e subs rest hpc =>
    exact (hrun.closeSub i).setObj o _ rfl fun hstopped => by cases hstopped
  | hub _ ctxDone hctx cs =>
    refine hrun.same rfl (fun o ho => ?_) fun _ => rfl
    rw [loopDone, Bool.or_eq_true] at ho ⊢
    exact ho.imp_left hctx
  | hubClose c i cs => exact hrun.closeSub i

/-! ## The bookkeeping -/

def openSubs (h : Hub) (t : Str) : List ℕ :=
  (List.range h.nsubs).filter fun i => !(h.subs i).closed && decide ((h.subs i).tenant = t)

def openSubsOf (h : Hub) (t u : Str) : List ℕ := (h.openSubs t).filter fun i =>
    decide ((h.subs i).user = u)

theorem EntryOK.perm (hinv : h.Inv cfg) (he : EntryOK cfg h t o) :
    (h.objs o).conns.Perm (h.openSubs t) := by
  refine (perm_ext_iff_of_nodup he.nodup (nodup_range.filter _)).2 fun i => ?_
  rw [he.conns i, List.mem_filter, mem_range]
  simp only [Bool.and_eq_true, Bool.not_eq_true', decide_eq_true_eq]
  refine ⟨fun hi => ⟨?_, hi⟩, fun hi => hi.2⟩
  by_contra hlt
  rw [hinv.fresh i (Nat.le_of_not_lt hlt)] at hi
  cases hi.1

theorem EntryOK.counted_eq (hinv : h.Inv cfg) (he : EntryOK cfg h t o) (u : Str) :
    h.counted o u = (h.openSubsOf t u).length := by
  unfold counted openSubsOf
  rw [(he.perm hinv).countP_eq, countP_eq_length_filter]

theorem sum_countP {α β : Type} [DecidableEq β] (f : α → β) {ks : List β} (hks : ks.Nodup)
    (l : List α)
    (hl : ∀ a ∈ l, f a ∈ ks) : (ks.map fun b => l.countP fun a => decide (f a = b)).sum =
      l.length := by
  have hcount : ∀ b, (l.countP fun a => decide (f a = b)) =
      Multiset.count b (l.map f : Multiset β) := by
    intro b
    rw [Multiset.coe_count, count_eq_countP, countP_map]
    rfl
  have hmem : ∀ b ∈ (l.map f : Multiset β), b ∈ ks.toFinset := by
    intro b hb
    obtain ⟨a, ha, rfl⟩ := List.mem_map.1 (Multiset.mem_coe.1 hb)
    exact mem_toFinset.2 (hl a ha)
  simp only [hcount]
  rw [← sum_toFinset _ hks, Multiset.sum_count_eq_card hmem, Multiset.coe_card, length_map]

theorem EntryOK.sum_byUser (he : EntryOK cfg h t o) :
    ((h.objs o).byUser.entries.map Sigma.snd).sum = (h.objs o).conns.length := by
  have hmap : (h.objs o).byUser.entries.map Sigma.snd =
      (h.objs o).byUser.keys.map (h.counted o) := by
    rw [AList.keys, List.keys, map_map]
    refine map_congr_left fun x hx => ?_
    have hlookup : (h.objs o).byUser.lookup x.1 = some x.2 := AList.mem_lookup_iff.2 hx
    rw [he.counter] at hlookup
    split_ifs at hlookup
    exact (Option.some.inj hlookup).symm
  rw [hmap]
  refine sum_countP (fun i => (h.subs i).user) (h.objs o).byUser.keys_nodup _ fun i hi => ?_
  rw [← AList.mem_keys, ← AList.lookup_isSome, he.counter, if_neg]
  · rfl
  · exact (countP_pos_iff.2 ⟨i, hi, decide_eq_true rfl⟩).ne'

theorem inv_of_path {bus : Bus} {ls : List Step} {C : Hub → Step → Prop}
    (hpath : Path (step cfg) C (new bus) ls h) :
    h.Inv cfg ∧ h.Running := by
  refine hpath.invariant (I := fun h => h.Inv cfg ∧ h.Running) (fun h l h' hh _ hl => ?_)
    ⟨inv_new cfg bus, ?_⟩
  · exact ⟨hh.1.step hl, hh.2.step hh.1 hl⟩
  · exact fun o ho => absurd ho (Nat.not_lt_zero o)

/-- **Whatever is subscribed, closed, dropped and shut down in whatever order: a tenant has an entry
    exactly while it has open subscriptions; the entry lists them, counts them by user and keeps to
    the limits; until the hub is cancelled the tenant's one uncancelled loop is the entry's, and it
    runs; no channel is closed twice or sent to after it was closed.** -/
theorem bookkeeping (cfg : Config) {bus : Bus} {ls : List Step} {h : Hub}
    (hpath : Path (step cfg) (fun _ _ => True) (new bus) ls h) :
    (∀ t, (h.tenants t).isSome = true ↔ h.openSubs t ≠ []) ∧
      (∀ t o, h.tenants t = some o →
        (h.objs o).conns.Perm (h.openSubs t) ∧
        (∀ u, ((h.objs o).byUser.lookup u).getD 0 = (h.openSubsOf t u).length) ∧
        (∀ u n, (h.objs o).byUser.lookup u = some n → 0 < n) ∧
        ((h.objs o).byUser.entries.map Sigma.snd).sum = (h.objs o).conns.length ∧
        (∀ u, ((h.openSubsOf t u).length : ℤ) ≤ cfg.effective.streamsPerUser) ∧
        ((h.openSubs t).length : ℤ) ≤ cfg.effective.streamsPerTenant) ∧
      (h.ctxDone = false → ∀ t o, h.tenants t = some o ↔
        o < h.nobjs ∧ (h.objs o).tenant = t ∧ h.loopDone o = false ∧ (h.objs o).pc ≠ .stopped) ∧
      ∀ i, (h.subs i).panicked = false := by
  obtain ⟨hinv, hrun⟩ := inv_of_path hpath
  refine ⟨fun t => ⟨fun hsome => ?_, fun hne => ?_⟩, fun t o ho => ?_, fun hctx t o => ?_,
    hinv.panicked⟩
  · obtain ⟨o, ho⟩ := Option.isSome_iff_exists.1 hsome
    intro hnil
    have hperm := (hinv.entry t o ho).perm hinv
    rw [hnil] at hperm
    exact hinv.nonempty t o ho hperm.eq_nil
  · obtain ⟨i, hi⟩ := exists_mem_of_ne_nil _ hne
    rw [openSubs, List.mem_filter] at hi
    simp only [Bool.and_eq_true, Bool.not_eq_true', decide_eq_true_eq] at hi
    rw [← hi.2.2]
    exact hinv.open_ i hi.2.1
  · have he := hinv.entry t o ho
    refine ⟨he.perm hinv, fun u => ?_, fun u n hn => ?_, he.sum_byUser, fun u => ?_, ?_⟩
    · rw [he.counter, ← he.counted_eq hinv]
      split_ifs with hzero
      · exact hzero.symm
      · rfl
    · rw [he.counter] at hn
      split_ifs at hn with hzero
      rw [← Option.some.inj hn]
      exact Nat.pos_of_ne_zero hzero
    · rw [← he.counted_eq hinv]
      exact he.perUser u
    · rw [← (he.perm hinv).length_eq]
      exact he.perTenant
  · constructor
    · intro ho
      have he := hinv.entry t o ho
      have hdone : h.loopDone o = false := by rw [loopDone, hctx, he.running, Bool.or_false]
      refine ⟨he.made, he.tenant, hdone, fun hstopped => ?_⟩
      rw [hrun o he.made hstopped] at hdone
      cases hdone
    · rintro ⟨ho, rfl, hdone, -⟩
      rw [loopDone, hctx, Bool.false_or] at hdone
      exact hinv.loop o hdone

/-- Two subscriptions of a user, one of them closed again. -/
theorem bookkeeping_two : ∃ (cfg : Config) (ls : List Step) (h : Hub) (o : ℕ),
    Path (step cfg) (fun _ _ => True) (new Bus.empty) ls h ∧ h.tenants (str "t") = some o ∧
      ((h.objs o).byUser.lookup (str "u")).getD 0 = (h.openSubsOf (str "t") (str "u")).length := by
  obtain ⟨h, hpath, hh⟩ := exists_path (step ⟨0, 0, 0, 0⟩) (fun _ _ => True) (new Bus.empty)
    [.subscribe (str "t") (str "u") [] true, .subscribe (str "t") (str "u") [] true, .close 0]
    (fun h => h.tenants (str "t") == some 0) (by decide +kernel)
  have ho : h.tenants (str "t") = some 0 := by simpa using hh
  exact ⟨_, _, h, 0, hpath, ho, ((bookkeeping _ hpath).2.1 _ _ ho).2.1 _⟩

/-- The hub is being closed: a tenant has an entry with a subscription, and no loop that is not
    cancelled. -/
theorem cancelled_entry : ∃ (cfg : Config) (ls : List Step) (h : Hub) (o : ℕ),
    Path (step cfg) (fun _ _ => True) (new Bus.empty) ls h ∧ h.tenants (str "t") = some o ∧
      (h.objs o).conns ≠ [] ∧ ∀ o' < h.nobjs, h.loopDone o' = true := by
  obtain ⟨h, hpath, hh⟩ := exists_path (step ⟨0, 0, 0, 0⟩) (fun _ _ => True) (new Bus.empty)
    [.subscribe (str "t") (str "u") [] true, .hubCancel 0]
    (fun h => h.tenants (str "t") == some 0 && h.ctxDone && (h.objs 0).conns == [0])
    (by decide +kernel)
  simp only [Bool.and_eq_true, beq_iff_eq] at hh
  refine ⟨_, _, h, 0, hpath, hh.1.1, by rw [hh.2]; exact cons_ne_nil _ _, fun o' _ => ?_⟩
  rw [loopDone, hh.1.2, Bool.true_or]

end Hub

end TangraDns.Streams
