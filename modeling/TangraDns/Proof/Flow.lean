/-
  Where the hub's loops stand in the streams (`LoopOK`), which subscriptions they have
  still to push to (`Flow`), and the entries a subscription is to get (`want`).
-/
import TangraDns.Proof.Hub

namespace TangraDns.Streams

open List Str Machine

variable {cfg : Config}
variable {e : Entry} {ev : Event}

/-! ## Wanted entries -/

/-- The events of the entries with `p` from `a` to `q`. -/
def want (p : Entry → Bool) (a q : ℕ) (log : List Entry) : List Event :=
  (((log.take q).drop a).filter p).map Entry.event

section Want

variable {p : Entry → Bool} {a q : ℕ} {log : List Entry}

theorem mem_between : e ∈ (log.take q).drop a ↔ ∃ j, a ≤ j ∧ j < q ∧ log[j]? = some e := by
  rw [mem_iff_getElem?]
  constructor
  · rintro ⟨k, hk⟩
    rw [getElem?_drop, getElem?_take] at hk
    split_ifs at hk with hlt
    exact ⟨a + k, Nat.le_add_right a k, hlt, hk⟩
  · rintro ⟨j, ha, hq, hj⟩
    refine ⟨j - a, ?_⟩
    rw [getElem?_drop, Nat.add_sub_cancel' ha, getElem?_take, if_pos hq, hj]

theorem want_self : want p a a log = [] := by
  rw [want, drop_take, Nat.sub_self]
  rfl

theorem want_succ (he : log[q]? = some e) (ha : a ≤ q) :
    want p a (q + 1) log = want p a q log ++ if p e then [e.event] else [] := by
  have hq : q < log.length := (List.getElem?_eq_some_iff.1 he).1
  have hlen : a ≤ (log.take q).length := by
    rw [length_take_of_le hq.le]
    exact ha
  rw [want, take_add_one, he, drop_append_of_le_length hlen, filter_append, map_append, want]
  congr 1
  cases hp : p e <;> simp [hp]

theorem want_skip {q' : ℕ} (hq : q ≤ q') (ha : a ≤ q)
    (h : ∀ e ∈ (log.take q').drop q, p e = false) :
    want p a q' log = want p a q log := by
  by_cases hlen : q ≤ log.length
  · have hsplit : log.take q' = log.take q ++ (log.take q').drop q := by
      conv_lhs => rw [← take_append_drop q (log.take q'), take_take, min_eq_left hq]
    have ha' : a ≤ (log.take q).length := by
      rw [length_take_of_le hlen]
      exact ha
    have hnil : ((log.take q').drop q).filter p = [] :=
      filter_eq_nil_iff.2 fun e he => by rw [h e he]; exact Bool.false_ne_true
    rw [want, hsplit, drop_append_of_le_length ha', filter_append, map_append, hnil, want]
    exact append_nil _
  · rw [want, want, take_of_length_le (by omega), take_of_length_le (by omega)]

theorem want_congr {p' : Entry → Bool} (h : ∀ e ∈ log, p e = p' e) :
    want p a q log = want p' a q log := by
  rw [want, want, filter_congr fun e he => h e (mem_of_mem_take (mem_of_mem_drop he))]

theorem want_prefix_log {log' : List Entry} (hlog : log <+: log') (hq : q ≤ log.length) :
    want p a q log' = want p a q log := by
  obtain ⟨r, rfl⟩ := hlog
  rw [want, take_append_of_le_length hq, want]

theorem want_prefix : want p a q log <+: ((log.drop a).filter p).map Entry.event := by
  refine List.IsPrefix.map _ (List.IsPrefix.filter _ ?_)
  exact (List.take_prefix q log).drop a

theorem mem_of_mem_want (h : ev ∈ want p a q log) :
    ∃ e ∈ log.take q, p e = true ∧ e.event = ev := by
  obtain ⟨e, he, rfl⟩ := List.mem_map.1 h
  obtain ⟨he, hp⟩ := List.mem_filter.1 he
  exact ⟨e, mem_of_mem_drop he, hp, rfl⟩

end Want

def newest (evs : List Event) : Str := (evs.getLast?.map Event.id).getD []

@[simp] theorem newest_nil : newest [] = [] := rfl

@[simp] theorem newest_append (evs : List Event) (ev : Event) :
    newest (evs ++ [ev]) = ev.id := by simp [newest]

theorem newest_eq (evs : List Event) : evs = [] ∨ ∃ ev ∈ evs, newest evs = ev.id := by
  rcases eq_nil_or_concat evs with h | ⟨l, ev, h⟩
  · exact Or.inl h
  · rw [concat_eq_append] at h
    refine Or.inr ⟨ev, ?_, ?_⟩
    · simp [h]
    · rw [h, newest_append]

theorem newest_of_mem {log : List Entry} (hlog : Ascending less Entry.id log) (he : e ∈ log) :
    ∃ x ∈ log, newest (log.map Entry.event) = x.id ∧ less x.id e.id = false := by
  rcases eq_nil_or_concat log with rfl | ⟨l, x, hl⟩
  · cases he
  rw [concat_eq_append] at hl
  subst hl
  refine ⟨x, by simp, by rw [map_append, map_singleton, newest_append]; rfl, ?_⟩
  rcases mem_append.1 he with he | he
  · exact less_asymm ((pairwise_append.1 hlog).2.2 e he x (mem_singleton_self x))
  · rw [mem_singleton.1 he]
    exact less_irrefl _

namespace Sub

variable {s : Sub}

def wanted (s : Sub) (e : Entry) : Bool := less s.lastID e.id && e.isFor s.user

def start (s : Sub) : ℕ := if s.lastID = [] then s.first else 0

theorem push_of_drops (h : s.drops ev = true) : s.push ev = (s, true) := by
  rw [push, if_pos h]

theorem push_of_new (hdrops : s.drops ev = false) (hchan : s.chanClosed = false)
    (hid : ev.id ≠ []) :
    s.push ev = if s.queue.length < 32
      then ({ s with last := ev.id, queue := s.queue ++ [ev] }, true)
      else ({ s with last := ev.id }, false) := by
  rw [push, if_neg (by rw [hdrops]; exact Bool.false_ne_true)]
  simp only [if_pos hid, hchan, Bool.false_eq_true, if_false]

theorem drops_eq_false (hopen : s.closed = false) (h : s.last = [] ∨ less s.last ev.id = true) :
    s.drops ev = false := by
  rw [drops, hopen, Bool.false_or]
  rcases h with h | h
  · simp [h]
  · simp [h]

end Sub

/-! ## Where the loops stand -/

def LoopPc.rest : LoopPc → List Entry
  | .batch rest | .pushing _ _ rest | .closing _ _ _ rest => rest
  | .waiting | .stopped => []

def LoopPc.entry : LoopPc → Option Entry
  | .pushing e _ _ | .closing _ e _ _ => some e
  | .waiting | .batch _ | .stopped => none

/-- The subscriptions that have not got the entry. -/
def LoopPc.pending : LoopPc → List ℕ
  | .pushing _ subs _ => subs
  | .closing i _ subs _ => i :: subs
  | .waiting | .batch _ | .stopped => []

def LoopPc.stalled : LoopPc → Option ℕ
  | .closing i _ _ _ => some i
  | .waiting | .batch _ | .pushing _ _ _ | .stopped => none

structure LoopOK (b : Bus) (t : TenantSub) : Prop where
  cursor : b.At (key t.tenant) (max t.pos (b.gone (key t.tenant))) t.last
  rest : t.pc.rest <+: (b.log (key t.tenant)).drop t.pos
  current : ∀ e, t.pc.entry = some e → 0 < t.pos ∧ (b.log (key t.tenant))[t.pos - 1]? = some e

namespace LoopOK

variable {b : Bus} {t : TenantSub}

theorem pos_le (ht : LoopOK b t) : t.pos ≤ (b.log (key t.tenant)).length :=
  (le_max_left _ _).trans ht.cursor.cursor.le

theorem new (b : Bus) (tenant : Str) (conns : List ℕ) (byUser : AList fun _ : Str => ℕ)
    (cancelled : Bool) :
    LoopOK b ⟨tenant, conns, byUser, cancelled, b.tail (key tenant), .waiting,
      (b.log (key tenant)).length⟩ where
  cursor := by
    rw [max_eq_left (b.gone_le _)]
    exact b.at_tail (key tenant)
  rest := nil_prefix
  current e he := by cases he

theorem xAdd (ht : LoopOK b t) (k : Str) (e : Entry) (hfresh : b.Fresh k e.id) :
    LoopOK (b.xAdd k e hfresh) t where
  cursor := ht.cursor.xAdd k e hfresh
  rest := ht.rest.trans ((Bus.log_prefix_xAdd k e hfresh _).drop _)
  current e' he' := by
    obtain ⟨hpos, hget⟩ := ht.current e' he'
    obtain ⟨hlt, rfl⟩ := List.getElem?_eq_some_iff.1 hget
    exact ⟨hpos, prefix_iff_getElem?.1 (Bus.log_prefix_xAdd k e hfresh _) _ hlt⟩

theorem trim (ht : LoopOK b t) (k : Str) (n : ℕ) (hn : b.gone k + n ≤ (b.log k).length) :
    LoopOK (b.trim k n hn) t where
  cursor := by
    have hat := ht.cursor.trim k n hn
    rwa [max_assoc, max_eq_right (Bus.gone_le_trim k n hn _)] at hat
  rest := ht.rest
  current := ht.current

theorem goto (ht : LoopOK b t) {pc : LoopPc} (hrest : pc.rest = t.pc.rest ∨ pc.rest = [])
    (hentry : ∀ e, pc.entry = some e → t.pc.entry = some e) : LoopOK b { t with pc := pc } where
  cursor := ht.cursor
  rest := by
    rcases hrest with hrest | hrest
    · simpa only [hrest] using ht.rest
    · simp only [hrest]
      exact nil_prefix
  current e he := ht.current e (hentry e he)

theorem read (ht : LoopOK b t) (n : ℕ) :
    LoopOK b { t with
      pc := .batch ((b.after (key t.tenant) t.last).take n)
      pos := max t.pos (b.gone (key t.tenant)) } where
  cursor := by
    simp only [max_assoc, max_self]
    exact ht.cursor
  rest := by
    simp only [LoopPc.rest]
    rw [ht.cursor.after_eq]
    exact take_prefix n _
  current e he := by cases he

theorem head (ht : LoopOK b t) {rest : List Entry} (hrest : t.pc.rest = e :: rest) :
    (b.log (key t.tenant))[t.pos]? = some e ∧ rest <+: (b.log (key t.tenant)).drop (t.pos + 1) := by
  have hpre := ht.rest
  rw [hrest] at hpre
  obtain ⟨r, hr⟩ := hpre
  constructor
  · rw [← Nat.add_zero t.pos, ← getElem?_drop, ← hr]
    rfl
  · rw [← drop_drop, ← hr]
    exact ⟨r, rfl⟩

theorem next (ht : LoopOK b t) {rest : List Entry} (hrest : t.pc.rest = e :: rest) (subs : List ℕ) :
    LoopOK b { t with last := e.id, pc := .pushing e subs rest, pos := t.pos + 1 } where
  cursor := Bus.At.after_entry (ht.head hrest).1
  rest := (ht.head hrest).2
  current e' he' := by
    cases he'
    exact ⟨Nat.succ_pos _, (ht.head hrest).1⟩

end LoopOK

namespace Hub

variable {h h' : Hub}

structure PendingOK (h : Hub) (t : TenantSub) : Prop where
  listed : ∀ i ∈ t.pc.pending, i < h.nsubs ∧ ((h.subs i).closed = true ∨ i ∈ t.conns)
  isFor : ∀ i ∈ t.pc.pending, ∀ e, t.pc.entry = some e → e.isFor (h.subs i).user = true
  nodup : t.pc.pending.Nodup

structure Flow (h : Hub) : Prop where
  unmade : ∀ o, h.nobjs ≤ o → (h.objs o).pc = .stopped
  loop : ∀ o < h.nobjs, LoopOK h.bus (h.objs o)
  pending : ∀ o, h.PendingOK (h.objs o)
  plain : ∀ i, (h.subs i).lastID = [] → (h.subs i).replay = .done ∧ (h.subs i).reset = false ∧
    (h.subs i).known = 0

theorem PendingOK.idle {t : TenantSub} (ht : t.pc.pending = []) : h.PendingOK t := by
  refine ⟨fun i hi => ?_, fun i hi => ?_, ?_⟩
  · rw [ht] at hi
    cases hi
  · rw [ht] at hi
    cases hi
  · rw [ht]
    exact nodup_nil

theorem PendingOK.shrink {t : TenantSub} (ht : h.PendingOK t) {pc : LoopPc}
    (hsub : ∀ i ∈ pc.pending, i ∈ t.pc.pending)
    (hentry : ∀ e, pc.entry = some e → t.pc.entry = some e)
    (hnodup : pc.pending.Nodup) : h.PendingOK { t with pc := pc } :=
  ⟨fun i hi => ht.listed i (hsub i hi), fun i hi e he => ht.isFor i (hsub i hi) e (hentry e he),
    hnodup⟩

theorem flow_new (bus : Bus) : (new bus).Flow where
  unmade _ _ := rfl
  loop o ho := absurd ho (Nat.not_lt_zero o)
  pending _ := .idle rfl
  plain _ _ := ⟨rfl, rfl, rfl⟩

theorem Flow.made (hf : h.Flow) {o : ℕ} (hpc : (h.objs o).pc ≠ .stopped) : o < h.nobjs := by
  by_contra ho
  exact hpc (hf.unmade o (Nat.le_of_not_lt ho))

theorem Flow.setBus (hf : h.Flow) {b : Bus} (hloop : ∀ o < h.nobjs, LoopOK b (h.objs o)) :
    Flow { h with bus := b } :=
  ⟨hf.unmade, hloop, fun o => ⟨(hf.pending o).listed, (hf.pending o).isFor, (hf.pending o).nodup⟩,
    hf.plain⟩

theorem Flow.setSub (hf : h.Flow) {i : ℕ} {s : Sub} (huser : s.user = (h.subs i).user)
    (hclosed : s.closed = (h.subs i).closed)
    (hplain : s.lastID = [] → s.replay = .done ∧ s.reset = false ∧ s.known = 0) :
    (h.setSub i s).Flow where
  unmade := hf.unmade
  loop := hf.loop
  pending o := by
    have huser' := apply_update_eq Sub.user h.subs huser
    have hclosed' := apply_update_eq Sub.closed h.subs hclosed
    refine ⟨fun j hj => ?_, fun j hj e he => ?_, (hf.pending o).nodup⟩
    · have := (hf.pending o).listed j hj
      rwa [← hclosed' j] at this
    · have := (hf.pending o).isFor j hj e he
      rwa [← huser' j] at this
  plain j hj := by
    by_cases hji : j = i
    · subst hji
      simp only [Hub.setSub, Function.update_self] at hj ⊢
      exact hplain hj
    · simp only [Hub.setSub, Function.update_of_ne hji] at hj ⊢
      exact hf.plain j hj

theorem Flow.setObj (hf : h.Flow) {o : ℕ} (ho : o < h.nobjs) {t : TenantSub}
    (hloop : LoopOK h.bus t)
    (hpending : h.PendingOK t) : (h.setObj o t).Flow where
  unmade o' ho' := by
    have hne : o' ≠ o := fun heq => absurd ho (heq ▸ Nat.not_lt.2 ho')
    simp only [Hub.setObj, Function.update_of_ne hne]
    exact hf.unmade o' ho'
  loop o' ho' := by
    by_cases hne : o' = o
    · simpa [Hub.setObj, hne] using hloop
    · simpa [Hub.setObj, hne] using hf.loop o' ho'
  pending o' := by
    by_cases hne : o' = o
    · have : (h.setObj o t).objs o' = t := by simp [Hub.setObj, hne]
      rw [this]
      exact ⟨hpending.listed, hpending.isFor, hpending.nodup⟩
    · have : (h.setObj o t).objs o' = h.objs o' := by simp [Hub.setObj, hne]
      rw [this]
      exact ⟨(hf.pending o').listed, (hf.pending o').isFor, (hf.pending o').nodup⟩
  plain := hf.plain

theorem closeSub_subs (hinv : h.Inv cfg) (i : ℕ) :
    (h.closeSub i).nsubs = h.nsubs ∧ ((h.closeSub i).subs i).closed = true ∧
      (∀ j ≠ i, (h.closeSub i).subs j = h.subs j) ∧
      (∀ o, ∀ j ≠ i, j ∈ (h.objs o).conns → j ∈ ((h.closeSub i).objs o).conns) ∧
      (h.closeSub i = h ∨ (h.closeSub i).subs i = (h.subs i).shut) := by
  cases hopen : (h.subs i).closed with
  | true =>
    rw [closeSub_of_closed hinv hopen]
    exact ⟨rfl, hopen, fun _ _ => rfl, fun _ _ _ => id, Or.inl rfl⟩
  | false =>
    obtain ⟨o, ho⟩ := Option.isSome_iff_exists.1 (hinv.open_ i hopen)
    have hnodup := (hinv.entry _ o ho).nodup
    have hself : Function.update h.subs i (h.subs i).shut i = (h.subs i).shut :=
      Function.update_self ..
    have hother : ∀ j ≠ i, Function.update h.subs i (h.subs i).shut j = h.subs j := fun j hj =>
      Function.update_of_ne hj ..
    have hconns : ∀ t : TenantSub, t.conns = (h.objs o).conns.erase i →
        ∀ o', ∀ j ≠ i, j ∈ (h.objs o').conns →
        j ∈ (Function.update h.objs o t o').conns := by
      intro t ht o' j hj hmem
      by_cases hoo : o' = o
      · subst hoo
        rw [Function.update_self, ht]
        exact (mem_erase_of_ne hj).2 hmem
      · rwa [Function.update_of_ne hoo]
    rw [closeSub_eq hinv hopen ho]
    dsimp only
    split_ifs
    · exact ⟨rfl, congrArg Sub.closed hself, hother, hconns _ rfl, Or.inr hself⟩
    · exact ⟨rfl, congrArg Sub.closed hself, hother, hconns _ rfl, Or.inr hself⟩

theorem Flow.closeSub (hf : h.Flow) (hinv : h.Inv cfg) (i : ℕ) : (h.closeSub i).Flow := by
  obtain ⟨hnobjs, -, hbus, hobjs⟩ := closeSub_frame h i
  obtain ⟨hnsubs, hclosed, hother, hconns, hself⟩ := closeSub_subs hinv i
  have huser : ∀ j, ((h.closeSub i).subs j).user = (h.subs j).user := by
    intro j
    by_cases hj : j = i
    · subst hj
      rcases hself with heq | heq
      · rw [heq]
      · rw [heq]
        rfl
    · rw [hother j hj]
  refine ⟨fun o ho => ?_, fun o ho => ?_, fun o => ⟨fun j hj => ?_, fun j hj e he => ?_, ?_⟩,
    fun j hj => ?_⟩
  · rw [(hobjs o).1]
    exact hf.unmade o (hnobjs ▸ ho)
  · obtain ⟨hpc, hpos, hlast, htenant, -⟩ := hobjs o
    have ht := hf.loop o (hnobjs ▸ ho)
    rw [hbus]
    refine ⟨?_, ?_, ?_⟩
    · rw [hpos, hlast, htenant]
      exact ht.cursor
    · rw [hpc, hpos, htenant]
      exact ht.rest
    · rw [hpc, hpos, htenant]
      exact ht.current
  · rw [(hobjs o).1] at hj
    obtain ⟨hlt, hmem⟩ := (hf.pending o).listed j hj
    rw [hnsubs]
    refine ⟨hlt, ?_⟩
    by_cases hji : j = i
    · exact Or.inl (hji ▸ hclosed)
    · rw [hother j hji]
      exact hmem.imp_right (hconns o j hji)
  · rw [(hobjs o).1] at hj he
    rw [huser]
    exact (hf.pending o).isFor j hj e he
  · rw [(hobjs o).1]
    exact (hf.pending o).nodup
  · by_cases hji : j = i
    · subst hji
      rcases hself with heq | heq
      · rw [heq] at hj ⊢
        exact hf.plain j hj
      · rw [heq] at hj ⊢
        exact hf.plain j hj
    · rw [hother j hji] at hj ⊢
      exact hf.plain j hj

theorem Flow.tenantSub (hf : h.Flow) (tenant : Str) : (h.tenantSub tenant).1.Flow := by
  unfold Hub.tenantSub
  split
  · exact hf
  · refine ⟨fun o ho => ?_, fun o ho => ?_, fun o => ?_, hf.plain⟩
    · have hne : o ≠ h.nobjs := (Nat.lt_of_succ_le ho).ne'
      simp only [Function.update_of_ne hne]
      exact hf.unmade o (Nat.le_of_succ_le ho)
    · by_cases hne : o = h.nobjs
      · subst hne
        simp only [Function.update_self]
        exact LoopOK.new h.bus tenant _ _ _
      · simp only [Function.update_of_ne hne]
        exact hf.loop o (lt_of_le_of_ne (Nat.le_of_lt_succ ho) hne)
    · by_cases hne : o = h.nobjs
      · subst hne
        simp only [Function.update_self]
        exact .idle rfl
      · simp only [Function.update_of_ne hne]
        exact ⟨(hf.pending o).listed, (hf.pending o).isFor, (hf.pending o).nodup⟩

theorem Flow.insert (hf : h.Flow) (o : ℕ) (tenant user lastID : Str) :
    (h.insert o tenant user lastID).Flow := by
  have hframe := insert_frame h o tenant user lastID
  have hconns : ∀ o', ∀ i ∈ (h.objs o').conns, i ∈
      ((h.insert o tenant user lastID).objs o').conns := by
    intro o' i hi
    by_cases ho : o' = o
    · subst ho
      simp [Hub.insert, hi]
    · simpa [Hub.insert, ho] using hi
  have hsubs : ∀ i < h.nsubs, (h.insert o tenant user lastID).subs i = h.subs i := fun i hi =>
    Function.update_of_ne hi.ne ..
  refine ⟨fun o' ho' => ?_, fun o' ho' => ?_, fun o' => ⟨fun i hi => ?_, fun i hi e he => ?_, ?_⟩,
    fun i hi => ?_⟩
  · rw [(hframe o').1]
    exact hf.unmade o' ho'
  · obtain ⟨hpc, hpos, hlast, htenant, -⟩ := hframe o'
    have ht := hf.loop o' ho'
    refine ⟨?_, ?_, ?_⟩
    · rw [hpos, hlast, htenant]
      exact ht.cursor
    · rw [hpc, hpos, htenant]
      exact ht.rest
    · rw [hpc, hpos, htenant]
      exact ht.current
  · rw [(hframe o').1] at hi
    obtain ⟨hlt, hmem⟩ := (hf.pending o').listed i hi
    rw [hsubs i hlt]
    exact ⟨Nat.lt_succ_of_lt hlt, hmem.imp_right (hconns o' i)⟩
  · rw [(hframe o').1] at hi he
    rw [hsubs i ((hf.pending o').listed i hi).1]
    exact (hf.pending o').isFor i hi e he
  · rw [(hframe o').1]
    exact (hf.pending o').nodup
  · by_cases hin : i = h.nsubs
    · subst hin
      simp only [Hub.insert, Function.update_self, opened] at hi ⊢
      simp [hi]
    · have hsub : (h.insert o tenant user lastID).subs i = h.subs i := Function.update_of_ne hin ..
      rw [hsub] at hi ⊢
      exact hf.plain i hi

theorem push_keeps (s : Sub) (ev : Event) :
    (s.push ev).1.user = s.user ∧ (s.push ev).1.closed = s.closed ∧
    (s.push ev).1.lastID = s.lastID ∧
      (s.push ev).1.replay = s.replay ∧ (s.push ev).1.reset = s.reset ∧
      (s.push ev).1.known = s.known ∧
      (s.push ev).1.first = s.first ∧ (s.push ev).1.since = s.since ∧
      (s.push ev).1.tenant = s.tenant := by
  unfold Sub.push
  dsimp only
  split_ifs <;> exact ⟨rfl, rfl, rfl, rfl, rfl, rfl, rfl, rfl, rfl⟩

theorem Flow.push (hf : h.Flow) (i : ℕ) (ev : Event) :
    (h.setSub i ((h.subs i).push ev).1).Flow := by
  obtain ⟨huser, hclosed, hlastID, hreplay, hreset, hknown, -⟩ := push_keeps (h.subs i) ev
  refine hf.setSub huser hclosed fun hnil => ?_
  rw [hreplay, hreset, hknown]
  exact hf.plain i (hlastID ▸ hnil)

theorem Flow.replaying (hf : h.Flow) {i : ℕ} (h1 : (h.subs i).replay ≠ .done) :
    (h.subs i).lastID ≠ [] := fun hnil =>
  h1 (hf.plain i hnil).1

theorem Flow.step {l : Step} (hf : h.Flow) (hinv : h.Inv cfg) (hl : h.step cfg l = some h') :
    h'.Flow := by
  cases move_of_step hl with
  | append _ k e hfresh => exact hf.setBus fun o ho => (hf.loop o ho).xAdd k e hfresh
  | refused => exact hf
  | trim k n hn => exact hf.setBus fun o ho => (hf.loop o ho).trim k n hn
  | subscribe tenant user lastID ok =>
    rcases subscribe_cases cfg hinv tenant user lastID ok with heq | ⟨-, heq, -⟩
    · rwa [heq]
    · rw [heq]
      exact (hf.tenantSub tenant).insert _ tenant user lastID
  | reset i now ok data hreplay =>
    obtain ⟨huser, hclosed, hlastID, -⟩ := push_keeps (h.subs i) ⟨[], str "reset", data⟩
    refine hf.setSub huser hclosed fun hnil => ?_
    exact absurd (hlastID ▸ hnil) (hf.replaying (by rw [hreplay]; exact Replay.noConfusion))
  | replay i now hreplay =>
    exact hf.setSub rfl rfl fun hnil =>
      absurd hnil (hf.replaying (by rw [hreplay]; exact Replay.noConfusion))
  | replayed i hreplay =>
    exact hf.setSub rfl rfl fun hnil =>
      absurd hnil (hf.replaying (by rw [hreplay]; exact Replay.noConfusion))
  | replayPush i e rest hreplay =>
    obtain ⟨huser, hclosed, hlastID, -⟩ := push_keeps (h.subs i) e.event
    have hne := hf.replaying (i := i) (by rw [hreplay]; exact Replay.noConfusion)
    split_ifs
    · exact hf.setSub huser hclosed fun hnil => absurd (hlastID ▸ hnil) hne
    · exact hf.setSub rfl rfl fun hnil => absurd hnil hne
  | receive i ev q hq => exact hf.setSub rfl rfl (hf.plain i)
  | close i => exact hf.closeSub hinv i
  | wait _ o pc hpc hpc' =>
    have ho : o < h.nobjs :=
      hf.made (by rcases hpc with hpc | hpc <;> rw [hpc] <;> exact LoopPc.noConfusion)
    have hnil : pc.rest = [] ∧ pc.entry = none ∧ pc.pending = [] := by
      rcases hpc' with rfl | ⟨rfl, -⟩ <;> exact ⟨rfl, rfl, rfl⟩
    refine hf.setObj ho ((hf.loop o ho).goto (Or.inr hnil.1) fun e he => ?_) (.idle hnil.2.2)
    rw [hnil.2.1] at he
    cases he
  | read o n hpc =>
    have ho : o < h.nobjs := hf.made (by rw [hpc]; exact LoopPc.noConfusion)
    exact hf.setObj ho ((hf.loop o ho).read n) (.idle rfl)
  | next o e rest hpc =>
    have ho : o < h.nobjs := hf.made (by rw [hpc]; exact LoopPc.noConfusion)
    refine hf.setObj ho ((hf.loop o ho).next (by rw [hpc]; rfl) _)
      ⟨fun i hi => ?_, fun i hi e' he' => ?_, ?_⟩
    · have hmem := (List.mem_filter.1 hi).1
      refine ⟨?_, Or.inr hmem⟩
      by_contra hlt
      have hclosed := hinv.fresh i (Nat.le_of_not_lt hlt)
      rw [(hinv.of_mem_conns hmem).1] at hclosed
      cases hclosed
    · cases he'
      exact (List.mem_filter.1 hi).2
    · exact (hinv.nodup_conns o).filter _
  | dispatched o e rest hpc =>
    have ho : o < h.nobjs := hf.made (by rw [hpc]; exact LoopPc.noConfusion)
    refine hf.setObj ho ((hf.loop o ho).goto (Or.inl (by rw [hpc]; rfl)) fun e he => by cases he)
      (.idle rfl)
  | push o i e subs rest hpc hi =>
    have ho : o < h.nobjs := hf.made (by rw [hpc]; exact LoopPc.noConfusion)
    have hf' := hf.push i e.event
    have hpc' : ((h.setSub i ((h.subs i).push e.event).1).objs o).pc = .pushing e subs rest := hpc
    have hnodup : subs.Nodup := by
      have := (hf.pending o).nodup
      rwa [hpc] at this
    split_ifs
    · refine hf'.setObj ho ((hf'.loop o ho).goto (Or.inl (by rw [hpc']; rfl)) fun e' he' => ?_)
        ((hf'.pending o).shrink (fun j hj => ?_) (fun e' he' => ?_) (hnodup.erase i))
      · rw [hpc']
        exact he'
      · rw [hpc']
        exact mem_of_mem_erase hj
      · rw [hpc']
        exact he'
    · refine hf'.setObj ho ((hf'.loop o ho).goto (Or.inl (by rw [hpc']; rfl)) fun e' he' => ?_)
        ((hf'.pending o).shrink (fun j hj => ?_) (fun e' he' => ?_) ?_)
      · rw [hpc']
        exact he'
      · rw [hpc']
        rcases mem_cons.1 hj with rfl | hj
        · exact hi
        · exact mem_of_mem_erase hj
      · rw [hpc']
        exact he'
      · exact nodup_cons.2 ⟨hnodup.not_mem_erase, hnodup.erase i⟩
  | drop o i e subs rest hpc =>
    have hf' := hf.closeSub hinv i
    have hpc' : ((h.closeSub i).objs o).pc = .closing i e subs rest :=
      ((closeSub_frame h i).2.2.2 o).1.trans hpc
    have ho : o < (h.closeSub i).nobjs := hf'.made (by rw [hpc']; exact LoopPc.noConfusion)
    have hnodup := (hf'.pending o).nodup
    rw [hpc'] at hnodup
    refine hf'.setObj ho ((hf'.loop o ho).goto (Or.inl (by rw [hpc']; rfl)) fun e' he' => ?_)
      ((hf'.pending o).shrink (fun j hj => ?_) (fun e' he' => ?_) (nodup_cons.1 hnodup).2)
    · rw [hpc']
      exact he'
    · rw [hpc']
      exact mem_cons_of_mem _ hj
    · rw [hpc']
      exact he'
  | hub _ ctxDone hctx cs =>
    exact ⟨hf.unmade, hf.loop, fun o => ⟨(hf.pending o).listed, (hf.pending o).isFor,
      (hf.pending o).nodup⟩, hf.plain⟩
  | hubClose c i cs =>
    have hf' := hf.closeSub hinv i
    exact ⟨hf'.unmade, hf'.loop, fun o =>
      ⟨(hf'.pending o).listed, (hf'.pending o).isFor, (hf'.pending o).nodup⟩,
      hf'.plain⟩

end Hub

end TangraDns.Streams
