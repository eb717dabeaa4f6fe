/-
  What an open subscription has got (`ServedBy`): from its replay, and from the entries
  its tenant's loop has passed.
-/
import TangraDns.Proof.Flow

namespace TangraDns.Streams

open List Str Machine

variable {cfg : Config}
variable {t' : TenantSub} {j o : ℕ}
variable {i : ℕ} {t : TenantSub}

/-- How many entries the loop has passed that the subscription `i` is not about to get. -/
def passed (i : ℕ) (t : TenantSub) : ℕ := t.pos - if i ∈ t.pc.pending then 1 else 0

theorem passed_of_mem (h : i ∈ t.pc.pending) : passed i t = t.pos - 1 := by
  rw [passed, if_pos h]

theorem passed_of_not_mem (h : i ∉ t.pc.pending) : passed i t = t.pos := by
  rw [passed, if_neg h]
  rfl

theorem passed_congr (hpos : t'.pos = t.pos)
    (hmem : i ∈ t'.pc.pending ↔ i ∈ t.pc.pending) : passed i t' = passed i t := by
  by_cases h : i ∈ t.pc.pending
  · rw [passed_of_mem h, passed_of_mem (hmem.2 h), hpos]
  · rw [passed_of_not_mem h, passed_of_not_mem (mt hmem.1 h), hpos]

structure Replayed (log : List Entry) (s : Sub) (n : ℕ) (rest : List Entry) : Prop where
  split : ∃ done, (log.take s.known).filter (fun e => less s.lastID e.id) = done ++ rest ∧
    s.delivered = (done.filter fun e => e.isFor s.user).map Entry.event
  quiet : ∀ e ∈ (log.take n).drop s.known, s.wanted e = false

/-- What the subscription `i` has got, where its tenant's loop stands as in `t`. -/
structure ServedBy (b : Bus) (s : Sub) (i : ℕ) (t : TenantSub) : Prop where
  first : s.first ≤ passed i t
  known : s.known ≤ (b.log (key s.tenant)).length
  last : t.pc.stalled ≠ some i → s.last = newest s.delivered
  stalled : t.pc.stalled = some i → s.replay = .done
  asking : s.replay = .asking → s.delivered = []
  pushing : ∀ rest, s.replay = .pushing rest → Replayed (b.log (key s.tenant)) s (passed i t) rest
  done : s.replay = .done →
    s.delivered = want s.wanted s.start (max s.known (passed i t)) (b.log (key s.tenant))

namespace ServedBy

variable {b : Bus} {s : Sub} {i : ℕ} {t : TenantSub}
variable {e : Entry}

theorem congr (hs : ServedBy b s i t) (hpassed : passed i t' = passed i t)
    (hstalled : t'.pc.stalled = some i ↔ t.pc.stalled = some i) : ServedBy b s i t' where
  first := hpassed ▸ hs.first
  known := hs.known
  last h := hs.last fun h' => h (hstalled.2 h')
  stalled h := hs.stalled (hstalled.1 h)
  asking := hs.asking
  pushing := hpassed ▸ hs.pushing
  done := hpassed ▸ hs.done

theorem start_le (hs : ServedBy b s i t) : s.start ≤ passed i t := by
  unfold Sub.start
  split_ifs
  · exact hs.first
  · exact Nat.zero_le _

theorem pass (hs : ServedBy b s i t) (hle : passed i t ≤ passed i t')
    (hskip : ∀ j e, passed i t ≤ j → j < passed i t' → s.known ≤ j →
      (b.log (key s.tenant))[j]? = some e →
      s.wanted e = false)
    (hstalled : t.pc.stalled ≠ some i) (hstalled' : t'.pc.stalled ≠ some i) :
      ServedBy b s i t' where
  first := hs.first.trans hle
  known := hs.known
  last _ := hs.last hstalled
  stalled h := absurd h hstalled'
  asking := hs.asking
  pushing rest hrest := by
    refine ⟨(hs.pushing rest hrest).split, fun e he => ?_⟩
    obtain ⟨j, hj, hj', hget⟩ := mem_between.1 he
    by_cases hold : j < passed i t
    · exact (hs.pushing rest hrest).quiet e (mem_between.2 ⟨j, hj, hold, hget⟩)
    · exact hskip j e (Nat.le_of_not_lt hold) hj' hj hget
  done h := by
    rw [hs.done h]
    refine (want_skip (max_le_max_left _ hle) (hs.start_le.trans (le_max_right _ _))
      fun e he => ?_).symm
    obtain ⟨j, hj, hj', hget⟩ := mem_between.1 he
    exact hskip j e (by omega) (by omega) (by omega) hget

theorem xAdd (hs : ServedBy b s i t) (hpassed : passed i t ≤ (b.log (key s.tenant)).length)
    (k : Str) (e : Entry)
    (hfresh : b.Fresh k e.id) : ServedBy (b.xAdd k e hfresh) s i t := by
  have hpre := Bus.log_prefix_xAdd k e hfresh (key s.tenant)
  have htake : ∀ n ≤ (b.log (key s.tenant)).length,
      ((b.xAdd k e hfresh).log (key s.tenant)).take n = (b.log (key s.tenant)).take n := by
    obtain ⟨r, hr⟩ := hpre
    intro n hn
    rw [← hr, take_append_of_le_length hn]
  refine ⟨hs.first, hs.known.trans hpre.length_le, hs.last, hs.stalled, hs.asking,
    fun rest hrest => ?_, fun h => ?_⟩
  · obtain ⟨hsplit, hquiet⟩ := hs.pushing rest hrest
    refine ⟨?_, ?_⟩
    · rw [htake _ hs.known]
      exact hsplit
    · rw [htake _ hpassed]
      exact hquiet
  · rw [hs.done h, want_prefix_log hpre (max_le hs.known hpassed)]

theorem receive (hs : ServedBy b s i t) {ev : Event} {q : List Event} (hq : s.queue = ev :: q) :
    ServedBy b { s with queue := q, received := s.received ++ [ev] } i t := by
  have hdelivered : ({ s with queue := q, received := s.received ++ [ev] } : Sub).delivered =
      s.delivered := by
    simp [Sub.delivered, hq]
  refine ⟨hs.first, hs.known, ?_, hs.stalled, ?_, fun rest hrest => ?_, ?_⟩
  · rw [hdelivered]
    exact hs.last
  · rw [hdelivered]
    exact hs.asking
  · obtain ⟨hsplit, hquiet⟩ := hs.pushing rest hrest
    exact ⟨by rw [hdelivered]; exact hsplit, hquiet⟩
  · rw [hdelivered]
    exact hs.done

/-! ### The replay -/

theorem replay (hs : ServedBy b s i t) (hreplay : s.replay = .asking) {n : ℕ}
    (hlen : (b.after (key s.tenant) s.lastID).length ≤ n)
    (hgone : ∀ e ∈ (b.log (key s.tenant)).take (b.gone (key s.tenant)), less s.lastID e.id = false)
    (hpassed : passed i t ≤ (b.log (key s.tenant)).length) :
    ServedBy b { s with
      replay := .pushing ((b.after (key s.tenant) s.lastID).take n)
      known := (b.log (key s.tenant)).length } i t := by
  have hentries : (b.after (key s.tenant) s.lastID).take n =
      (b.log (key s.tenant)).filter fun e => less s.lastID e.id := by
    have hnil : ((b.log (key s.tenant)).take (b.gone (key s.tenant))).filter
        (fun e => less s.lastID e.id) = [] :=
      filter_eq_nil_iff.2 fun e he => by rw [hgone e he]; exact Bool.false_ne_true
    rw [take_of_length_le hlen]
    conv_rhs => rw [← take_append_drop (b.gone (key s.tenant)) (b.log (key s.tenant)),
      filter_append, hnil]
    rfl
  refine ⟨hs.first, le_rfl, hs.last, fun h => ?_, (fun h => by cases h), fun rest hrest => ?_,
    (fun h => by cases h)⟩
  · rw [hs.stalled h] at hreplay
    cases hreplay
  · cases hrest
    refine ⟨⟨[], ?_, hs.asking hreplay⟩, fun e he => ?_⟩
    · rw [take_length, hentries]
      rfl
    · obtain ⟨j, hj, hj', -⟩ := mem_between.1 he
      simp only at hj
      omega

theorem replayed (hs : ServedBy b s i t) (hreplay : s.replay = .pushing [])
    (hlastID : s.lastID ≠ []) :
    ServedBy b { s with replay := .done } i t := by
  obtain ⟨⟨done, hsplit, hdelivered⟩, hquiet⟩ := hs.pushing [] hreplay
  refine ⟨hs.first, hs.known, hs.last, fun _ => rfl, (fun h => by cases h),
    (fun rest h => by cases h), fun _ => ?_⟩
  have hstart : ({ s with replay := .done } : Sub).start = 0 := if_neg hlastID
  rw [append_nil] at hsplit
  rw [hstart]
  calc s.delivered
      = want s.wanted 0 s.known (b.log (key s.tenant)) := by
        rw [hdelivered, ← hsplit, List.filter_filter, want, drop_zero]
        simp only [Bool.and_comm]
        rfl
    _ = want s.wanted 0 (max s.known (passed i t)) (b.log (key s.tenant)) := by
        refine (want_skip (le_max_left _ _) (Nat.zero_le _) fun e he => ?_).symm
        obtain ⟨j, hj, hj', hget⟩ := mem_between.1 he
        exact hquiet e (mem_between.2 ⟨j, hj, by omega, hget⟩)

theorem mem_delivered (hs : ServedBy b s i t) {ev : Event} (hev : ev ∈ s.delivered) :
    ∃ j e, j < max s.known (passed i t) ∧ (b.log (key s.tenant))[j]? = some e ∧ e.event = ev := by
  cases hreplay : s.replay with
  | asking =>
    rw [hs.asking hreplay] at hev
    cases hev
  | pushing rest =>
    obtain ⟨⟨done, hsplit, hdelivered⟩, -⟩ := hs.pushing rest hreplay
    rw [hdelivered] at hev
    obtain ⟨e, he, rfl⟩ := List.mem_map.1 hev
    have hmem : e ∈ (b.log (key s.tenant)).take s.known := by
      have : e ∈ done ++ rest := mem_append_left _ (List.mem_filter.1 he).1
      rw [← hsplit] at this
      exact (List.mem_filter.1 this).1
    obtain ⟨j, -, hj, hget⟩ := (mem_between (a := 0)).1 hmem
    exact ⟨j, e, lt_max_of_lt_left hj, hget, rfl⟩
  | done =>
    rw [hs.done hreplay] at hev
    obtain ⟨e, he, -, rfl⟩ := mem_of_mem_want hev
    obtain ⟨j, -, hj, hget⟩ := (mem_between (a := 0)).1 he
    exact ⟨j, e, hj, hget, rfl⟩

theorem not_drops (hs : ServedBy b s i t) (hstalled : t.pc.stalled ≠ some i)
    (hopen : s.closed = false)
    (hget : (b.log (key s.tenant))[j]? = some e) (hj : max s.known (passed i t) ≤ j) :
    s.drops e.event = false := by
  refine Sub.drops_eq_false hopen ?_
  rw [hs.last hstalled]
  rcases newest_eq s.delivered with hnil | ⟨ev, hev, hnewest⟩
  · exact Or.inl (by rw [hnil, newest_nil])
  · right
    obtain ⟨j', e', hj', hget', rfl⟩ := hs.mem_delivered hev
    rw [hnewest]
    exact Bus.less_of_index hget' hget (by omega)

theorem replayPush (hs : ServedBy b s i t) {rest : List Entry}
    (hreplay : s.replay = .pushing (e :: rest))
    (hopen : s.closed = false) (hchan : s.chanClosed = false)
    (hroom : e.isFor s.user = true → s.drops e.event = true ∨ s.queue.length < 32) :
    ServedBy b { (if e.isFor s.user then (s.push e.event).1 else s) with replay := .pushing rest } i
      t := by
  obtain ⟨⟨done, hsplit, hdelivered⟩, hquiet⟩ := hs.pushing _ hreplay
  have hstalled : t.pc.stalled ≠ some i := fun h => by
    rw [hs.stalled h] at hreplay
    cases hreplay
  have hsplit' : ((b.log (key s.tenant)).take s.known).filter (fun e => less s.lastID e.id) =
      (done ++ [e]) ++ rest := by rw [hsplit, append_assoc, singleton_append]
  by_cases hfor : e.isFor s.user = true
  · rw [if_pos hfor]
    have hmem : e ∈ (b.log (key s.tenant)).take s.known := by
      have : e ∈ done ++ e :: rest := by simp
      rw [← hsplit] at this
      exact (List.mem_filter.1 this).1
    have hid : e.event.id ≠ [] := Bus.ne_nil_of_mem (mem_of_mem_take hmem)
    -- what was replayed so far comes before
    have hdrops : s.drops e.event = false := by
      refine Sub.drops_eq_false hopen ?_
      rw [hs.last hstalled]
      rcases newest_eq s.delivered with hnil | ⟨ev, hev, hnewest⟩
      · exact Or.inl (by rw [hnil, newest_nil])
      · right
        rw [hdelivered] at hev
        obtain ⟨e', he', rfl⟩ := List.mem_map.1 hev
        have hsorted : Ascending less Entry.id (done ++ e :: rest) := by
          rw [← hsplit]
          exact (b.ascending _).sublist (filter_sublist.trans (take_sublist _ _))
        rw [hnewest]
        exact (pairwise_append.1 hsorted).2.2 e' (List.mem_filter.1 he').1 e mem_cons_self
    have hlen : s.queue.length < 32 :=
      (hroom hfor).resolve_left (by rw [hdrops]; exact Bool.false_ne_true)
    rw [Sub.push_of_new hdrops hchan hid, if_pos hlen]
    have hdelivered' : s.received ++ (s.queue ++ [e.event]) = s.delivered ++ [e.event] := by
      simp [Sub.delivered]
    refine ⟨hs.first, hs.known, fun _ => ?_, fun h => absurd h hstalled, (fun h => by cases h),
      fun rest' hrest' => ?_,
      (fun h => by cases h)⟩
    · exact (congrArg newest hdelivered').trans (newest_append _ _) |>.symm
    · cases hrest'
      refine ⟨⟨done ++ [e], hsplit', ?_⟩, hquiet⟩
      refine hdelivered'.trans ?_
      rw [hdelivered, filter_append, map_append]
      simp [hfor]
  · rw [if_neg hfor]
    refine ⟨hs.first, hs.known, hs.last, fun h => absurd h hstalled, (fun h => by cases h),
      fun rest' hrest' => ?_,
      (fun h => by cases h)⟩
    cases hrest'
    refine ⟨⟨done ++ [e], hsplit', ?_⟩, hquiet⟩
    refine hdelivered.trans ?_
    rw [filter_append]
    simp [hfor]

/-! ### The loop -/

theorem drops_of_known (hs : ServedBy b s i t) (hstalled : t.pc.stalled ≠ some i)
    (hreplay : s.replay = .done)
    (hget : (b.log (key s.tenant))[j]? = some e) (hstart : s.start ≤ j) (hj : j < s.known)
    (hwanted : s.wanted e = true) : s.drops e.event = true := by
  have hmem : e ∈ (((b.log (key s.tenant)).take (max s.known (passed i t))).drop s.start).filter
      s.wanted :=
    List.mem_filter.2 ⟨mem_between.2 ⟨j, hstart, lt_max_of_lt_left hj, hget⟩, hwanted⟩
  have hsorted : Ascending less Entry.id
      ((((b.log (key s.tenant)).take (max s.known (passed i t))).drop s.start).filter s.wanted) :=
    (b.ascending _).sublist (filter_sublist.trans ((drop_sublist _ _).trans (take_sublist _ _)))
  obtain ⟨x, hx, hnewest, hless⟩ := newest_of_mem hsorted hmem
  have hlast : s.last = x.id := by
    rw [hs.last hstalled, hs.done hreplay]
    exact hnewest
  have hne : ∀ y ∈ b.log (key s.tenant), y.id ≠ [] := fun y hy => Bus.ne_nil_of_mem hy
  have hx' : x.id ≠ [] := hne x (mem_of_mem_take (mem_of_mem_drop (List.mem_filter.1 hx).1))
  have he' : e.event.id ≠ [] := hne e (mem_of_getElem? hget)
  have hless' : less s.last e.event.id = false := hlast ▸ hless
  simp [Sub.drops, he', hlast ▸ hx', hless']

section Push

variable {e : Entry} {subs : List ℕ} {rest : List Entry}

theorem stalled_of_pushing (hpc : t.pc = .pushing e subs rest) : t.pc.stalled ≠ some i := by
  rw [hpc]
  intro h
  cases h

theorem push_dropped (hs : ServedBy b s i t) (hpc : t.pc = .pushing e subs rest) (hi : i ∈ subs)
    (hnodup : subs.Nodup)
    (hget : (b.log (key s.tenant))[t.pos - 1]? = some e) (hopen : s.closed = false)
    (hdrops : s.drops e.event = true) :
    ServedBy b s i { t with pc := .pushing e (subs.erase i) rest } := by
  have hstalled := stalled_of_pushing (i := i) hpc
  have hpassed : passed i t = t.pos - 1 := passed_of_mem (by rw [hpc]; exact hi)
  have hnew : passed i { t with pc := .pushing e (subs.erase i) rest } = t.pos :=
    passed_of_not_mem hnodup.not_mem_erase
  refine hs.pass (by rw [hpassed, hnew]; exact Nat.sub_le _ _)
    (fun j e' hj hj' hknown hget' => ?_) hstalled
    (fun h => by cases h)
  rw [hpassed] at hj
  rw [hnew] at hj'
  obtain rfl : j = t.pos - 1 := by omega
  rw [hs.not_drops hstalled hopen hget (by omega)] at hdrops
  cases hdrops

theorem push_sent (hs : ServedBy b s i t) (hpc : t.pc = .pushing e subs rest) (hi : i ∈ subs)
    (hnodup : subs.Nodup)
    (hpos : 0 < t.pos) (hget : (b.log (key s.tenant))[t.pos - 1]? = some e)
    (hdrops : s.drops e.event = false)
    (hreplay : s.replay = .done) (hwanted : s.wanted e = true) :
    ServedBy b { s with last := e.event.id, queue := s.queue ++ [e.event] } i
      { t with pc := .pushing e (subs.erase i) rest } := by
  have hstalled := stalled_of_pushing (i := i) hpc
  have hpassed : passed i t = t.pos - 1 := passed_of_mem (by rw [hpc]; exact hi)
  have hnew : passed i { t with pc := .pushing e (subs.erase i) rest } = t.pos :=
    passed_of_not_mem hnodup.not_mem_erase
  have hdelivered : s.received ++ (s.queue ++ [e.event]) = s.delivered ++ [e.event] := by
    simp [Sub.delivered]
  -- a known entry would have been dropped
  have hknown : s.known ≤ t.pos - 1 := by
    by_contra hlt
    rw [hs.drops_of_known hstalled hreplay hget (hpassed ▸ hs.start_le) (Nat.lt_of_not_le hlt)
      hwanted] at hdrops
    cases hdrops
  have hdone : s.delivered ++ [e.event] = want s.wanted s.start (max s.known t.pos)
      (b.log (key s.tenant)) := by
    have hsucc := want_succ (p := s.wanted) hget (hpassed ▸ hs.start_le)
    rw [Nat.sub_add_cancel hpos, if_pos hwanted] at hsucc
    rw [hs.done hreplay, hpassed, max_eq_right hknown, max_eq_right (hknown.trans (Nat.sub_le _ _)),
      hsucc]
  refine ⟨?_, hs.known, fun _ => ?_, fun h => ?_, fun h => ?_, fun rest' h => ?_, fun _ => ?_⟩
  · rw [hnew]
    exact hs.first.trans (hpassed ▸ Nat.sub_le _ _)
  · exact ((congrArg newest hdelivered).trans (newest_append _ _)).symm
  · cases h
  · cases hreplay.symm.trans h
  · cases hreplay.symm.trans h
  · rw [hnew]
    exact hdelivered.trans hdone

theorem push_stalled (hs : ServedBy b s i t) (hpc : t.pc = .pushing e subs rest) (hi : i ∈ subs)
    (hreplay : s.replay = .done) :
    ServedBy b { s with last := e.event.id } i
      { t with pc := .closing i e (subs.erase i) rest } := by
  have hpassed : passed i t = t.pos - 1 := passed_of_mem (by rw [hpc]; exact hi)
  have hnew : passed i { t with pc := .closing i e (subs.erase i) rest } = passed i t := by
    rw [hpassed]
    exact passed_of_mem mem_cons_self
  refine ⟨?_, hs.known, fun h => absurd rfl h, fun _ => hreplay, fun h => ?_, fun rest' h => ?_,
    fun _ => ?_⟩
  · rw [hnew]
    exact hs.first
  · cases hreplay.symm.trans h
  · cases hreplay.symm.trans h
  · rw [hnew]
    exact hs.done hreplay

theorem push (hs : ServedBy b s i t) (hpc : t.pc = .pushing e subs rest) (hi : i ∈ subs)
    (hnodup : subs.Nodup)
    (hpos : 0 < t.pos) (hget : (b.log (key s.tenant))[t.pos - 1]? = some e)
    (hfor : e.isFor s.user = true) (hopen : s.closed = false) (hchan : s.chanClosed = false)
    (hord : s.drops e.event = true ∨ s.replay = .done ∧ less s.lastID e.id = true) :
    ServedBy b (s.push e.event).1 i { t with
      pc := if (s.push e.event).2 then .pushing e (subs.erase i) rest
          else .closing i e (subs.erase i) rest } := by
  cases hdrops : s.drops e.event with
  | true =>
    rw [Sub.push_of_drops hdrops]
    exact hs.push_dropped hpc hi hnodup hget hopen hdrops
  | false =>
    obtain ⟨hreplay, hless⟩ := hord.resolve_left (by rw [hdrops]; exact Bool.false_ne_true)
    have hwanted : s.wanted e = true := by rw [Sub.wanted, hless, hfor, Bool.and_self]
    have hid : e.event.id ≠ [] := Bus.ne_nil_of_mem (mem_of_getElem? hget)
    rw [Sub.push_of_new hdrops hchan hid]
    by_cases hlen : s.queue.length < 32
    · rw [if_pos hlen]
      exact hs.push_sent hpc hi hnodup hpos hget hdrops hreplay hwanted
    · rw [if_neg hlen]
      exact hs.push_stalled hpc hi hreplay

end Push

end ServedBy

namespace Hub

variable {h h' : Hub} {i : ℕ}
variable {e : Entry} {rest : List Entry}

def Served (h : Hub) (i : ℕ) : Prop :=
  (h.subs i).closed = false → (h.subs i).reset = false → ∀ o, h.tenants (h.subs i).tenant = some o →
    ServedBy h.bus (h.subs i) i (h.objs o)

/-- The replay of the subscription `i` is not in the way of its live events: it reads the whole rest
    of the stream, it finds room for each event, and while it is under way, or at or before the last
    id, no event is queued by the loop. -/
def orderly (cfg : Config) (i : ℕ) (h : Hub) : Step → Bool
  | .push o j => j != i ||
    match (h.objs o).pc with
    | .pushing e _ _ =>
      (h.subs i).drops e.event || (h.subs i).reset ||
        (match (h.subs i).replay with | .done => true | _ => false) && less (h.subs i).lastID e.id
    | _ => true
  | .replay j _ _ => j != i ||
    decide ((h.bus.after (key (h.subs i).tenant) (h.subs i).lastID).length ≤
      cfg.effective.maxLen.toNat)
  | .replayPush j => j != i ||
    match (h.subs i).replay with
    | .pushing (e :: _) =>
      !e.isFor (h.subs i).user || (h.subs i).drops e.event || decide ((h.subs i).queue.length < 32)
    | _ => true
  | _ => true

/-- The stream of the subscription `i` has lost nothing it is to get. -/
structure Unlost (h : Hub) (i : ℕ) : Prop where
  asking : (h.subs i).replay = .asking →
    ∀ e ∈ (h.bus.log (key (h.subs i).tenant)).take (h.bus.gone (key (h.subs i).tenant)),
      less (h.subs i).lastID e.id = false
  waiting : ∀ o, h.tenants (h.subs i).tenant = some o → (h.objs o).pc = .waiting →
    ∀ e ∈ ((h.bus.log (key (h.subs i).tenant)).take (h.bus.gone (key (h.subs i).tenant))).drop
      (h.objs o).pos,
      (h.subs i).wanted e = false

theorem Served.setObj (hs : h.Served i) (o : ℕ) (t : TenantSub)
    (ht : (h.subs i).closed = false → h.tenants (h.subs i).tenant = some o →
      ServedBy h.bus (h.subs i) i (h.objs o) →
      ServedBy h.bus (h.subs i) i t) : (h.setObj o t).Served i := by
  intro hopen hreset o' ho'
  have hserved := hs hopen hreset o' ho'
  by_cases hoo : o' = o
  · subst hoo
    have hobj : (h.setObj o' t).objs o' = t := Function.update_self ..
    rw [hobj]
    exact ht hopen ho' hserved
  · have hobj : (h.setObj o t).objs o' = h.objs o' := Function.update_of_ne hoo ..
    rw [hobj]
    exact hserved

theorem Served.setSub (hs : h.Served i) (j : ℕ) (s : Sub) (htenant : s.tenant = (h.subs j).tenant)
    (hclosed : s.closed = (h.subs j).closed)
    (hsub : j = i → (h.subs i).closed = false → s.reset = false →
      ∀ o, h.tenants (h.subs i).tenant = some o →
      ServedBy h.bus s i (h.objs o)) : (h.setSub j s).Served i := by
  intro hopen hreset o ho
  by_cases hij : j = i
  · subst hij
    have hself : (h.setSub j s).subs j = s := Function.update_self ..
    rw [hself] at hopen hreset ho ⊢
    exact hsub rfl (hclosed ▸ hopen) hreset o (htenant ▸ ho)
  · have hother : (h.setSub j s).subs i = h.subs i := Function.update_of_ne (Ne.symm hij) ..
    rw [hother] at hopen hreset ho ⊢
    exact hs hopen hreset o ho

theorem Flow.entry (hf : h.Flow) (hinv : h.Inv cfg) {t : Str} (ho : h.tenants t = some o) :
    (h.objs o).tenant = t ∧ LoopOK h.bus (h.objs o) ∧
    ∀ i, passed i (h.objs o) ≤ (h.bus.log (key t)).length := by
  have he := hinv.entry t o ho
  have hloop := hf.loop o he.made
  refine ⟨he.tenant, hloop, fun i => (Nat.sub_le _ _).trans ?_⟩
  rw [← he.tenant]
  exact hloop.pos_le

theorem Served.xAdd (hs : h.Served i) (hinv : h.Inv cfg) (hf : h.Flow) (k : Str) (e : Entry)
    (hfresh : h.bus.Fresh k e.id) : Served { h with bus := h.bus.xAdd k e hfresh } i := by
  intro hopen hreset o ho
  exact (hs hopen hreset o ho).xAdd ((hf.entry hinv ho).2.2 i) k e hfresh

theorem Served.trim (hs : h.Served i) (k : Str) (n : ℕ)
    (hn : h.bus.gone k + n ≤ (h.bus.log k).length) :
    Served { h with bus := h.bus.trim k n hn } i := by
  intro hopen hreset o ho
  obtain ⟨h1, h2, h3, h4, h5, h6, h7⟩ := hs hopen hreset o ho
  exact ⟨h1, h2, h3, h4, h5, h6, h7⟩

theorem closeSub_tenants (h : Hub) (j : ℕ) {t : Str} (ho : (h.closeSub j).tenants t = some o) :
    h.tenants t = some o := by
  unfold Hub.closeSub at ho
  dsimp only at ho
  split at ho
  · exact ho
  · split at ho
    · exact ho
    · split_ifs at ho
      · by_cases ht : t = (h.subs j).tenant
        · simp [ht] at ho
        · simpa [ht] using ho
      · exact ho

theorem Served.closeSub (hs : h.Served i) (hinv : h.Inv cfg) (j : ℕ) : (h.closeSub j).Served i := by
  intro hopen hreset o ho
  obtain ⟨-, -, hbus, hobjs⟩ := closeSub_frame h j
  obtain ⟨-, hclosed, hother, -, -⟩ := closeSub_subs hinv j
  have hij : i ≠ j := by
    rintro rfl
    rw [hclosed] at hopen
    cases hopen
  rw [hother i hij] at hopen hreset ho ⊢
  rw [hbus]
  refine (hs hopen hreset o (closeSub_tenants h j ho)).congr ?_ (by rw [(hobjs o).1])
  rw [passed, passed, (hobjs o).1, (hobjs o).2.1]

theorem served_opened (hf : h.Flow) (o : ℕ) (tenant user lastID : Str) (t : TenantSub)
    (hpc : t.pc = (h.objs o).pc) (hpos : t.pos = (h.objs o).pos) :
    ServedBy h.bus (h.opened o tenant user lastID) h.nsubs t := by
  have hpassed : passed h.nsubs t = (h.objs o).pos := by
    rw [passed, hpc, hpos, if_neg]
    · rfl
    · exact fun hmem => absurd ((hf.pending o).listed _ hmem).1 (Nat.lt_irrefl _)
  have hstalled : t.pc.stalled ≠ some h.nsubs := fun hst => by
    have hmem : h.nsubs ∈ (h.objs o).pc.pending := by
      rw [hpc] at hst
      cases hcase : (h.objs o).pc <;> rw [hcase] at hst <;> cases hst
      exact mem_cons_self
    exact absurd ((hf.pending o).listed _ hmem).1 (Nat.lt_irrefl _)
  refine ⟨?_, Nat.zero_le _, fun _ => rfl, fun hst => absurd hst hstalled, fun _ => rfl,
    fun rest hrest => ?_,
    fun hdone => ?_⟩
  · rw [hpassed]
    exact le_rfl
  · simp only [opened] at hrest
    split_ifs at hrest
  · have hnil : lastID = [] := by
      by_contra hne
      simp only [opened, if_neg hne] at hdone
      cases hdone
    have hstart : (h.opened o tenant user lastID).start = (h.objs o).pos := if_pos hnil
    rw [hstart, hpassed, show max (h.opened o tenant user lastID).known
      (h.objs o).pos = (h.objs o).pos from
      max_eq_right (Nat.zero_le _), want_self]
    rfl

theorem Served.tenantSub (hs : h.Served i) (hinv : h.Inv cfg) (tenant : Str) :
    (h.tenantSub tenant).1.Served i := by
  unfold Hub.tenantSub
  cases ho : h.tenants tenant with
  | some o => exact hs
  | none =>
    intro hopen hreset o' ho'
    have ht : (h.subs i).tenant ≠ tenant := fun heq => by
      have := hinv.open_ i hopen
      rw [heq, ho] at this
      cases this
    simp only [Function.update_of_ne ht] at ho'
    simp only [Function.update_of_ne (hinv.entry _ o' ho').made.ne]
    exact hs hopen hreset o' ho'

theorem Served.insert (hs : h.Served i) (hf : h.Flow) {tenant : Str}
    (ho : h.tenants tenant = some o)
    (user lastID : Str) : (h.insert o tenant user lastID).Served i := by
  intro hopen hreset o' ho'
  obtain ⟨hpc, hpos, -⟩ := insert_frame h o tenant user lastID o'
  by_cases hi : i = h.nsubs
  · have hsub : (h.insert o tenant user lastID).subs i = h.opened o tenant user lastID := by
      rw [hi]
      exact Function.update_self ..
    rw [hsub] at ho' ⊢
    obtain rfl : o = o' := Option.some.inj (ho.symm.trans ho')
    rw [hi]
    exact served_opened hf o tenant user lastID _ hpc hpos
  · have hsub : (h.insert o tenant user lastID).subs i = h.subs i := Function.update_of_ne hi ..
    rw [hsub] at hopen hreset ho' ⊢
    refine (hs hopen hreset o' ho').congr ?_ (by rw [hpc])
    rw [passed, passed, hpc, hpos]

theorem Served.subscribe (hs : h.Served i) (hinv : h.Inv cfg) (hf : h.Flow)
    (tenant user lastID : Str) (ok : Bool) :
    (h.subscribe cfg tenant user lastID ok).Served i := by
  rcases subscribe_cases cfg hinv tenant user lastID ok with heq | ⟨-, heq, -⟩
  · rwa [heq]
  · rw [heq]
    obtain ⟨-, ho, -⟩ := hinv.tenantSub tenant
    exact (hs.tenantSub hinv tenant).insert (hf.tenantSub tenant) ho user lastID

theorem Served.goto (hs : h.Served i) (o : ℕ) {pc : LoopPc} (h1 : (h.objs o).pc.pending = [])
    (h2 : (h.objs o).pc.stalled = none) (h3 : pc.pending = []) (h4 : pc.stalled = none) :
    (h.goto o pc).Served i := by
  refine hs.setObj o _ fun _ _ hserved => hserved.congr ?_ ?_
  · rw [passed, passed, h1, h3]
  · rw [h2]
    simp only [h4]

theorem Served.next (hs : h.Served i) (hinv : h.Inv cfg) (hf : h.Flow)
    (hpc : (h.objs o).pc = .batch (e :: rest)) :
    (h.setObj o { h.objs o with
      last := e.id
      pc := .pushing e ((h.objs o).conns.filter fun i => e.isFor (h.subs i).user) rest
      pos := (h.objs o).pos + 1 }).Served i := by
  refine hs.setObj o _ fun hopen ho hserved => ?_
  obtain ⟨htenant, hloop, -⟩ := hf.entry hinv ho
  have hold : passed i (h.objs o) = (h.objs o).pos :=
    passed_of_not_mem (by rw [hpc]; exact not_mem_nil)
  have hstalled : (h.objs o).pc.stalled ≠ some i := by
    rw [hpc]
    intro h'
    cases h'
  by_cases hfor : e.isFor (h.subs i).user = true
  · refine hserved.congr ?_ ⟨(fun h' => by cases h'), fun h' => absurd h' hstalled⟩
    rw [hold]
    refine passed_of_mem (List.mem_filter.2 ⟨?_, hfor⟩)
    exact ((hinv.entry _ o ho).conns i).2 ⟨hopen, rfl⟩
  · have hnot : i ∉ (h.objs o).conns.filter fun i => e.isFor (h.subs i).user := fun hmem =>
      hfor (List.mem_filter.1 hmem).2
    have hnew := passed_of_not_mem (i := i) (t := { h.objs o with
      last := e.id
      pc := .pushing e ((h.objs o).conns.filter fun i => e.isFor (h.subs i).user) rest
      pos := (h.objs o).pos + 1 }) hnot
    refine hserved.pass (by rw [hold, hnew]; exact Nat.le_succ _)
      (fun j e' hj hj' _ hget => ?_) hstalled
      (fun h' => by cases h')
    rw [hold] at hj
    rw [hnew] at hj'
    obtain rfl : j = (h.objs o).pos := by simp only at hj'; omega
    have hhead := (hloop.head (by rw [hpc]; rfl)).1
    rw [htenant, hget] at hhead
    cases hhead
    rw [Sub.wanted, Bool.eq_false_iff.2 hfor, Bool.and_false]

theorem Served.push_other (hs : h.Served i) (hij : j ≠ i) {subs : List ℕ}
    (hpc : (h.objs o).pc = .pushing e subs rest) (pc : LoopPc)
    (hpc' : pc = .pushing e (subs.erase j) rest ∨ pc = .closing j e (subs.erase j) rest) (s : Sub) :
    ((h.setSub j s).goto o pc).Served i := by
  have hs' : (h.setSub j s).Served i := by
    intro hopen hreset o' ho'
    have hother : (h.setSub j s).subs i = h.subs i := Function.update_of_ne (Ne.symm hij) ..
    rw [hother] at hopen hreset ho' ⊢
    exact hs hopen hreset o' ho'
  refine hs'.setObj o _ fun _ _ hserved => hserved.congr ?_ ?_
  · refine passed_congr rfl ?_
    change i ∈ pc.pending ↔ i ∈ (h.objs o).pc.pending
    rw [hpc]
    rcases hpc' with rfl | rfl
    · exact mem_erase_of_ne (Ne.symm hij)
    · simp only [LoopPc.pending, mem_cons, mem_erase_of_ne (Ne.symm hij), Ne.symm hij, false_or]
  · have hold : (h.objs o).pc.stalled ≠ some i := ServedBy.stalled_of_pushing hpc
    refine ⟨fun h' => ?_, fun h' => absurd h' hold⟩
    rcases hpc' with rfl | rfl
    · cases h'
    · exact absurd (Option.some.inj h') hij

theorem Served.push (hs : h.Served i) (hinv : h.Inv cfg) (hf : h.Flow) {subs : List ℕ}
    (hpc : (h.objs o).pc = .pushing e subs rest) (hi : i ∈ subs)
    (hord : (h.subs i).drops e.event = true ∨ (h.subs i).reset = true ∨
      (h.subs i).replay = .done ∧ less (h.subs i).lastID e.id = true) :
    ((h.setSub i ((h.subs i).push e.event).1).goto o
      (if ((h.subs i).push e.event).2 then .pushing e (subs.erase i) rest
        else .closing i e (subs.erase i) rest)).Served
      i := by
  obtain ⟨-, hclosed, -, -, hreset', -, -, -, htenant'⟩ := push_keeps (h.subs i) e.event
  have hpending : i ∈ (h.objs o).pc.pending := by
    rw [hpc]
    exact hi
  intro hopen hreset o' ho'
  have hself : ∀ pc, ((h.setSub i ((h.subs i).push e.event).1).goto o pc).subs i =
      ((h.subs i).push e.event).1 :=
    fun pc => Function.update_self ..
  rw [hself] at hopen hreset ho' ⊢
  rw [hclosed] at hopen
  rw [hreset'] at hreset
  rw [htenant'] at ho'
  -- only the loop of its own tenant pushes to an open subscription
  have ho : h.tenants (h.subs i).tenant = some o := by
    rcases ((hf.pending o).listed i hpending).2 with hc | hmem
    · rw [hopen] at hc
      cases hc
    · exact (hinv.of_mem_conns hmem).2.2
  obtain rfl : o = o' := Option.some.inj (ho.symm.trans ho')
  obtain ⟨htenant, hloop, -⟩ := hf.entry hinv ho
  obtain ⟨hpos, hget⟩ := hloop.current e (by rw [hpc]; rfl)
  rw [htenant] at hget
  have hnodup := (hf.pending o).nodup
  rw [hpc] at hnodup
  have hserved := (hs hopen hreset o ho).push hpc hi hnodup hpos hget
    ((hf.pending o).isFor i hpending e (by rw [hpc]; rfl)) hopen ((hinv.chanClosed i).trans hopen)
    (hord.imp_right fun h' => h'.resolve_left (by rw [hreset]; exact Bool.false_ne_true))
  have hobj : ∀ pc, ((h.setSub i ((h.subs i).push e.event).1).goto o pc).objs o =
      { h.objs o with pc := pc } :=
    fun pc => Function.update_self ..
  rw [hobj]
  exact hserved

theorem Served.step {l : Step} (hs : h.Served i) (hinv : h.Inv cfg) (hf : h.Flow)
    (hord : orderly cfg i h l = true) (hun : h.Unlost i) (hl : h.step cfg l = some h') :
    h'.Served i := by
  cases move_of_step hl with
  | append _ k e hfresh => exact hs.xAdd hinv hf k e hfresh
  | refused => exact hs
  | trim k n hn => exact hs.trim k n hn
  | subscribe tenant user lastID ok => exact hs.subscribe hinv hf tenant user lastID ok
  | reset j now ok data hreplay =>
    obtain ⟨-, hclosed, -, -, -, -, -, -, htenant⟩ := push_keeps (h.subs j) ⟨[], str "reset", data⟩
    refine hs.setSub j _ htenant hclosed fun hij hopen hreset o ho => ?_
    subst hij
    -- nothing was queued before the replay, so the reset event found room
    simp only [Bool.or_eq_false_iff, hopen, Bool.not_false, Bool.true_and,
      decide_eq_false_iff_not] at hreset
    have hnil := (hs hopen hreset.1 o ho).asking hreplay
    have hqueue : (h.subs j).queue = [] := (append_eq_nil_iff.1 hnil).2
    rw [hqueue] at hreset
    exact absurd (by decide) hreset.2
  | replay j now hreplay =>
    refine hs.setSub j _ rfl rfl fun hij hopen hreset o ho => ?_
    subst hij
    simp only [orderly, bne_self_eq_false, Bool.false_or, decide_eq_true_eq] at hord
    exact (hs hopen hreset o ho).replay hreplay hord (hun.asking hreplay) ((hf.entry hinv ho).2.2 j)
  | replayed j hreplay =>
    refine hs.setSub j _ rfl rfl fun hij hopen hreset o ho => ?_
    subst hij
    exact (hs hopen hreset o ho).replayed hreplay
      (hf.replaying (by rw [hreplay]; exact Replay.noConfusion))
  | replayPush j e rest hreplay =>
    obtain ⟨-, hclosed, -, -, hreset', -, -, -, htenant⟩ := push_keeps (h.subs j) e.event
    refine hs.setSub j _ (by split_ifs <;> first | exact htenant | rfl)
      (by split_ifs <;> first | exact hclosed | rfl)
      fun hij hopen hreset o ho => ?_
    subst hij
    have hreset'' : (h.subs j).reset = false := by
      split_ifs at hreset
      · exact hreset'.symm.trans hreset
      · exact hreset
    refine (hs hopen hreset'' o ho).replayPush hreplay hopen ((hinv.chanClosed j).trans hopen)
      fun hfor => ?_
    simp only [orderly, bne_self_eq_false, Bool.false_or, hreplay, hfor, Bool.not_true,
      Bool.or_eq_true,
      decide_eq_true_eq] at hord
    exact hord
  | receive j ev q hq =>
    refine hs.setSub j _ rfl rfl fun hij hopen hreset o ho => ?_
    subst hij
    exact (hs hopen hreset o ho).receive hq
  | close j => exact hs.closeSub hinv j
  | wait _ o pc hpc hpc' =>
    refine hs.goto o ?_ ?_ ?_ ?_
    · rcases hpc with hpc | hpc <;> rw [hpc] <;> rfl
    · rcases hpc with hpc | hpc <;> rw [hpc] <;> rfl
    · rcases hpc' with rfl | ⟨rfl, -⟩ <;> rfl
    · rcases hpc' with rfl | ⟨rfl, -⟩ <;> rfl
  | read o n hpc =>
    refine hs.setObj o _ fun hopen ho hserved => ?_
    have htenant := (hf.entry hinv ho).1
    have hold : passed i (h.objs o) = (h.objs o).pos :=
      passed_of_not_mem (by rw [hpc]; exact not_mem_nil)
    refine hserved.pass (by rw [hold]; exact le_max_left _ _) (fun j e hj hj' _ hget => ?_)
      (by rw [hpc]; exact fun h' => by cases h') (fun h' => by cases h')
    rw [hold] at hj
    have hj'' : j < max (h.objs o).pos (h.bus.gone (key (h.objs o).tenant)) := hj'
    refine hun.waiting o ho hpc e (mem_between.2 ⟨j, hj, ?_, hget⟩)
    rw [← htenant]
    omega
  | next o e rest hpc => exact hs.next hinv hf hpc
  | dispatched o e rest hpc => exact hs.goto o (by rw [hpc]; rfl) (by rw [hpc]; rfl) rfl rfl
  | push o j e subs rest hpc hj =>
    by_cases hij : j = i
    · subst hij
      refine hs.push hinv hf hpc hj ?_
      simp only [orderly, bne_self_eq_false, Bool.false_or, hpc, Bool.or_eq_true,
        Bool.and_eq_true] at hord
      rcases hord with (hdrops | hreset) | ⟨hdone, hless⟩
      · exact Or.inl hdrops
      · exact Or.inr (Or.inl hreset)
      · refine Or.inr (Or.inr ⟨?_, hless⟩)
        cases hreplay : (h.subs j).replay <;> rw [hreplay] at hdone <;> first | rfl | cases hdone
    · refine hs.push_other hij hpc _ ?_ _
      split_ifs
      · exact Or.inl rfl
      · exact Or.inr rfl
  | drop o j e subs rest hpc =>
    have hpc' : ((h.closeSub j).objs o).pc = .closing j e subs rest :=
      ((closeSub_frame h j).2.2.2 o).1.trans hpc
    refine (hs.closeSub hinv j).setObj o _ fun hopen ho hserved => ?_
    have hij : i ≠ j := by
      rintro rfl
      rw [(closeSub_subs hinv i).2.1] at hopen
      cases hopen
    refine hserved.congr (passed_congr rfl ?_) ⟨(fun h' => by cases h'), fun h' => ?_⟩
    · rw [hpc']
      simp only [LoopPc.pending, mem_cons, hij, false_or]
    · rw [hpc'] at h'
      exact absurd (Option.some.inj h').symm hij
  | hub _ ctxDone hctx cs => exact hs
  | hubClose c j cs => exact hs.closeSub hinv j

end Hub

end TangraDns.Streams
