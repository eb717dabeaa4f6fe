/-
  What the cached secret source serves (`history_spec`).
-/
import Mathlib.Data.List.Basic
import Mathlib.Order.MinMax
import TangraDns.Secrets

namespace TangraDns.Secrets

open Str

/-- The fetcher did not give a value: an error, or an empty one. -/
def Failed (fetched : Except Err Str) : Prop := ∀ v, fetched = .ok v → v = []

theorem sub_lt {t u : ℤ} {d : Int64} (h : sub t u < d) : t - u < d.toInt := by
  rw [Int64.lt_iff_toInt_lt] at h
  have hd := d.toInt_lt
  -- a saturated difference is not below any duration
  rcases lt_trichotomy (t - u) Int64.minValue.toInt with hlow | hmid | hhigh
  · have := d.le_toInt
    rw [Int64.toInt_minValue] at hlow
    omega
  · rwa [sub, Int64.toInt_ofIntClamp (le_of_eq hmid.symm) (hmid ▸ by decide)] at h
  · by_cases hmax : t - u ≤ Int64.maxValue.toInt
    · rwa [sub, Int64.toInt_ofIntClamp (le_of_lt hhigh) hmax] at h
    · rw [sub, Int64.ofIntClamp, dif_pos (le_of_lt hhigh), dif_neg hmax, Int64.toInt_maxValue] at h
      omega

namespace Cached

variable {c : Cached} {cache : Cache} {ref : Str} {r : Reading}

/-! ## One call -/

/-- What a call can do. -/
inductive Got (c : Cached) (cache : Cache) (ref : Str) (r : Reading) : Answer → Prop
  /-- The fetcher was not asked. -/
  | kept (result : Except Err Str)
      (h : ∀ v, result = .ok v → ∃ e, cache ref = some e ∧ e.val = v ∧
        sub r.before e.time < c.refresh) :
      Got c cache ref r ⟨result, false, cache⟩
  | failed (result : Except Err Str) (hf : Failed r.fetched)
      (h : ∀ v, result = .ok v → ∃ e, cache ref = some e ∧ e.val = v ∧
        sub r.after e.time < c.effectiveStale) :
      Got c cache ref r ⟨result, true, cache⟩
  | fetched (v : Str) (hf : r.fetched = .ok v) (hv : v ≠ []) :
      Got c cache ref r ⟨.ok v, true, Function.update cache ref (some ⟨v, r.after⟩)⟩

theorem stale_got (hf : Failed r.fetched) (err : Err) :
    Got c cache ref r (c.stale cache (cache ref) r.after err) := by
  cases he : cache ref with
  | none => exact .failed _ hf (by simp)
  | some e =>
    rw [stale]
    split_ifs with hlt
    · exact .failed _ hf fun v hv => ⟨e, he, by simpa using hv, hlt⟩
    · exact .failed _ hf (by simp)

theorem read_got : Got c cache ref r (c.read cache ref r) := by
  rw [read]
  split_ifs with hfetcher
  · exact .kept _ (by simp)
  · cases hf : r.fetched with
    | error err => exact stale_got (by simp [Failed, hf]) err
    | ok v =>
      dsimp only
      split_ifs with hv
      · exact stale_got (by simp [Failed, hf, hv]) .empty
      · exact .fetched v hf hv

theorem get_got : Got c cache ref r (c.get cache ref r) := by
  rw [get]
  split_ifs with href
  · exact .kept _ (by simp)
  · cases he : cache ref with
    | none => exact read_got
    | some e =>
      dsimp only
      split_ifs with hlt
      · exact .kept _ fun v hv => ⟨e, he, by simpa using hv, hlt⟩
      · exact read_got

theorem get_cache (hf : Failed r.fetched) : (c.get cache ref r).cache = cache := by
  generalize ha : c.get cache ref r = a
  have hgot : Got c cache ref r a := ha ▸ get_got
  cases hgot with
  | kept => rfl
  | failed => rfl
  | fetched v hv hne => exact absurd (hf v hv) hne

/-! ## Whole runs -/

/-- The moment neither drops the cache nor reads a value of `ref`. -/
def Moment.Spares (ref : Str) : Moment → Prop
  | .get ref' r asked _ => ref' = ref → asked = true → Failed r.fetched
  | .invalidate => False

/-- `v` is the last value read for `ref`, at time `t`, and the cache was not dropped since. -/
def Latest (past : List Moment) (ref v : Str) (t : ℤ) : Prop :=
  ∃ pre r result mid, past = pre ++ .get ref r true result :: mid ∧ r.fetched = .ok v ∧ v ≠ [] ∧
    r.after = t ∧
    ∀ m ∈ mid, m.Spares ref

def Tracks (past : List Moment) (cache : Cache) : Prop :=
  ∀ ref e, cache ref = some e → Latest past ref e.val e.time

/-- When a call served its answer: the last time it looked at the clock. -/
def served (r : Reading) (asked : Bool) : ℤ := if asked then r.after else r.before

/-- A served value is the last one read and young enough, and older than the refresh interval only
    after a fetch that failed. -/
def Right (c : Cached) (past : List Moment) : Moment → Prop
  | .get ref r asked (.ok v) =>
    ∃ t, Latest (past ++ [.get ref r asked (.ok v)]) ref v t ∧
      served r asked - t < max c.refresh.toInt c.effectiveStale.toInt ∧
      (c.refresh.toInt ≤ served r asked - t → asked = true ∧ Failed r.fetched)
  | .get _ _ _ (.error _) | .invalidate => True

variable {past : List Moment} {v : Str} {t : ℤ} {m : Moment}

theorem Latest.append (h : Latest past ref v t) (hm : m.Spares ref) :
    Latest (past ++ [m]) ref v t := by
  obtain ⟨pre, r, result, mid, rfl, hf, hv, ht, hmid⟩ := h
  refine ⟨pre, r, result, mid ++ [m], by simp, hf, hv, ht, fun m' hm' => ?_⟩
  rcases List.mem_append.1 hm' with h | h
  · exact hmid m' h
  · rw [List.mem_singleton.1 h]
    exact hm

theorem latest_self {result : Except Err Str} (hf : r.fetched = .ok v) (hv : v ≠ []) :
    Latest (past ++ [.get ref r true result]) ref v r.after :=
  ⟨past, r, result, [], rfl, hf, hv, rfl, by simp⟩

theorem tracks_nil : Tracks [] fun _ => none := by
  intro ref e he
  cases he

theorem Tracks.append (h : Tracks past cache) (hm : ∀ ref, m.Spares ref) :
    Tracks (past ++ [m]) cache :=
  fun ref e he => (h ref e he).append (hm ref)

theorem step_tracks (h : Tracks past cache) (e : Event) :
    Tracks (past ++ [(c.step cache e).1]) (c.step cache e).2 := by
  cases e with
  | invalidate => intro ref e he; cases he
  | get ref r =>
    rw [step]
    generalize ha : c.get cache ref r = a
    have hgot : Got c cache ref r a := ha ▸ get_got
    cases hgot with
    | kept result _ => exact h.append fun _ _ hasked => by cases hasked
    | failed result hf _ => exact h.append fun _ _ _ => hf
    | fetched v hf hv =>
      intro ref' e he
      dsimp only at he ⊢
      by_cases href : ref' = ref
      · subst href
        rw [Function.update_self] at he
        cases he
        exact latest_self hf hv
      · rw [Function.update_of_ne href] at he
        exact (h ref' e he).append fun hne => absurd hne.symm href

theorem step_right (hrefresh : 0 < c.refresh) (h : Tracks past cache) (e : Event) :
    Right c past (c.step cache e).1 := by
  cases e with
  | invalidate => trivial
  | get ref r =>
    rw [step]
    generalize ha : c.get cache ref r = a
    have hgot : Got c cache ref r a := ha ▸ get_got
    cases hgot with
    | kept result hres =>
      cases result with
      | error => trivial
      | ok v =>
        obtain ⟨e, he, rfl, hlt⟩ := hres v rfl
        have hage := sub_lt hlt
        refine ⟨e.time, (h ref e he).append (m := .get ref r false _)
          (fun _ hasked => nomatch hasked),
          lt_max_of_lt_left hage, ?_⟩
        intro hold
        exact absurd hage (not_lt.2 hold)
    | failed result hf hres =>
      cases result with
      | error => trivial
      | ok v =>
        obtain ⟨e, he, rfl, hlt⟩ := hres v rfl
        exact ⟨e.time, (h ref e he).append (m := .get ref r true _) fun _ _ => hf,
          lt_max_of_lt_right (sub_lt hlt), fun _ => ⟨rfl, hf⟩⟩
    | fetched v hf hv =>
      have hpos : 0 < c.refresh.toInt := Int64.lt_iff_toInt_lt.1 hrefresh
      have hage : served r true - r.after = 0 := Int.sub_self _
      refine ⟨r.after, latest_self hf hv, lt_max_of_lt_left (hage ▸ hpos), ?_⟩
      intro hold
      exact absurd hpos (not_lt.2 (hage ▸ hold))

theorem run_right (hrefresh : 0 < c.refresh) {es : List Event} {mid future : List Moment}
    (h : Tracks past cache) (hrun : c.run cache es = mid ++ m :: future) :
    Right c (past ++ mid) m := by
  induction es generalizing past cache mid with
  | nil => simp [run] at hrun
  | cons e es ih =>
    rw [run] at hrun
    cases mid with
    | nil =>
      obtain ⟨rfl, -⟩ := List.cons.inj hrun
      rw [List.append_nil]
      exact step_right hrefresh h e
    | cons m' mid =>
      obtain ⟨rfl, hrest⟩ := List.cons.inj hrun
      have hright := ih (step_tracks h e) hrest
      rwa [List.append_assoc, List.singleton_append] at hright

theorem run_failed (hf : Failed r.fetched) (ref : Str) (cache : Cache) (es₁ es₂ : List Event) :
    ∃ (before after : List Moment) (m : Moment), c.run cache es₁ = before ∧
      c.run cache (es₁ ++ .get ref r :: es₂) = before ++ m :: after ∧
      c.run cache (es₁ ++ es₂) = before ++ after := by
  induction es₁ generalizing cache with
  | nil => exact ⟨[], c.run cache es₂, (c.step cache (.get ref r)).1,
      rfl, by simp [run, step, get_cache hf], rfl⟩
  | cons e es₁ ih =>
    obtain ⟨before, after, m, h₁, h₂, h₃⟩ := ih (c.step cache e).2
    exact ⟨_ :: before, after, m, by rw [run, h₁], by rw [List.cons_append, run, h₂]; rfl,
      by rw [List.cons_append, run, h₃]; rfl⟩

/-- **What the source serves.**  In every run with a positive refresh interval, whatever the fetcher
    and the clock say: each served value is the last value read for its reference since the cache
    was last dropped, not empty, and read less than the larger of the refresh interval and the
    maximum staleness ago; it is as old as the refresh interval only where the call's own fetch
    failed; and leaving a call whose fetch fails out of the run changes no other answer. -/
theorem history_spec (c : Cached) (hrefresh : 0 < c.refresh) (es : List Event) :
    (∀ past m future, c.history es = past ++ m :: future → Right c past m) ∧
    ∀ es₁ ref r es₂, es = es₁ ++ .get ref r :: es₂ → Failed r.fetched →
      ∃ m after, c.history es = c.history es₁ ++ m :: after ∧
        c.history (es₁ ++ es₂) = c.history es₁ ++ after := by
  constructor
  · intro past m future h
    exact run_right hrefresh tracks_nil h
  · rintro es₁ ref r es₂ rfl hf
    obtain ⟨before, after, m, h₁, h₂, h₃⟩ := run_failed (c := c) hf ref (fun _ => none) es₁ es₂
    subst h₁
    exact ⟨m, after, h₂, h₃⟩

/-- A key read at time 0 is served at time 30 after a fetch that failed. -/
theorem history_stale :
    ∃ (c : Cached) (es : List Event) (past : List Moment) (r : Reading),
      c.history es = past ++ [.get (str "file:key") r true (.ok (str "k"))] ∧ Failed r.fetched ∧
        Right c past (.get (str "file:key") r true (.ok (str "k"))) := by
  let c : Cached := ⟨true, 10, 0⟩
  let es : List Event := [.get (str "file:key") ⟨0, .ok (str "k"), 0⟩,
    .get (str "file:key") ⟨30, .error .unavailable, 30⟩]
  have h : c.history es = [.get (str "file:key") ⟨0, .ok (str "k"), 0⟩ true (.ok (str "k"))] ++
      [.get (str "file:key") ⟨30, .error .unavailable, 30⟩ true (.ok (str "k"))] := rfl
  exact ⟨c, es, _, _, h, (fun v hv => nomatch hv), (history_spec c (by decide) es).1 _ _ [] h⟩

end Cached

end TangraDns.Secrets
