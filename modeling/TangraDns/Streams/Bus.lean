/-
  The event bus (package `stream`, file `client.go`): one stream of entries for each
  key, with ids that grow.

  The bus keeps every entry that was ever appended (`log`) and how many were trimmed
  from the front (`gone`): what is in a stream is the rest.  That ids grow is what
  Valkey documents for `XADD key *`.
-/
import TangraDns.Data.Cursor
import TangraDns.Net.Addr

namespace TangraDns.Streams

open List Addr

/-! ## Ids -/

/-- The loop of `strconv.ParseUint`: the digits read so far have the value `n`; too many of them
    give the greatest value. -/
def parseUint : ℕ → Str → Option ℕ
  | n, [] => some n
  | n, b :: s =>
    match digit b with
    | none => none
    | some d => if n * 10 + d ≤ 18446744073709551615 then parseUint (n * 10 + d) s
        else some 18446744073709551615

/-- `strconv.ParseInt(s, 10, 64)`: the value, and whether there is no error. -/
def parseInt (s : Str) : ℤ × Bool :=
  let digits := match s with
    | 43 :: r | 45 :: r => r
    | _ => s
  if digits = [] then (0, false) else
  match parseUint 0 digits with
  | none => (0, false)
  | some n =>
    if s.head? = some 45 then
      if n > 9223372036854775808 then (-9223372036854775808, false) else (-n, true)
    else if n ≥ 9223372036854775808 then (9223372036854775807, false) else (n, true)

def parseID (id : Str) : ℤ × ℤ × Bool :=
  match cut 45 id with
  | (_, none) => (0, 0, false)
  | (ms, some seq) => ((parseInt ms).1, (parseInt seq).1, (parseInt ms).2 && (parseInt seq).2)

def less (a b : Str) : Bool :=
  let (am, as, _) := parseID a
  let (bm, bs, _) := parseID b
  if am ≠ bm then am < bm else as < bs

theorem less_iff {a b : Str} : less a b = true ↔
    (parseID a).1 < (parseID b).1 ∨ (parseID a).1 = (parseID b).1 ∧
    (parseID a).2.1 < (parseID b).2.1 := by
  unfold less
  dsimp only
  split_ifs with h
  · rw [decide_eq_true_iff]
    exact ⟨Or.inl, fun h' => h'.resolve_right fun h' => h h'.1⟩
  · rw [decide_eq_true_iff]
    push Not at h
    constructor
    · exact fun h' => Or.inr ⟨h, h'⟩
    · rintro (h' | h')
      · exact absurd h h'.ne
      · exact h'.2

theorem less_irrefl (a : Str) : less a a = false := by
  rw [Bool.eq_false_iff, Ne, less_iff]
  omega

theorem less_asymm {a b : Str} (h : less a b = true) : less b a = false := by
  rw [Bool.eq_false_iff]
  intro h'
  rw [less_iff] at *
  omega

def zeroID : Str := str "0-0"

/-! ## Streams -/

structure Entry where
  id : Str
  /-- a missing field reads as the empty string -/
  fields : Str → Str

structure Bus where
  log : Str → List Entry
  gone : Str → ℕ
  gone_le : ∀ key, gone key ≤ (log key).length
  ascending : ∀ key, Ascending less Entry.id (log key)
  positive : ∀ key, ∀ e ∈ log key, less zeroID e.id = true

namespace Bus

variable (b : Bus) (key : Str)

def empty : Bus :=
  ⟨fun _ => [], fun _ => 0, fun _ => le_rfl, fun _ => List.Pairwise.nil, fun _ _ h => by cases h⟩

def entries : List Entry := (b.log key).drop (b.gone key)

def after (id : Str) : List Entry := (b.entries key).filter fun e => less id e.id

def xLast : Str := ((b.entries key).getLast?.map Entry.id).getD []

/-- The bus may give the next entry this id. -/
def Fresh (id : Str) : Prop := less zeroID id = true ∧ ∀ e ∈ b.log key, less e.id id = true

instance (id : Str) : Decidable (b.Fresh key id) := inferInstanceAs (Decidable (_ ∧ _))

def xAdd (e : Entry) (h : b.Fresh key e.id) : Bus where
  log := Function.update b.log key (b.log key ++ [e])
  gone := b.gone
  gone_le := by
    intro k
    by_cases hk : k = key
    · subst hk
      rw [Function.update_self, length_append]
      exact Nat.le_add_right_of_le (b.gone_le k)
    · rw [Function.update_of_ne hk]
      exact b.gone_le k
  ascending := by
    intro k
    by_cases hk : k = key
    · subst hk
      rw [Function.update_self]
      refine pairwise_append.2 ⟨b.ascending k, pairwise_singleton _ _, fun a ha c hc => ?_⟩
      rw [mem_singleton.1 hc]
      exact h.2 a ha
    · rw [Function.update_of_ne hk]
      exact b.ascending k
  positive := by
    intro k a ha
    by_cases hk : k = key
    · subst hk
      rw [Function.update_self] at ha
      rcases mem_append.1 ha with ha | ha
      · exact b.positive k a ha
      · rw [mem_singleton.1 ha]
        exact h.1
    · rw [Function.update_of_ne hk] at ha
      exact b.positive k a ha

@[simp] theorem xAdd_log_self (e : Entry) (h : b.Fresh key e.id) :
    (b.xAdd key e h).log key = b.log key ++ [e] := Function.update_self ..

theorem xAdd_log_of_ne {k key : Str} (hk : key ≠ k) (e : Entry) (h : b.Fresh k e.id) :
    (b.xAdd k e h).log key = b.log key := Function.update_of_ne hk ..

def trim (n : ℕ) (h : b.gone key + n ≤ (b.log key).length) : Bus where
  log := b.log
  gone := Function.update b.gone key (b.gone key + n)
  gone_le := by
    intro k
    by_cases hk : k = key
    · subst hk
      rwa [Function.update_self]
    · rw [Function.update_of_ne hk]
      exact b.gone_le k
  ascending := b.ascending
  positive := b.positive

@[simp] theorem trim_log (n : ℕ) (h : b.gone key + n ≤ (b.log key).length) :
    (b.trim key n h).log = b.log := rfl

theorem trim_gone_self (n : ℕ) (h : b.gone key + n ≤ (b.log key).length) :
    (b.trim key n h).gone key = b.gone key + n := Function.update_self ..

theorem trim_gone_of_ne {k key : Str} (hk : key ≠ k) (n : ℕ) (h : b.gone k + n ≤ (b.log k).length) :
    (b.trim k n h).gone key = b.gone key := Function.update_of_ne hk ..

theorem gone_le_trim {b : Bus} (k : Str) (n : ℕ) (h : b.gone k + n ≤ (b.log k).length) (key : Str) :
    b.gone key ≤ (b.trim k n h).gone key := by
  by_cases hk : key = k
  · subst hk
    rw [trim_gone_self]
    exact Nat.le_add_right _ n
  · rw [trim_gone_of_ne b hk]

/-! ## Positions -/

def tail : Str := if b.xLast key = [] then zeroID else b.xLast key

/-- A reader that read up to `id` stands before the entry with index `n`. -/
structure At (n : ℕ) (id : Str) : Prop where
  cursor : CursorAt less Entry.id (b.log key) (b.gone key) n id
  known : id = zeroID ∨ ∃ e ∈ b.log key, e.id = id

variable {b key} {n : ℕ} {id : Str}

theorem At.after_eq (h : b.At key n id) : b.after key id = (b.log key).drop n := h.cursor.filter_eq

theorem At.after_entry {e : Entry} (he : (b.log key)[n]? = some e) :
    b.At key (max (n + 1) (b.gone key)) e.id := by
  have hcursor : CursorAt less Entry.id (b.log key) 0 (n + 1) e.id :=
    .of_entry less_irrefl (fun _ _ => less_asymm) (b.ascending key) he (Nat.zero_le _)
  exact ⟨hcursor.trim_max (Nat.zero_le _) (b.gone_le key), Or.inr ⟨e, mem_of_getElem? he, rfl⟩⟩

theorem At.next {e : Entry} (h : b.gone key ≤ n) (he : (b.log key)[n]? = some e) :
    b.At key (n + 1) e.id := by
  have hat := At.after_entry he
  rwa [max_eq_left (Nat.le_succ_of_le h)] at hat

theorem At.xAdd (h : b.At key n id) (k : Str) (e : Entry) (hfresh : b.Fresh k e.id) :
    (b.xAdd k e hfresh).At key n id := by
  by_cases hk : key = k
  · subst hk
    have hless : less id e.id = true := by
      rcases h.known with rfl | ⟨e', he', rfl⟩
      · exact hfresh.1
      · exact hfresh.2 e' he'
    refine ⟨?_, h.known.imp_right fun ⟨e', he', hid⟩ => ⟨e', ?_, hid⟩⟩
    · rw [xAdd_log_self]
      exact h.cursor.append hless
    · rw [xAdd_log_self]
      exact mem_append_left _ he'
  · have hlog := xAdd_log_of_ne b hk e hfresh
    refine ⟨?_, ?_⟩
    · rw [hlog]
      exact h.cursor
    · rw [hlog]
      exact h.known

theorem At.trim (h : b.At key n id) (k : Str) (m : ℕ) (hm : b.gone k + m ≤ (b.log k).length) :
    (b.trim k m hm).At key (max n ((b.trim k m hm).gone key)) id := by
  refine ⟨?_, h.known⟩
  exact h.cursor.trim_max (gone_le_trim k m hm key) ((b.trim k m hm).gone_le key)

theorem log_prefix_xAdd (k : Str) (e : Entry) (h : b.Fresh k e.id) (key : Str) :
    b.log key <+: (b.xAdd k e h).log key := by
  by_cases hk : key = k
  · subst hk
    rw [xAdd_log_self]
    exact prefix_append _ _
  · rw [xAdd_log_of_ne b hk]

theorem less_of_index {i j : ℕ} {e e' : Entry} (hi : (b.log key)[i]? = some e)
    (hj : (b.log key)[j]? = some e')
    (hij : i < j) : less e.id e'.id = true := by
  obtain ⟨hlt, rfl⟩ := List.getElem?_eq_some_iff.1 hi
  obtain ⟨hlt', rfl⟩ := List.getElem?_eq_some_iff.1 hj
  exact pairwise_iff_getElem.1 (b.ascending key) i j hlt hlt' hij

theorem ne_nil_of_mem {e : Entry} (he : e ∈ b.log key) : e.id ≠ [] := by
  intro h
  have hpos := b.positive key e he
  rw [h] at hpos
  exact absurd hpos (by decide +kernel)

variable (b key) in
theorem at_tail : b.At key (b.log key).length (b.tail key) := by
  rcases eq_nil_or_concat (b.entries key) with hnil | ⟨es, e, hes⟩
  · -- nothing is left in the stream, so every id stands at its end
    have hgone : b.gone key = (b.log key).length := by
      have := drop_eq_nil_iff.1 hnil
      exact le_antisymm (b.gone_le key) this
    have htail : b.tail key = zeroID := by simp [tail, xLast, hnil]
    refine ⟨?_, Or.inl htail⟩
    rw [hgone]
    exact .of_gone _ _
  · rw [concat_eq_append] at hes
    have hmem : e ∈ b.log key := by
      have : e ∈ b.entries key := by simp [hes]
      exact mem_of_mem_drop this
    have htail : b.tail key = e.id := by
      have hlast : b.xLast key = e.id := by simp [xLast, hes]
      rw [tail, hlast, if_neg (ne_nil_of_mem hmem)]
    have hlen : b.gone key + (es.length + 1) = (b.log key).length := by
      have := congrArg List.length hes
      simp only [entries, length_drop, length_append, length_singleton] at this
      omega
    have hget : (b.log key)[b.gone key + es.length]? = some e := by
      rw [← getElem?_drop]
      have : (b.log key).drop (b.gone key) = es ++ [e] := hes
      rw [this]
      simp
    rw [htail, ← hlen]
    exact At.next (Nat.le_add_right _ _) hget

end Bus

def key (tenantID : Str) : Str := str "platform:events:" ++ tenantID

end TangraDns.Streams
