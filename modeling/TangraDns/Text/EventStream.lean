/-
  Event streams (`text/event-stream`), as a client reads them: bytes are collected
  to lines, which end with CR, LF or both; a line sets a field of the event to come,
  and an empty line dispatches it.
-/
import TangraDns.Text.Bytes

namespace EventStream

open List

structure Event where
  id : Str
  type : Str
  data : Str
deriving DecidableEq

structure Reader where
  line : Str
  cr : Bool
  lastID : Str
  type : Str
  data : Str
  events : List Event
deriving DecidableEq

/-- Name and value of a line: what is before and after the first colon, without one leading
    space. -/
def field (line : Str) : Str × Str :=
  (line.takeWhile (· != 58), Str.trimPrefix (line.dropWhile (· != 58)).tail [32])

def Inline (s : Str) : Prop := ∀ b ∈ s, b ≠ 13 ∧ b ≠ 10

instance (s : Str) : Decidable (Inline s) := inferInstanceAs (Decidable (∀ b ∈ s, _))

theorem Inline.of_infix {s t : Str} (h : Inline t) (hs : s <:+: t) : Inline s := fun b hb =>
    h b (hs.subset hb)

namespace Reader

variable (r : Reader)

/-- Between two events, with the given last id. -/
def rest (lastID : Str) (events : List Event) : Reader := ⟨[], false, lastID, [], [], events⟩

def setField (name value : Str) : Reader :=
  if name = str "event" then { r with type := value }
  else if name = str "data" then { r with data := r.data ++ value ++ [10] }
  else if name = str "id" then if 0 ∈ value then r else { r with lastID := value }
  else r

def dispatch : Reader :=
  if r.data = [] then { r with type := [] }
  else { r with
    type := []
    data := []
    events := r.events ++ [⟨r.lastID, if r.type = [] then str "message" else r.type,
      r.data.dropLast⟩] }

def endLine : Reader :=
  let r' := { r with line := [] }
  if r.line = [] then r'.dispatch
  else if r.line.head? = some 58 then r'
  else r'.setField (field r.line).1 (field r.line).2

def byte (b : UInt8) : Reader :=
  if b = 13 then { r.endLine with cr := true }
  else if b = 10 then if r.cr then { r with cr := false } else r.endLine
  else { r with line := r.line ++ [b], cr := false }

def feed (s : Str) : Reader := s.foldl byte r

theorem feed_append (s t : Str) : r.feed (s ++ t) = (r.feed s).feed t := foldl_append ..

theorem feed_text {r : Reader} (hr : r.cr = false) {s : Str} (hs : Inline s) :
    r.feed s = { r with line := r.line ++ s } := by
  induction s generalizing r with
  | nil => rw [append_nil]; rfl
  | cons b s ih =>
    have hb := hs b mem_cons_self
    have hstep : r.byte b = { r with line := r.line ++ [b], cr := false } := by
      rw [byte, if_neg hb.1, if_neg hb.2]
    change (r.byte b).feed s = _
    rw [ih (by rw [hstep]) fun c hc => hs c (mem_cons_of_mem _ hc), hstep]
    simp [hr]

theorem feed_line {r : Reader} (hr : r.cr = false) (hline : r.line = []) {s : Str} (hs : Inline s) :
    r.feed (s ++ [10]) = { r with line := s }.endLine := by
  rw [feed_append, feed_text hr hs, hline]
  change byte _ 10 = _
  simp [byte, hr]

theorem feed_field (name : Str) {r : Reader} (hr : r.cr = false) (hline : r.line = []) {value : Str}
    (hne : name ≠ []) (hname : ∀ b ∈ name, b ≠ 13 ∧ b ≠ 10 ∧ b ≠ 58) (hvalue : Inline value) :
    r.feed (name ++ [58, 32] ++ value ++ [10]) = r.setField name value := by
  have hfield : field (name ++ [58, 32] ++ value) = (name, value) := by
    have hdrop : (name ++ [58, 32] ++ value).dropWhile (· != 58) = 58 :: 32 :: value := by
      rw [append_assoc, dropWhile_append_of_pos]
      · rfl
      · exact fun b hb => bne_iff_ne.2 (hname b hb).2.2
    have htake : (name ++ [58, 32] ++ value).takeWhile (· != 58) = name := by
      rw [append_assoc, takeWhile_append_of_pos, cons_append, takeWhile_cons_of_neg (by decide),
        append_nil]
      exact fun b hb => bne_iff_ne.2 (hname b hb).2.2
    rw [field, hdrop, htake, tail_cons, Str.trimPrefix, if_pos ⟨value, rfl⟩]
    rfl
  rw [feed_line hr hline]
  · rw [endLine]
    obtain ⟨b, name, rfl⟩ := exists_cons_of_ne_nil hne
    have hb : b ≠ 58 := (hname b mem_cons_self).2.2
    have hself : { r with line := [] } = r := by rw [← hline]
    dsimp only
    rw [hfield, if_neg, if_neg, hself]
    · simpa using hb
    · exact cons_ne_nil _ _
  · intro b hb
    simp only [mem_append, mem_cons, not_mem_nil, or_false] at hb
    rcases hb with (hb | rfl | rfl) | hb
    · exact ⟨(hname b hb).1, (hname b hb).2.1⟩
    · decide
    · decide
    · exact hvalue b hb

theorem feed_blank {r : Reader} (hr : r.cr = false) (hline : r.line = []) :
    r.feed [10] = r.dispatch := by
  have hself : { r with line := [] } = r := by rw [← hline]
  change byte _ 10 = _
  rw [byte, if_neg (by decide), if_pos rfl, hr, if_neg Bool.false_ne_true, endLine,
    if_pos hline, hself]

/-! ## What a reader can have read -/

theorem field_within (line : Str) : (field line).1 <:+: line ∧ (field line).2 <:+: line := by
  refine ⟨(List.takeWhile_prefix _).isInfix, ?_⟩
  have htail : (line.dropWhile (· != 58)).tail <:+: line :=
    ((tail_suffix _).trans (dropWhile_suffix _)).isInfix
  unfold field Str.trimPrefix
  dsimp only
  split_ifs
  · exact (drop_suffix _ _).isInfix.trans htail
  · exact htail

/-- Ids and types come from lines. -/
structure Sound : Prop where
  line : Inline r.line
  lastID : Inline r.lastID ∧ 0 ∉ r.lastID
  type : Inline r.type
  events : ∀ e ∈ r.events, (Inline e.id ∧ 0 ∉ e.id) ∧ Inline e.type ∧ e.type ≠ []

variable {r}

theorem sound_rest : (rest [] []).Sound := ⟨nofun, ⟨nofun, nofun⟩, nofun, nofun⟩

theorem Sound.setField (h : r.Sound) {name value : Str} (hv : Inline value) :
    (r.setField name value).Sound := by
  unfold Reader.setField
  split_ifs with _ _ _ hnul
  · exact ⟨h.line, h.lastID, hv, h.events⟩
  · exact ⟨h.line, h.lastID, h.type, h.events⟩
  · exact h
  · exact ⟨h.line, ⟨hv, hnul⟩, h.type, h.events⟩
  · exact h

theorem Sound.dispatch (h : r.Sound) : r.dispatch.Sound := by
  unfold Reader.dispatch
  by_cases hdata : r.data = []
  · rw [if_pos hdata]
    exact ⟨h.line, h.lastID, nofun, h.events⟩
  · rw [if_neg hdata]
    refine ⟨h.line, h.lastID, nofun, fun e he => ?_⟩
    rcases mem_append.1 he with he | he
    · exact h.events e he
    · rw [mem_singleton.1 he]
      refine ⟨h.lastID, ?_⟩
      dsimp only
      split_ifs with htype
      exacts [⟨by simp [Inline, str], by simp [str]⟩, ⟨h.type, htype⟩]

theorem Sound.endLine (h : r.Sound) : r.endLine.Sound := by
  have h' : { r with line := [] }.Sound := ⟨nofun, h.lastID, h.type, h.events⟩
  unfold Reader.endLine
  dsimp only
  split_ifs
  · exact h'.dispatch
  · exact h'
  · exact h'.setField (h.line.of_infix (field_within r.line).2)

theorem Sound.byte (h : r.Sound) (b : UInt8) : (r.byte b).Sound := by
  unfold Reader.byte
  split_ifs with hcr hlf hskip
  · exact ⟨h.endLine.line, h.endLine.lastID, h.endLine.type, h.endLine.events⟩
  · exact ⟨h.line, h.lastID, h.type, h.events⟩
  · exact h.endLine
  · refine ⟨fun c hc => ?_, h.lastID, h.type, h.events⟩
    rcases mem_append.1 hc with hc | hc
    · exact h.line c hc
    · rw [mem_singleton.1 hc]
      exact ⟨hcr, hlf⟩

theorem Sound.feed (h : r.Sound) (s : Str) : (r.feed s).Sound := by
  induction s generalizing r with
  | nil => exact h
  | cons b s ih => exact ih (h.byte b)

end Reader

end EventStream
