/-
  The frames an open stream writes to its client (package `stream`, file `sse.go`).
-/
import TangraDns.Streams.Hub
import TangraDns.Text.EventStream

namespace TangraDns.Streams

def unbroken (data : Str) : Str := data.filter fun b => b != 13 && b != 10

def frame (ev : Event) : Str :=
  (if ev.id = [] then [] else str "id: " ++ ev.id ++ [10]) ++
    (str "event: " ++ ev.type ++ [10]) ++ (str "data: " ++ unbroken ev.data ++ [10, 10])

def Entry.message (e : Entry) : EventStream.Event :=
  ⟨e.event.id, e.event.type, unbroken e.event.data⟩

def Entry.ReadAlone (e : Entry) : Prop := ∀ lastID events,
  (EventStream.Reader.rest lastID events).feed (frame e.event) = .rest e.id (events ++ [e.message])

/-- Id and type fit on a line: the id has no NUL, and neither is empty. -/
def Entry.Clean (e : Entry) : Prop :=
  (EventStream.Inline e.id ∧ 0 ∉ e.id ∧ e.id ≠ []) ∧
    EventStream.Inline (e.fields (str "type")) ∧ e.fields (str "type") ≠ []

instance (e : Entry) : Decidable e.Clean := inferInstanceAs (Decidable (_ ∧ _))

end TangraDns.Streams
