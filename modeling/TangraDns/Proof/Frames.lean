/-
  What the users of a tenant read: which of them an entry is for (`delivered_iff`),
  and how a client reads its frame (`readAlone_iff`).
-/
import TangraDns.Streams.Frame
import TangraDns.Text.Labels

namespace TangraDns.Streams

open Str EventStream

/-! ## Recipients -/

theorem publish_ok {p : Publish} {fields : Str → Str} (hp : p.fields = .ok fields) :
    (p.all = true ∧ p.users = [] ∧ fields (str "to") = str "*") ∨
      p.all = false ∧ p.users ≠ [] ∧ (∀ u ∈ p.users, 44 ∉ u) ∧
      fields (str "to") = Str.join 44 p.users := by
  unfold Publish.fields at hp
  by_cases htargets : p.all = !p.users.isEmpty ∨ p.users.length > 1000
  · rw [if_pos htargets] at hp
    split_ifs at hp
  rw [if_neg htargets] at hp
  push Not at htargets
  split_ifs at hp with _ _ _ husers hall
  · cases hp
    refine .inl ⟨hall, ?_, rfl⟩
    by_contra h
    exact htargets.1 (by simp [hall, h])
  · cases hp
    rw [Bool.not_eq_true] at hall
    refine .inr ⟨hall, fun h => htargets.1 (by simp [hall, h]), fun u hu h => husers ?_, rfl⟩
    rw [hall]
    exact List.any_eq_true.2 ⟨u, hu, Bool.or_eq_true_iff.2 (.inr (List.any_eq_true.2 ⟨44, h, rfl⟩))⟩

/-- **An accepted entry is delivered to its recipients alone**, unless its only recipient is called
    `*`. -/
theorem delivered_iff (p : Publish) (fields : Str → Str) (hp : p.fields = .ok fields) :
    (∀ user, targets (fields (str "to")) user = true ↔ p.all = true ∨ user ∈ p.users) ↔
    p.users ≠ [str "*"] := by
  rcases publish_ok hp with ⟨hall, hnone, hto⟩ | ⟨hall, hne, hcomma, hto⟩
  · -- everybody, and no recipients
    rw [hnone, hto, hall]
    exact iff_of_true (fun user => iff_of_true rfl (.inl rfl)) (List.cons_ne_nil _ _).symm
  · have hsplit : Str.split 44 (Str.join 44 p.users) = p.users := split_join hcomma hne
    rw [hto, hall]
    unfold targets
    constructor
    · rintro h hstar
      -- the user `a` gets what is for `*`
      have := (h (str "a")).1 (by rw [hstar]; rfl)
      rw [hstar] at this
      exact absurd this (by decide)
    · intro hstar user
      have hjoin : Str.join 44 p.users ≠ str "*" := by
        intro h
        rw [h] at hsplit
        exact hstar hsplit.symm
      rw [beq_eq_false_iff_ne.2 hjoin, hsplit, Bool.false_or, List.contains_iff_mem]
      exact ⟨.inr, fun h => h.resolve_left Bool.false_ne_true⟩

/-- Two recipients. -/
theorem delivered_iff_sample :
    let p : Publish := ⟨[str "u1", str "*"], false, str "dns.zone", str "null", true, false, 0⟩
    ∃ fields, p.fields = .ok fields ∧
      ∀ user, targets (fields (str "to")) user = true ↔ p.all = true ∨ user ∈ p.users := by
  refine ⟨_, rfl, (delivered_iff ⟨[str "u1", str "*"], false, str "dns.zone", str "null", true,
    false, 0⟩ _ rfl).2 ?_⟩
  decide

/-- What is published for the user `*` is delivered to the user `a`. -/
theorem star_reaches_all :
    let p : Publish := ⟨[str "*"], false, str "dns.zone", str "null", true, false, 0⟩
    ∃ fields, p.fields = .ok fields ∧ targets (fields (str "to")) (str "a") = true ∧
      ¬ (p.all = true ∨ str "a" ∈ p.users) :=
  ⟨_, rfl, by decide, by decide⟩

/-! ## Frames -/

theorem inline_unbroken (data : Str) : Inline (unbroken data) := by
  intro b hb
  have := (List.mem_filter.1 hb).2
  simpa using this

theorem feed_body {lastID type data : Str} (events : List EventStream.Event) (ht : Inline type)
    (hd : Inline data) :
    (Reader.rest lastID events).feed ((str "event: " ++ type ++ [10]) ++
      (str "data: " ++ data ++ [10, 10])) =
      .rest lastID (events ++ [⟨lastID, if type = [] then str "message" else type, data⟩]) := by
  have hevent : (Reader.rest lastID events).feed (str "event: " ++ type ++ [10]) =
      (Reader.rest lastID events).setField (str "event") type :=
    Reader.feed_field (str "event") rfl rfl (by simp [str]) (by simp [str]) ht
  have hdata (r : Reader) (hcr : r.cr = false) (hline : r.line = []) :
      r.feed (str "data: " ++ data ++ [10]) = r.setField (str "data") data :=
    Reader.feed_field (str "data") hcr hline (by simp [str]) (by simp [str]) hd
  rw [show str "data: " ++ data ++ [10, 10] = (str "data: " ++ data ++ [10]) ++ [10] by simp,
    Reader.feed_append, Reader.feed_append, hevent, hdata _ rfl rfl, Reader.feed_blank rfl rfl]
  simp [Reader.setField, Reader.dispatch, Reader.rest, show str "data" ≠ str "event" by decide]

theorem feed_frame (ev : Event) (lastID : Str) (events : List EventStream.Event)
    (hid : Inline ev.id) (hnul : 0 ∉ ev.id)
    (ht : Inline ev.type) :
    (Reader.rest lastID events).feed (frame ev) = .rest (if ev.id = [] then lastID else ev.id)
      (events ++ [⟨if ev.id = [] then lastID else ev.id, if ev.type = [] then str "message"
        else ev.type,
        unbroken ev.data⟩]) := by
  rw [frame, List.append_assoc, Reader.feed_append]
  by_cases hne : ev.id = []
  · rw [if_pos hne, if_pos hne]
    exact feed_body events ht (inline_unbroken _)
  · have hline : (Reader.rest lastID events).feed (str "id: " ++ ev.id ++ [10]) =
        .rest ev.id events := by
      refine (Reader.feed_field (str "id") rfl rfl (by simp [str]) (by simp [str]) hid).trans ?_
      rw [Reader.setField, if_neg (by decide), if_neg (by decide), if_pos rfl, if_neg hnul]
      rfl
    rw [if_neg hne, if_neg hne, hline]
    exact feed_body events ht (inline_unbroken _)

theorem Entry.Clean.readAlone {e : Entry} (h : e.Clean) : e.ReadAlone := by
  obtain ⟨⟨hid, hnul, hne⟩, htype, hne'⟩ := h
  intro lastID events
  rw [feed_frame e.event lastID events hid hnul htype, if_neg (show e.event.id ≠ [] from hne),
    if_neg (show e.event.type ≠ [] from hne')]
  rfl

/-- **The frame of an entry is read as exactly its event** just if id and type fit on a line and are
    not empty. -/
theorem readAlone_iff (e : Entry) : e.ReadAlone ↔ e.Clean := by
  refine ⟨fun h => ?_, fun h => h.readAlone⟩
  -- ids and types that are read come from lines
  have hsound := Reader.sound_rest.feed (frame e.event)
  rw [h [] []] at hsound
  obtain ⟨⟨hid, hnul⟩, htype, hne⟩ :=
    hsound.events e.message (List.mem_append_right _ (List.mem_singleton.2 rfl))
  refine ⟨⟨hid, hnul, fun hempty => ?_⟩, htype, hne⟩
  -- without an id, the client keeps the one it had
  have hlast := h [120] []
  rw [feed_frame e.event [120] [] hid hnul htype,
    if_pos (show e.event.id = [] from hempty)] at hlast
  have : [120] = e.id := congrArg Reader.lastID hlast
  rw [hempty] at this
  cases this

/-- A type with line breaks makes the client read an event of another id and type. -/
def injecting : Entry where
  id := str "5-0"
  fields k :=
    if k = str "type" then [120, 10] ++ str "id: 9-9" ++ [10] ++ str "event: bye"
    else if k = str "data" then str "null"
    else []

theorem injecting_read : ¬ injecting.ReadAlone ∧
    ((Reader.rest [] []).feed (frame injecting.event)).events =
    [⟨str "9-9", str "bye", str "null"⟩] :=
  ⟨fun h => absurd (h [] []) (by decide +kernel), by decide +kernel⟩

end TangraDns.Streams
