/-
  The expansion of templates (`Templates`).
-/
import Mathlib.Data.List.Perm.Basic
import TangraDns.Proof.Content
import TangraDns.Templates

namespace TangraDns.Templates

open List Str Validate

variable {E : Env} {l : Limits} {z zone : Str} {r : Store.TemplateRecord}
  {recs : List Store.TemplateRecord}
variable {sets : List PDNS.RRset} {t name k n : Str} {α β : Type} {i : ℕ} {ttl : ℤ}
variable {R : α → β → Prop} {as : List α} {s : PDNS.RRset}

/-! ## Entries -/

/-- What a record becomes: a value of the set of a name and type, in the text it is validated in and
    in canonical form. -/
structure Entry where
  name : Str
  type : Str
  ttl : ℤ
  text : Str
  content : Str

namespace Entry

def key (e : Entry) : Str := e.name ++ 32 :: e.type

def value (e : Entry) : RecordValue := ⟨e.text, false⟩

def record (e : Entry) : PDNS.Record := ⟨e.content, false⟩

end Entry

def ownerText (z : Str) (r : Store.TemplateRecord) : Str :=
  let name := trimSpace (replaceAll r.name placeholder (trimSuffix z [dot]))
  if name = [] then str "@" else name

def valueText (E : Env) (z : Str) (r : Store.TemplateRecord) : Except Err Str :=
  withPriority 0 r (toUpper E.cases (trimSpace r.type))
    (trimSpace (replaceAll r.content placeholder (trimSuffix z [dot])))

structure Becomes (E : Env) (l : Limits) (z : Str) (r : Store.TemplateRecord) (e : Entry) :
    Prop where
  type : editableType E (toUpper E.cases (trimSpace r.type)) = .ok e.type
  name : recordName E z (ownerText z r) = .ok e.name
  ttl : e.ttl = r.ttl ∧ l.minTTL ≤ r.ttl ∧ r.ttl ≤ l.maxTTL
  room : 1 ≤ l.maxValues
  text : valueText E z r = .ok e.text
  content : Validate.content E e.type z e.text = .ok e.content
  cname : e.type = str "CNAME" → e.name ≠ z

variable {e e' : Entry} {es es' : List Entry}

theorem withPriority_index {j : ℕ} {c v : Str} (h : withPriority i r t c = .ok v) :
    withPriority j r t c = .ok v := by
  unfold withPriority at h ⊢
  cases hp : priorityFields t with
  | none =>
    simp only [hp] at h ⊢
    split_ifs at h ⊢
    exact h
  | some full =>
    simp only [hp] at h ⊢
    split_ifs at h ⊢ <;> exact h

theorem recordSet_texts (hz : IsZone z) (texts : List Str) {existing : List PDNS.RRset}
    {rr : PDNS.RRset} :
    l.recordSet E z ⟨name, t, ttl, texts.map fun c => ⟨c, false⟩, []⟩ existing = .ok rr ↔
      ∃ t' n cs, editableType E t = .ok t' ∧ recordName E z name = .ok n ∧
        (l.minTTL ≤ ttl ∧ ttl ≤ l.maxTTL) ∧
        (texts ≠ [] ∧ texts.length ≤ l.maxValues) ∧ (t' = str "CNAME" → n ≠ z ∧ texts.length ≤ 1) ∧
        (∀ e ∈ existing, exclusive E n t' e = .ok ()) ∧
        List.Forall₂ (fun v c => content E t' z v = .ok c) texts cs ∧ cs.Nodup ∧
        rr = ⟨n, t', (ttl % 4294967296).toNat, .replace, cs.map fun c => ⟨c, false⟩, some []⟩ := by
  have hcontent {cs : List Str} : (cs.map fun c => (⟨c, false⟩ : PDNS.Record)).map
      PDNS.Record.content = cs := by
    rw [map_map]
    exact map_id cs
  rw [recordSet_eq_ok, canonicalZone_of_isZone hz]
  constructor
  · rintro ⟨_, t', n, records, ⟨⟩, hv, hcanon, hnd, rfl⟩
    have hrecords : records = (records.map PDNS.Record.content).map fun c => ⟨c, false⟩ := by
      rw [map_map]
      refine (map_id records).symm.trans (map_congr_left fun x hx => ?_)
      obtain ⟨v, hv, -, hdis⟩ := forall₂_mem_right hcanon hx
      obtain ⟨_, -, rfl⟩ := List.mem_map.1 hv
      obtain ⟨c, d⟩ := x
      cases hdis
      rfl
    refine ⟨t', n, records.map PDNS.Record.content, hv.type, hv.name, hv.ttl, ?_, ?_, hv.exclusive,
      ?_, hnd, ?_⟩
    · simpa using hv.count
    · simpa using hv.cname
    · rw [forall₂_map_right_iff]
      exact (forall₂_map_left_iff.1 hcanon).imp fun _ _ h => h.1
    · rw [← hrecords]
      rfl
  · rintro ⟨t', n, cs, ht, hn, httl, hcount, hcname, hex, hcanon, hnd, rfl⟩
    refine ⟨z, t', n, cs.map fun c => ⟨c, false⟩, rfl,
      ⟨ht, hn, httl, by simpa using hcount, ⟨Nat.zero_le _, rfl⟩,
      by simpa using hcname, hex⟩, ?_, by rwa [hcontent], rfl⟩
    rw [forall₂_map_left_iff, forall₂_map_right_iff]
    exact hcanon.imp fun _ _ h => ⟨h, rfl⟩

theorem recordSet_one (hz : IsZone z) {text : Str} {rr : PDNS.RRset}
    (htext : withPriority i r (toUpper E.cases (trimSpace r.type))
      (trimSpace (replaceAll r.content placeholder (trimSuffix z [dot]))) = .ok text) :
    l.recordSet E z ⟨ownerText z r, toUpper E.cases (trimSpace r.type), r.ttl, [⟨text, false⟩], []⟩
      [] = .ok rr ↔
      ∃ e, Becomes E l z r e ∧ e.text = text ∧
        rr = ⟨e.name, e.type, (e.ttl % 4294967296).toNat, .replace, [e.record], some []⟩ := by
  refine (recordSet_texts hz [text]).trans ?_
  constructor
  · rintro ⟨t, n, cs, ht, hn, httl, ⟨-, hroom⟩, hcname, -, hcanon, -, rfl⟩
    obtain ⟨c, _, hc, hnil, rfl⟩ := forall₂_cons_left_iff.1 hcanon
    cases hnil
    refine ⟨⟨n, t, r.ttl, text, c⟩, ⟨ht, hn, ⟨rfl, httl⟩, by simpa using hroom,
      withPriority_index htext, hc,
      fun h => (hcname h).1⟩, rfl, rfl⟩
  · rintro ⟨e, he, rfl, rfl⟩
    exact ⟨e.type, e.name, [e.content], he.type, he.name, he.ttl.2,
      ⟨by simp, by simpa using he.room⟩,
      fun h =>
        ⟨he.cname h,
          le_rfl⟩, by simp, .cons he.content .nil, nodup_singleton _, by rw [he.ttl.1]; rfl⟩

/-! ## Groups -/

/-- The groups after entries, the first of them of record `i`. -/
def collect : ℕ → List Group → List Entry → List Group
  | _, gs, [] => gs
  | i, gs, e :: es => collect (i + 1) (addValue i e.key e.name e.type e.ttl e.text gs) es

theorem groupLoop_eq_ok (hz : IsZone z) {gs gs' : List Group} :
    groupLoop E l z i gs recs = .ok gs' ↔
      ∃ es, List.Forall₂ (Becomes E l z) recs es ∧ gs' = collect i gs es := by
  induction recs generalizing i gs with
  | nil =>
    rw [groupLoop, Except.ok.injEq]
    constructor
    · rintro rfl
      exact ⟨[], .nil, rfl⟩
    · rintro ⟨es, hes, rfl⟩
      cases hes
      rfl
  | cons r rs ih =>
    rw [groupLoop]
    constructor
    · intro h
      obtain ⟨text, htext, h⟩ := Except.bind_eq_ok.1 h
      obtain ⟨rr, hrr, h⟩ := Except.bind_eq_ok.1 h
      obtain ⟨e, he, rfl, rfl⟩ := (recordSet_one hz htext).1 (Except.mapError_eq_ok.1 hrr)
      obtain ⟨es, hes, rfl⟩ := ih.1 h
      refine ⟨e :: es, .cons he hes, ?_⟩
      rw [collect, he.ttl.1]
      rfl
    · rintro ⟨_, hes, rfl⟩
      obtain ⟨e, es, he, hrest, rfl⟩ := forall₂_cons_left_iff.1 hes
      have htext := withPriority_index (j := i) he.text
      refine Except.bind_eq_ok.2 ⟨e.text, htext, Except.bind_eq_ok.2 ⟨_, Except.mapError_eq_ok.2
        ((recordSet_one hz htext).2 ⟨e, he, rfl, rfl⟩), ih.2 ⟨es, hrest, ?_⟩⟩⟩
      rw [collect, he.ttl.1]
      rfl

section Groups

variable {gs gs' : List Group} {g : Group}

theorem addValue_keys {key type content : Str} :
    (addValue i key name type ttl content gs).map Group.key =
      if key ∈ gs.map Group.key then gs.map Group.key else gs.map Group.key ++ [key] := by
  induction gs with
  | nil => rfl
  | cons g gs ih =>
    rw [addValue]
    by_cases hk : g.key = key
    · rw [if_pos hk, if_pos (by simp [hk])]
      rfl
    · rw [if_neg hk, map_cons, map_cons, ih]
      simp only [mem_cons, Ne.symm hk, false_or]
      split_ifs <;> rfl

theorem mem_addValue {key type content : Str} (hnd : (gs.map Group.key).Nodup)
    (h : g ∈ addValue i key name type ttl content gs) :
    (g ∈ gs ∧ g.key ≠ key) ∨
      (∃ g' ∈ gs, g'.key = key ∧
        g = { g' with input := { g'.input with values := g'.input.values ++ [⟨content, false⟩] } })
          ∨
      (key ∉ gs.map Group.key ∧ g = ⟨i, key, ⟨name, type, ttl, [⟨content, false⟩], []⟩⟩) := by
  induction gs with
  | nil => exact .inr (.inr ⟨by simp, mem_singleton.1 h⟩)
  | cons g₀ gs ih =>
    obtain ⟨hg₀, hnd⟩ := nodup_cons.1 hnd
    rw [addValue] at h
    by_cases hk : g₀.key = key
    · rw [if_pos hk] at h
      rcases mem_cons.1 h with rfl | h
      · exact .inr (.inl ⟨g₀, mem_cons_self, hk, rfl⟩)
      · refine .inl ⟨mem_cons_of_mem _ h, fun hg => hg₀ ?_⟩
        exact List.mem_map.2 ⟨g, h, hg.trans hk.symm⟩
    · rw [if_neg hk] at h
      rcases mem_cons.1 h with rfl | h
      · exact .inl ⟨mem_cons_self, hk⟩
      · rcases ih hnd h with ⟨hg, hne⟩ | ⟨g', hg', h⟩ | ⟨hkey, h⟩
        · exact .inl ⟨mem_cons_of_mem _ hg, hne⟩
        · exact .inr (.inl ⟨g', mem_cons_of_mem _ hg', h⟩)
        · exact .inr (.inr ⟨by simpa [Ne.symm hk] using hkey, h⟩)

def atKey (es : List Entry) (k : Str) : List Entry := es.filter fun e => e.key == k

theorem mem_atKey : e ∈ atKey es k ↔ e ∈ es ∧ e.key = k := by
  rw [atKey, List.mem_filter, beq_iff_eq]

theorem atKey_concat (k : Str) :
    atKey (es ++ [e]) k = atKey es k ++ if e.key = k then [e] else [] := by
  by_cases h : e.key = k <;> simp [atKey, filter_append, h]

def Gathers (es : List Entry) (g : Group) : Prop :=
  ∃ e rest, atKey es g.key = e :: rest ∧
    g.input = ⟨e.name, e.type, e.ttl, (e :: rest).map Entry.value, []⟩

structure Collected (es : List Entry) (gs : List Group) : Prop where
  nodup : (gs.map Group.key).Nodup
  complete : ∀ e ∈ es, e.key ∈ gs.map Group.key
  each : ∀ g ∈ gs, Gathers es g

theorem Collected.add (h : Collected es gs) :
    Collected (es ++ [e]) (addValue i e.key e.name e.type e.ttl e.text gs) where
  nodup := by
    rw [addValue_keys]
    split_ifs with hk
    · exact h.nodup
    · rw [nodup_append_comm]
      exact nodup_cons.2 ⟨hk, h.nodup⟩
  complete := by
    intro x hx
    rw [addValue_keys]
    rcases mem_append.1 hx with hx | hx
    · split_ifs
      · exact h.complete x hx
      · exact mem_append_left _ (h.complete x hx)
    · rw [mem_singleton.1 hx]
      split_ifs with hk
      · exact hk
      · exact mem_append_right _ mem_cons_self
  each := by
    intro g hg
    unfold Gathers
    rw [atKey_concat]
    rcases mem_addValue h.nodup hg with ⟨hg, hne⟩ | ⟨g', hg', hkey, rfl⟩ | ⟨hkey, rfl⟩
    · rw [if_neg (Ne.symm hne), append_nil]
      exact h.each g hg
    · obtain ⟨e₀, rest, hat, hin⟩ := h.each g' hg'
      refine ⟨e₀, rest ++ [e], ?_, ?_⟩
      · rw [if_pos hkey.symm, hat]
        rfl
      · rw [hin]
        simp [Entry.value]
    · have hnone : atKey es e.key = [] := by
        refine filter_eq_nil_iff.2 fun x hx hxk => hkey ?_
        exact beq_iff_eq.1 hxk ▸ h.complete x hx
      rw [hnone, if_pos rfl]
      exact ⟨e, [], rfl, rfl⟩

theorem collected_collect {done : List Entry} (h : Collected done gs) :
    Collected (done ++ es) (collect i gs es) := by
  induction es generalizing i gs done with
  | nil =>
    rw [append_nil]
    exact h
  | cons e es ih =>
    rw [collect, ← singleton_append, ← append_assoc]
    exact ih h.add

theorem collected_groups (es : List Entry) : Collected es (collect 0 [] es) := by
  have h : Collected [] [] := ⟨nodup_nil, fun _ h => (by cases h), fun _ h => (by cases h)⟩
  exact collected_collect h

theorem Collected.perm (h : Collected es gs) (hperm : gs'.Perm gs) : Collected es gs' where
  nodup := (hperm.map _).nodup_iff.2 h.nodup
  complete e he := (hperm.map _).mem_iff.2 (h.complete e he)
  each g hg := h.each g (hperm.mem_iff.1 hg)

end Groups

/-! ## Sets -/

theorem Becomes.owner (hz : IsZone z) (h : Becomes E l z r e) : IsOwner z e.name :=
  recordName_spec hz h.name

theorem Becomes.type_mem (h : Becomes E l z r e) : e.type ∈ editableTypes :=
  (editableType_spec h.type).2

structure Sound (z : Str) (e : Entry) : Prop where
  owner : IsOwner z e.name
  type : e.type ∈ editableTypes

theorem Sound.space (h : Sound z e) : 32 ∉ e.name := fun hm =>
    absurd (h.owner.canonical.printable 32 hm).1 (by decide)

theorem Sound.key_eq_iff (h : Sound z e) (h' : Sound z e') :
    e.key = e'.key ↔ e.name = e'.name ∧ e.type = e'.type := by
  constructor
  · intro hkey
    simp only [Entry.key] at hkey
    have hname : e.name = e'.name := by
      have htake := congrArg (List.takeWhile (· != 32)) hkey
      have hnone {e : Entry} (h : Sound z e) :
          List.takeWhile (· != 32) (e.name ++ 32 :: e.type) = e.name := by
        rw [takeWhile_append_of_pos (fun b
          hb => by simpa using fun hb' : b = 32 => h.space (hb' ▸ hb))]
        simp
      rwa [hnone h, hnone h'] at htake
    rw [hname] at hkey
    exact ⟨hname, (List.cons.inj (append_cancel_left hkey)).2⟩
  · rintro ⟨hname, htype⟩
    rw [Entry.key, Entry.key, hname, htype]

theorem exclusive_iff {x : PDNS.RRset} (hn : IsLowerStr n) (ht : IsUpperStr t)
    (hxn : IsLowerStr x.name)
    (hxt : IsUpperStr x.type) :
    exclusive E n t x = .ok () ↔ (x.name = n → x.type ≠ t → t ≠ str "CNAME" ∧
      x.type ≠ str "CNAME") := by
  have hcname : IsUpperStr (str "CNAME") := by decide
  simp only [exclusive, equalFold_iff_of_lower E.cases hxn hn,
    equalFold_iff_of_upper E.cases hxt ht,
    equalFold_iff_of_upper E.cases hxt hcname]
  split_ifs with h1 h2 h3
  · simp only [true_iff]
    intro hname htype
    exact absurd h1 (by simp [hname, htype])
  · simp only [not_or, not_not] at h1
    exact iff_of_false not_false fun h => (h h1.1 h1.2).1 h2
  · simp only [not_or, not_not] at h1
    exact iff_of_false not_false fun h => (h h1.1 h1.2).2 h3
  · simp only [true_iff]
    exact fun _ _ => ⟨h2, h3⟩

def SetOf (es : List Entry) (k : Str) (s : PDNS.RRset) : Prop :=
  ∃ e rest, atKey es k = e :: rest ∧
    s = ⟨e.name, e.type, (e.ttl % 4294967296).toNat, .replace, (e :: rest).map Entry.record, none⟩

/-- The checks of the set of a key beside those of its entries. -/
structure Fits (l : Limits) (es : List Entry) (k : Str) : Prop where
  few : ((atKey es k).length : ℤ) ≤ l.maxValues
  distinct : ((atKey es k).map Entry.content).Nodup
  single : ∀ e ∈ atKey es k, e.type = str "CNAME" → (atKey es k).length ≤ 1
  alone : ∀ e ∈ atKey es k, ∀ e' ∈ es, e'.key ≠ k → e'.name = e.name →
    e.type ≠ str "CNAME" ∧ e'.type ≠ str "CNAME"

section

variable {gs : List Group} {g : Group} {s : PDNS.RRset}

theorem others_iff (hes : ∀ e ∈ es, Sound z e) (h : Collected es gs) (he : Sound z e)
    (hkey : e.key = k) :
    (∀ x ∈ (gs.filter fun g => !(g.key == k)).map fun g =>
        (⟨g.input.name, g.input.type, 0, .none, [], none⟩ : PDNS.RRset),
          exclusive E e.name e.type x = .ok ()) ↔
      ∀ e' ∈ es, e'.key ≠ k → e'.name = e.name → e.type ≠ str "CNAME" ∧ e'.type ≠ str "CNAME" := by
  have hiff {e' : Entry} (he' : e' ∈ es) (hne : e'.key ≠ k) :
      exclusive E e.name e.type ⟨e'.name, e'.type, 0, .none, [], none⟩ = .ok () ↔
        (e'.name = e.name → e.type ≠ str "CNAME" ∧ e'.type ≠ str "CNAME") := by
    have hs := hes e' he'
    refine (exclusive_iff he.owner.canonical.lower (editableTypes_upper _ he.type)
      hs.owner.canonical.lower
      (editableTypes_upper _ hs.type)).trans ⟨fun h hn => h hn fun ht => hne ?_, fun h hn _ => h hn⟩
    exact ((hs.key_eq_iff he).2 ⟨hn, ht⟩).trans hkey
  constructor
  · intro hall e' he' hne
    obtain ⟨g, hg, hgk⟩ := List.mem_map.1 (h.complete e' he')
    obtain ⟨e₁, rest, hat, hin⟩ := h.each g hg
    obtain ⟨he₁, hk₁⟩ := mem_atKey.1 (hat ▸ mem_cons_self : e₁ ∈ atKey es g.key)
    obtain ⟨hname, htype⟩ := ((hes e₁ he₁).key_eq_iff (hes e' he')).1 (hk₁.trans hgk)
    have hx := hall ⟨e₁.name, e₁.type, 0, .none, [], none⟩
      (List.mem_map.2 ⟨g, List.mem_filter.2 ⟨hg, by simpa [hgk] using hne⟩, by rw [hin]⟩)
    rw [hname, htype] at hx
    exact (hiff he' hne).1 hx
  · intro hall x hx
    obtain ⟨g, hg, rfl⟩ := List.mem_map.1 hx
    obtain ⟨hg, hne⟩ := List.mem_filter.1 hg
    obtain ⟨e₁, rest, hat, hin⟩ := h.each g hg
    obtain ⟨he₁, hk₁⟩ := mem_atKey.1 (hat ▸ mem_cons_self : e₁ ∈ atKey es g.key)
    have hne₁ : e₁.key ≠ k := by simpa [hk₁] using hne
    rw [hin]
    exact (hiff he₁ hne₁).2 (hall e₁ he₁ hne₁)

theorem groupSet_eq_ok (hz : IsZone z) (hes : ∀ e ∈ es, ∃ r, Becomes E l z r e)
    (h : Collected es gs) (hg : g ∈ gs) :
    groupSet E l z gs g = .ok s ↔ Fits l es g.key ∧ SetOf es g.key s := by
  have hsound : ∀ e ∈ es, Sound z e := fun e he =>
    have ⟨_, hb⟩ := hes e he
    ⟨hb.owner hz, hb.type_mem⟩
  obtain ⟨e, rest, hat, hin⟩ := h.each g hg
  have hall : ∀ x ∈ e :: rest, x ∈ es ∧ x.key = g.key := fun x hx => mem_atKey.1 (hat ▸ hx)
  obtain ⟨he, hkey⟩ := hall e mem_cons_self
  obtain ⟨r, hb⟩ := hes e he
  have hsame : ∀ x ∈ e :: rest, x.type = e.type := fun x hx =>
    ((hsound x (hall x hx).1).key_eq_iff (hsound e he)).1 ((hall x hx).2.trans hkey.symm) |>.2
  -- the second validation finds the values, the name and the type as the first did
  have hcanon : List.Forall₂ (fun v c => content E e.type z v = .ok c) ((e :: rest).map Entry.text)
      ((e :: rest).map Entry.content) := by
    rw [forall₂_map_left_iff, forall₂_map_right_iff, forall₂_same]
    intro x hx
    obtain ⟨_, hb⟩ := hes x (hall x hx).1
    exact hsame x hx ▸ hb.content
  have hunique : Relator.RightUnique fun v c => content E e.type z v = .ok c := fun _ _ _ h h' =>
    Except.ok.inj (h.symm.trans h')
  have htype : editableType E e.type = .ok e.type :=
    editableType_of_upper hb.type_mem (toUpper_editable hb.type_mem)
  have hname : recordName E z e.name = .ok e.name := recordName_of_isOwner hz (hb.owner hz)
  have hvalues : (e :: rest).map Entry.value = ((e :: rest).map Entry.text).map fun c =>
      ⟨c, false⟩ := by
    rw [map_map]
    rfl
  have hrecords : (e :: rest).map Entry.record = ((e :: rest).map Entry.content).map fun c =>
      ⟨c, false⟩ := by
    rw [map_map]
    rfl
  have hothers := others_iff (E := E) hsound h (hsound e he) hkey
  rw [groupSet, Except.map_eq_ok, hin, hvalues]
  simp only [Except.mapError_eq_ok, recordSet_texts hz, htype, hname]
  constructor
  · rintro ⟨_, ⟨_, _, cs, ⟨⟩, ⟨⟩, -, hcount, hcname, hex, hcs, hnd, rfl⟩, rfl⟩
    obtain rfl := hunique.forall₂ hcs hcanon
    refine ⟨⟨?_, hat ▸ hnd, fun x hx hc => ?_, fun x hx => ?_⟩, e, rest, hat, by rw [hrecords]⟩
    · rw [hat]
      simpa using hcount.2
    · rw [hat] at hx ⊢
      simpa using (hcname ((hsame x hx).symm.trans hc)).2
    · obtain ⟨hxes, hxk⟩ := mem_atKey.1 hx
      obtain ⟨hxn, hxt⟩ := ((hsound x hxes).key_eq_iff (hsound e he)).1 (hxk.trans hkey.symm)
      rw [hxn, hxt]
      exact hothers.1 hex
  · rintro ⟨hfits, e', rest', hat', rfl⟩
    obtain ⟨rfl, rfl⟩ := List.cons.inj (hat.symm.trans hat')
    have hmem : e ∈ atKey es g.key := hat ▸ mem_cons_self
    refine ⟨_, ⟨e.type, e.name, (e :: rest).map Entry.content, rfl, rfl, hb.ttl.1 ▸ hb.ttl.2,
      ⟨by simp, ?_⟩, fun hc => ?_,
      hothers.2 (hfits.alone e hmem), hcanon, hat ▸ hfits.distinct, rfl⟩, by rw [hrecords]⟩
    · have := hfits.few
      rw [hat] at this
      simpa using this
    · have := hfits.single e hmem hc
      rw [hat] at this
      exact ⟨hb.cname hc, by simpa using this⟩

end

/-! ## Whole templates -/

def atName (es : List Entry) (n t : Str) : List Entry := es.filter fun e =>
    e.name == n && e.type == t

theorem atKey_eq_atName (hes : ∀ e ∈ es, Sound z e) (he : Sound z e) :
    atKey es e.key = atName es e.name e.type := by
  refine filter_congr fun x hx => ?_
  rw [Bool.eq_iff_iff, Bool.and_eq_true, beq_iff_eq, beq_iff_eq, beq_iff_eq]
  exact (hes x hx).key_eq_iff he

/-- Two values of one set differ. -/
def Distinct (a b : Entry) : Prop := a.name = b.name → a.type = b.type → a.content ≠ b.content

def Apart (a b : Entry) : Prop := a.name = b.name → a.type ≠ str "CNAME" ∧ b.type ≠ str "CNAME"

structure Compatible (l : Limits) (es : List Entry) : Prop where
  few : ∀ e ∈ es, ((atName es e.name e.type).length : ℤ) ≤ l.maxValues
  distinct : es.Pairwise Distinct
  apart : es.Pairwise Apart

instance : Std.Symm Distinct := ⟨fun _ _ h hn ht hc => h hn.symm ht.symm hc.symm⟩

instance : Std.Symm Apart := ⟨fun _ _ h hn => (h hn.symm).symm⟩

theorem Compatible.perm (h : Compatible l es) (hperm : es'.Perm es) : Compatible l es' where
  few e he := by
    rw [atName, (hperm.filter _).length_eq]
    exact h.few e (hperm.mem_iff.1 he)
  distinct := (hperm.pairwise_iff fun h => symm h).2 h.distinct
  apart := (hperm.pairwise_iff fun h => symm h).2 h.apart

theorem Compatible.fits (hes : ∀ e ∈ es, Sound z e) (h : Compatible l es) (he : e ∈ es) :
    Fits l es e.key := by
  have hat := atKey_eq_atName hes (hes e he)
  have hsame {x : Entry} (hx : x ∈ atKey es e.key) : x ∈ es ∧ x.name = e.name ∧
      x.type = e.type := by
    obtain ⟨hx, hk⟩ := mem_atKey.1 hx
    exact ⟨hx, ((hes x hx).key_eq_iff (hes e he)).1 hk⟩
  refine ⟨hat ▸ h.few e he, ?_, fun x hx hc => ?_, fun x hx y hy hne hn => ?_⟩
  · rw [nodup_iff_pairwise_ne, pairwise_map]
    refine (h.distinct.filter _).imp_of_mem fun ha hb hab => ?_
    obtain ⟨-, han, hat⟩ := hsame ha
    obtain ⟨-, hbn, hbt⟩ := hsame hb
    exact hab (han.trans hbn.symm) (hat.trans hbt.symm)
  · by_contra hlen
    obtain ⟨a, b, rest, hab⟩ : ∃ a b rest, atKey es e.key = a :: b :: rest := by
      rcases hl : atKey es e.key with _ | ⟨a, _ | ⟨b, rest⟩⟩
      · simp [hl] at hlen
      · simp [hl] at hlen
      · exact ⟨a, b, rest, rfl⟩
    have hpair : (atKey es e.key).Pairwise Apart := h.apart.filter _
    obtain ⟨-, han, hat⟩ := hsame (hab ▸ mem_cons_self : a ∈ atKey es e.key)
    obtain ⟨-, hbn, -⟩ := hsame (hab ▸ mem_cons_of_mem _ mem_cons_self : b ∈ atKey es e.key)
    rw [hab] at hpair
    have := (pairwise_cons.1 hpair).1 b mem_cons_self (han.trans hbn.symm)
    exact this.1 (hat.trans ((hsame hx).2.2.symm.trans hc))
  · have hx' := (hsame hx).1
    have hxy : x ≠ y := fun hxy => hne (hxy ▸ (mem_atKey.1 hx).2)
    exact h.apart.forall hx' hy hxy hn.symm

theorem compatible_of_fits (hes : ∀ e ∈ es, Sound z e) (h : ∀ e ∈ es, Fits l es e.key) :
    Compatible l es := by
  have hpair {a b : Entry} (hab : [a, b].Sublist es) (hn : a.name = b.name) (ht : a.type = b.type) :
      [a, b].Sublist (atKey es a.key) := by
    have ha := hes a (hab.subset mem_cons_self)
    have hb := hes b (hab.subset (mem_cons_of_mem _ mem_cons_self))
    have hkey : b.key = a.key := (hb.key_eq_iff ha).2 ⟨hn.symm, ht.symm⟩
    have := hab.filter fun e => e.key == a.key
    rw [atKey]
    simpa [hkey] using this
  refine ⟨fun e he => ?_, pairwise_iff_forall_sublist.2 fun {a b} hab hn ht hc => ?_,
    pairwise_iff_forall_sublist.2 fun {a b} hab hn => ?_⟩
  · rw [← atKey_eq_atName hes (hes e he)]
    exact (h e he).few
  · have hnd := (h a (hab.subset mem_cons_self)).distinct.sublist
      ((hpair hab hn ht).map Entry.content)
    simp [hc] at hnd
  · have ha : a ∈ es := hab.subset mem_cons_self
    have hb : b ∈ es := hab.subset (mem_cons_of_mem _ mem_cons_self)
    have hmem : a ∈ atKey es a.key := mem_atKey.2 ⟨ha, rfl⟩
    by_cases ht : a.type = b.type
    · have hlen := (hpair hab hn ht).length_le
      have hone : a.type ≠ str "CNAME" := fun hc => by
        have := (h a ha).single a hmem hc
        simp at hlen
        omega
      exact ⟨hone, ht ▸ hone⟩
    · exact (h a ha).alone a hmem b hb
        (fun hk => ht ((hes b hb).key_eq_iff (hes a ha) |>.1 hk).2.symm) hn.symm

theorem forall₂_imp_mem {S : α → β → Prop} {bs : List β} (h : List.Forall₂ R as bs)
    (hRS : ∀ a ∈ as, ∀ b, R a b → S a b) : List.Forall₂ S as bs :=
  ((forall₂_and_left as bs).2 ⟨fun _ ha => ha, h⟩).imp fun _ _ h => hRS _ h.1 _ h.2

theorem exists_forall₂ (h : ∀ a ∈ as, ∃ b, R a b) :
    ∃ bs, List.Forall₂ R as bs := by
  induction as with
  | nil => exact ⟨[], .nil⟩
  | cons a as ih =>
    obtain ⟨b, hb⟩ := h a mem_cons_self
    obtain ⟨bs, hbs⟩ := ih fun a ha => h a (mem_cons_of_mem _ ha)
    exact ⟨b :: bs, .cons hb hbs⟩

def sortedGroups (es : List Entry) : List Group :=
  (collect 0 [] es).insertionSort fun a b => Str.le a.key b.key = true

theorem collected_sorted (es : List Entry) : Collected es (sortedGroups es) :=
  (collected_groups es).perm (perm_insertionSort ..)

/-- **What is expanded:** a template in which every record has an entry, the entries are compatible
    and not too many; the sets are those of the entries' keys in order. -/
theorem expandRecords_eq_ok : expandRecords E l zone recs = .ok sets ↔
    ∃ z es, zoneName E zone = .ok z ∧ recs.length ≤ Store.maxTemplateRecords ∧
      List.Forall₂ (Becomes E l z) recs es ∧
      Compatible l es ∧ List.Forall₂ (fun g s => SetOf es g.key s) (sortedGroups es) sets := by
  have hstep {z : Str} {es : List Entry} (hz : IsZone z)
      (hb : List.Forall₂ (Becomes E l z) recs es) :
      (sortedGroups es).mapM (groupSet E l z (sortedGroups es)) = .ok sets ↔
        Compatible l es ∧ List.Forall₂ (fun g s => SetOf es g.key s) (sortedGroups es) sets := by
    have hes : ∀ e ∈ es, ∃ r, Becomes E l z r e := fun e he =>
      have ⟨r, _, h⟩ := forall₂_mem_right hb he
      ⟨r, h⟩
    have hsound : ∀ e ∈ es, Sound z e := fun e he =>
      have ⟨_, h⟩ := hes e he
      ⟨h.owner hz, h.type_mem⟩
    have hgs := collected_sorted es
    rw [Except.mapM_eq_ok]
    constructor
    · intro h
      refine ⟨compatible_of_fits hsound fun e he => ?_, ?_⟩
      · obtain ⟨g, hg, hkey⟩ := List.mem_map.1 (hgs.complete e he)
        obtain ⟨s, -, hs⟩ := forall₂_mem_right h.flip hg
        exact hkey ▸ ((groupSet_eq_ok hz hes hgs hg).1 hs).1
      · exact forall₂_imp_mem h fun g hg s hs => ((groupSet_eq_ok hz hes hgs hg).1 hs).2
    · rintro ⟨hc, h⟩
      refine forall₂_imp_mem h fun g hg s hs => (groupSet_eq_ok hz hes hgs hg).2 ⟨?_, hs⟩
      obtain ⟨e, rest, hat, -⟩ := hs
      obtain ⟨he, hkey⟩ := mem_atKey.1 (hat ▸ mem_cons_self : e ∈ atKey es g.key)
      exact hkey ▸ hc.fits hsound he
  constructor
  · intro h
    obtain ⟨z, hz, h⟩ := Except.bind_eq_ok.1 h
    have hz := Except.mapError_eq_ok.1 hz
    split_ifs at h with hlen
    obtain ⟨gs, hgs, h⟩ := Except.bind_eq_ok.1 h
    obtain ⟨es, hb, rfl⟩ := (groupLoop_eq_ok (zoneName_spec hz)).1 hgs
    exact ⟨z, es, hz, not_lt.1 hlen, hb, (hstep (zoneName_spec hz) hb).1 h⟩
  · rintro ⟨z, es, hz, hlen, hb, hc, hsets⟩
    refine Except.bind_eq_ok.2 ⟨z, Except.mapError_eq_ok.2 hz, ?_⟩
    dsimp only
    rw [if_neg (not_lt.2 hlen)]
    exact Except.bind_eq_ok.2 ⟨_, (groupLoop_eq_ok (zoneName_spec hz)).2 ⟨es, hb, rfl⟩,
      (hstep (zoneName_spec hz) hb).2 ⟨hc, hsets⟩⟩

theorem exists_sets (es : List Entry) :
    ∃ sets, List.Forall₂ (fun g s => SetOf es g.key s) (sortedGroups es) sets := by
  refine exists_forall₂ fun g hg => ?_
  obtain ⟨e, rest, hat, -⟩ := (collected_sorted es).each g hg
  exact ⟨_, e, rest, hat, rfl⟩

theorem expandRecords_ok_iff : (∃ sets, expandRecords E l zone recs = .ok sets) ↔
    ∃ z es, zoneName E zone = .ok z ∧ recs.length ≤ Store.maxTemplateRecords ∧
      List.Forall₂ (Becomes E l z) recs es ∧
      Compatible l es := by
  simp only [expandRecords_eq_ok]
  constructor
  · rintro ⟨_, z, es, hz, hlen, hb, hc, -⟩
    exact ⟨z, es, hz, hlen, hb, hc⟩
  · rintro ⟨z, es, hz, hlen, hb, hc⟩
    obtain ⟨sets, hsets⟩ := exists_sets es
    exact ⟨sets, z, es, hz, hlen, hb, hc, hsets⟩

/-! ## The order of the sets -/

def Before (a b : PDNS.RRset) : Prop :=
  (a.name ≠ b.name ∧ Str.le a.name b.name = true) ∨
    (a.name = b.name ∧ a.type ≠ b.type ∧ Str.le a.type b.type = true)

theorem le_key {n' t' : Str} (hn : ∀ b ∈ n, 32 < b) (hn' : ∀ b ∈ n', 32 < b)
    (h : Str.le (n ++ 32 :: t) (n' ++ 32 :: t') = true) :
    (n ≠ n' ∧ Str.le n n' = true) ∨ (n = n' ∧ Str.le t t' = true) := by
  induction n generalizing n' with
  | nil => cases n' with
    | nil => exact .inr ⟨rfl, by simpa [Str.le] using h⟩
    | cons b n' => exact .inl ⟨by simp, rfl⟩
  | cons a n ih => cases n' with
    | nil =>
      have ha := hn a mem_cons_self
      simp only [cons_append, nil_append, Str.le, Bool.or_eq_true, decide_eq_true_eq,
        Bool.and_eq_true,
        beq_iff_eq] at h
      grind
    | cons b n' =>
      have ih := @ih n' (fun c hc => hn c (mem_cons_of_mem _ hc))
        (fun c hc => hn' c (mem_cons_of_mem _ hc))
      simp only [cons_append, Str.le, Bool.or_eq_true, decide_eq_true_eq, Bool.and_eq_true,
        beq_iff_eq] at h ⊢
      grind

def setKey (s : PDNS.RRset) : Str := s.name ++ 32 :: s.type

theorem SetOf.setKey_eq (h : SetOf es k s) : setKey s = k := by
  obtain ⟨e, rest, hat, rfl⟩ := h
  exact (mem_atKey.1 (hat ▸ mem_cons_self : e ∈ atKey es k)).2

theorem sortedGroups_sorted (es : List Entry) :
    (sortedGroups es).Pairwise fun a b => Str.le a.key b.key = true ∧ a.key ≠ b.key := by
  have htotal : Std.Total fun a b : Group => Str.le a.key b.key = true :=
    ⟨fun _ _ => Str.le.total ..⟩
  have htrans : IsTrans Group fun a b => Str.le a.key b.key = true := ⟨fun _ _ _ => Str.le.trans⟩
  have hsorted : (sortedGroups es).Pairwise fun a b => Str.le a.key b.key = true :=
    pairwise_insertionSort _ _
  exact hsorted.and (pairwise_map.1 (nodup_iff_pairwise_ne.1 (collected_sorted es).nodup))

theorem mem_keys : k ∈ (sortedGroups es).map Group.key ↔ ∃ e ∈ es, e.key = k := by
  have h := collected_sorted es
  constructor
  · intro hk
    obtain ⟨g, hg, rfl⟩ := List.mem_map.1 hk
    obtain ⟨e, rest, hat, -⟩ := h.each g hg
    exact ⟨e, mem_atKey.1 (hat ▸ mem_cons_self : e ∈ atKey es g.key)⟩
  · rintro ⟨e, he, rfl⟩
    exact h.complete e he

theorem keys_perm (hperm : es'.Perm es) :
    (sortedGroups es').map Group.key = (sortedGroups es).map Group.key := by
  have hsorted (es : List Entry) : ((sortedGroups es).map Group.key).Pairwise fun a b =>
      Str.le a b = true :=
    pairwise_map.2 ((sortedGroups_sorted es).imp And.left)
  refine List.Perm.eq_of_pairwise (fun _ _ _ _ => Str.le.antisymm) (hsorted es') (hsorted es) ?_
  refine (perm_ext_iff_of_nodup (collected_sorted es').nodup (collected_sorted es).nodup).2 fun k =>
    ?_
  simp only [mem_keys, hperm.mem_iff]

/-! ## What an expansion gives -/

structure Assembled (es : List Entry) (sets : List PDNS.RRset) : Prop where
  sorted : sets.Pairwise Before
  complete : ∀ e ∈ es, ∃ s ∈ sets, s.name = e.name ∧ s.type = e.type
  each : ∀ s ∈ sets, ∃ e rest, atName es s.name s.type = e :: rest ∧
    s = ⟨s.name, s.type, (e.ttl % 4294967296).toNat, .replace, (e :: rest).map Entry.record, none⟩

theorem mem_atName : e ∈ atName es n t ↔ e ∈ es ∧ e.name = n ∧ e.type = t := by
  rw [atName, List.mem_filter, Bool.and_eq_true, beq_iff_eq, beq_iff_eq]

theorem assembled (hes : ∀ e ∈ es, Sound z e)
    (h : List.Forall₂ (fun g s => SetOf es g.key s) (sortedGroups es) sets) :
    Assembled es sets := by
  have heach : ∀ s ∈ sets, ∃ e rest, e ∈ es ∧ atName es e.name e.type = e :: rest ∧
      s = ⟨e.name, e.type, (e.ttl % 4294967296).toNat, .replace,
        (e :: rest).map Entry.record, none⟩ := by
    intro s hs
    obtain ⟨g, -, e, rest, hat, rfl⟩ := forall₂_mem_right h hs
    obtain ⟨he, hkey⟩ := mem_atKey.1 (hat ▸ mem_cons_self : e ∈ atKey es g.key)
    rw [← hkey, atKey_eq_atName hes (hes e he)] at hat
    exact ⟨e, rest, he, hat, rfl⟩
  have hkeys : sets.map setKey = (sortedGroups es).map Group.key := by
    have : List.Forall₂ (fun g s => g.key = setKey s) (sortedGroups es) sets := h.imp fun _ _ h =>
      h.setKey_eq.symm
    rw [← forall₂_map_right_iff, ← forall₂_map_left_iff, forall₂_eq_eq_eq] at this
    exact this.symm
  refine ⟨?_, fun e he => ?_, fun s hs => ?_⟩
  · have hpair : (sets.map setKey).Pairwise fun a b => Str.le a b = true ∧ a ≠ b :=
      hkeys ▸ pairwise_map.2 (sortedGroups_sorted es)
    refine (pairwise_map.1 hpair).imp_of_mem fun {a b} ha hb hab => ?_
    have hname {s : PDNS.RRset} (hs : s ∈ sets) : ∀ b ∈ s.name, 32 < b := by
      obtain ⟨e, rest, he, -, rfl⟩ := heach s hs
      intro b hb
      have := ((hes e he).owner.canonical.printable b hb).1
      grind
    refine (le_key (hname ha) (hname hb) hab.1).imp_right fun ⟨hn, ht⟩ =>
      ⟨hn, fun htype => hab.2 ?_, ht⟩
    rw [setKey, setKey, hn, htype]
  · obtain ⟨s, hs, hkey⟩ := List.mem_map.1
      (hkeys ▸ mem_keys.2 ⟨e, he, rfl⟩ : e.key ∈ sets.map setKey)
    obtain ⟨e₁, rest, he₁, -, rfl⟩ := heach s hs
    exact ⟨_, hs, ((hes e₁ he₁).key_eq_iff (hes e he)).1 hkey⟩
  · obtain ⟨e, rest, he, hat, rfl⟩ := heach s hs
    exact ⟨e, rest, hat, rfl⟩

/-- The same set up to the order of the values and the TTL. -/
structure SameSet (s s' : PDNS.RRset) : Prop where
  name : s.name = s'.name
  type : s.type = s'.type
  rest : s.changeType = s'.changeType ∧ s.comments = s'.comments
  records : s.records.Perm s'.records

theorem forall₂_join {γ : Type} {S : α → γ → Prop} {bs : List β} {cs : List γ}
    (h : List.Forall₂ R as bs) (h' : List.Forall₂ S as cs) :
    List.Forall₂ (fun b c => ∃ a, R a b ∧ S a c) bs cs := by
  induction h generalizing cs with
  | nil =>
    cases h'
    exact .nil
  | cons hab _ ih =>
    obtain ⟨c, cs, hac, hcs, rfl⟩ := forall₂_cons_left_iff.1 h'
    exact .cons ⟨_, hab, hac⟩ (ih hcs)

theorem sameSet_of_perm (hes : ∀ e ∈ es, Sound z e) (hperm : es'.Perm es) {s' : PDNS.RRset}
    (h : SetOf es k s) (h' : SetOf es' k s') : SameSet s s' := by
  obtain ⟨e, rest, hat, rfl⟩ := h
  obtain ⟨e', rest', hat', rfl⟩ := h'
  obtain ⟨he, hk⟩ := mem_atKey.1 (hat ▸ mem_cons_self : e ∈ atKey es k)
  obtain ⟨he', hk'⟩ := mem_atKey.1 (hat' ▸ mem_cons_self : e' ∈ atKey es' k)
  obtain ⟨hname, htype⟩ := ((hes e he).key_eq_iff (hes e' (hperm.mem_iff.1 he'))).1
    (hk.trans hk'.symm)
  refine ⟨hname, htype, ⟨rfl, rfl⟩, ?_⟩
  rw [← hat, ← hat']
  exact ((hperm.filter _).symm.map _)

theorem expandRecords_perm {recs' : List Store.TemplateRecord}
    (h : expandRecords E l zone recs = .ok sets) (hperm : recs'.Perm recs) :
    ∃ sets', expandRecords E l zone recs' = .ok sets' ∧ List.Forall₂ SameSet sets sets' := by
  obtain ⟨z, es, hz, hlen, hb, hc, hsets⟩ := expandRecords_eq_ok.1 h
  have hsound : ∀ e ∈ es, Sound z e := fun e he =>
    have ⟨_, _, h⟩ := forall₂_mem_right hb he
    ⟨h.owner (zoneName_spec hz), h.type_mem⟩
  obtain ⟨es', hb', hperm'⟩ := perm_comp_forall₂ hperm hb
  obtain ⟨sets', hsets'⟩ := exists_sets es'
  refine ⟨sets', expandRecords_eq_ok.2 ⟨z, es', hz, hperm.length_eq ▸ hlen, hb', hc.perm hperm',
    hsets'⟩, ?_⟩
  have hkeys : List.Forall₂ (SetOf es) ((sortedGroups es).map Group.key) sets :=
    forall₂_map_left_iff.2 hsets
  have hkeys' : List.Forall₂ (SetOf es') ((sortedGroups es').map Group.key) sets' :=
    forall₂_map_left_iff.2 hsets'
  rw [keys_perm hperm'] at hkeys'
  exact (forall₂_join hkeys hkeys').imp fun _ _ ⟨_, h, h'⟩ => sameSet_of_perm hsound hperm' h h'

theorem Becomes.ttl_eq (h : Becomes E l z r e) (hmin : 0 ≤ l.minTTL)
    (hmax : l.maxTTL < 4294967296) :
    ((e.ttl % 4294967296).toNat : ℤ) = r.ttl := by
  obtain ⟨httl, hlow, hhigh⟩ := h.ttl
  rw [httl]
  omega

theorem Assembled.unique (h : Assembled es sets) {s' : PDNS.RRset} (hs : s ∈ sets)
    (hs' : s' ∈ sets) (hname : s'.name = s.name) (htype : s'.type = s.type) : s' = s := by
  have hbefore {a b : PDNS.RRset} (hab : Before a b) : ¬ (a.name = b.name ∧ a.type = b.type) := by
    rintro ⟨hn, ht⟩
    rcases hab with ⟨hne, -⟩ | ⟨-, hne, -⟩
    · exact hne hn
    · exact hne ht
  have hpair : sets.Pairwise fun a b => ¬ (a.name = b.name ∧ a.type = b.type) :=
    h.sorted.imp hbefore
  have hsymm : Std.Symm fun a b : PDNS.RRset => ¬ (a.name = b.name ∧ a.type = b.type) :=
    ⟨fun _ _ h ⟨hn, ht⟩ => h ⟨hn.symm, ht.symm⟩⟩
  by_contra hne
  exact hpair.forall hs' hs hne ⟨hname, htype⟩

theorem Assembled.cname (h : Assembled es sets) (hc : Compatible l es)
    (hs : s ∈ sets) (htype : s.type = str "CNAME") :
    s.records.length = 1 ∧ ∀ s' ∈ sets, s'.name = s.name → s' = s := by
  obtain ⟨e, rest, hat, hset⟩ := h.each s hs
  obtain ⟨he, hn, ht⟩ := mem_atName.1 (hat ▸ mem_cons_self : e ∈ atName es s.name s.type)
  refine ⟨?_, fun s' hs' hname => h.unique hs hs' hname ?_⟩
  · have hpair : (atName es s.name s.type).Pairwise Apart := hc.apart.filter _
    have hrest : rest = [] := by
      refine eq_nil_iff_forall_not_mem.2 fun x hx => ?_
      obtain ⟨-, hxn, -⟩ := mem_atName.1 (hat ▸ mem_cons_of_mem _ hx : x ∈ atName es s.name s.type)
      rw [hat] at hpair
      exact ((pairwise_cons.1 hpair).1 x hx (hn.trans hxn.symm)).1 (ht.trans htype)
    rw [hset, hrest]
    rfl
  · obtain ⟨e', rest', hat', -⟩ := h.each s' hs'
    obtain ⟨he', hn', ht'⟩ := mem_atName.1 (hat' ▸ mem_cons_self : e' ∈ atName es s'.name s'.type)
    by_contra hne
    have hee : e ≠ e' := fun hee => hne (ht'.symm.trans (hee ▸ ht))
    exact (hc.apart.forall he he' hee (hn.trans (hname.symm.trans hn'.symm))).1 (ht.trans htype)

/-- **Expansion by name and type.**  The sets of a template are sorted, each with its own name and
    type, inside the zone, with the values of the records of that name and type in their order and
    the TTL of the first of them, which is kept as it is by limits in the range of a TTL; a CNAME is
    alone at its name and below the apex.  In any other order the records give the same sets, up to
    the order of values and the TTL. -/
theorem expandRecords_spec {sets : List PDNS.RRset} (h : expandRecords E l zone recs = .ok sets) :
    (∃ z es, zoneName E zone = .ok z ∧ List.Forall₂ (Becomes E l z) recs es ∧ Assembled es sets ∧
      (∀ s ∈ sets, Store.InZone s.name z) ∧
      (∀ s ∈ sets, s.type = str "CNAME" →
        s.records.length = 1 ∧ s.name ≠ z ∧ ∀ s' ∈ sets, s'.name = s.name → s' = s) ∧
      (0 ≤ l.minTTL → l.maxTTL < 4294967296 →
        ∀ s ∈ sets, ∃ e ∈ (atName es s.name s.type).head?, (s.ttl : ℤ) = e.ttl)) ∧
      ∀ recs' : List Store.TemplateRecord, recs'.Perm recs →
        ∃ sets', expandRecords E l zone recs' = .ok sets' ∧ List.Forall₂ SameSet sets sets' := by
  refine ⟨?_, fun recs' hperm => expandRecords_perm h hperm⟩
  obtain ⟨z, es, hz, -, hb, hc, hsets⟩ := expandRecords_eq_ok.1 h
  have hbecomes : ∀ e ∈ es, ∃ r, Becomes E l z r e := fun e he =>
    have ⟨r, _, h⟩ := forall₂_mem_right hb he
    ⟨r, h⟩
  have hsound : ∀ e ∈ es, Sound z e := fun e he =>
    have ⟨_, h⟩ := hbecomes e he
    ⟨h.owner (zoneName_spec hz), h.type_mem⟩
  have has := assembled hsound hsets
  have hfirst : ∀ s ∈ sets, ∃ e ∈ (atName es s.name s.type).head?, e ∈ es ∧ e.name = s.name ∧
      e.type = s.type ∧
      s.ttl = (e.ttl % 4294967296).toNat := by
    intro s hs
    obtain ⟨e, rest, hat, hset⟩ := has.each s hs
    obtain ⟨he, hn, ht⟩ := mem_atName.1 (hat ▸ mem_cons_self : e ∈ atName es s.name s.type)
    exact ⟨e, by rw [hat]; rfl, he, hn, ht, congrArg PDNS.RRset.ttl hset⟩
  refine ⟨z, es, hz, hb, has, fun s hs => ?_, fun s hs htype => ?_, fun hmin hmax s hs => ?_⟩
  · obtain ⟨e, -, he, hn, -⟩ := hfirst s hs
    exact hn ▸ (hsound e he).owner.inside
  · obtain ⟨hone, halone⟩ := has.cname hc hs htype
    obtain ⟨e, -, he, hn, ht, -⟩ := hfirst s hs
    obtain ⟨r, hr⟩ := hbecomes e he
    exact ⟨hone, hn ▸ hr.cname (ht.trans htype), halone⟩
  · obtain ⟨e, hhead, he, -, -, httl⟩ := hfirst s hs
    obtain ⟨r, hr⟩ := hbecomes e he
    exact ⟨e, hhead, by rw [httl, hr.ttl_eq hmin hmax, hr.ttl.1]⟩

/-- Two addresses of one host: in the other order, the same set with its values in that order. -/
theorem expandRecords_host :
    ∃ sets : List PDNS.RRset, sets.length = 1 ∧ sets.Pairwise Before ∧
      ∃ sets', expandRecords .sample defaultLimits (str "example.com")
          [⟨str "www.[ZONE].", str "a", 600, str "192.0.2.2", 0⟩,
            ⟨str "www", str "A", 300, str "192.0.2.1", 0⟩] =
            .ok sets' ∧
        List.Forall₂ SameSet sets sets' := by
  let recs : List Store.TemplateRecord :=
    [⟨str "www", str "A", 300, str "192.0.2.1", 0⟩,
      ⟨str "www.[ZONE].", str "a", 600, str "192.0.2.2", 0⟩]
  have h : expandRecords .sample defaultLimits (str "example.com") recs =
      .ok [⟨str "www.example.com.", str "A", 300, .replace,
        [⟨str "192.0.2.1", false⟩, ⟨str "192.0.2.2", false⟩], none⟩] := by
    decide +kernel
  obtain ⟨⟨_, _, -, -, has, -⟩, hperm⟩ := expandRecords_spec h
  exact ⟨_, rfl, has.sorted, hperm _ (List.Perm.swap ..)⟩

/-- Limits beyond the range of a TTL: what is written is the rest modulo `2 ^ 32`. -/
theorem expandRecords_wraps :
    expandRecords .sample ⟨0, 8589934592, 100⟩ (str "example.com.")
        [⟨str "www", str "A", 4294967356, str "192.0.2.1", 0⟩] =
      .ok [⟨str "www.example.com.", str "A", 60, .replace, [⟨str "192.0.2.1", false⟩], none⟩] := by
  decide +kernel

end TangraDns.Templates
