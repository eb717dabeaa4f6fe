/-
  What redaction keeps of the details of an event (`Audit.guardMap`), and that the
  code's copies are that (`Audit.Heap.redact`).
-/
import TangraDns.AuditHeap
import TangraDns.Text.Search

namespace TangraDns.Audit

open List Str

variable {U : CaseTables}
variable {k : Str} {p : ℕ}

/-! ## Keys -/

def Forbidden (U : CaseTables) (k : Str) : Prop :=
  ∃ f ∈ forbidden, ∃ letters, letters <:+: runes k ∧
    letters.map (fun r => validRune (U.toLower r)) = f.map UInt8.toNat

theorem isASCII_forbidden : ∀ f ∈ forbidden, isASCII f = true := by simp [forbidden, str, isASCII]

theorem encode_ascii {f : Str} (hf : isASCII f = true) :
    (f.map UInt8.toNat).flatMap encodeRune = f := by
  rw [flatMap_map]
  refine (flatMap_congr fun b hb => encodeRune_byte (isASCII_iff.1 hf b hb)).trans ?_
  exact flatMap_singleton' f

theorem validRune_byte {b : UInt8} : validRune b.toNat = b.toNat := by
  have := b.toNat_lt
  exact if_neg (by omega)

theorem contains_toLower_iff {f : Str} (hf : isASCII f = true) : Str.Contains (toLower U k) f ↔
    ∃ letters, letters <:+: runes k ∧ letters.map (fun r => validRune (U.toLower r)) = f.map
      UInt8.toNat := by
  have hrunes : (f.map UInt8.toNat).map validRune = f.map UInt8.toNat := by
    rw [map_map]
    exact map_congr_left fun b _ => validRune_byte
  have hlower : toLower U k = ((runes k).map U.toLower).flatMap encodeRune := by
    rw [toLower_eq, flatMap_map]
  rw [Str.Contains, hlower]
  conv_lhs => rw [← encode_ascii hf]
  rw [infix_encoded_iff, hrunes, map_map, infix_map_iff]
  constructor
  · rintro ⟨letters, hin, heq⟩
    exact ⟨letters, hin, heq.symm⟩
  · rintro ⟨letters, hin, heq⟩
    exact ⟨letters, hin, heq.symm⟩

theorem forbiddenKey_iff : forbiddenKey U k = true ↔ Forbidden U k := by
  simp only [forbiddenKey, any_eq_true, decide_eq_true_eq, Forbidden]
  exact exists_congr fun f => and_congr_right fun hf =>
    contains_toLower_iff (isASCII_forbidden f hf)

/-! ## Paths -/

/-- One step into a value. -/
inductive Access where
  | key (k : Str)
  | index (i : ℕ)

def Value.child : Value → Access → Option Value
  | .map m, .key k => m.lookup k
  | .list vs, .index i => vs[i]?
  | _, _ => none

/-- What is found along a path. -/
def Value.at : Value → List Access → Option Value
  | v, [] => some v
  | v, a :: π => (v.child a).bind fun x => x.at π

/-- What a value is, without the values in it; of strings the first 256 bytes. -/
inductive Kind where
  | str (s : Str)
  | map
  | list
  | int (n : ℤ)
  | bool (b : Bool)
  | null
  | other (code : ℕ)

def Value.kind : Value → Kind
  | .str s => .str s
  | .map _ => .map
  | .list _ => .list
  | .int n => .int n
  | .bool b => .bool b
  | .null => .null
  | .other c => .other c

def Kind.cut : Kind → Kind
  | .str s => .str (s.take 256)
  | k => k

/-- `r` is `v` without what is under a forbidden key, with strings cut, and otherwise the same. -/
structure Redacted (U : CaseTables) (v r : Value) : Prop where
  dropped : ∀ π k, .key k ∈ π → Forbidden U k → r.at π = none
  kept : ∀ π, (∀ k, .key k ∈ π → ¬ Forbidden U k) → (r.at π).map Value.kind = (v.at π).map fun x =>
    x.kind.cut

theorem lookup_guardMap (m : Details) (k : Str) :
    (guardMap U m).lookup k = if forbiddenKey U k then none else (m.lookup k).map
    (guardValue U) := by
  induction m with
  | nil => simp [guardMap]
  | cons e m ih =>
    obtain ⟨k', v⟩ := e
    by_cases hk : k = k'
    · subst hk
      by_cases hf : forbiddenKey U k = true <;> simp [guardMap, hf, ih]
    · by_cases hf : forbiddenKey U k' =
        true <;> simp [guardMap, hf, ih, lookup_cons, beq_eq_false_iff_ne.2 hk]

theorem guardList_eq (vs : List Value) : guardList U vs = vs.map (guardValue U) := by
  induction vs with
  | nil => rfl
  | cons v vs ih => rw [guardList, ih, map_cons]

theorem kind_guardValue (v : Value) : (guardValue U v).kind = v.kind.cut := by
  cases v <;> rfl

theorem child_guardValue {a : Access} (ha : ∀ k, a = .key k → ¬ forbiddenKey U k = true)
    (v : Value) :
    (guardValue U v).child a = (v.child a).map (guardValue U) := by
  cases a with
  | key k =>
    cases v with
    | map m => exact (lookup_guardMap m k).trans (if_neg (ha k rfl))
    | _ => rfl
  | index i =>
    cases v with
    | list vs => simp only [guardValue, Value.child, guardList_eq, getElem?_map]
    | _ => rfl

theorem child_guardValue_forbidden (hf : forbiddenKey U k = true) (v : Value) :
    (guardValue U v).child (.key k) = none := by
  cases v with
  | map m => exact (lookup_guardMap m k).trans (if_pos hf)
  | _ => rfl

theorem at_guardValue_kept {π : List Access} (hπ : ∀ k, .key k ∈ π → ¬ forbiddenKey U k = true)
    (v : Value) :
    (guardValue U v).at π = (v.at π).map (guardValue U) := by
  induction π generalizing v with
  | nil => rfl
  | cons a π ih =>
    rw [Value.at, Value.at, child_guardValue (fun k hk => hπ k (hk ▸ mem_cons_self))]
    cases v.child a with
    | none => rfl
    | some x => exact ih (fun k hk => hπ k (mem_cons_of_mem _ hk)) x

theorem at_guardValue_dropped {π : List Access} (hk : .key k ∈ π) (hf : forbiddenKey U k = true)
    (v : Value) :
    (guardValue U v).at π = none := by
  induction π generalizing v with
  | nil => cases hk
  | cons a π ih =>
    rw [Value.at]
    rcases mem_cons.1 hk with rfl | hk
    · rw [child_guardValue_forbidden hf]
      rfl
    · by_cases ha : ∀ k', a = .key k' → ¬ forbiddenKey U k' = true
      · rw [child_guardValue ha]
        cases v.child a with
        | none => rfl
        | some x => exact ih hk x
      · simp only [not_forall, not_not] at ha
        obtain ⟨k', rfl, hf'⟩ := ha
        rw [child_guardValue_forbidden hf']
        rfl

theorem redacted_guardValue (v : Value) : Redacted U v (guardValue U v) where
  dropped _ _ hk hf := at_guardValue_dropped hk (forbiddenKey_iff.2 hf) v
  kept π hπ := by
    rw [at_guardValue_kept (fun k hk hf => hπ k hk (forbiddenKey_iff.1 hf)), Option.map_map]
    exact congrArg (fun f => (v.at π).map f) (funext kind_guardValue)

theorem truncate_truncate (s : Str) :
    truncate (truncate s) = truncate s := by simp [truncate, take_take]

mutual
theorem guardValue_guardValue : ∀ v : Value, guardValue U (guardValue U v) = guardValue U v
  | .str s => by rw [guardValue, guardValue, truncate_truncate]
  | .map m => by rw [guardValue, guardValue, guardMap_guardMap m]
  | .list vs => by rw [guardValue, guardValue, guardList_guardList vs]
  | .int _ | .bool _ | .null | .other _ => rfl

theorem guardMap_guardMap : ∀ m : List (Str × Value), guardMap U (guardMap U m) = guardMap U m
  | [] => rfl
  | (k, v) :: m => by
    by_cases hf : forbiddenKey U k = true
    · rw [guardMap, if_pos hf, guardMap_guardMap m]
    · rw [guardMap, if_neg hf, guardMap, if_neg hf, guardValue_guardValue v, guardMap_guardMap m]

theorem guardList_guardList : ∀ vs : List Value, guardList U (guardList U vs) = guardList U vs
  | [] => rfl
  | v :: vs => by rw [guardList, guardList, guardValue_guardValue v, guardList_guardList vs]
end

/-! ## Values on the heap -/

namespace Heap

variable {h h' : Objs} {b b' n q : ℕ} {c : Cell} {cs : List Cell}
  {es : List (Str × Cell)} {v : Value}
  {vs : List Value} {m : Details}

mutual
/-- The cell holds the value, in objects from address `b` on. -/
inductive Denotes (h : Objs) (b : ℕ) : Cell → Value → Prop
  | str (s : Str) : Denotes h b (.str s) (.str s)
  | int (n : ℤ) : Denotes h b (.int n) (.int n)
  | bool (x : Bool) : Denotes h b (.bool x) (.bool x)
  | null : Denotes h b .null .null
  | other (code : ℕ) : Denotes h b (.other code) (.other code)
  | map {p : ℕ} {es : List (Str × Cell)} {m : Details} (le : b ≤ p) (obj : h[p]? = some (.map es))
      (nodup : (es.map Prod.fst).Nodup) (entries : Entries h b es m) : Denotes h b (.map p) (.map m)
  | list {p : ℕ} {cs : List Cell} {vs : List Value} (le : b ≤ p) (obj : h[p]? = some (.list cs))
      (elems : Elems h b cs vs) : Denotes h b (.list p) (.list vs)

inductive Entries (h : Objs) (b : ℕ) : List (Str × Cell) → Details → Prop
  | nil : Entries h b [] []
  | cons {k : Str} {c : Cell} {v : Value} {es : List (Str × Cell)} {m : Details}
      (head : Denotes h b c v)
      (tail : Entries h b es m) : Entries h b ((k, c) :: es) ((k, v) :: m)

inductive Elems (h : Objs) (b : ℕ) : List Cell → List Value → Prop
  | nil : Elems h b [] []
  | cons {c : Cell} {v : Value} {cs : List Cell} {vs : List Value} (head : Denotes h b c v)
      (tail : Elems h b cs vs) :
      Elems h b (c :: cs) (v :: vs)
end

mutual
theorem Denotes.frame (hb : b' ≤ b) (hh : ∀ p o, b ≤ p → h[p]? = some o → h'[p]? = some o)
    {c : Cell} {v : Value} :
    Denotes h b c v → Denotes h' b' c v
  | .str s => .str s
  | .int n => .int n
  | .bool x => .bool x
  | .null => .null
  | .other code => .other code
  | .map le obj nodup entries => .map (hb.trans le) (hh _ _ le obj) nodup (entries.frame hb hh)
  | .list le obj elems => .list (hb.trans le) (hh _ _ le obj) (elems.frame hb hh)

theorem Entries.frame (hb : b' ≤ b) (hh : ∀ p o, b ≤ p → h[p]? = some o → h'[p]? = some o)
    {es : List (Str × Cell)}
    {m : Details} : Entries h b es m → Entries h' b' es m
  | .nil => .nil
  | .cons head tail => .cons (head.frame hb hh) (tail.frame hb hh)

theorem Elems.frame (hb : b' ≤ b) (hh : ∀ p o, b ≤ p → h[p]? = some o → h'[p]? = some o)
    {cs : List Cell}
    {vs : List Value} : Elems h b cs vs → Elems h' b' cs vs
  | .nil => .nil
  | .cons head tail => .cons (head.frame hb hh) (tail.frame hb hh)
end

theorem Entries.append (hes : Entries h b es m) (hc : Denotes h b c v) (k : Str) :
    Entries h b (es ++ [(k, c)]) (m ++ [(k, v)]) := by
  induction es generalizing m with
  | nil =>
    cases hes
    exact .cons hc .nil
  | cons e es ih =>
    cases hes with
    | cons head tail => exact .cons head (ih tail)

theorem Elems.append (hcs : Elems h b cs vs) (hc : Denotes h b c v) :
    Elems h b (cs ++ [c]) (vs ++ [v]) := by
  induction cs generalizing vs with
  | nil =>
    cases hcs
    exact .cons hc .nil
  | cons e cs ih =>
    cases hcs with
    | cons head tail => exact .cons head (ih tail)

/-! ### Growing heaps -/

theorem getElem?_of_prefix (hp : h <+: h') {o : Obj} (ho : h[p]? = some o) : h'[p]? = some o := by
  obtain ⟨t, rfl⟩ := hp
  rwa [getElem?_append_left (List.getElem?_eq_some_iff.1 ho).1]

theorem prefix_set (hp : h <+: h') (hq : h.length ≤ q) (o : Obj) : h <+: h'.set q o := by
  obtain ⟨t, rfl⟩ := hp
  rw [set_append_right _ _ hq]
  exact prefix_append ..

theorem getElem?_set_above (o : Obj) :
    ∀ p o', q + 1 ≤ p → h[p]? = some o' → (h.set q o)[p]? = some o' := by
  intro p o' hp ho
  rwa [getElem?_set_ne (by omega)]

/-! ### The loops -/

mutual
def depth : Value → ℕ
  | .map m => depthMap m + 1
  | .list vs => depthList vs + 1
  | _ => 0

def depthMap : Details → ℕ
  | [] => 0
  | (_, v) :: m => max (depth v) (depthMap m)

def depthList : List Value → ℕ
  | [] => 0
  | v :: vs => max (depth v) (depthList vs)
end

variable {f : Objs → Cell → Option (Cell × Objs)}

/-- The copies `f` makes of values nested less than `n` deep are new and redacted, and nothing else
    is changed. -/
def Copies (U : CaseTables) (n : ℕ) (f : Objs → Cell → Option (Cell × Objs)) : Prop :=
  ∀ {h : Objs} {c : Cell} {v : Value}, Denotes h 0 c v → depth v < n →
    ∃ c' h', f h c = some (c', h') ∧ h <+: h' ∧ Denotes h' h.length c' (Audit.guardValue U v)

theorem put_of_not_mem (hk : k ∉ es.map Prod.fst) : put es k c = es ++ [(k, c)] := if_neg hk

theorem fillMap_spec (hf : Copies U n f) {h₀ : Objs} (hes : Entries h₀ 0 es m) (hn : depthMap m < n)
    (hq : h₀.length = q)
    {done : List (Str × Cell)} {r : Details} (hpre : h₀ <+: h) (hobj : h[q]? = some (.map done))
    (hdone : Entries h (q + 1) done r) (hnodup : ((done ++ es).map Prod.fst).Nodup) :
    ∃ h' out, fillMap U f q es h = some h' ∧ h₀ <+: h' ∧ h'[q]? = some (.map out) ∧
      Entries h' (q + 1) out (r ++ Audit.guardMap U m) ∧ (out.map Prod.fst).Nodup := by
  induction es generalizing h m done r with
  | nil =>
    cases hes
    exact ⟨h, done, rfl, hpre, hobj, by simpa [Audit.guardMap] using hdone, by simpa using hnodup⟩
  | cons e es ih =>
    cases hes with
    | @cons k c v _ m head tail =>
      rw [depthMap, Nat.max_lt] at hn
      by_cases hk : forbiddenKey U k = true
      · rw [fillMap, if_pos hk, Audit.guardMap, if_pos hk]
        refine ih tail hn.2 hpre hobj hdone (hnodup.sublist ?_)
        exact ((sublist_cons_self _ _).append_left done).map _
      · -- the value is copied above `q`, then the entry is added to `q`
        obtain ⟨c', h₁, hcopy, hpre₁, hc'⟩ :=
          hf (head.frame le_rfl fun _ _ _ => getElem?_of_prefix hpre) hn.1
        have hlen : q + 1 ≤ h.length := (List.getElem?_eq_some_iff.1 hobj).1
        have hobj₁ := getElem?_of_prefix hpre₁ hobj
        have hfresh : k ∉ done.map Prod.fst := by
          rw [map_append, nodup_append] at hnodup
          exact fun hmem => hnodup.2.2 k hmem k (by simp) rfl
        have hput : putEntry h₁ q k c' = h₁.set q (.map (done ++ [(k, c')])) := by
          simp only [putEntry, hobj₁, put_of_not_mem hfresh]
        have hdone₁ : Entries h₁ (q + 1) done r := hdone.frame le_rfl fun _ _ _ =>
          getElem?_of_prefix hpre₁
        have hdone₂ := (hdone₁.append (hc'.frame hlen fun _ _ _ => id) k).frame le_rfl
          (getElem?_set_above (.map (done ++ [(k, c')])))
        rw [fillMap, if_neg hk, hcopy, Audit.guardMap, if_neg hk]
        simp only [hput]
        obtain ⟨h', out, hfill, hpre', hobj', hout, hnd⟩ :=
          ih tail hn.2 (prefix_set (hpre.trans hpre₁) hq.le _)
          (getElem?_set_self (List.getElem?_eq_some_iff.1 hobj₁).1) hdone₂ (by simpa using hnodup)
        exact ⟨h', out, hfill, hpre', hobj', by simpa using hout, hnd⟩

theorem fillList_spec (hf : Copies U n f) {h₀ : Objs} (hcs : Elems h₀ 0 cs vs)
    (hn : depthList vs < n)
    (hq : h₀.length = q) {done : List Cell} {r : List Value} (hpre : h₀ <+: h)
    (hobj : h[q]? = some (.list (done ++ List.replicate cs.length .null)))
    (hdone : Elems h (q + 1) done r) :
    ∃ h' out, fillList f q done.length cs h = some h' ∧ h₀ <+: h' ∧ h'[q]? = some (.list out) ∧
      Elems h' (q + 1) out (r ++ Audit.guardList U vs) := by
  induction cs generalizing h vs done r with
  | nil =>
    cases hcs
    exact ⟨h, done, rfl, hpre, by simpa using hobj, by simpa [Audit.guardList] using hdone⟩
  | cons c cs ih =>
    cases hcs with
    | @cons _ v _ vs head tail =>
      rw [depthList, Nat.max_lt] at hn
      obtain ⟨c', h₁, hcopy, hpre₁, hc'⟩ :=
        hf (head.frame le_rfl fun _ _ _ => getElem?_of_prefix hpre) hn.1
      have hlen : q + 1 ≤ h.length := (List.getElem?_eq_some_iff.1 hobj).1
      have hobj₁ := getElem?_of_prefix hpre₁ hobj
      have hset : setElem h₁ q done.length c' =
          h₁.set q (.list ((done ++ [c']) ++ List.replicate cs.length .null)) := by
        simp [setElem, hobj₁, replicate_succ]
      have hdone₁ : Elems h₁ (q + 1) done r := hdone.frame le_rfl fun _ _ _ =>
        getElem?_of_prefix hpre₁
      have hdone₂ := (hdone₁.append (hc'.frame hlen fun _ _ _ => id)).frame le_rfl
        (getElem?_set_above (.list ((done ++ [c']) ++ List.replicate cs.length .null)))
      rw [fillList, hcopy, Audit.guardList]
      simp only [hset]
      obtain ⟨h', out, hfill, hpre', hobj', hout⟩ :=
        ih tail hn.2 (prefix_set (hpre.trans hpre₁) hq.le _)
        (getElem?_set_self (List.getElem?_eq_some_iff.1 hobj₁).1) hdone₂
      exact ⟨h', out, by simpa using hfill, hpre', hobj', by simpa using hout⟩

/-! ### Copies -/

theorem guardMap_spec (hf : Copies U n f) (hm : Denotes h 0 (.map p) (.map m))
    (hn : depthMap m < n) :
    ∃ h', guardMap U f h p = some (h.length, h') ∧ h <+: h' ∧
      Denotes h' h.length (.map h.length) (.map (Audit.guardMap U m)) := by
  cases hm with
  | map le obj nodup entries =>
    have hnew : (h ++ [Obj.map []])[h.length]? = some (.map []) := by simp
    obtain ⟨h', out, hfill, hpre, hobj, hout, hnd⟩ :=
      fillMap_spec hf entries hn rfl (prefix_append h _) hnew .nil nodup
    refine ⟨h', ?_, hpre, .map le_rfl hobj hnd (hout.frame (Nat.le_succ _) fun _ _ _ => id)⟩
    rw [guardMap, obj]
    simp only [hfill, Option.map_some]

theorem guardList_spec (hf : Copies U n f) (hl : Denotes h 0 (.list p) (.list vs))
    (hn : depthList vs < n) :
    ∃ h', guardList f h p = some (h.length, h') ∧ h <+: h' ∧
      Denotes h' h.length (.list h.length) (.list (Audit.guardList U vs)) := by
  cases hl with
  | @list _ cs _ le obj elems =>
    have hnew : (h ++ [Obj.list (List.replicate cs.length .null)])[h.length]? =
        some (.list ([] ++ List.replicate cs.length .null)) := by simp
    obtain ⟨h', out, hfill, hpre, hobj, hout⟩ :=
      fillList_spec hf elems hn rfl (prefix_append h _) hnew .nil
    refine ⟨h', ?_, hpre, .list le_rfl hobj (hout.frame (Nat.le_succ _) fun _ _ _ => id)⟩
    rw [length_nil] at hfill
    rw [guardList, obj]
    simp only [hfill, Option.map_some]

theorem guardValue_copies (n : ℕ) : Copies U n (guardValue U n) := by
  induction n with
  | zero => exact fun _ hn => absurd hn (Nat.not_lt_zero _)
  | succ n ih =>
    intro h c v hv hn
    cases hv with
    | str s => exact ⟨_, h, rfl, prefix_rfl, .str _⟩
    | int x => exact ⟨_, h, rfl, prefix_rfl, .int x⟩
    | bool x => exact ⟨_, h, rfl, prefix_rfl, .bool x⟩
    | null => exact ⟨_, h, rfl, prefix_rfl, .null⟩
    | other x => exact ⟨_, h, rfl, prefix_rfl, .other x⟩
    | map le obj nodup entries =>
      obtain ⟨h', hcopy, hpre, hden⟩ :=
        guardMap_spec ih (.map le obj nodup entries) (Nat.lt_of_succ_lt_succ hn)
      exact ⟨_, h', by simp [guardValue, hcopy], hpre, hden⟩
    | list le obj elems =>
      obtain ⟨h', hcopy, hpre, hden⟩ :=
        guardList_spec ih (.list le obj elems) (Nat.lt_of_succ_lt_succ hn)
      exact ⟨_, h', by simp [guardValue, hcopy], hpre, hden⟩

/-- **Redaction** of details nested to any depth: with fuel for the depth it returns a new map; no
    object there was is changed; the map says what `Redacted` says; and redacting it again gives a
    map that says the same. -/
theorem redact_spec (U : CaseTables) (h : Objs) (p : ℕ) (m : Details)
    (hm : Denotes h 0 (.map p) (.map m)) (fuel : ℕ)
    (hfuel : depthMap m < fuel) :
    ∃ q h' r, redact U fuel h p = some (q, h') ∧ h.length ≤ q ∧ h <+: h' ∧
      Denotes h' 0 (.map q) (.map r) ∧
      Redacted U (.map m) (.map r) ∧
      ∀ fuel', depthMap r < fuel' → ∃ q' h'', redact U fuel' h' q = some (q', h'') ∧ h' <+: h'' ∧
        Denotes h'' 0 (.map q') (.map r) := by
  obtain ⟨h', hcopy, hpre, hden⟩ := guardMap_spec (guardValue_copies fuel) hm hfuel
  have hden₀ := hden.frame (Nat.zero_le _) fun _ _ _ => id
  refine ⟨h.length, h', Audit.guardMap U m, hcopy, le_rfl, hpre, hden₀,
    redacted_guardValue (.map m),
    fun fuel' hfuel' => ?_⟩
  obtain ⟨h'', hcopy', hpre', hden'⟩ := guardMap_spec (guardValue_copies fuel') hden₀ hfuel'
  rw [guardMap_guardMap] at hden'
  exact ⟨h'.length, h'', hcopy', hpre', hden'.frame (Nat.zero_le _) fun _ _ _ => id⟩

def sample : Objs :=
  [.map [(str "Token", .str (str "x")), (str "note", .str (replicate 300 97)),
    (str "rows", .list 1)],
    .list [.map 2, .bool true], .map [(str "apiKEY2", .int 1), (str "ttl", .int 60)]]

def sampleDetails : Details :=
  [(str "Token", .str (str "x")), (str "note", .str (replicate 300 97)),
    (str "rows", .list [.map [(str "apiKEY2", .int 1), (str "ttl", .int 60)], .bool true])]

theorem sample_denotes : Denotes sample 0 (.map 0) (.map sampleDetails) := by
  refine .map le_rfl rfl (by decide) (.cons (.str _)
    (.cons (.str _) (.cons (.list (Nat.zero_le _) rfl ?_) .nil)))
  exact .cons (.map (Nat.zero_le _) rfl (by decide) (.cons (.int _) (.cons (.int _) .nil)))
    (.cons (.bool _) .nil)

theorem redact_sample : Denotes sample 0 (.map 0) (.map sampleDetails) ∧ ∃ q h' r,
    redact .ascii 3 sample 0 = some (q, h') ∧ sample.length ≤ q ∧ sample <+: h' ∧
    Denotes h' 0 (.map q) (.map r) ∧
      Redacted .ascii (.map sampleDetails) (.map r) := by
  obtain ⟨q, h', r, hcopy, hq, hpre, hden, hred, -⟩ :=
    redact_spec .ascii sample 0 sampleDetails sample_denotes 3 (by decide)
  exact ⟨sample_denotes, q, h', r, hcopy, hq, hpre, hden, hred⟩

end Heap

end TangraDns.Audit
