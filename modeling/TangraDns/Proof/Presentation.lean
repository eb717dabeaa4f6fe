/-
  What the DNS library prints is a value that validation takes as it is, unless
  it has become too long.
-/
import TangraDns.Proof.Content

namespace TangraDns.Validate

open List Str

variable {s : Str} {b : UInt8} {P : UInt8 → Prop} {n : ℕ}

/-! ## Presentation form -/

inductive Field where
  | bare (s : Str)
  | quoted
deriving DecidableEq

def Field.num (n : ℕ) : Field := .bare (Addr.itoa n)

/-- The fields of a record's data. -/
def fields : RR → List Field
  | .a ip => [.bare (Addr.toStr4 ip)]
  | .aaaa ip => [.bare (Addr.toStr6 ip)]
  | .cname n | .ns n | .ptr n => [.bare n]
  | .mx preference n => [.num preference, .bare n]
  | .srv priority weight port n => [.num priority, .num weight, .num port, .bare n]
  | .txt ss | .spf ss => ss.map fun _ => .quoted
  | .caa flag tag _ => [.num flag, .bare tag, .quoted]
  | .ds keyTag algorithm digestType digest =>
    [.num keyTag, .num algorithm, .num digestType, .bare digest]
  | .dnskey flags protocol algorithm key => [.num flags, .num protocol, .num algorithm, .bare key]
  | .tlsa usage selector matchingType cert =>
    [.num usage, .num selector, .num matchingType, .bare cert]
  | .sshfp algorithm type fp => [.num algorithm, .num type, .bare fp]
  | .naptr order preference _ _ _ n =>
    [.num order, .num preference, .quoted, .quoted, .quoted, .bare n]

def names : RR → List Str
  | .cname n | .ns n | .ptr n | .mx _ n | .srv _ _ _ n | .naptr _ _ _ _ _ n => [n]
  | _ => []

def digests : RR → List Str
  | .ds _ _ _ s | .dnskey _ _ _ s | .tlsa _ _ _ s | .sshfp _ _ s => [s]
  | _ => []

def tags : RR → List Str
  | .caa _ tag _ => [tag]
  | _ => []

inductive Shown : Field → Str → Prop
  | bare (s : Str) : Shown (.bare s) s
  | quoted {q : Str} (hq : Body q) (hc : hasControl q = false) : Shown .quoted (34 :: (q ++ [34]))

/-- How the DNS library prints a record that validation accepts. -/
structure Prints (E : Env) : Prop where
  /-- the fields are printed in order, with a blank between two -/
  printed : ∀ {z t v rr₀ rr}, Parsed E z t v rr₀ rr →
    ∃ texts, texts ≠ [] ∧ List.Forall₂ Shown (fields rr) texts ∧ E.rdata rr = join 32 texts
  /-- a name is made of what stands outside quotes in the value, and its final dot -/
  names : ∀ {z t v rr₀ rr ok}, Parsed E z t v rr₀ rr → Quoting ok (prepare E t v) →
    ∀ s ∈ names rr₀, s ≠ [] ∧ ∀ b ∈ s, (ok b ∧ b ≠ 32) ∨ b = dot
  /-- a digest or key is made of octets of the value -/
  digests : ∀ {z t v rr₀ rr}, Parsed E z t v rr₀ rr →
    ∀ s ∈ digests rr₀, ∀ b ∈ s, b ∈ prepare E t v ∧ b ≠ 32
  /-- what is printed is parsed to the same record -/
  parsed : ∀ {z t v rr₀ rr}, Parsed E z t v rr₀ rr → E.newRR z t (E.rdata rr) = some rr

variable {E : Env} {z t v : Str} {rr₀ rr : RR}

/-! ## Rules of the types -/

theorem semantic_spec (h : semantic E rr₀ = .ok rr) :
    (rr = rr₀ ∧ tags rr₀ = []) ∨ (∃ flag tag value, rr₀ = .caa flag tag value ∧
        rr = .caa flag (toLower E.cases tag) value) ∨
      ∃ order preference flags service regexp n,
        rr₀ = .naptr order preference flags service regexp n ∧
          rr = .naptr order preference flags service regexp (toLower E.cases n) := by
  cases rr₀ with
  | caa flag tag value =>
    simp only [semantic, caa] at h
    split_ifs at h <;> cases h <;> exact .inr (.inl ⟨_, _, _, rfl, rfl⟩)
  | naptr order preference flags service regexp replacement =>
    simp only [semantic, naptr] at h
    split_ifs at h
    obtain ⟨⟨⟩, -, rfl⟩ := Except.map_eq_ok.1 h
    exact .inr (.inr ⟨_, _, _, _, _, _, rfl, rfl⟩)
  | aaaa ip =>
    simp only [semantic] at h
    split_ifs at h
    exact .inl ⟨(Except.ok.inj h).symm, rfl⟩
  | mx preference n =>
    simp only [semantic] at h
    split_ifs at h
    obtain ⟨⟨⟩, -, rfl⟩ := Except.map_eq_ok.1 h
    exact .inl ⟨rfl, rfl⟩
  | a | txt | spf => exact .inl ⟨(Except.ok.inj h).symm, rfl⟩
  | _ =>
    obtain ⟨⟨⟩, -, rfl⟩ := Except.map_eq_ok.1 h
    exact .inl ⟨rfl, rfl⟩

theorem mem_of_lengthOf {table : List (ℕ × ℕ)} {k : ℕ} (h : lengthOf table k = some n) :
    k ∈ table.map Prod.fst := by
  obtain ⟨p, hp, -⟩ := Option.map_eq_some_iff.1 h
  have hk : p.1 = k := by simpa using find?_some hp
  exact hk ▸ mem_map_of_mem (mem_of_find?_eq_some hp)

theorem ds_eq_ok {digest : Str} (h : ds n digest = .ok ()) :
    n ∈ [1, 2, 4] ∧ hexOK digest = true := by
  unfold ds at h
  cases hl : lengthOf dsDigestLen n with
  | none => simp [hl] at h
  | some m =>
    rw [hl] at h
    dsimp only at h
    split_ifs at h with hhex
    exact ⟨mem_of_lengthOf hl, by simpa using hhex⟩

theorem tlsa_eq_ok {u s m : ℕ} {cert : Str} (h : tlsa u s m cert = .ok ()) :
    u ∈ [0, 1, 2, 3] ∧ s ∈ [0, 1] ∧ m ∈ [0, 1, 2] ∧ hexOK cert = true := by
  unfold tlsa at h
  split_ifs at h with hu hs hm hhex
  simp only [mem_cons, not_mem_nil, or_false]
  exact ⟨by omega, by omega, by omega, by simpa using hhex⟩

theorem sshfp_eq_ok {a : ℕ} {fp : Str} (h : sshfp a n fp = .ok ()) :
    a ∈ [1, 2, 3, 4, 6] ∧ n ∈ [1, 2] ∧ hexOK fp = true := by
  unfold sshfp at h
  cases hl : lengthOf sshfpLen n with
  | none =>
    rw [hl] at h
    split_ifs at h
  | some m =>
    rw [hl] at h
    dsimp only at h
    split_ifs at h with ha hhex
    exact ⟨ha, mem_of_lengthOf hl, by simpa using hhex⟩

theorem dnskey_eq_ok {f p : ℕ} {key : Str} (h : dnskey f p key = .ok ()) :
    f ∈ [0, 256, 257] ∧ p = 3 ∧ base64OK key = true := by
  unfold dnskey at h
  split_ifs at h with hf hp hkey
  refine ⟨?_, not_not.1 hp, by simpa using hkey⟩
  simp only [mem_cons, not_mem_nil, or_false]
  omega

def knownTags : List Str := [str "issue", str "issuewild", str "iodef"]

theorem caa_eq_ok {tag value : Str} (h : caa E n tag value = .ok rr) :
    n ∈ [0, 128] ∧ toLower E.cases tag ∈ knownTags := by
  have hflags (hn : ¬ (n ≠ 0 ∧ n ≠ 128)) : n ∈ [0, 128] := by
    simp only [mem_cons, not_mem_nil, or_false]
    omega
  unfold caa at h
  dsimp only at h
  split_ifs at h with hn htag hiodef
  · exact ⟨hflags hn, by rcases htag with htag | htag <;> simp [htag, knownTags]⟩
  · exact ⟨hflags hn, by simp [hiodef, knownTags]⟩

theorem Parsed.type (h : Parsed E z t v rr₀ rr) : rr.type = t := by
  have ht := E.newRR_type _ _ _ _ h.zone h.editable h.parsed
  rcases semantic_spec h.rules with
    ⟨rfl, -⟩ | ⟨_, _, _, rfl, rfl⟩ | ⟨_, _, _, _, _, _, rfl, rfl⟩ <;> exact ht

theorem Parsed.eq (h : Parsed E z t v rr₀ rr) (ht : t ∉ [str "CAA", str "NAPTR"]) : rr = rr₀ := by
  have htype := h.type
  rcases semantic_spec h.rules with ⟨hrr, -⟩ | ⟨_, _, _, -, rfl⟩ | ⟨_, _, _, _, _, _, -, rfl⟩
  · exact hrr
  · exact absurd (htype ▸ .head _) ht
  · exact absurd (htype ▸ .tail _ (.head _)) ht

/-! ## Bytes of the fields -/

def BareByte (b : UInt8) : Prop := (0x21 ≤ b ∧ b ≤ 0x7e) ∧ b ∉ str "\";()\\@$"

theorem bareByte_of_alnum (h : (48 ≤ b ∧ b ≤ 58) ∨ (97 ≤ b ∧ b ≤ 122) ∨ b = 46) : BareByte b := by
  refine ⟨by grind, fun hb => ?_⟩
  have := special_cases b hb
  grind

theorem BareByte.lowerByte (h : BareByte b) : BareByte (lowerByte b) := by
  unfold Str.lowerByte
  split_ifs with hu
  · rw [isUpper, Bool.and_eq_true, decide_eq_true_eq, decide_eq_true_eq] at hu
    exact bareByte_of_alnum (by grind)
  · exact h

theorem BareByte.lt (h : BareByte b) : b < 0x80 := by
  have := h.1.2
  grind

theorem quoting_of_scan {quoted : Bool} (h : scan v quoted = .ok ()) :
    Quoting (fun b => b = 32 ∨ BareByte b) v := by
  obtain ⟨hctl, h⟩ := scan_eq_ok.1 h
  have hplain : Quoting PlainByte v := by
    cases quoted with
    | false =>
      obtain ⟨hq, hall⟩ := scanLoop_false_iff.1 h
      exact quoting_of_forall hq hall
    | true => exact scanLoop_true_iff.1 h
  refine hplain.mono fun b hb hq hp => ?_
  have hctl := any_eq_false.1 hctl b hb
  simp only [Bool.or_eq_true, decide_eq_true_eq, beq_iff_eq, not_or] at hctl
  by_cases hblank : b = 32
  · exact .inl hblank
  · refine .inr ⟨?_, fun hm => (mem_special.1 hm).elim hq hp.1⟩
    have := hp.2
    grind

theorem mem_fields (h : .bare s ∈ fields rr) :
    s ∈ names rr ++ digests rr ++ tags rr ∨ (∃ n, s = Addr.itoa n) ∨
      (rr.type ∈ [str "A", str "AAAA"] ∧ s ≠ [] ∧ ∀ b ∈ s, Addr.TextByte b) := by
  cases rr with
  | a ip =>
    obtain rfl : s = Addr.toStr4 ip := by simpa [fields] using h
    exact .inr (.inr ⟨by simp [RR.type], Addr.toStr_ne_nil (.v4 ip), Addr.textByte_toStr4 ip⟩)
  | aaaa ip =>
    obtain rfl : s = Addr.toStr6 ip := by simpa [fields] using h
    refine .inr (.inr ⟨by simp [RR.type], fun hnil => ?_, Addr.textByte_toStr6 ip⟩)
    have hparse := Addr.parseIPv6_toStr6 ip
    rw [hnil, show Addr.parseIPv6 [] = none by decide] at hparse
    cases hparse
  | txt ss => simp [fields] at h
  | spf ss => simp [fields] at h
  | _ =>
    simp only [fields, Field.num, mem_cons, Field.bare.injEq, not_mem_nil, or_false, reduceCtorEq,
      false_or] at h
    simp only [names, digests, tags, mem_append, mem_singleton, not_mem_nil]
    grind

theorem forall_fields (htok : ∀ s ∈ names rr ++ digests rr ++ tags rr, ∀ b ∈ s, P b)
    (hdigit : ∀ b, 48 ≤ b ∧ b ≤ 57 → P b)
    (htext : rr.type ∈ [str "A", str "AAAA"] → ∀ b, Addr.TextByte b → P b)
    (hs : .bare s ∈ fields rr) :
    ∀ b ∈ s, P b := by
  intro b hb
  rcases mem_fields hs with hs | ⟨n, rfl⟩ | ⟨ht, -, hs⟩
  · exact htok s hs b hb
  · exact hdigit b (Addr.mem_itoa b hb)
  · exact htext ht b (hs b hb)

theorem names_spec (hE : Prints E) (h : Parsed E z t v rr₀ rr) (hs : s ∈ names rr₀) :
    s ≠ [] ∧ ∀ b ∈ s, BareByte b := by
  obtain ⟨hne, hall⟩ := hE.names h (quoting_of_scan h.scan) s hs
  refine ⟨hne, fun b hb => ?_⟩
  rcases hall b hb with ⟨hb | hb, hblank⟩ | rfl
  · exact absurd hb hblank
  · exact hb
  · exact bareByte_of_alnum (by decide)

theorem ne_nil_of_hexOK (h : hexOK s = true) : s ≠ [] := by
  rintro rfl
  cases h

theorem digests_spec (hE : Prints E) (h : Parsed E z t v rr₀ rr) (hs : s ∈ digests rr₀) :
    s ≠ [] ∧ ∀ b ∈ s, BareByte b := by
  have hrules := h.rules
  have htype := E.newRR_type _ _ _ _ h.zone h.editable h.parsed
  -- the rules of the type refuse an empty digest or key
  have hplain : s ≠ [] ∧ quotedType t = false := by
    rw [← htype]
    cases rr₀ with
    | ds | tlsa | sshfp | dnskey =>
      obtain rfl := mem_singleton.1 hs
      obtain ⟨⟨⟩, hok, -⟩ := Except.map_eq_ok.1 hrules
      refine ⟨?_, by simp only [RR.type]; decide⟩
      first
        | exact ne_nil_of_hexOK (ds_eq_ok hok).2
        | exact ne_nil_of_hexOK (tlsa_eq_ok hok).2.2.2
        | exact ne_nil_of_hexOK (sshfp_eq_ok hok).2.2
        | (rintro rfl; exact absurd (dnskey_eq_ok hok).2.2 (by decide))
    | _ => cases hs
  have hscan := h.scan
  rw [hplain.2] at hscan
  have hquote : 34 ∉ prepare E t v := (scanLoop_false_iff.1 (scan_eq_ok.1 hscan).2).1
  refine ⟨hplain.1, fun b hb => ?_⟩
  obtain ⟨hmem, hblank⟩ := hE.digests h s hs b hb
  exact ((quoting_of_scan hscan).forall_of_not_mem hquote b hmem).resolve_left hblank

theorem toLower_name (hE : Prints E) (h : Parsed E z t v rr₀ rr) (hs : s ∈ names rr₀) :
    toLower E.cases s = s.map lowerByte ∧ IsLowerStr (toLower E.cases s) := by
  have hall := (names_spec hE h hs).2
  have heq : toLower E.cases s = s.map lowerByte := by
    rw [toLower, if_pos (isASCII_iff.2 fun b hb => (hall b hb).lt)]
  refine ⟨heq, fun b hb => ⟨?_, isUpper_of_mem_toLower _ hb⟩⟩
  rw [heq] at hb
  obtain ⟨c, hc, rfl⟩ := mem_map.1 hb
  exact (hall c hc).lowerByte.lt

theorem knownTags_spec : ∀ s ∈ knownTags, IsLowerStr s ∧ s ≠ [] ∧ ∀ b ∈ s, BareByte b := by
  unfold BareByte
  decide +kernel

theorem tokens_spec (hE : Prints E) (h : Parsed E z t v rr₀ rr)
    (hs : s ∈ names rr ++ digests rr ++ tags rr) : s ≠ [] ∧ ∀ b ∈ s, BareByte b := by
  rcases semantic_spec h.rules with
    ⟨rfl, htags⟩ | ⟨flag, tag, value, rfl, rfl⟩ |
      ⟨order, preference, flags, service, regexp, n, rfl, rfl⟩
  · rw [htags, append_nil, mem_append] at hs
    exact hs.elim (names_spec hE h) (digests_spec hE h)
  · obtain rfl : s = toLower E.cases tag := by simpa [names, digests, tags] using hs
    exact (knownTags_spec _ (caa_eq_ok h.rules).2).2
  · obtain rfl : s = toLower E.cases n := by simpa [names, digests, tags] using hs
    have hn : n ∈ names (.naptr order preference flags service regexp n) := mem_singleton.2 rfl
    obtain ⟨hne, hall⟩ := names_spec hE h hn
    rw [(toLower_name hE h hn).1]
    refine ⟨by simpa using hne, fun b hb => ?_⟩
    obtain ⟨c, hc, rfl⟩ := mem_map.1 hb
    exact (hall c hc).lowerByte

theorem bare_spec (hE : Prints E) (h : Parsed E z t v rr₀ rr) (hs : .bare s ∈ fields rr) :
    s ≠ [] ∧ ∀ b ∈ s, BareByte b := by
  refine ⟨?_, forall_fields (fun s hs => (tokens_spec hE h hs).2)
    (fun b hb => bareByte_of_alnum (by grind))
    (fun _ b hb => bareByte_of_alnum (by unfold Addr.TextByte at hb; grind)) hs⟩
  rcases mem_fields hs with hs | ⟨n, rfl⟩ | ⟨-, hne, -⟩
  exacts [(tokens_spec hE h hs).1, Addr.itoa_ne_nil n, hne]

/-! ## What is printed -/

theorem shown_spec (hE : Prints E) (h : Parsed E z t v rr₀ rr) {f : Field} (hf : f ∈ fields rr)
    (hs : Shown f s) : Ends s ∧ (∀ b ∈ s, 0x20 ≤ b ∧ b ≠ 0x7f) ∧ Quoting PlainByte s := by
  cases hs with
  | bare s =>
    obtain ⟨hne, hall⟩ := bare_spec hE h hf
    refine ⟨ends_of_forall hne fun b hb => (hall b hb).1, fun b hb => ?_,
      quoting_of_forall (fun hq => ?_) fun b hb => ?_⟩
    · have := (hall b hb).1
      grind
    · exact (hall 34 hq).2 (by decide)
    · exact ⟨fun hm => (hall b hb).2 (mem_special.2 (.inr hm)), (hall b hb).lt⟩
  | @quoted q hq hc =>
    refine ⟨⟨34, 34, rfl, by rw [← cons_append, getLast?_concat], by decide, by decide⟩,
      fun b hb => ?_,
      .quoted hq .nil⟩
    simp only [mem_cons, mem_append, not_mem_nil, or_false] at hb
    rcases hb with rfl | hb | rfl
    · decide
    · have := any_eq_false.1 hc b hb
      simp only [Bool.or_eq_true, decide_eq_true_eq, beq_iff_eq, not_or, UInt8.not_lt] at this
      exact this
    · decide

theorem rdata_spec (hE : Prints E) (h : Parsed E z t v rr₀ rr) :
    Ends (E.rdata rr) ∧ (∀ b ∈ E.rdata rr, 0x20 ≤ b ∧ b ≠ 0x7f) ∧
    Quoting PlainByte (E.rdata rr) := by
  obtain ⟨texts, hne, hshown, hout⟩ := hE.printed h
  have hall : ∀ s ∈ texts, Ends s ∧ (∀ b ∈ s, 0x20 ≤ b ∧ b ≠ 0x7f) ∧ Quoting PlainByte s := by
    intro s hs
    obtain ⟨f, hf, hfs⟩ := forall₂_mem_right hshown hs
    exact shown_spec hE h hf hfs
  rw [hout]
  refine ⟨.join hne fun s hs => (hall s hs).1, fun b hb => ?_,
    .join (by decide) ⟨by decide, by decide⟩ fun s hs => (hall s hs).2.2⟩
  rcases mem_join hb with rfl | ⟨s, hs, hb⟩
  · decide
  · exact (hall s hs).2.1 b hb

theorem fields_bare (hq : quotedType rr.type = false) {f : Field} (hf : f ∈ fields rr) :
    ∃ s, f = .bare s := by
  cases rr with
  | txt | spf | caa | naptr => exact absurd hq (by simp [quotedType, RR.type])
  | _ =>
    simp only [fields, Field.num, mem_cons, not_mem_nil, or_false] at hf
    grind

theorem forall_rdata (hE : Prints E) (h : Parsed E z t v rr₀ rr) (hq : quotedType t = false)
    (hblank : P 32) (hP : ∀ s, .bare s ∈ fields rr → ∀ b ∈ s, P b) : ∀ b ∈ E.rdata rr, P b := by
  obtain ⟨texts, -, hshown, hout⟩ := hE.printed h
  rw [← h.type] at hq
  intro b hb
  rw [hout] at hb
  rcases mem_join hb with rfl | ⟨s, hs, hb⟩
  · exact hblank
  · obtain ⟨f, hf, hfs⟩ := forall₂_mem_right hshown hs
    obtain ⟨s', rfl⟩ := fields_bare hq hf
    cases hfs
    exact hP s hf b hb

/-- **What is printed passes the scan.** -/
theorem scan_rdata (hE : Prints E) (h : Parsed E z t v rr₀ rr) :
    scan (E.rdata rr) (quotedType t) = .ok () := by
  obtain ⟨-, hctl, hquoting⟩ := rdata_spec hE h
  refine scan_eq_ok.2 ⟨?_, ?_⟩
  · rw [hasControl, any_eq_false]
    intro b hb
    have := hctl b hb
    simp only [Bool.or_eq_true, decide_eq_true_eq, beq_iff_eq, not_or, UInt8.not_lt]
    exact this
  · cases hq : quotedType t with
    | true => exact scanLoop_true_iff.2 hquoting
    | false =>
      have hquote : 34 ∉ E.rdata rr := fun hm => by
        refine forall_rdata (P := (· ≠ 34)) hE h hq (by decide) (fun s hs b hb => ?_) 34 hm rfl
        rintro rfl
        exact ((bare_spec hE h hs).2 34 hb).2 (by decide)
      exact scanLoop_false_iff.2 ⟨hquote, hquoting.forall_of_not_mem hquote⟩

/-! ## Letter case and quoting -/

def upperTypes : List Str := [str "DS", str "TLSA", str "SSHFP"]

theorem upperTypes_plain : ∀ t ∈ upperTypes, quotedType t = false ∧ t ∉ [str "CAA", str "NAPTR"] ∧
    ¬ (t = str "TXT" ∨ t = str "SPF") ∧ t ∉ lowerTypes ∧ t ∉ [str "A", str "AAAA"] := by decide

theorem prepare_upper (ht : t ∈ upperTypes) : prepare E t v = toUpper E.cases v := by
  obtain ⟨-, -, htext, hlower, -⟩ := upperTypes_plain t ht
  exact (if_neg htext).trans ((if_neg hlower).trans (if_pos ht))

theorem forall_rdata_of_prepare (hE : Prints E) (h : Parsed E z t v rr₀ rr)
    (hq : quotedType t = false) (ht : t ∉ [str "CAA", str "NAPTR"]) (hv : ∀ b ∈ prepare E t v, P b)
    (hP : ∀ b, b = 32 ∨ b = dot ∨ (48 ≤ b ∧ b ≤ 57) → P b)
    (htext : t ∈ [str "A", str "AAAA"] → ∀ b, Addr.TextByte b → P b) : ∀ b ∈ E.rdata rr, P b := by
  have hscan := (scan_eq_ok.1 h.scan).2
  rw [hq] at hscan
  have hquote := quoting_of_forall (scanLoop_false_iff.1 hscan).1 hv
  have htags : tags rr = [] := by
    have htype := h.type
    cases rr with
    | caa => exact absurd (htype ▸ .head _) ht
    | _ => rfl
  refine forall_rdata hE h hq (hP 32 (.inl rfl)) fun s hs => forall_fields (fun s hs b hb => ?_)
    (fun b hb => hP b (.inr (.inr hb))) (by rwa [h.type]) hs
  rw [htags, append_nil, h.eq ht, mem_append] at hs
  rcases hs with hs | hs
  · rcases (hE.names h hquote s hs).2 b hb with ⟨hb, -⟩ | rfl
    exacts [hb, hP dot (.inr (.inl rfl))]
  · exact hv b (hE.digests h s hs b hb).1

theorem isLowerStr_rdata (hE : Prints E) (h : Parsed E z t v rr₀ rr) (ht : t ∈ lowerTypes) :
    IsLowerStr (E.rdata rr) := by
  obtain ⟨-, hq, hcase, -⟩ := lowerTypes_plain t ht
  have hscan := (scan_eq_ok.1 h.scan).2
  rw [hq] at hscan
  refine forall_rdata_of_prepare hE h hq hcase
    (fun b hb => ⟨((scanLoop_false_iff.1 hscan).2 b hb).2, ?_⟩) ?_ ?_
  · rw [prepare_lower ht] at hb
    exact isUpper_of_mem_toLower _ hb
  · rintro b (rfl | rfl | hb)
    · decide
    · decide
    · exact ⟨by grind, by rw [isUpper]; grind⟩
  · intro _ b hb
    have hsafe := safe_of_textByte hb
    exact ⟨by have := hsafe.1.2; grind, hsafe.2.1⟩

theorem isUpperStr_rdata (hE : Prints E) (h : Parsed E z t v rr₀ rr) (ht : t ∈ upperTypes) :
    IsUpperStr (E.rdata rr) := by
  obtain ⟨hq, hcase, -, -, haddr⟩ := upperTypes_plain t ht
  have hscan := (scan_eq_ok.1 h.scan).2
  rw [hq] at hscan
  have hascii : isASCII (prepare E t v) = true :=
    isASCII_iff.2 fun b hb => ((scanLoop_false_iff.1 hscan).2 b hb).2
  have hupper : IsUpperStr (prepare E t v) := by
    rw [prepare_upper ht] at hascii ⊢
    refine isUpperStr_toUpper _ ?_
    rw [toUpper, if_pos hascii]
    refine isASCII_iff.2 fun b hb => ?_
    obtain ⟨c, hc, rfl⟩ := List.mem_map.1 hb
    exact upperByte_lt (isASCII_iff.1 hascii c hc)
  refine forall_rdata_of_prepare hE h hq hcase hupper ?_ fun hmem => absurd hmem haddr
  rintro b (rfl | rfl | hb)
  · decide
  · decide
  · exact ⟨by grind, by rw [isLower]; grind⟩

theorem hasPrefix_rdata (hE : Prints E) (h : Parsed E z t v rr₀ rr)
    (ht : t = str "TXT" ∨ t = str "SPF") :
    HasPrefix (E.rdata rr) [34] := by
  obtain ⟨texts, hne, hshown, hout⟩ := hE.printed h
  have hquoted : ∀ f ∈ fields rr, f = .quoted := by
    have htype := h.type
    cases rr with
    | txt ss | spf ss => simp [fields]
    | _ => rcases ht with rfl | rfl <;> exact absurd htype (by simp only [RR.type]; decide)
  obtain ⟨s, texts, rfl⟩ := exists_cons_of_ne_nil hne
  obtain ⟨f, fs, hs, -, hfields⟩ := forall₂_cons_right_iff.1 hshown
  obtain rfl := hquoted f (by rw [hfields]; exact mem_cons_self ..)
  cases hs with
  | @quoted q _ _ =>
    rw [hout]
    cases texts with
    | nil => exact ⟨q ++ [34], by rw [join_singleton]; rfl⟩
    | cons s' texts => exact ⟨q ++ [34] ++ 32 :: join 32 (s' :: texts), by rw [join_cons_cons]; rfl⟩

/-- **What is printed has the letter case and quoting of its type.** -/
theorem prepare_rdata (hE : Prints E) (h : Parsed E z t v rr₀ rr) :
    prepare E t (E.rdata rr) = E.rdata rr := by
  unfold prepare
  split_ifs with htxt hpre hlow hup
  · rfl
  · exact absurd (hasPrefix_rdata hE h htxt) hpre
  · exact toLower_of_isLowerStr _ (isLowerStr_rdata hE h hlow)
  · exact toUpper_of_isUpperStr _ (isUpperStr_rdata hE h hup)
  · rfl

/-- **The rules of the type leave the record as it is.** -/
theorem semantic_self (hE : Prints E) (h : Parsed E z t v rr₀ rr) : semantic E rr = .ok rr := by
  have hrules := h.rules
  rcases semantic_spec hrules with
    ⟨rfl, -⟩ | ⟨flag, tag, value, rfl, rfl⟩ |
      ⟨order, preference, flags, service, regexp, n, rfl, rfl⟩
  · exact hrules
  · have hlow := (knownTags_spec _ (caa_eq_ok hrules).2).1
    simpa only [semantic, caa, toLower_of_isLowerStr _ hlow] using hrules
  · have hlow := (toLower_name hE h (mem_singleton.2 rfl : n ∈ _)).2
    simpa only [semantic, naptr, toLower_of_isLowerStr _ hlow] using hrules

/-! ## Accepted values are accepted again -/

theorem content_self_iff (hE : Prints E) (hz : PlainName z) (ht : t ∈ editableTypes)
    {value out : Str}
    (h : content E t z value = .ok out) : content E t z out = .ok out ↔
    out.length ≤ maxContent := by
  obtain ⟨-, -, -, rr₀, rr, hp, rfl, hd⟩ := (content_eq_ok hz ht).1 h
  obtain ⟨hends, -, -⟩ := rdata_spec hE hp
  rw [content_eq_ok hz ht, hends.trimSpace]
  constructor
  · exact fun h => h.2.1
  · intro hlen
    refine ⟨hends.ne_nil, hlen, hd, rr, rr, ⟨hz, ht, ?_, ?_, semantic_self hE hp⟩, rfl, hd⟩
    · rw [prepare_rdata hE hp]
      exact scan_rdata hE hp
    · rw [prepare_rdata hE hp]
      exact hE.parsed hp

theorem contentOf_eq_ok {rtype zone value out : Str} : contentOf E rtype zone value = .ok out ↔
    ∃ z t, canonicalZone E zone = .ok z ∧ editableType E rtype = .ok t ∧
      content E t z value = .ok out := by
  simp only [contentOf, Except.bind_eq_ok, Except.mapError_eq_ok]
  constructor
  · rintro ⟨z, hz, t, ht, h⟩
    exact ⟨z, t, hz, ht, h⟩
  · rintro ⟨z, t, hz, ht, h⟩
    exact ⟨z, hz, t, ht, h⟩

/-- The presentation form of the record that the value denotes is at most as long as a value may
    be. -/
def Fits (E : Env) (rtype zone value : Str) : Prop :=
  ∀ z t rr₀ rr, canonicalZone E zone = .ok z → editableType E rtype = .ok t →
    Parsed E z t (trimSpace value) rr₀ rr →
    (E.rdata rr).length ≤ maxContent

/-- **Accepted values.**  The canonical form of a value has no control character and no directive.
    It is its own canonical form if and only if it is not longer than a value may be: printing may
    lengthen a value beyond that. -/
theorem contentOf_self_iff (E : Env) (hE : Prints E) (rtype zone value out : Str)
    (h : contentOf E rtype zone value = .ok out) :
    (∀ b ∈ out, 0x20 ≤ b ∧ b ≠ 0x7f) ∧ hasDirective E out = false ∧
      (contentOf E rtype zone out = .ok out ↔ Fits E rtype zone value) := by
  obtain ⟨z, t, hz, ht, h⟩ := contentOf_eq_ok.1 h
  have hself : contentOf E rtype zone out = .ok out ↔ content E t z out = .ok out := by
    rw [contentOf_eq_ok]
    constructor
    · rintro ⟨z', t', hz', ht', h⟩
      rw [hz] at hz'
      rw [ht] at ht'
      cases hz'
      cases ht'
      exact h
    · exact fun h => ⟨z, t, hz, ht, h⟩
  have hplain := (canonicalZone_spec hz).plainName
  have hed := (editableType_spec ht).2
  rw [hself, content_self_iff hE hplain hed h]
  obtain ⟨-, -, -, rr₀, rr, hp, rfl, hd⟩ := (content_eq_ok hplain hed).1 h
  refine ⟨(rdata_spec hE hp).2.1, hd, ?_, fun hfits => hfits z t rr₀ rr hz ht hp⟩
  rintro hlen z' t' rr₀' rr' hz' ht' ⟨-, -, -, hparsed, hrules⟩
  -- zone, type and value determine the record
  rw [hz] at hz'
  rw [ht] at ht'
  cases hz'
  cases ht'
  rw [hp.parsed] at hparsed
  cases hparsed
  rw [hp.rules] at hrules
  cases hrules
  exact hlen

/-! ## A library that prints so -/

def plainNames : RR → Bool
  | .cname n | .ns n | .ptr n | .mx _ n | .srv _ _ _ n =>
    n != [] && n.all fun b => isLabelByte b || b == dot
  | _ => true

/-- The sample environment, without its records of other names. -/
def samplePrinter : Env where
  __ := Env.sample
  newRR z t v := (Env.sample.newRR z t v).filter plainNames
  newRR_type z t v rr hz ht h :=
    Env.sample.newRR_type z t v rr hz ht (Option.filter_eq_some_iff.1 h).1
  newRR_a z ip hz := by rw [Env.sample.newRR_a z ip hz]; rfl
  newRR_aaaa z ip hz hm := by rw [Env.sample.newRR_aaaa z ip hz hm]; rfl
  newRR_ptr z n hz hn := by
    rw [Env.sample.newRR_ptr z n hz hn, Option.filter_some, if_pos]
    simp only [plainNames, Bool.and_eq_true, bne_iff_ne, all_eq_true, Bool.or_eq_true, beq_iff_eq]
    refine ⟨?_, plainName_octets hn⟩
    obtain ⟨ls, -, rfl, -⟩ := hn
    simp
  rdata_txt z v rr hz h := Env.sample.rdata_txt z v rr hz (Option.filter_eq_some_iff.1 h).1
  newRR_txt z ss hz hss := by
    obtain ⟨rr, hrr, hout⟩ := Env.sample.newRR_txt z ss hz hss
    have htype := Env.sample.newRR_type z _ _ _ hz (by decide) hrr
    refine ⟨rr, ?_, hout⟩
    rw [hrr, Option.filter_some, if_pos]
    cases rr with
    | txt => rfl
    | _ => exact absurd htype (by simp only [RR.type]; decide)

inductive SampleRecord (v : Str) : RR → Prop
  | a {ip : IP4} : SampleRecord v (.a ip)
  | aaaa {ip : IP6} : SampleRecord v (.aaaa ip)
  | cname : SampleRecord v (.cname v)
  | ns : SampleRecord v (.ns v)
  | ptr : SampleRecord v (.ptr v)
  | txt {ss : List Str} (h : TextStrings ss) : SampleRecord v (.txt ss)

theorem sampleRecord (h : Env.sample.newRR z t v = some rr) : SampleRecord v rr := by
  change Env.Sample.newRR z t v = some rr at h
  unfold Env.Sample.newRR at h
  split_ifs at h
  · obtain ⟨ip, -, rfl⟩ := Option.map_eq_some_iff.1 h
    exact .a
  · obtain ⟨ip, -, rfl⟩ := Option.map_eq_some_iff.1 h
    exact .aaaa
  · cases h
    exact .cname
  · cases h
    exact .ns
  · cases h
    exact .ptr
  · obtain ⟨ss, hss, rfl⟩ := Option.map_eq_some_iff.1 h
    exact .txt (of_decide_eq_true (Option.filter_eq_some_iff.1 hss).2)

theorem shown_charString (s : Str) : Shown .quoted (charString s) := by
  refine .quoted (body_presentOctet s) ?_
  rw [hasControl, any_eq_false]
  intro b hb
  obtain ⟨c, -, hb⟩ := mem_flatMap.1 hb
  have := presentOctet_printable c b hb
  simp only [Bool.or_eq_true, decide_eq_true_eq, beq_iff_eq]
  grind

theorem samplePrinter_newRR (z t v : Str) :
    samplePrinter.newRR z t v = (Env.Sample.newRR z t v).filter plainNames := rfl

theorem newRR_toStr4 (ip : IP4) :
    samplePrinter.newRR z (str "A") (Addr.toStr4 ip) = some (.a ip) := by
  rw [samplePrinter_newRR, Env.Sample.newRR, if_pos rfl, Addr.parseIPv4_toStr4]
  rfl

theorem newRR_toStr6 (ip : IP6) :
    samplePrinter.newRR z (str "AAAA") (Addr.toStr6 ip) = some (.aaaa ip) := by
  rw [samplePrinter_newRR, Env.Sample.newRR, if_neg (by decide), if_pos rfl, Addr.parseIPv6_toStr6]
  rfl

theorem newRR_charStrings {ss : List Str} (h : TextStrings ss) :
    samplePrinter.newRR z (str "TXT") (charStrings ss) = some (.txt ss) := by
  rw [samplePrinter_newRR, Env.Sample.newRR_eq_txt,
    readStrings_charStrings h.1 (length_le_charStrings ss), Option.filter_some,
    if_pos (decide_eq_true h)]
  rfl

theorem parsed_sample (h : Parsed samplePrinter z t v rr₀ rr) :
    rr = rr₀ ∧ SampleRecord (prepare samplePrinter t v) rr₀ ∧ plainNames rr₀ = true := by
  obtain ⟨hrr, hplain⟩ := Option.filter_eq_some_iff.1 h.parsed
  have hrec := sampleRecord hrr
  refine ⟨?_, hrec, hplain⟩
  rcases semantic_spec h.rules with ⟨hrr, -⟩ | ⟨_, _, _, rfl, -⟩ | ⟨_, _, _, _, _, _, rfl, -⟩
  · exact hrr
  all_goals cases hrec

theorem prints_samplePrinter : Prints samplePrinter where
  printed := by
    intro z t v rr₀ rr h
    obtain ⟨rfl, hrec, -⟩ := parsed_sample h
    cases hrec with
    | txt hss =>
      refine ⟨_, fun hnil => hss.1 (map_eq_nil_iff.1 hnil), ?_, rfl⟩
      simp only [fields, forall₂_map_left_iff, forall₂_map_right_iff, forall₂_same]
      exact fun s _ => shown_charString s
    | _ => exact ⟨[_], cons_ne_nil _ _, .cons (.bare _) .nil, (join_singleton ..).symm⟩
  names := by
    intro z t v rr₀ rr ok h hq
    obtain ⟨rfl, hrec, hplain⟩ := parsed_sample h
    have hname (hne : prepare samplePrinter t v ≠ [])
        (hall : ∀ b ∈ prepare samplePrinter t v, isLabelByte b = true ∨ b = dot) :
        ∀ s ∈ [prepare samplePrinter t v], s ≠ [] ∧ ∀ b ∈ s, (ok b ∧ b ≠ 32) ∨ b = dot := by
      intro s hs
      rw [mem_singleton.1 hs]
      refine ⟨hne, fun b hb => ?_⟩
      have hquote : 34 ∉ prepare samplePrinter t v := fun hm => absurd (hall 34 hm) (by decide)
      exact .inl ⟨hq.forall_of_not_mem hquote b
        hb, by rintro rfl; exact absurd (hall 32 hb) (by decide)⟩
    cases hrec with
    | cname | ns | ptr =>
      simp only [plainNames, Bool.and_eq_true, bne_iff_ne, all_eq_true, Bool.or_eq_true,
        beq_iff_eq] at hplain
      exact hname hplain.1 hplain.2
    | _ => exact fun s hs => absurd hs not_mem_nil
  digests := by
    intro z t v rr₀ rr h s hs
    obtain ⟨-, hrec, -⟩ := parsed_sample h
    cases hrec <;> cases hs
  parsed := by
    intro z t v rr₀ rr h
    have ht := h.type
    have hparsed := h.parsed
    obtain ⟨rfl, hrec, -⟩ := parsed_sample h
    cases hrec with
    | @a ip =>
      obtain rfl : t = str "A" := ht.symm
      exact newRR_toStr4 ip
    | @aaaa ip =>
      obtain rfl : t = str "AAAA" := ht.symm
      exact newRR_toStr6 ip
    | cname | ns | ptr => exact hparsed
    | txt hss =>
      obtain rfl : t = str "TXT" := ht.symm
      exact newRR_charStrings hss

/-- Accented letters that take four octets each when printed. -/
def accented : Str := (List.replicate 103 [0xC3, 0xA9]).flatten

/-- Five strings of accented letters. -/
def accentedText : Str := join 32 (List.replicate 5 (34 :: accented ++ [34]))

/-- Any value of the sample library that is accepted, here a short text. -/
theorem contentOf_self_iff_sample :
    Prints samplePrinter ∧ contentOf samplePrinter (str "txt") (str "example.com") (str "a \"b\"") =
        .ok (str "\"a \\\"b\\\"\"") ∧
      contentOf samplePrinter (str "txt") (str "example.com") (str "\"a \\\"b\\\"\"") =
        .ok (str "\"a \\\"b\\\"\"") := by
  have h : contentOf samplePrinter (str "txt") (str "example.com") (str "a \"b\"") =
      .ok (str "\"a \\\"b\\\"\"") := by decide +kernel
  have hrr : samplePrinter.newRR (str "example.com.") (str "TXT") (str "\"a \\\"b\\\"\"") =
      some (.txt [str "a \"b\""]) := by decide +kernel
  refine ⟨prints_samplePrinter, h, (contentOf_self_iff _ prints_samplePrinter _ _ _ _ h).2.2.2 ?_⟩
  intro z t rr₀ rr hz ht hp
  obtain rfl : str "example.com." = z := Except.ok.inj (Eq.trans (by decide +kernel) hz)
  obtain rfl : str "TXT" = t := Except.ok.inj (Eq.trans (by decide +kernel) ht)
  have hparsed := hp.parsed
  rw [show prepare samplePrinter (str "TXT") (trimSpace (str "a \"b\"")) =
    str "\"a \\\"b\\\"\"" by decide +kernel,
    hrr] at hparsed
  cases hparsed
  cases hp.rules
  decide +kernel

/-- Five strings of 103 accented letters, 1044 octets, are accepted, and their canonical form of
    4134 octets is refused. -/
theorem accentedText_not_self :
    Prints samplePrinter ∧ accentedText.length = 1044 ∧ ∃ out,
      contentOf samplePrinter (str "TXT") (str "example.com") accentedText = .ok out ∧
      out.length = 4134 ∧
        contentOf samplePrinter (str "TXT") (str "example.com") out =
          .error (.record ⟨.content, .tooLong⟩) := by
  have hdollar : 36 ∉ charStrings (List.replicate 5 accented) := by
    intro hm
    rcases mem_join hm with h | ⟨s, hs, h⟩
    · exact absurd h (by decide)
    · rw [map_replicate] at hs
      rw [eq_of_mem_replicate hs] at h
      exact absurd h (by decide +kernel)
  have hascii : isASCII (charStrings (List.replicate 5 accented)) = true :=
    isASCII_iff.2 fun b hb => by have := charStrings_printable _ b hb; grind
  have hdir : hasDirective samplePrinter (charStrings (List.replicate 5 accented)) = false :=
    hasDirective_eq_false hascii hdollar
  have hzone : canonicalZone samplePrinter (str "example.com") = .ok (str "example.com.") := by
    decide +kernel
  have htype : editableType samplePrinter (str "TXT") = .ok (str "TXT") := by decide +kernel
  have hlen : (charStrings (List.replicate 5 accented)).length = 4134 := by decide +kernel
  have hprep : prepare samplePrinter (str "TXT") accentedText = accentedText := by decide +kernel
  have hends : Ends accentedText := ⟨34,
    34, by decide +kernel, by decide +kernel, by decide, by decide⟩
  refine ⟨prints_samplePrinter, by decide +kernel, charStrings (List.replicate 5 accented),
    ?_, hlen, ?_⟩
  · have hplain := (canonicalZone_spec hzone).plainName
    have hed : str "TXT" ∈ editableTypes := by decide
    refine contentOf_eq_ok.2 ⟨_, _, hzone, htype, (content_eq_ok hplain hed).2 ?_⟩
    rw [hends.trimSpace]
    refine ⟨hends.ne_nil, by decide +kernel, by decide +kernel, .txt (List.replicate 5 accented), _,
      ⟨hplain, hed, ?_, ?_, rfl⟩, rfl, hdir⟩
    · rw [hprep]
      decide +kernel
    · rw [hprep]
      decide +kernel
  · have hstrings : TextStrings (List.replicate 5 accented) := by decide +kernel
    have hcontent := content_charStrings (canonicalZone_spec hzone).plainName hstrings hdir
    rw [if_pos (by rw [hlen]; decide)] at hcontent
    rw [contentOf, hzone, htype]
    simp only [Except.mapError, bind, Except.bind, hcontent]

end TangraDns.Validate
