/-
  Parsing an address undoes printing it.
-/
import Mathlib.Data.List.TakeWhile
import Mathlib.Data.Nat.Digits.Defs
import TangraDns.Net.Addr
import TangraDns.Text.Labels

namespace Addr

open List

variable {s r : Str} {b c : UInt8} {d n port : ℕ}
variable {l : Str} {ip : IP6}

/-! ## Numbers -/

theorem digitByte (h : d < 10) : UInt8.ofNat d.digitChar.toNat = UInt8.ofNat (48 + d) := by
  have key : ∀ d < 10, UInt8.ofNat (Nat.digitChar d).toNat = UInt8.ofNat (48 + d) := by decide
  exact key d h

theorem itoa_of_lt (h : n < 10) : itoa n = [UInt8.ofNat (48 + n)] := by
  rw [itoa, Nat.toDigits_of_lt_base h, map_singleton, digitByte h]

theorem itoa_of_le (h : 10 ≤ n) : itoa n = itoa (n / 10) ++ [UInt8.ofNat (48 + n % 10)] := by
  rw [itoa, Nat.toDigits_of_base_le (by decide) h, map_append, map_singleton,
    digitByte (Nat.mod_lt _ (by decide)), itoa]

theorem digit_ofNat (h : d < 10) : digit (UInt8.ofNat (48 + d)) = some d := by
  have key : ∀ d < 10, digit (UInt8.ofNat (48 + d)) = some d := by decide
  exact key d h

theorem digit_range (h : digit b = some d) : 48 ≤ b ∧ b ≤ 57 := by
  unfold digit at h
  split_ifs at h with hb
  exact hb

theorem eq_of_digit (h : digit b = some d) : d < 10 ∧ b = UInt8.ofNat (48 + d) := by
  unfold digit at h
  split_ifs at h with hb
  cases h
  rw [UInt8.le_iff_toNat_le, UInt8.le_iff_toNat_le] at hb
  simp only [UInt8.reduceToNat] at hb
  refine ⟨by omega, UInt8.toNat_inj.1 ?_⟩
  simp
  omega

theorem mem_itoa : ∀ c ∈ itoa n, 48 ≤ c ∧ c ≤ 57 := by
  induction n using Nat.strong_induction_on with
  | _ n ih =>
    intro c hc
    by_cases hn : n < 10
    · rw [itoa_of_lt hn, mem_singleton] at hc
      subst hc
      exact digit_range (digit_ofNat hn)
    · rw [itoa_of_le (by omega), mem_append, mem_singleton] at hc
      rcases hc with hc | rfl
      · exact ih (n / 10) (by omega) c hc
      · exact digit_range (digit_ofNat (Nat.mod_lt _ (by decide)))

theorem itoa_ne_nil (n : ℕ) : itoa n ≠ [] := by
  by_cases hn : n < 10
  · simp [itoa_of_lt hn]
  · simp [itoa_of_le (show 10 ≤ n by omega)]

theorem decimal_itoa (n : ℕ) : decimal (itoa n) = some n := by
  rw [decimal, if_neg (itoa_ne_nil n)]
  induction n using Nat.strong_induction_on with
  | _ n ih =>
    by_cases hn : n < 10
    · rw [itoa_of_lt hn, foldlM_cons, digit_ofNat hn, Nat.zero_mul]
      simp
    · rw [itoa_of_le (by omega), foldlM_append, ih (n / 10) (by omega)]
      simp only [foldlM_cons, foldlM_nil, digit_ofNat (Nat.mod_lt n (by decide : 0 < 10)),
        Option.map_some, bind_pure, Option.bind_eq_bind, Option.bind_some]
      congr 1
      omega

theorem head_itoa (h : 0 < n) : (itoa n).head? ≠ some 48 := by
  induction n using Nat.strong_induction_on with
  | _ n ih =>
    by_cases hn : n < 10
    · have key : ∀ d < 10, 0 < d → UInt8.ofNat (48 + d) ≠ 48 := by decide
      simpa [itoa_of_lt hn] using key n hn h
    · rw [itoa_of_le (by omega), head?_append_of_ne_nil _ (itoa_ne_nil _)]
      exact ih (n / 10) (by omega) (by omega)

theorem length_itoa_le {e : ℕ} (he : 0 < e) (h : n < 10 ^ e) : (itoa n).length ≤ e := by
  simpa [itoa] using Nat.toDigits_length 10 n e he h

theorem itoa_no_zero (n : ℕ) : ¬ (1 < (itoa n).length ∧ (itoa n).head? = some 48) := by
  rintro ⟨hlen, hhead⟩
  rcases Nat.eq_zero_or_pos n with rfl | hn
  · simp [itoa_of_lt] at hlen
  · exact head_itoa hn hhead

theorem eq_itoa_of_decimal (h : decimal s = some n) (hzero : ¬ (1 < s.length ∧ s.head? = some 48)) :
    s = itoa n := by
  unfold decimal at h
  split_ifs at h with hne
  induction s using List.reverseRecOn generalizing n with
  | nil => exact absurd rfl hne
  | append_singleton s b ih =>
    rw [foldlM_append] at h
    obtain ⟨m, hm, hb⟩ := Option.bind_eq_some_iff.1 h
    simp only [foldlM_cons, foldlM_nil, bind_pure] at hb
    obtain ⟨d, hd, rfl⟩ := Option.map_eq_some_iff.1 hb
    have hd10 : d < 10 ∧ b = UInt8.ofNat (48 + d) := eq_of_digit hd
    by_cases hs : s = []
    · subst hs
      cases hm
      rw [Nat.zero_mul, Nat.zero_add, itoa_of_lt hd10.1, hd10.2]
      rfl
    · have hhead : s.head? ≠ some 48 := by
        intro hh
        have hlen := length_pos_iff.2 hs
        exact hzero ⟨by rw [length_append, length_singleton]; omega,
          by rw [head?_append_of_ne_nil _ hs, hh]⟩
      have hs' := ih (fun h => hhead h.2) hs hm
      have hpos : 0 < m := by
        rcases Nat.eq_zero_or_pos m with rfl | hpos
        · exact absurd (by rw [hs']; rfl) hhead
        · exact hpos
      rw [itoa_of_le (by omega), show (m * 10 + d) / 10 = m by omega,
        show (m * 10 + d) % 10 = d by omega,
        ← hs', hd10.2]

theorem parseOctet_itoa (b : UInt8) : parseOctet (itoa b.toNat) = some b := by
  have hb : b.toNat < 256 := b.toNat_lt
  have hlen : (itoa b.toNat).length ≤ 3 :=
    length_itoa_le (by decide) (lt_of_lt_of_le hb (by decide))
  have hpos : 0 < (itoa b.toNat).length := length_pos_iff.2 (itoa_ne_nil _)
  have hzero := itoa_no_zero b.toNat
  rw [parseOctet, if_pos ⟨hlen, by grind⟩, decimal_itoa]
  simp [show b.toNat ≤ 255 by omega]

theorem hexByte_range (h : n < 16) :
    (48 ≤ hexByte n ∧ hexByte n ≤ 57) ∨ (97 ≤ hexByte n ∧ hexByte n ≤ 102) := by
  have key : ∀ n < 16, (48 ≤ hexByte n ∧ hexByte n ≤ 57) ∨ (97 ≤ hexByte n ∧ hexByte n ≤ 102) := by
    decide
  exact key n h

theorem hexDigit_hexByte (h : n < 16) : hexDigit (hexByte n) = some n := by
  have key : ∀ n < 16, hexDigit (hexByte n) = some n := by decide
  exact key n h

theorem hexGroup_ne_nil (n : ℕ) : hexGroup n ≠ [] := by unfold hexGroup; split_ifs <;> simp

theorem hexGroup_range (h : n < 65536) :
    ∀ c ∈ hexGroup n, (48 ≤ c ∧ c ≤ 57) ∨ (97 ≤ c ∧ c ≤ 102) := by
  intro c hc
  unfold hexGroup at hc
  split_ifs at hc <;> simp only [mem_cons, not_mem_nil, or_false] at hc
  · subst hc; exact hexByte_range (by omega)
  · rcases hc with rfl | rfl <;> exact hexByte_range (by omega)
  · rcases hc with rfl | rfl | rfl <;> exact hexByte_range (by omega)
  · rcases hc with rfl | rfl | rfl | rfl <;> exact hexByte_range (by omega)

theorem parseGroup_hexGroup (h : n < 65536) : parseGroup (hexGroup n) = some n := by
  have hd := fun {m} (hm : m < 16) => hexDigit_hexByte hm
  unfold hexGroup
  split_ifs with h1 h2 h3
  · simp [parseGroup, hd h1]
  · simp [parseGroup, hd (show n / 16 < 16 by omega), hd (show n % 16 < 16 by omega)]; omega
  · simp [parseGroup, hd (show n / 256 < 16 by omega), hd (show n / 16 % 16 < 16 by omega),
      hd (show n % 16 < 16 by omega)]; omega
  · simp [parseGroup, hd (show n / 4096 < 16 by omega), hd (show n / 256 % 16 < 16 by omega),
      hd (show n / 16 % 16 < 16 by omega), hd (show n % 16 < 16 by omega)]; omega

/-! ## IPv4 -/

theorem not_mem_itoa (hc : c < 48) : c ∉ itoa b.toNat := fun h =>
  absurd (mem_itoa c h).1 (by grind)

theorem parseIPv4_toStr4 (ip : IP4) : parseIPv4 (toStr4 ip) = some ip := by
  have hs : Str.split 46 (toStr4 ip) =
      [itoa ip.a.toNat, itoa ip.b.toNat, itoa ip.c.toNat, itoa ip.d.toNat] := by
    refine splitOn_intercalate 46 ?_ (by simp)
    intro l hl
    simp only [mem_cons, not_mem_nil, or_false] at hl
    rcases hl with rfl | rfl | rfl | rfl <;> exact not_mem_itoa (by decide)
  rw [parseIPv4, hs]
  simp [parseOctet_itoa]

/-! ## IPv6 -/

theorem groups_lt (ip : IP6) : ∀ g ∈ groups ip, g < 65536 := by
  intro g hg
  obtain ⟨x, -, rfl⟩ := List.mem_map.1 hg
  exact UInt16.toNat_lt x

theorem ofGroups_groups (ip : IP6) : ofGroups (groups ip) = some ip := by simp [groups, ofGroups]

variable {gs : List ℕ}

theorem not_mem_hexGroup (hn : n < 65536)
    (hc : c < 48 ∨ (57 < c ∧ c < 97) ∨ 102 < c) : c ∉ hexGroup n := fun h => by
  have := hexGroup_range hn c h
  grind

theorem parseGroups_map (hgs : ∀ g ∈ gs, g < 65536) :
    parseGroups (gs.map hexGroup) = some gs := by
  induction gs with
  | nil => rfl
  | cons g gs ih =>
    have hg := hgs g (by simp)
    cases gs with
    | nil =>
      have : 46 ∉ hexGroup g := not_mem_hexGroup hg (Or.inl (by decide))
      simp [parseGroups, this, parseGroup_hexGroup hg]
    | cons g' gs =>
      have := ih fun g h => hgs g (by simp [h])
      simp only [map_cons] at this ⊢
      rw [parseGroups, this, parseGroup_hexGroup hg]
      simp

theorem joinGroups_cons_cons (g g' : ℕ) (gs : List ℕ) :
    joinGroups (g :: g' :: gs) = hexGroup g ++ 58 :: joinGroups (g' :: gs) := by
  simp [joinGroups, Str.join, List.intercalate]

theorem joinGroups_singleton (g : ℕ) : joinGroups [g] = hexGroup g := by
  simp [joinGroups, Str.join, List.intercalate]

theorem joinGroups_head (g : ℕ) (gs : List ℕ) (hg : g < 65536) :
    ∃ b s, joinGroups (g :: gs) = b :: s ∧ b ≠ 58 := by
  obtain ⟨b, s, hb⟩ := exists_cons_of_ne_nil (hexGroup_ne_nil g)
  have h58 : b ≠ 58 := fun h =>
    not_mem_hexGroup hg (c := 58) (by decide) (by rw [hb, h]; simp)
  cases gs with
  | nil => exact ⟨b, s, by rw [joinGroups_singleton, hb], h58⟩
  | cons g' gs => exact ⟨b, s ++ 58 :: joinGroups (g' :: gs), by rw [joinGroups_cons_cons, hb]; rfl,
      h58⟩

theorem mem_joinGroups (hgs : ∀ g ∈ gs, g < 65536) :
    ∀ c ∈ joinGroups gs, (48 ≤ c ∧ c ≤ 58) ∨ (97 ≤ c ∧ c ≤ 102) := by
  induction gs with
  | nil => simp [joinGroups, Str.join]
  | cons g gs ih =>
    have hg : ∀ c ∈ hexGroup g, (48 ≤ c ∧ c ≤ 58) ∨ (97 ≤ c ∧ c ≤ 102) := fun c hc => by
      have := hexGroup_range (hgs g (by simp)) c hc
      grind
    cases gs with
    | nil => rw [joinGroups_singleton]; exact hg
    | cons g' gs =>
      intro c hc
      rw [joinGroups_cons_cons, mem_append, mem_cons] at hc
      rcases hc with hc | rfl | hc
      · exact hg c hc
      · decide
      · exact ih (fun g h => hgs g (by simp [h])) c hc

theorem fieldGroups_joinGroups (hgs : ∀ g ∈ gs, g < 65536) :
    fieldGroups (joinGroups gs) = some gs := by
  cases gs with
  | nil => rfl
  | cons g gs =>
    have hs : Str.split 58 (joinGroups (g :: gs)) = (g :: gs).map hexGroup := by
      refine splitOn_intercalate 58 ?_ (by simp)
      intro l hl
      obtain ⟨x, hx, rfl⟩ := List.mem_map.1 hl
      exact not_mem_hexGroup (hgs x hx) (by decide)
    obtain ⟨b, s, hb, -⟩ := joinGroups_head g gs (hgs g (by simp))
    rw [fieldGroups, if_neg (by rw [hb]; simp), hs, parseGroups_map hgs]

theorem cutEllipsis_append {f : Str} (hf : 58 ∉ f) (s : Str) :
    cutEllipsis (f ++ s) = (cutEllipsis s).map fun p => (f ++ p.1, p.2) := by
  induction f with
  | nil => simp
  | cons b f ih =>
    have hb : b ≠ 58 := fun h => hf (by simp [h])
    rw [cons_append, cutEllipsis.eq_2 _ _ (by rintro r rfl; exact absurd rfl hb),
      ih fun h => hf (by simp [h])]
    simp [Option.map_map, Function.comp_def]

theorem cutEllipsis_colon (hb : b ≠ 58) (s : Str) :
    cutEllipsis (58 :: b :: s) = (cutEllipsis (b :: s)).map fun p => (58 :: p.1, p.2) := by
  rw [cutEllipsis.eq_2 _ _ (by rintro r - h; exact absurd (List.cons.inj h).1 hb)]

theorem cutEllipsis_joinGroups_append (hgs : ∀ g ∈ gs, g < 65536) (r : Str) :
    cutEllipsis (joinGroups gs ++ r) = (cutEllipsis r).map fun p =>
      (joinGroups gs ++ p.1, p.2) := by
  induction gs with
  | nil => simp [joinGroups, Str.join]
  | cons g gs ih =>
    have hg := hgs g (by simp)
    have h58 : 58 ∉ hexGroup g := not_mem_hexGroup hg (by decide)
    cases gs with
    | nil => rw [joinGroups_singleton, cutEllipsis_append h58]
    | cons g' gs =>
      obtain ⟨b, s, hb, hne⟩ := joinGroups_head g' gs (hgs g' (by simp))
      have ih := ih fun g h => hgs g (by simp [h])
      rw [hb, cons_append] at ih
      rw [joinGroups_cons_cons, append_assoc, cutEllipsis_append h58, hb, cons_append,
        cons_append, cutEllipsis_colon hne, ih]
      simp [Option.map_map, Function.comp_def]

theorem zeros_le (gs : List ℕ) : zeros gs ≤ gs.length := (List.takeWhile_prefix _).length_le

theorem take_zeros (gs : List ℕ) : gs.take (zeros gs) = List.replicate (zeros gs) 0 := by
  have : gs.take (zeros gs) = gs.takeWhile (· == 0) :=
    (prefix_iff_eq_take.1 (List.takeWhile_prefix _)).symm
  rw [this, eq_replicate_iff]
  exact ⟨rfl, fun b hb => by simpa using mem_takeWhile_imp hb⟩

theorem zeroRun_spec {i l : ℕ} (h : zeroRun gs = some (i, l)) :
    2 ≤ l ∧ l ≤ gs.length - i ∧ (gs.drop i).take l = List.replicate l 0 := by
  -- every candidate of the scan is a run of zeros
  have key : ∀ (is : List ℕ) (best : Option (ℕ × ℕ)),
      (∀ i l, best = some (i, l) → 2 ≤ l ∧ l = zeros (gs.drop i)) →
      ∀ i l, is.foldl (fun best i => let l := zeros (gs.drop i)
        if 2 ≤ l ∧ (best.map Prod.snd).getD 0 < l then some (i, l) else best) best = some (i, l) →
        2 ≤ l ∧ l = zeros (gs.drop i) := by
    intro is
    induction is with
    | nil => exact fun best hb i l h => hb i l h
    | cons j is ih =>
      intro best hb i l h
      refine ih _ ?_ i l h
      intro i l h
      dsimp only at h
      split_ifs at h with hc
      · cases h; exact ⟨hc.1, rfl⟩
      · exact hb i l h
  obtain ⟨h2, rfl⟩ := key _ none (by simp) i l h
  exact ⟨h2, (zeros_le _).trans (by simp), take_zeros _⟩

theorem parseIPv6_toStr6 (ip : IP6) : parseIPv6 (toStr6 ip) = some ip := by
  have hlt := groups_lt ip
  have hlen : (groups ip).length = 8 := rfl
  unfold toStr6
  cases hz : zeroRun (groups ip) with
  | none =>
    have hcut := cutEllipsis_joinGroups_append hlt []
    rw [append_nil] at hcut
    simp only [parseIPv6, hcut, cutEllipsis, Option.map_none, fieldGroups_joinGroups hlt,
      Option.bind_some, ofGroups_groups]
  | some p =>
    obtain ⟨i, l⟩ := p
    obtain ⟨h2, hl, hrep⟩ := zeroRun_spec hz
    rw [hlen] at hl
    have hltl : ∀ g ∈ (groups ip).take i, g < 65536 := fun g h => hlt g (mem_of_mem_take h)
    have hltr : ∀ g ∈ (groups ip).drop (i + l), g < 65536 := fun g h => hlt g (mem_of_mem_drop h)
    have hcut : cutEllipsis (joinGroups ((groups ip).take i) ++ [58, 58] ++
        joinGroups ((groups ip).drop (i + l))) =
        some (joinGroups ((groups ip).take i), joinGroups ((groups ip).drop (i + l))) := by
      rw [append_assoc, cutEllipsis_joinGroups_append hltl]
      simp [cutEllipsis]
    have hdot : 46 ∉ joinGroups ((groups ip).take i) := fun h =>
      absurd (mem_joinGroups hltl 46 h) (by decide)
    have hll : ((groups ip).take i).length + ((groups ip).drop (i + l)).length = 8 - l := by
      simp [hlen]; omega
    have heq : (groups ip).take i ++ List.replicate (8 - ((groups ip).take i).length -
        ((groups ip).drop (i + l)).length) 0 ++ (groups ip).drop (i + l) = groups ip := by
      have : 8 - ((groups ip).take i).length - ((groups ip).drop (i + l)).length = l := by omega
      rw [this, ← hrep, append_assoc, ← drop_drop, take_append_drop,
        take_append_drop]
    have hle : ((groups ip).take i).length + ((groups ip).drop (i + l)).length ≤ 7 := by omega
    simp only [parseIPv6, hcut, contains_eq_mem, hdot, decide_false, Bool.false_eq_true,
      if_false, fieldGroups_joinGroups hltl, fieldGroups_joinGroups hltr, heq, hle, if_true,
      ofGroups_groups]

/-! ## Addresses -/

private theorem find_special {pre rest : Str} {b : UInt8} (hb : b = 46 ∨ b = 58)
    (hpre : ∀ c ∈ pre, 48 ≤ c ∧ c ≠ 58) :
    (pre ++ b :: rest).find? (fun b => b == 46 || b == 58 || b == 37) = some b := by
  rw [find?_append, find?_eq_none.2 fun c hc => ?_]
  · rcases hb with rfl | rfl <;> rfl
  · have := hpre c hc
    grind

/-- The text of an IPv6 address: a colon comes before every other special byte, and no percent
    sign occurs. -/
private theorem toStr6_form (ip : IP6) :
    (∃ pre rest, toStr6 ip = pre ++ 58 :: rest ∧ ∀ c ∈ pre, 48 ≤ c ∧ c ≠ 58) ∧
      37 ∉ toStr6 ip := by
  have hlt := groups_lt ip
  have hpre : ∀ (g g' : ℕ) (gs : List ℕ), (∀ x ∈ g :: g' :: gs, x < 65536) → ∃ pre rest,
      joinGroups (g :: g' :: gs) = pre ++ 58 :: rest ∧ ∀ c ∈ pre, 48 ≤ c ∧ c ≠ 58 := by
    intro g g' gs h
    refine ⟨_, _, joinGroups_cons_cons g g' gs, fun c hc => ?_⟩
    have := hexGroup_range (h g (by simp)) c hc
    grind
  have hno : ∀ {gs : List ℕ}, (∀ x ∈ gs, x < 65536) → 37 ∉ joinGroups gs := fun h hm =>
    absurd (mem_joinGroups h 37 hm) (by decide)
  unfold toStr6
  cases zeroRun (groups ip) with
  | none => exact ⟨hpre _ _ _ hlt, hno hlt⟩
  | some p =>
    obtain ⟨i, l⟩ := p
    have hltl : ∀ g ∈ (groups ip).take i, g < 65536 := fun g h => hlt g (mem_of_mem_take h)
    have hltr : ∀ g ∈ (groups ip).drop (i + l), g < 65536 := fun g h => hlt g (mem_of_mem_drop h)
    refine ⟨?_, ?_⟩
    · dsimp only
      rw [append_assoc]
      generalize (groups ip).take i = gl at hltl
      match gl with
      | [] => exact ⟨[], _, rfl, by simp⟩
      | [g] =>
        refine ⟨hexGroup g, _, by rw [joinGroups_singleton]; rfl, fun c hc => ?_⟩
        have := hexGroup_range (hltl g (by simp)) c hc
        grind
      | g :: g' :: gs =>
        obtain ⟨pre, rest, he, hp⟩ := hpre g g' gs hltl
        exact ⟨pre, rest ++ _, by rw [he, append_assoc, cons_append], hp⟩
    · simp only [mem_append, not_or]
      exact ⟨⟨hno hltl, by decide⟩, hno hltr⟩

theorem cut_none (h : b ∉ s) : cut b s = (s, none) := by
  have : s.dropWhile (· != b) = [] := by
    rw [dropWhile_eq_nil_iff]
    intro c hc
    simpa using ne_of_mem_of_not_mem hc h
  simp [cut, this]

theorem cut_append (h : b ∉ s) (r : Str) : cut b (s ++ b :: r) = (s, some r) := by
  have hs : ∀ c ∈ s, (c != b) = true := fun c hc => by
    simpa using ne_of_mem_of_not_mem hc h
  rw [cut, dropWhile_append_of_pos hs, takeWhile_append_of_pos hs]
  simp

/-- **Parsing undoes printing**, for every address not mapped from IPv4. -/
theorem parseAddr_toStr {a : Addr} (h : ∀ ip z, a = v6 ip z → mapped ip = false) :
    parseAddr a.toStr = some a := by
  cases a with
  | v4 ip =>
    have hs : toStr4 ip = itoa ip.a.toNat ++ 46 ::
        Str.join 46 [itoa ip.b.toNat, itoa ip.c.toNat, itoa ip.d.toNat] := by
      simp [toStr4, Str.join, List.intercalate]
    have hf : (toStr4 ip).find? (fun b => b == 46 || b == 58 || b == 37) = some 46 := by
      rw [hs]
      exact find_special (Or.inl rfl) fun c hc => by have := mem_itoa c hc; grind
    simp [parseAddr, toStr, hf, parseIPv4_toStr4]
  | v6 ip z =>
    obtain ⟨⟨pre, rest, hs, hp⟩, hno⟩ := toStr6_form ip
    have hm := h ip z rfl
    have hf : ∀ t : Str, (toStr6 ip ++ t).find? (fun b => b == 46 || b == 58 || b == 37) =
        some 58 := by
      intro t
      rw [hs, append_assoc, cons_append]
      exact find_special (Or.inr rfl) hp
    by_cases hz : z = []
    · subst hz
      have hf := hf []
      rw [append_nil] at hf
      simp [parseAddr, toStr, hm, hf, cut_none hno, parseIPv6_toStr6]
    · simp [parseAddr, toStr, hm, hf, hz, cut_append hno, parseIPv6_toStr6]

/-! ## Ports -/

theorem cutLast_append (h : b ∉ r) : cutLast b (l ++ b :: r) = some (l, r) := by
  have hr : b ∉ r.reverse := by simpa using h
  rw [cutLast, reverse_append, reverse_cons, append_assoc, singleton_append, cut_append hr]
  simp

theorem colon_not_mem_itoa (n : ℕ) : 58 ∉ itoa n := fun h => absurd (mem_itoa 58 h) (by decide)

/-! ### The bytes of what is parsed -/

theorem mem_of_foldlM {f : UInt8 → Option ℕ} {k : ℕ} : ∀ {s : Str} {n m : ℕ},
    s.foldlM (fun n b => (f b).map fun d => n * k + d) n = some m → ∀ c ∈ s, (f c).isSome
  | [], _, _, _, c, hc => by cases hc
  | b :: s, n, m, h, c, hc => by
    rw [foldlM_cons] at h
    cases hb : f b with
    | none => simp [hb] at h
    | some d =>
      rcases mem_cons.1 hc with rfl | hc
      · simp [hb]
      · simp only [hb, Option.map_some, Option.bind_eq_bind, Option.bind_some] at h
        exact mem_of_foldlM h c hc

theorem exists_foldlM {f : UInt8 → Option ℕ} {k : ℕ} (h : ∀ c ∈ s, (f c).isSome) (n : ℕ) :
    ∃ m, s.foldlM (fun n b => (f b).map fun d => n * k + d) n = some m := by
  induction s generalizing n with
  | nil => exact ⟨n, rfl⟩
  | cons b s ih =>
    obtain ⟨d, hd⟩ := Option.isSome_iff_exists.1 (h b mem_cons_self)
    obtain ⟨m, hm⟩ := ih (fun c hc => h c (mem_cons_of_mem _ hc)) (n * k + d)
    exact ⟨m, by simpa [hd] using hm⟩

theorem exists_decimal (hne : s ≠ []) (h : ∀ c ∈ s, 48 ≤ c ∧ c ≤ 57) : ∃ n, decimal s = some n := by
  rw [decimal, if_neg hne]
  exact exists_foldlM (fun c hc => by simp [digit, h c hc]) 0

theorem digits_of_decimal (h : decimal s = some n) : ∀ c ∈ s, 48 ≤ c ∧ c ≤ 57 := by
  unfold decimal at h
  split_ifs at h
  intro c hc
  obtain ⟨d, hd⟩ := Option.isSome_iff_exists.1 (mem_of_foldlM h c hc)
  exact digit_range hd

theorem digits_of_parseOctet (h : parseOctet s = some b) : ∀ c ∈ s, 48 ≤ c ∧ c ≤ 57 := by
  unfold parseOctet at h
  split_ifs at h
  cases hd : decimal s with
  | none => simp [hd] at h
  | some n => exact digits_of_decimal hd

theorem of_mapM_eq_some {α β : Type} {f : α → Option β} : ∀ {as : List α} {bs : List β},
    as.mapM f = some bs → bs.length = as.length ∧ ∀ a ∈ as, (f a).isSome
  | [], bs, h => by
    cases h
    exact ⟨rfl, fun a ha => absurd ha not_mem_nil⟩
  | x :: as, bs, h => by
    rw [mapM_cons] at h
    cases hx : f x with
    | none => simp [hx] at h
    | some y =>
      cases hs : as.mapM f with
      | none => simp [hx, hs] at h
      | some ys =>
        obtain rfl : y :: ys = bs := by simpa [hx, hs] using h
        obtain ⟨hlen, hall⟩ := of_mapM_eq_some hs
        exact ⟨by rw [length_cons, length_cons, hlen], forall_mem_cons.2 ⟨by simp [hx], hall⟩⟩

theorem mem_split (h : c ∈ s) : c = b ∨ ∃ f ∈ Str.split b s, c ∈ f := by
  have hjoin : ∀ {ls : List Str}, c ∈ Str.join b ls → c = b ∨ ∃ f ∈ ls, c ∈ f := by
    intro ls
    induction ls with
    | nil => intro h; simp [Str.join] at h
    | cons l ls ih =>
      intro h
      cases ls with
      | nil => exact .inr ⟨l, by simp, by simpa [Str.join] using h⟩
      | cons l' ls =>
        rw [Str.join_cons_cons, mem_append, mem_cons] at h
        rcases h with h | rfl | h
        · exact .inr ⟨l, by simp, h⟩
        · exact .inl rfl
        · obtain rfl | ⟨f, hf, hc⟩ := ih h
          · exact .inl rfl
          · exact .inr ⟨f, mem_cons_of_mem _ hf, hc⟩
  rw [← Str.join_split b s] at h
  exact hjoin h

theorem mem_of_parseIPv4 {ip : IP4} (h : parseIPv4 s = some ip) :
    ∀ c ∈ s, c = 46 ∨ 48 ≤ c ∧ c ≤ 57 := by
  intro c hc
  unfold parseIPv4 at h
  cases hm : (Str.split 46 s).mapM parseOctet with
  | none => simp [hm] at h
  | some bs =>
    refine (mem_split hc).imp_right fun ⟨f, hf, hcf⟩ => ?_
    obtain ⟨b, hb⟩ := Option.isSome_iff_exists.1 ((of_mapM_eq_some hm).2 f hf)
    exact digits_of_parseOctet hb c hcf

theorem mem_of_parseGroup {g : ℕ} (h : parseGroup s = some g) : ∀ c ∈ s, (hexDigit c).isSome := by
  unfold parseGroup at h
  split_ifs at h
  exact mem_of_foldlM h

theorem hexDigit_of_digit (h : 48 ≤ c ∧ c ≤ 57) : (hexDigit c).isSome := by simp [hexDigit, h]

theorem mem_of_parseGroups : ∀ {fs : List Str} {gs : List ℕ},
    parseGroups fs = some gs → ∀ f ∈ fs, ∀ c ∈ f, c = 46 ∨ (hexDigit c).isSome
  | [], _, _, f, hf => by cases hf
  | [x], gs, h, f, hf => by
    rw [mem_singleton] at hf
    subst hf
    unfold parseGroups at h
    split_ifs at h
    · obtain ⟨ip, hip, -⟩ := Option.map_eq_some_iff.1 h
      exact fun c hc => (mem_of_parseIPv4 hip c hc).imp_right hexDigit_of_digit
    · obtain ⟨g, hg, -⟩ := Option.map_eq_some_iff.1 h
      exact fun c hc => .inr (mem_of_parseGroup hg c hc)
  | x :: y :: fs, gs, h, f, hf => by
    rw [parseGroups] at h
    cases hx : parseGroup x with
    | none => simp [hx] at h
    | some g =>
      cases hs : parseGroups (y :: fs) with
      | none => simp [hx, hs] at h
      | some gs' =>
        rcases mem_cons.1 hf with rfl | hf
        · exact fun c hc => .inr (mem_of_parseGroup hx c hc)
        · exact mem_of_parseGroups hs f hf
    · exact fun hnil => by cases hnil

theorem mem_of_fieldGroups {gs : List ℕ} (h : fieldGroups s = some gs) :
    ∀ c ∈ s, c = 58 ∨ c = 46 ∨ (hexDigit c).isSome := by
  intro c hc
  unfold fieldGroups at h
  split_ifs at h with hs
  · subst hs
    cases hc
  · exact (mem_split hc).imp_right fun ⟨f, hf, hcf⟩ => mem_of_parseGroups h f hf c hcf

theorem eq_of_cutEllipsis :
    ∀ {s l r : Str}, cutEllipsis s = some (l, r) → s = l ++ 58 :: 58 :: r := by
  intro s
  induction s with
  | nil => intro l r h; cases h
  | cons b s ih =>
    intro l r h
    unfold cutEllipsis at h
    split at h
    · next heq =>
      cases h
      exact heq
    · next heq =>
      obtain ⟨p, hp, he⟩ := Option.map_eq_some_iff.1 h
      obtain ⟨rfl, rfl⟩ := List.cons.inj heq
      cases he
      rw [ih hp]
      rfl
    · next heq => cases heq

theorem mem_of_parseIPv6 (h : parseIPv6 s = some ip) :
    ∀ c ∈ s, c = 58 ∨ c = 46 ∨ (hexDigit c).isSome := by
  unfold parseIPv6 at h
  split at h
  · obtain ⟨gs, hgs, -⟩ := Option.bind_eq_some_iff.1 h
    exact mem_of_fieldGroups hgs
  · next l r hcut =>
    rw [eq_of_cutEllipsis hcut]
    split_ifs at h
    cases hl : fieldGroups l with
    | none => simp [hl] at h
    | some gl =>
      cases hr : fieldGroups r with
      | none => simp [hl, hr] at h
      | some gr =>
        intro c hc
        simp only [mem_append, mem_cons] at hc
        rcases hc with hc | hc | hc | hc
        exacts [mem_of_fieldGroups hl c hc, .inl hc, .inl hc, mem_of_fieldGroups hr c hc]

theorem colon_mem_of_parseIPv6 (h : parseIPv6 s = some ip) : 58 ∈ s := by
  by_contra hcolon
  have hcut : cutEllipsis s = none := by
    cases hc : cutEllipsis s with
    | none => rfl
    | some p =>
      rw [eq_of_cutEllipsis (l := p.1) (r := p.2) hc] at hcolon
      exact absurd (by simp) hcolon
  have hone : Str.split 58 s = [s] := splitOn_eq_singleton hcolon
  rw [parseIPv6, hcut] at h
  dsimp only at h
  obtain ⟨gs, hgs, hip⟩ := Option.bind_eq_some_iff.1 h
  rw [fieldGroups, hone, parseGroups] at hgs
  have hlen : gs.length < 8 := by
    split_ifs at hgs
    · cases hgs
      decide
    · obtain ⟨ip, -, rfl⟩ := Option.map_eq_some_iff.1 hgs
      simp [groups4]
    · obtain ⟨g, -, rfl⟩ := Option.map_eq_some_iff.1 hgs
      simp
  unfold ofGroups at hip
  split at hip
  · simp at hlen
  · cases hip

theorem bracket_not_mem_parseIPv6 (h : parseIPv6 s = some ip) : 91 ∉ s :=
  fun hc => absurd (mem_of_parseIPv6 h 91 hc) (by decide)

/-! ### Address-port pairs -/

variable {a : Addr}

/-- An address that is neither mapped from IPv4 nor scoped. -/
def Plain (a : Addr) : Prop := a.zone = [] ∧ ∀ ip z, a = v6 ip z → mapped ip = false

theorem toStr_v6 (h : Plain (v6 ip [])) : (v6 ip []).toStr = toStr6 ip := by
  simp [toStr, h.2 ip [] rfl]

theorem toStr4_cons (ip : IP4) : ∃ rest, toStr4 ip = itoa ip.a.toNat ++ 46 :: rest :=
  ⟨Str.join 46 [itoa ip.b.toNat, itoa ip.c.toNat,
    itoa ip.d.toNat], by simp [toStr4, Str.join, List.intercalate]⟩

/-- **Parsing undoes printing**, with a port. -/
theorem parseAddrPort_toStrPort (h : Plain a) (hport : port ≤ 65535) :
    parseAddrPort (toStrPort a port) = some (a, port) := by
  have hparse := parseAddr_toStr h.2
  have hbig : ¬ 65535 < port := by omega
  cases a with
  | v4 ip =>
    obtain ⟨rest, hs⟩ := toStr4_cons ip
    have hhead : (toStr4 ip).head? ≠ some 91 := by
      rw [hs, head?_append_of_ne_nil _ (itoa_ne_nil _)]
      intro h91
      exact absurd (mem_itoa 91 (mem_of_mem_head? h91)) (by decide)
    have hne : toStr4 ip ≠ [] := by
      rw [hs]
      simp
    have hcut : cutLast 58 (toStrPort (v4 ip) port) = some (toStr4 ip, itoa port) :=
      cutLast_append (colon_not_mem_itoa port)
    have hparse : parseAddr (toStr4 ip) = some (v4 ip) := hparse
    simp [parseAddrPort, hcut, hne, itoa_ne_nil, hhead, decimal_itoa, hparse, hbig, is4]
  | v6 ip z =>
    obtain rfl : z = [] := h.1
    rw [toStr_v6 h] at hparse
    have htext : toStrPort (v6 ip []) port = (91 :: toStr6 ip ++ [93]) ++ 58 :: itoa port := by
      rw [← toStr_v6 h]
      simp [toStrPort, is4]
    have hcut : cutLast 58 (toStrPort (v6 ip []) port) =
        some (91 :: toStr6 ip ++ [93], itoa port) := by
      rw [htext]
      exact cutLast_append (colon_not_mem_itoa port)
    have hlast : (91 :: toStr6 ip ++ [93]).getLast? = some 93 := getLast?_concat
    simp only [cons_append] at hcut hlast
    simp [parseAddrPort, hcut, hlast, itoa_ne_nil, decimal_itoa, hparse, hbig, is4]

/-! ### What is parsed -/

theorem eq_of_cut (h : cut b s = (l, some r)) : s = l ++ b :: r := by
  have hsplit : s.takeWhile (· != b) ++ s.dropWhile (· != b) = s := takeWhile_append_dropWhile
  unfold cut at h
  cases hd : s.dropWhile (· != b) with
  | nil => simp [hd] at h
  | cons c t =>
    have hc : c = b := by
      have := head?_dropWhile_not (· != b) s
      rw [hd] at this
      simpa using this
    rw [hd] at h hsplit
    obtain ⟨rfl, ht⟩ := Prod.mk.inj h
    cases ht
    rw [hc] at hsplit
    exact hsplit.symm

theorem eq_of_cutLast (h : cutLast b s = some (l, r)) : s = l ++ b :: r := by
  unfold cutLast at h
  split at h
  · cases h
  · next r' l' hcut =>
    obtain ⟨rfl, rfl⟩ := Prod.mk.inj (Option.some.inj h)
    have hs := congrArg List.reverse (eq_of_cut hcut)
    rw [reverse_reverse] at hs
    rw [hs]
    simp

theorem parseAddrPort_eq_some (h : parseAddrPort s = some (a, port)) :
    port ≤ 65535 ∧ ∃ ip digits, s = ip ++ 58 :: digits ∧
      ((a.is4 = true ∧ parseAddr ip = some a) ∨ ∃ t, ip = 91 :: t) := by
  unfold parseAddrPort at h
  split at h
  · cases h
  · next ip p hcut =>
    by_cases h1 : ip = [] ∨ p = []
    · simp only [if_pos h1, reduceCtorEq] at h
    by_cases h2 : ip.head? = some 91 ∧ (ip.length < 2 ∨ ip.getLast? ≠ some 93)
    · simp only [if_neg h1, if_pos h2, reduceCtorEq] at h
    simp only [if_neg h1, if_neg h2] at h
    split at h
    · next n a' hn ha' =>
      split_ifs at h with hc
      cases h
      obtain ⟨hport, hform⟩ := not_or.1 hc
      refine ⟨not_lt.1 hport, ip, p, eq_of_cutLast hcut, ?_⟩
      by_cases hbr : ip.head? = some 91
      · exact .inr (head?_eq_some_iff.1 hbr)
      · rw [if_neg hbr] at ha'
        refine .inl ⟨?_, ha'⟩
        simpa [hbr] using hform
    · cases h

theorem port_le (h : parseAddrPort s = some (a, port)) : port ≤ 65535 :=
  (parseAddrPort_eq_some h).1

/-- The ways an address is written: the first of `.`, `:` and `%` decides. -/
theorem parseAddr_eq_some (h : parseAddr s = some a) :
    (∃ ip, a = v4 ip ∧ parseIPv4 s = some ip) ∨
      (s.find? (fun b => b == 46 || b == 58 || b == 37) = some 58 ∧
        ∃ ip z body, a = v6 ip z ∧ body <+: s ∧ parseIPv6 body = some ip) := by
  unfold parseAddr at h
  split at h
  · obtain ⟨ip, hip, rfl⟩ := Option.map_eq_some_iff.1 h
    exact .inl ⟨ip, rfl, hip⟩
  · next hf =>
    refine .inr ⟨hf, ?_⟩
    split at h
    · next body hcut =>
      obtain ⟨ip, hip, rfl⟩ := Option.map_eq_some_iff.1 h
      refine ⟨ip, [], body, rfl, ?_, hip⟩
      unfold cut at hcut
      split at hcut
      · cases hcut
        exact prefix_rfl
      · cases hcut
    · next body z hcut =>
      split_ifs at h
      obtain ⟨ip, hip, rfl⟩ := Option.map_eq_some_iff.1 h
      exact ⟨ip, z, body, rfl, ⟨37 :: z, (eq_of_cut hcut).symm⟩, hip⟩
  · cases h

theorem dot_mem_of_parseIPv4 {ip : IP4} (h : parseIPv4 s = some ip) : 46 ∈ s := by
  by_contra hdot
  have hs : Str.split 46 s = [s] := splitOn_eq_singleton hdot
  rw [parseIPv4, hs] at h
  cases hp : parseOctet s <;> simp [hp] at h

theorem parseAddr_of_parseAddrPort (h : parseAddrPort s = some (a, port)) :
    parseAddr s = none := by
  obtain ⟨-, ip, digits, rfl, hform⟩ := parseAddrPort_eq_some h
  cases hs : parseAddr (ip ++ 58 :: digits) with
  | none => rfl
  | some a' =>
    exfalso
    rcases parseAddr_eq_some hs with ⟨ip', -, h4⟩ | ⟨hfind, ip6, z, body, -, hbody, h6⟩
    · exact absurd (mem_of_parseIPv4 h4 58 (by simp)) (by decide)
    · rcases hform with ⟨h4, hip⟩ | ⟨t, rfl⟩
      · -- the dots of the IPv4 address come before the colon
        rcases parseAddr_eq_some hip with ⟨ip4, -, hip4⟩ | ⟨-, ip6', z', body', rfl, -⟩
        · have hdot : ∃ b ∈ ip, (b == 46 || b == 58 || b == 37) = true :=
            ⟨46, dot_mem_of_parseIPv4 hip4, rfl⟩
          obtain ⟨b, hb⟩ := Option.isSome_iff_exists.1 (find?_isSome.2 hdot)
          rw [find?_append, hb, Option.some_or, Option.some.injEq] at hfind
          have := mem_of_parseIPv4 hip4 b (mem_of_find?_eq_some hb)
          rw [hfind] at this
          exact absurd this (by decide)
        · cases h4
      · obtain ⟨u, hu⟩ := hbody
        cases body with
        | nil => cases h6
        | cons c body =>
          rw [cons_append, cons_append, List.cons.injEq] at hu
          exact bracket_not_mem_parseIPv6 h6 (by rw [hu.1]; exact mem_cons_self ..)

end Addr
