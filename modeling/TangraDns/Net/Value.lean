/-
  Addresses as numbers.
-/
import Mathlib.Data.Nat.Digits.Lemmas
import TangraDns.Data.Blocks
import TangraDns.Net.Printed

namespace Addr

open List

variable {a b c : Addr} {n : ℕ}

/-! ## Values -/

def width (a : Addr) : ℕ := if a.is4 then 32 else 128

theorem width_le (a : Addr) : a.width ≤ 128 := by
  unfold width
  split_ifs <;> decide

/-- The number whose digits are the octets or groups. -/
def value : Addr → ℕ
  | v4 ip => (v4 ip).parts.foldl (fun x o => x * 256 + o) 0
  | v6 ip _ => (groups ip).foldl (fun x g => x * 65536 + g) 0

theorem foldl_digits (base : ℕ) (ds : List ℕ) :
    ds.foldl (fun x d => x * base + d) 0 = Nat.ofDigits base ds.reverse := by
  rw [Nat.ofDigits_eq_foldr, foldr_reverse]
  congr 1
  funext x d
  rw [Nat.cast_id, Nat.mul_comm, Nat.add_comm]

theorem take_eq_iff {base k : ℕ} (hb : 1 < base) {ds ds' : List ℕ} (hlen : ds.length = ds'.length)
    (hds : ∀ d ∈ ds, d < base) (hds' : ∀ d ∈ ds', d < base) :
    ds.take k = ds'.take k ↔ Nat.ofDigits base ds.reverse / base ^ (ds.length - k) =
      Nat.ofDigits base ds'.reverse / base ^ (ds.length - k) := by
  have hdiv {l : List ℕ} (hl : l.length = ds.length) (hlt : ∀ d ∈ l, d < base) :
      Nat.ofDigits base l.reverse / base ^ (ds.length - k) =
        Nat.ofDigits base (l.take k).reverse := by
    rw [Nat.ofDigits_div_pow_eq_ofDigits_drop _ (by omega) _ fun d hd => hlt d (mem_reverse.1 hd),
      ← hl,
      reverse_take]
  rw [hdiv rfl hds, hdiv hlen.symm hds']
  refine ⟨fun h => by rw [h], fun h => ?_⟩
  have := Nat.ofDigits_inj_of_len_eq hb (by simp [hlen])
    (fun d hd => hds d (mem_of_mem_take (mem_reverse.1 hd)))
    (fun d hd => hds' d (mem_of_mem_take (mem_reverse.1 hd))) h
  exact reverse_injective this

theorem octets_lt (ip : IP4) : ∀ o ∈ (v4 ip).parts, o < 256 := by
  intro o ho
  obtain ⟨x, -, rfl⟩ := List.mem_map.1 ho
  exact UInt8.toNat_lt x

theorem value_v4 (ip : IP4) : (v4 ip).value = Nat.ofDigits 256 (v4 ip).parts.reverse :=
  foldl_digits ..

theorem value_v6 (ip : IP6) (z : Str) : (v6 ip z).value = Nat.ofDigits 65536 (groups ip).reverse :=
  foldl_digits ..

theorem value_lt (a : Addr) : a.value < 2 ^ a.width := by
  cases a with
  | v4 ip =>
    rw [value_v4]
    have := Nat.ofDigits_lt_base_pow_length (b := 256) (by decide) fun x hx =>
      octets_lt ip x (mem_reverse.1 hx)
    simpa [parts, width, is4] using this
  | v6 ip z =>
    rw [value_v6]
    have := Nat.ofDigits_lt_base_pow_length (b := 65536) (by decide) fun x hx =>
      groups_lt ip x (mem_reverse.1 hx)
    simpa [groups, width, is4] using this

theorem eq_of_value (h4 : a.is4 = b.is4) (hz : a.zone = b.zone) (h : a.value = b.value) :
    a = b := by
  cases a with
  | v4 ip =>
    cases b with
    | v6 => cases h4
    | v4 ip' =>
      rw [value_v4, value_v4] at h
      have := Nat.ofDigits_inj_of_len_eq (by decide) (by simp [parts])
        (fun x hx => octets_lt ip x (mem_reverse.1 hx))
        (fun x hx => octets_lt ip' x (mem_reverse.1 hx)) h
      obtain ⟨_, _, _, _⟩ := ip
      obtain ⟨_, _, _, _⟩ := ip'
      simpa [parts, UInt8.toNat_inj, and_comm, and_assoc, and_left_comm] using this
  | v6 ip z =>
    cases b with
    | v4 => cases h4
    | v6 ip' z' =>
      obtain rfl : z = z' := hz
      rw [value_v6, value_v6] at h
      have := Nat.ofDigits_inj_of_len_eq (by decide) (by simp [groups])
        (fun x hx => groups_lt ip x (mem_reverse.1 hx))
        (fun x hx => groups_lt ip' x (mem_reverse.1 hx)) h
      obtain ⟨_, _, _, _, _, _, _, _⟩ := ip
      obtain ⟨_, _, _, _, _, _, _, _⟩ := ip'
      simpa [groups, UInt16.toNat_inj, and_comm, and_assoc, and_left_comm] using this

def nibbles (g : ℕ) : List ℕ := [g / 4096 % 16, g / 256 % 16, g / 16 % 16, g % 16]

theorem ofDigits_nibbles {gs : List ℕ} (hgs : ∀ g ∈ gs, g < 65536) :
    Nat.ofDigits 16 (gs.flatMap nibbles).reverse = Nat.ofDigits 65536 gs.reverse := by
  induction gs with
  | nil => rfl
  | cons g gs ih =>
    have hg : g < 65536 := hgs g mem_cons_self
    have hlen : (gs.flatMap nibbles).reverse.length = 4 * gs.reverse.length := by
      simp [length_flatMap, nibbles, Nat.mul_comm]
    have hdigits : Nat.ofDigits 16 (nibbles g).reverse = g := by
      simp only [nibbles, reverse_cons, reverse_nil, nil_append, cons_append, Nat.ofDigits_cons,
        Nat.ofDigits_nil]
      omega
    rw [flatMap_cons, reverse_append, reverse_cons, Nat.ofDigits_append,
      Nat.ofDigits_append, hdigits,
      ih fun g hg => hgs g (mem_cons_of_mem _ hg), Nat.ofDigits_singleton, hlen, Nat.pow_mul]

def ofValue4 (x : ℕ) : IP4 :=
  ⟨.ofNat (place 256 3 x), .ofNat (place 256 2 x), .ofNat (place 256 1 x), .ofNat (place 256 0 x)⟩

def ofValue6 (x : ℕ) : IP6 :=
  ⟨.ofNat (place 65536 7 x), .ofNat (place 65536 6 x), .ofNat (place 65536 5 x),
    .ofNat (place 65536 4 x),
    .ofNat (place 65536 3 x), .ofNat (place 65536 2 x), .ofNat (place 65536 1 x),
      .ofNat (place 65536 0 x)⟩

theorem ofDigits_places (base k x : ℕ) :
    Nat.ofDigits base ((List.range k).map fun i => place base i x) = x % base ^ k := by
  induction k generalizing x with
  | zero => simp [Nat.mod_one]
  | succ k ih =>
    have hplace (i : ℕ) : place base (i + 1) x = place base i (x / base) := by
      rw [place, place, Nat.pow_eq, Nat.pow_eq, pow_succ', Nat.div_div_eq_div_mul]
    rw [range_succ_eq_map, map_cons, map_map, Nat.ofDigits_cons]
    simp only [Function.comp_def, Nat.succ_eq_add_one, hplace, ih]
    rw [pow_succ', Nat.mod_mul, place, Nat.pow_eq, pow_zero, Nat.div_one]

theorem place_mod (base i x : ℕ) : place base i x % base = place base i x := Nat.mod_mod ..

theorem value_ofValue4 {x : ℕ} (hx : x < 2 ^ 32) : (v4 (ofValue4 x)).value = x := by
  have hdigits : (v4 (ofValue4 x)).parts.reverse = (List.range 4).map fun i => place 256 i x := by
    simp [parts, ofValue4, place_mod, range_succ]
  rw [value_v4, hdigits, ofDigits_places, Nat.mod_eq_of_lt (by simpa using hx)]

theorem value_ofValue6 {x : ℕ} (hx : x < 2 ^ 128) (z : Str) : (v6 (ofValue6 x) z).value = x := by
  have hdigits : (groups (ofValue6 x)).reverse = (List.range 8).map fun i => place 65536 i x := by
    simp [groups, ofValue6, place_mod, range_succ]
  rw [value_v6, hdigits, ofDigits_places, Nat.mod_eq_of_lt (by simpa using hx)]

theorem exists_value (four : Bool) {x : ℕ} (hx : x < 2 ^ (if four then 32 else 128)) :
    ∃ c : Addr, c.is4 = four ∧ c.zone = [] ∧ c.value = x := by
  cases four with
  | true => exact ⟨v4 (ofValue4 x), rfl, rfl, value_ofValue4 hx⟩
  | false => exact ⟨v6 (ofValue6 x) [], rfl, rfl, value_ofValue6 hx []⟩

/-! ## Prefixes -/

theorem maskBits_le (w n x : ℕ) : maskBits w n x ≤ x := Nat.div_mul_le_self ..

@[simp] theorem is4_masked (a : Addr) (n : ℕ) : (a.masked n).is4 = a.is4 := by
  cases a <;> simp only [masked, is4]

@[simp] theorem width_masked (a : Addr) (n : ℕ) : (a.masked n).width = a.width := by
  rw [width, width, is4_masked]

theorem value_masked (a : Addr) (n : ℕ) : (a.masked n).value = maskBits a.width n a.value := by
  have hlt : maskBits a.width n a.value < 2 ^ a.width := (maskBits_le ..).trans_lt (value_lt a)
  cases a with
  | v4 ip =>
    rw [show (v4 ip).width = 32 from rfl] at hlt ⊢
    exact value_ofValue4 hlt
  | v6 ip z =>
    rw [show (v6 ip z).width = 128 from rfl] at hlt ⊢
    exact value_ofValue6 hlt z

@[simp] theorem masked_masked (a : Addr) (n : ℕ) : (a.masked n).masked n = a.masked n := by
  refine eq_of_value (is4_masked ..) (zone_masked ..) ?_
  rw [value_masked, value_masked, width_masked, maskBits, maskBits, Nat.pow_eq,
    Nat.mul_div_cancel _ (Nat.two_pow_pos _)]

theorem masked_width (a : Addr) : a.masked a.width = a := by
  refine eq_of_value (is4_masked ..) (zone_masked ..) ?_
  rw [value_masked, maskBits, Nat.pow_eq, Nat.sub_self, pow_zero, Nat.div_one, Nat.mul_one]

def block (a : Addr) (n : ℕ) : Block := ⟨a.width - n, a.value / 2 ^ (a.width - n)⟩

/-- The address, without scope zone, is of the prefix's family and has its leading bits. -/
def contains (a : Addr) (n : ℕ) (c : Addr) : Bool :=
  a.is4 == c.is4 && c.zone == [] && decide ((a.block n).Has c.value)

theorem contains_iff :
    a.contains n c = true ↔ a.is4 = c.is4 ∧ c.zone = [] ∧ (a.block n).Has c.value := by
  simp [contains, and_assoc]

theorem masked_eq_of_block (h4 : a.is4 = b.is4) (hz : a.zone = b.zone) (h : a.block n = b.block n) :
    a.masked n = b.masked n := by
  have hw : a.width = b.width := by rw [width, width, h4]
  refine eq_of_value (by simpa using h4) (by rw [zone_masked, zone_masked, hz]) ?_
  have hindex : a.value / 2 ^ (a.width - n) = b.value / 2 ^ (b.width - n) := congrArg Block.index h
  rw [value_masked, value_masked, maskBits, maskBits, Nat.pow_eq, hindex, hw, Nat.pow_eq]

theorem block_mono {m x : ℕ} (h : m ≤ n) (hx : (a.block n).Has x) : (a.block m).Has x := by
  have hshift : (a.block n).shift ≤ (a.block m).shift := Nat.sub_le_sub_left h _
  exact (Block.in_iff_of_has hshift hx).1 ((Block.in_iff_of_has hshift (x := a.value) rfl).2 rfl)

theorem block_lt {x : ℕ} (hx : (a.block n).Has x) : x < 2 ^ a.width := by
  by_contra hge
  have hpos : 0 < 2 ^ (a.width - n) := Nat.two_pow_pos _
  have hdvd : 2 ^ a.width / 2 ^ (a.width - n) ≤ x / 2 ^ (a.width - n) :=
    Nat.div_le_div_right (not_lt.1 hge)
  have hlt : a.value / 2 ^ (a.width - n) < 2 ^ a.width / 2 ^ (a.width - n) :=
    Nat.div_lt_div_of_lt_of_dvd (Nat.pow_dvd_pow 2 (Nat.sub_le ..)) (value_lt a)
  exact absurd (show x / 2 ^ (a.width - n) = a.value / 2 ^ (a.width - n) from hx) (by omega)

/-! ## Texts of prefixes -/

theorem groups4_low4 {ip : IP6} : groups4 (low4 ip) = [ip.g6.toNat, ip.g7.toNat] := by
  have h6 := UInt16.toNat_lt ip.g6
  have h7 := UInt16.toNat_lt ip.g7
  simp only [groups4, low4, UInt8.toNat_ofNat', List.cons.injEq, and_true]
  omega

theorem parseIPv6_mapped {ip : IP6} (h : mapped ip = true) :
    parseIPv6 (str "::ffff:" ++ toStr4 (low4 ip)) = some ip := by
  have hcolon : 58 ∉ toStr4 (low4 ip) := fun hc =>
    absurd (mem_of_parseIPv4 (parseIPv4_toStr4 (low4 ip)) 58 hc) (by decide)
  have hdot : 46 ∈ toStr4 (low4 ip) := dot_mem_of_parseIPv4 (parseIPv4_toStr4 (low4 ip))
  have hsplit : Str.split 58 (str "ffff:" ++ toStr4 (low4 ip)) =
      [str "ffff", toStr4 (low4 ip)] := by
    have hjoin : str "ffff:" ++ toStr4 (low4 ip) =
        [58].intercalate [str "ffff", toStr4 (low4 ip)] := by
      simp [List.intercalate, show str "ffff:" = str "ffff" ++ [58] by decide]
    rw [hjoin]
    refine splitOn_intercalate 58 ?_ (by simp)
    simp only [forall_mem_cons, not_mem_nil, false_imp_iff, implies_true, and_true]
    exact ⟨by decide, hcolon⟩
  have hright : fieldGroups (str "ffff:" ++ toStr4 (low4 ip)) =
      some [65535, ip.g6.toNat, ip.g7.toNat] := by
    have hgroup : parseGroup (str "ffff") = some 65535 := rfl
    have hne : str "ffff:" ++ toStr4 (low4 ip) ≠ [] := append_ne_nil_of_left_ne_nil (by decide) _
    rw [fieldGroups, if_neg hne, hsplit]
    simp [parseGroups, hgroup, hdot, parseIPv4_toStr4, groups4_low4]
  have hcut : cutEllipsis (str "::ffff:" ++ toStr4 (low4 ip)) =
      some ([], str "ffff:" ++ toStr4 (low4 ip)) := rfl
  have hleft : fieldGroups [] = some [] := rfl
  rw [parseIPv6, hcut]
  simp only [hright, hleft]
  simp only [mapped, Bool.and_eq_true, beq_iff_eq] at h
  obtain ⟨g0, g1, g2, g3, g4, g5, g6, g7⟩ := ip
  obtain ⟨⟨⟨⟨⟨rfl, rfl⟩, rfl⟩, rfl⟩, rfl⟩, rfl⟩ := h
  simp [ofGroups]

/-- **Parsing undoes printing**, for every address without scope zone. -/
theorem parseAddr_toStr_of_zone (hz : a.zone = []) : parseAddr a.toStr = some a := by
  cases a with
  | v4 ip => exact parseAddr_toStr (by simp)
  | v6 ip z =>
    obtain rfl : z = [] := hz
    cases hm : mapped ip with
    | false =>
      refine parseAddr_toStr ?_
      rintro ip' z ⟨⟩
      exact hm
    | true =>
      have htext : (v6 ip []).toStr = str "::ffff:" ++ toStr4 (low4 ip) := by simp [toStr, hm]
      have hno : 37 ∉ str "::ffff:" ++ toStr4 (low4 ip) := fun hc => by
        rcases mem_append.1 hc with hc | hc
        · exact absurd hc (by decide)
        · exact absurd (mem_of_parseIPv4 (parseIPv4_toStr4 (low4 ip)) 37 hc) (by decide)
      have hfind : (str "::ffff:" ++ toStr4 (low4 ip)).find?
          (fun b => b == 46 || b == 58 || b == 37) = some 58 := rfl
      rw [htext, parseAddr, hfind]
      simp [cut_none hno, parseIPv6_mapped hm]

/-- **Parsing undoes printing**, for every prefix. -/
theorem parsePrefix_toStrPrefix (hz : a.zone = []) (hn : n ≤ a.width) :
    parsePrefix (toStrPrefix a n) = some (a, n) := by
  have hslash : 47 ∉ itoa n := fun h => absurd (mem_itoa 47 h) (by decide)
  have hcut : cutLast 47 (toStrPrefix a n) = some (a.toStr, itoa n) := cutLast_append hslash
  have hlen : ¬ (if a.is4 then 32 else 128) < n := not_lt.2 hn
  rw [parsePrefix, hcut]
  simp only [parseAddr_toStr_of_zone hz, decimal_itoa]
  exact if_neg (by simp only [not_or, not_not]; exact ⟨hz, itoa_no_zero n, hlen⟩)

theorem width_of_parsePrefix {s : Str} (h : parsePrefix s = some (a, n)) : n ≤ a.width := by
  unfold parsePrefix at h
  split at h
  · cases h
  · split at h
    · simp only [Option.ite_none_left_eq_some, Option.some.injEq, Prod.mk.injEq, not_or] at h
      obtain ⟨⟨-, -, hn⟩, rfl, rfl⟩ := h
      exact not_lt.1 hn
    · cases h

end Addr
