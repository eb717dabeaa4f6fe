/-
  Reverse zones: the names of addresses in the reverse trees.
-/
import TangraDns.Net.Value
import TangraDns.Proof.NameForms
import TangraDns.SyncPlan

namespace TangraDns.Sync

open List Str Validate

variable {E : Env} {a b : Addr} {ds ds' : List ℕ}

/-! ## Names of labels -/

theorem length_closed_le {b : UInt8} {m : ℕ} {ls : List Str} (h : ∀ l ∈ ls, l.length < m) :
    (closed b ls).length ≤ m * ls.length := by
  induction ls with
  | nil => simp
  | cons l ls ih =>
    have hl := h l mem_cons_self
    have := ih fun l hl => h l (mem_cons_of_mem _ hl)
    rw [closed_cons, length_append, length_cons, length_cons, Nat.mul_succ]
    omega

theorem isZone_closed {ls : List Str} (hne : ls ≠ []) (hok : ∀ l ∈ ls, labelOK l false = true)
    (hlen : (closed dot ls).length ≤ 254) : IsZone (closed dot ls) := by
  have hlabel (l : Str) (hl : l ∈ ls) : l ≠ [] ∧ dot ∉ l := by
    obtain ⟨hform, -⟩ := label_of_labelOK (hok l hl)
    refine ⟨ne_nil_of_length_pos hform.length.1,
      fun hdot => absurd (hform.octets dot hdot) (by decide)⟩
  have hbyte (c : UInt8) (hc : c ∈ closed dot ls) : c < 0x80 ∧ isUpper c = false ∧ 0x21 ≤ c ∧
      c ≤ 0x7e ∧ c ≠ 92 := by
    obtain ⟨l, hl, hc⟩ := mem_flatMap.1 hc
    rcases mem_append.1 hc with hc | hc
    · have := (label_of_labelOK (hok l hl)).1.octets c hc
      simp only [isLower, Bool.and_eq_true, decide_eq_true_eq] at this
      simp only [isUpper]
      grind
    · rw [mem_singleton.1 hc]
      decide
  have hjoin : closed dot ls = join dot ls ++ [dot] := closed_eq_join hne
  have hlabels : labelsOf (closed dot ls) = ls := by
    rw [labelsOf, hjoin, dropLast_concat, split_join (fun l hl => (hlabel l hl).2) hne]
  refine ⟨⟨fun c hc => ⟨(hbyte c hc).1, (hbyte c hc).2.1⟩,
    fun c hc => ⟨(hbyte c hc).2.2.1, (hbyte c hc).2.2.2.1⟩,
    fun h92 => (hbyte 92 h92).2.2.2.2 rfl, hlen, ls, hne, hjoin, hlabel⟩, ?_⟩
  rw [hlabels]
  intro p hp
  have hmem : p.1 ∈ ls := fst_mem_of_mem_zipIdx hp
  cases decide (0 < p.2)
  · exact hok p.1 hmem
  · exact labelOK_true (hok p.1 hmem)

/-! ## Reverse trees -/

/-- A reverse tree: names of digits of `unit` bits, `count` for an address, of which a planned zone
    has at most `most`; `read` undoes `label`. -/
structure Tree where
  unit : ℕ
  count : ℕ
  most : ℕ
  label : ℕ → Str
  read : Str → ℕ
  suffix : List Str
  unit_pos : 0 < unit
  most_le : most ≤ count
  most_pos : 0 < most
  read_label : ∀ n < 2 ^ unit, read (label n) = n
  label_ok : ∀ n < 2 ^ unit, labelOK (label n) false = true
  suffix_ok : ∀ l ∈ suffix, labelOK l false = true
  label_short : ∀ n < 2 ^ unit, (label n).length < unit
  length_le : unit * count + (closed dot suffix).length ≤ 254

theorem read_octet : ∀ n < 2 ^ 8, ((Addr.decimal (Addr.itoa n)).getD 0) = n :=
  fun n _ => by rw [Addr.decimal_itoa]; rfl

theorem octet_spec : ∀ n < 2 ^ 8, labelOK (Addr.itoa n) false = true ∧ (Addr.itoa n).length < 8 ∧
    octetLabel (Addr.itoa n) = true := by
  decide +kernel

theorem nibble_spec : ∀ n < 2 ^ 4, (Addr.parseGroup [Addr.hexByte n]).getD 0 = n ∧
    labelOK [Addr.hexByte n] false = true ∧ [Addr.hexByte n].length < 4 ∧
    nibbleLabel [Addr.hexByte n] = true := by
  decide +kernel

/-- The labels below which the two trees stand. -/
def v4Labels : List Str := [str "in-addr", str "arpa"]

def v6Labels : List Str := [str "ip6", str "arpa"]

theorem v4Labels_spec : (∀ l ∈ v4Labels, labelOK l false = true) ∧ closed dot v4Labels = v4Suffix ∧
    8 * 4 + (closed dot v4Labels).length ≤ 254 ∧ v4Labels ≠ v6Labels := by
  decide +kernel

theorem v6Labels_spec : (∀ l ∈ v6Labels, labelOK l false = true) ∧ closed dot v6Labels = v6Suffix ∧
    4 * 32 + (closed dot v6Labels).length ≤ 254 := by
  decide +kernel

def octets : Tree where
  unit := 8
  count := 4
  most := 3
  label := Addr.itoa
  read s := (Addr.decimal s).getD 0
  suffix := v4Labels
  unit_pos := Nat.zero_lt_succ _
  most_le := Nat.le_succ _
  most_pos := Nat.zero_lt_succ _
  read_label := read_octet
  label_ok n h := (octet_spec n h).1
  suffix_ok := v4Labels_spec.1
  label_short n h := (octet_spec n h).2.1
  length_le := v4Labels_spec.2.2.1

def nibbleTree : Tree where
  unit := 4
  count := 32
  most := 16
  label n := [Addr.hexByte n]
  read s := (Addr.parseGroup s).getD 0
  suffix := v6Labels
  unit_pos := Nat.zero_lt_succ _
  most_le := Nat.le_add_left ..
  most_pos := Nat.zero_lt_succ _
  read_label n h := (nibble_spec n h).1
  label_ok n h := (nibble_spec n h).2.1
  suffix_ok := v6Labels_spec.1
  label_short n h := (nibble_spec n h).2.2.1
  length_le := v6Labels_spec.2.2

def treeOf (a : Addr) : Tree := if a.unmap.is4 then octets else nibbleTree

def digits (a : Addr) : List ℕ :=
  match a.unmap with
  | .v4 ip => (Addr.v4 ip).parts
  | .v6 ip _ => (Addr.groups ip).flatMap Addr.nibbles

namespace Tree

variable (t : Tree)

def labels (ds : List ℕ) : List Str := ds.reverse.map t.label ++ t.suffix

def name (ds : List ℕ) : Str := closed dot (t.labels ds)

def Digits (ds : List ℕ) : Prop := ∀ d ∈ ds, d < 2 ^ t.unit

/-- The leading bits a zone planned for a prefix length has. -/
def bits (p : ℤ) : ℕ :=
  min (max ((if p < 0 ∨ ((t.unit * t.count : ℕ) : ℤ) < p then t.most * t.unit else p.toNat) /
    t.unit * t.unit) t.unit)
    (t.most * t.unit)

variable {t}

theorem dot_not_mem {l : Str} (h : labelOK l false = true) : dot ∉ l := by
  intro hdot
  simp only [labelOK, Bool.and_eq_true, all_eq_true] at h
  exact absurd (h.2 dot hdot) (by decide)

theorem labels_ok (h : t.Digits ds) : ∀ l ∈ t.labels ds, labelOK l false = true := by
  intro l hl
  rcases mem_append.1 hl with hl | hl
  · obtain ⟨d, hd, rfl⟩ := List.mem_map.1 hl
    exact t.label_ok d (h d (mem_reverse.1 hd))
  · exact t.suffix_ok l hl

theorem map_read (h : t.Digits ds) : (ds.reverse.map t.label).map t.read = ds.reverse := by
  rw [map_map]
  exact (map_congr_left fun d hd => t.read_label d (h d (mem_reverse.1 hd))).trans (map_id _)

theorem inZone_name (h : t.Digits ds) (h' : t.Digits ds') :
    Store.InZone (t.name ds) (t.name ds') ↔ ds' <+: ds := by
  have hdot {ds : List ℕ} (h : t.Digits ds) : ∀ l ∈ t.labels ds, dot ∉ l := fun l hl =>
    dot_not_mem (labels_ok h l hl)
  refine (suffix_closed_iff (hdot h) (hdot h')).trans ?_
  rw [← reverse_suffix]
  constructor
  · rintro ⟨u, hu⟩
    rw [labels, labels, ← append_assoc] at hu
    have hsuf : ds'.reverse.map t.label <:+ ds.reverse.map t.label := ⟨u, append_cancel_right hu⟩
    have := hsuf.map t.read
    rwa [map_read h, map_read h'] at this
  · rintro ⟨u, hu⟩
    exact ⟨u.map t.label, by rw [labels, labels, ← hu, map_append, append_assoc]⟩

theorem not_inZone_name {t' : Tree} (h : t.Digits ds) (h' : t'.Digits ds')
    (hlen : t.suffix.length = t'.suffix.length)
    (hne : t'.suffix ≠ t.suffix) : ¬ Store.InZone (t.name ds) (t'.name ds') := by
  intro hin
  obtain ⟨u, hu⟩ := (suffix_closed_iff (fun l hl => dot_not_mem (labels_ok h l hl))
    (fun l hl => dot_not_mem (labels_ok h' l hl))).1 hin
  rw [labels, labels, ← append_assoc] at hu
  exact hne (append_inj_right' hu hlen.symm)

/-! ### Zones of a tree -/

theorem length_name_le (h : t.Digits ds) (hlen : ds.length ≤ t.count) :
    (t.name ds).length ≤ 254 := by
  have hshort : ∀ l ∈ ds.reverse.map t.label, l.length < t.unit := by
    intro l hl
    obtain ⟨d, hd, rfl⟩ := List.mem_map.1 hl
    exact t.label_short d (h d (mem_reverse.1 hd))
  have hdigits : (closed dot (ds.reverse.map t.label)).length ≤ t.unit * t.count := by
    refine (length_closed_le hshort).trans (Nat.mul_le_mul_left _ ?_)
    rwa [length_map, length_reverse]
  have := t.length_le
  rw [name, labels, closed_append, length_append]
  omega

theorem isZone_name (h : t.Digits ds) (hpos : ds ≠ []) (hlen : ds.length ≤ t.count) :
    IsZone (t.name ds) :=
  isZone_closed (by simp [labels, hpos]) (labels_ok h) (length_name_le h hlen)

theorem trimSuffix_name (h : t.Digits ds) (hpos : ds ≠ []) :
    Under (t.name ds) (closed dot t.suffix) ∧
      Str.split dot (trimSuffix (t.name ds) (dot :: closed dot t.suffix)) =
        ds.reverse.map t.label := by
  have hne : ds.reverse.map t.label ≠ [] := by simp [hpos]
  have hname : t.name ds = join dot (ds.reverse.map t.label) ++ dot :: closed dot t.suffix := by
    rw [name, labels, closed_append, closed_eq_join hne, append_assoc, singleton_append]
  have hunder : HasSuffix (t.name ds) (dot :: closed dot t.suffix) := ⟨_, hname.symm⟩
  refine ⟨hunder, ?_⟩
  have htrim : trimSuffix (t.name ds) (dot :: closed dot t.suffix) =
      join dot (ds.reverse.map t.label) := by
    rw [trimSuffix, if_pos hunder, hname, length_append, Nat.add_sub_cancel, take_left]
  rw [htrim, split_join (fun l hl => ?_) hne]
  exact dot_not_mem (labels_ok h l (mem_append_left _ hl))

/-! ### Prefix lengths -/

theorem bits_spec (t : Tree) (p : ℤ) : ∃ k, t.bits p = k * t.unit ∧ 1 ≤ k ∧ k ≤ t.most := by
  have hmost := t.most_pos
  unfold bits
  generalize (if p < 0 ∨ ((t.unit * t.count : ℕ) : ℤ) < p then t.most * t.unit else p.toNat)
    / t.unit = q
  rcases Nat.eq_zero_or_pos q with rfl | hq
  · refine ⟨1, ?_, le_rfl, hmost⟩
    rw [Nat.zero_mul, Nat.zero_max, Nat.one_mul]
    exact min_eq_left (Nat.le_mul_of_pos_left _ hmost)
  · refine ⟨min q t.most, ?_, by omega, min_le_right ..⟩
    rw [max_eq_left (Nat.le_mul_of_pos_left _ hq), ← Nat.mul_min_mul_right]

theorem bits_le {n : ℕ} (h : t.unit ≤ n) (h' : n ≤ t.unit * t.count) : t.bits n ≤ n := by
  have hrange : ¬ ((n : ℤ) < 0 ∨ ((t.unit * t.count : ℕ) : ℤ) < n) := by omega
  rw [bits, if_neg hrange, Int.toNat_natCast]
  exact (min_le_left ..).trans (max_le (Nat.div_mul_le_self ..) h)

end Tree

/-! ## Zones of the two trees -/

theorem closed_v4Suffix : closed dot octets.suffix = v4Suffix := v4Labels_spec.2.1

theorem closed_v6Suffix : closed dot nibbleTree.suffix = v6Suffix := v6Labels_spec.2.1

theorem reverseOK_octets (h : octets.Digits ds) (hpos : ds ≠ []) (hlen : ds.length ≤ 4) :
    isReverse (octets.name ds) = true ∧ reverseOK (octets.name ds) = true := by
  obtain ⟨hunder, hsplit⟩ := Tree.trimSuffix_name h hpos
  rw [closed_v4Suffix] at hunder hsplit
  refine ⟨by simp [isReverse, hunder], ?_⟩
  rw [reverseOK, if_pos hunder]
  simp only [hsplit, length_map, length_reverse, hlen, decide_true, Bool.true_and, all_eq_true]
  intro l hl
  obtain ⟨d, hd, rfl⟩ := List.mem_map.1 hl
  exact (octet_spec d (h d (mem_reverse.1 hd))).2.2

theorem reverseOK_nibbles (h : nibbleTree.Digits ds) (hpos : ds ≠ []) (hlen : ds.length ≤ 32) :
    isReverse (nibbleTree.name ds) = true ∧ reverseOK (nibbleTree.name ds) = true := by
  obtain ⟨hunder, hsplit⟩ := Tree.trimSuffix_name h hpos
  have hnot : ¬ Under (nibbleTree.name ds) v4Suffix := by
    have hno : octets.Digits [] := fun d hd => by cases hd
    have := Tree.not_inZone_name h hno rfl v4Labels_spec.2.2.2
    rw [show octets.name [] = v4Suffix from closed_v4Suffix] at this
    exact fun hu => this (.inr hu)
  rw [closed_v6Suffix] at hunder hsplit
  refine ⟨by simp [isReverse, hunder], ?_⟩
  rw [reverseOK, if_neg hnot]
  simp only [hsplit, length_map, length_reverse, hlen, decide_true, Bool.true_and, all_eq_true]
  intro l hl
  obtain ⟨d, hd, rfl⟩ := List.mem_map.1 hl
  exact (nibble_spec d (h d (mem_reverse.1 hd))).2.2.2

theorem zoneName_of_reverse {z : Str} (hz : IsZone z)
    (h : isReverse z = true ∧ reverseOK z = true) :
    zoneName E z = .ok z := by
  rw [zoneName, canonicalZone_of_isZone hz]
  simp only [bind, Except.bind, h.1, h.2, if_true]

/-! ## Addresses in the trees -/

theorem digits_length (a : Addr) : (digits a).length = (treeOf a).count := by
  unfold digits treeOf
  cases a.unmap <;> rfl

theorem digits_lt (a : Addr) : (treeOf a).Digits (digits a) := by
  unfold digits treeOf
  cases a.unmap with
  | v4 ip => exact Addr.octets_lt ip
  | v6 ip z =>
    intro d hd
    obtain ⟨g, -, hd⟩ := mem_flatMap.1 hd
    simp only [Addr.nibbles, mem_cons, not_mem_nil, or_false] at hd
    change d < 16
    omega

theorem value_digits (a : Addr) :
    a.unmap.value = Nat.ofDigits (2 ^ (treeOf a).unit) (digits a).reverse := by
  unfold digits treeOf
  cases a.unmap with
  | v4 ip => exact Addr.value_v4 ip
  | v6 ip z => exact (Addr.value_v6 ip z).trans (Addr.ofDigits_nibbles (Addr.groups_lt ip)).symm

theorem width_digits (a : Addr) : a.unmap.width = (treeOf a).unit * (treeOf a).count := by
  unfold treeOf Addr.width
  split_ifs <;> rfl

theorem labels_digits (a : Addr) :
    labels a = ((digits a).map (treeOf a).label, closed dot (treeOf a).suffix) := by
  unfold labels digits treeOf
  cases a.unmap with
  | v4 ip => rfl
  | v6 ip z =>
    refine Prod.ext ?_ rfl
    simp only [map_flatMap]
    rfl

theorem reverseName_digits (t : Tree) (ds : List ℕ) :
    reverseName (ds.map t.label) (closed dot t.suffix) = t.name ds := by
  rw [Tree.name, Tree.labels, closed_append, reverseName, map_reverse]
  rfl

theorem ptrOwner_eq (a : Addr) : ptrOwner a = (treeOf a).name (digits a) := by
  rw [ptrOwner, labels_digits, reverseName_digits]

def zoneBits (a : Addr) (p : ℤ) : ℕ := (treeOf a).bits p

theorem reverseZone_eq (a : Addr) (p : ℤ) :
    reverseZone a p = (treeOf a).name ((digits a).take (zoneBits a p / (treeOf a).unit)) := by
  rw [← reverseName_digits, map_take]
  unfold reverseZone zoneBits
  rw [labels_digits]
  unfold treeOf
  split_ifs <;> rfl

/-! ## Zones and prefixes -/

theorem treeOf_eq (h : a.unmap.is4 = b.unmap.is4) : treeOf a = treeOf b := by rw [treeOf, treeOf, h]

theorem zoneBits_spec (a : Addr) (p : ℤ) : ∃ k, zoneBits a p = k * (treeOf a).unit ∧
    zoneBits a p / (treeOf a).unit = k ∧ 1 ≤ k ∧ k ≤ (treeOf a).most ∧ k ≤ (digits a).length := by
  obtain ⟨k, hk, hpos, hmost⟩ := (treeOf a).bits_spec p
  have hquot : zoneBits a p / (treeOf a).unit = k := by
    rw [zoneBits, hk, Nat.mul_div_cancel _ (treeOf a).unit_pos]
  exact ⟨k, hk, hquot, hpos, hmost, digits_length a ▸ hmost.trans (treeOf a).most_le⟩

theorem contains_iff_take (p : ℤ) (hz : b.unmap.zone = []) (h4 : a.unmap.is4 = b.unmap.is4) :
    a.unmap.contains (zoneBits a p) b.unmap = true ↔
      (digits a).take (zoneBits a p / (treeOf a).unit) = (digits b).take
      (zoneBits a p / (treeOf a).unit) := by
  obtain ⟨k, hk, hquot, -⟩ := zoneBits_spec a p
  have hpow : 2 ^ (a.unmap.width - zoneBits a p) =
      (2 ^ (treeOf a).unit) ^ ((digits a).length - k) := by
    rw [← pow_mul, digits_length, width_digits, hk, Nat.mul_sub, Nat.mul_comm k]
  have hbase : 1 < 2 ^ (treeOf a).unit := Nat.one_lt_two_pow (treeOf a).unit_pos.ne'
  have hlen : (digits a).length = (digits b).length := by
    rw [digits_length, digits_length, treeOf_eq h4]
  have hvalue : b.unmap.value = Nat.ofDigits (2 ^ (treeOf a).unit) (digits b).reverse := by
    rw [value_digits, treeOf_eq h4]
  rw [hquot, Addr.take_eq_iff hbase hlen (digits_lt a) (treeOf_eq h4 ▸ digits_lt b),
    Addr.contains_iff, Block.Has,
    Addr.block, hpow, hvalue, value_digits a]
  exact ⟨fun h => h.2.2.symm, fun h => ⟨h4, hz, h.symm⟩⟩

theorem suffix_ne (h4 : a.unmap.is4 ≠ b.unmap.is4) :
    (treeOf b).suffix.length = (treeOf a).suffix.length ∧
    (treeOf a).suffix ≠ (treeOf b).suffix := by
  unfold treeOf
  cases ha : a.unmap.is4 <;> cases hb : b.unmap.is4
  · exact absurd (ha.trans hb.symm) h4
  · exact ⟨rfl, v4Labels_spec.2.2.2.symm⟩
  · exact ⟨rfl, v4Labels_spec.2.2.2⟩
  · exact absurd (ha.trans hb.symm) h4

theorem inZone_reverseZone_iff (p : ℤ) (hz : b.zone = []) :
    Store.InZone (ptrOwner b) (reverseZone a p) ↔
    a.unmap.contains (zoneBits a p) b.unmap = true := by
  have hdigits : (treeOf a).Digits ((digits a).take (zoneBits a p / (treeOf a).unit)) := fun d hd =>
    digits_lt a d (mem_of_mem_take hd)
  rw [ptrOwner_eq, reverseZone_eq]
  by_cases h4 : a.unmap.is4 = b.unmap.is4
  · obtain ⟨k, -, hquot, -, -, hlen⟩ := zoneBits_spec a p
    rw [contains_iff_take p (Addr.zone_unmap hz) h4, ← treeOf_eq h4,
      Tree.inZone_name (treeOf_eq h4 ▸ digits_lt b) hdigits, hquot, prefix_iff_eq_take, length_take,
      min_eq_left hlen]
  · obtain ⟨hlen, hne⟩ := suffix_ne h4
    exact iff_of_false (Tree.not_inZone_name (digits_lt b) hdigits hlen hne) fun h =>
      h4 (Addr.contains_iff.1 h).1

theorem ptrOwner_inj (ha : a.zone = []) (hb : b.zone = []) :
    ptrOwner a = ptrOwner b ↔ a.unmap = b.unmap := by
  constructor
  · intro h
    have hin : Store.InZone (ptrOwner b) (ptrOwner a) := .inl h.symm
    rw [ptrOwner_eq, ptrOwner_eq] at hin
    by_cases h4 : a.unmap.is4 = b.unmap.is4
    · rw [← treeOf_eq h4, Tree.inZone_name (treeOf_eq h4 ▸ digits_lt b) (digits_lt a)] at hin
      have hdigits : digits a = digits b :=
        hin.eq_of_length (by rw [digits_length, digits_length, treeOf_eq h4])
      refine Addr.eq_of_value h4 ((Addr.zone_unmap ha).trans (Addr.zone_unmap hb).symm) ?_
      rw [value_digits, value_digits, hdigits, treeOf_eq h4]
    · obtain ⟨hlen, hne⟩ := suffix_ne h4
      exact absurd hin (Tree.not_inZone_name (digits_lt b) (digits_lt a) hlen hne)
  · intro h
    rw [ptrOwner_eq, ptrOwner_eq, treeOf, treeOf, digits, digits, h]

theorem reverseZone_subnet {n : ℕ} (hb : b.zone = []) (hn : (treeOf a).unit ≤ n)
    (hn' : n ≤ a.unmap.width)
    (h : a.unmap.contains n b.unmap = true) : reverseZone a n = reverseZone b n := by
  obtain ⟨h4, -, hhas⟩ := Addr.contains_iff.1 h
  have hle : zoneBits a n ≤ n := Tree.bits_le hn (width_digits a ▸ hn')
  have hzone : a.unmap.contains (zoneBits a n) b.unmap = true :=
    Addr.contains_iff.2 ⟨h4, Addr.zone_unmap hb, Addr.block_mono hle hhas⟩
  have hbits : zoneBits b n = zoneBits a n := by rw [zoneBits, zoneBits, treeOf_eq h4]
  rw [reverseZone_eq, reverseZone_eq, hbits, ← treeOf_eq h4,
    (contains_iff_take n (Addr.zone_unmap hb) h4).1 hzone]

theorem zoneName_reverseZone (E : Env) (a : Addr) (p : ℤ) :
    zoneName E (reverseZone a p) = .ok (reverseZone a p) ∧ isReverse (reverseZone a p) = true := by
  obtain ⟨k, -, hquot, hpos, hmost, hlen⟩ := zoneBits_spec a p
  have htake : ((digits a).take k).length = k := by rw [length_take, min_eq_left hlen]
  have hne : (digits a).take k ≠ [] := ne_nil_of_length_pos (by rw [htake]; exact hpos)
  have hdigits : (treeOf a).Digits ((digits a).take k) := fun d hd =>
    digits_lt a d (mem_of_mem_take hd)
  rw [reverseZone_eq, hquot]
  have hzone := Tree.isZone_name hdigits hne (htake.le.trans (hmost.trans (treeOf a).most_le))
  have hrev : isReverse ((treeOf a).name ((digits a).take k)) = true ∧
      reverseOK ((treeOf a).name ((digits a).take k)) = true := by
    unfold treeOf at hdigits hmost ⊢
    split_ifs at hdigits hmost ⊢
    · exact reverseOK_octets hdigits hne (htake.le.trans (hmost.trans (by decide)))
    · exact reverseOK_nibbles hdigits hne (htake.le.trans (hmost.trans (by decide)))
  exact ⟨zoneName_of_reverse hzone hrev, hrev.1⟩

theorem isZone_ptrOwner (a : Addr) : IsZone (ptrOwner a) := by
  have hlen := digits_length a
  have hpos : 0 < (treeOf a).count := (treeOf a).most_pos.trans_le (treeOf a).most_le
  rw [ptrOwner_eq]
  exact Tree.isZone_name (digits_lt a) (ne_nil_of_length_pos (hlen ▸ hpos)) hlen.le

theorem ptrOwner_inZone (a : Addr) (p : ℤ) : Store.InZone (ptrOwner a) (reverseZone a p) := by
  have hdigits : (treeOf a).Digits ((digits a).take (zoneBits a p / (treeOf a).unit)) := fun d hd =>
    digits_lt a d (mem_of_mem_take hd)
  rw [ptrOwner_eq, reverseZone_eq]
  exact (Tree.inZone_name (digits_lt a) hdigits).2 (List.take_prefix ..)

/-- **Reverse zones are those of prefixes**: what is planned is a zone name as it stands and
    contains the owner names of just the addresses that share its leading bits, owner names tell
    addresses apart, and the addresses of a subnet get one zone. -/
theorem reverseZone_spec (E : Env) (a : Addr) (p : ℤ) (ha : a.zone = []) :
    zoneName E (reverseZone a p) = .ok (reverseZone a p) ∧
    Store.InZone (ptrOwner a) (reverseZone a p) ∧
      (∀ b : Addr, b.zone = [] → (ptrOwner a = ptrOwner b ↔ a.unmap = b.unmap)) ∧
      (∀ b : Addr, b.zone = [] →
        (Store.InZone (ptrOwner b) (reverseZone a p) ↔
          a.unmap.contains (zoneBits a p) b.unmap = true)) ∧
      ∀ (b : Addr) (n : ℕ), b.zone = [] → (if a.unmap.is4 then 8 else 4) ≤ n → n ≤ a.unmap.width →
        a.unmap.contains n b.unmap = true → reverseZone a n = reverseZone b n := by
  refine ⟨(zoneName_reverseZone E a p).1, ptrOwner_inZone a p, fun b hb => ptrOwner_inj ha hb,
    fun b hb => inZone_reverseZone_iff p hb, fun b n hb hn hn' h => reverseZone_subnet hb ?_ hn' h⟩
  unfold treeOf
  split_ifs at hn ⊢ <;> exact hn

/-- Two addresses of `10.1.2.0/23`, one of them mapped into IPv6: the zone is that of the `/16`. -/
theorem reverseZone_ten :
    zoneName .sample (str "1.10.in-addr.arpa.") = .ok (str "1.10.in-addr.arpa.") ∧
      Store.InZone (str "7.3.1.10.in-addr.arpa.") (str "1.10.in-addr.arpa.") ∧
      reverseZone (.v4 ⟨10, 1, 2, 3⟩) 23 =
        reverseZone (.v6 ⟨0, 0, 0, 0, 0, 0xFFFF, 0x0A01, 0x0307⟩ []) 23 := by
  have h := reverseZone_spec .sample (.v4 ⟨10, 1, 2, 3⟩) 23 rfl
  have hzone : reverseZone (.v4 ⟨10, 1, 2, 3⟩) 23 = str "1.10.in-addr.arpa." := by decide +kernel
  rw [hzone] at h
  have hin : Addr.contains (.v4 ⟨10, 1, 2, 3⟩) (zoneBits (.v4 ⟨10, 1, 2, 3⟩) 23)
      (.v4 ⟨10, 1, 3, 7⟩) = true ∧
      Addr.contains (.v4 ⟨10, 1, 2, 3⟩) 23
        (Addr.v6 ⟨0, 0, 0, 0, 0, 0xFFFF, 0x0A01, 0x0307⟩ []).unmap = true := by
    decide +kernel
  refine ⟨h.1, (h.2.2.2.1 (.v4 ⟨10, 1, 3, 7⟩) rfl).2 hin.1, ?_⟩
  exact h.2.2.2.2 (.v6 ⟨0, 0, 0, 0, 0, 0xFFFF, 0x0A01, 0x0307⟩ []) 23 rfl (by decide)
    (by decide) hin.2

end TangraDns.Sync
