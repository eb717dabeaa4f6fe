/-
  The clients the resolver admits.
-/
import TangraDns.Proof.Settings

namespace TangraDns.Dnsconf

open Str

variable {U : CaseTables} {s s' : Str} {networks : List Str} {four : Bool} {c : Addr} {b : Block}

def admits (network : Str) (c : Addr) : Bool :=
  match Addr.parsePrefix network with
  | some (a, n) => a.contains n c
  | none => false

def Admitted (networks : List Str) (c : Addr) : Prop := ∃ s ∈ networks, admits s c = true

def AdmitsAll (networks : List Str) (four : Bool) : Prop :=
  ∀ c : Addr, c.is4 = four → c.zone = [] → Admitted networks c

/-- Without a confirmation there are clients of either family that are not admitted, and the
    resolver is called open just if it admits every client of a family. -/
def Validated.Guarded (v : Validated U) : Prop :=
  (v.model.recursor.allowOpenResolver = false →
      ∀ four, ∃ c : Addr, c.is4 = four ∧ c.zone = [] ∧
        ¬ Admitted v.model.recursor.allowedNetworks c) ∧
    (v.openResolver = true ↔ ∃ four, AdmitsAll v.model.recursor.allowedNetworks four)

/-! ## Networks as blocks -/

def familyBlock (four : Bool) (network : Str) : Option Block :=
  match Addr.parsePrefix network with
  | some (a, n) => if a.is4 = four then some (a.block n) else none
  | none => none

def blocks (four : Bool) (networks : List Str) : List Block := networks.filterMap (familyBlock four)

def bits (four : Bool) : ℕ := if four then 32 else 128

/-- A network for every client is listed, or those networks of either family that lie in no other
    one of the list have fewer addresses, all together, than the family. -/
def Narrow (networks : List Str) : Prop :=
  (∃ s ∈ networks, isOpen s = true) ∨ ∀ four, Block.total (blocks four networks) < 2 ^ bits four

theorem IsNetwork.parse (h : IsNetwork s) : ∃ (a : Addr) (n : ℕ), a.zone = [] ∧ n ≤ a.width ∧
    a.masked n = a ∧
    s = Addr.toStrPrefix a n ∧ Addr.parsePrefix s = some (a, n) := by
  obtain ⟨a, n, hz, hn, rfl⟩ := h
  have hz' : (a.masked n).zone = [] := by rw [Addr.zone_masked, hz]
  have hn' : n ≤ (a.masked n).width := by rwa [Addr.width_masked]
  exact ⟨a.masked n, n, hz', hn', Addr.masked_masked .., rfl, Addr.parsePrefix_toStrPrefix hz' hn'⟩

theorem admits_iff (hz : c.zone = []) :
    admits s c = true ↔ ∃ b, familyBlock c.is4 s = some b ∧ b.Has c.value := by
  unfold admits familyBlock
  cases hp : Addr.parsePrefix s with
  | none => simp
  | some p =>
    by_cases h4 : p.1.is4 = c.is4
    · simp [Addr.contains_iff, h4, hz]
    · simp [Addr.contains_iff, h4]

theorem familyBlock_inj (h : IsNetwork s) (h' : IsNetwork s') (hb : familyBlock four s = some b)
    (hb' : familyBlock four s' = some b) : s = s' := by
  obtain ⟨a, n, hz, hn, hmask, rfl, hparse⟩ := h.parse
  obtain ⟨a', n', hz', hn', hmask', rfl, hparse'⟩ := h'.parse
  simp only [familyBlock, hparse, hparse', Option.ite_none_right_eq_some,
    Option.some.injEq] at hb hb'
  obtain ⟨h4, rfl⟩ := hb
  obtain ⟨h4', hblock⟩ := hb'
  have hwidth : a'.width = a.width := by rw [Addr.width, Addr.width, h4, h4']
  have hshift : a'.width - n' = a.width - n := congrArg Block.shift hblock
  obtain rfl : n' = n := by omega
  rw [← hmask, ← hmask', Addr.masked_eq_of_block (h4.trans h4'.symm) (hz.trans hz'.symm)
    hblock.symm]

theorem nodup_blocks {required : Bool} (h : Listed required IsNetwork networks) :
    (blocks four networks).Nodup := by
  refine List.pairwise_filterMap.2 (h.nodup.imp_of_mem fun hs hs' hne => ?_)
  rintro b hb b' hb' rfl
  exact hne (familyBlock_inj (h.entries _ hs) (h.entries _ hs') hb hb')

theorem lt_of_familyBlock {x : ℕ} (hb : familyBlock four s = some b) (hx : b.Has x) :
    x < 2 ^ bits four := by
  unfold familyBlock at hb
  split at hb
  · simp only [Option.ite_none_right_eq_some, Option.some.injEq] at hb
    obtain ⟨rfl, rfl⟩ := hb
    exact Addr.block_lt hx
  · cases hb

theorem admitsAll_iff {required : Bool} (h : Listed required IsNetwork networks) :
    AdmitsAll networks four ↔ 2 ^ bits four ≤ Block.total (blocks four networks) := by
  have hlt : ∀ b ∈ blocks four networks, ∀ x, b.Has x → x < 2 ^ bits four := by
    intro b hb x hx
    obtain ⟨s, -, hs⟩ := List.mem_filterMap.1 hb
    exact lt_of_familyBlock hs hx
  rw [← Block.covers_iff (nodup_blocks h) hlt]
  constructor
  · intro hall x hx
    obtain ⟨c, rfl, hz, rfl⟩ := Addr.exists_value four hx
    obtain ⟨s, hs, hadm⟩ := hall c rfl hz
    obtain ⟨b, hb, hhas⟩ := (admits_iff hz).1 hadm
    exact ⟨b, List.mem_filterMap.2 ⟨s, hs, hb⟩, hhas⟩
  · rintro hcover c rfl hz
    obtain ⟨b, hb, hhas⟩ := hcover c.value c.value_lt
    obtain ⟨s, hs, hblock⟩ := List.mem_filterMap.1 hb
    exact ⟨s, hs, (admits_iff hz).2 ⟨b, hblock, hhas⟩⟩

/-! ## Networks for every client -/

theorem isOpen_iff (h : IsNetwork s) : isOpen s = true ↔ ∃ a :
    Addr, Addr.parsePrefix s = some (a, 0) := by
  have h4 : Addr.parsePrefix (str "0.0.0.0/0") = some (.v4 ⟨0, 0, 0, 0⟩, 0) := by decide +kernel
  have h6 : Addr.parsePrefix (str "::/0") = some (.v6 ⟨0, 0, 0, 0, 0, 0, 0, 0⟩ [], 0) := by
    decide +kernel
  constructor
  · intro hopen
    simp only [isOpen, Bool.or_eq_true, beq_iff_eq] at hopen
    rcases hopen with rfl | rfl
    · exact ⟨_, h4⟩
    · exact ⟨_, h6⟩
  · rintro ⟨a', ha'⟩
    obtain ⟨a, n, hz, -, hmask, rfl, hparse⟩ := h.parse
    obtain ⟨rfl, rfl⟩ : a = a' ∧ n = 0 := by simpa [hparse] using ha'
    have hzero : a.value = 0 := by
      rw [← hmask, Addr.value_masked, Addr.maskBits, Nat.pow_eq, Nat.sub_zero,
        Nat.div_eq_of_lt a.value_lt, Nat.zero_mul]
    cases hfam : a.is4 with
    | true =>
      obtain rfl : a = .v4 ⟨0, 0, 0, 0⟩ :=
        Addr.eq_of_value hfam hz (hzero.trans (by decide +kernel))
      decide +kernel
    | false =>
      obtain rfl : a = .v6 ⟨0, 0, 0, 0, 0, 0, 0, 0⟩ [] :=
        Addr.eq_of_value hfam hz (hzero.trans (by decide +kernel))
      decide +kernel

theorem admitsAll_of_open (h : IsNetwork s) (hs : s ∈ networks) (hopen : isOpen s = true) :
    ∃ four, AdmitsAll networks four := by
  obtain ⟨a, hparse⟩ := (isOpen_iff h).1 hopen
  refine ⟨a.is4, fun c h4 hz => ⟨s, hs, ?_⟩⟩
  have hwidth : c.width = a.width := by rw [Addr.width, Addr.width, h4]
  have hhas : (a.block 0).Has c.value := by
    rw [Block.Has, Addr.block, Nat.sub_zero, Nat.div_eq_of_lt a.value_lt]
    exact Nat.div_eq_of_lt (hwidth ▸ c.value_lt)
  rw [admits, hparse]
  exact Addr.contains_iff.2 ⟨h4.symm, hz, hhas⟩

/-- **The resolver is guarded just if its networks are narrow or one is for every client.** -/
theorem guarded_iff (v : Validated U) : v.Guarded ↔ Narrow v.model.recursor.allowedNetworks := by
  have hc := v.checked
  by_cases hopen : ∃ s ∈ v.model.recursor.allowedNetworks, isOpen s = true
  · -- such a network has been confirmed
    obtain ⟨s, hs, hso⟩ := hopen
    refine iff_of_true ⟨fun hunset => ?_, ?_⟩ (.inl ⟨s, hs, hso⟩)
    · rcases hc.confirmed with hset | hnone
      · rw [hset] at hunset
        cases hunset
      · rw [hnone s hs] at hso
        cases hso
    · exact iff_of_true (List.any_eq_true.2 ⟨s, hs, hso⟩)
        (admitsAll_of_open (hc.networks.entries s hs) hs hso)
  · have hnot : v.openResolver = false := Bool.eq_false_iff.2 fun h => hopen (List.any_eq_true.1 h)
    have hleft (four : Bool) : (∃ c : Addr, c.is4 = four ∧ c.zone = [] ∧
        ¬ Admitted v.model.recursor.allowedNetworks c) ↔
          ¬ AdmitsAll v.model.recursor.allowedNetworks four := by
      simp [AdmitsAll]
    have hnarrow : Narrow v.model.recursor.allowedNetworks ↔
        ∀ four, ¬ AdmitsAll v.model.recursor.allowedNetworks four := by
      simp only [Narrow, hopen, false_or, admitsAll_iff hc.networks, not_le]
    rw [Validated.Guarded, hnarrow]
    simp only [hleft, hnot, Bool.false_eq_true, false_iff, not_exists]
    exact ⟨fun h => h.2, fun h => ⟨fun _ => h, h⟩⟩

/-- The default configuration with the two halves of the IPv4 addresses as allowed networks. -/
def halves : Model :=
  { defaults with recursor := { defaults.recursor with allowedNetworks := [str "0.0.0.0/1",
    str "128.0.0.0/1"] } }

/-- The halves are accepted without confirmation and not called open, and every IPv4 client is
    admitted. -/
theorem halves_open : ∃ v : Validated .ascii, halves.canonical .ascii = .ok v.model ∧
    v.model.recursor.allowOpenResolver = false ∧ v.openResolver = false ∧
    AdmitsAll v.model.recursor.allowedNetworks true ∧ ¬ v.Guarded := by
  have hcan : halves.canonical .ascii = .ok halves := by decide +kernel
  have hall : AdmitsAll halves.recursor.allowedNetworks true :=
    (admitsAll_iff (Model.checked hcan).1.networks).2 (by decide +kernel)
  have hclosed : halves.recursor.allowedNetworks.any isOpen = false := by decide +kernel
  refine ⟨⟨halves, halves, hcan⟩, hcan, rfl, hclosed, hall, fun hguarded => ?_⟩
  obtain ⟨c, h4, hz, hnot⟩ := hguarded.1 rfl true
  exact hnot (hall c h4 hz)

end TangraDns.Dnsconf
