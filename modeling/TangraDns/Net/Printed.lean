/-
  The bytes and the length of printed addresses, address-port pairs and prefixes.
-/
import TangraDns.Net.Roundtrip

namespace Addr

open List

variable {a : Addr} {gs : List ℕ}

/-! ## Bytes -/

def TextByte (c : UInt8) : Prop := (48 ≤ c ∧ c ≤ 58) ∨ (97 ≤ c ∧ c ≤ 102) ∨ c = 46

theorem textByte_itoa (n : ℕ) : ∀ c ∈ itoa n, TextByte c := by
  intro c hc
  have := mem_itoa c hc
  exact Or.inl (by grind)

theorem textByte_toStr4 (ip : IP4) : ∀ c ∈ toStr4 ip, TextByte c := by
  intro c hc
  have := mem_of_parseIPv4 (parseIPv4_toStr4 ip) c hc
  unfold TextByte
  grind

theorem textByte_joinGroups (hgs : ∀ g ∈ gs, g < 65536) : ∀ c ∈ joinGroups gs, TextByte c := by
  intro c hc
  exact (mem_joinGroups hgs c hc).imp_right Or.inl

theorem textByte_toStr6 (ip : IP6) : ∀ c ∈ toStr6 ip, TextByte c := by
  intro c hc
  have hlt := groups_lt ip
  unfold toStr6 at hc
  split at hc
  · exact textByte_joinGroups hlt c hc
  · simp only [mem_append] at hc
    rcases hc with (hc | hc) | hc
    · exact textByte_joinGroups (fun g hg => hlt g (mem_of_mem_take hg)) c hc
    · simp only [mem_cons, not_mem_nil, or_false, or_self] at hc
      subst hc
      exact Or.inl (by decide)
    · exact textByte_joinGroups (fun g hg => hlt g (mem_of_mem_drop hg)) c hc

theorem textByte_toStr (hz : a.zone = []) : ∀ c ∈ a.toStr, TextByte c := by
  intro c hc
  cases a with
  | v4 ip => exact textByte_toStr4 ip c hc
  | v6 ip z =>
    obtain rfl : z = [] := hz
    simp only [toStr, if_true, append_nil] at hc
    split_ifs at hc
    · rcases mem_append.1 hc with hc | hc
      · have key : ∀ c ∈ str "::ffff:", (48 ≤ c ∧ c ≤ 58) ∨ (97 ≤ c ∧ c ≤ 102) ∨ c = 46 := by
          simp [str]
        exact key c hc
      · exact textByte_toStr4 _ c hc
    · exact textByte_toStr6 ip c hc

theorem TextByte.printable {c : UInt8} (h : TextByte c) : 0x21 ≤ c ∧ c ≤ 0x7e := by
  unfold TextByte at h
  grind

theorem printable_toStr (h : Plain a) : ∀ c ∈ a.toStr, 0x21 ≤ c ∧ c ≤ 0x7e :=
  fun c hc => (textByte_toStr h.1 c hc).printable

theorem mem_toStrPort (hz : a.zone = []) (port : ℕ) :
    ∀ c ∈ toStrPort a port, TextByte c ∨ c = 91 ∨ c = 93 := by
  intro c hc
  unfold toStrPort at hc
  split_ifs at hc <;> simp only [mem_append, mem_cons, not_mem_nil, or_false] at hc
  · rcases hc with hc | rfl | hc
    · exact Or.inl (textByte_toStr hz c hc)
    · exact Or.inl (Or.inl (by decide))
    · exact Or.inl (textByte_itoa port c hc)
  · rcases hc with ((rfl | hc) | rfl | rfl) | hc
    · exact Or.inr (Or.inl rfl)
    · exact Or.inl (textByte_toStr hz c hc)
    · exact Or.inr (Or.inr rfl)
    · exact Or.inl (Or.inl (by decide))
    · exact Or.inl (textByte_itoa port c hc)

theorem printable_toStrPort (h : Plain a) (port : ℕ) :
    ∀ c ∈ toStrPort a port, 0x21 ≤ c ∧ c ≤ 0x7e := by
  intro c hc
  rcases mem_toStrPort h.1 port c hc with hc | rfl | rfl
  exacts [hc.printable, by decide, by decide]

theorem mem_toStrPrefix (hz : a.zone = []) (n : ℕ) :
    ∀ c ∈ toStrPrefix a n, TextByte c ∨ c = 47 := by
  intro c hc
  simp only [toStrPrefix, mem_append, mem_cons] at hc
  rcases hc with hc | rfl | hc
  · exact Or.inl (textByte_toStr hz c hc)
  · exact Or.inr rfl
  · exact Or.inl (textByte_itoa n c hc)

/-! ## Lengths -/

theorem toStr_ne_nil (a : Addr) : a.toStr ≠ [] := by
  intro h
  cases a with
  | v4 ip =>
    have := parseIPv4_toStr4 ip
    rw [show toStr4 ip = [] from h, show parseIPv4 [] = none from by decide] at this
    cases this
  | v6 ip z =>
    obtain ⟨h, -⟩ := append_eq_nil_iff.1 h
    split_ifs at h
    · exact absurd (append_eq_nil_iff.1 h).1 (by decide)
    · have := parseIPv6_toStr6 ip
      rw [h, show parseIPv6 [] = none from by decide] at this
      cases this

theorem length_hexGroup_le (n : ℕ) : (hexGroup n).length ≤ 4 := by
  unfold hexGroup
  split_ifs <;> simp

theorem length_joinGroups_le (gs : List ℕ) : (joinGroups gs).length ≤ 5 * gs.length := by
  induction gs with
  | nil => simp [joinGroups, Str.join]
  | cons g gs ih =>
    have hg := length_hexGroup_le g
    cases gs with
    | nil => rw [joinGroups_singleton]; simp only [length_singleton]; omega
    | cons g' gs =>
      rw [joinGroups_cons_cons, length_append, length_cons, length_cons]
      omega

theorem length_toStr4_le (ip : IP4) : (toStr4 ip).length ≤ 15 := by
  have h (b : UInt8) : (itoa b.toNat).length ≤ 3 :=
    length_itoa_le (by decide) (lt_of_lt_of_le (UInt8.toNat_lt b) (by decide))
  have ha := h ip.a
  have hb := h ip.b
  have hc := h ip.c
  have hd := h ip.d
  simp only [toStr4, Str.join, List.intercalate, List.intersperse, flatten_cons, flatten_nil,
    length_append, length_cons, length_nil]
  omega

theorem length_toStr6_le (ip : IP6) : (toStr6 ip).length ≤ 42 := by
  have hlen : (groups ip).length = 8 := rfl
  unfold toStr6
  split
  · have := length_joinGroups_le (groups ip)
    omega
  · next i l hrun =>
    obtain ⟨-, hl, -⟩ := zeroRun_spec hrun
    have h1 := length_joinGroups_le ((groups ip).take i)
    have h2 := length_joinGroups_le ((groups ip).drop (i + l))
    simp only [length_take, length_drop, length_append, length_cons, length_nil] at h1 h2 ⊢
    omega

theorem length_toStr_le (hz : a.zone = []) : a.toStr.length ≤ 42 := by
  cases a with
  | v4 ip => exact (length_toStr4_le ip).trans (by decide)
  | v6 ip z =>
    obtain rfl : z = [] := hz
    simp only [toStr, if_true, append_nil]
    split_ifs
    · have := length_toStr4_le (low4 ip)
      have hs : (str "::ffff:").length = 7 := by decide
      rw [length_append]
      omega
    · exact length_toStr6_le ip

@[simp] theorem zone_masked (a : Addr) (n : ℕ) : (a.masked n).zone = a.zone := by
  cases a <;> simp only [masked, zone]

theorem zone_unmap (hz : a.zone = []) : a.unmap.zone = [] := by
  cases a with
  | v4 ip => rfl
  | v6 ip z =>
    simp only [unmap]
    split_ifs
    exacts [rfl, hz]

theorem plain_unmap (hz : a.unmap.zone = []) : a.unmap.Plain := by
  cases a with
  | v4 ip => exact ⟨rfl, fun ip z h => by cases h⟩
  | v6 ip z =>
    by_cases hm : mapped ip = true
    · rw [unmap, if_pos hm]
      exact ⟨rfl, fun ip z h => by cases h⟩
    · rw [unmap, if_neg hm] at hz ⊢
      refine ⟨hz, fun ip' z' h => ?_⟩
      cases h
      simpa using hm

theorem unmap_of_plain (h : a.Plain) : a.unmap = a := by
  cases a with
  | v4 ip => rfl
  | v6 ip z => simp [unmap, h.2 ip z rfl]

theorem parsePrefix_spec {s : Str} {n : ℕ} (h : parsePrefix s = some (a, n)) :
    a.zone = [] ∧ n ≤ 128 := by
  unfold parsePrefix at h
  split at h
  · cases h
  · split at h
    · simp only [Option.ite_none_left_eq_some, Option.some.injEq, Prod.mk.injEq, not_or] at h
      obtain ⟨⟨hz, -, hn⟩, rfl, rfl⟩ := h
      refine ⟨not_not.1 hz, (not_lt.1 hn).trans ?_⟩
      split_ifs <;> decide
    · cases h

end Addr
