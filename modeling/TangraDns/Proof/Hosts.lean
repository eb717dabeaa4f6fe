/-
  Host names whose last label is a number (`Validate.hostname`).
-/
import TangraDns.Proof.Canonical
import TangraDns.SyncPlan

namespace TangraDns.Validate

open Str

variable {E : Env} {s h l : Str}

/-! ## Labels of digits -/

/-- Only decimal digits. -/
def Numeric (l : Str) : Prop := ∀ c ∈ l, 48 ≤ c ∧ c ≤ 57

def lastLabel (h : Str) : Str := (labelsOf h).getLastD []

theorem numeric_of_decimal {n : ℕ} (hn : Addr.decimal l = some n) : Numeric l :=
  Addr.digits_of_decimal hn

theorem atoi_of_decimal {n : ℕ} (hn : Addr.decimal l = some n) :
    atoi l = if n < 2 ^ 63 then some (n : ℤ) else none := by
  have hl := numeric_of_decimal hn
  unfold atoi
  split
  · exact absurd (hl 43 List.mem_cons_self) (by decide)
  · exact absurd (hl 45 List.mem_cons_self) (by decide)
  · rw [hn]
    split_ifs with h
    · exact Option.filter_eq_some_iff.2
        ⟨rfl, by simp only [Bool.and_eq_true, decide_eq_true_eq]; omega⟩
    · refine Option.filter_eq_none_iff.2 fun m hm => ?_
      obtain rfl : (n : ℤ) = m := Option.some.inj hm
      simp only [Bool.and_eq_true, decide_eq_true_eq]
      omega

theorem atoi_eq_none_iff (hne : l ≠ []) (hl : Numeric l) :
    atoi l = none ↔ ∃ n, Addr.decimal l = some n ∧ 2 ^ 63 ≤ n := by
  obtain ⟨n, hn⟩ := Addr.exists_decimal hne hl
  rw [atoi_of_decimal hn, hn]
  simp

theorem lastLabel_mem (hc : Canonical h) : lastLabel h ∈ labelsOf h := by
  rw [lastLabel, List.getLastD_eq_getLast?, List.getLast?_eq_getLast_of_ne_nil hc.labelsOf_spec.1]
  exact List.getLast_mem _

/-! ## Accepted hosts -/

/-- The text is a name of at least two host labels, and the last is a number of at least 2^63. -/
def Oversized (E : Env) (s : Str) : Prop :=
  ∃ h ls, split E s = .ok (h, ls) ∧ 2 ≤ ls.length ∧ (∀ l ∈ ls, labelOK l false = true) ∧
    ∃ n, Addr.decimal (ls.getLastD []) = some n ∧ 2 ^ 63 ≤ n

theorem oversized_of_hostname (hh : hostname E s = .ok h) (hnum : Numeric (lastLabel h)) :
    Oversized E s := by
  obtain ⟨ls, hs, htwo, hlabels, hnone⟩ := hostname_eq_ok.1 hh
  obtain ⟨hc, rfl⟩ := split_spec hs
  have hne : lastLabel h ≠ [] := (hc.labelsOf_spec.2.2 _ (lastLabel_mem hc)).1
  exact ⟨h, labelsOf h, hs, htwo, hlabels, (atoi_eq_none_iff hne hnum).1 hnone⟩

theorem Oversized.hostname (ho : Oversized E s) :
    ∃ h, hostname E s = .ok h ∧ Numeric (lastLabel h) := by
  obtain ⟨h, ls, hs, htwo, hlabels, n, hn, hlarge⟩ := ho
  have hnone : atoi (ls.getLastD []) = none := by rw [atoi_of_decimal hn, if_neg (not_lt.2 hlarge)]
  refine ⟨h, hostname_eq_ok.2 ⟨ls, hs, htwo, hlabels, hnone⟩, ?_⟩
  obtain ⟨-, rfl⟩ := split_spec hs
  exact numeric_of_decimal hn

/-- **The last label of an accepted host name is no number**, for nameservers and supermasters and
    for the hosts of the sync, just if the text is not a name whose last label is a number out of
    the range of machine integers. -/
theorem notNumeric_iff (E : Env) (s : Str) :
    ((∀ h, hostname E s = .ok h → ¬ Numeric (lastLabel h)) ∧
      ∀ h, Sync.canonicalHost E s = some h → ¬ Numeric (lastLabel h)) ↔ ¬ Oversized E s := by
  constructor
  · rintro ⟨hhost, -⟩ ho
    obtain ⟨h, hh, hnum⟩ := ho.hostname
    exact hhost h hh hnum
  · intro ho
    have hhost : ∀ h, hostname E s = .ok h → ¬ Numeric (lastLabel h) :=
      fun h hh hnum => ho (oversized_of_hostname hh hnum)
    refine ⟨hhost, fun h hh => hhost h ?_⟩
    unfold Sync.canonicalHost at hh
    split at hh
    · cases hh
    · next fq hfq =>
      split_ifs at hh
      cases hh
      exact hfq

/-- 2^63 as the last label. -/
theorem hostname_oversized :
    hostname .sample (str "ns1.9223372036854775808") = .ok (str "ns1.9223372036854775808.") ∧
      Sync.canonicalHost .sample (str "ns1.9223372036854775808") =
        some (str "ns1.9223372036854775808.") ∧
      lastLabel (str "ns1.9223372036854775808.") = str "9223372036854775808" ∧
      ∀ c ∈ str "9223372036854775808", 48 ≤ c ∧ c ≤ 57 := by
  decide +kernel

end TangraDns.Validate
