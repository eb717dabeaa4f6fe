/-
  Planning: the zones an address's records are put into.
-/
import TangraDns.Proof.ReverseZones
import TangraDns.Proof.Store
import TangraDns.RecordData

namespace TangraDns.Sync

open Str Validate

variable {E : Env} {zones zones' : List Store.Zone} {n z z' : Str}

/-! ## Names by their labels -/

def Holds (n z : Str) : Prop := labelsOf z <:+ labelsOf n

theorem closed_labelsOf (h : Canonical n) : closed dot (labelsOf n) = n := by
  obtain ⟨hne, hn, -⟩ := h.labelsOf_spec
  exact (closed_eq_join hne).trans hn.symm

theorem inZone_iff_holds (hn : Canonical n) (hz : Canonical z) : Store.InZone n z ↔ Holds n z := by
  have h := suffix_closed_iff (fun l hl => (hn.labelsOf_spec.2.2 l hl).2)
    (fun l hl => (hz.labelsOf_spec.2.2 l hl).2)
  rwa [closed_labelsOf hn, closed_labelsOf hz] at h

theorem Holds.length_lt (hz : Canonical z) (hz' : Canonical z') (h : Holds n z) (h' : Holds n z')
    (hle : z.length ≤ z'.length) (hne : z ≠ z') : (labelsOf z).length < (labelsOf z').length := by
  by_contra hlt
  have hsuf : Holds z z' := List.suffix_of_suffix_length_le h' h (not_lt.1 hlt)
  rcases (inZone_iff_holds hz hz').2 hsuf with heq | hunder
  · exact hne heq
  · exact absurd hunder.length_lt (not_lt.2 hle)

/-! ## The most specific zone -/

structure MostSpecific (zones : List Store.Zone) (n : Str) (r : Option Store.Zone) : Prop where
  isSome : r.isSome = true ↔ ∃ z ∈ zones, Holds n z.name
  most : ∀ z ∈ r, z ∈ zones ∧ Holds n z.name ∧
    ∀ y ∈ zones, Holds n y.name → y ≠ z → (labelsOf y.name).length < (labelsOf z.name).length

theorem MostSpecific.unique {r r' : Option Store.Zone} (h : MostSpecific zones n r)
    (h' : MostSpecific zones' n r')
    (hperm : zones'.Perm zones) : r' = r := by
  have hiff : r'.isSome = true ↔ r.isSome = true := by
    rw [h.isSome, h'.isSome]
    simp only [hperm.mem_iff]
  cases r with
  | none => cases r' with
    | none => rfl
    | some z' => cases hiff.1 rfl
  | some z => cases r' with
    | none => cases hiff.2 rfl
    | some z' =>
      obtain ⟨hz, hin, hmost⟩ := h.most z rfl
      obtain ⟨hz', hin', hmost'⟩ := h'.most z' rfl
      by_contra hne
      have hzz : z' ≠ z := fun he => hne (congrArg some he)
      have hlt := hmost z' (hperm.mem_iff.1 hz') hin' hzz
      exact absurd (hmost' z (hperm.mem_iff.2 hz) hin hzz.symm) (not_lt.2 hlt.le)

structure Listed (zones : List Store.Zone) : Prop where
  canonical : ∀ z ∈ zones, Canonical z.name
  nodup : (zones.map (·.name)).Nodup

theorem Listed.filter (h : Listed zones) (p : Store.Zone → Bool) : Listed (zones.filter p) where
  canonical z hz := h.canonical z (List.mem_filter.1 hz).1
  nodup := h.nodup.sublist (List.filter_sublist.map _)

theorem Listed.perm (h : Listed zones) (hperm : zones'.Perm zones) : Listed zones' where
  canonical z hz := h.canonical z (hperm.mem_iff.1 hz)
  nodup := (hperm.map _).nodup_iff.2 h.nodup

theorem longestZone_mostSpecific (h : Listed zones) (hn : Canonical n) :
    MostSpecific zones n (Store.longestZone zones n) := by
  have hiff {y : Store.Zone} (hy : y ∈ zones) : Store.InZone n y.name ↔ Holds n y.name :=
    inZone_iff_holds hn (h.canonical y hy)
  cases hr : Store.longestZone zones n with
  | none =>
    refine ⟨⟨fun h => (by cases h), fun ⟨y, hy, hholds⟩ => ?_⟩, fun z hz => (by cases hz)⟩
    exact absurd ((hiff hy).2 hholds) (Store.not_inZone_of_longestZone hr y hy)
  | some z =>
    obtain ⟨hz, hin, hmax⟩ := Store.longestZone_spec hr
    refine ⟨⟨fun _ => ⟨z, hz, (hiff hz).1 hin⟩, fun _ => rfl⟩, ?_⟩
    rintro _ ⟨⟩
    refine ⟨hz, (hiff hz).1 hin, fun y hy hholds hne => ?_⟩
    refine hholds.length_lt (h.canonical y hy) (h.canonical z hz) ((hiff hz).1 hin)
      (hmax y hy ((hiff hy).2 hholds)) ?_
    exact fun hname => hne (List.inj_on_of_nodup_map h.nodup hy hz hname)

/-! ## Plans -/

/-- A plan's choice of the zone of an owner name, among reverse or forward zones. -/
structure Placed (E : Env) (rev : Bool) (zones : List Store.Zone) (owner zone : Str)
    (id : Option Str) : Prop where
  holds : Holds owner zone
  most : ∀ y ∈ zones, isReverse y.name = rev → Holds owner y.name →
    (labelsOf y.name).length ≤ (labelsOf zone).length
  existing : ∀ i ∈ id, ∃ z ∈ zones, z.id = i ∧ z.name = zone ∧ isReverse z.name = rev
  new : id = none → zoneName E zone = .ok zone ∧ ∀ y ∈ zones, isReverse y.name = rev →
    ¬ Holds owner y.name

theorem mem_class {rev : Bool} {y : Store.Zone} :
    (y ∈ zones.filter fun z => isReverse z.name == rev) ↔ y ∈ zones ∧ isReverse y.name = rev := by
  rw [List.mem_filter, beq_iff_eq]

theorem Placed.of_longest {rev : Bool} {owner : Str} {z : Store.Zone} (h : Listed zones)
    (hn : Canonical owner)
    (hz : longest zones owner rev = some z) : Placed E rev zones owner z.name (some z.id) := by
  obtain ⟨hmem, hholds, hmost⟩ := (longestZone_mostSpecific (h.filter _) hn).most z hz
  obtain ⟨hmem, hrev⟩ := mem_class.1 hmem
  refine ⟨hholds, fun y hy hyrev hy' => ?_, fun i hi => ⟨z, hmem, Option.some.inj hi, rfl, hrev⟩,
    fun hi => by cases hi⟩
  rcases eq_or_ne y z with rfl | hne
  · exact le_rfl
  · exact (hmost y (mem_class.2 ⟨hy, hyrev⟩) hy' hne).le

theorem Placed.of_new {rev : Bool} {owner zone : Str} (h : Listed zones) (hn : Canonical owner)
    (hz : longest zones owner rev = none) (hzone : zoneName E zone = .ok zone)
    (hin : Store.InZone owner zone) :
    Placed E rev zones owner zone none := by
  have hnone : ∀ y ∈ zones, isReverse y.name = rev → ¬ Holds owner y.name := by
    intro y hy hyrev hholds
    have hsome := (longestZone_mostSpecific (h.filter fun z => isReverse z.name == rev) hn).isSome.2
      ⟨y, mem_class.2 ⟨hy, hyrev⟩, hholds⟩
    rw [show Store.longestZone _ owner = longest zones owner rev from rfl, hz] at hsome
    cases hsome
  exact ⟨(inZone_iff_holds hn (zoneName_spec hzone).1).1 hin, fun y hy hyrev hy' =>
    absurd hy' (hnone y hy hyrev),
    fun i hi => (by cases hi), fun _ => ⟨hzone, hnone⟩⟩

theorem canonicalHost_spec {host h : Str} (hh : canonicalHost E host = some h) : IsHost h := by
  unfold canonicalHost at hh
  split at hh
  · cases hh
  next fq hok =>
    split_ifs at hh
    exact Option.some.inj hh ▸ hostname_spec hok

theorem planForward_placed {host : Str} {addr : Addr} {f : Forward} (h : Listed zones)
    (hf : planForward E zones host addr = .ok f) :
    canonicalHost E host = some f.name ∧ Placed E false zones f.name f.zone f.zoneID := by
  unfold planForward at hf
  cases hhost : canonicalHost E host with
  | none =>
    rw [hhost] at hf
    cases hf
  | some n =>
    have hn : Canonical n := (canonicalHost_spec hhost).canonical
    simp only [hhost] at hf
    cases hz : longest zones n false with
    | some z =>
      simp only [hz, Except.ok.injEq] at hf
      subst hf
      exact ⟨rfl, .of_longest h hn hz⟩
    | none =>
      simp only [hz] at hf
      split at hf
      · cases hf
      next reg hreg =>
        split at hf
        · cases hf
        next zone hzone =>
          split_ifs at hf with hin
          cases hf
          exact ⟨rfl, .of_new h hn hz (zoneName_self hzone) hin⟩

theorem planReverse_placed (E : Env) (a : Addr) (p : ℤ) (h : Listed zones) :
    (planReverse zones a p).owner = ptrOwner a ∧
      Placed E true zones (ptrOwner a) (planReverse zones a p).zone
        (planReverse zones a p).zoneID := by
  have hn : Canonical (ptrOwner a) := (isZone_ptrOwner a).1
  unfold planReverse
  cases hz : longest zones (ptrOwner a) true with
  | some z => exact ⟨rfl, .of_longest h hn hz⟩
  | none => exact ⟨rfl, .of_new h hn hz (zoneName_reverseZone E a p).1 (ptrOwner_inZone a p)⟩

/-- **Names go to the most specific zone**: among zones with distinct canonical names, the longest
    that contains a name is the one with the most labels, in any order of the list; and the plans of
    an address's records name such a zone, or a zone name to be created where no zone of the class
    contains the owner name. -/
theorem longest_spec (hcanon : ∀ z ∈ zones, Canonical z.name)
    (hnodup : (zones.map (·.name)).Nodup) :
    (∀ n, Canonical n → MostSpecific zones n (Store.longestZone zones n) ∧
      (∀ rev, MostSpecific (zones.filter fun z => isReverse z.name == rev) n (longest zones n rev))
        ∧
      ∀ zones' : List Store.Zone, zones'.Perm zones → Store.longestZone zones' n =
        Store.longestZone zones n ∧
        ∀ rev, longest zones' n rev = longest zones n rev) ∧
      (∀ E host addr f, planForward E zones host addr = .ok f →
        canonicalHost E host = some f.name ∧ Placed E false zones f.name f.zone f.zoneID) ∧
      ∀ E a p, (planReverse zones a p).owner = ptrOwner a ∧
        Placed E true zones (ptrOwner a) (planReverse zones a p).zone
          (planReverse zones a p).zoneID := by
  have h : Listed zones := ⟨hcanon, hnodup⟩
  refine ⟨fun n hn => ⟨longestZone_mostSpecific h hn,
    fun rev => longestZone_mostSpecific (h.filter _) hn, ?_⟩,
    fun E host addr f hf => planForward_placed h hf, fun E a p => planReverse_placed E a p h⟩
  intro zones' hperm
  refine ⟨(longestZone_mostSpecific h hn).unique (longestZone_mostSpecific (h.perm hperm) hn) hperm,
    fun rev => ?_⟩
  exact (longestZone_mostSpecific (h.filter _) hn).unique
    (longestZone_mostSpecific ((h.perm hperm).filter _) hn)
    (hperm.filter _)

/-- A zone and one inside it: the host goes to the inner zone. -/
theorem longest_nested :
    ∃ zones : List Store.Zone, (∀ z ∈ zones, Canonical z.name) ∧ (zones.map (·.name)).Nodup ∧
      Placed .sample false zones (str "a.lab.example.com.") (str "lab.example.com.")
        (some (str "inner")) ∧
      (longest zones.reverse (str "a.lab.example.com.") false).map (·.id) = some (str "inner") := by
  let zones : List Store.Zone :=
    [{ Records.sampleZone with id := str "inner", name := str "lab.example.com." },
      Records.sampleZone]
  have hcanon : ∀ z ∈ zones, Canonical z.name := by
    intro z hz
    refine (zoneName_spec (E := .sample) (s := z.name) ?_).1
    revert z
    decide +kernel
  have hnodup : (zones.map (·.name)).Nodup := by decide +kernel
  have h := longest_spec hcanon hnodup
  have hname : Canonical (str "a.lab.example.com.") :=
    (zoneName_spec (E := .sample) (s := str "a.lab.example.com.") (by decide +kernel)).1
  have hplan : planForward .sample zones (str "A.lab.example.com") (.v4 ⟨192, 0, 2, 1⟩) =
      .ok ⟨str "lab.example.com.", some (str "inner"), str "a.lab.example.com.",
        str "A"⟩ := by decide +kernel
  refine ⟨zones, hcanon, hnodup, (h.2.1 .sample _ _ _ hplan).2, ?_⟩
  rw [((h.1 _ hname).2.2 zones.reverse zones.reverse_perm).2 false]
  decide +kernel

end TangraDns.Sync
