/-
  Validation accepts what it has made.
-/
import TangraDns.Net.Printed
import TangraDns.Proof.RecordSet
import TangraDns.Store

namespace TangraDns.Validate

open Str

variable {E : Env}

/-! ## Names -/

theorem zoneName_self {s z : Str} (h : zoneName E s = .ok z) : zoneName E z = .ok z := by
  have hz := zoneName_spec h
  obtain ⟨z', hs, h⟩ := Except.bind_eq_ok.1 h
  obtain rfl : z' = z := by
    dsimp only at h
    split_ifs at h <;> exact Except.ok.inj h
  rw [zoneName, canonicalZone_of_isZone hz]
  exact h

theorem IsHost.hostname {h : Str} (hh : IsHost h) : hostname E h = .ok h :=
  hostname_eq_ok.2 ⟨labelsOf h, split_canonical hh.canonical, hh.two, hh.labels, hh.notNumber⟩

theorem hostname_self {s h : Str} (hh : hostname E s = .ok h) : hostname E h = .ok h :=
  (hostname_spec hh).hostname

/-! ## Addresses -/

theorem guard_self {a g : Addr} (hz : a.zone = []) (h : guard a = .ok g) :
    g.Plain ∧ guard g = .ok g := by
  unfold guard at h
  dsimp only at h
  split_ifs at h with hc
  cases h
  have hp := Addr.plain_unmap (Addr.zone_unmap hz)
  refine ⟨hp, ?_⟩
  unfold guard
  dsimp only
  rw [Addr.unmap_of_plain hp, if_neg hc]

theorem ipGuard_toStr {g : Addr} (hp : g.Plain) (hg : guard g = .ok g) :
    ipGuard g.toStr = .ok g := by
  rw [ipGuard, trimSpace_of_printable (Addr.printable_toStr hp), Addr.parseAddr_toStr hp.2]
  simp [hp.1, hg]

theorem ipGuard_self {s : Str} {g : Addr} (h : ipGuard s = .ok g) :
    g.Plain ∧ ipGuard g.toStr = .ok g := by
  unfold ipGuard at h
  split at h
  · split_ifs at h with hz
    obtain ⟨hp, hg⟩ := guard_self (not_not.1 hz) h
    exact ⟨hp, ipGuard_toStr hp hg⟩
  · cases h

theorem canonIP_toStr {g : Addr} (hp : g.Plain) : Store.canonIP g.toStr = some g.toStr := by
  rw [Store.canonIP, Addr.parseAddr_toStr hp.2, Option.map_some, Addr.unmap_of_plain hp]

/-! ## Primaries -/

theorem canonMaster_self {raw c : Str} (h : canonMaster raw = .ok c) : canonMaster c = .ok c := by
  unfold canonMaster at h
  dsimp only at h
  split at h
  · next a ha =>
    obtain ⟨-, hz⟩ := Option.filter_eq_some_iff.1 ha
    obtain ⟨g, hg, rfl⟩ := Except.map_eq_ok.1 h
    obtain ⟨hp, hg⟩ := guard_self (by simpa using hz) hg
    rw [canonMaster, trimSpace_of_printable (Addr.printable_toStr hp), Addr.parseAddr_toStr hp.2]
    simp [Option.filter, hp.1, hg, Except.map]
  · split at h
    · cases h
    · next a port hap =>
      split_ifs at h with hport
      obtain ⟨hparse, hz⟩ := Option.filter_eq_some_iff.1 hap
      obtain ⟨g, hg, rfl⟩ := Except.map_eq_ok.1 h
      obtain ⟨hp, hg⟩ := guard_self (by simpa using hz) hg
      have hback := Addr.parseAddrPort_toStrPort hp (Addr.port_le hparse)
      rw [canonMaster, trimSpace_of_printable (Addr.printable_toStrPort hp port),
        Addr.parseAddr_of_parseAddrPort hback, hback]
      simp [Option.filter, hp.1, hg, hport, Except.map]

theorem mastersLoop_spec {raws : List Str} :
    ∀ {out ms : List Str}, mastersLoop out raws = .ok ms → out.Nodup →
    ∃ cs, ms = out ++ cs ∧ ms.Nodup ∧ List.Forall₂ (fun raw c => canonMaster raw = .ok c)
      raws cs := by
  induction raws with
  | nil =>
    intro out ms h hout
    cases h
    exact ⟨[], by simp, hout, .nil⟩
  | cons raw raws ih =>
    intro out ms h hout
    obtain ⟨c, hc, h⟩ := Except.bind_eq_ok.1 h
    split_ifs at h with hmem
    obtain ⟨cs, rfl, hnd, hcs⟩ := ih h (by
      rw [List.nodup_append]
      refine ⟨hout, by simp, ?_⟩
      rintro a ha b hb rfl
      rw [List.mem_singleton.1 hb] at ha
      exact hmem ha)
    exact ⟨c :: cs, by simp, hnd, .cons hc hcs⟩

theorem masters_spec {raws ms : List Str} (h : masters raws = .ok ms) :
    raws.length ≤ maxMasters ∧ ms.Nodup ∧
    List.Forall₂ (fun raw c => canonMaster raw = .ok c) raws ms := by
  unfold masters at h
  split_ifs at h with hlen
  obtain ⟨cs, rfl, hnd, hcs⟩ := mastersLoop_spec h List.nodup_nil
  exact ⟨by omega, hnd, hcs⟩

theorem mastersLoop_canonical {cs : List Str} : ∀ {out : List Str}, (out ++ cs).Nodup →
    (∀ c ∈ cs, canonMaster c = .ok c) → mastersLoop out cs = .ok (out ++ cs) := by
  induction cs with
  | nil =>
    intro out _ _
    simp [mastersLoop]
  | cons c cs ih =>
    intro out hnd hcs
    have hc : c ∉ out := fun hmem => by
      rw [List.nodup_append] at hnd
      exact hnd.2.2 c hmem c (by simp) rfl
    rw [mastersLoop, hcs c (by simp)]
    simp only [bind, Except.bind, if_neg hc]
    rw [ih (by simpa using hnd) fun c' hc' => hcs c' (List.mem_cons_of_mem _ hc')]
    simp

/-- **Accepted primaries are accepted unchanged.** -/
theorem masters_self {raws ms : List Str} (h : masters raws = .ok ms) : masters ms = .ok ms := by
  obtain ⟨hlen, hnd, hcs⟩ := masters_spec h
  have hself (c : Str) (hc : c ∈ ms) : canonMaster c = .ok c := by
    obtain ⟨raw, -, hraw⟩ := forall₂_mem_right hcs hc
    exact canonMaster_self hraw
  have hloop : mastersLoop [] ms = .ok ([] ++ ms) :=
    mastersLoop_canonical (by simpa using hnd) hself
  rw [masters, if_neg (by rw [← hcs.length_eq]; omega)]
  simpa using hloop

end TangraDns.Validate
