/-
  The addresses of other servers that the module lets PowerDNS talk to:
  primaries of zones (`Validate.masters`) and upstream resolvers of the server
  configuration (`Dnsconf.upstream`).
-/
import TangraDns.Dnsconf.Model
import TangraDns.Proof.Canonical

namespace TangraDns.Validate

open Str

variable {a : Addr} {s c : Str}

/-! ## Allowed addresses -/

/-- An address that another server may have. -/
structure Unicast (a : Addr) : Prop where
  loopback : a.isLoopback = false
  linkLocal : a.isLinkLocalUnicast = false
  multicast : a.isMulticast = false
  linkLocalMulticast : a.isLinkLocalMulticast = false
  interfaceLocalMulticast : a.isInterfaceLocalMulticast = false
  unspecified : a.isUnspecified = false
  broadcast : a ≠ Addr.broadcast

def Denotes (s : Str) (a : Addr) : Prop :=
  Addr.parseAddr s = some a ∨ ∃ p, Addr.parseAddrPort s = some (a, p)

/-- The canonical text of an address, alone or with a port from 1 to 65535. -/
inductive Primary (a : Addr) : Str → Prop
  | bare : Primary a a.toStr
  | port {p : ℕ} (hp : 1 ≤ p ∧ p ≤ 65535) : Primary a (Addr.toStrPort a p)

theorem guard_eq_ok {g : Addr} : guard a = .ok g ↔ g = a.unmap ∧ Unicast a.unmap := by
  unfold guard
  dsimp only
  split_ifs with h
  · simp only [false_iff, not_and]
    rintro - ⟨h1, h2, h3, h4, h5, h6, h7⟩
    simp only [h1, h2, h3, h4, h5, h6, Bool.or_false, Bool.false_or, beq_iff_eq] at h
    exact h7 h
  · simp only [Bool.or_eq_true, not_or, Bool.not_eq_true, beq_eq_false_iff_ne] at h
    obtain ⟨⟨⟨⟨⟨⟨h1, h2⟩, h3⟩, h4⟩, h5⟩, h6⟩, h7⟩ := h
    rw [Except.ok.injEq, eq_comm]
    exact ⟨fun hg => ⟨hg, h1, h2, h6, h3, h4, h5, h7⟩, And.left⟩

theorem Denotes.unique {b : Addr} (ha : Denotes s a) (hb : Denotes s b) : a = b := by
  rcases ha with ha | ⟨p, ha⟩ <;> rcases hb with hb | ⟨q, hb⟩
  · exact Option.some.inj (ha.symm.trans hb)
  · rw [Addr.parseAddr_of_parseAddrPort hb] at ha
    cases ha
  · rw [Addr.parseAddr_of_parseAddrPort ha] at hb
    cases hb
  · exact (Prod.mk.inj (Option.some.inj (ha.symm.trans hb))).1

theorem Primary.denotes (h : Primary a c) (ha : a.Plain) : Denotes c a := by
  cases h with
  | bare => exact .inl (Addr.parseAddr_toStr ha.2)
  | port hp => exact .inr ⟨_, Addr.parseAddrPort_toStrPort ha hp.2⟩

/-! ## Primaries -/

/-- The text denotes the address, and `c` is the canonical text of that address without mapping,
    with the same port if the text has one. -/
inductive Reads (s : Str) (a : Addr) : Str → Prop
  | bare (h : Addr.parseAddr s = some a) : Reads s a a.unmap.toStr
  | port {p : ℕ} (h : Addr.parseAddrPort s = some (a, p)) (hp : p ≠ 0) :
      Reads s a (Addr.toStrPort a.unmap p)

theorem Reads.denotes (h : Reads s a c) : Denotes s a := by
  cases h with
  | bare h => exact .inl h
  | port h _ => exact .inr ⟨_, h⟩

theorem Reads.primary (h : Reads s a c) : Primary a.unmap c := by
  cases h with
  | bare _ => exact .bare
  | port h hp => exact .port ⟨Nat.one_le_iff_ne_zero.2 hp, Addr.port_le h⟩

theorem canonMaster_eq_ok {raw : Str} :
    canonMaster raw = .ok c ↔ ∃ a, Reads (trimSpace raw) a c ∧ a.zone = [] ∧ Unicast a.unmap := by
  constructor
  · intro h
    unfold canonMaster at h
    dsimp only at h
    split at h
    · next a ha =>
      obtain ⟨ha, hz⟩ := Option.filter_eq_some_iff.1 ha
      obtain ⟨g, hg, rfl⟩ := Except.map_eq_ok.1 h
      obtain ⟨rfl, hu⟩ := guard_eq_ok.1 hg
      exact ⟨a, .bare ha, by simpa using hz, hu⟩
    · split at h
      · cases h
      · next a port hap =>
        split_ifs at h with hport
        obtain ⟨hparse, hz⟩ := Option.filter_eq_some_iff.1 hap
        obtain ⟨g, hg, rfl⟩ := Except.map_eq_ok.1 h
        obtain ⟨rfl, hu⟩ := guard_eq_ok.1 hg
        exact ⟨a, .port hparse hport, by simpa using hz, hu⟩
  · rintro ⟨a, hread, hz, hu⟩
    have hg : guard a = .ok a.unmap := guard_eq_ok.2 ⟨rfl, hu⟩
    cases hread with
    | bare h => simp [canonMaster, h, Option.filter, hz, hg, Except.map]
    | port h hp =>
      -- a text with a port does not parse as an address alone
      simp [canonMaster, Addr.parseAddr_of_parseAddrPort h, h, Option.filter, hz, hp,
        hg, Except.map]

/-- **Accepted primaries.**  There are as many as given, no two of them equal; each is the canonical
    text of the unmapped address of its input, alone or with a port; no text among them denotes an
    address that is not allowed; and they are accepted unchanged. -/
theorem masters_canonical (raws ms : List Str) (h : masters raws = .ok ms) :
    ms.length = raws.length ∧ ms.Nodup ∧
      List.Forall₂ (fun raw c => ∃ a, Denotes (trimSpace raw) a ∧ Unicast a.unmap ∧ a.unmap.Plain ∧
        Primary a.unmap c)
        raws ms ∧
      (∀ c ∈ ms, ∃ a, Denotes c a) ∧ (∀ c ∈ ms, ∀ a, Denotes c a → Unicast a.unmap) ∧
          masters ms = .ok ms := by
  obtain ⟨-, hnd, hcanon⟩ := masters_spec h
  have hdenotes (c : Str) (hc : c ∈ ms) : ∃ a : Addr, a.Plain ∧ Unicast a ∧ Denotes c a := by
    obtain ⟨raw, -, hraw⟩ := forall₂_mem_right hcanon hc
    obtain ⟨a, hread, hz, hu⟩ := canonMaster_eq_ok.1 hraw
    exact ⟨a.unmap, Addr.plain_unmap (Addr.zone_unmap hz), hu,
      hread.primary.denotes (Addr.plain_unmap (Addr.zone_unmap hz))⟩
  refine ⟨hcanon.length_eq.symm, hnd, hcanon.imp ?_, ?_, ?_, masters_self h⟩
  · rintro raw c hraw
    obtain ⟨a, hread, hz, hu⟩ := canonMaster_eq_ok.1 hraw
    exact ⟨a, hread.denotes, hu, Addr.plain_unmap (Addr.zone_unmap hz), hread.primary⟩
  · intro c hc
    obtain ⟨a, -, -, ha⟩ := hdenotes c hc
    exact ⟨a, ha⟩
  · intro c hc a ha
    obtain ⟨b, hplain, hu, hb⟩ := hdenotes c hc
    rw [ha.unique hb, Addr.unmap_of_plain hplain]
    exact hu

/-- Two primaries, one of them mapped and with a port. -/
theorem masters_canonical_sample :
    let raws := [str "[::ffff:192.0.2.1]:5300", str "2001:DB8::1"]
    let ms := [str "192.0.2.1:5300", str "2001:db8::1"]
    masters raws = .ok ms ∧ ms.length = raws.length ∧ masters ms = .ok ms := by
  have h : masters [str "[::ffff:192.0.2.1]:5300", str "2001:DB8::1"] =
      .ok [str "192.0.2.1:5300", str "2001:db8::1"] := by decide +kernel
  obtain ⟨hlen, -, -, -, -, hself⟩ := masters_canonical _ _ h
  exact ⟨h, hlen, hself⟩

/-! ## Upstream resolvers -/

open Dnsconf (resolver upstream)

theorem multicast_of_scope {g scope : UInt16} (hs : scope &&& 0xFF00 = 0xFF00)
    (h : g &&& 0xFF0F = scope) :
    g &&& 0xFF00 = 0xFF00 :=
  calc g &&& 0xFF00 = g &&& (0xFF0F &&& 0xFF00) := rfl
    _ = (g &&& 0xFF0F) &&& 0xFF00 := (UInt16.and_assoc ..).symm
    _ = 0xFF00 := by rw [h, hs]

theorem Unicast.of_multicast (hl : a.isLoopback = false) (hll : a.isLinkLocalUnicast = false)
    (hm : a.isMulticast = false) (hu : a.isUnspecified = false) (hb : a ≠ Addr.broadcast) :
    Unicast a := by
  refine ⟨hl, hll, hm, ?_, ?_, hu, hb⟩
  · cases a with
    | v4 ip =>
      simp only [Addr.isMulticast, beq_eq_false_iff_ne, Addr.isLinkLocalMulticast,
        Bool.and_eq_false_iff] at hm ⊢
      by_contra! h
      exact hm (by rw [h.1.1]; rfl)
    | v6 ip z =>
      simp only [Addr.isMulticast, beq_eq_false_iff_ne, Addr.isLinkLocalMulticast] at hm ⊢
      exact mt (multicast_of_scope (by decide)) hm
  · cases a with
    | v4 ip => rfl
    | v6 ip z =>
      simp only [Addr.isMulticast, beq_eq_false_iff_ne, Addr.isInterfaceLocalMulticast] at hm ⊢
      exact mt (multicast_of_scope (by decide)) hm

theorem resolver_iff : resolver a = true ↔ a.zone = [] ∧ Unicast a := by
  simp only [resolver, Bool.and_eq_true, Bool.not_eq_true', beq_iff_eq, bne_iff_ne]
  constructor
  · rintro ⟨⟨⟨⟨⟨hz, hu⟩, hm⟩, hl⟩, hll⟩, hb⟩
    exact ⟨hz, .of_multicast hl hll hm hu hb⟩
  · rintro ⟨hz, h⟩
    exact ⟨⟨⟨⟨⟨hz, h.unspecified⟩, h.multicast⟩, h.loopback⟩, h.linkLocal⟩, h.broadcast⟩

theorem upstream_eq_ok :
    upstream s = .ok c ↔ ∃ a, Reads s a c ∧ a.unmap.zone = [] ∧ Unicast a.unmap := by
  constructor
  · intro h
    unfold upstream at h
    split at h
    · next a p hap =>
      split_ifs at h with hp hr
      cases h
      exact ⟨a, .port hap hp, resolver_iff.1 (by simpa using hr)⟩
    · split at h
      · cases h
      · next a ha =>
        split_ifs at h with hr
        cases h
        exact ⟨a, .bare ha, resolver_iff.1 (by simpa using hr)⟩
  · rintro ⟨a, hread, hr⟩
    rw [← resolver_iff] at hr
    cases hread with
    | bare h =>
      have hport : Addr.parseAddrPort s = none := by
        cases hp : Addr.parseAddrPort s with
        | none => rfl
        | some ap => simp [Addr.parseAddr_of_parseAddrPort hp] at h
      simp [upstream, hport, h, hr]
    | port h hp => simp [upstream, h, hp, hr]

theorem masters_singleton : masters [s] = .ok [c] ↔ canonMaster s = .ok c := by
  simp only [masters, maxMasters, List.length_singleton, mastersLoop]
  cases canonMaster s with
  | error e => simp [bind, Except.bind]
  | ok c' => simp [bind, Except.bind]

/-- The text denotes an allowed IPv4 address, written as IPv6 address with a scope zone
    (`::ffff:a.b.c.d%zone`), alone or with a port other than 0. -/
def Smuggled (s : Str) : Prop :=
  ∃ ip zone, zone ≠ [] ∧ Addr.mapped ip = true ∧ Unicast (.v4 (Addr.low4 ip)) ∧
    (Addr.parseAddr s = some (.v6 ip zone) ∨ ∃ p, p ≠ 0 ∧
      Addr.parseAddrPort s = some (.v6 ip zone, p))

theorem zone_unmap_eq_nil :
    a.unmap.zone = [] ↔ a.zone = [] ∨ ∃ ip zone, a = .v6 ip zone ∧ zone ≠ [] ∧
    Addr.mapped ip = true := by
  cases a with
  | v4 ip => simp [Addr.unmap, Addr.zone]
  | v6 ip zone =>
    by_cases hm : Addr.mapped ip = true
    · simp only [Addr.unmap, if_pos hm, Addr.zone, true_iff, Addr.v6.injEq]
      by_cases hz : zone = []
      · exact .inl hz
      · exact .inr ⟨ip, zone, ⟨rfl, rfl⟩, hz, hm⟩
    · simp only [Addr.unmap, if_neg hm, Addr.zone, Addr.v6.injEq]
      constructor
      · exact .inl
      · rintro (h | ⟨_, _, ⟨rfl, rfl⟩, _, h⟩)
        exacts [h, absurd h hm]

/-- **The two checks of server addresses.**  Upstream resolvers and primaries are the same texts,
    with the same canonical form, except for IPv4 addresses written as IPv6 with a scope zone:
    `upstream` undoes the mapping before it looks for a scope zone, and so takes them. -/
theorem upstream_agrees_iff (s : Str) (hs : trimSpace s = s) :
    (∀ c, upstream s = .ok c ↔ masters [s] = .ok [c]) ↔ ¬ Smuggled s := by
  simp only [masters_singleton, canonMaster_eq_ok, upstream_eq_ok, hs]
  constructor
  · rintro h ⟨ip, zone, hzone, hm, hu, hparse⟩
    have hunmap : (Addr.v6 ip zone).unmap = .v4 (Addr.low4 ip) := by rw [Addr.unmap, if_pos hm]
    obtain ⟨c, hread⟩ : ∃ c, Reads s (.v6 ip zone) c := by
      rcases hparse with hparse | ⟨p, hp, hparse⟩
      exacts [⟨_, .bare hparse⟩, ⟨_, .port hparse hp⟩]
    obtain ⟨a, hread', hz, -⟩ := (h c).1 ⟨_, hread, by rw [hunmap]; rfl, by rwa [hunmap]⟩
    rw [hread'.denotes.unique hread.denotes] at hz
    exact hzone hz
  · intro h c
    constructor
    · rintro ⟨a, hread, hz, hu⟩
      rcases zone_unmap_eq_nil.1 hz with hz | ⟨ip, zone, rfl, hzone, hm⟩
      · exact ⟨a, hread, hz, hu⟩
      · rw [Addr.unmap, if_pos hm] at hu
        refine absurd ⟨ip, zone, hzone, hm, hu, ?_⟩ h
        cases hread with
        | bare h => exact .inl h
        | port h hp => exact .inr ⟨_, hp, h⟩
    · rintro ⟨a, hread, hz, hu⟩
      exact ⟨a, hread, zone_unmap_eq_nil.2 (.inl hz), hu⟩

/-- A text of both checks. -/
theorem upstream_agrees_iff_sample :
    trimSpace (str "[2001:DB8::1]:053") = str "[2001:DB8::1]:053" ∧
      ((∀ c, upstream (str "[2001:DB8::1]:053") = .ok c ↔
        masters [str "[2001:DB8::1]:053"] = .ok [c]) ↔
        ¬ Smuggled (str "[2001:DB8::1]:053")) := by
  have hs : trimSpace (str "[2001:DB8::1]:053") = str "[2001:DB8::1]:053" := by decide +kernel
  exact ⟨hs, upstream_agrees_iff _ hs⟩

/-- The resolver `8.8.8.8` with a mapping and a scope zone is an upstream resolver, and not a
    primary. -/
theorem upstream_scope_zone :
    trimSpace (str "::ffff:8.8.8.8%eth0") = str "::ffff:8.8.8.8%eth0" ∧
      upstream (str "::ffff:8.8.8.8%eth0") = .ok (str "8.8.8.8") ∧
      masters [str "::ffff:8.8.8.8%eth0"] = .error (.notIPPort (str "::ffff:8.8.8.8%eth0")) := by
  decide +kernel

end TangraDns.Validate
