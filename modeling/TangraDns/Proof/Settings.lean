/-
  What validation accepts, and that it accepts what it returns.
-/
import TangraDns.Data.Except
import TangraDns.Dnsconf.Model
import TangraDns.Net.Value

namespace TangraDns.Dnsconf

open List Str

variable {U : CaseTables} {s v : Str} {vs : List Str} {a : Addr}
variable {field : Str} {f : Str → Except Str Str} {P : Str → Prop}

/-! ## Entries -/

def IsListen (v : Str) : Prop := ∃ a : Addr, a.Plain ∧ v = a.toStr

def IsNetwork (v : Str) : Prop := ∃ (a : Addr) (n : ℕ), a.zone = [] ∧ n ≤ a.width ∧
    v = Addr.toStrPrefix (a.masked n) n

def IsUpstream (v : Str) : Prop := ∃ a : Addr, a.Plain ∧ resolver a = true ∧
  (v = a.toStr ∨ ∃ p, p ≠ 0 ∧ p ≤ 65535 ∧ v = Addr.toStrPort a p)

theorem isListen_of_ok (h : listenAddr s = .ok v) : IsListen v := by
  unfold listenAddr at h
  split at h
  · cases h
  · next a ha =>
    cases h
    obtain ⟨-, hz⟩ := Option.filter_eq_some_iff.1 ha
    exact ⟨a.unmap, Addr.plain_unmap (Addr.zone_unmap (by simpa using hz)), rfl⟩

theorem IsListen.ok (h : IsListen v) : listenAddr (trimSpace v) = .ok v := by
  obtain ⟨a, ha, rfl⟩ := h
  rw [trimSpace_of_printable (Addr.printable_toStr ha), listenAddr, Addr.parseAddr_toStr ha.2]
  simp [Option.filter, ha.1, Addr.unmap_of_plain ha]

theorem isNetwork_of_ok (h : network s = .ok v) : IsNetwork v := by
  unfold network at h
  split_ifs at h
  · split at h
    · cases h
    · next a n hp =>
      cases h
      exact ⟨a, n, (Addr.parsePrefix_spec hp).1, Addr.width_of_parsePrefix hp, rfl⟩
  · split at h
    · cases h
    · next a ha =>
      cases h
      obtain ⟨-, hz⟩ := Option.filter_eq_some_iff.1 ha
      refine ⟨a.unmap, a.unmap.width, Addr.zone_unmap (by simpa using hz), le_rfl, ?_⟩
      rw [Addr.masked_width]
      rfl

theorem printable_toStrPrefix (hz : a.zone = []) (n : ℕ) :
    ∀ c ∈ Addr.toStrPrefix a n, 0x21 ≤ c ∧ c ≤ 0x7e := by
  intro c hc
  rcases Addr.mem_toStrPrefix hz n c hc with hc | rfl
  · exact hc.printable
  · decide

theorem IsNetwork.ok (h : IsNetwork v) : network (trimSpace v) = .ok v := by
  obtain ⟨a, n, hz, hn, rfl⟩ := h
  have hz' : (a.masked n).zone = [] := by rw [Addr.zone_masked, hz]
  have hslash : 47 ∈ Addr.toStrPrefix (a.masked n) n := by simp [Addr.toStrPrefix]
  rw [trimSpace_of_printable (printable_toStrPrefix hz' n), network, if_neg (not_not.2 hslash),
    Addr.parsePrefix_toStrPrefix hz' (by rwa [Addr.width_masked])]
  simp only [Addr.masked_masked]

theorem isUpstream_of_ok (h : upstream s = .ok v) : IsUpstream v := by
  have hplain {a : Addr} (hr : resolver a.unmap = true) : a.unmap.Plain := by
    refine Addr.plain_unmap ?_
    simp only [resolver, Bool.and_eq_true, beq_iff_eq] at hr
    exact hr.1.1.1.1.1
  unfold upstream at h
  split at h
  · next a p hp =>
    split_ifs at h with h0 hr
    cases h
    have hr : resolver a.unmap = true := by simpa using hr
    exact ⟨a.unmap, hplain hr, hr, .inr ⟨p, h0, Addr.port_le hp, rfl⟩⟩
  · split at h
    · cases h
    · next a _ =>
      split_ifs at h with hr
      cases h
      have hr : resolver a.unmap = true := by simpa using hr
      exact ⟨a.unmap, hplain hr, hr, .inl rfl⟩

theorem IsUpstream.ok (h : IsUpstream v) : upstream (trimSpace v) = .ok v := by
  obtain ⟨a, ha, hr, rfl | ⟨p, hp, hle, rfl⟩⟩ := h
  · have hparse := Addr.parseAddr_toStr ha.2
    have hport : Addr.parseAddrPort a.toStr = none := by
      cases hport : Addr.parseAddrPort a.toStr with
      | none => rfl
      | some q => rw [Addr.parseAddr_of_parseAddrPort hport] at hparse; cases hparse
    rw [trimSpace_of_printable (Addr.printable_toStr ha), upstream, hport, hparse]
    simp [Addr.unmap_of_plain ha, hr]
  · rw [trimSpace_of_printable (Addr.printable_toStrPort ha p), upstream,
      Addr.parseAddrPort_toStrPort ha hle]
    simp [Addr.unmap_of_plain ha, hr, hp]

/-! ## Lists -/

structure Listed (required : Bool) (P : Str → Prop) (vs : List Str) : Prop where
  length : vs.length ≤ maxList
  nonempty : required = true → vs ≠ []
  nodup : vs.Nodup
  entries : ∀ v ∈ vs, P v

theorem listLoop_spec (hf : ∀ s v, f s = .ok v → P v) :
    ∀ {rest : List Str} {i : ℕ} {out : List Str}, listLoop field f i out rest = .ok vs → out.Nodup →
      (∀ v ∈ out, P v) → vs.length = out.length + rest.length ∧ vs.Nodup ∧ ∀ v ∈ vs, P v
  | [], i, out, h, hnd, hout => by
    cases h
    exact ⟨rfl, hnd, hout⟩
  | raw :: rest, i, out, h, hnd, hout => by
    rw [listLoop] at h
    split at h
    · cases h
    · next v hv =>
      split_ifs at h with hmem
      have hout' : ∀ v' ∈ out ++ [v], P v' := by
        intro v' hv'
        rcases mem_append.1 hv' with hv' | hv'
        · exact hout v' hv'
        · rw [mem_singleton.1 hv']
          exact hf _ v hv
      have hnd' : (out ++ [v]).Nodup := nodup_append.2 ⟨hnd, nodup_singleton v, by
        rintro x hx y hy rfl
        exact hmem (mem_singleton.1 hy ▸ hx)⟩
      obtain ⟨hlen, hrest⟩ := listLoop_spec hf h hnd' hout'
      refine ⟨?_, hrest⟩
      rw [hlen, length_append, length_singleton, length_cons]
      omega

theorem listed_of_ok (hf : ∀ s v, f s = .ok v → P v)
    {required : Bool} {entries : List Str} (h : list field entries required f = .ok vs) :
    Listed required P vs := by
  unfold list at h
  split_ifs at h with hmax hreq
  obtain ⟨hlen, hnd, hP⟩ := listLoop_spec hf h nodup_nil (by simp)
  rw [length_nil, Nat.zero_add] at hlen
  refine ⟨by omega, fun hr hempty => hreq ⟨hr, ?_⟩, hnd, hP⟩
  rw [← hlen, hempty, length_nil]

theorem Listed.ok (hf : ∀ v, P v → f (trimSpace v) = .ok v) {required : Bool}
    (h : Listed required P vs) (field : Str) : list field vs required f = .ok vs := by
  have hloop : ∀ (rest : List Str) (i : ℕ) (out : List Str), (out ++ rest).Nodup →
      (∀ v ∈ rest, P v) →
      listLoop field f i out rest = .ok (out ++ rest) := by
    intro rest
    induction rest with
    | nil => intro i out _ _; rw [append_nil]; rfl
    | cons v rest ih =>
      intro i out hnd hP
      have hmem : v ∉ out := fun hv => (nodup_append.1 hnd).2.2 v hv v (by simp) rfl
      rw [listLoop, hf v (hP v (by simp))]
      simp only [if_neg hmem]
      rw [ih (i + 1) (out ++ [v]) (by simpa using hnd) fun v' hv' => hP v' (mem_cons_of_mem _ hv')]
      simp
  have hreq : ¬ (required = true ∧ vs.length = 0) := fun hr =>
    h.nonempty hr.1 (length_eq_zero_iff.1 hr.2)
  rw [list, if_neg (not_lt.2 h.length), if_neg hreq, hloop vs 0 [] h.nodup h.entries, nil_append]

/-! ## Models -/

structure Checked (m : Model) : Prop where
  listen : Listed true IsListen m.recursor.listenAddresses
  port : 1 ≤ m.recursor.port ∧ m.recursor.port ≤ 65535
  networks : Listed false IsNetwork m.recursor.allowedNetworks
  confirmed : m.recursor.allowOpenResolver = true ∨
    ∀ v ∈ m.recursor.allowedNetworks, isOpen v = false
  upstreams : Listed false IsUpstream m.recursor.upstreamResolvers
  mode : m.recursor.dnssecValidation ∈ modes
  authListen : Listed true IsListen m.authoritative.listenAddresses
  authPort : 1 ≤ m.authoritative.port ∧ m.authoritative.port ≤ 65535
  peers : Listed false IsNetwork m.authoritative.transferPeers

theorem port_eq_ok {p q : ℤ} : port field p = .ok q ↔ q = p ∧ 1 ≤ p ∧ p ≤ 65535 := by
  unfold port
  split_ifs with h
  · simp
    omega
  · simp only [Except.ok.injEq, eq_comm (a := p)]
    omega

theorem checkOpen_eq_ok {allowed : Bool} : ∀ {vs : List Str} {i : ℕ},
    checkOpen allowed i vs = .ok () ↔ allowed = true ∨ ∀ v ∈ vs, isOpen v = false
  | [], i => by simp [checkOpen]
  | v :: vs, i => by
    rw [checkOpen]
    cases hv : isOpen v <;> cases allowed <;> simp [hv, checkOpen_eq_ok]

theorem mode_of_ok {x : Str} (h : Dnsconf.mode U x = .ok v) : v ∈ modes := by
  unfold Dnsconf.mode at h
  split_ifs at h with hm
  cases h
  exact hm

theorem mode_self (h : v ∈ modes) : Dnsconf.mode U v = .ok v := by
  have hmodes : ∀ v ∈ modes, (∀ b ∈ v, 0x21 ≤ b ∧ b ≤ 0x7e) ∧ ∀ b ∈ v, b < 0x80 ∧
      isUpper b = false := by
    simp [modes, str, isUpper]
  obtain ⟨hprint, hlower⟩ := hmodes v h
  have hself : toLower U (trimSpace v) = v := by
    rw [trimSpace_of_printable hprint, toLower_of_isLowerStr U hlower]
  rw [Dnsconf.mode, hself, if_pos h]

theorem Model.checked {m out : Model} (h : m.canonical U = .ok out) :
    Checked out ∧ out.recursor.allowOpenResolver = m.recursor.allowOpenResolver := by
  simp only [Model.canonical, Except.bind_eq_ok, pure, Except.pure, Except.ok.injEq] at h
  obtain ⟨listen, hlisten, _, hport, networks, hnetworks, _, hopen, upstreams, hupstreams, dnssec,
      hdnssec, alisten,
    halisten, _, haport, peers, hpeers, rfl⟩ := h
  obtain ⟨rfl, hrange⟩ := port_eq_ok.1 hport
  obtain ⟨rfl, harange⟩ := port_eq_ok.1 haport
  exact ⟨
    { listen := listed_of_ok (fun _ _ => isListen_of_ok) hlisten
      port := hrange
      networks := listed_of_ok (fun _ _ => isNetwork_of_ok) hnetworks
      confirmed := checkOpen_eq_ok.1 hopen
      upstreams := listed_of_ok (fun _ _ => isUpstream_of_ok) hupstreams
      mode := mode_of_ok hdnssec
      authListen := listed_of_ok (fun _ _ => isListen_of_ok) halisten
      authPort := harange
      peers := listed_of_ok (fun _ _ => isNetwork_of_ok) hpeers }, rfl⟩

theorem Validated.checked (v : Validated U) : Checked v.model := by
  obtain ⟨out, m, h⟩ := v
  exact (Model.checked h).1

theorem Checked.canonical {m : Model} (h : Checked m) : m.canonical U = .ok m := by
  simp only [Model.canonical, Except.bind_eq_ok, pure, Except.pure, Except.ok.injEq]
  exact ⟨_, h.listen.ok (fun _ => IsListen.ok) _, _, port_eq_ok.2 ⟨rfl, h.port⟩, _,
    h.networks.ok (fun _ => IsNetwork.ok) _,
    (), checkOpen_eq_ok.2 h.confirmed, _, h.upstreams.ok (fun _ => IsUpstream.ok) _, _,
      mode_self h.mode, _,
    h.authListen.ok (fun _ => IsListen.ok) _, _, port_eq_ok.2 ⟨rfl, h.authPort⟩, _,
    h.peers.ok (fun _ => IsNetwork.ok) _, rfl⟩

end TangraDns.Dnsconf
