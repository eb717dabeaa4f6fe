/-
  The rendered files, read back line by line.
-/
import TangraDns.Proof.Rendering

namespace TangraDns.Dnsconf

open List Str Lines

variable {U : CaseTables} {vs : List Str}

/-! ## Readers -/

def readPort (s : Str) : Option ℤ := (Addr.decimal s).map Int.ofNat

def readRecursor (ls : List Str) : Option (RecursorSettings × List Str) := do
  let ls ← line headerLine ls
  let ls ← line (str "incoming:") ls
  let ls ← line (str "  listen:") ls
  let (listen, ls) := items (str "    - ") ls
  let (port, ls) ← value (str "  port: ") readPort ls
  let (networks, ls) ← opt (str "  allow_from:") (fun ls => some (items (str "    - ") ls)) [] ls
  let ls ← line (str "dnssec:") ls
  let (mode, ls) ← value (str "  validation: ") unquote ls
  let (upstreams, ls) ← opt (str "recursor:") (fun ls => do
    let ls ← line (str "  forward_zones_recurse:") ls
    let ls ← line (str "    - zone: \".\"") ls
    let ls ← line (str "      forwarders:") ls
    return items (str "        - ") ls) [] ls
  return (⟨listen, port, networks, upstreams, mode⟩, ls)

def readAuth (ls : List Str) : Option (Authoritative × List Str) := do
  let ls ← line headerLine ls
  let (listen, ls) ← value (str "local-address=") (fun s => some (commas s)) ls
  let (port, ls) ← value (str "local-port=") readPort ls
  match ls with
  | [] => return (⟨listen, port, []⟩, [])
  | ls => do
    let (peers, ls) ← value (str "allow-axfr-ips=") (fun s => some (commas s)) ls
    return (⟨listen, port, peers⟩, ls)

/-! ## Reading the layout -/

theorem readPort_itoa {p : ℤ} (h : 1 ≤ p) : readPort (Addr.itoa p.toNat) = some p := by
  rw [readPort, Addr.decimal_itoa, Option.map_some]
  exact congrArg some (Int.toNat_of_nonneg (by omega))

theorem readRecursor_lines {r : RecursorSettings} (h : 1 ≤ r.port) :
    readRecursor (recursorLines r) = some (r, []) := by
  have hport (rest : List Str) : Stops (str "    - ")
      ((str "  port: " ++ Addr.itoa r.port.toNat) :: rest) := by
    rintro _ ⟨⟩ hpre
    cases isPrefixOf_iff_prefix.2 hpre
  have hdnssec (rest : List Str) : Stops (str "    - ") (str "dnssec:" :: rest) := by
    rintro _ ⟨⟩
    decide
  have hend : Stops (str "        - ") [] := nofun
  obtain ⟨listen, port, networks, upstreams, mode⟩ := r
  dsimp only at h hport
  unfold readRecursor recursorLines quotedItems
  simp only [cons_append, nil_append, line_cons, Option.bind_eq_bind, Option.bind_some,
    items_map (hport _),
    value_cons, readPort_itoa h, Option.map_some]
  have hallow (rest : List Str) : opt (str "  allow_from:")
      (fun ls => some (items (str "    - ") ls)) []
      ((if networks = [] then [] else str "  allow_from:" :: networks.map fun v =>
        str "    - " ++ quote v) ++
        str "dnssec:" :: rest) = some (networks, str "dnssec:" :: rest) := by
    split_ifs with hn
    · rw [hn, nil_append, opt_of_ne]
      exact fun h => absurd (Option.some.inj h) (by decide)
    · rw [cons_append, opt_cons, items_map (hdnssec rest)]
  simp only [hallow, Option.bind_some, line_cons, value_cons, unquote_quote, Option.map_some]
  split_ifs with hu
  · rw [hu, opt_of_ne _ _ (by decide)]
    rfl
  · have hitems : items (str "        - ") (upstreams.map fun v => str "        - " ++ quote v) =
        (upstreams, []) := by
      rw [← append_nil (upstreams.map _), items_map hend]
    simp only [opt_cons, line_cons, Option.bind_some, hitems]
    rfl

theorem readAuth_lines {a : Authoritative} (hport : 1 ≤ a.port) (hlisten : a.listenAddresses ≠ [])
    (hl : ∀ v ∈ a.listenAddresses, 44 ∉ v) (hp : ∀ v ∈ a.transferPeers, 44 ∉ v) :
    readAuth (authLines a) = some (a, []) := by
  unfold readAuth authLines
  simp only [cons_append, nil_append, line_cons, Option.bind_eq_bind, Option.bind_some, value_cons,
    readPort_itoa hport, Option.map_some, commas_intercalate hlisten hl]
  split_ifs with h
  · exact congrArg (fun peers => some ((⟨a.listenAddresses, a.port, peers⟩ : Authoritative), []))
      h.symm
  · simp only [value_cons, Option.map_some, Option.bind_some, commas_intercalate h hp]
    rfl

/-! ## Values stay on their lines -/

/-- A value without the bytes that end a line, a quoted value or an entry of a list. -/
def Tame (v : Str) : Prop := 10 ∉ v ∧ 34 ∉ v ∧ 44 ∉ v

theorem tame_of_addrRE {v : Str} (h : addrRE v = true) : Tame v := by
  simp only [addrRE, Bool.and_eq_true, all_eq_true] at h
  exact ⟨fun hb => absurd (h.2 10 hb) (by decide), fun hb => absurd (h.2 34 hb) (by decide),
    fun hb => absurd (h.2 44 hb) (by decide)⟩

theorem tame_of_modes {v : Str} (h : v ∈ modes) : Tame v := by
  have key : ∀ v ∈ modes, 10 ∉ v ∧ 34 ∉ v ∧ 44 ∉ v := by simp [modes, str]
  exact key v h

theorem newline_not_mem_itoa (n : ℕ) : 10 ∉ Addr.itoa n := fun h =>
    absurd (Addr.mem_itoa 10 h) (by decide)

theorem newline_not_mem_items {lead : Str} (hlead : 10 ∉ lead) (hvs : ∀ v ∈ vs, Tame v) :
    ∀ l ∈ quotedItems lead vs, 10 ∉ l := by
  intro l hl
  obtain ⟨v, hv, rfl⟩ := List.mem_map.1 hl
  simp [quote, hlead, (hvs v hv).1]

theorem newline_not_mem_commas (hvs : ∀ v ∈ vs, Tame v) : 10 ∉ (str ", ").intercalate vs := by
  intro h
  rcases mem_intercalate h with hb | ⟨v, hv, hb⟩
  · exact absurd hb (by decide)
  · exact (hvs v hv).1 hb

theorem newline_not_mem_recursorLines {m : Model} (h : Safe m) :
    ∀ l ∈ recursorLines m.recursor.settings, 10 ∉ l := by
  have hlisten := newline_not_mem_items (show 10 ∉ str "    - " by decide) fun v hv =>
    tame_of_addrRE (h.listen v hv)
  have hnetworks := newline_not_mem_items (show 10 ∉ str "    - " by decide) fun v hv =>
    tame_of_addrRE (h.networks v hv)
  have hupstreams := newline_not_mem_items (show 10 ∉ str "        - " by decide)
    fun v hv => tame_of_addrRE (h.upstreams v hv)
  have hport : 10 ∉ str "  port: " ++ Addr.itoa m.recursor.port.toNat := fun hb =>
    (mem_append.1 hb).elim (by decide) (newline_not_mem_itoa _)
  have hmode : 10 ∉ str "  validation: " ++ quote m.recursor.dnssecValidation := by
    have hv := (tame_of_modes (of_decide_eq_true h.mode)).1
    simp [quote, hv]
    decide
  have hfixed : ∀ l ∈ [headerLine, str "incoming:", str "  listen:"],
      10 ∉ l := by simp [headerLine, header, str]
  have hrec : ∀ l ∈ [str "recursor:", str "  forward_zones_recurse:", str "    - zone: \".\"",
      str "      forwarders:"],
      10 ∉ l := by simp [str]
  unfold recursorLines
  refine forall_mem_append.2 ⟨hfixed, forall_mem_append.2 ⟨hlisten, forall_mem_cons.2 ⟨hport,
    forall_mem_append.2 ⟨?_, forall_mem_cons.2 ⟨by decide, forall_mem_cons.2 ⟨hmode, ?_⟩⟩⟩⟩⟩⟩
  · split_ifs
    · exact forall_mem_nil _
    · exact forall_mem_cons.2 ⟨by decide, hnetworks⟩
  · split_ifs
    · exact forall_mem_nil _
    · exact forall_mem_append.2 ⟨hrec, hupstreams⟩

theorem newline_not_mem_authLines {m : Model} (h : Safe m) :
    ∀ l ∈ authLines m.authoritative, 10 ∉ l := by
  have hlist {vs : List Str} {lead : Str} (hlead : 10 ∉ lead) (hvs : ∀ v ∈ vs, addrRE v = true) :
      10 ∉ lead ++ (str ", ").intercalate vs := fun hb =>
    (mem_append.1 hb).elim hlead (newline_not_mem_commas fun v hv => tame_of_addrRE (hvs v hv))
  have hport : 10 ∉ str "local-port=" ++ Addr.itoa m.authoritative.port.toNat := fun hb =>
    (mem_append.1 hb).elim (by decide) (newline_not_mem_itoa _)
  unfold authLines
  refine forall_mem_append.2 ⟨forall_mem_cons.2 ⟨by simp [headerLine, header, str],
    forall_mem_cons.2
    ⟨hlist (by decide) h.authListen, forall_mem_cons.2 ⟨hport, forall_mem_nil _⟩⟩⟩, ?_⟩
  split_ifs
  · exact forall_mem_nil _
  · exact forall_mem_cons.2 ⟨hlist (by decide) h.peers, forall_mem_nil _⟩

/-! ## Files -/

def values (m : Model) : List Str :=
  m.recursor.listenAddresses ++ m.recursor.allowedNetworks ++ m.recursor.upstreamResolvers ++
    [m.recursor.dnssecValidation] ++ m.authoritative.listenAddresses ++
      m.authoritative.transferPeers

theorem Safe.tame {m : Model} (h : Safe m) : ∀ v ∈ values m, Tame v := by
  have haddr {vs : List Str} (hvs : ∀ v ∈ vs, addrRE v = true) : ∀ v ∈ vs, Tame v := fun v hv =>
    tame_of_addrRE (hvs v hv)
  have hmode : ∀ v ∈ [m.recursor.dnssecValidation], Tame v := by
    rintro v hv
    rw [mem_singleton.1 hv]
    exact tame_of_modes (of_decide_eq_true h.mode)
  simp only [values, forall_mem_append]
  exact ⟨⟨⟨⟨⟨haddr h.listen, haddr h.networks⟩, haddr h.upstreams⟩, hmode⟩, haddr h.authListen⟩,
    haddr h.peers⟩

theorem file_recursor (v : Validated U) :
    file readRecursor (unlines (recursorLines v.model.recursor.settings)) =
      some v.model.recursor.settings := by
  have hc := v.checked
  rw [file, lines_unlines (newline_not_mem_recursorLines hc.safe), Option.bind_some,
    readRecursor_lines hc.port.1]
  rfl

theorem file_auth (v : Validated U) :
    file readAuth (unlines (authLines v.model.authoritative)) = some v.model.authoritative := by
  have hc := v.checked
  have htame {vs : List Str} (hvs : ∀ v ∈ vs, addrRE v = true) : ∀ v ∈ vs, 44 ∉ v := fun v hv =>
    (tame_of_addrRE (hvs v hv)).2.2
  rw [file, lines_unlines (newline_not_mem_authLines hc.safe), Option.bind_some,
    readAuth_lines hc.authPort.1 (hc.authListen.nonempty rfl) (htame hc.safe.authListen)
      (htame hc.safe.peers)]
  rfl

theorem Validated.validate_self (v : Validated U) : ∃ v' :
    Validated U, v.model.validate U = .ok v' ∧ v'.model = v.model := by
  have hcan : v.model.canonical U = .ok v.model := v.checked.canonical
  unfold Model.validate
  split
  · next out h =>
    rw [hcan] at h
    cases h
    exact ⟨_, rfl, rfl⟩
  · next e h =>
    rw [hcan] at h
    cases h

/-- **What is validated is rendered and read back.** -/
theorem render_read (v : Validated U) :
    (∃ v' : Validated U, v.model.validate U = .ok v' ∧ v'.model = v.model) ∧
      (∃ text, renderRecursorYAML v = .ok text ∧
        lines text = some (recursorLines v.model.recursor.settings) ∧
        file readRecursor text = some v.model.recursor.settings) ∧
      (∃ text, renderAuthConf v = .ok text ∧ lines text = some (authLines v.model.authoritative) ∧
        file readAuth text = some v.model.authoritative) ∧
      (∀ x ∈ values v.model, Tame x) ∧
      ∀ v' : Validated U,
        (renderRecursorYAML v = renderRecursorYAML v' ↔ v.model.recursor.settings =
          v'.model.recursor.settings) ∧
          (renderAuthConf v = renderAuthConf v' ↔
            v.model.authoritative = v'.model.authoritative) := by
  have hs := v.checked.safe
  refine ⟨v.validate_self, ⟨_, renderRecursorYAML_eq v,
    lines_unlines (newline_not_mem_recursorLines hs), file_recursor v⟩,
    ⟨_, renderAuthConf_eq v, lines_unlines (newline_not_mem_authLines hs), file_auth v⟩, hs.tame,
      fun v' => ⟨?_, ?_⟩⟩
  · rw [renderRecursorYAML_eq, renderRecursorYAML_eq]
    refine ⟨fun h => ?_, fun h => by rw [h]⟩
    have hread := file_recursor v
    rw [Except.ok.inj h, file_recursor v'] at hread
    exact (Option.some.inj hread).symm
  · rw [renderAuthConf_eq, renderAuthConf_eq]
    refine ⟨fun h => ?_, fun h => by rw [h]⟩
    have hread := file_auth v
    rw [Except.ok.inj h, file_auth v'] at hread
    exact (Option.some.inj hread).symm

end TangraDns.Dnsconf
