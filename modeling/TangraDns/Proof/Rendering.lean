/-
  What validation accepts can be rendered.
-/
import TangraDns.Dnsconf.Service
import TangraDns.Proof.Settings
import TangraDns.Text.Lines

namespace TangraDns.Dnsconf

open Str Lines

variable {v : Str}

/-! ## The allow-list -/

theorem addrRE_of (hne : v ≠ []) (hlen : v.length ≤ 64)
    (hb : ∀ c ∈ v, Addr.TextByte c ∨ c = 47 ∨ c = 91 ∨ c = 93) : addrRE v = true := by
  have hpos : 1 ≤ v.length := List.length_pos_iff.2 hne
  have hall : v.all addrByte = true := by
    rw [List.all_eq_true]
    intro c hc
    have := hb c hc
    simp only [Addr.TextByte] at this
    simp only [addrByte, Bool.or_eq_true, Bool.and_eq_true, decide_eq_true_eq, beq_iff_eq]
    grind
  simp [addrRE, hpos, hlen, hall]

variable {a : Addr}

theorem addrRE_toStr (hz : a.zone = []) : addrRE a.toStr = true :=
  addrRE_of a.toStr_ne_nil ((Addr.length_toStr_le hz).trans (by decide))
    fun c hc => Or.inl (Addr.textByte_toStr hz c hc)

theorem addrRE_toStrPrefix (hz : a.zone = []) {n : ℕ} (hn : n ≤ 128) :
    addrRE (Addr.toStrPrefix a n) = true := by
  have hlen := Addr.length_toStr_le hz
  have hdigits : (Addr.itoa n).length ≤ 3 :=
    Addr.length_itoa_le (by decide) (lt_of_le_of_lt hn (by decide))
  refine addrRE_of (by simp [Addr.toStrPrefix]) ?_ fun c hc => ?_
  · rw [Addr.toStrPrefix, List.length_append, List.length_cons]
    omega
  · exact (Addr.mem_toStrPrefix hz n c hc).imp_right Or.inl

theorem addrRE_toStrPort (hz : a.zone = []) {port : ℕ} (hport : port ≤ 65535) :
    addrRE (Addr.toStrPort a port) = true := by
  have hlen := Addr.length_toStr_le hz
  have hdigits : (Addr.itoa port).length ≤ 5 :=
    Addr.length_itoa_le (by decide) (lt_of_le_of_lt hport (by decide))
  refine addrRE_of ?_ ?_ fun c hc => (Addr.mem_toStrPort hz port c hc).imp_right Or.inr
  · unfold Addr.toStrPort
    split_ifs <;> simp
  · unfold Addr.toStrPort
    split_ifs <;> simp only [List.length_append, List.length_cons, List.length_nil] <;> omega

/-! ## Validated values -/

theorem IsListen.safe (h : IsListen v) : addrRE v = true := by
  obtain ⟨a, ha, rfl⟩ := h
  exact addrRE_toStr ha.1

theorem IsNetwork.safe (h : IsNetwork v) : addrRE v = true := by
  obtain ⟨a, n, hz, hn, rfl⟩ := h
  exact addrRE_toStrPrefix (by rw [Addr.zone_masked, hz]) (hn.trans a.width_le)

theorem IsUpstream.safe (h : IsUpstream v) : addrRE v = true := by
  obtain ⟨a, ha, -, rfl | ⟨p, -, hp, rfl⟩⟩ := h
  · exact addrRE_toStr ha.1
  · exact addrRE_toStrPort ha.1 hp

structure Safe (m : Model) : Prop where
  listen : ∀ v ∈ m.recursor.listenAddresses, addrRE v = true
  networks : ∀ v ∈ m.recursor.allowedNetworks, addrRE v = true
  upstreams : ∀ v ∈ m.recursor.upstreamResolvers, addrRE v = true
  mode : modeRE m.recursor.dnssecValidation = true
  authListen : ∀ v ∈ m.authoritative.listenAddresses, addrRE v = true
  peers : ∀ v ∈ m.authoritative.transferPeers, addrRE v = true

variable {U : CaseTables}

theorem Checked.safe {m : Model} (h : Checked m) : Safe m where
  listen v hv := (h.listen.entries v hv).safe
  networks v hv := (h.networks.entries v hv).safe
  upstreams v hv := (h.upstreams.entries v hv).safe
  mode := decide_eq_true h.mode
  authListen v hv := (h.authListen.entries v hv).safe
  peers v hv := (h.peers.entries v hv).safe

/-! ## The layout of the files -/

structure RecursorSettings where
  listenAddresses : List Str
  port : ℤ
  allowedNetworks : List Str
  upstreamResolvers : List Str
  dnssecValidation : Str
deriving DecidableEq, Repr

def Recursor.settings (r : Recursor) : RecursorSettings :=
  ⟨r.listenAddresses, r.port, r.allowedNetworks, r.upstreamResolvers, r.dnssecValidation⟩

def headerLine : Str := header.dropLast

def quotedItems (lead : Str) (vs : List Str) : List Str := vs.map fun v => lead ++ quote v

def recursorLines (r : RecursorSettings) : List Str :=
  [headerLine, str "incoming:", str "  listen:"] ++ (quotedItems (str "    - ") r.listenAddresses ++
    (str "  port: " ++ Addr.itoa r.port.toNat) ::
      ((if r.allowedNetworks = [] then [] else str "  allow_from:" ::
        quotedItems (str "    - ") r.allowedNetworks) ++
        str "dnssec:" :: (str "  validation: " ++ quote r.dnssecValidation) ::
          if r.upstreamResolvers = [] then []
          else [str "recursor:", str "  forward_zones_recurse:", str "    - zone: \".\"",
            str "      forwarders:"] ++
            quotedItems (str "        - ") r.upstreamResolvers))

def authLines (a : Authoritative) : List Str :=
  [headerLine, str "local-address=" ++ (str ", ").intercalate a.listenAddresses,
    str "local-port=" ++ Addr.itoa a.port.toNat] ++
    if a.transferPeers = [] then [] else [str "allow-axfr-ips=" ++
      (str ", ").intercalate a.transferPeers]

/-! ## Writing -/

namespace Writer

variable {w : Writer} {lead : Str} {vs : List Str}
variable {vs : List Str}

@[simp] theorem err_line (w : Writer) (s : Str) : (w.line s).err = w.err := rfl

theorem err_item {v : Str} {re : Str → Bool} (hv : re v = true) :
    (w.item lead v re).err = w.err := by
  simp [item, quoted, hv]

theorem err_items (hvs : ∀ v ∈ vs, addrRE v = true) : (w.items lead vs).err = w.err := by
  induction vs generalizing w with
  | nil => rfl
  | cons v vs ih =>
    rw [items, List.foldl_cons]
    exact (ih fun v hv => hvs v (List.mem_cons_of_mem _ hv)).trans (err_item (hvs v (by simp)))

theorem foldl_safe (hvs : ∀ v ∈ vs, addrRE v = true) :
    vs.foldl (fun w v => if addrRE v then w else w.refuse v) w = w := by
  induction vs with
  | nil => rfl
  | cons v vs ih =>
    rw [List.foldl_cons, if_pos (hvs v (by simp))]
    exact ih fun v hv => hvs v (List.mem_cons_of_mem _ hv)

theorem err_setting (hvs : ∀ v ∈ vs, addrRE v = true) : (w.setting lead vs).err = w.err := by
  rw [setting, err_line, bare, foldl_safe hvs]

theorem result_of_err (h : w.err = none) : w.result = .ok w.text := by rw [result, h]

theorem text_line (s : Str) : (w.line s).text = w.text ++ unlines [s] := by simp [line]

theorem text_item {v : Str} {re : Str → Bool} (hv : re v = true) :
    (w.item lead v re).text = w.text ++ unlines [lead ++ quote v] := by
  simp [item, quoted, hv, line, quote]

theorem text_items (hvs : ∀ v ∈ vs, addrRE v = true) :
    (w.items lead vs).text = w.text ++ unlines (quotedItems lead vs) := by
  induction vs generalizing w with
  | nil => simp [items, quotedItems]
  | cons v vs ih =>
    rw [items, List.foldl_cons]
    refine (ih fun v hv => hvs v (List.mem_cons_of_mem _ hv)).trans ?_
    rw [text_item (hvs v List.mem_cons_self)]
    simp [quotedItems]

theorem text_setting (hvs : ∀ v ∈ vs, addrRE v = true) :
    (w.setting lead vs).text = w.text ++ unlines [lead ++ (str ", ").intercalate vs] := by
  have hfold : vs.foldl (fun w v => if addrRE v then w else w.refuse v) w = w := foldl_safe hvs
  simp [setting, bare, hfold, line]

theorem text_new : Writer.new.text = unlines [headerLine] := rfl

end Writer

open Writer

theorem renderRecursorYAML_eq (v : Validated U) :
    renderRecursorYAML v = .ok (unlines (recursorLines v.model.recursor.settings)) := by
  have hs := v.checked.safe
  refine (result_of_err ?_).trans (congrArg Except.ok ?_)
  · split_ifs <;>
      simp [err_items hs.listen, err_items hs.networks, err_items hs.upstreams,
        err_item hs.mode, Writer.new]
  · unfold recursorLines Recursor.settings
    by_cases hn : v.model.recursor.allowedNetworks = [] <;> by_cases hu :
      v.model.recursor.upstreamResolvers = [] <;>
      simp [hn, hu, text_items hs.listen, text_items hs.networks, text_items hs.upstreams,
        text_item hs.mode, text_line,
        text_new]

theorem renderAuthConf_eq (v : Validated U) :
    renderAuthConf v = .ok (unlines (authLines v.model.authoritative)) := by
  have hs := v.checked.safe
  refine (result_of_err ?_).trans (congrArg Except.ok ?_)
  · split_ifs <;> simp [err_setting hs.authListen, err_setting hs.peers, Writer.new]
  · unfold authLines
    by_cases hp : v.model.authoritative.transferPeers = [] <;>
      simp [hp, text_setting hs.authListen, text_setting hs.peers, text_line, text_new]

def content (d : Deps) (s : Server) (v : Validated d.cases) : Str := (render d s v).toOption.getD []

/-- **Both files of a validated model can be rendered.** -/
theorem render_eq (d : Deps) (s : Server) (v : Validated d.cases) :
    render d s v = .ok (content d s v) := by
  have hok : ∃ text, render d s v = .ok text := by
    cases s with
    | recursor => exact ⟨_, renderRecursorYAML_eq v⟩
    | authoritative => exact ⟨_, renderAuthConf_eq v⟩
  obtain ⟨text, h⟩ := hok
  rw [content, h]
  rfl

end TangraDns.Dnsconf
