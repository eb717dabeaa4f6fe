/-
  Backup documents as JSON texts: which texts `Parse` accepts (`parse_oneValue_iff`)
  and which exports fit in the body of an import request (`import_fits_iff`).
-/
import Mathlib.Algebra.Order.BigOperators.Group.List
import TangraDns.BackupText
import TangraDns.Proof.Exec

namespace TangraDns.Backup

open List Str

variable {C : Config} {decode : Str → Option Document} {raw rest : Str} {b : Document}

/-! ## Parsing -/

/-- The text of a value is that of a document that can be imported. -/
def Acceptable (C : Config) (decode : Str → Option Document) (value : Str) : Prop :=
  ∃ b, decode value = some b ∧ validate C b = .ok ()

/-- The first byte that is not white space is a closing bracket or brace. -/
def Closes (rest : Str) : Prop := ∃ c t, Json.skip rest = c :: t ∧ (c = 93 ∨ c = 125)

theorem parse_eq_ok : parse C decode raw = .ok b ↔
    ∃ value rest, Json.next raw = some (value, rest) ∧ decode value = some b ∧ more rest = false ∧
      validate C b = .ok () := by
  unfold parse
  cases hnext : Json.next raw with
  | none => simp
  | some p =>
    obtain ⟨value, rest⟩ := p
    cases hdec : decode value with
    | none => simp [hdec]
    | some b' =>
      cases hmore : more rest with
      | true => simp [hdec, hmore]
      | false =>
        have hok : (do validate C b'; return b' : Except Err Document) = .ok b ↔
            validate C b' = .ok () ∧ b' = b := by
          cases validate C b' with
          | error e => simp [bind, Except.bind]
          | ok u => simp [bind, Except.bind, pure, Except.pure]
        simp only [hdec, hmore, Bool.false_eq_true, if_false, hok, Option.some.injEq, Prod.mk.injEq]
        constructor
        · rintro ⟨hval, rfl⟩
          exact ⟨value, rest, ⟨rfl, rfl⟩, hdec, hmore, hval⟩
        · rintro ⟨_, _, ⟨rfl, rfl⟩, hdec', -, hval⟩
          rw [hdec] at hdec'
          cases hdec'
          exact ⟨hval, rfl⟩

theorem more_eq_false : more rest = false ↔ Json.White rest ∨ Closes rest := by
  unfold more Closes
  cases hskip : Json.skip rest with
  | nil =>
    have hwhite : Json.White rest := by
      obtain ⟨w, hw, hrest⟩ := Json.exists_skip rest
      rw [hrest, hskip, append_nil]
      exact hw
    simp [hwhite]
  | cons c t =>
    have hnot : ¬ Json.White rest := by
      intro hw
      rw [Json.skip, dropWhile_eq_nil_iff.2 hw] at hskip
      cases hskip
    simp [hnot]
    tauto

/-- **What `Parse` accepts is one JSON value**, but for a document followed by a closing bracket:
    the decoder takes the bracket for the end of an array or object that was never opened. -/
theorem parse_oneValue_iff (C : Config) (decode : Str → Option Document) (raw : Str) :
    (∀ b, parse C decode raw = .ok b → Json.OneValue raw) ↔
      ∀ value rest, Json.next raw = some (value, rest) → Acceptable C decode value →
        ¬ Closes rest := by
  constructor
  · rintro h value rest hnext ⟨b, hdec, hval⟩ hcloses
    have hone := h b (parse_eq_ok.2 ⟨value, rest, hnext, hdec,
      more_eq_false.2 (.inr hcloses), hval⟩)
    -- a text of one value has nothing but white space after what the decoder took
    obtain ⟨v, w, hnext', hw⟩ := Json.oneValue_iff.1 hone
    rw [hnext] at hnext'
    cases hnext'
    obtain ⟨c, t, hskip, -⟩ := hcloses
    rw [Json.skip, dropWhile_eq_nil_iff.2 hw] at hskip
    cases hskip
  · intro h b hparse
    obtain ⟨value, rest, hnext, hdec, hmore, hval⟩ := parse_eq_ok.1 hparse
    refine Json.oneValue_iff.2 ⟨value, rest, hnext, ?_⟩
    exact (more_eq_false.1 hmore).resolve_right (h value rest hnext ⟨b, hdec, hval⟩)

/-- A document with a bracket and any text after it is accepted. -/
theorem parse_bracket :
    ∃ (raw : Str) (b : Document), raw = str "\x7b\"schema_version\":1\x7d] anything" ∧
      (∀ decode, decode (str "\x7b\"schema_version\":1\x7d") = some b →
        parse .sample decode raw = .ok b) ∧
      ¬ Json.OneValue raw := by
  have hnext : Json.next (str "\x7b\"schema_version\":1\x7d] anything") =
      some (str "\x7b\"schema_version\":1\x7d", str "] anything") := rfl
  refine ⟨_, ⟨1, 0, [], [], [], []⟩, rfl, fun decode hdec => ?_, fun hone => ?_⟩
  · exact parse_eq_ok.2 ⟨_, _, hnext, hdec, rfl, rfl⟩
  · obtain ⟨v, w, hnext', hw⟩ := Json.oneValue_iff.1 hone
    rw [hnext] at hnext'
    cases hnext'
    exact absurd (hw 93 (by simp [str])) (by decide)

/-! ## What an export gives -/

open Prog Prog.Failing

variable {U : CaseTables} {texts : Str → Except PDNSErr Str} {w : World} {T : Str}

def keptTexts (texts : Str → Except PDNSErr Str) : ℕ → List Store.Zone → List Str
  | _, [] => []
  | budget, z :: zs =>
    match texts z.pdnsID with
    | .ok text =>
      if text.length ≤ budget then text :: keptTexts texts (budget - text.length) zs
      else [] :: keptTexts texts budget zs
    | .error _ => [] :: keptTexts texts budget zs

def document (U : CaseTables) (texts : Str → Except PDNSErr Str) (w : World) (T : Str) : Document :=
  ⟨schemaVersion, w.times w.ticks, T,
    (w.store.zonesForTenant T).zipWith zoneRow
    (keptTexts texts maxBindBytes (w.store.zonesForTenant T)),
    w.store.tenantTemplates U T, w.store.tenantSupermasters T⟩

theorem exec_exportZones (zs : List Store.Zone) (budget : ℕ) :
    exec (answering U texts) (exportZones budget zs) w =
      (.ok (zs.zipWith zoneRow (keptTexts texts budget zs)), w) := by
  induction zs generalizing budget with
  | nil => rfl
  | cons z zs ih =>
    have hrest (b : ℕ) (text : Str) : exec (answering U texts) (do
        let rest ← exportZones b zs
        return zoneRow z text :: rest) w =
            (.ok (zoneRow z text :: zs.zipWith zoneRow (keptTexts texts b zs)), w) := by
      rw [exec_bind_ok (ih b)]
      rfl
    have hask : exec (answering U texts) (Act.attempt (Act.pdns (.exportZone z.pdnsID))) w =
        (.ok (Except.mapError Err.pdns (texts z.pdnsID)), w) := exec_attempt _
    rw [exportZones, exec_bind_ok hask, keptTexts]
    cases texts z.pdnsID with
    | error e => exact hrest _ _
    | ok text =>
      dsimp only [Except.mapError]
      split_ifs with hfit
      · exact hrest _ _
      · exact hrest _ _

theorem exec_export {subj : Subjects} {tenantID : Str} (hT : target C subj tenantID = .ok T) :
    (exec (answering U texts) (Backup.export C subj tenantID) w).1 =
      .ok (document U texts w T) := by
  rw [Backup.export, hT, exec_bind_ok rfl, exec_bind_ok rfl, exec_bind_ok rfl,
    exec_bind_ok (exec_exportZones _ _)]
  rfl

theorem length_keptTexts (texts : Str → Except PDNSErr Str) (budget : ℕ) (zs : List Store.Zone) :
    (keptTexts texts budget zs).length = zs.length := by
  induction zs generalizing budget with
  | nil => rfl
  | cons z zs ih =>
    rw [keptTexts]
    cases texts z.pdnsID with
    | error e => exact congrArg (· + 1) (ih budget)
    | ok text =>
      dsimp only
      split_ifs
      · exact congrArg (· + 1) (ih _)
      · exact congrArg (· + 1) (ih _)

/-! ## Sizes -/

variable (stamp : ℕ → Str)

/-- What the text of a zone takes in the document, with the name of its field. -/
def bindSize (text : Str) : ℕ := if text = [] then 0 else Json.textSize text + 10

/-- What the rows of a tenant take, without the texts of the zones. -/
def rowsSize (U : CaseTables) (S : Store) (T : Str) : ℕ :=
  ((S.zonesForTenant T).map fun z => (zoneTree stamp (zoneRow z [])).size).sum +
  ((S.tenantTemplates U T).map fun t => (templateTree stamp t).size).sum +
  ((S.tenantSupermasters T).map fun m => (supermasterTree stamp m).size).sum +
  (Json.commas (S.zonesForTenant T).length + Json.commas (S.tenantTemplates U T).length +
    Json.commas (S.tenantSupermasters T).length)

/-- What a request takes with a document without rows. -/
def emptySize (opts : Options) (now : ℕ) (T : Str) : ℕ :=
  (importRequest stamp opts ⟨schemaVersion, now, T, [], [], []⟩).size

theorem zoneTree_size (z : Store.Zone) (text : Str) :
    (zoneTree stamp (zoneRow z text)).size = (zoneTree stamp (zoneRow z [])).size +
      bindSize text := by
  have hfields : zoneFields stamp (zoneRow z text) = zoneFields stamp (zoneRow z []) := rfl
  have hpos : 0 < (zoneFields stamp (zoneRow z [])).length := by simp [zoneFields]
  have hbind : (zoneRow z text).bind = text := rfl
  have hnone : omitEmpty (str "bind") (zoneRow z []).bind = [] := rfl
  rw [zoneTree, zoneTree, hfields, hnone, hbind, Json.Tree.size, Json.Tree.size,
    Json.sizeFields_append, omitEmpty,
    bindSize]
  by_cases ht : text = []
  · rw [if_pos ht, if_pos ht]
    simp [Json.sizeFields]
  · have hlen : (str "bind").length = 4 := rfl
    rw [if_neg ht, if_neg ht]
    simp only [Json.sizeFields, Json.Tree.size, Json.commas, length_append, length_singleton,
      append_nil, hlen]
    omega

theorem zoneTrees_size (zs : List Store.Zone) (ts : List Str) (h : ts.length = zs.length) :
    ((zs.zipWith zoneRow ts).map fun row => (zoneTree stamp row).size).sum =
      (zs.map fun z => (zoneTree stamp (zoneRow z [])).size).sum + (ts.map bindSize).sum := by
  induction zs generalizing ts with
  | nil => rw [length_eq_zero_iff.1 h]; rfl
  | cons z zs ih =>
    obtain ⟨t, ts, rfl⟩ := exists_cons_of_length_eq_add_one h
    rw [zipWith_cons_cons, map_cons, map_cons, map_cons, sum_cons, sum_cons,
      sum_cons, ih ts (by simpa using h), zoneTree_size]
    omega

theorem length_request (opts : Options) :
    (importRequest stamp opts (document U texts w T)).render.length =
      emptySize stamp opts (w.times w.ticks) T + rowsSize stamp U w.store T +
        ((keptTexts texts maxBindBytes (w.store.zonesForTenant T)).map bindSize).sum := by
  have hzones := zoneTrees_size stamp (w.store.zonesForTenant T)
    _ (length_keptTexts texts maxBindBytes _)
  rw [Json.Tree.length_render]
  simp only [emptySize, rowsSize, importRequest, documentTree, document, Json.Tree.size,
    Json.sizeFields_append,
    Json.sizeFields, Json.sizeItems_map, length_append, length_map, length_zipWith,
      length_keptTexts,
    Nat.min_self, hzones, map_nil, length_nil, length_cons, Json.sizeItems, Json.commas]
  omega

/-! ## Whether an export fits -/

def growth (text : Str) : ℕ := Json.textSize text - text.length

/-- What escaping adds to the texts that PowerDNS serves for the zones. -/
def servedGrowth (texts : Str → Except PDNSErr Str) (zs : List Store.Zone) : ℕ :=
  (zs.map fun z => match texts z.pdnsID with
    | .ok text => growth text
    | .error _ => 0).sum

/-- The most that the texts of zones take if escaping adds `k` to them: the budget of the export,
    and the name of the field in every zone. -/
def textsMost (zones k : ℕ) : ℕ := if zones = 0 then 0 else maxBindBytes + k + 10 * zones

theorem bindSize_le (text : Str) : bindSize text ≤ text.length + growth text + 10 := by
  unfold bindSize growth
  split_ifs <;> omega

theorem keptTexts_le (texts : Str → Except PDNSErr Str) (budget : ℕ) (zs : List Store.Zone) :
    ((keptTexts texts budget zs).map bindSize).sum ≤ budget + servedGrowth texts zs + 10 *
      zs.length := by
  induction zs generalizing budget with
  | nil => exact Nat.zero_le _
  | cons z zs ih =>
    have hempty : bindSize [] = 0 := rfl
    rw [keptTexts, servedGrowth, map_cons, sum_cons, ← servedGrowth, length_cons]
    cases texts z.pdnsID with
    | error e =>
      have := ih budget
      simp only [map_cons, sum_cons, hempty]
      omega
    | ok text =>
      have hsize := bindSize_le text
      dsimp only
      split_ifs with hfit
      · have := ih (budget - text.length)
        rw [map_cons, sum_cons]
        omega
      · have := ih budget
        rw [map_cons, sum_cons, hempty]
        omega

theorem keptTexts_of_fits {text : Str → Str} (h : ∀ id, texts id = .ok (text id)) :
    ∀ {zs : List Store.Zone} {budget : ℕ}, (zs.map fun z => (text z.pdnsID).length).sum ≤ budget →
      keptTexts texts budget zs = zs.map fun z => text z.pdnsID
  | [], _, _ => rfl
  | z :: zs, budget, hfit => by
    rw [map_cons, sum_cons] at hfit
    rw [keptTexts, h]
    dsimp only
    rw [if_pos (by omega), keptTexts_of_fits h (by omega), map_cons]

/-- Texts that use the whole budget: the zone `id` has `k` quotes and fills it up with letters. -/
def worstText (id : Str) (k others : ℕ) (id' : Str) : Str :=
  if id' = id then List.replicate k 34 ++ List.replicate (maxBindBytes - others - k) 97 else [97]

theorem worstText_size (id : Str) (k others : ℕ) (hk : others + k < maxBindBytes) :
    (worstText id k others id).length = maxBindBytes - others ∧
      bindSize (worstText id k others id) = maxBindBytes - others + k + 10 := by
  have hascii : isASCII (worstText id k others id) = true := by
    rw [worstText, if_pos rfl, isASCII_iff]
    intro b hb
    rcases mem_append.1 hb with hb | hb <;> rw [eq_of_mem_replicate hb] <;> decide
  have hlen : (worstText id k others id).length = maxBindBytes - others := by
    rw [worstText, if_pos rfl, length_append, length_replicate, length_replicate]
    omega
  have h34 : Json.byteSize 34 = 2 := rfl
  have h97 : Json.byteSize 97 = 1 := rfl
  refine ⟨hlen, ?_⟩
  rw [bindSize, if_neg (ne_nil_of_length_pos (by omega)), Json.textSize_ascii hascii,
    worstText, if_pos rfl,
    map_append, map_replicate, map_replicate, sum_append, sum_replicate_nat,
      sum_replicate_nat, h34, h97]
  omega

theorem worstText_sums {z : Store.Zone} {zs : List Store.Zone} {k : ℕ}
    (hids : ∀ y ∈ zs, y.pdnsID ≠ z.pdnsID) (hk : zs.length + k < maxBindBytes) :
    let text := worstText z.pdnsID k zs.length
    (((z :: zs).map fun y => (text y.pdnsID).length).sum = maxBindBytes ∧
      ((z :: zs).map fun y => bindSize (text y.pdnsID)).sum = textsMost (zs.length + 1) k) ∧
      servedGrowth (fun id => .ok (text id)) (z :: zs) = k := by
  intro text
  have hrest {β : Type} (f : Str → β) :
      (zs.map fun y => f (text y.pdnsID)) = List.replicate zs.length (f [97]) :=
    eq_replicate_iff.2 ⟨length_map _, fun b hb => by
      obtain ⟨y, hy, rfl⟩ := List.mem_map.1 hb
      exact congrArg f (if_neg (hids y hy))⟩
  obtain ⟨hlen, hsize⟩ : (text z.pdnsID).length = _ ∧ bindSize (text z.pdnsID) = _ :=
    worstText_size z.pdnsID k zs.length hk
  have hone : bindSize [97] = 11 ∧ growth [97] = 0 := by decide
  have hgrowth : growth (text z.pdnsID) = k := by
    have hne : text z.pdnsID ≠ [] := ne_nil_of_length_pos (by rw [hlen]; omega)
    rw [bindSize, if_neg hne] at hsize
    rw [growth, hlen]
    omega
  rw [servedGrowth, map_cons, map_cons, map_cons, sum_cons, sum_cons, sum_cons]
  dsimp only
  rw [hrest length, hrest bindSize, hrest growth, hlen, hsize, hgrowth, hone.1, hone.2, textsMost,
    if_neg (by omega)]
  simp only [sum_replicate_nat, length_singleton]
  omega

theorem zonesForTenant_ids (S : Store) (T : Str) :
    (S.zonesForTenant T).Pairwise fun a b => b.pdnsID ≠ a.pdnsID := by
  have hrows : (S.zones.rows.filter fun z => z.tenantID == T).Pairwise fun a b =>
      b.pdnsID ≠ a.pdnsID := by
    refine (S.zones.noClash.sublist filter_sublist).imp fun {a b} h he => ?_
    simp [Keyed.clash, he] at h
  exact ((perm_insertionSort _ _).pairwise_iff fun h => h.symm).2 hrows

/-- **Which tenants' backups fit the import endpoint**, whatever their zones hold: the export of a
    tenant can be imported for all texts to which escaping adds at most `k` exactly if its rows, the
    field name of each text and `k` fit in what the 48 MiB of texts leave of the 64 MiB of a
    request. -/
theorem import_fits_iff (C : Config) (U : CaseTables) (w : World) (subj : Subjects)
    (tenantID T : Str)
    (hT : target C subj tenantID = .ok T) (hzones : (w.store.zonesForTenant T).length ≤ maxRows)
    (opts : Options) (k : ℕ) :
    (∀ texts, servedGrowth texts (w.store.zonesForTenant T) ≤ k →
      ∃ doc, (exec (answering U texts) (Backup.export C subj tenantID) w).1 = .ok doc ∧
        (importRequest stamp opts doc).render.length ≤ maxImportBytes) ↔
      emptySize stamp opts (w.times w.ticks) T + rowsSize stamp U w.store T +
        textsMost (w.store.zonesForTenant T).length k ≤ maxImportBytes := by
  have hids := zonesForTenant_ids w.store T
  constructor
  · intro h
    cases hzs : w.store.zonesForTenant T with
    | nil =>
      obtain ⟨doc, hdoc, hfit⟩ := h (fun _ => .error PDNS.Server.notFound)
        (by rw [hzs]; exact Nat.zero_le _)
      cases (exec_export hT).symm.trans hdoc
      rw [length_request, hzs] at hfit
      exact hfit
    | cons z zs =>
      rw [hzs] at hids hzones
      -- more quotes than this do not fit in any case
      obtain ⟨m, hm, hmk, hsat⟩ : ∃ m, m ≤ 2 ^ 25 ∧ m ≤ k ∧ (m < k → m = 2 ^ 25) :=
        ⟨min k (2 ^ 25), by omega, by omega, by omega⟩
      have hlt : zs.length + m < maxBindBytes := by
        rw [length_cons, maxRows] at hzones
        rw [maxBindBytes]
        omega
      obtain ⟨⟨hsum, hsize⟩, hgrowth⟩ := worstText_sums (pairwise_cons.1 hids).1 hlt
      obtain ⟨doc, hdoc, hfit⟩ := h _ (by rw [hzs, hgrowth]; exact hmk)
      cases (exec_export hT).symm.trans hdoc
      rw [length_request, hzs, keptTexts_of_fits (fun _ => rfl) hsum.le, map_map] at hfit
      rw [Function.comp_def, hsize, textsMost, if_neg (by omega), maxImportBytes] at hfit
      rw [length_cons, textsMost, if_neg (by omega), maxImportBytes]
      rw [maxBindBytes] at hfit ⊢
      omega
  · intro h texts hk
    refine ⟨_, exec_export hT, ?_⟩
    rw [length_request]
    refine le_trans (Nat.add_le_add_left ?_ _) h
    cases hzs : w.store.zonesForTenant T with
    | nil => exact le_rfl
    | cons z zs =>
      have := keptTexts_le texts maxBindBytes (z :: zs)
      rw [hzs] at hk
      rw [length_cons] at this ⊢
      rw [textsMost, if_neg (by omega)]
      omega

def plainZone (name : Str) : Store.Zone :=
  ⟨name, str "t", name, name, .native, [], false, [], [], .manual, [], [], 1, 1⟩

def zoneTrio : List Store.Zone := [plainZone (str "a.test."), plainZone (str "b.test."),
    plainZone (str "c.test.")]

theorem zoneTrio_apart : zoneTrio.Pairwise fun a b => Keyed.clash a b = false := by decide

def threeZones : World :=
  { World.empty with store := { World.empty.store with zones := ⟨zoneTrio, zoneTrio_apart⟩ } }

def tenantUser : Subjects := .user (str "t") (str "u") [str "tenant_admin"]

def bindLine (zone : Str) (n : ℕ) : Str :=
  110 :: Addr.itoa n ++ dot :: zone ++ str "\t300\tIN\tTXT\t" ++
    charString (List.replicate 255 34) ++ [10]

/-- A zone file of such lines. -/
def bindText (lines : ℕ) (zone : Str) : Str := (List.range lines).flatMap (bindLine zone)

/-- Three zones with two lines each, in a tenant whose rows leave room for 15 MiB of escapes. -/
theorem import_fits_three :
    servedGrowth (fun id => .ok (bindText 2 id)) zoneTrio = 3102 ∧
    ∃ doc, (exec (answering .ascii fun id => .ok (bindText 2 id))
      (Backup.export .sample tenantUser []) threeZones).1 =
      .ok doc ∧ (importRequest (fun _ => str "2026-01-01T00:00:00Z") ⟨[], [], false⟩
        doc).render.length ≤
        maxImportBytes := by
  have hzones : threeZones.store.zonesForTenant (str "t") = zoneTrio := by decide
  have hgrowth : servedGrowth (fun id => .ok (bindText 2 id)) zoneTrio = 3102 := by decide +kernel
  refine ⟨hgrowth, (import_fits_iff (fun _ => str "2026-01-01T00:00:00Z") .sample .ascii threeZones
    tenantUser []
    (str "t") rfl (by rw [hzones]; decide) ⟨[], [], false⟩ (15 * 2 ^ 20)).2 ?_ _ ?_⟩
  · decide +kernel
  · rw [hzones, hgrowth]
    decide

theorem bindText_ascii {zone : Str} (hz : isASCII zone = true) (lines : ℕ) :
    isASCII (bindText lines zone) = true := by
  have hfixed : ∀ b ∈ str "\t300\tIN\tTXT\t" ++ (charString (List.replicate 255 34) ++ [10]),
      b < 0x80 := by
    decide +kernel
  rw [isASCII_iff] at hz ⊢
  intro b hb
  obtain ⟨n, -, hb⟩ := mem_flatMap.1 hb
  rw [bindLine, append_assoc, append_assoc, append_assoc, cons_append, mem_cons,
    mem_append, mem_append,
    mem_cons] at hb
  rcases hb with rfl | hb | (rfl | hb) | hb
  · decide
  · have hdigit := Addr.mem_itoa b hb
    exact Std.lt_of_le_of_lt hdigit.2 (by decide)
  · decide
  · exact hz b hb
  · exact hfixed b hb

theorem bindText_size {zone : Str} {lines : ℕ} (hz : zone.length = 7) (hascii : isASCII zone = true)
    (hl : lines ≤ 10 ^ 5) :
    (bindText lines zone).length ≤ lines * 539 ∧ lines * 1024 ≤ Json.textSize
    (bindText lines zone) := by
  have hcontent : (charString (List.replicate 255 34)).length = 512 ∧
      ((charString (List.replicate 255 34)).map Json.byteSize).sum = 1024 := by decide +kernel
  have hfields : (str "\t300\tIN\tTXT\t").length = 12 := rfl
  constructor
  · rw [bindText, length_flatMap]
    refine (sum_le_card_nsmul _ 539 fun m hm => ?_).trans (by simp)
    obtain ⟨n, hn, rfl⟩ := List.mem_map.1 hm
    have := Addr.length_itoa_le (e := 5) (by decide) (lt_of_lt_of_le (mem_range.1 hn) hl)
    simp only [bindLine, length_append, length_cons, length_nil, hcontent.1, hfields, hz]
    omega
  · rw [Json.textSize_ascii (bindText_ascii hascii lines), bindText, map_flatMap, flatMap,
      sum_flatten, map_map]
    refine le_trans (by simp) (card_nsmul_le_sum _ 1024 fun m hm => ?_)
    obtain ⟨n, -, rfl⟩ := List.mem_map.1 hm
    simp only [Function.comp, bindLine, map_append, sum_append, hcontent.2]
    omega

/-- Three zones with twenty-nine thousand such lines each: the texts are within the budget, the
    request is not within its limit. -/
theorem import_too_long : ∃ doc : Document,
    (exec (answering .ascii fun id => .ok (bindText 29000 id)) (Backup.export .sample tenantUser [])
      threeZones).1 = .ok doc ∧
    doc.zones.map ZoneRow.bind = zoneTrio.map (fun z => bindText 29000 z.pdnsID) ∧
      ∀ stamp opts, maxImportBytes < (importRequest stamp opts doc).render.length := by
  have hzones : threeZones.store.zonesForTenant (str "t") = zoneTrio := by decide
  have hids : ∀ z ∈ zoneTrio, z.pdnsID.length = 7 ∧ isASCII z.pdnsID = true := by decide
  have hsize (z : Store.Zone) (hz : z ∈ zoneTrio) :=
    bindText_size (hids z hz).1 (hids z hz).2 (show 29000 ≤ 10 ^ 5 by decide)
  have hkept : keptTexts (fun id => .ok (bindText 29000 id)) maxBindBytes
      (threeZones.store.zonesForTenant (str "t")) =
      zoneTrio.map fun z => bindText 29000 z.pdnsID := by
    rw [hzones, keptTexts_of_fits (fun _ => rfl)]
    refine (sum_le_card_nsmul _ (29000 * 539) fun m hm => ?_).trans (by decide)
    obtain ⟨z, hz, rfl⟩ := List.mem_map.1 hm
    exact (hsize z hz).1
  refine ⟨_, exec_export (T := str "t") rfl, ?_, fun stamp opts => ?_⟩
  · rw [document, hkept, hzones]
    generalize bindText 29000 = text
    rfl
  · have hlow : 3 * (29000 * 1024) ≤ ((zoneTrio.map fun z => bindText 29000 z.pdnsID).map
        bindSize).sum := by
      rw [map_map]
      refine le_trans (by decide) (card_nsmul_le_sum _ (29000 * 1024) fun m hm => ?_)
      obtain ⟨z, hz, rfl⟩ := List.mem_map.1 hm
      have hlen := (hsize z hz).2
      rw [Function.comp, bindSize, if_neg]
      · omega
      · intro hnil
        rw [hnil] at hlen
        exact absurd hlen (by decide)
    rw [length_request, hkept, maxImportBytes]
    omega

end TangraDns.Backup
