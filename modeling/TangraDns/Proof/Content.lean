/-
  Validation accepts the record sets it has made.
-/
import TangraDns.Net.Printed
import TangraDns.Proof.RecordSet
import TangraDns.Proof.Scan
import TangraDns.Text.Trim

namespace TangraDns.Validate

open List Str

variable {E : Env} {l : Limits} {z : Str} {i : RecordSetInput} {existing : List PDNS.RRset}
  {rr : PDNS.RRset}
variable {n t v : Str}

/-! ## Names -/

theorem isLabelByte_of_labelOK {l : Str} {u : Bool} (h : labelOK l u = true) :
    l ≠ [] ∧ l.length ≤ 63 ∧ ∀ b ∈ l, isLabelByte b = true := by
  simp only [labelOK, Bool.and_eq_true, Bool.not_eq_true', Bool.or_eq_false_iff,
    isEmpty_eq_false_iff,
    decide_eq_false_iff_not, not_lt, all_eq_true, Bool.or_eq_true] at h
  obtain ⟨⟨⟨⟨hne, hlen⟩, -⟩, -⟩, hall⟩ := h
  refine ⟨hne, hlen, fun b hb => ?_⟩
  simp only [isLabelByte, Bool.or_eq_true, Bool.and_eq_true]
  rcases hall b hb with ((h | h) | h) | h
  · exact .inl (.inl (.inl (.inl h)))
  · exact .inl (.inl (.inl (.inr (by simpa using h))))
  · exact .inl (.inl (.inr h))
  · exact .inl (.inr h.1)

theorem Canonical.plainName (h : Canonical n)
    (hl : ∀ l ∈ labelsOf n, labelOK l true = true) : PlainName n := by
  obtain ⟨hne, hn, -⟩ := h.labelsOf_spec
  exact ⟨labelsOf n, hne, hn, h.length_le, fun l hm => isLabelByte_of_labelOK (hl l hm)⟩

theorem IsZone.plainName (h : IsZone z) : PlainName z := by
  refine h.1.plainName fun l hl => ?_
  obtain ⟨n, hn⟩ := mem_iff_getElem?.1 hl
  exact labelOK_true (h.2 (l, n) (mk_mem_zipIdx_iff_getElem?.2 hn))

theorem plainName_octets (h : PlainName n) : ∀ b ∈ n, isLabelByte b = true ∨ b = dot := by
  obtain ⟨ls, -, rfl, -, hls⟩ := h
  intro b hb
  rcases mem_append.1 hb with hb | hb
  · rcases mem_join hb with rfl | ⟨l, hl, hb⟩
    exacts [.inr rfl, .inl ((hls l hl).2.2 b hb)]
  · exact .inr (mem_singleton.1 hb)

/-! ## Accepted values -/

/-- The value of an editable type is scanned and parsed in the letter case and quoting of the type,
    after a plain owner name, and the rules of the type turn the record into `rr`. -/
structure Parsed (E : Env) (z t v : Str) (rr₀ rr : RR) : Prop where
  zone : PlainName z
  editable : t ∈ editableTypes
  scan : scan (prepare E t v) (quotedType t) = .ok ()
  parsed : E.newRR z t (prepare E t v) = some rr₀
  rules : semantic E rr₀ = .ok rr

theorem content_eq_ok {out : Str} (hz : PlainName z) (ht : t ∈ editableTypes) :
    content E t z v = .ok out ↔
      trimSpace v ≠ [] ∧ (trimSpace v).length ≤ maxContent ∧ hasDirective E (trimSpace v) = false ∧
        ∃ rr₀ rr, Parsed E z t (trimSpace v) rr₀ rr ∧ E.rdata rr = out ∧
          hasDirective E out = false := by
  unfold content
  dsimp only
  split_ifs with h1 h2 h3
  · simp [h1]
  · simp only [false_iff]
    rintro ⟨-, h, -⟩
    omega
  · simp [h3]
  rw [Except.bind_eq_ok]
  constructor
  · rintro ⟨⟨⟩, hscan, h⟩
    split at h
    · cases h
    next rr₀ hrr₀ =>
      obtain ⟨rr, hrr, h⟩ := Except.bind_eq_ok.1 h
      split_ifs at h with hd
      cases h
      exact ⟨h1, not_lt.1 h2, by simpa using h3, rr₀, rr,
        ⟨hz, ht, hscan, hrr₀, hrr⟩, rfl, by simpa using hd⟩
  · rintro ⟨-, -, -, rr₀, rr, ⟨-, -, hscan, hrr₀, hrr⟩, rfl, hd⟩
    refine ⟨(), hscan, ?_⟩
    simp only [hrr₀, hrr, bind, Except.bind, hd, Bool.false_eq_true, if_false]

/-! ## Text -/

theorem hasControl_charStrings (ss : List Str) : hasControl (charStrings ss) = false := by
  rw [hasControl, any_eq_false]
  intro b hb
  have := charStrings_printable ss b hb
  simp only [Bool.or_eq_true, decide_eq_true_eq, beq_iff_eq]
  grind

theorem scan_charStrings (ss : List Str) : scan (charStrings ss) true = .ok () := by
  rw [scan_eq_ok, scanLoop_true_iff]
  exact ⟨hasControl_charStrings ss, quoting_charStrings ⟨by decide, by decide⟩ ss⟩

theorem semantic_txt {z : Str} {rr : RR} (hz : PlainName z)
    (h : E.newRR z (str "TXT") v = some rr) : semantic E rr = .ok rr := by
  have ht := E.newRR_type _ _ _ _ hz (by decide) h
  cases rr with
  | txt ss => rfl
  | _ => exact absurd ht (by simp only [RR.type]; decide)

theorem prepare_txt (v : Str) : ∃ u, prepare E (str "TXT") v = 34 :: u := by
  rw [prepare, if_pos (.inl rfl)]
  split_ifs with h
  · obtain ⟨u, hu⟩ := h
    exact ⟨u, hu.symm⟩
  · exact ⟨_, rfl⟩

theorem content_txt {c : Str} (hz : PlainName z) (h : content E (str "TXT") z v = .ok c) :
    ∃ ss, TextStrings ss ∧ c = charStrings ss ∧ hasDirective E c = false := by
  obtain ⟨-, -, -, rr₀, rr, ⟨-, -, -, hrr₀, hrr⟩, rfl, hd⟩ := (content_eq_ok hz (by decide)).1 h
  obtain ⟨u, hu⟩ := prepare_txt (E := E) (trimSpace v)
  rw [hu] at hrr₀
  rw [semantic_txt hz hrr₀] at hrr
  cases hrr
  obtain ⟨ss, hss, hc⟩ := E.rdata_txt _ _ _ hz hrr₀
  exact ⟨ss, hss, hc, hd⟩

theorem trimSpace_charStrings {ss : List Str} (h : ss ≠ []) :
    trimSpace (charStrings ss) = charStrings ss :=
  trimSpace_of_ends (charStrings_ends h).1 (charStrings_ends h).2 (by decide) (by decide)

theorem content_charStrings (hz : PlainName z) {ss : List Str} (hss : TextStrings ss)
    (hd : hasDirective E (charStrings ss) = false) :
    content E (str "TXT") z (charStrings ss) =
      if maxContent < (charStrings ss).length then .error .tooLong else .ok (charStrings ss) := by
  obtain ⟨hhead, -⟩ := charStrings_ends hss.1
  obtain ⟨t, ht⟩ := head?_eq_some_iff.1 hhead
  obtain ⟨rr, hrr, hout⟩ := E.newRR_txt z ss hz hss
  have hne : charStrings ss ≠ [] := by rw [ht]; exact cons_ne_nil _ _
  have hprep : prepare E (str "TXT") (charStrings ss) = charStrings ss := by
    rw [prepare, if_pos (.inl rfl), if_pos ⟨t, ht.symm⟩]
  split_ifs with hlen
  · rw [content]
    dsimp only
    rw [trimSpace_charStrings hss.1, if_neg hne, if_pos hlen]
  · rw [content_eq_ok hz (by decide), trimSpace_charStrings hss.1]
    refine ⟨hne, not_lt.1 hlen, hd, rr, rr, ⟨hz, by decide, ?_, ?_, semantic_txt hz hrr⟩, hout, hd⟩
    · rw [hprep]
      exact scan_charStrings ss
    · rwa [hprep]

/-- **A text that was accepted is accepted unchanged, unless its printed form is too long.** -/
theorem content_txt_self (hz : PlainName z) {c : Str} (h : content E (str "TXT") z v = .ok c) :
    content E (str "TXT") z c = if maxContent < c.length then .error .tooLong else .ok c := by
  obtain ⟨ss, hss, rfl, hd⟩ := content_txt hz h
  exact content_charStrings hz hss hd

/-! ## Addresses and names -/

def SafeByte (b : UInt8) : Prop := (0x21 ≤ b ∧ b ≤ 0x7e) ∧ isUpper b = false ∧ b ∉ str "\";()\\@$"

def lowerTypes : List Str :=
  [str "A", str "AAAA", str "CNAME", str "NS", str "PTR", str "MX", str "SRV"]

theorem lowerTypes_plain : ∀ t ∈ lowerTypes, t ∈ editableTypes ∧ quotedType t = false ∧
    t ∉ [str "CAA", str "NAPTR"] ∧ ¬ (t = str "TXT" ∨ t = str "SPF") := by decide

theorem prepare_lower (ht : t ∈ lowerTypes) : prepare E t v = toLower E.cases v :=
  (if_neg (lowerTypes_plain t ht).2.2.2).trans (if_pos ht)

theorem scan_safe (hv : ∀ b ∈ v, b = 32 ∨ SafeByte b) : scan v false = .ok () := by
  have hbyte : ∀ b ∈ v, (0x20 ≤ b ∧ b ≤ 0x7e) ∧ b ∉ str "\";()\\@$" := by
    intro b hb
    rcases hv b hb with rfl | ⟨h, -, hbad⟩
    · decide
    · exact ⟨⟨by grind, h.2⟩, hbad⟩
  refine scan_eq_ok.2 ⟨?_, scanLoop_false_iff.2 ⟨fun hq => (hbyte 34 hq).2 (by decide),
    fun b hb => ?_⟩⟩
  · rw [hasControl, any_eq_false]
    intro b hb
    have := (hbyte b hb).1
    simp only [Bool.or_eq_true, decide_eq_true_eq, beq_iff_eq]
    grind
  · obtain ⟨⟨-, hle⟩, hbad⟩ := hbyte b hb
    exact ⟨fun hm => hbad (mem_special.2 (.inr hm)), by grind⟩

theorem hasDirective_eq_false (hascii : isASCII v = true) (hv : 36 ∉ v) :
    hasDirective E v = false := by
  have hdollar : 36 ∉ toLower E.cases v := by
    rw [toLower, if_pos hascii]
    intro hm
    obtain ⟨c, hc, hlow⟩ := List.mem_map.1 hm
    have hc36 : c = 36 := by
      unfold lowerByte at hlow
      split_ifs at hlow with hu
      · rw [isUpper, Bool.and_eq_true, decide_eq_true_eq, decide_eq_true_eq] at hu
        grind
      · exact hlow
    exact hv (hc36 ▸ hc)
  rw [hasDirective, any_eq_false]
  intro d hd hcon
  -- every directive begins with a dollar sign
  have hmem : ∀ d ∈ directives, 36 ∈ d := by decide
  obtain ⟨before, after, heq⟩ := of_decide_eq_true hcon
  exact hdollar (heq ▸ mem_append_left _ (mem_append_right _ (hmem d hd)))

theorem content_plain {rec : RR} (hz : PlainName z) (ht : t ∈ lowerTypes) (hne : v ≠ [])
    (htrim : trimSpace v = v) (hlen : v.length ≤ maxContent) (hv : ∀ b ∈ v, b = 32 ∨ SafeByte b)
    (hrr : E.newRR z t v = some rec) (hsem : semantic E rec = .ok rec)
    (hout : hasDirective E (E.rdata rec) = false) : content E t z v = .ok (E.rdata rec) := by
  obtain ⟨hed, hq, -⟩ := lowerTypes_plain t ht
  have hlow : IsLowerStr v := by
    intro b hb
    rcases hv b hb with rfl | ⟨h, hup, -⟩
    · decide
    · exact ⟨by have := h.2; grind, hup⟩
  have hdollar : 36 ∉ v := fun h => (hv 36 h).elim (by decide) fun h => h.2.2 (by decide)
  have hprep : prepare E t v = v := by rw [prepare_lower ht, toLower_of_isLowerStr _ hlow]
  rw [content_eq_ok hz hed, htrim]
  refine ⟨hne, hlen, hasDirective_eq_false hlow.isASCII hdollar, rec, rec,
    ⟨hz, hed, ?_, ?_, hsem⟩, rfl, hout⟩
  · rw [hprep, hq]
    exact scan_safe hv
  · rwa [hprep]

theorem content_safe {rec : RR} (hz : PlainName z) (ht : t ∈ lowerTypes) (hne : v ≠ [])
    (hlen : v.length ≤ maxContent) (hv : ∀ b ∈ v, SafeByte b) (hrr : E.newRR z t v = some rec)
    (hsem : semantic E rec = .ok rec) (hout : E.rdata rec = v) : content E t z v = .ok v := by
  have hascii : isASCII v = true := isASCII_iff.2 fun b hb => by have := (hv b hb).1.2; grind
  have hdir := hasDirective_eq_false (E := E) hascii fun h => (hv 36 h).2.2 (by decide)
  have h := content_plain hz ht hne (trimSpace_of_printable fun b hb => (hv b hb).1) hlen
    (fun b hb => .inr (hv b hb)) hrr hsem (by rwa [hout])
  rwa [hout] at h

theorem special_cases :
    ∀ b ∈ str "\";()\\@$", b = 34 ∨ b = 59 ∨ b = 40 ∨ b = 41 ∨ b = 92 ∨ b = 64 ∨ b = 36 := by
  decide +kernel

theorem safe_of_textByte {b : UInt8} (h : Addr.TextByte b) : SafeByte b := by
  refine ⟨h.printable, ?_, fun hb => ?_⟩
  · unfold Addr.TextByte at h
    simp only [isUpper, Bool.and_eq_false_iff, decide_eq_false_iff_not]
    grind
  · have := special_cases b hb
    unfold Addr.TextByte at h
    grind

/-! ## Sets of canonical values -/

def Fixed (E : Env) (t zone c : Str) : Prop :=
  ∀ z, canonicalZone E zone = .ok z →
    content E t z c = if maxContent < c.length then .error .tooLong else .ok c

def asValue (x : PDNS.Record) : RecordValue := ⟨x.content, x.disabled⟩

theorem canon_fixed {zone : Str} (hz : canonicalZone E zone = .ok z) {vs records : List PDNS.Record}
    (hvs : ∀ x ∈ vs, Fixed E t zone x.content) :
    List.Forall₂ (Canon E t z) (vs.map asValue) records ↔
      records = vs ∧ ∀ x ∈ vs, x.content.length ≤ maxContent := by
  induction vs generalizing records with
  | nil => simp
  | cons x vs ih =>
    have hx := hvs x (mem_cons_self ..) z hz
    have ih {rs : List PDNS.Record} := @ih rs fun y hy => hvs y (mem_cons_of_mem _ hy)
    rw [map_cons, forall₂_cons_left_iff]
    constructor
    · rintro ⟨r, rs, ⟨hc, hd⟩, hrest, rfl⟩
      rw [asValue, hx] at hc
      split_ifs at hc with hlen
      obtain ⟨rfl, hall⟩ := ih.1 hrest
      obtain ⟨c, d⟩ := r
      cases hc
      cases hd
      exact ⟨rfl, forall_mem_cons.2 ⟨not_lt.1 hlen, hall⟩⟩
    · rintro ⟨rfl, hall⟩
      obtain ⟨hlen, hall⟩ := forall_mem_cons.1 hall
      refine ⟨x, vs, ⟨?_, rfl⟩, ih.2 ⟨rfl, hall⟩, rfl⟩
      rw [asValue, hx, if_neg (not_lt.2 hlen)]

theorem editableType_of_upper {s : Str} (ht : t ∈ editableTypes)
    (h : toUpper E.cases (trimSpace s) = t) :
    editableType E s = .ok t := by
  have hed : editable E t = true := by
    rw [editable, toUpper_of_isUpperStr _ (editableTypes_upper t ht)]
    exact contains_iff_mem.2 ht
  have hsoa : t ≠ str "SOA" := by
    rintro rfl
    exact absurd ht (by decide)
  rw [editableType, h, if_neg hsoa, hed]
  rfl

/-- **A set of canonical values is written as it is,** if the TTL, the number of values and their
    length allow it. -/
theorem recordSet_fixed {zone : Str} {vs : List PDNS.Record} (ht : t ∈ editableTypes)
    (hne : t ≠ str "CNAME")
    (hname : recordName E zone i.name = .ok n) (htype : toUpper E.cases (trimSpace i.type) = t)
    (hex : ∀ e ∈ existing, exclusive E n t e = .ok ()) (hvs : ∀ x ∈ vs, Fixed E t zone x.content)
    (hnd : (vs.map PDNS.Record.content).Nodup)
    (hcomment : i.comment.length ≤ maxComment ∧ hasControl i.comment = false)
    (hi : i.values = vs.map asValue) :
    l.recordSet E zone i existing = .ok rr ↔
      (l.minTTL ≤ i.ttl ∧ i.ttl ≤ l.maxTTL) ∧ (vs ≠ [] ∧ (vs.length : ℤ) ≤ l.maxValues) ∧
        (∀ x ∈ vs, x.content.length ≤ maxContent) ∧ rr = written i n t vs := by
  have hcount : (i.values ≠ [] ∧ (i.values.length : ℤ) ≤ l.maxValues) ↔
      (vs ≠ [] ∧ (vs.length : ℤ) ≤ l.maxValues) := by
    rw [hi, length_map, Ne, map_eq_nil_iff]
  rw [recordSet_eq_ok]
  constructor
  · rintro ⟨z, t', n', records, hz, hv, hcanon, -, rfl⟩
    obtain rfl : t' = t := (editableType_spec hv.type).1.trans htype
    have hn := hv.name
    rw [recordName_canonicalZone hz, hname] at hn
    cases hn
    rw [hi, canon_fixed hz hvs] at hcanon
    obtain ⟨rfl, hlen⟩ := hcanon
    exact ⟨hv.ttl, hcount.1 hv.count, hlen, rfl⟩
  · rintro ⟨httl, hc, hlen, rfl⟩
    obtain ⟨z, hz, -⟩ := Except.bind_eq_ok.1 hname
    refine ⟨z, t, n, vs, hz, ⟨editableType_of_upper ht htype, ?_, httl, hcount.2 hc, hcomment, ?_,
      hex⟩, ?_, hnd, rfl⟩
    · rw [recordName_canonicalZone hz, hname]
    · exact fun h => absurd h hne
    · rw [hi, canon_fixed hz hvs]
      exact ⟨rfl, hlen⟩

end TangraDns.Validate
