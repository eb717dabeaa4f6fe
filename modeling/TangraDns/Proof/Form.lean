/-
  The record form against the server (`checkContent_iff`): for a value the server
  accepts, when the form has nothing to say about it.
-/
import TangraDns.Form
import TangraDns.Proof.Presentation

namespace TangraDns.Validate

open List Str

variable {E : Env} {t z v value : Str} {rr : RR}
variable {n : ℕ}
variable {r : ℕ} {b : UInt8} {s : Str} {u : List ℕ} {rr₀ : RR}

/-! ## How the library reads values -/

/-- The fields of a value: what stands between blanks. -/
def words (v : Str) : List Str := Parts.parts (· == 32) v

/-- The value without the blanks around it. -/
def bare (v : Str) : Str := Parts.inner (· == 32) v

def Short (s : Str) : Prop := ∃ n, Addr.decimal s = some n ∧ n ≤ 65535

/-- The library reads the record of an accepted value from the text. -/
def Read (E : Env) (t w : Str) (rr₀ : RR) : Prop :=
  ∃ z v rr, Parsed E z t v rr₀ rr ∧ prepare E t v = w

/-- How the library reads accepted values, field by field; digests and keys may be spread over
    several fields. -/
structure ReadsFields (E : Env) : Prop where
  a : ∀ {w rr}, Read E (str "A") w rr → ∃ ip, Addr.parseIPv4 (bare w) = some ip
  aaaa : ∀ {w rr}, Read E (str "AAAA") w rr →
    58 ∈ bare w ∧ ∃ ip, Addr.parseIPv6 (bare w) = some ip
  host : ∀ {t w rr}, t = str "CNAME" ∨ t = str "NS" ∨ t = str "PTR" → Read E t w rr →
    32 ∉ bare w ∧ (bare w = [dot] → rr = .cname [dot] ∨ rr = .ns [dot] ∨ rr = .ptr [dot])
  mx : ∀ {w rr}, Read E (str "MX") w rr → ∃ p s, words w = [p, s] ∧ Short p
  srv : ∀ {w rr}, Read E (str "SRV") w rr →
    ∃ p u q s, words w = [p, u, q, s] ∧ Short p ∧ Short u ∧ Short q
  caa : ∀ {f k g l rest rr}, f ≠ [] → g ≠ [] → 0 < k → 0 < l → rest ≠ [] →
    (∀ b ∈ f ++ g, b ≠ 32 ∧ b ≠ 34) →
    Read E (str "CAA") (f ++ (List.replicate k 32 ++ (g ++ (List.replicate l 32 ++ rest)))) rr →
    ∃ n value, Addr.decimal f = some n ∧ rr = .caa n g value
  ds : ∀ {w rr}, Read E (str "DS") w rr → ∃ k a d x rest i j n, words w = k :: a :: d :: x :: rest ∧
    Addr.decimal d = some n ∧ rr = .ds i j n (x :: rest).flatten
  dnskey : ∀ {w rr}, Read E (str "DNSKEY") w rr → ∃ f p a x rest i j k,
    words w = f :: p :: a :: x :: rest ∧ Addr.decimal f = some i ∧ Addr.decimal p = some j ∧
    rr = .dnskey i j k (x :: rest).flatten
  tlsa : ∀ {w rr}, Read E (str "TLSA") w rr → ∃ u s m x rest i j k,
    words w = u :: s :: m :: x :: rest ∧ Addr.decimal u = some i ∧ Addr.decimal s = some j ∧
    Addr.decimal m = some k ∧ rr = .tlsa i j k (x :: rest).flatten
  sshfp : ∀ {w rr}, Read E (str "SSHFP") w rr → ∃ a t x rest i j, words w = a :: t :: x :: rest ∧
    Addr.decimal a = some i ∧ Addr.decimal t = some j ∧ rr = .sshfp i j (x :: rest).flatten

/-! ## Characters and bytes -/

/-- The character may be what the server reads as the byte: the same up to letter case, or one of
    the characters outside ASCII whose other case is an ASCII letter. -/
def Like (r : ℕ) (b : UInt8) : Prop :=
  (r < 0x80 ∧ Form.lower r = Form.lower b.toNat ∧ 0x20 ≤ b.toNat ∧ b.toNat < 0x7f) ∨
    ((r = 0x130 ∨ r = 0x131 ∨ r = 0x17F ∨ r = 0x212A) ∧ (b = 0x49 ∨ b = 0x53 ∨ b = 0x69 ∨ b = 0x6B))

theorem Like.white (h : Like r b) : Form.white r = (b == 32) := by
  rcases h with ⟨hr, h, hlow, -⟩ | ⟨hr, hb⟩
  · have h32 : (b == 32) = true ↔ b.toNat = 32 := by rw [beq_iff_eq, ← UInt8.toNat_inj]; rfl
    rw [Bool.eq_iff_iff, h32]
    simp only [Form.white, Form.lower, Bool.or_eq_true, Bool.and_eq_true, decide_eq_true_eq,
      beq_iff_eq] at h ⊢
    split_ifs at h <;> omega
  · rcases hr with rfl | rfl | rfl | rfl <;> rcases hb with rfl | rfl | rfl | rfl <;> rfl

theorem Like.eq (h : Like r b)
    (hb : b.toNat < 65 ∨ (90 < b.toNat ∧ b.toNat < 97) ∨ 122 < b.toNat) : r = b.toNat := by
  rcases h with ⟨-, h, -⟩ | ⟨-, rfl | rfl | rfl | rfl⟩
  · unfold Form.lower at h
    split_ifs at h <;> omega
  all_goals simp at hb

theorem isHex_iff : isHex b = true ↔
    (48 ≤ b.toNat ∧ b.toNat ≤ 57) ∨ (97 ≤ b.toNat ∧ b.toNat ≤ 102) ∨
    (65 ≤ b.toNat ∧ b.toNat ≤ 70) := by
  simp only [isHex, Addr.hexDigit, UInt8.le_iff_toNat_le]
  split_ifs with h1 h2 h3
  · simp at h1 ⊢; omega
  · simp at h2 ⊢; omega
  · simp at h3 ⊢; omega
  · simp at h1 h2 h3 ⊢; omega

theorem Like.hex (h : Like r b) (hb : isHex b = true) :
    Form.isHex r = true ∧ Form.lower r = Form.lower b.toNat := by
  rw [isHex_iff] at hb
  rcases h with ⟨-, h, -⟩ | ⟨-, rfl | rfl | rfl | rfl⟩
  · refine ⟨?_, h⟩
    simp only [Form.isHex, Form.isDigit, Bool.or_eq_true, Bool.and_eq_true, decide_eq_true_eq]
    unfold Form.lower at h
    split_ifs at h <;> omega
  all_goals simp at hb

theorem forall₂_like_map (h : ∀ b ∈ s, 0x20 ≤ b.toNat ∧ b.toNat < 0x7f) :
    List.Forall₂ Like (s.map UInt8.toNat) s := by
  rw [forall₂_map_left_iff, forall₂_same]
  exact fun b hb => .inl ⟨by have := h b hb; omega, rfl, h b hb⟩

theorem eq_map_of_like (h : List.Forall₂ Like u s) (hs : ∀ b ∈ s, b.toNat < 65) :
    u = s.map UInt8.toNat := by
  induction h with
  | nil => rfl
  | cons hab _ ih =>
    rw [map_cons, ← hab.eq (.inl (hs _ (mem_cons_self ..))),
      ← ih fun b hb => hs b (mem_cons_of_mem _ hb)]

/-! ## The value in the letter case of its type -/

theorem forall₂_mapped {f : ℕ → ℕ} {rs : List ℕ}
    (hf : ∀ r b, b.toNat = f r → 0x20 ≤ b.toNat → b.toNat < 0x7f → Like r b)
    (h : ∀ b ∈ rs.flatMap fun r => encodeRune (f r), 0x20 ≤ b.toNat ∧ b.toNat < 0x7f) :
    List.Forall₂ Like rs (rs.flatMap fun r => encodeRune (f r)) := by
  induction rs with
  | nil => exact .nil
  | cons r rs ih =>
    rw [flatMap_cons] at h ⊢
    have hlt : f r < 0x80 := isASCII_encodeRune (isASCII_iff.2 fun b hb => by
      rw [UInt8.lt_iff_toNat_lt]
      exact lt_trans (h b (mem_append_left _ hb)).2 (by decide))
    rw [encodeRune, if_pos hlt] at h ⊢
    have hb := h _ (mem_cons_self ..)
    exact .cons (hf r _ (by simp; omega) hb.1 hb.2) (ih fun b hb => h b (mem_cons_of_mem _ hb))

theorem like_cased {f : ℕ → ℕ} (hf : f = E.cases.toLower ∨ f = E.cases.toUpper) (r : ℕ) (b : UInt8)
    (hb : b.toNat = f r)
    (hlow : 0x20 ≤ b.toNat) (hhigh : b.toNat < 0x7f) : Like r b := by
  rcases lt_or_ge r 0x80 with hr | hr
  · refine .inl ⟨hr, ?_, hlow, hhigh⟩
    rcases hf with rfl | rfl <;> rw [hb]
    on_goal 1 => rw [E.cases.toLower_ascii r hr]
    on_goal 2 => rw [E.cases.toUpper_ascii r hr]
    all_goals unfold Form.lower; split_ifs <;> omega
  · refine .inr ?_
    rw [← UInt8.toNat_inj, ← UInt8.toNat_inj, ← UInt8.toNat_inj, ← UInt8.toNat_inj]
    rcases hf with rfl | rfl
    · rcases E.cases.toLower_into r hr (by omega) with ⟨hr, h⟩ | ⟨hr, h⟩ <;> rw [hb, h]
        <;> simp [hr]
    · rcases E.cases.toUpper_into r hr (by omega) with ⟨hr, h⟩ | ⟨hr, h⟩ <;> rw [hb, h]
        <;> simp [hr]

theorem scan_bytes (h : scan v false = .ok ()) : ∀ b ∈ v, 0x20 ≤ b.toNat ∧ b.toNat < 0x7f := by
  obtain ⟨hctl, hloop⟩ := scan_eq_ok.1 h
  obtain ⟨-, hall⟩ := scanLoop_false_iff.1 hloop
  intro b hb
  have hascii := (hall b hb).2
  rw [hasControl, any_eq_false] at hctl
  have hc := hctl b hb
  simp only [Bool.or_eq_true, decide_eq_true_eq, beq_iff_eq, not_or, ← UInt8.toNat_inj,
    UInt8.lt_iff_toNat_lt] at hc hascii
  simp at hc hascii
  omega

theorem forall₂_prepare (ht : t ≠ str "TXT" ∧ t ≠ str "SPF")
    (h : scan (prepare E t v) false = .ok ()) : List.Forall₂ Like (runes v) (prepare E t v) := by
  have hbytes := scan_bytes h
  unfold prepare at hbytes ⊢
  rw [if_neg (by simp [ht])] at hbytes ⊢
  split_ifs at hbytes ⊢ with hlower hupper
  · rw [toLower_eq] at hbytes ⊢
    exact forall₂_mapped (like_cased (.inl rfl)) hbytes
  · rw [toUpper_eq] at hbytes ⊢
    exact forall₂_mapped (like_cased (.inr rfl)) hbytes
  · rw [runes_ascii (isASCII_iff.2 fun b hb =>
      UInt8.lt_iff_toNat_lt.2 (lt_trans (hbytes b hb).2 (by decide)))]
    exact forall₂_like_map hbytes

/-! ## The ends of the value -/

theorem white_of_isSpace (hc : isControl r = false) (h : isSpace r = true) :
    Form.white r = true := by
  simp only [isControl, isSpace, Form.white, Bool.or_eq_false_iff, Bool.and_eq_false_imp,
    Bool.or_eq_true,
    Bool.and_eq_true, decide_eq_true_eq, decide_eq_false_iff_not, beq_iff_eq] at hc h ⊢
  omega

theorem not_white (h : isSpace r = false) (hr : r ≠ 0xFEFF) : Form.white r = false := by
  simp only [isSpace, Form.white, Bool.or_eq_false_iff, Bool.and_eq_false_imp, decide_eq_true_eq,
    decide_eq_false_iff_not, beq_eq_false_iff_ne] at h ⊢
  omega

theorem runes_trimSpace (s : Str) : runes (trimSpace s) = (trimmed s).map Prod.snd := by
  rw [runes, segments_trimSpace]

theorem form_trim (hc : ∀ r ∈ runes value, isControl r = false) :
    Form.trim (runes value) = Form.trim (runes (trimSpace value)) := by
  obtain ⟨a, b, h, ha, hb⟩ := Parts.exists_ends (fun p => isSpace p.2) (segments value)
  have hrunes : runes value = a.map Prod.snd ++ (runes (trimSpace value) ++ b.map Prod.snd) := by
    rw [runes_trimSpace, ← map_append, ← map_append]
    exact congrArg _ h
  have hwhite : ∀ l : List (Str × Nat), (∀ p ∈ l, isSpace p.2 = true) →
      (∀ r ∈ l.map Prod.snd, r ∈ runes value) →
      ∀ r ∈ l.map Prod.snd, Form.white r = true := by
    intro l hl hmem r hr
    obtain ⟨p, hp, rfl⟩ := List.mem_map.1 hr
    exact white_of_isSpace (hc _ (hmem _ hr)) (hl p hp)
  rw [hrunes]
  refine Parts.inner_append (hwhite a ha fun r hr => ?_) (hwhite b hb fun r hr => ?_)
  · rw [hrunes]
    exact mem_append_left _ hr
  · rw [hrunes]
    exact mem_append_right _ (mem_append_right _ hr)

theorem ends_trimSpace (s : Str) : (∀ r ∈ (runes (trimSpace s)).head?, isSpace r = false) ∧
    ∀ r ∈ (runes (trimSpace s)).getLast?, isSpace r = false := by
  have hspace : ∀ {l : List (Str × Nat)}, l.dropWhile (fun p => isSpace p.2) = l →
      ∀ r ∈ (l.map Prod.snd).head?,
      isSpace r = false := by
    intro l hl r hr
    rw [head?_map, Option.mem_def, Option.map_eq_some_iff] at hr
    obtain ⟨p, hp, rfl⟩ := hr
    exact head_dropWhile l p (by rw [hl]; exact hp)
  rw [runes_trimSpace, ← head?_reverse, ← map_reverse]
  exact ⟨hspace (trimmed_ends s).1, hspace (trimmed_ends s).2⟩

theorem form_trim_eq (hc : ∀ r ∈ runes value, isControl r = false)
    (hfirst : ∀ r ∈ (runes (trimSpace value)).head?, r ≠ 0xFEFF)
    (hlast : ∀ r ∈ (runes (trimSpace value)).getLast?, r ≠ 0xFEFF) :
    Form.trim (runes value) = runes (trimSpace value) := by
  obtain ⟨hhead, hend⟩ := ends_trimSpace value
  rw [form_trim hc]
  exact Parts.inner_of_ends (fun r hr => not_white (hhead r hr) (hfirst r hr))
    fun r hr => not_white (hend r hr) (hlast r hr)

/-! ## Directives -/

theorem lower_lt (h : Form.lower r < 0x80) : r < 0x80 := by
  unfold Form.lower at h
  split_ifs at h <;> omega

theorem ofNat_toLower (h : r < 0x80) :
    encodeRune (E.cases.toLower r) = [UInt8.ofNat (Form.lower r)] := by
  have heq : E.cases.toLower r = Form.lower r := E.cases.toLower_ascii r h
  have hlt : Form.lower r < 0x80 := by
    unfold Form.lower
    split_ifs <;> omega
  rw [heq, encodeRune, if_pos hlt]

theorem form_directives : ∀ d ∈ Form.directives, d.map UInt8.ofNat ∈ directives ∧
    ∀ r ∈ d, r < 0x80 := by decide

theorem form_hasDirective (hu : u <:+: runes v) (h : hasDirective E v = false) :
    Form.hasDirective u = false := by
  rw [hasDirective, any_eq_false] at h
  rw [Form.hasDirective, any_eq_false]
  intro d hd hin
  obtain ⟨hd', hlow⟩ := form_directives d hd
  refine h _ hd' (decide_eq_true ?_)
  obtain ⟨a, b, hab⟩ := (of_decide_eq_true hin).trans (hu.map Form.lower)
  obtain ⟨x, y, hxy, hx, hy⟩ := map_eq_append_iff.1 hab.symm
  obtain ⟨w, x, rfl, hw, hx⟩ := map_eq_append_iff.1 hx
  have hflat : (x.flatMap fun r => encodeRune (E.cases.toLower r)) = d.map UInt8.ofNat := by
    rw [← hx, map_map, ← flatMap_singleton' (List.map _ x), flatMap_map]
    refine flatMap_congr fun r hr => ofNat_toLower (lower_lt (hlow _ ?_))
    rw [← hx]
    exact mem_map_of_mem hr
  rw [Str.Contains, toLower_eq, hxy, flatMap_append, flatMap_append, hflat]
  exact ⟨_, _, rfl⟩

/-! ## Fields -/

/-- No leading zero. -/
def Plain (s : List ℕ) : Prop := ¬ (1 < s.length ∧ s.head? = some 48)

instance (s : List ℕ) : Decidable (Plain s) := inferInstanceAs (Decidable (¬ _))

theorem digit_bytes (h : Addr.decimal s = some n) : ∀ b ∈ s, 48 ≤ b.toNat ∧ b.toNat ≤ 57 := by
  intro b hb
  have := Addr.digits_of_decimal h b hb
  rw [UInt8.le_iff_toNat_le, UInt8.le_iff_toNat_le] at this
  exact this

theorem eq_map_of_decimal (hu : List.Forall₂ Like u s) (h : Addr.decimal s = some n) :
    u = s.map UInt8.toNat :=
  eq_map_of_like hu fun b hb => lt_of_le_of_lt (digit_bytes h b hb).2 (by decide)

theorem contains_iff_plain {cs : List (List ℕ)} {ns : List ℕ} (hu : List.Forall₂ Like u s)
    (h : Addr.decimal s = some n) (hn : n ∈ ns) (hns : ∀ n ∈ ns, (Addr.itoa n).map UInt8.toNat ∈ cs)
    (hcs : ∀ c ∈ cs, Plain c) : cs.contains u = true ↔ Plain u := by
  rw [contains_iff_mem]
  refine ⟨hcs u, fun hplain => ?_⟩
  rw [eq_map_of_decimal hu h] at hplain ⊢
  have hzero : ¬ (1 < s.length ∧ s.head? = some 48) := by
    rintro ⟨hlen, hhead⟩
    exact hplain ⟨by rwa [length_map], by rw [head?_map, hhead]; rfl⟩
  rw [Addr.eq_itoa_of_decimal h hzero]
  exact hns n hn

theorem number_of_foldlM : ∀ {s : Str} {n m : ℕ},
    s.foldlM (fun n b => (Addr.digit b).map fun d => n * 10 + d) n = some m →
      (s.map UInt8.toNat).foldl (fun n r => n * 10 + (r - 48)) n = m
  | [], n, m, h => Option.some.inj h
  | b :: s, n, m, h => by
    rw [foldlM_cons] at h
    obtain ⟨k, hk, h⟩ := Option.bind_eq_some_iff.1 h
    obtain ⟨d, hd, rfl⟩ := Option.map_eq_some_iff.1 hk
    unfold Addr.digit at hd
    split_ifs at hd
    cases hd
    rw [map_cons, foldl_cons]
    exact number_of_foldlM h

theorem number_of_decimal (h : Addr.decimal s = some n) : Form.number (s.map UInt8.toNat) = n := by
  unfold Addr.decimal at h
  split_ifs at h
  exact number_of_foldlM h

theorem isDigit_of_decimal (h : Addr.decimal s = some n) :
    ∀ r ∈ s.map UInt8.toNat, Form.isDigit r = true := by
  intro r hr
  obtain ⟨b, hb, rfl⟩ := List.mem_map.1 hr
  simpa [Form.isDigit] using digit_bytes h b hb

theorem word_of_short (hu : List.Forall₂ Like u s) (h : Short s) : Form.word u = true := by
  obtain ⟨n, hn, hle⟩ := h
  have hne : s ≠ [] := by
    rintro rfl
    cases hn
  rw [eq_map_of_decimal hu hn, Form.word, number_of_decimal hn, decide_eq_true hle,
    all_eq_true.2 (isDigit_of_decimal hn)]
  simp [hne]

theorem hex_of_hexOK (hu : List.Forall₂ Like u s) (h : hexOK s = true) : Form.hex u = true := by
  simp only [hexOK, Bool.and_eq_true, all_eq_true, Bool.not_eq_true', isEmpty_eq_false_iff] at h
  obtain ⟨⟨hall, -⟩, hne⟩ := h
  have hne' : u ≠ [] := fun hu' => hne (forall₂_nil_left_iff.1 (hu' ▸ hu))
  rw [Form.hex, Bool.and_eq_true, all_eq_true]
  refine ⟨by simp [hne'], fun r hr => ?_⟩
  obtain ⟨b, hb, hrb⟩ := Parts.exists_of_mem hu hr
  exact (hrb.hex (hall b hb)).1

/-! ## Addresses -/

theorem Like.eq_iff (h : Like r b) {c : UInt8} (hc : c.toNat < 65) : (r == c.toNat) = (b == c) := by
  rw [Bool.eq_iff_iff, beq_iff_eq, beq_iff_eq, ← UInt8.toNat_inj]
  rcases h with ⟨-, h, -⟩ | ⟨hr, hb⟩
  · unfold Form.lower at h
    split_ifs at h <;> omega
  · have : r ≠ c.toNat := by omega
    have : b.toNat ≠ c.toNat := by
      rcases hb with rfl | rfl | rfl | rfl <;> simp <;> omega
    omega

theorem octet_of_parseOctet {o : UInt8} (hu : List.Forall₂ Like u s)
    (h : Addr.parseOctet s = some o) : Form.octet u = true := by
  unfold Addr.parseOctet at h
  split_ifs at h with hform
  cases hd : Addr.decimal s with
  | none => simp [hd] at h
  | some n =>
    rw [hd] at h
    dsimp only at h
    split_ifs at h with hle
    -- the text is the one of the number
    have hall : ∀ n < 256, Form.octet ((Addr.itoa n).map UInt8.toNat) = true := by decide +kernel
    rw [eq_map_of_decimal hu hd, Addr.eq_itoa_of_decimal hd fun hz => ?_]
    · exact hall n (by omega)
    · exact hform.2.elim (fun h1 => absurd hz.1 (by omega)) fun hne => hne hz.2

theorem ipv4_of_parseIPv4 {ip : IP4} (hu : List.Forall₂ Like u s)
    (h : Addr.parseIPv4 s = some ip) : Form.ipv4 u = true := by
  have hsplit : List.Forall₂ (List.Forall₂ Like) (u.splitOn 46) (Str.split 46 s) :=
    Parts.forall₂_splitOnP (fun hab => hab.eq_iff (c := 46) (by decide)) hu
  unfold Addr.parseIPv4 at h
  cases hm : (Str.split 46 s).mapM Addr.parseOctet with
  | none => simp [hm] at h
  | some os =>
    have hlen : os.length = 4 := by
      rw [hm] at h
      rcases os with - | ⟨a, - | ⟨b, - | ⟨c, - | ⟨d, - | ⟨e, os⟩⟩⟩⟩⟩ <;> first | rfl | cases h
    obtain ⟨hoctets, hsome⟩ := Addr.of_mapM_eq_some hm
    rw [Form.ipv4, Bool.and_eq_true, beq_iff_eq, all_eq_true]
    refine ⟨?_, fun o ho => ?_⟩
    · rw [hsplit.length_eq, ← hoctets, hlen]
    · obtain ⟨w, hw, how⟩ := Parts.exists_of_mem hsplit ho
      obtain ⟨b, hb⟩ := Option.isSome_iff_exists.1 (hsome w hw)
      exact octet_of_parseOctet how hb

theorem aaaa_of_parseIPv6 {ip : IP6} (hu : List.Forall₂ Like u s) (hcolon : 58 ∈ s)
    (h : Addr.parseIPv6 s = some ip) :
    Form.aaaa u = !decide (Form.chars "::ffff:" <+: u.map Form.lower) := by
  have hmem : u.contains 58 = true := by
    obtain ⟨r, hr, hrb⟩ : ∃ r ∈ u, Like r 58 := Parts.exists_of_mem hu.flip hcolon
    obtain rfl : r = 58 := Like.eq (b := 58) hrb (by decide)
    exact contains_iff_mem.2 hr
  have hall : (u.all fun r => Form.isHex r || r == 58 || r == 46) = true := by
    rw [all_eq_true]
    intro r hr
    obtain ⟨b, hb, hrb⟩ := Parts.exists_of_mem hu hr
    rcases Addr.mem_of_parseIPv6 h b hb with rfl | rfl | hhex
    · simp [hrb.eq (b := 58) (by decide)]
    · simp [hrb.eq (b := 46) (by decide)]
    · simp [(hrb.hex hhex).1]
  rw [Form.aaaa, hmem, hall]
  rfl

/-! ## The rules of the types -/

theorem map_eq_ok {α β ε : Type} {x : Except ε α} {f : α → β} {b : β} (h : x.map f = .ok b) :
    ∃ a, x = .ok a := by
  cases x with
  | error e => cases h
  | ok a => exact ⟨a, rfl⟩

theorem forall₂_fields (hu : List.Forall₂ Like u v) :
    List.Forall₂ (List.Forall₂ Like) (Form.split u) (words v) :=
  Parts.forall₂_parts Like.white hu

section Rules

variable {f : List (List ℕ)} {rr₀ : RR} (hE : ReadsFields E)
  (hf : List.Forall₂ (List.Forall₂ Like) f (words v))
  (hrules : semantic E rr₀ = .ok rr)

include hE hf

theorem mx_accepted (h : Read E (str "MX") v rr₀) : Form.mx f = true := by
  obtain ⟨p, s, hw, hp⟩ := hE.mx h
  rw [hw] at hf
  rcases hf with _ | ⟨hp', _ | ⟨-, - | -⟩⟩
  exact word_of_short hp' hp

theorem srv_accepted (h : Read E (str "SRV") v rr₀) : Form.srv f = true := by
  obtain ⟨p, w, q, s, hw, hp, hweight, hq⟩ := hE.srv h
  rw [hw] at hf
  rcases hf with _ | ⟨hp', _ | ⟨hw', _ | ⟨hq', _ | ⟨-, - | -⟩⟩⟩⟩
  simp only [Form.srv, word_of_short hp' hp, word_of_short hw' hweight, word_of_short hq' hq]
  rfl

include hrules

theorem ds_accepted (h : Read E (str "DS") v rr₀) :
    Form.ds f = true ↔ f.length = 4 ∧ ∀ s ∈ (f.drop 2).take 1, Plain s := by
  obtain ⟨k, a, d, x, rest, i, j, n, hw, hd, rfl⟩ := hE.ds h
  obtain ⟨⟨⟩, hok⟩ := map_eq_ok (x := ds n (x :: rest).flatten) hrules
  obtain ⟨hn, hhex⟩ := ds_eq_ok hok
  rw [hw] at hf
  rcases hf with _ | ⟨-, _ | ⟨-, _ | ⟨hd', _ | ⟨hx, hrest⟩⟩⟩⟩
  have htype : [Form.chars "1", Form.chars "2", Form.chars "4"].contains _ = true ↔ _ :=
    contains_iff_plain hd' hd hn (by decide) (by decide)
  rcases hrest with - | ⟨-, -⟩
  · rw [flatten_singleton] at hhex
    simp only [Form.ds, hex_of_hexOK hx hhex, Bool.and_true, htype]
    simp
  · simp [Form.ds]

theorem tlsa_accepted (h : Read E (str "TLSA") v rr₀) :
    Form.tlsa f = true ↔ f.length = 4 ∧ ∀ s ∈ f.take 3, Plain s := by
  obtain ⟨usage, sel, mt, x, rest, i, j, k, hw, hi, hj, hk, rfl⟩ := hE.tlsa h
  obtain ⟨⟨⟩, hok⟩ := map_eq_ok (x := tlsa i j k (x :: rest).flatten) hrules
  obtain ⟨hi3, hj1, hk2, hhex⟩ := tlsa_eq_ok hok
  rw [hw] at hf
  rcases hf with _ | ⟨hi', _ | ⟨hj', _ | ⟨hk', _ | ⟨hx, hrest⟩⟩⟩⟩
  have h1 : [Form.chars "0", Form.chars "1", Form.chars "2", Form.chars "3"].contains _ = true ↔
      _ :=
    contains_iff_plain hi' hi hi3 (by decide) (by decide)
  have h2 : [Form.chars "0", Form.chars "1"].contains _ = true ↔ _ :=
    contains_iff_plain hj' hj hj1 (by decide) (by decide)
  have h3 : [Form.chars "0", Form.chars "1", Form.chars "2"].contains _ = true ↔ _ :=
    contains_iff_plain hk' hk hk2 (by decide) (by decide)
  rcases hrest with - | ⟨-, -⟩
  · rw [flatten_singleton] at hhex
    simp only [Form.tlsa, hex_of_hexOK hx hhex, Bool.and_true, Bool.and_eq_true, h1, h2, h3]
    simp [and_assoc]
  · simp [Form.tlsa]

theorem sshfp_accepted (h : Read E (str "SSHFP") v rr₀) :
    Form.sshfp f = true ↔ f.length = 3 ∧ ∀ s ∈ f.take 2, Plain s := by
  obtain ⟨a, n, x, rest, i, j, hw, hi, hj, rfl⟩ := hE.sshfp h
  obtain ⟨⟨⟩, hok⟩ := map_eq_ok (x := sshfp i j (x :: rest).flatten) hrules
  obtain ⟨hi6, hj2, hhex⟩ := sshfp_eq_ok hok
  rw [hw] at hf
  rcases hf with _ | ⟨hi', _ | ⟨hj', _ | ⟨hx, hrest⟩⟩⟩
  have h1 : [Form.chars "1", Form.chars "2", Form.chars "3", Form.chars "4",
      Form.chars "6"].contains _ = true ↔ _ :=
    contains_iff_plain hi' hi hi6 (by decide) (by decide)
  have h2 : [Form.chars "1", Form.chars "2"].contains _ = true ↔ _ :=
    contains_iff_plain hj' hj hj2 (by decide) (by decide)
  rcases hrest with - | ⟨-, -⟩
  · rw [flatten_singleton] at hhex
    simp only [Form.sshfp, hex_of_hexOK hx hhex, Bool.and_true, Bool.and_eq_true, h1, h2]
    simp
  · simp [Form.sshfp]

theorem dnskey_accepted (h : Read E (str "DNSKEY") v rr₀) :
    Form.dnskey f = true ↔ ∀ s ∈ f.take 2, Plain s := by
  obtain ⟨g, p, a, x, rest, i, j, k, hw, hi, hj, rfl⟩ := hE.dnskey h
  obtain ⟨⟨⟩, hok⟩ := map_eq_ok (x := dnskey i j (x :: rest).flatten) hrules
  obtain ⟨hflags, rfl, -⟩ := dnskey_eq_ok hok
  rw [hw] at hf
  rcases hf with _ | ⟨hi', _ | ⟨hj', _ | ⟨-, _ | ⟨-, -⟩⟩⟩⟩
  have h1 : [Form.chars "0", Form.chars "256", Form.chars "257"].contains _ = true ↔ _ :=
    contains_iff_plain hi' hi hflags (by decide) (by decide)
  have h2 : [Form.chars "3"].contains _ = true ↔ Plain _ :=
    contains_iff_plain hj' hj (mem_singleton_self 3) (by decide) (by decide)
  rw [contains_iff_mem, mem_singleton] at h2
  simp only [Form.dnskey, Bool.and_eq_true, beq_iff_eq, h1, h2]
  simp

end Rules

/-! ## Certification authorities -/

theorem exists_of_runes {x y : List ℕ} (hx : 34 ∉ x) (hctl : hasControl v = false)
    (hq : Quoting PlainByte v)
    (h : runes v = x ++ y) :
    ∃ w rest, v = w ++ rest ∧ x = w.map UInt8.toNat ∧ runes rest = y ∧ ∀ b ∈ w, 0x20 ≤ b.toNat ∧
      b.toNat < 0x7f := by
  induction x generalizing v with
  | nil => exact ⟨[], v, rfl, rfl, h, fun b hb => absurd hb not_mem_nil⟩
  | cons r x ih =>
    cases hq with
    | nil => cases h
    | @outside b s _ hb hs =>
      rw [runes_cons hb.2, cons_append, List.cons.injEq] at h
      rw [hasControl, any_cons, Bool.or_eq_false_iff] at hctl
      obtain ⟨w, rest, rfl, rfl, hrest, hw⟩ :=
        ih (fun hm => hx (mem_cons_of_mem _ hm)) hctl.2 hs h.2
      refine ⟨b :: w, rest, rfl, by rw [map_cons, h.1], hrest, forall_mem_cons.2 ⟨?_, hw⟩⟩
      have hascii := hb.2
      have hplain := hctl.1
      simp only [Bool.or_eq_false_iff, decide_eq_false_iff_not, beq_eq_false_iff_ne, ne_eq,
        ← UInt8.toNat_inj,
        UInt8.lt_iff_toNat_lt] at hplain hascii
      simp at hplain hascii
      omega
    | quoted _ _ =>
      rw [runes_cons (by decide), cons_append, List.cons.injEq] at h
      exact absurd (h.1 ▸ mem_cons_self ..) hx

theorem map_lower (h : isASCII s = true) :
    (s.map UInt8.toNat).map Form.lower = (toLower E.cases s).map UInt8.toNat := by
  rw [toLower, if_pos h, map_map, map_map]
  refine map_congr_left fun b hb => ?_
  rw [Function.comp, Function.comp, ← toLower_byte E.cases (isASCII_iff.1 h b hb),
    E.cases.toLower_ascii _ (UInt8.lt_iff_toNat_lt.1 (isASCII_iff.1 h b hb))]
  rfl

theorem no_quote {s : List ℕ} (h : s.map Form.lower ∈
    [Form.chars "issue", Form.chars "issuewild", Form.chars "iodef"]) :
    34 ∉ s := by
  have htags : ∀ c ∈ [Form.chars "issue", Form.chars "issuewild", Form.chars "iodef"],
      34 ∉ c := by decide
  exact fun hm => htags _ h (mem_map_of_mem hm)

theorem eq_replicate_of_white {w : Str} (hw : ∀ b ∈ w, 0x20 ≤ b.toNat ∧ b.toNat < 0x7f)
    (hwhite : ∀ r ∈ w.map UInt8.toNat, Form.white r = true) : w = List.replicate w.length 32 := by
  refine eq_replicate_iff.2 ⟨rfl, fun b hb => ?_⟩
  have hr : Form.white b.toNat = true := hwhite _ (mem_map_of_mem hb)
  have hlike : Like b.toNat b := .inl ⟨by have := hw b hb; omega, rfl, hw b hb⟩
  rw [hlike.white] at hr
  exact eq_of_beq hr

theorem caa_of_fields {a b c : List ℕ} {fs : List (List ℕ)} (hE : ReadsFields E)
    (hctl : hasControl v = false)
    (hq : Quoting PlainByte v) (hrules : semantic E rr₀ = .ok rr)
    (hfirst : ∀ r ∈ (runes v).head?, Form.white r = false) (h : Read E (str "CAA") v rr₀)
    (hf : Form.split (runes v) = a :: b :: c :: fs) (ha34 : 34 ∉ a) (hb34 : 34 ∉ b)
    (hplain : Plain a) :
    a ∈ [Form.chars "0", Form.chars "128"] ∧
      b.map Form.lower ∈ [Form.chars "issue", Form.chars "issuewild", Form.chars "iodef"] := by
  -- the flags, the tag and what follows, with the white space between them
  obtain ⟨s₀, r₀, hv, hs₀, ha, hane, hparts₀, hhead₀⟩ := Parts.exists_of_parts hf
  obtain ⟨s₁, r₁, rfl, hs₁, hb, hbne, hparts₁, hhead₁⟩ := Parts.exists_of_parts hparts₀
  obtain ⟨s₂, r₂, rfl, hs₂, hc, hcne, -, -⟩ := Parts.exists_of_parts hparts₁
  have hs₁ne := Parts.ne_nil_of_head hhead₀ hb hbne
  have hs₂ne := Parts.ne_nil_of_head hhead₁ hc hcne
  obtain rfl : s₀ = [] := by
    cases s₀ with
    | nil => rfl
    | cons x s₀ =>
      have hx := hfirst x (by rw [hv]; rfl)
      rw [hs₀ x (mem_cons_self ..)] at hx
      cases hx
  have hno : ∀ s : List ℕ, (∀ x ∈ s, Form.white x = true) → 34 ∉ s := fun s hs hm => by
    cases hs 34 hm
  obtain ⟨w, rest, rfl, hw, hrest, hbytes⟩ :=
    exists_of_runes (x := a ++ (s₁ ++ (b ++ s₂))) (y := c ++ r₂)
    (by simp [ha34, hno s₁ hs₁, hb34, hno s₂ hs₂]) hctl hq (by rw [hv]; simp)
  obtain ⟨wa, x₁, rfl, rfl, hx₁⟩ := append_eq_map_iff.1 hw
  obtain ⟨w₁, x₂, rfl, rfl, hx₂⟩ := map_eq_append_iff.1 hx₁
  obtain ⟨wb, w₂, rfl, rfl, rfl⟩ := map_eq_append_iff.1 hx₂
  have hrne : rest ≠ [] := by
    rintro rfl
    exact hcne (append_eq_nil_iff.1 hrest.symm).1
  have hw₁ := eq_replicate_of_white (fun b hb => hbytes b (by simp [hb])) hs₁
  have hw₂ := eq_replicate_of_white (fun b hb => hbytes b (by simp [hb])) hs₂
  have hbyte : ∀ x ∈ wa ++ wb, x ≠ 32 ∧ x ≠ 34 := by
    intro x hx
    refine ⟨?_, ?_⟩
    · rintro rfl
      rcases mem_append.1 hx with hx | hx
      · cases ha 32 (mem_map_of_mem hx)
      · cases hb 32 (mem_map_of_mem hx)
    · rintro rfl
      rcases mem_append.1 hx with hx | hx
      · exact ha34 (mem_map_of_mem hx)
      · exact hb34 (mem_map_of_mem hx)
  rw [append_assoc, append_assoc, append_assoc, hw₁, hw₂] at h
  obtain ⟨n, val, hn, rfl⟩ := hE.caa (by simpa using hane) (by simpa using hbne)
    (length_pos_iff.2 (by simpa using hs₁ne)) (length_pos_iff.2 (by simpa using hs₂ne)) hrne hbyte h
  obtain ⟨hflags, htag⟩ := caa_eq_ok hrules
  have htags : ∀ s ∈ [str "issue", str "issuewild", str "iodef"],
      s.map UInt8.toNat ∈ [Form.chars "issue", Form.chars "issuewild",
        Form.chars "iodef"] := by decide
  refine ⟨contains_iff_mem.1 ((contains_iff_plain
    (forall₂_like_map fun b hb => hbytes b (by simp [hb])) hn
    hflags (by decide) (by decide)).2 hplain), ?_⟩
  rw [map_lower (E := E) (isASCII_iff.2 fun b hb => UInt8.lt_iff_toNat_lt.2 ?_)]
  · exact htags _ htag
  · exact lt_trans (hbytes b (by simp [hb])).2 (by decide)

theorem caa_accepted (hE : ReadsFields E) (hctl : hasControl v = false) (hq : Quoting PlainByte v)
    (hrules : semantic E rr₀ = .ok rr) (hfirst : ∀ r ∈ (runes v).head?, Form.white r = false)
    (h : Read E (str "CAA") v rr₀) : Form.caa (Form.split (runes v)) = true ↔
      3 ≤ (Form.split (runes v)).length ∧ (∀ s ∈ (Form.split (runes v)).take 2, 34 ∉ s) ∧
        ∀ s ∈ (Form.split (runes v)).take 1, Plain s := by
  rcases hf : Form.split (runes v) with - | ⟨a, - | ⟨b, - | ⟨c, fs⟩⟩⟩
  · simp [Form.caa]
  · simp [Form.caa]
  · simp [Form.caa]
  · simp only [Form.caa, Bool.and_eq_true, contains_iff_mem]
    constructor
    · rintro ⟨ha, hb⟩
      have hflags : ∀ s ∈ [Form.chars "0", Form.chars "128"], 34 ∉ s ∧ Plain s := by decide
      refine ⟨by simp, ?_, ?_⟩
      · simpa using ⟨(hflags a ha).1, no_quote hb⟩
      · simpa using (hflags a ha).2
    · rintro ⟨-, hquote, hplain⟩
      exact caa_of_fields hE hctl hq hrules hfirst h hf (hquote a (by simp)) (hquote b (by simp))
        (hplain a (by simp))

/-! ## The form and the server -/

/-- The values of a type that can be entered, among those the server accepts: the form takes numbers
    without a leading zero only, digests in one field and no IPv6 address that is written like a
    mapped one. -/
def Enterable (t : Str) (v : List ℕ) : Prop :=
  if t = str "TXT" ∨ t = str "SPF" then v ≠ []
  else if t = str "AAAA" then ¬ Form.chars "::ffff:" <+: v.map Form.lower
  else if t = str "CAA" then
    3 ≤ (Form.split v).length ∧ (∀ s ∈ (Form.split v).take 2, 34 ∉ s) ∧
      ∀ s ∈ (Form.split v).take 1, Plain s
  else if t = str "DS" then (Form.split v).length = 4 ∧
    ∀ s ∈ ((Form.split v).drop 2).take 1, Plain s
  else if t = str "TLSA" then (Form.split v).length = 4 ∧ ∀ s ∈ (Form.split v).take 3, Plain s
  else if t = str "SSHFP" then (Form.split v).length = 3 ∧ ∀ s ∈ (Form.split v).take 2, Plain s
  else if t = str "DNSKEY" then ∀ s ∈ (Form.split v).take 2, Plain s
  else True

/-- A rule that is not met has something to say. -/
def Speaks (r : Bool × Str) : Prop := r.1 = false → r.2 ≠ []

theorem Speaks.ite {c : Prop} [Decidable c] {r r' : Bool × Str} (h : Speaks r) (h' : Speaks r') :
    Speaks (if c then r else r') := by
  split_ifs
  exacts [h, h']

theorem speaks {ok : Bool} {s : String} (h : s ≠ "") : Speaks (ok, str s) := by
  intro _ hs
  exact h (String.toList_eq_nil_iff.1 (map_eq_nil_iff.1 hs))

theorem speaks_rule (t : Str) (u : List ℕ) : Speaks (Form.rule t u) := by
  unfold Form.rule
  iterate 10 refine .ite (speaks (by simp)) ?_
  exact fun h => by cases h

theorem checkContent_eq_nil (hctl : Form.hasControl u = false)
    (hdir : Form.hasDirective (Form.trim u) = false) :
    Form.checkContent t u = [] ↔ Form.trim u ≠ [] ∧ (Form.rule t (Form.trim u)).1 = true := by
  unfold Form.checkContent
  dsimp only
  rw [hctl, hdir]
  by_cases hne : Form.trim u = []
  · simp [hne, str]
  · cases hrule : (Form.rule t (Form.trim u)).1 with
    | true => simp [hne]
    | false => simpa [hne] using speaks_rule t _ hrule

theorem form_hasControl (hc : ∀ r ∈ runes value, isControl r = false) :
    Form.hasControl (runes value) = false := by
  rw [Form.hasControl, any_eq_false]
  intro r hr
  have := hc r hr
  simp only [isControl, Bool.or_eq_false_iff, Bool.and_eq_false_imp, decide_eq_true_eq,
    decide_eq_false_iff_not] at this
  simp only [Bool.or_eq_true, decide_eq_true_eq, beq_iff_eq]
  omega

theorem Like.ne_mark (h : Like r b) : r ≠ 0xFEFF := by
  rcases h with ⟨h, -⟩ | ⟨h, -⟩ <;> omega

theorem like_of_scan (hc : ∀ r ∈ runes value, isControl r = false)
    (ht : t ≠ str "TXT" ∧ t ≠ str "SPF")
    (h : scan (prepare E t (trimSpace value)) false = .ok ()) :
    Form.trim (runes value) = runes (trimSpace value) ∧
      List.Forall₂ Like (runes (trimSpace value)) (prepare E t (trimSpace value)) ∧
      List.Forall₂ Like (runes (trimSpace value)) (bare (prepare E t (trimSpace value))) := by
  have hu := forall₂_prepare ht h
  have hmark : ∀ r ∈ runes (trimSpace value), r ≠ 0xFEFF := by
    intro r hr
    obtain ⟨b, -, hrb⟩ := Parts.exists_of_mem hu hr
    exact hrb.ne_mark
  have htrim := form_trim_eq hc (fun r hr => hmark r (mem_of_mem_head? hr))
    fun r hr => hmark r (mem_of_mem_getLast? hr)
  refine ⟨htrim, hu, ?_⟩
  have hinner : List.Forall₂ Like (Form.trim (runes (trimSpace value)))
      (bare (prepare E t (trimSpace value))) :=
    Parts.forall₂_inner Like.white hu
  rwa [← form_trim hc, htrim] at hinner

theorem ascii_ends (h : Quoting PlainByte v) :
    (∀ b ∈ v.head?, b < 0x80) ∧ ∀ b ∈ v.getLast?, b < 0x80 := by
  induction h with
  | nil => simp
  | @outside b s _ hb hs ih =>
    refine ⟨by simpa using hb.2, ?_⟩
    cases hlast : s.getLast? with
    | none => simpa [getLast?_cons, hlast] using hb.2
    | some c => simpa [getLast?_cons, hlast] using ih.2 c hlast
  | @quoted q s _ hs ih =>
    refine ⟨by simp, ?_⟩
    cases hlast : s.getLast? with
    | none => simp [getLast?_cons, getLast?_append, hlast]
    | some c => simpa [getLast?_cons, getLast?_append, hlast] using ih.2 c hlast

theorem no_mark_of_quoting (h : Quoting PlainByte v) :
    (∀ r ∈ (runes v).head?, r ≠ 0xFEFF) ∧ ∀ r ∈ (runes v).getLast?, r ≠ 0xFEFF := by
  obtain ⟨hfirst, hlast⟩ := ascii_ends h
  have hsmall : ∀ b : UInt8, b.toNat ≠ 0xFEFF := fun b => by
    have := UInt8.toNat_lt b
    omega
  refine ⟨fun r hr => ?_, fun r hr => ?_⟩
  · cases v with
    | nil => cases hr
    | cons b s =>
      rw [runes_cons (hfirst b rfl)] at hr
      cases hr
      exact hsmall b
  · rw [runes, getLast?_map, Option.mem_def, Option.map_eq_some_iff] at hr
    obtain ⟨p, hp, rfl⟩ := hr
    cases hv : v.getLast? with
    | none =>
      rw [getLast?_eq_none_iff.1 hv] at hp
      cases hp
    | some c =>
      rw [last_segment hv (hlast c hv) p (by rw [head?_reverse]; exact hp)]
      exact hsmall c

theorem host_accepted (hE : ReadsFields E) (ht : t = str "CNAME" ∨ t = str "NS" ∨ t = str "PTR")
    (hu : List.Forall₂ Like u (bare v)) (hne : u ≠ []) (hrules : semantic E rr₀ = .ok rr)
    (h : Read E t v rr₀) : ((Form.split u).length == 1 && u != [46]) = true := by
  obtain ⟨hblank, hroot⟩ := hE.host ht h
  have hwhite : ∀ r ∈ u, Form.white r = false := by
    intro r hr
    obtain ⟨b, hb, hrb⟩ := Parts.exists_of_mem hu hr
    rw [hrb.white, beq_eq_false_iff_ne]
    exact ne_of_mem_of_not_mem hb hblank
  have hone : Form.split u = [u] := Parts.parts_of_forall hwhite hne
  have hdot : u ≠ [46] := by
    rintro rfl
    -- the root is refused as a target
    have hbare : bare v = [dot] := by
      generalize bare v = s at hu
      cases hu with
      | cons hb hnil =>
        cases hnil
        have := hb.eq_iff (c := dot) (by decide)
        rw [eq_of_beq (this.symm.trans (by rfl))]
    rcases hroot hbare with rfl | rfl | rfl <;> cases hrules
  simp [hone, hdot]

theorem runes_ne_nil (h : s ≠ []) : runes s ≠ [] := by
  intro hnil
  rw [runes, map_eq_nil_iff] at hnil
  have := bytes_segments s
  rw [hnil] at this
  exact h this.symm

theorem enterable_free (ht : t ∈ [str "A", str "CNAME", str "NS", str "PTR", str "MX", str "SRV",
    str "NAPTR"])
    (u : List ℕ) : Enterable t u := by
  simp only [mem_cons, not_mem_nil, or_false] at ht
  rcases ht with rfl | rfl | rfl | rfl | rfl | rfl | rfl <;> exact trivial

theorem rule_host (ht : t = str "CNAME" ∨ t = str "NS" ∨ t = str "PTR") (u : List ℕ) :
    (Form.rule t u).1 = ((Form.split u).length == 1 && u != [46]) := by
  have hne : t ≠ str "A" ∧ t ≠ str "AAAA" := by rcases ht with rfl | rfl | rfl <;> decide
  rw [Form.rule, if_neg hne.1, if_neg hne.2, if_pos ht]

theorem rule_a (u : List ℕ) : (Form.rule (str "A") u).1 = Form.ipv4 u := rfl

theorem rule_mx (u : List ℕ) : (Form.rule (str "MX") u).1 = Form.mx (Form.split u) := rfl

theorem rule_srv (u : List ℕ) : (Form.rule (str "SRV") u).1 = Form.srv (Form.split u) := rfl

theorem rule_aaaa (u : List ℕ) : (Form.rule (str "AAAA") u).1 = Form.aaaa u ∧
    (Enterable (str "AAAA") u ↔ ¬ Form.chars "::ffff:" <+: u.map Form.lower) := ⟨rfl, Iff.rfl⟩

theorem rule_caa (u : List ℕ) : (Form.rule (str "CAA") u).1 = Form.caa (Form.split u) ∧
    (Enterable (str "CAA") u ↔ 3 ≤ (Form.split u).length ∧ (∀ s ∈ (Form.split u).take 2, 34 ∉ s) ∧
      ∀ s ∈ (Form.split u).take 1, Plain s) := ⟨rfl, Iff.rfl⟩

theorem rule_ds (u : List ℕ) : (Form.rule (str "DS") u).1 = Form.ds (Form.split u) ∧
    (Enterable (str "DS") u ↔ (Form.split u).length = 4 ∧
      ∀ s ∈ ((Form.split u).drop 2).take 1, Plain s) :=
  ⟨rfl, Iff.rfl⟩

theorem rule_tlsa (u : List ℕ) : (Form.rule (str "TLSA") u).1 = Form.tlsa (Form.split u) ∧
    (Enterable (str "TLSA") u ↔ (Form.split u).length = 4 ∧ ∀ s ∈ (Form.split u).take 3, Plain s) :=
      ⟨rfl, Iff.rfl⟩

theorem rule_sshfp (u : List ℕ) : (Form.rule (str "SSHFP") u).1 = Form.sshfp (Form.split u) ∧
    (Enterable (str "SSHFP") u ↔ (Form.split u).length = 3 ∧
      ∀ s ∈ (Form.split u).take 2, Plain s) := ⟨rfl, Iff.rfl⟩

theorem rule_dnskey (u : List ℕ) : (Form.rule (str "DNSKEY") u).1 = Form.dnskey (Form.split u) ∧
    (Enterable (str "DNSKEY") u ↔ ∀ s ∈ (Form.split u).take 2, Plain s) := ⟨rfl, Iff.rfl⟩

section Accepted

variable {rr₀ : RR} (hE : ReadsFields E) (hc : ∀ r ∈ runes value, isControl r = false)
  (hrules : semantic E rr₀ = .ok rr)

include hE hc hrules

theorem rule_free (ht : t ∈ [str "A", str "CNAME", str "NS", str "PTR", str "MX", str "SRV"])
    (hne : trimSpace value ≠ []) (hscan : scan (prepare E t (trimSpace value)) false = .ok ())
    (hnew : Read E t (prepare E t (trimSpace value)) rr₀) :
    Form.trim (runes value) ≠ [] ∧ (Form.rule t (Form.trim (runes value))).1 = true := by
  have hrunes := runes_ne_nil hne
  have htext : ∀ t ∈ [str "A", str "CNAME", str "NS", str "PTR", str "MX", str "SRV"],
      t ≠ str "TXT" ∧ t ≠ str "SPF" := by decide
  obtain ⟨htrim, hu, hbare⟩ := like_of_scan hc (htext t ht) hscan
  rw [htrim]
  refine ⟨hrunes, ?_⟩
  have hhost (hname : t = str "CNAME" ∨ t = str "NS" ∨ t = str "PTR") :
      (Form.rule t (runes (trimSpace value))).1 = true := by
    rw [rule_host hname]
    exact host_accepted hE hname hbare hrunes hrules hnew
  simp only [mem_cons, not_mem_nil, or_false] at ht
  rcases ht with rfl | hname | hname | hname | rfl | rfl
  · obtain ⟨ip, hip⟩ := hE.a hnew
    rw [rule_a]
    exact ipv4_of_parseIPv4 hbare hip
  · exact hhost (.inl hname)
  · exact hhost (.inr (.inl hname))
  · exact hhost (.inr (.inr hname))
  · rw [rule_mx]
    exact mx_accepted hE (forall₂_fields hu) hnew
  · rw [rule_srv]
    exact srv_accepted hE (forall₂_fields hu) hnew

theorem rule_strict (ht : t ∈ [str "AAAA", str "DS", str "DNSKEY", str "TLSA", str "SSHFP"])
    (hscan : scan (prepare E t (trimSpace value)) false = .ok ())
    (hnew : Read E t (prepare E t (trimSpace value)) rr₀) :
    Form.trim (runes value) = runes (trimSpace value) ∧
      ((Form.rule t (runes (trimSpace value))).1 = true ↔
        Enterable t (runes (trimSpace value))) := by
  have htext : ∀ t ∈ [str "AAAA", str "DS", str "DNSKEY", str "TLSA", str "SSHFP"],
      t ≠ str "TXT" ∧ t ≠ str "SPF" := by decide
  obtain ⟨htrim, hu, hbare⟩ := like_of_scan hc (htext t ht) hscan
  refine ⟨htrim, ?_⟩
  simp only [mem_cons, not_mem_nil, or_false] at ht
  rcases ht with rfl | rfl | rfl | rfl | rfl
  · obtain ⟨hcolon, ip, hip⟩ := hE.aaaa hnew
    rw [(rule_aaaa _).1, (rule_aaaa _).2, aaaa_of_parseIPv6 hbare hcolon hip, Bool.not_eq_true',
      decide_eq_false_iff_not]
  · rw [(rule_ds _).1, (rule_ds _).2]
    exact ds_accepted hE (forall₂_fields hu) hrules hnew
  · rw [(rule_dnskey _).1, (rule_dnskey _).2]
    exact dnskey_accepted hE (forall₂_fields hu) hrules hnew
  · rw [(rule_tlsa _).1, (rule_tlsa _).2]
    exact tlsa_accepted hE (forall₂_fields hu) hrules hnew
  · rw [(rule_sshfp _).1, (rule_sshfp _).2]
    exact sshfp_accepted hE (forall₂_fields hu) hrules hnew

theorem rule_authority (hscan : scan (trimSpace value) true = .ok ())
    (hnew : Read E (str "CAA") (trimSpace value) rr₀) :
    Form.trim (runes value) = runes (trimSpace value) ∧
      ((Form.rule (str "CAA") (runes (trimSpace value))).1 = true ↔
        Enterable (str "CAA") (runes (trimSpace value))) := by
  obtain ⟨hctl, hloop⟩ := scan_eq_ok.1 hscan
  have hq := scanLoop_true_iff.1 hloop
  obtain ⟨hfirst, hlast⟩ := no_mark_of_quoting hq
  refine ⟨form_trim_eq hc hfirst hlast, ?_⟩
  rw [(rule_caa _).1, (rule_caa _).2]
  exact caa_accepted hE hctl hq hrules
    (fun r hr => not_white ((ends_trimSpace value).1 r hr) (hfirst r hr)) hnew

end Accepted

theorem editable_cases : ∀ t ∈ editableTypes, (t = str "TXT" ∨ t = str "SPF") ∨
    t ∈ [str "A", str "CNAME", str "NS", str "PTR", str "MX", str "SRV"] ∨
    t ∈ [str "AAAA", str "DS", str "DNSKEY", str "TLSA", str "SSHFP"] ∨ t = str "CAA" ∨
    t = str "NAPTR" := by decide

theorem quotedType_plain : ∀ t ∈ [str "A", str "CNAME", str "NS", str "PTR", str "MX", str "SRV"] ++
    [str "AAAA", str "DS", str "DNSKEY", str "TLSA", str "SSHFP"], quotedType t = false := by decide

theorem rule_iff (hE : ReadsFields E) (ht : t ∈ editableTypes)
    (hc : ∀ r ∈ runes value, isControl r = false)
    (hne : trimSpace value ≠ []) (hp : Parsed E z t (trimSpace value) rr₀ rr) :
    Form.trim (runes value) ≠ [] ∧ (Form.rule t (Form.trim (runes value))).1 = true ↔
      Enterable t (Form.trim (runes value)) := by
  have hrunes := runes_ne_nil hne
  have hnew : Read E t (prepare E t (trimSpace value)) rr₀ := ⟨z, _, rr, hp, rfl⟩
  obtain ⟨-, -, hscan, -, hrules⟩ := hp
  rcases editable_cases t ht with htext | hfree | hstrict | rfl | rfl
  · have hrule : (Form.rule t (Form.trim (runes value))).1 = true := by
      rcases htext with rfl | rfl <;> rfl
    rw [Enterable, if_pos htext, hrule]
    exact and_iff_left rfl
  · rw [quotedType_plain t (mem_append_left _ hfree)] at hscan
    exact iff_of_true (rule_free hE hc hrules hfree hne hscan hnew)
      (enterable_free (mem_append_left [str "NAPTR"] hfree) _)
  · rw [quotedType_plain t (mem_append_right _ hstrict)] at hscan
    obtain ⟨htrim, hrule⟩ := rule_strict hE hc hrules hstrict hscan hnew
    rw [htrim, hrule]
    exact and_iff_right hrunes
  · obtain ⟨htrim, hrule⟩ := rule_authority hE hc hrules hscan hnew
    rw [htrim, hrule]
    exact and_iff_right hrunes
  · obtain ⟨-, hloop⟩ := scan_eq_ok.1 hscan
    obtain ⟨hfirst, hlast⟩ := no_mark_of_quoting (scanLoop_true_iff.1 hloop)
    rw [form_trim_eq hc hfirst hlast]
    exact iff_of_true ⟨hrunes, rfl⟩ (enterable_free (by decide) _)

/-- **The form and the server.**  About a value without control characters that the server accepts,
    the form says nothing if and only if the value is one that can be entered. -/
theorem checkContent_iff {zone out : Str} (hE : ReadsFields E) (ht : t ∈ editableTypes)
    (hc : ∀ r ∈ runes value, isControl r = false) (hok : contentOf E t zone value = .ok out) :
    Form.checkContent t (runes value) = [] ↔ Enterable t (Form.trim (runes value)) := by
  obtain ⟨z, t', hzone, htype, hcontent⟩ := contentOf_eq_ok.1 hok
  obtain rfl : t' = t := by
    rw [(editableType_spec htype).1, toUpper_editable ht]
  obtain ⟨hne, -, hdir, rr₀, rr, hp, -⟩ :=
    (content_eq_ok (canonicalZone_spec hzone).plainName ht).1 hcontent
  have hinfix : Form.trim (runes value) <:+: runes (trimSpace value) := by
    rw [form_trim hc]
    exact Parts.inner_infix _ _
  rw [checkContent_eq_nil (form_hasControl hc) (form_hasDirective hinfix hdir)]
  exact rule_iff hE ht hc hne hp

/-! ## A library -/

theorem bare_eq (h : 32 ∉ s) : bare s = s := by
  have hne : ∀ b ∈ s, (b == 32) = false := fun b hb =>
    beq_eq_false_iff_ne.2 (ne_of_mem_of_not_mem hb h)
  exact Parts.inner_of_ends (fun b hb => hne b (mem_of_mem_head? hb)) fun b hb =>
    hne b (mem_of_mem_getLast? hb)

theorem words_append {f : Str} {k : ℕ} (hk : 0 < k) (hne : f ≠ []) (hf : 32 ∉ f) (rest : Str) :
    words (f ++ (List.replicate k 32 ++ rest)) = f :: words rest := by
  obtain ⟨k, rfl⟩ : ∃ m, k = m + 1 := ⟨k - 1, by omega⟩
  rw [words, replicate_succ, cons_append, Parts.parts_append rfl,
    Parts.parts_blanks_append _ fun x hx => beq_iff_eq.2 (eq_of_mem_replicate hx),
    Parts.parts_of_forall (fun b hb => beq_eq_false_iff_ne.2 (ne_of_mem_of_not_mem hb hf)) hne]
  rfl

def fieldTypes : List Str :=
  [str "MX", str "SRV", str "CAA", str "DS", str "DNSKEY", str "TLSA", str "SSHFP"]

def short (s : Str) : Option ℕ := (Addr.decimal s).filter (· ≤ 65535)

def fieldRecord (t : Str) : List Str → Option RR
  | [a, n] => if t = str "MX" then (short a).map fun i => .mx i n else none
  | a :: b :: c :: rest =>
    if t = str "MX" then none
    else if t = str "SRV" then
      if rest.length = 1 then
        (short a).bind fun i => (short b).bind fun j => (short c).map fun k =>
          .srv i j k rest.flatten
      else none
    else if t = str "CAA" then
      if rest = [] then
        (Addr.decimal a).bind fun i => (readStrings c.length c).map fun ss => .caa i b ss.flatten
      else none
    else if t = str "SSHFP" then
      (Addr.decimal a).bind fun i => (Addr.decimal b).map fun j => .sshfp i j (c :: rest).flatten
    else if rest = [] then none
    else
      (Addr.decimal a).bind fun i => (Addr.decimal b).bind fun j => (Addr.decimal c).map fun k =>
        if t = str "DS" then .ds i j k rest.flatten
        else if t = str "DNSKEY" then .dnskey i j k rest.flatten
        else .tlsa i j k rest.flatten
  | _ => none

def fieldText : RR → Str
  | .spf ss => charStrings ss
  | .mx i n => join 32 [Addr.itoa i, n]
  | .caa flag tag value => join 32 [Addr.itoa flag, tag, charString value]
  | .srv i j k s | .ds i j k s | .dnskey i j k s | .tlsa i j k s =>
    join 32 [Addr.itoa i, Addr.itoa j, Addr.itoa k, s]
  | .sshfp i j s => join 32 [Addr.itoa i, Addr.itoa j, s]
  | rr => samplePrinter.rdata rr

inductive FieldsOf : Str → List Str → RR → Prop
  | mx {a n i} : short a = some i → FieldsOf (str "MX") [a, n] (.mx i n)
  | srv {a b c n i j k} : short a = some i → short b = some j → short c = some k →
    FieldsOf (str "SRV") [a, b, c, n] (.srv i j k n)
  | caa {a b c i s} : Addr.decimal a = some i → FieldsOf (str "CAA") [a, b, c] (.caa i b s)
  | ds {a b c x rest i j k} : Addr.decimal c = some k →
    FieldsOf (str "DS") (a :: b :: c :: x :: rest) (.ds i j k (x :: rest).flatten)
  | dnskey {a b c x rest i j k} : Addr.decimal a = some i → Addr.decimal b = some j →
    FieldsOf (str "DNSKEY") (a :: b :: c :: x :: rest) (.dnskey i j k (x :: rest).flatten)
  | tlsa {a b c x rest i j k} : Addr.decimal a = some i → Addr.decimal b = some j →
    Addr.decimal c = some k →
    FieldsOf (str "TLSA") (a :: b :: c :: x :: rest) (.tlsa i j k (x :: rest).flatten)
  | sshfp {a b x rest i j} : Addr.decimal a = some i → Addr.decimal b = some j →
    FieldsOf (str "SSHFP") (a :: b :: x :: rest) (.sshfp i j (x :: rest).flatten)

theorem FieldsOf.type {ws : List Str} (h : FieldsOf t ws rr) : rr.type = t := by
  cases h <;> rfl

theorem fieldsOf {ws : List Str} (ht : t ∈ fieldTypes) (h : fieldRecord t ws = some rr) :
    FieldsOf t ws rr := by
  rcases ws with - | ⟨a, - | ⟨b, - | ⟨c, rest⟩⟩⟩
  iterate 2 cases h
  · obtain ⟨rfl, h⟩ := Option.ite_none_right_eq_some.1 h
    obtain ⟨i, hi, rfl⟩ := Option.map_eq_some_iff.1 h
    exact .mx hi
  rw [fieldRecord] at h
  obtain ⟨hmx, h⟩ := Option.ite_none_left_eq_some.1 h
  by_cases hsrv : t = str "SRV"
  · subst hsrv
    obtain ⟨hrest, h⟩ := Option.ite_none_right_eq_some.1 ((if_pos rfl).symm.trans h)
    obtain ⟨n, rfl⟩ := length_eq_one_iff.1 hrest
    obtain ⟨i, hi, h⟩ := Option.bind_eq_some_iff.1 h
    obtain ⟨j, hj, h⟩ := Option.bind_eq_some_iff.1 h
    obtain ⟨k, hk, rfl⟩ := Option.map_eq_some_iff.1 h
    exact flatten_singleton ▸ .srv hi hj hk
  rw [if_neg hsrv] at h
  by_cases hcaa : t = str "CAA"
  · subst hcaa
    obtain ⟨rfl, h⟩ := Option.ite_none_right_eq_some.1 ((if_pos rfl).symm.trans h)
    obtain ⟨i, hi, h⟩ := Option.bind_eq_some_iff.1 h
    obtain ⟨ss, -, rfl⟩ := Option.map_eq_some_iff.1 h
    exact .caa hi
  rw [if_neg hcaa] at h
  by_cases hssh : t = str "SSHFP"
  · subst hssh
    obtain ⟨i, hi, h⟩ := Option.bind_eq_some_iff.1 ((if_pos rfl).symm.trans h)
    obtain ⟨j, hj, rfl⟩ := Option.map_eq_some_iff.1 h
    exact .sshfp hi hj
  rw [if_neg hssh] at h
  obtain ⟨hrest, h⟩ := Option.ite_none_left_eq_some.1 h
  obtain ⟨x, rest, rfl⟩ := exists_cons_of_ne_nil hrest
  obtain ⟨i, hi, h⟩ := Option.bind_eq_some_iff.1 h
  obtain ⟨j, hj, h⟩ := Option.bind_eq_some_iff.1 h
  obtain ⟨k, hk, rfl⟩ := Option.map_eq_some_iff.1 h
  simp only [fieldTypes, mem_cons, hmx, hsrv, hcaa, hssh, not_mem_nil, false_or, or_false] at ht
  rcases ht with rfl | rfl | rfl
  exacts [.ds hk, .dnskey hi hj, .tlsa hi hj hk]

def fieldReader : Env where
  __ := samplePrinter
  newRR z t v :=
    if t ∈ fieldTypes then (fieldRecord t (words v)).filter plainNames
    else if t = str "SPF" then ((readStrings v.length v).filter fun ss => TextStrings ss).map .spf
    else samplePrinter.newRR z t v
  rdata := fieldText
  newRR_type z t v rr hz ht h := by
    split_ifs at h with hfields hspf
    · exact (fieldsOf hfields (Option.filter_eq_some_iff.1 h).1).type
    · obtain ⟨_, -, rfl⟩ := Option.map_eq_some_iff.1 h
      exact hspf.symm
    · exact samplePrinter.newRR_type z t v rr hz ht h
  newRR_a := samplePrinter.newRR_a
  newRR_aaaa := samplePrinter.newRR_aaaa
  newRR_ptr := samplePrinter.newRR_ptr
  rdata_a := samplePrinter.rdata_a
  rdata_aaaa := samplePrinter.rdata_aaaa
  rdata_ptr := samplePrinter.rdata_ptr
  rdata_txt z v rr hz h := by
    have ht := samplePrinter.newRR_type z _ _ rr hz (by decide) h
    cases rr with
    | txt => exact samplePrinter.rdata_txt z v _ hz h
    | _ => exact absurd ht (by simp only [RR.type]; decide)
  newRR_txt z ss hz hss := ⟨.txt ss, newRR_charStrings hss, rfl⟩

theorem newRR_plain (ht : t ∉ str "SPF" :: fieldTypes) (h : Read fieldReader t v rr) :
    Env.Sample.newRR [] t v = some rr ∧ plainNames rr = true := by
  obtain ⟨z, v, rr', hp, rfl⟩ := h
  have h := hp.parsed
  refine Option.filter_eq_some_iff.1 (Eq.trans ?_ h)
  exact ((if_neg (not_mem_of_not_mem_cons ht)).trans (if_neg (ne_of_not_mem_cons ht))).symm

theorem Read.fieldsOf (h : Read fieldReader t v rr) (ht : t ∈ fieldTypes) :
    FieldsOf t (words v) rr := by
  obtain ⟨z, v, rr', hp, rfl⟩ := h
  exact Validate.fieldsOf ht (Option.filter_eq_some_iff.1 ((if_pos ht).symm.trans hp.parsed)).1

theorem short_spec (h : short s = some n) : Short s :=
  ⟨n, (Option.filter_eq_some_iff.1 h).1, of_decide_eq_true (Option.filter_eq_some_iff.1 h).2⟩

theorem readsFields_fieldReader : ReadsFields fieldReader where
  a := by
    intro v rr h
    obtain ⟨hrr, -⟩ := newRR_plain (by decide) h
    obtain ⟨ip, hip, -⟩ := Option.map_eq_some_iff.1
      (show (Addr.parseIPv4 v).map RR.a = some rr from hrr)
    have hblank : 32 ∉ v := fun hm => absurd (Addr.mem_of_parseIPv4 hip 32 hm) (by decide)
    exact ⟨ip, by rwa [bare_eq hblank]⟩
  aaaa := by
    intro v rr h
    obtain ⟨hrr, -⟩ := newRR_plain (by decide) h
    obtain ⟨ip, hip, -⟩ :=
      Option.map_eq_some_iff.1 (show (Addr.parseIPv6 v).map RR.aaaa = some rr from hrr)
    have hblank : 32 ∉ v := fun hm => absurd (Addr.mem_of_parseIPv6 hip 32 hm) (by decide)
    rw [bare_eq hblank]
    exact ⟨Addr.colon_mem_of_parseIPv6 hip, ip, hip⟩
  host := by
    intro t v rr ht h
    obtain ⟨hrr, hplain⟩ := newRR_plain (by rcases ht with rfl | rfl | rfl <;> decide) h
    have hform : rr = .cname v ∨ rr = .ns v ∨ rr = .ptr v := by
      rcases ht with rfl | rfl | rfl
      · exact .inl (Option.some.inj hrr).symm
      · exact .inr (.inl (Option.some.inj hrr).symm)
      · exact .inr (.inr (Option.some.inj hrr).symm)
    have hblank : 32 ∉ v := by
      intro hm
      rcases hform with rfl | rfl | rfl <;>
        exact absurd (all_eq_true.1 (Bool.and_eq_true_iff.1 hplain).2 32 hm) (by decide)
    rw [bare_eq hblank]
    exact ⟨hblank, fun hv => by rwa [hv] at hform⟩
  mx := by
    intro v rr h
    have h := h.fieldsOf (by decide)
    generalize words v = ws at h
    cases h with
    | mx hi => exact ⟨_, _, rfl, short_spec hi⟩
  srv := by
    intro v rr h
    have h := h.fieldsOf (by decide)
    generalize words v = ws at h
    cases h with
    | srv hi hj hk => exact ⟨_, _, _, _, rfl, short_spec hi, short_spec hj, short_spec hk⟩
  caa := by
    intro f k g l rest rr hf hg hk hl hne hfg h
    have h := h.fieldsOf (by decide)
    rw [words_append hk hf fun hm => (hfg 32 (mem_append_left _ hm)).1 rfl,
      words_append hl hg fun hm => (hfg 32 (mem_append_right _ hm)).1 rfl] at h
    generalize words rest = ws at h
    cases h with
    | caa hi => exact ⟨_, _, hi, rfl⟩
  ds := by
    intro v rr h
    have h := h.fieldsOf (by decide)
    generalize words v = ws at h
    cases h with
    | ds hk => exact ⟨_, _, _, _, _, _, _, _, rfl, hk, rfl⟩
  dnskey := by
    intro v rr h
    have h := h.fieldsOf (by decide)
    generalize words v = ws at h
    cases h with
    | dnskey hi hj => exact ⟨_, _, _, _, _, _, _, _, rfl, hi, hj, rfl⟩
  tlsa := by
    intro v rr h
    have h := h.fieldsOf (by decide)
    generalize words v = ws at h
    cases h with
    | tlsa hi hj hk => exact ⟨_, _, _, _, _, _, _, _, rfl, hi, hj, hk, rfl⟩
  sshfp := by
    intro v rr h
    have h := h.fieldsOf (by decide)
    generalize words v = ws at h
    cases h with
    | sshfp hi hj => exact ⟨_, _, _, _, _, _, rfl, hi, hj, rfl⟩

/-- A delegation with the digest type in these digits. -/
def delegation (digits : String) : Str :=
  str "60485 5 " ++ str digits ++ str " 2bb183af5f22588179a53b0a98631fad1a292118"

/-- The same delegation twice, with and without a leading zero: the server accepts both. -/
theorem checkContent_delegation : ReadsFields fieldReader ∧ str "DS" ∈ editableTypes ∧
    (∀ d ∈ ["1", "01"], (∀ r ∈ runes (delegation d), isControl r = false) ∧
      contentOf fieldReader (str "DS") (str "example.com") (delegation d) =
        .ok (toUpper .ascii (delegation "1"))) ∧
    Form.checkContent (str "DS") (runes (delegation "1")) = [] ∧
    Form.checkContent (str "DS") (runes (delegation "01")) ≠ [] := by
  have ht : str "DS" ∈ editableTypes := by decide
  have hok : ∀ d ∈ ["1", "01"], (∀ r ∈ runes (delegation d), isControl r = false) ∧
      contentOf fieldReader (str "DS") (str "example.com") (delegation d) =
        .ok (toUpper .ascii (delegation "1")) := by
    decide +kernel
  have hiff (d : String) (hd : d ∈ ["1", "01"]) := checkContent_iff readsFields_fieldReader ht
    (hok d hd).1 (hok d hd).2
  refine ⟨readsFields_fieldReader, ht, hok, (hiff "1" (by decide)).2 ?_,
    fun h => absurd ((hiff "01" (by decide)).1 h) ?_⟩
  all_goals rw [Enterable]; decide +kernel

/-- An address that only looks like a mapped one: the server accepts it, the form does not. -/
theorem checkContent_refuses : (∀ r ∈ runes (str "::ffff:1:2:3"), isControl r = false) ∧
    contentOf samplePrinter (str "AAAA") (str "example.com") (str "::ffff:1:2:3") =
      .ok (str "::ffff:1:2:3") ∧
    Form.checkContent (str "AAAA") (runes (str "::ffff:1:2:3")) = str "Enter an IPv6 address." := by
  refine ⟨?_, ?_, ?_⟩ <;> decide +kernel

end TangraDns.Validate
