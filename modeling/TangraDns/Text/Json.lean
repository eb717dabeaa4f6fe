/-
  JSON texts as byte strings: the grammar of RFC 8259, and a scanner that finds the
  end of the first value of a text, as a streaming decoder does.
-/
import Mathlib.Data.List.TakeWhile
import TangraDns.Text.Bytes

namespace Json

open List Str

variable {d v t : Str} {inside more : Str → Option Str} {c : UInt8}

/-! ## The grammar -/

def isWhite (b : UInt8) : Bool := b == 32 || b == 9 || b == 10 || b == 13

def isDigit (b : UInt8) : Bool := 48 ≤ b && b ≤ 57

def isHex (b : UInt8) : Bool := isDigit b || (97 ≤ b && b ≤ 102) || (65 ≤ b && b ≤ 70)

def escapes : Str := str "\"\\/bfnrt"

def White (s : Str) : Prop := ∀ b ∈ s, isWhite b = true

def Digits (s : Str) : Prop := s ≠ [] ∧ ∀ b ∈ s, isDigit b = true

inductive Chars : Str → Prop
  | nil : Chars []
  | plain {c : UInt8} {s : Str} (hc : 0x20 ≤ c ∧ c ≠ 34 ∧ c ≠ 92) (h : Chars s) : Chars (c :: s)
  | escape {c : UInt8} {s : Str} (hc : c ∈ escapes) (h : Chars s) : Chars (92 :: c :: s)
  | unicode {hex s : Str} (hlen : hex.length = 4) (hhex : ∀ b ∈ hex, isHex b = true) (h : Chars s) :
      Chars (92 :: 117 :: (hex ++ s))

def Whole (s : Str) : Prop := s = [48] ∨ Digits s ∧ s.head? ≠ some 48

def Fraction (s : Str) : Prop := s = [] ∨ ∃ d, Digits d ∧ s = 46 :: d

def Exponent (s : Str) : Prop :=
  s = [] ∨ ∃ (e : UInt8) (sign d : Str), (e = 101 ∨ e = 69) ∧
    (sign = [] ∨ sign = [43] ∨ sign = [45]) ∧ Digits d ∧
    s = e :: (sign ++ d)

def Number (s : Str) : Prop :=
  ∃ sign whole fraction exponent, (sign = [] ∨ sign = [45]) ∧ Whole whole ∧ Fraction fraction ∧
    Exponent exponent ∧
    s = sign ++ (whole ++ (fraction ++ exponent))

def literals : List Str := [str "true", str "false", str "null"]

inductive Part where
  | value | elements | members

/-- The texts of each part; elements and members come with the white space around them. -/
inductive Derives : Part → Str → Prop
  | literal {s : Str} (h : s ∈ literals) : Derives .value s
  | number {s : Str} (h : Number s) : Derives .value s
  | string {s : Str} (h : Chars s) : Derives .value (34 :: (s ++ [34]))
  | emptyArray {w : Str} (hw : White w) : Derives .value (91 :: (w ++ [93]))
  | array {s : Str} (h : Derives .elements s) : Derives .value (91 :: (s ++ [93]))
  | emptyObject {w : Str} (hw : White w) : Derives .value (123 :: (w ++ [125]))
  | object {s : Str} (h : Derives .members s) : Derives .value (123 :: (s ++ [125]))
  | element {w v w' : Str} (hw : White w) (h : Derives .value v) (hw' : White w') :
      Derives .elements (w ++ (v ++ w'))
  | elements {w v w' s : Str} (hw : White w) (h : Derives .value v) (hw' : White w')
      (hs : Derives .elements s) :
      Derives .elements (w ++ (v ++ (w' ++ 44 :: s)))
  | member {w k w₁ w₂ v w' : Str} (hw : White w) (hk : Chars k) (hw₁ : White w₁) (hw₂ : White w₂)
      (h : Derives .value v) (hw' : White w') :
      Derives .members (w ++ 34 :: (k ++ 34 :: (w₁ ++ 58 :: (w₂ ++ (v ++ w')))))
  | members {w k w₁ w₂ v w' s : Str} (hw : White w) (hk : Chars k) (hw₁ : White w₁) (hw₂ : White w₂)
      (h : Derives .value v) (hw' : White w') (hs : Derives .members s) :
      Derives .members (w ++ 34 :: (k ++ 34 :: (w₁ ++ 58 :: (w₂ ++ (v ++ (w' ++ 44 :: s))))))

def Value (s : Str) : Prop := Derives .value s

/-- One value with nothing but white space around it. -/
def OneValue (s : Str) : Prop := ∃ w v w', White w ∧ Value v ∧ White w' ∧ s = w ++ (v ++ w')

/-! ## The scanner

Each function gives what is left of the text after the part it reads. -/

def skip (s : Str) : Str := s.dropWhile isWhite

def expect (b : UInt8) : Str → Option Str
  | c :: s => if c = b then some s else none
  | [] => none

/-- Where the scanner is within a string: between characters, after a backslash, or before a
    hexadecimal digit and `n` more. -/
inductive Mode where
  | text | escaped | hex (n : ℕ)

/-- The mode with `n` hexadecimal digits still to come. -/
def Mode.after : ℕ → Mode
  | 0 => .text
  | n + 1 => .hex n

def chars : Mode → Str → Option Str
  | _, [] => none
  | .text, c :: s =>
    if c = 34 then some s else if c = 92 then chars .escaped s
      else if 0x20 ≤ c then chars .text s else none
  | .escaped, c :: s => if c ∈ escapes then chars .text s
      else if c = 117 then chars (.hex 3) s else none
  | .hex n, c :: s => if isHex c then chars (.after n) s else none

def digits (s : Str) : Option Str :=
  match s with
  | c :: s => if isDigit c then some (s.dropWhile isDigit) else none
  | [] => none

def whole : Str → Option Str
  | c :: s => if c = 48 then some s else digits (c :: s)
  | [] => none

def fraction : Str → Option Str
  | c :: s => if c = 46 then digits s else some (c :: s)
  | [] => some []

def sign (signs : Str) : Str → Str
  | c :: s => if c ∈ signs then s else c :: s
  | [] => []

def exponent : Str → Option Str
  | c :: s => if c = 101 ∨ c = 69 then digits (sign [43, 45] s) else some (c :: s)
  | [] => some []

def number (s : Str) : Option Str := (whole (sign [45] s)).bind fun s => (fraction s).bind exponent

def literal (s : Str) : Option Str :=
  literals.findSome? fun w => if w <+: s then some (s.drop w.length) else none

def closed (b : UInt8) (inside : Str → Option Str) (s : Str) : Option Str :=
  if (skip s).head? = some b then expect b (skip s) else (inside s).bind (expect b)

/-- What follows an element or member: a comma and `more` of them, or nothing. -/
def rest (more : Str → Option Str) (s : Str) : Option Str :=
  if (skip s).head? = some 44 then (expect 44 (skip s)).bind more else some (skip s)

/-- The part at the front of a text, in at most `n` calls within each other. -/
def scan : ℕ → Part → Str → Option Str
  | 0, _, _ => none
  | _ + 1, .value, [] => none
  | n + 1, .value, c :: s =>
    if c = 34 then chars .text s
    else if c = 91 then closed 93 (scan n .elements) s
    else if c = 123 then closed 125 (scan n .members) s
    else if c = 116 ∨ c = 102 ∨ c = 110 then literal (c :: s)
    else number (c :: s)
  | n + 1, .elements, s => (scan n .value (skip s)).bind (rest (scan n .elements))
  | n + 1, .members, s =>
    (expect 34 (skip s)).bind fun s =>
      (chars .text s).bind fun s =>
        (expect 58 (skip s)).bind fun s => (scan n .value (skip s)).bind (rest (scan n .members))

def next (s : Str) : Option (Str × Str) :=
  (scan (2 * (skip s).length) .value (skip s)).map fun r =>
    ((skip s).take ((skip s).length - r.length), r)

/-! ## What is read is derived -/

variable {s r w : Str} {b : UInt8}

theorem exists_skip (s : Str) : ∃ w, White w ∧ s = w ++ skip s :=
  ⟨s.takeWhile isWhite, fun _ hb => mem_takeWhile_imp hb, (takeWhile_append_dropWhile).symm⟩

theorem expect_eq_some : expect b s = some r ↔ s = b :: r := by
  cases s with
  | nil => simp [expect]
  | cons c s => simp [expect]

def Mode.Before : Mode → Str → Prop
  | .text, p => p = []
  | .escaped, p => p = [92]
  | .hex n, p => ∃ h, p = 92 :: 117 :: h ∧ h.length + n = 3 ∧ ∀ b ∈ h, isHex b = true

theorem chars_sound {m : Mode} (h : chars m s = some r) :
    ∃ t, s = t ++ 34 :: r ∧ ∀ p, m.Before p → Chars (p ++ t) := by
  induction s generalizing m with
  | nil => cases m <;> cases h
  | cons c s ih =>
    cases m with
    | text =>
      rw [chars] at h
      split_ifs at h with hquote hback hplain
      · cases h
        exact ⟨[], by simp [hquote], by rintro _ rfl; exact .nil⟩
      · obtain ⟨t, rfl, ht⟩ := ih h
        exact ⟨c :: t, rfl, by rintro _ rfl; rw [hback]; exact ht [92] rfl⟩
      · obtain ⟨t, rfl, ht⟩ := ih h
        exact ⟨c :: t, rfl, by rintro _ rfl; exact .plain ⟨hplain, hquote, hback⟩ (ht [] rfl)⟩
    | escaped =>
      rw [chars] at h
      split_ifs at h with hesc hu
      · obtain ⟨t, rfl, ht⟩ := ih h
        exact ⟨c :: t, rfl, by rintro _ rfl; exact .escape hesc (ht [] rfl)⟩
      · obtain ⟨t, rfl, ht⟩ := ih h
        exact ⟨c :: t, rfl, by rintro _ rfl; rw [hu]; exact ht [92, 117] ⟨[], rfl, rfl, by simp⟩⟩
    | hex n =>
      rw [chars] at h
      split_ifs at h with hhex
      obtain ⟨t, rfl, ht⟩ := ih h
      refine ⟨c :: t, rfl, ?_⟩
      rintro _ ⟨d, rfl, hlen, hd⟩
      have hd' : ∀ b ∈ d ++ [c], isHex b = true := by
        intro b hb
        rcases mem_append.1 hb with hb | hb
        · exact hd b hb
        · rwa [mem_singleton.1 hb]
      cases n with
      | zero => simpa using Chars.unicode (s := t) (by simpa using hlen) hd' (ht [] rfl)
      | succ n => simpa using ht (92 :: 117 :: (d ++ [c])) ⟨d ++ [c], rfl, by simp; omega, hd'⟩

theorem digits_sound (h : digits s = some r) : ∃ d, Digits d ∧ s = d ++ r := by
  cases s with
  | nil => cases h
  | cons c s =>
    rw [digits] at h
    split_ifs at h with hc
    cases h
    refine ⟨c :: s.takeWhile isDigit, ⟨by simp, ?_⟩, by simp [takeWhile_append_dropWhile]⟩
    simpa [hc] using fun b hb => mem_takeWhile_imp hb

theorem whole_sound (h : whole s = some r) : ∃ d, Whole d ∧ s = d ++ r := by
  cases s with
  | nil => cases h
  | cons c s =>
    rw [whole] at h
    split_ifs at h with hc
    · cases h
      exact ⟨[48], .inl rfl, by simp [hc]⟩
    · obtain ⟨d, hd, hs⟩ := digits_sound h
      refine ⟨d, .inr ⟨hd, ?_⟩, hs⟩
      obtain ⟨c', d, rfl⟩ := exists_cons_of_ne_nil hd.1
      rw [cons_append, List.cons.injEq] at hs
      simpa [← hs.1] using hc

theorem fraction_sound (h : fraction s = some r) : ∃ d, Fraction d ∧ s = d ++ r := by
  cases s with
  | nil =>
    cases h
    exact ⟨[], .inl rfl, rfl⟩
  | cons c s =>
    rw [fraction] at h
    split_ifs at h with hc
    · obtain ⟨d, hd, rfl⟩ := digits_sound h
      exact ⟨46 :: d, .inr ⟨d, hd, rfl⟩, by simp [hc]⟩
    · cases h
      exact ⟨[], .inl rfl, rfl⟩

theorem sign_sound (signs s : Str) :
    ∃ p, (p = [] ∨ ∃ b ∈ signs, p = [b]) ∧ s = p ++ sign signs s := by
  cases s with
  | nil => exact ⟨[], .inl rfl, rfl⟩
  | cons c s =>
    rw [sign]
    split_ifs with hc
    · exact ⟨[c], .inr ⟨c, hc, rfl⟩, rfl⟩
    · exact ⟨[], .inl rfl, rfl⟩

theorem exponent_sound (h : exponent s = some r) : ∃ d, Exponent d ∧ s = d ++ r := by
  cases s with
  | nil =>
    cases h
    exact ⟨[], .inl rfl, rfl⟩
  | cons c s =>
    rw [exponent] at h
    split_ifs at h with hc
    · obtain ⟨d, hd, hs⟩ := digits_sound h
      obtain ⟨p, hp, hsign⟩ := sign_sound [43, 45] s
      refine ⟨c :: (p ++ d), .inr ⟨c, p, d, hc, by simpa using hp, hd, rfl⟩, ?_⟩
      rw [hsign, hs]
      simp
    · cases h
      exact ⟨[], .inl rfl, rfl⟩

theorem number_sound (h : number s = some r) : ∃ d, Number d ∧ s = d ++ r := by
  obtain ⟨r₁, hwhole, h⟩ := Option.bind_eq_some_iff.1 h
  obtain ⟨r₂, hfraction, hexponent⟩ := Option.bind_eq_some_iff.1 h
  obtain ⟨p, hp, hs⟩ := sign_sound [45] s
  obtain ⟨d, hd, hs₁⟩ := whole_sound hwhole
  obtain ⟨f, hf, rfl⟩ := fraction_sound hfraction
  obtain ⟨e, he, rfl⟩ := exponent_sound hexponent
  refine ⟨p ++ (d ++ (f ++ e)), ⟨p, d, f, e, by simpa using hp, hd, hf, he, rfl⟩, ?_⟩
  rw [hs, hs₁]
  simp

theorem literal_sound (h : literal s = some r) : ∃ v ∈ literals, s = v ++ r := by
  obtain ⟨v, hv, h⟩ := exists_of_findSome?_eq_some h
  split_ifs at h with hpre
  obtain ⟨t, rfl⟩ := hpre
  exact ⟨v, hv, by simpa using h⟩

theorem closed_sound (h : closed b inside s = some r) :
    (∃ w, White w ∧ s = w ++ b :: r) ∨ inside s = some (b :: r) := by
  rw [closed] at h
  split_ifs at h with hempty
  · obtain ⟨w, hw, hs⟩ := exists_skip s
    exact .inl ⟨w, hw, expect_eq_some.1 h ▸ hs⟩
  · obtain ⟨r', hinside, hclose⟩ := Option.bind_eq_some_iff.1 h
    exact .inr (expect_eq_some.1 hclose ▸ hinside)

theorem rest_sound (h : rest more s = some r) :
    ∃ w, White w ∧ (s = w ++ r ∨ ∃ t, s = w ++ 44 :: t ∧ more t = some r) := by
  obtain ⟨w, hw, hs⟩ := exists_skip s
  rw [rest] at h
  split_ifs at h with hcomma
  · obtain ⟨t, hexpect, hmore⟩ := Option.bind_eq_some_iff.1 h
    exact ⟨w, hw, .inr ⟨t, expect_eq_some.1 hexpect ▸ hs, hmore⟩⟩
  · cases h
    exact ⟨w, hw, .inl hs⟩

/-- **The scanner takes values of the grammar.** -/
theorem scan_sound {n : ℕ} {part : Part} (h : scan n part s = some r) :
    ∃ t, Derives part t ∧ s = t ++ r := by
  induction n generalizing part s r with
  | zero => cases h
  | succ n ih =>
    cases part with
    | value =>
      cases s with
      | nil => cases h
      | cons c s =>
        rw [scan] at h
        split_ifs at h with hquote harr hobj hlit
        · obtain ⟨t, rfl, ht⟩ := chars_sound h
          exact ⟨_, .string (ht [] rfl), by simp [hquote]⟩
        · rcases closed_sound h with ⟨w, hw, rfl⟩ | hinside
          · exact ⟨_, .emptyArray hw, by simp [harr]⟩
          · obtain ⟨t, ht, rfl⟩ := ih hinside
            exact ⟨_, .array ht, by simp [harr]⟩
        · rcases closed_sound h with ⟨w, hw, rfl⟩ | hinside
          · exact ⟨_, .emptyObject hw, by simp [hobj]⟩
          · obtain ⟨t, ht, rfl⟩ := ih hinside
            exact ⟨_, .object ht, by simp [hobj]⟩
        · obtain ⟨v, hv, hs⟩ := literal_sound h
          exact ⟨v, .literal hv, hs⟩
        · obtain ⟨v, hv, hs⟩ := number_sound h
          exact ⟨v, .number hv, hs⟩
    | elements =>
      rw [scan] at h
      obtain ⟨r₁, hvalue, hrest⟩ := Option.bind_eq_some_iff.1 h
      obtain ⟨w, hw, hs⟩ := exists_skip s
      obtain ⟨v, hv, hs₁⟩ := ih hvalue
      rw [hs, hs₁]
      obtain ⟨w', hw', rfl | ⟨t, rfl, hmore⟩⟩ := rest_sound hrest
      · exact ⟨_, .element hw hv hw', by simp⟩
      · obtain ⟨t, ht, rfl⟩ := ih hmore
        exact ⟨_, .elements hw hv hw' ht, by simp⟩
    | members =>
      rw [scan] at h
      obtain ⟨r₁, hopen, h₁⟩ := Option.bind_eq_some_iff.1 h
      obtain ⟨r₂, hkey, h₂⟩ := Option.bind_eq_some_iff.1 h₁
      obtain ⟨r₃, hcolon, h₃⟩ := Option.bind_eq_some_iff.1 h₂
      obtain ⟨r₄, hvalue, hrest⟩ := Option.bind_eq_some_iff.1 h₃
      obtain ⟨w, hw, hs⟩ := exists_skip s
      obtain ⟨k, rfl, hk⟩ := chars_sound hkey
      obtain ⟨w₁, hw₁, hr₂⟩ := exists_skip r₂
      obtain ⟨w₂, hw₂, hr₃⟩ := exists_skip r₃
      obtain ⟨v, hv, hr₃'⟩ := ih hvalue
      rw [hs, expect_eq_some.1 hopen, hr₂, expect_eq_some.1 hcolon, hr₃, hr₃']
      obtain ⟨w', hw', rfl | ⟨t, rfl, hmore⟩⟩ := rest_sound hrest
      · exact ⟨_, .member hw (hk [] rfl) hw₁ hw₂ hv hw', by simp⟩
      · obtain ⟨t, ht, rfl⟩ := ih hmore
        exact ⟨_, .members hw (hk [] rfl) hw₁ hw₂ hv hw' ht, by simp⟩

/-! ## What is derived is read -/

/-- The text goes on with a byte that has `P`, or not at all. -/
def Stops (P : UInt8 → Prop) (r : Str) : Prop := ∀ b ∈ r.head?, P b

theorem dropWhile_of_stops {f : UInt8 → Bool} (hw : ∀ b ∈ w, f b = true)
    (hr : Stops (f · = false) r) :
    (w ++ r).dropWhile f = r := by
  rw [dropWhile_append_of_pos hw]
  cases r with
  | nil => rfl
  | cons b r => rw [dropWhile_cons_of_neg (by simp [hr b rfl])]

theorem skip_append (hw : White w) (hr : Stops (isWhite · = false) r) : skip (w ++ r) = r :=
  dropWhile_of_stops hw hr

theorem chars_complete (h : Chars s) : chars .text (s ++ 34 :: r) = some r := by
  induction h with
  | nil => simp [chars]
  | plain hc _ ih => simp [chars, hc, ih]
  | @escape c s hc _ ih => simp [chars, hc, ih]
  | @unicode hex s hlen hhex _ ih =>
    obtain ⟨a, b, c, d, rfl⟩ : ∃ a b c d, hex = [a, b, c, d] := by
      match hex, hlen with
      | [a, b, c, d], _ => exact ⟨a, b, c, d, rfl⟩
    have hu : (117 : UInt8) ∉ escapes := by simp [escapes, str]
    simp [chars, Mode.after, hu, hhex, ih]

theorem digits_complete (hd : Digits d) (hr : Stops (isDigit · = false) r) :
    digits (d ++ r) = some r := by
  obtain ⟨c, d, rfl⟩ := exists_cons_of_ne_nil hd.1
  rw [cons_append, digits, if_pos (hd.2 c (by simp)),
    dropWhile_of_stops (fun b hb => hd.2 b (by simp [hb])) hr]

theorem whole_complete (hd : Whole d) (hr : Stops (isDigit · = false) r) :
    whole (d ++ r) = some r := by
  rcases hd with rfl | ⟨hd, hzero⟩
  · rfl
  · obtain ⟨c, d, rfl⟩ := exists_cons_of_ne_nil hd.1
    rw [cons_append, whole, if_neg (by simpa using hzero)]
    exact digits_complete hd hr

theorem fraction_complete {f : Str} (hf : Fraction f)
    (hr : Stops (fun b => isDigit b = false ∧ b ≠ 46) r) :
    fraction (f ++ r) = some r := by
  rcases hf with rfl | ⟨d, hd, rfl⟩
  · cases r with
    | nil => rfl
    | cons c r => rw [nil_append, fraction, if_neg (hr c rfl).2]
  · rw [cons_append, fraction, if_pos rfl]
    exact digits_complete hd fun b hb => (hr b hb).1

theorem sign_of_digit {signs : Str} (hc : isDigit c = true)
    (hsigns : signs.any isDigit = false) (s : Str) :
    sign signs (c :: s) = c :: s := by
  rw [sign, if_neg]
  intro hmem
  exact absurd (any_eq_true.2 ⟨c, hmem, hc⟩) (by simp [hsigns])

theorem isDigit_of_whole (hd : Whole d) : ∃ c t, d = c :: t ∧ isDigit c = true := by
  rcases hd with rfl | ⟨hd, -⟩
  · exact ⟨48, [], rfl, rfl⟩
  · obtain ⟨c, d, rfl⟩ := exists_cons_of_ne_nil hd.1
    exact ⟨c, d, rfl, hd.2 c (by simp)⟩

theorem exponent_complete {e : Str} (he : Exponent e)
    (hr : Stops (fun b => isDigit b = false ∧ b ≠ 101 ∧ b ≠ 69) r) :
    exponent (e ++ r) = some r := by
  rcases he with rfl | ⟨c, p, d, hc, hp, hd, rfl⟩
  · cases r with
    | nil => rfl
    | cons c r => rw [nil_append, exponent, if_neg (by simpa using (hr c rfl).2)]
  · have hsign : sign [43, 45] (p ++ (d ++ r)) = d ++ r := by
      rcases hp with rfl | rfl | rfl
      · obtain ⟨c, d, rfl⟩ := exists_cons_of_ne_nil hd.1
        exact sign_of_digit (hd.2 c (by simp)) rfl _
      · rfl
      · rfl
    rw [cons_append, exponent, if_pos hc, append_assoc, hsign]
    exact digits_complete hd fun b hb => (hr b hb).1

/-- Nothing that a number could go on with. -/
def Ends (r : Str) : Prop := Stops (fun b => isDigit b = false ∧ b ≠ 46 ∧ b ≠ 101 ∧ b ≠ 69) r

theorem stops_fraction {P : UInt8 → Prop} {f : Str} (hf : Fraction f) (hpoint : P 46)
    (hr : Stops P r) :
    Stops P (f ++ r) := by
  rcases hf with rfl | ⟨d, -, rfl⟩
  · exact hr
  · rintro b ⟨⟩
    exact hpoint

theorem stops_exponent {P : UInt8 → Prop} {e : Str} (he : Exponent e) (hlower : P 101)
    (hupper : P 69)
    (hr : Stops P r) : Stops P (e ++ r) := by
  rcases he with rfl | ⟨c, p, d, hc, -, -, rfl⟩
  · exact hr
  · rintro b ⟨⟩
    rcases hc with rfl | rfl
    · exact hlower
    · exact hupper

theorem number_complete (h : Number s) (hr : Ends r) : number (s ++ r) = some r := by
  obtain ⟨p, d, f, e, hp, hd, hf, he, rfl⟩ := h
  have hsign : sign [45] (p ++ (d ++ (f ++ (e ++ r)))) = d ++ (f ++ (e ++ r)) := by
    rcases hp with rfl | rfl
    · obtain ⟨c, t, rfl, hc⟩ := isDigit_of_whole hd
      exact sign_of_digit hc rfl _
    · rfl
  have hexp : Stops (fun b => isDigit b = false ∧ b ≠ 46) (e ++ r) :=
    stops_exponent he (by decide) (by decide) fun b hb => ⟨(hr b hb).1, (hr b hb).2.1⟩
  have hfrac : Stops (isDigit · = false) (f ++ (e ++ r)) :=
    stops_fraction hf rfl fun b hb => (hexp b hb).1
  simp only [append_assoc]
  rw [number, hsign, whole_complete hd hfrac, Option.bind_some, fraction_complete hf hexp,
    Option.bind_some]
  exact exponent_complete he fun b hb => ⟨(hr b hb).1, (hr b hb).2.2⟩

theorem literal_complete (h : s ∈ literals) : literal (s ++ r) = some r := by
  simp only [literals, mem_cons, not_mem_nil, or_false] at h
  rcases h with rfl | rfl | rfl <;> simp [literal, literals, str]

/-- How a value begins. -/
def Opens (c : UInt8) : Prop := isWhite c = false ∧ c ≠ 93 ∧ c ≠ 125

theorem opens_of_digit (hc : isDigit c = true) :
    Opens c ∧ c ≠ 34 ∧ c ≠ 91 ∧ c ≠ 123 ∧ ¬ (c = 116 ∨ c = 102 ∨ c = 110) := by
  have hne : ∀ b, isDigit b = false → c ≠ b := by
    rintro b hb rfl
    rw [hc] at hb
    cases hb
  refine ⟨⟨?_, hne 93 rfl, hne 125 rfl⟩, hne 34 rfl, hne 91 rfl, hne 123 rfl, ?_⟩
  · simp [isWhite, hne 32 rfl, hne 9 rfl, hne 10 rfl, hne 13 rfl]
  · simp [hne 116 rfl, hne 102 rfl, hne 110 rfl]

theorem first_of_number (h : Number s) :
    ∃ c t, s = c :: t ∧ Opens c ∧ c ≠ 34 ∧ c ≠ 91 ∧ c ≠ 123 ∧ ¬ (c = 116 ∨ c = 102 ∨ c = 110) := by
  obtain ⟨p, d, f, e, rfl | rfl, hd, -, -, rfl⟩ := h
  · obtain ⟨c, t, rfl, hc⟩ := isDigit_of_whole hd
    exact ⟨c, _, rfl, opens_of_digit hc⟩
  · exact ⟨45, _, rfl, by simp [Opens, isWhite]⟩

theorem first_of_value (h : Derives .value s) : ∃ c t, s = c :: t ∧ Opens c := by
  cases h with
  | literal h =>
    simp only [literals, mem_cons, not_mem_nil, or_false] at h
    rcases h with rfl | rfl | rfl
    · exact ⟨116, str "rue", rfl, by simp [Opens, isWhite]⟩
    · exact ⟨102, str "alse", rfl, by simp [Opens, isWhite]⟩
    · exact ⟨110, str "ull", rfl, by simp [Opens, isWhite]⟩
  | number h =>
    obtain ⟨c, t, rfl, hc, -⟩ := first_of_number h
    exact ⟨c, t, rfl, hc⟩
  | string | emptyArray | array | emptyObject | object =>
    exact ⟨_, _, rfl, by simp [Opens, isWhite]⟩

theorem value_pos (h : Derives .value s) : 0 < s.length := by
  obtain ⟨c, t, rfl, -⟩ := first_of_value h
  simp

theorem ends_of_white (hb : isWhite b = true) (r : Str) : Ends (b :: r) := by
  rintro _ ⟨⟩
  have hb : ((b = 32 ∨ b = 9) ∨ b = 10) ∨ b = 13 := by simpa [isWhite] using hb
  rcases hb with ((rfl | rfl) | rfl) | rfl <;> decide

theorem ends_append (hw : White w) (hr : r.head? = some c) (hc : c = 44 ∨ c = 93 ∨ c = 125) :
    Ends (w ++ r) := by
  cases w with
  | nil =>
    rw [nil_append, Ends, Stops, hr]
    rintro b ⟨⟩
    rcases hc with rfl | rfl | rfl <;> decide
  | cons b w => exact ends_of_white (hw b (by simp)) _

/-- The calls within each other that reading a part of length `n` may take. -/
def Part.calls : Part → ℕ → ℕ
  | .value, n => 2 * n
  | .elements, n | .members, n => 2 * n + 1

def Part.Follows : Part → Str → Str → Prop
  | .value, t, r => Number t → Ends r
  | .elements, _, r => r.head? = some 93
  | .members, _, r => r.head? = some 125

theorem skip_close (hw : White w) (hr : r.head? = some c) (hc : isWhite c = false) :
    skip (w ++ r) = r := by
  refine skip_append hw ?_
  rw [Stops, hr]
  rintro b ⟨⟩
  exact hc

theorem skip_value (hw : White w) (hv : Derives .value v) (r : Str) :
    skip (w ++ (v ++ r)) = v ++ r := by
  obtain ⟨c, t, rfl, hc⟩ := first_of_value hv
  exact skip_close hw rfl hc.1

theorem skip_cons (hw : White w) (hb : isWhite b = false) (r : Str) : skip (w ++ b :: r) = b :: r :=
  skip_close hw rfl hb

theorem closed_empty (hw : White w) (hb : isWhite b = false) (r : Str) :
    closed b inside (w ++ b :: r) = some r := by
  simp [closed, skip_cons hw hb, expect]

theorem closed_inside (hfirst : (skip s).head? ≠ some b)
    (h : inside s = some (b :: r)) : closed b inside s = some r := by
  simp [closed, hfirst, h, expect]

theorem rest_end (hw : White w) (hr : r.head? = some c) (hc : c = 93 ∨ c = 125) :
    rest more (w ++ r) = some r := by
  have hskip : skip (w ++ r) = r := skip_close hw hr (by rcases hc with rfl | rfl <;> rfl)
  rw [rest, hskip, hr, if_neg (by rcases hc with rfl | rfl <;> decide)]

theorem rest_comma (hw : White w) (s : Str) : rest more (w ++ 44 :: s) = more s := by
  have hskip : skip (w ++ 44 :: s) = 44 :: s := skip_cons hw rfl s
  simp [rest, hskip, expect]

theorem first_of_elements (h : Derives .elements t) (r : Str) :
    (skip (t ++ r)).head? ≠ some 93 := by
  cases h with
  | element hw hv hw' | elements hw hv hw' hs =>
    obtain ⟨c, t, rfl, hc⟩ := first_of_value hv
    simp only [append_assoc, cons_append]
    rw [skip_cons hw hc.1]
    simpa using hc.2.1

theorem first_of_members (h : Derives .members t) (r : Str) : (skip (t ++ r)).head? ≠ some 125 := by
  cases h with
  | member hw | members hw =>
    simp only [append_assoc, cons_append]
    rw [skip_cons hw rfl]
    simp

/-- **The scanner takes every value of the grammar.** -/
theorem scan_complete {part : Part} (h : Derives part t) :
    ∀ {n : ℕ} {r : Str}, part.calls t.length ≤ n → part.Follows t r →
      scan n part (t ++ r) = some r := by
  induction h with
  | @literal s h =>
    intro n r hn _
    have hlit := literal_complete (r := r) h
    simp only [literals, mem_cons, not_mem_nil, or_false] at h
    obtain _ | n := n
    · rcases h with rfl | rfl | rfl <;> simp [Part.calls, str] at hn
    · rcases h with rfl | rfl | rfl <;> exact hlit
  | @number s h =>
    intro n r hn hr
    obtain ⟨c, t, rfl, -, hquote, harr, hobj, hlit⟩ := first_of_number h
    obtain _ | n := n
    · simp [Part.calls] at hn
    · rw [cons_append, scan, if_neg hquote, if_neg harr, if_neg hobj, if_neg hlit]
      exact number_complete h (hr h)
  | string h =>
    intro n r hn _
    obtain _ | n := n
    · simp [Part.calls] at hn
    · rw [cons_append, scan, if_pos rfl, append_assoc]
      exact chars_complete h
  | emptyArray hw =>
    intro n r hn _
    obtain _ | n := n
    · simp [Part.calls] at hn
    · rw [cons_append, append_assoc]
      exact closed_empty hw rfl r
  | array h ih =>
    intro n r hn _
    obtain _ | n := n
    · simp [Part.calls] at hn
    · rw [cons_append, append_assoc]
      refine closed_inside (first_of_elements h _) (ih ?_ rfl)
      simp [Part.calls] at hn ⊢
      omega
  | emptyObject hw =>
    intro n r hn _
    obtain _ | n := n
    · simp [Part.calls] at hn
    · rw [cons_append, append_assoc]
      exact closed_empty hw rfl r
  | object h ih =>
    intro n r hn _
    obtain _ | n := n
    · simp [Part.calls] at hn
    · rw [cons_append, append_assoc]
      refine closed_inside (first_of_members h _) (ih ?_ rfl)
      simp [Part.calls] at hn ⊢
      omega
  | @element w v w' hw h hw' ih =>
    intro n r hn hr
    obtain _ | n := n
    · simp [Part.calls] at hn
    · have hvalue : scan n .value (v ++ (w' ++ r)) = some (w' ++ r) := by
        refine ih ?_ fun _ => ends_append hw' hr (by simp)
        simp [Part.calls] at hn ⊢
        omega
      simp only [append_assoc]
      rw [scan, skip_value hw h, hvalue, Option.bind_some, rest_end hw' hr (.inl rfl)]
  | @elements w v w' s hw h hw' hs ih ihs =>
    intro n r hn hr
    obtain _ | n := n
    · simp [Part.calls] at hn
    · have hpos : 0 < v.length := value_pos h
      simp [Part.calls] at hn
      have hvalue : scan n .value (v ++ (w' ++ 44 :: (s ++ r))) = some (w' ++ 44 :: (s ++ r)) :=
        ih (by simp only [Part.calls]; omega) fun _ => ends_append hw' rfl (by simp)
      simp only [append_assoc, cons_append]
      rw [scan, skip_value hw h, hvalue, Option.bind_some, rest_comma hw']
      exact ihs (by simp only [Part.calls]; omega) hr
  | @member w k w₁ w₂ v w' hw hk hw₁ hw₂ h hw' ih =>
    intro n r hn hr
    obtain _ | n := n
    · simp [Part.calls] at hn
    · have hvalue : scan n .value (v ++ (w' ++ r)) = some (w' ++ r) := by
        refine ih ?_ fun _ => ends_append hw' hr (by simp)
        simp [Part.calls] at hn ⊢
        omega
      simp only [append_assoc, cons_append]
      rw [scan, skip_cons hw rfl, expect, if_pos rfl, Option.bind_some, chars_complete hk,
        Option.bind_some,
        skip_cons hw₁ rfl, expect, if_pos rfl, Option.bind_some, skip_value hw₂ h, hvalue,
          Option.bind_some,
        rest_end hw' hr (.inr rfl)]
  | @members w k w₁ w₂ v w' s hw hk hw₁ hw₂ h hw' hs ih ihs =>
    intro n r hn hr
    obtain _ | n := n
    · simp [Part.calls] at hn
    · simp [Part.calls] at hn
      have hvalue : scan n .value (v ++ (w' ++ 44 :: (s ++ r))) = some (w' ++ 44 :: (s ++ r)) :=
        ih (by simp only [Part.calls]; omega) fun _ => ends_append hw' rfl (by simp)
      simp only [append_assoc, cons_append]
      rw [scan, skip_cons hw rfl, expect, if_pos rfl, Option.bind_some, chars_complete hk,
        Option.bind_some,
        skip_cons hw₁ rfl, expect, if_pos rfl, Option.bind_some, skip_value hw₂ h, hvalue,
          Option.bind_some,
        rest_comma hw']
      exact ihs (by simp only [Part.calls]; omega) hr

/-! ## One value -/

theorem next_sound (h : next s = some (v, r)) : ∃ w, White w ∧ Value v ∧ s = w ++ (v ++ r) := by
  obtain ⟨r', hscan, h⟩ := Option.map_eq_some_iff.1 h
  obtain ⟨t, ht, hs⟩ := scan_sound hscan
  obtain ⟨w, hw, hws⟩ := exists_skip s
  obtain ⟨hv, rfl⟩ := Prod.mk.inj h
  have ht' : t = v := by rw [← hv, hs]; simp
  exact ⟨w, hw, ht' ▸ ht, by rw [hws, hs, ht']⟩

theorem next_complete {w' : Str} (hw : White w) (hv : Value v) (hw' : White w') :
    next (w ++ (v ++ w')) = some (v, w') := by
  have hends : Ends w' := by
    cases w' with
    | nil => rintro b ⟨⟩
    | cons b w' => exact ends_of_white (hw' b (by simp)) w'
  have hskip : skip (w ++ (v ++ w')) = v ++ w' := skip_value hw hv w'
  have hscan : scan (2 * (v ++ w').length) .value (v ++ w') = some w' :=
    scan_complete hv (by simp only [Part.calls, length_append]; omega) fun _ => hends
  rw [next, hskip, hscan]
  simp

/-- **A text is one value between white space** just if the scanner takes a value and leaves white
    space. -/
theorem oneValue_iff : OneValue s ↔ ∃ v w, next s = some (v, w) ∧ White w := by
  constructor
  · rintro ⟨w, v, w', hw, hv, hw', rfl⟩
    exact ⟨v, w', next_complete hw hv hw', hw'⟩
  · rintro ⟨v, w', h, hw'⟩
    obtain ⟨w, hw, hv, hs⟩ := next_sound h
    exact ⟨w, v, w', hw, hv, hw', hs⟩

end Json
