/-
  Templates in other zones: a template is checked for one zone when it is saved
  and expanded for another.
-/
import TangraDns.Proof.Expansion
import TangraDns.Proof.Form
import TangraDns.Proof.NameScan
import TangraDns.TemplateService
import TangraDns.Text.Pieces

namespace TangraDns.Templates

open List Str Validate

variable {E : Env} {l : Limits} {z p : Str} {r a b : Store.TemplateRecord}
  {recs : List Store.TemplateRecord}
variable {s n t : Str}

/-! ## Owner names -/

theorem recordName_absolute {s' : Str} (hz : IsZone z) (hs : trimSpace s = s)
    (hs' : trimSpace s' = s')
    (hd : HasSuffix s [dot]) (hd' : HasSuffix s' [dot])
    (h : toLower E.cases s = toLower E.cases s') :
    recordName E z s = recordName E z s' := by
  have hne {s : Str} (hd : HasSuffix s [dot]) : ¬ (s = [] ∨ s = str "@") := by
    rintro (rfl | rfl)
    · exact absurd hd (by decide)
    · exact absurd hd (by decide)
  have hsplit : Validate.split E s = Validate.split E s' := by
    unfold Validate.split
    rw [hs, hs', h]
  rw [recordName, recordName, canonicalZone_of_isZone hz]
  simp only [bind, Except.bind]
  rw [hs, hs', if_neg (hne hd), if_neg (hne hd'), if_neg (not_and.2 fun h => absurd hd h),
    if_neg (not_and.2 fun h => absurd hd' h), if_pos hd, if_pos hd', hsplit]

theorem recordName_fqdn (hd : HasSuffix s [dot]) (hs : trimSpace s = s)
    (h : recordName E z s = .ok n) : n = toLower E.cases s ∨ n = toLower E.cases s ++ [dot] := by
  obtain ⟨z', hz', h⟩ := Except.bind_eq_ok.1 h
  have hne : ¬ (s = [] ∨ s = str "@") := by
    rintro (rfl | rfl)
    · exact absurd hd (by decide)
    · exact absurd hd (by decide)
  dsimp only at h
  rw [hs, if_neg hne, if_neg (not_and.2 fun h => absurd hd h), if_pos hd] at h
  obtain ⟨⟨fq, ls⟩, hsplit, h⟩ := Except.bind_eq_ok.1 h
  dsimp only at h
  have hfq : n = fq := by
    split at h
    · cases h
    · split_ifs at h
      exact (Except.ok.inj h).symm
  unfold Validate.split at hsplit
  dsimp only at hsplit
  split_ifs at hsplit
  rw [hfq, ← (Prod.mk.inj (Except.ok.inj hsplit)).1, hs]
  exact E.fqdn_eq _

theorem hasSuffix_toLower (h : HasSuffix s [dot]) : HasSuffix (toLower E.cases s) [dot] := by
  obtain ⟨u, rfl⟩ := h
  exact ⟨toLower E.cases u, (toLower_append_ascii _ (show dot < 0x80 by decide) u []).symm⟩

theorem recordName_dotted (hz : IsZone z) (hs : trimSpace s = s) (hd : HasSuffix s [dot]) :
    recordName E z s = .ok n ↔ n = toLower E.cases s ∧ IsOwner z n := by
  have hd' := hasSuffix_toLower (E := E) hd
  constructor
  · intro h
    have howner := recordName_spec hz h
    refine ⟨(recordName_fqdn hd hs h).resolve_right fun hn => howner.canonical.nameOf.final.2 ?_,
      howner⟩
    obtain ⟨u, hu⟩ := hd'
    exact ⟨u, by rw [hn, ← hu]; simp⟩
  · rintro ⟨rfl, howner⟩
    rw [← recordName_of_isOwner hz howner]
    exact recordName_absolute hz hs (trimSpace_of_printable howner.canonical.printable) hd hd'
      (toLower_toLower _ _).symm

/-! ## Zones within names -/

theorem bare_dot (hz : IsZone z) : trimSuffix z [dot] ++ [dot] = z := by
  obtain ⟨u, hu⟩ := hz.1.hasSuffix
  rw [← hu, trimSuffix, if_pos ⟨u, rfl⟩, length_append, Nat.add_sub_cancel, take_left]

theorem mem_of_mem_bare {c : UInt8} (hz : IsZone z) (hc : c ∈ trimSuffix z [dot]) : c ∈ z := by
  rw [← bare_dot hz]
  exact mem_append_left _ hc

theorem seam_bare (hz : IsZone z) : Seam (trimSuffix z [dot]) := by
  refine ⟨fun hnil => ?_, fun c hc => hz.1.printable c (mem_of_mem_bare hz hc)⟩
  have := hz.read .start
  rw [hnil] at this
  cases this

theorem length_bare (hz : IsZone z) : (trimSuffix z [dot]).length + 1 = z.length := by
  conv_rhs => rw [← bare_dot hz]
  rw [length_append, length_singleton]

theorem dotted_bare (hz : IsZone z) (u t : Str) :
    HasSuffix (u ++ (trimSuffix z [dot] ++ t)) [dot] ↔ HasSuffix t [dot] := by
  constructor
  · rintro ⟨v, hv⟩
    rcases eq_nil_or_concat t with rfl | ⟨t, c, rfl⟩
    · -- the zone would end with two dots
      refine absurd ?_ hz.1.nameOf.final.2
      have hlast := congrArg List.getLast? hv
      rw [append_nil, getLast?_concat, getLast?_append_of_ne_nil _ (seam_bare hz).1] at hlast
      obtain ⟨w, hw⟩ := getLast?_eq_some_iff.1 hlast.symm
      exact ⟨w, by rw [← bare_dot hz, hw]; simp⟩
    · rw [concat_eq_append, ← append_assoc, ← append_assoc] at hv
      exact ⟨t, by rw [concat_eq_append, (append_inj' hv rfl).2]⟩
  · rintro ⟨v, rfl⟩
    exact ⟨u ++ (trimSuffix z [dot] ++ v), by simp⟩

/-- A record's name in a zone: nothing and `@` are the apex, and what has no final dot is
    relative. -/
def fullName (E : Env) (z : Str) (r : Store.TemplateRecord) : Str :=
  let text := replaceAll r.name placeholder (trimSuffix z [dot])
  if text = [] ∨ text = str "@" then z
  else if HasSuffix text [dot] then toLower E.cases text else toLower E.cases text ++ dot :: z

structure Pieces (x w : Str) (ws : List Str) : Prop where
  text : ∀ new, replaceAll x placeholder new = new.intercalate (w :: ws)
  trimmed : ∀ {z}, IsZone z →
    trimSpace (replaceAll x placeholder (trimSuffix z [dot])) =
      replaceAll x placeholder (trimSuffix z [dot])

theorem exists_pieces_trimmed {x : Str} (hx : trimSpace x = x) : ∃ w ws, Pieces x w ws := by
  obtain ⟨w, ws, h⟩ := exists_pieces placeholder 0 x
  refine ⟨w, ws, h, fun {z} hz => ?_⟩
  have hself : x = placeholder.intercalate (w :: ws) :=
    (replaceFrom_self (by decide) 0 x).symm.trans (h _)
  rw [hself] at hx
  rw [replaceAll, h]
  exact trimSpace_intercalate ⟨by decide, by decide +kernel⟩ (seam_bare hz) hx

theorem recordName_ownerText (hz : IsZone z) (hr : trimSpace r.name = r.name) :
    recordName E z (ownerText z r) = .ok n ↔ n = fullName E z r ∧ IsOwner z n := by
  obtain ⟨w, ws, hw⟩ := exists_pieces_trimmed hr
  have htrim := hw.trimmed hz
  rw [ownerText, htrim, fullName]
  generalize replaceAll r.name placeholder (trimSuffix z [dot]) = text at htrim ⊢
  by_cases hapex : text = [] ∨ text = str "@"
  · have hat : recordName E z (if text = [] then str "@" else text) = .ok z := by
      rw [show (if text = [] then str "@" else text) = str "@" by split_ifs <;> simp_all,
        recordName,
        canonicalZone_of_isZone hz]
      rfl
    rw [hat, if_pos hapex, Except.ok.injEq]
    exact ⟨fun h => ⟨h.symm, h ▸ hz.isOwner⟩, fun h => h.1.symm⟩
  rw [if_neg hapex, if_neg (not_or.1 hapex).1]
  split_ifs with hd
  · exact recordName_dotted hz htrim hd
  · have hrel : Relative text := ⟨htrim, hd, not_or.1 hapex⟩
    have hlower : toLower E.cases (text ++ dot :: z) = toLower E.cases text ++ dot :: z := by
      rw [toLower_append_ascii _ (by decide), toLower_cons _ (by decide), hz.toLower_eq]
      rfl
    obtain ⟨u, hu⟩ := hz.1.hasSuffix
    rw [← Except.toOption_eq_some, recordName_relative hrel hz, Except.toOption_eq_some, ← hlower]
    exact recordName_dotted hz (hrel.trimSpace_append hz) ⟨text ++ dot :: u, by rw [← hu]; simp⟩

theorem exists_fullName (hr : trimSpace r.name = r.name) :
    ∃ w ws, ∀ {z}, IsZone z → fullName E z r = (trimSuffix z [dot]).intercalate (w :: ws) := by
  obtain ⟨w, ws, hw⟩ := exists_pieces_trimmed hr
  have hapex {z : Str} (hz : IsZone z) : ((trimSuffix z [dot]).intercalate (w :: ws) = [] ∨
      (trimSuffix z [dot]).intercalate (w :: ws) = str "@") ↔ ws = [] ∧ (w = [] ∨ w = str "@") := by
    cases ws with
    | nil => rw [intercalate_singleton]; simp
    | cons w' ws =>
      obtain ⟨c, hc⟩ := exists_mem_of_ne_nil _ (seam_bare hz).1
      have hmem : c ∈ (trimSuffix z [dot]).intercalate (w :: w' :: ws) :=
        intercalate_gap .. ▸ mem_append_right _ (mem_append_left _ hc)
      refine iff_of_false ?_ (by simp)
      rintro (h | h) <;> rw [h] at hmem
      · cases hmem
      · -- no zone has the octet
        obtain rfl : c = 64 := mem_singleton.1 hmem
        exact absurd (plainName_octets hz.plainName _ (mem_of_mem_bare hz hc)) (by decide)
  have hdotted {z : Str} (hz : IsZone z) :=
    intercalate_iff_last (P := (HasSuffix · [dot])) (dotted_bare hz) w ws
  have hlower {z : Str} (hz : IsZone z) := toLower_intercalate (U := E.cases) (seam_bare hz)
    (fun c hc => hz.1.lower c (mem_of_mem_bare hz hc)) w ws
  have hfull {z : Str} (hz : IsZone z) : fullName E z r = if ws = [] ∧ (w = [] ∨ w = str "@") then z
      else if HasSuffix ((w :: ws).getLast (cons_ne_nil _ _)) [dot] then
        (trimSuffix z [dot]).intercalate (toLower E.cases w :: ws.map (toLower E.cases))
      else (trimSuffix z [dot]).intercalate (toLower E.cases w :: ws.map (toLower E.cases)) ++
          dot :: z := by
    simp only [fullName, hw.text, hapex hz, hdotted hz, hlower hz]
  by_cases h : ws = [] ∧ (w = [] ∨ w = str "@")
  · refine ⟨[], [[dot]], fun {z} hz => ?_⟩
    rw [hfull hz, if_pos h, intercalate_gap, intercalate_singleton, nil_append, bare_dot hz]
  simp only [if_neg h] at hfull
  by_cases hd : HasSuffix ((w :: ws).getLast (cons_ne_nil _ _)) [dot]
  · exact ⟨_, _, fun hz => (hfull hz).trans (if_pos hd)⟩
  · obtain ⟨w', ws', h⟩ := exists_intercalate_append (toLower E.cases w)
      (ws.map (toLower E.cases)) [dot] [dot]
    refine ⟨w', ws', fun {z} hz => ?_⟩
    rw [hfull hz, if_neg hd, ← h, bare_dot hz]
    rfl

theorem length_intercalate_bare (hp : IsZone p) (hz : IsZone z) (hle : z.length ≤ p.length)
    (w : Str) (ws : List Str) :
    ((trimSuffix z [dot]).intercalate (w :: ws)).length ≤
    ((trimSuffix p [dot]).intercalate (w :: ws)).length := by
  have hbz := length_bare hz
  have hbp := length_bare hp
  rw [length_intercalate, length_intercalate]
  exact Nat.add_le_add_left (Nat.mul_le_mul_left _ (by omega)) _

/-- The labels of a record's name in the zone are not too long, and the name lies in the zone. -/
structure Placed (E : Env) (z : Str) (r : Store.TemplateRecord) : Prop where
  labels : ∀ x ∈ labelsOf (fullName E z r), x.length ≤ 63
  inside : fullName E z r = z ∨ Under (fullName E z r) z

theorem isOwner_fullName (hp : IsZone p) (hz : IsZone z) (hle : z.length ≤ p.length)
    (hr : trimSpace r.name = r.name)
    (h : IsOwner p (fullName E p r)) : IsOwner z (fullName E z r) ↔ Placed E z r := by
  obtain ⟨hread, -, hlen, -⟩ := isOwner_iff.1 h
  obtain ⟨w, ws, hw⟩ := exists_fullName (E := E) hr
  refine ⟨fun h => ⟨(isOwner_iff.1 h).2.1, h.inside⟩,
    fun h => isOwner_iff.2 ⟨?_, h.labels, ?_, h.inside⟩⟩
  · rw [hw hz, ← hread, hw hp]
    exact foldl_intercalate (fun s => (hz.read s).trans (hp.read s).symm) w _
  · rw [hw hp] at hlen
    rw [hw hz]
    exact (length_intercalate_bare hp hz hle w ws).trans hlen

theorem fullName_ne_zone (hp : IsZone p) (hz : IsZone z) (hle : z.length ≤ p.length)
    (hr : trimSpace r.name = r.name)
    (h : IsOwner p (fullName E p r)) (hne : fullName E p r ≠ p) : fullName E z r ≠ z := by
  obtain ⟨w, ws, hw⟩ := exists_fullName (E := E) hr
  have hlong := (h.inside.resolve_left hne).length_lt
  intro heq
  rw [hw hz] at heq
  rw [hw hp, length_intercalate] at hlong
  -- the final dot is in the last piece
  have hlast := (intercalate_iff_last (P := (HasSuffix · [dot])) (dotted_bare hz) w _).1
    (heq ▸ hz.1.hasSuffix)
  have hpos : 0 < ((w :: ws).map List.length).sum :=
    List.sum_pos_iff_exists_pos_nat.2 ⟨_, mem_map_of_mem (getLast_mem _), IsSuffix.length_le hlast⟩
  have hlen := congrArg List.length heq
  rw [map_cons, sum_cons] at hpos
  rw [length_intercalate] at hlen
  have hbare := length_pos_iff.2 (seam_bare hz).1
  have hbz := length_bare hz
  have hbp := length_bare hp
  match ws with
  | [] => simp at hlen hlong; omega
  | [w'] => simp at hlen hlong; omega
  | _ :: _ :: ws =>
    have := Nat.mul_le_mul_right (trimSuffix z [dot]).length (show 2 ≤ ws.length + 1 + 1 by omega)
    simp only [map_cons, sum_cons, length_cons] at hlen hpos
    omega

/-! ## Values of the usual forms -/

def hostTypes : List Str := [str "CNAME", str "NS", str "PTR", str "MX", str "SRV"]

/-- How many numbers stand before the host name. -/
def numbers (t : Str) : ℕ := (priorityFields t).getD 1 - 1

def hostText (ds : List ℕ) (n : Str) : Str := closed 32 (ds.map Addr.itoa) ++ n

def hostOf : RR → Option Str
  | .cname n | .ns n | .ptr n | .mx _ n | .srv _ _ _ n => some n
  | _ => none

/-- What the library reads from a value does not depend on the owner name; and where it reads a
    plain host name after the numbers of the type, it reads any other there, and prints it in plain
    octets. -/
structure ReadsHosts (E : Env) : Prop where
  owner : ∀ {z z' t v}, PlainName z → PlainName z' → t ∈ editableTypes →
    scan v (quotedType t) = .ok () →
    E.newRR z t v = E.newRR z' t v
  host : ∀ {z t ds n n' rr}, PlainName z → t ∈ hostTypes → ds.length = numbers t → PlainName n →
    PlainName n' →
    E.newRR z t (hostText ds n) = some rr → ∃ rr', E.newRR z t (hostText ds n') = some rr' ∧
      hostOf rr' = some n' ∧ ∀ c ∈ E.rdata rr', c = 32 ∨ SafeByte c

theorem content_owner {v out : Str} (hE : ReadsHosts E) (hp : IsZone p) (hz : IsZone z)
    (ht : t ∈ editableTypes)
    (h : content E t p v = .ok out) : content E t z v = .ok out := by
  rw [content_eq_ok hp.plainName ht] at h
  obtain ⟨h1, h2, h3, rr₀, rr, hparsed, hout⟩ := h
  refine (content_eq_ok hz.plainName ht).2
    ⟨h1, h2, h3, rr₀, rr, ⟨hz.plainName, ht, hparsed.scan, ?_, hparsed.rules⟩, hout⟩
  exact (hE.owner hz.plainName hp.plainName ht hparsed.scan).trans hparsed.parsed

theorem safe_of_labelByte {c : UInt8} (h : isLabelByte c = true ∨ c = dot) : SafeByte c := by
  have hbad : c ∉ str "\";()\\@$" := by
    intro hc
    rcases special_cases c hc with rfl | rfl | rfl | rfl | rfl | rfl | rfl <;>
      exact absurd h (by decide)
  refine ⟨?_, ?_, hbad⟩
  all_goals
    simp only [isLabelByte, isLower, isUpper, Bool.or_eq_true, Bool.and_eq_true,
      decide_eq_true_eq, beq_iff_eq,
      Bool.and_eq_false_iff, decide_eq_false_iff_not, show dot = 46 from rfl] at h ⊢
    grind

theorem seam_plainName (h : PlainName n) : Seam n := by
  refine ⟨?_, fun c hc => (safe_of_labelByte (plainName_octets h c hc)).1⟩
  obtain ⟨ls, -, rfl, -⟩ := h
  simp

theorem seam_itoa (d : ℕ) : Seam (Addr.itoa d) :=
  ⟨Addr.itoa_ne_nil d, fun c hc => (safe_of_textByte (Addr.textByte_itoa d c hc)).1⟩

section HostText

variable {ds : List ℕ} {ms : List Str}

theorem hostText_safe (hn : PlainName n) : ∀ c ∈ hostText ds n, c = 32 ∨ SafeByte c := by
  intro c hc
  rcases mem_append.1 hc with hc | hc
  · obtain ⟨x, hx, hc⟩ := mem_flatMap.1 hc
    obtain ⟨d, -, rfl⟩ := List.mem_map.1 hx
    rcases mem_append.1 hc with hc | hc
    exacts [.inr (safe_of_textByte (Addr.textByte_itoa d c hc)), .inl (mem_singleton.1 hc)]
  · exact .inr (safe_of_labelByte (plainName_octets hn c hc))

theorem hostText_fields (hn : PlainName n) :
    trimSpace (hostText ds n) = hostText ds n ∧
    (fields (hostText ds n)).length = ds.length + 1 := by
  have hseam : ∀ x ∈ ds.map Addr.itoa ++ [n], Seam x := by
    intro x hx
    rcases mem_append.1 hx with hx | hx
    · obtain ⟨d, -, rfl⟩ := List.mem_map.1 hx
      exact seam_itoa d
    · rw [mem_singleton.1 hx]
      exact seam_plainName hn
  rw [hostText, closed_append_eq_join, fields_join (by simp) hseam]
  exact ⟨(Ends.join (by simp) fun x hx =>
    ends_of_forall (hseam x hx).1 (hseam x hx).2).trimSpace, by simp⟩

theorem plainName_closed (hne : ms ≠ []) (hms : ∀ m ∈ ms, labelOK m true = true)
    (hlen : (closed dot ms).length ≤ 254) :
    PlainName (closed dot ms) :=
  ⟨ms, hne, closed_eq_join hne, hlen, fun m hm => isLabelByte_of_labelOK (hms m hm)⟩

theorem semantic_host {rr : RR} (hne : ms ≠ []) (hms : ∀ m ∈ ms, labelOK m true = true)
    (h : hostOf rr = some (closed dot ms)) : semantic E rr = .ok rr := by
  have hbytes {m : Str} (hm : m ∈ ms) {c : UInt8} (hc : c ∈ m) : c ≠ dot ∧ SafeByte c ∧ c ≠ 92 := by
    have hlabel := (isLabelByte_of_labelOK (hms m hm)).2.2 c hc
    refine ⟨?_, safe_of_labelByte (.inl hlabel), ?_⟩ <;> rintro rfl <;> revert hlabel <;> decide
  have hsplit : Str.split dot (join dot ms) = ms :=
    split_join (fun m hm hd => (hbytes hm hd).1 rfl) hne
  have hroot : closed dot ms ≠ [dot] := by
    obtain ⟨m, ms, rfl⟩ := exists_cons_of_ne_nil hne
    obtain ⟨c, m, rfl⟩ := exists_cons_of_ne_nil (isLabelByte_of_labelOK (hms m (.head _))).1
    rw [closed_cons]
    exact fun h => (hbytes (.head _) (.head _)).1 (List.cons.inj h).1
  have htarget (root : Bool) : target E (closed dot ms) root = .ok () := by
    have hlabels : E.splitDomainName (closed dot ms) = ms := by
      rw [closed_eq_join hne, E.splitDomainName_plain, hsplit]
      · intro h
        rcases mem_join h with h | ⟨m, hm, h⟩
        exacts [absurd h (by decide), (hbytes hm h).2.2 rfl]
      · rw [hsplit]
        exact fun m hm => (isLabelByte_of_labelOK (hms m hm)).1
    have hfind : ms.find? (fun m => !labelOK (toLower E.cases m) true) = none := by
      refine find?_eq_none.2 fun m hm => ?_
      rw [toLower_of_isLowerStr _ fun c hc => ?_, hms m hm]
      · decide
      · exact ⟨by have := (hbytes hm hc).2.1.1.2; grind, (hbytes hm hc).2.1.2.1⟩
    rw [target, if_neg hroot, hlabels, hfind]
  cases rr <;> cases h
  case mx => rw [semantic, if_neg fun h => hroot h.1, htarget]; rfl
  all_goals rw [semantic, htarget]; rfl

theorem content_host {out : Str} (hE : ReadsHosts E) (hp : IsZone p) (hz : IsZone z)
    (ht : t ∈ hostTypes)
    (hds : ds.length = numbers t) (hn : PlainName n) (hne : ms ≠ [])
    (hms : ∀ m ∈ ms, labelOK m true = true)
    (hlen : (closed dot ms).length ≤ n.length) (h : content E t p (hostText ds n) = .ok out) :
    ∃ out', content E t z (hostText ds (closed dot ms)) = .ok out' := by
  have htypes : ∀ t ∈ hostTypes, t ∈ lowerTypes := by decide
  have ht' := htypes t ht
  have hed := (lowerTypes_plain t ht').1
  have hn' : PlainName (closed dot ms) :=
    plainName_closed hne hms (by obtain ⟨_, -, -, h, -⟩ := hn; omega)
  have hlow {n : Str} (hn : PlainName n) : IsLowerStr (hostText ds n) := fun c hc => by
    rcases hostText_safe hn c hc with rfl | hsafe
    · decide
    · exact ⟨by have := hsafe.1.2; grind, hsafe.2.1⟩
  obtain ⟨-, hmax, -, rr₀, rr, hparsed, -⟩ := (content_eq_ok hp.plainName hed).1 h
  have hnew := hparsed.parsed
  rw [(hostText_fields hn).1] at hmax
  rw [(hostText_fields hn).1, prepare_lower ht', toLower_of_isLowerStr _ (hlow hn)] at hnew
  obtain ⟨rr', hrr', hhost, hprint⟩ := hE.host hp.plainName ht hds hn hn' hnew
  have hscan : scan (hostText ds (closed dot ms)) (quotedType t) = .ok () := by
    rw [(lowerTypes_plain t ht').2.1]
    exact scan_safe (hostText_safe hn')
  rw [hE.owner hp.plainName hz.plainName hed hscan] at hrr'
  have hdir : hasDirective E (E.rdata rr') = false := by
    refine hasDirective_eq_false (isASCII_iff.2 fun c hc => ?_) fun hc => ?_
    · rcases hprint c hc with rfl | hsafe
      · decide
      · have := hsafe.1.2
        grind
    · exact (hprint 36 hc).elim (by decide) fun h => h.2.2 (by decide)
  refine ⟨_, content_plain hz.plainName ht' ?_ (hostText_fields hn').1 ?_ (hostText_safe hn') hrr'
    (semantic_host hne hms hhost) hdir⟩
  · exact fun h => (seam_plainName hn').1 (append_eq_nil_iff.1 h).2
  · refine le_trans ?_ hmax
    rw [hostText, hostText, length_append, length_append]
    omega

end HostText

theorem content_text (hz : IsZone z) (hne : s ≠ []) (hs : trimSpace s = s) (hlen : s.length ≤ 255)
    (hplain : ∀ c ∈ s, isPlainOctet c = true ∧ c ≠ 36) :
    content E (str "TXT") z s = .ok (charStrings [s]) := by
  have hall : s.all isPlainOctet = true := all_eq_true.2 fun c hc => (hplain c hc).1
  have hbyte : ∀ c ∈ s, c ≠ 34 ∧ c ≠ 92 ∧ c < 0x80 := by
    intro c hc
    have := (hplain c hc).1
    simp only [isPlainOctet, Bool.and_eq_true, bne_iff_ne, decide_eq_true_eq] at this
    grind
  have hquote : txtQuoter s = s := by
    rw [txtQuoter, flatMap_congr (g := fun c => [c]) fun c hc => ?_, flatMap_singleton']
    rw [if_neg (hbyte c hc).2.1, if_neg (hbyte c hc).1]
  have hprep : prepare E (str "TXT") s = charStrings [s] := by
    rw [prepare, if_pos (.inl rfl), if_neg, hquote, charStrings_singleton hall]
    rintro ⟨u, rfl⟩
    exact (hbyte 34 (.head _)).1 rfl
  have hss : TextStrings [s] := ⟨by simp, by simpa using hlen⟩
  have hdir {v : Str} (hv : ∀ c ∈ v, c = 34 ∨ c ∈ s) : hasDirective E v = false := by
    refine hasDirective_eq_false (isASCII_iff.2 fun c hc => ?_) fun hc => ?_
    · exact (hv c hc).elim (fun h => h ▸ by decide) fun h => (hbyte c h).2.2
    · exact (hv 36 hc).elim (by decide) fun h => (hplain 36 h).2 rfl
  obtain ⟨rr, hrr, hout⟩ := E.newRR_txt z [s] hz.plainName hss
  rw [content_eq_ok hz.plainName (by decide), hs]
  refine ⟨hne, hlen.trans (by decide), hdir fun c hc => .inr hc, rr, rr,
    ⟨hz.plainName, by decide, ?_, ?_,
    semantic_txt hz.plainName hrr⟩, hout, hdir ?_⟩
  · rw [hprep]
    exact scan_charStrings [s]
  · rwa [hprep]
  · rw [charStrings_singleton hall]
    intro c hc
    simp only [cons_append, mem_cons, mem_append, not_mem_nil, or_false] at hc
    tauto

inductive Usual : Str → Str → Prop
  | host {t c : Str} (ds : List ℕ) (ls : List Str)
      (hc : c = hostText ds (closed dot ls ++ (placeholder ++ [dot])))
      (ht : t ∈ hostTypes) (hds : ds.length = numbers t ∨ ds.length + 1 = numbers t)
      (hls : ∀ x ∈ ls, labelOK x true = true)
      (hlen : (closed dot ls ++ placeholderZone).length ≤ 254) : Usual t c
  | text {c : Str} (hc : ∀ b ∈ c, isPlainOctet b = true ∧ b ≠ 36)
      (hlen : (replaceAll c placeholder (trimSuffix placeholderZone [dot])).length ≤ 255) :
      Usual (str "TXT") c

theorem withPriority_host {ds : List ℕ} {text : Str}
    (hds : ds.length = numbers t ∨ ds.length + 1 = numbers t)
    (hn : PlainName n) (h : withPriority 0 r t (hostText ds n) = .ok text) :
    ∃ ds', ds'.length = numbers t ∧ text = hostText ds' n ∧
      ∀ n', PlainName n' → withPriority 0 r t (hostText ds n') = .ok (hostText ds' n') := by
  unfold withPriority at h ⊢
  unfold numbers at hds ⊢
  by_cases hrange : r.priority < 0 ∨ maxPriority < r.priority
  · rw [if_pos hrange] at h
    cases h
  simp only [if_neg hrange] at h ⊢
  cases hfull : priorityFields t with
  | none =>
    simp only [hfull] at h hds ⊢
    split_ifs at h with hprio
    refine ⟨ds, by simpa using hds, (Except.ok.inj h).symm, fun n' hn' => if_neg hprio⟩
  | some full =>
    simp only [hfull, Option.getD_some, (hostText_fields hn).2] at h hds ⊢
    split_ifs at h with hshort htwice
    · refine ⟨r.priority.toNat :: ds, hshort, ?_, fun n' hn' => ?_⟩
      · rw [← Except.ok.inj h]
        simp [hostText]
      · rw [(hostText_fields hn').2, if_pos hshort]
        simp [hostText]
    · refine ⟨ds, by omega, (Except.ok.inj h).symm, fun n' hn' => ?_⟩
      rw [(hostText_fields hn').2, if_neg hshort, if_neg htwice]

theorem mem_replaceFrom {old new x : Str} {k : ℕ} {c : UInt8} (h : c ∈ replaceFrom old new k x) :
    c ∈ x ∨ c ∈ new := by
  induction x generalizing k with
  | nil => cases k <;> cases h
  | cons d x ih =>
    cases k with
    | succ k => exact (ih h).imp_left (mem_cons_of_mem d)
    | zero =>
      rw [replaceFrom] at h
      split_ifs at h
      · exact (mem_append.1 h).elim .inr fun h => (ih h).imp_left (mem_cons_of_mem d)
      · rcases mem_cons.1 h with rfl | h
        exacts [.inl (.head _), (ih h).imp_left (mem_cons_of_mem d)]

/-! ## Records in other zones -/

@[irreducible] def typeOf (E : Env) (r : Store.TemplateRecord) : Str :=
  toUpper E.cases (trimSpace (toUpper E.cases (trimSpace r.type)))

def valueIn (E : Env) (z : Str) (r : Store.TemplateRecord) : Option Str :=
  (valueText E z r).toOption.bind fun text => (content E (typeOf E r) z text).toOption

def entryIn (E : Env) (z : Str) (r : Store.TemplateRecord) : Entry :=
  ⟨fullName E z r, typeOf E r, r.ttl, (valueText E z r).toOption.getD [], (valueIn E z r).getD []⟩

theorem entryIn_type : (entryIn E z r).type = typeOf E r := by rw [entryIn]

variable {e : Entry}

theorem valueIn_eq_some {c : Str} : valueIn E z r = some c ↔
    ∃ text, valueText E z r = .ok text ∧ content E (typeOf E r) z text = .ok c := by
  simp only [valueIn, Option.bind_eq_some_iff, Except.toOption_eq_some]

theorem Becomes.eq_entryIn (hz : IsZone z) (hr : trimSpace r.name = r.name)
    (h : Becomes E l z r e) :
    e = entryIn E z r ∧ IsOwner z (fullName E z r) ∧ valueIn E z r = some e.content := by
  obtain ⟨hname, howner⟩ := (recordName_ownerText hz hr).1 h.name
  have htype : e.type = typeOf E r := by rw [typeOf, ← (editableType_spec h.type).1]
  have hvalue : valueIn E z r = some e.content :=
    valueIn_eq_some.2 ⟨e.text, h.text, htype ▸ h.content⟩
  refine ⟨?_, hname ▸ howner, hvalue⟩
  obtain ⟨n, t, ttl, text, c⟩ := e
  rw [entryIn, hvalue, h.text]
  exact Entry.mk.injEq .. ▸ ⟨hname, htype, h.ttl.1, rfl, rfl⟩

theorem Becomes.move (hp : IsZone p) (hz : IsZone z) (hle : z.length ≤ p.length)
    (hr : trimSpace r.name = r.name)
    (h : Becomes E l p r e) :
    Becomes E l z r (entryIn E z r) ↔ Placed E z r ∧ (valueIn E z r).isSome = true := by
  obtain ⟨rfl, howner, -⟩ := h.eq_entryIn hp hr
  have hmove := isOwner_fullName hp hz hle hr howner
  constructor
  · intro h'
    obtain ⟨-, howner', hvalue⟩ := h'.eq_entryIn hz hr
    exact ⟨hmove.1 howner', by rw [hvalue]; rfl⟩
  · rintro ⟨hplaced, hsome⟩
    obtain ⟨c, hc⟩ := Option.isSome_iff_exists.1 hsome
    obtain ⟨text, htext, hcontent⟩ := valueIn_eq_some.1 hc
    have hname : recordName E z (ownerText z r) = .ok (fullName E z r) :=
      (recordName_ownerText hz hr).2 ⟨rfl, hmove.2 hplaced⟩
    obtain ⟨htype, -, httl, hroom, -, -, hcname⟩ := h
    rw [entryIn_type] at htype hcname
    have hentry : entryIn E z r = ⟨fullName E z r, typeOf E r, r.ttl, text, c⟩ := by
      rw [entryIn, hc, htext]
      rfl
    rw [hentry]
    exact ⟨htype, hname, httl, hroom, htext, hcontent,
      fun ht => fullName_ne_zone hp hz hle hr howner (hcname ht)⟩

theorem valueIn_owner {c : Str} (hE : ReadsHosts E) (hp : IsZone p) (hz : IsZone z)
    (ht : typeOf E r ∈ editableTypes)
    (hno : ¬ Contains r.content placeholder) (h : valueIn E p r = some c) :
    valueIn E z r = some c := by
  obtain ⟨text, htext, hcontent⟩ := valueIn_eq_some.1 h
  refine valueIn_eq_some.2 ⟨text, ?_, content_owner hE hp hz ht hcontent⟩
  rwa [valueText, replaceAll_of_not_contains hno] at htext ⊢

theorem isZone_placeholderZone : IsZone placeholderZone :=
  zoneName_spec (E := .sample) (s := placeholderZone) (by decide +kernel)

theorem closed_labelsOf (hz : IsZone z) : closed dot (labelsOf z) = z := by
  obtain ⟨hne, hn, -⟩ := hz.1.labelsOf_spec
  rw [closed_eq_join hne, ← hn]

theorem replaceAll_host {ds : List ℕ} {ls : List Str} (hls : ∀ x ∈ ls, labelOK x true = true)
    (hz : IsZone z) : replaceAll (hostText ds (closed dot ls ++ (placeholder ++ [dot]))) placeholder
      (trimSuffix z [dot]) = hostText ds (closed dot (ls ++ labelsOf z)) := by
  -- only the placeholder has a bracket
  have hnot : 91 ∉ closed 32 (ds.map Addr.itoa) ++ closed dot ls := by
    intro hm
    rcases mem_append.1 hm with hm | hm
    · obtain ⟨_, hx, hm⟩ := mem_flatMap.1 hm
      obtain ⟨d, -, rfl⟩ := List.mem_map.1 hx
      rcases mem_append.1 hm with hm | hm
      exacts [absurd (Addr.mem_itoa _ hm) (by decide), absurd hm (by decide)]
    · obtain ⟨x, hx, hm⟩ := mem_flatMap.1 hm
      rcases mem_append.1 hm with hm | hm
      exacts [absurd ((isLabelByte_of_labelOK (hls x hx)).2.2 _ hm) (by decide),
        absurd hm (by decide)]
  have hzone : replaceFrom placeholder (trimSuffix z [dot]) 0 (placeholder ++ [dot]) = z := by
    rw [show placeholder ++ [dot] = 91 :: str "ZONE]." from rfl, replaceFrom, if_pos (by decide)]
    exact bare_dot hz
  rw [replaceAll, hostText, ← append_assoc, replaceFrom_of_not_mem (by decide) hnot, hzone,
    hostText, closed_append, closed_labelsOf hz, append_assoc]

theorem hostLabels_spec {ls : List Str} (hls : ∀ x ∈ ls, labelOK x true = true)
    (hlen : (closed dot ls ++ placeholderZone).length ≤ 254) (hz : IsZone z)
    (hle : z.length ≤ placeholderZone.length) :
    ls ++ labelsOf z ≠ [] ∧ (∀ x ∈ ls ++ labelsOf z, labelOK x true = true) ∧
      PlainName (closed dot (ls ++ labelsOf z)) := by
  have hlabels : ∀ x ∈ ls ++ labelsOf z, labelOK x true = true := by
    intro x hx
    rcases mem_append.1 hx with hx | hx
    · exact hls x hx
    · obtain ⟨i, hi⟩ := mem_iff_getElem?.1 hx
      exact labelOK_true (hz.2 (x, i) (mk_mem_zipIdx_iff_getElem?.2 hi))
  have hne : ls ++ labelsOf z ≠ [] := fun h => hz.1.labelsOf_spec.1 (append_eq_nil_iff.1 h).2
  refine ⟨hne, hlabels, plainName_closed hne hlabels ?_⟩
  rw [closed_append, closed_labelsOf hz, length_append]
  rw [length_append] at hlen
  omega

theorem withPriority_text {x y text : Str} (h : withPriority 0 r (str "TXT") x = .ok text) :
    text = x ∧ withPriority 0 r (str "TXT") y = .ok y := by
  unfold withPriority at h ⊢
  by_cases hrange : r.priority < 0 ∨ maxPriority < r.priority
  · rw [if_pos hrange] at h
    cases h
  rw [if_neg hrange] at h ⊢
  have h : (if r.priority ≠ 0 then _ else _) = _ := h
  split_ifs at h with h0
  exact ⟨(Except.ok.inj h).symm, if_neg h0⟩

theorem plain_of_labelByte {b : UInt8} (h : isLabelByte b = true ∨ b = dot) :
    isPlainOctet b = true ∧ b ≠ 36 := by
  obtain ⟨hprint, -, hbad⟩ := safe_of_labelByte h
  have hne : b ≠ 34 ∧ b ≠ 92 ∧ b ≠ 36 := by
    refine ⟨?_, ?_, ?_⟩ <;> rintro rfl <;> exact hbad (by decide)
  simp only [isPlainOctet, Bool.and_eq_true, bne_iff_ne, decide_eq_true_eq]
  exact ⟨⟨⟨⟨hne.1, hne.2.1⟩, by grind⟩, hprint.2⟩, hne.2.2⟩

/-- **Values of the usual forms** are valid in every zone that is not longer. -/
theorem Usual.isSome (hE : ReadsHosts E) (hz : IsZone z) (hle : z.length ≤ placeholderZone.length)
    (hr : trimSpace r.content = r.content)
    (hu : Usual (toUpper E.cases (trimSpace r.type)) r.content)
    (h : valueIn E placeholderZone r ≠ none) : (valueIn E z r).isSome = true := by
  obtain ⟨c, h⟩ := Option.ne_none_iff_exists'.1 h
  obtain ⟨text, htext, hcontent⟩ := valueIn_eq_some.1 h
  have hp := isZone_placeholderZone
  have hupper {t : Str} (ht : t ∈ str "TXT" :: hostTypes) : toUpper E.cases (trimSpace t) = t := by
    have hall : ∀ t ∈ str "TXT" :: hostTypes, (∀ b ∈ t, 0x21 ≤ b ∧ b ≤ 0x7e) ∧
        IsUpperStr t := by decide +kernel
    rw [trimSpace_of_printable (hall t ht).1, toUpper_of_isUpperStr _ (hall t ht).2]
  rw [Option.isSome_iff_exists]
  simp only [valueIn_eq_some]
  unfold valueText at htext ⊢
  unfold typeOf at hcontent ⊢
  obtain ⟨w, ws, hw⟩ := exists_pieces_trimmed hr
  rw [hw.trimmed hp] at htext
  rw [hw.trimmed hz]
  generalize toUpper E.cases (trimSpace r.type) = t at hu hcontent htext ⊢
  generalize r.content = x at hu hw htext ⊢
  cases hu with
  | host ds ls hc ht hds hls hlen =>
    subst hc
    rw [hupper (.tail _ ht)] at hcontent ⊢
    rw [replaceAll_host hls hp] at htext
    have hold := (hostLabels_spec hls hlen hp le_rfl).2.2
    obtain ⟨ds', hds', rfl, hprio⟩ := withPriority_host hds hold htext
    obtain ⟨hne, hlabels, hpl⟩ := hostLabels_spec hls hlen hz hle
    obtain ⟨out, hout⟩ := content_host hE hp hz ht hds' hold hne hlabels (by
      rw [closed_append, closed_append, closed_labelsOf hz, closed_labelsOf hp, length_append,
        length_append]
      omega) hcontent
    rw [replaceAll_host hls hz]
    exact ⟨out, _, hprio _ hpl, hout⟩
  | text hplain hlen =>
    rw [hupper (.head _)] at hcontent ⊢
    obtain ⟨rfl, hprio⟩ :=
      withPriority_text (y := replaceAll x placeholder (trimSuffix z [dot])) htext
    refine ⟨_, _, hprio, content_text hz ?_ (hw.trimmed hz) ?_ fun b hb => ?_⟩
    · rw [hw.text]
      cases ws with
      | nil =>
        have hne := ((content_eq_ok hp.plainName (by decide)).1 hcontent).1
        rw [hw.trimmed hp, hw.text] at hne
        exact hne
      | cons w' ws =>
        rw [intercalate_gap]
        exact fun h => (seam_bare hz).1 (append_eq_nil_iff.1 (append_eq_nil_iff.1 h).2).1
    · refine le_trans ?_ hlen
      rw [hw.text, hw.text]
      exact length_intercalate_bare hp hz hle w ws
    · rcases mem_replaceFrom hb with hb | hb
      · exact hplain b hb
      · exact plain_of_labelByte (plainName_octets hz.plainName b (mem_of_mem_bare hz hb))

/-! ## Saved templates -/

def Meet (E : Env) (z : Str) (a b : Store.TemplateRecord) : Prop :=
  fullName E z a = fullName E z b ∧ fullName E placeholderZone a ≠ fullName E placeholderZone b

def setSize (E : Env) (z : Str) (recs : List Store.TemplateRecord) (r : Store.TemplateRecord) : ℕ :=
  recs.countP fun b => fullName E z b == fullName E z r && typeOf E b == typeOf E r

/-- Values that the zone has changed or brought together differ, and where names have come together
    there is no CNAME and not too many values. -/
structure Together (E : Env) (l : Limits) (z : Str) (recs : List Store.TemplateRecord) : Prop where
  distinct : recs.Pairwise fun a b =>
    Contains a.content placeholder ∨ Contains b.content placeholder ∨ Meet E z a b →
      fullName E z a = fullName E z b → typeOf E a = typeOf E b → valueIn E z a ≠ valueIn E z b
  alone : ∀ a ∈ recs, ∀ b ∈ recs, Meet E z a b → typeOf E a ≠ str "CNAME"
  few : ∀ a ∈ recs, ∀ b ∈ recs, Meet E z a b → typeOf E a = typeOf E b →
    (setSize E z recs a : ℤ) ≤ l.maxValues

theorem setSize_eq : (atName (recs.map (entryIn E z)) (entryIn E z r).name
    (entryIn E z r).type).length =
    setSize E z recs r := by
  rw [atName, ← countP_eq_length_filter, countP_map]
  rfl

theorem compatible_iff (hold : Compatible l (recs.map (entryIn E placeholderZone)))
    (hsome : ∀ r ∈ recs, (valueIn E z r).isSome = true)
    (hkept : ∀ r ∈ recs, ¬ Contains r.content placeholder →
      valueIn E z r = valueIn E placeholderZone r) :
    Compatible l (recs.map (entryIn E z)) ↔ Together E l z recs := by
  constructor
  · intro h
    refine ⟨(pairwise_map.1 h.distinct).imp ?_, fun a ha b hb hmeet => ?_, fun a ha b hb _ _ => ?_⟩
    · intro a b hd _ hname htype hv
      refine hd hname ?_ (by simp only [entryIn, hv])
      rwa [entryIn_type, entryIn_type]
    · have hne : a ≠ b := by
        rintro rfl
        exact hmeet.2 rfl
      have : Std.Symm fun a b => Apart (entryIn E z a) (entryIn E z b) := ⟨fun _ _ h => symm h⟩
      have happart := (pairwise_map.1 h.apart).forall ha hb hne hmeet.1
      rw [← entryIn_type (z := z)]
      exact happart.1
    · rw [← setSize_eq]
      exact h.few _ (mem_map_of_mem ha)
  · intro h
    refine ⟨fun e he => ?_, pairwise_map.2
      (((pairwise_map.1 hold.distinct).and h.distinct).imp_of_mem ?_),
      pairwise_map.2 ((pairwise_map.1 hold.apart).imp_of_mem ?_)⟩
    · obtain ⟨a, ha, rfl⟩ := List.mem_map.1 he
      rw [setSize_eq]
      by_cases hmeet : ∃ b ∈ recs, Meet E z a b ∧ typeOf E a = typeOf E b
      · obtain ⟨b, hb, hmeet, htype⟩ := hmeet
        exact h.few a ha b hb hmeet htype
      · -- the set has only records that were in it before
        have hle : setSize E z recs a ≤ setSize E placeholderZone recs a := by
          refine countP_mono_left fun b hb hab => ?_
          simp only [Bool.and_eq_true, beq_iff_eq] at hab ⊢
          exact ⟨not_not.1 fun hne => hmeet ⟨b, hb, ⟨hab.1.symm, Ne.symm hne⟩, hab.2.symm⟩, hab.2⟩
        have := hold.few _ (mem_map_of_mem ha)
        rw [setSize_eq] at this
        omega
    · rintro a b ha hb ⟨hold, hnew⟩ hname htype heq
      rw [entryIn_type, entryIn_type] at htype
      have hvalue : valueIn E z a = valueIn E z b := by
        obtain ⟨c, hc⟩ := Option.isSome_iff_exists.1 (hsome a ha)
        obtain ⟨d, hd⟩ := Option.isSome_iff_exists.1 (hsome b hb)
        simp only [entryIn, hc, hd, Option.getD_some] at heq
        rw [hc, hd, heq]
      by_cases hc : Contains a.content placeholder ∨ Contains b.content placeholder ∨ Meet E z a b
      · exact hnew hc hname htype hvalue
      · obtain ⟨hca, hcb, hmeet⟩ := by simpa only [not_or] using hc
        rw [hkept a ha hca, hkept b hb hcb] at hvalue
        refine hold (not_not.1 fun hne => hmeet ⟨hname, hne⟩) ?_ (by simp only [entryIn, hvalue])
        rwa [entryIn_type, entryIn_type]
    · intro a b ha hb hold hname
      by_cases hp : fullName E placeholderZone a = fullName E placeholderZone b
      · have := hold hp
        rwa [entryIn_type, entryIn_type] at this ⊢
      · rw [entryIn_type, entryIn_type]
        exact ⟨h.alone a ha b hb ⟨hname, hp⟩, h.alone b hb a ha ⟨hname.symm, Ne.symm hp⟩⟩

theorem expands_iff {zone : Str} (hzone : zoneName E zone = .ok z)
    (hr : ∀ r ∈ recs, trimSpace r.name = r.name) :
    (∃ sets, expandRecords E l zone recs = .ok sets) ↔ recs.length ≤ Store.maxTemplateRecords ∧
      (∀ r ∈ recs, Becomes E l z r (entryIn E z r)) ∧ Compatible l (recs.map (entryIn E z)) := by
  have hz := zoneName_spec hzone
  rw [expandRecords_ok_iff]
  constructor
  · rintro ⟨_, es, hzone', hlen, hb, hc⟩
    cases hzone.symm.trans hzone'
    have heq : es = recs.map (entryIn E z) := by
      have := forall₂_imp_mem hb fun r hr' e h => (h.eq_entryIn hz (hr r hr')).1.symm
      rwa [← forall₂_map_left_iff (R := Eq), forall₂_eq_eq_eq, eq_comm] at this
    rw [heq] at hb hc
    exact ⟨hlen, forall₂_same.1 (forall₂_map_right_iff.1 hb), hc⟩
  · rintro ⟨hlen, hb, hc⟩
    exact ⟨z, _, hzone, hlen, forall₂_map_right_iff.2 (forall₂_same.2 hb), hc⟩

/-- What the records of a saved template must meet in a zone: the names have a place, values that
    have the placeholder in an unusual way are valid, and the records come together well. -/
structure Suits (E : Env) (l : Limits) (z : Str) (recs : List Store.TemplateRecord) : Prop where
  names : ∀ r ∈ recs, Placed E z r
  values : ∀ r ∈ recs, Contains r.content placeholder →
    ¬ Usual (toUpper E.cases (trimSpace r.type)) r.content → (valueIn E z r).isSome = true
  together : Together E l z recs

theorem normalize_spec {C : Config} {i out : Input} (h : normalize C l i = .ok out) :
    (∃ sets, expandRecords C.env l placeholderZone out.records = .ok sets) ∧
      ∀ r ∈ out.records, trimSpace r.name = r.name ∧ trimSpace r.content = r.content := by
  unfold normalize at h
  dsimp only at h
  split_ifs at h
  obtain ⟨sets, hsets, h⟩ := Except.bind_eq_ok.1 h
  cases h
  refine ⟨⟨sets, hsets⟩, fun r hr => ?_⟩
  obtain ⟨r, -, rfl⟩ := List.mem_map.1 hr
  exact ⟨trimSpace_trimSpace _, trimSpace_trimSpace _⟩

/-- **Saved templates in other zones.**  A template that was accepted when it was saved is expanded
    for a zone whose name is not longer than the placeholder zone's just if its records suit the
    zone. -/
theorem saved_expands_iff {C : Config} {zone : Str} {i out : Input} (hE : ReadsHosts C.env)
    (hsaved : normalize C l i = .ok out) (hzone : zoneName C.env zone = .ok z)
    (hle : z.length ≤ placeholderZone.length) :
    (∃ sets, expandRecords C.env l zone out.records = .ok sets) ↔ Suits C.env l z out.records := by
  obtain ⟨hsets, htrim⟩ := normalize_spec hsaved
  have hp := isZone_placeholderZone
  have hz := zoneName_spec hzone
  have hplaceholder : zoneName C.env placeholderZone = .ok placeholderZone := by
    obtain ⟨p, es, hp', -⟩ := expandRecords_ok_iff.1 hsets
    have hcanon := ((names_canonical C.env).1 _ _ hp').1
    rw [canonicalZone_of_isZone hp] at hcanon
    rw [hp', Except.ok.inj hcanon]
  obtain ⟨hlen, hbecomes, hold⟩ := (expands_iff hplaceholder fun r hr => (htrim r hr).1).1 hsets
  have hvalue (r) (hr : r ∈ out.records) : valueIn C.env placeholderZone r ≠ none := by
    rw [((hbecomes r hr).eq_entryIn hp (htrim r hr).1).2.2]
    exact Option.some_ne_none _
  have hkept (r) (hr : r ∈ out.records) (hno : ¬ Contains r.content placeholder) :
      valueIn C.env z r = valueIn C.env placeholderZone r := by
    obtain ⟨c, hc⟩ := Option.ne_none_iff_exists'.1 (hvalue r hr)
    rw [hc, valueIn_owner hE hp hz (entryIn_type ▸ (hbecomes r hr).type_mem) hno hc]
  rw [expands_iff hzone fun r hr => (htrim r hr).1]
  have hmove (r) (hr : r ∈ out.records) := (hbecomes r hr).move hp hz hle (htrim r hr).1
  constructor
  · rintro ⟨-, hb, hc⟩
    have hb (r) (hr : r ∈ out.records) := (hmove r hr).1 (hb r hr)
    exact ⟨fun r hr => (hb r hr).1, fun r hr _ _ => (hb r hr).2,
      (compatible_iff hold (fun r hr => (hb r hr).2) hkept).1 hc⟩
  · intro h
    have hsome (r) (hr : r ∈ out.records) : (valueIn C.env z r).isSome = true := by
      by_cases hc : Contains r.content placeholder
      · by_cases hu : Usual (toUpper C.env.cases (trimSpace r.type)) r.content
        · exact hu.isSome hE hz hle (htrim r hr).2 (hvalue r hr)
        · exact h.values r hr hc hu
      · rw [hkept r hr hc]
        exact Option.isSome_iff_ne_none.2 (hvalue r hr)
    exact ⟨hlen, fun r hr => (hmove r hr).2 ⟨h.names r hr, hsome r hr⟩,
      (compatible_iff hold hsome hkept).2 h.together⟩

/-! ## A library and templates -/

theorem words_hostText {ds : List ℕ} (hn : PlainName n) :
    words (hostText ds n) = ds.map Addr.itoa ++ [n] := by
  have hone {s : Str} (hs : Seam s) : Parts.parts (· == 32) s = [s] :=
    Parts.parts_of_forall (fun c hc => beq_eq_false_iff_ne.2 fun h =>
      absurd (hs.2 c hc).1 (h ▸ by decide)) hs.1
  induction ds with
  | nil => exact hone (seam_plainName hn)
  | cons d ds ih =>
    rw [hostText, map_cons, closed_cons, append_assoc, cons_append, words, Parts.parts_append rfl,
      hone (seam_itoa d)]
    exact congrArg _ ih

theorem plainNames_of_host {rr : RR} (hn : PlainName n) (h : hostOf rr = some n) :
    plainNames rr = true := by
  have hplain : (n != [] && n.all fun b => isLabelByte b || b == dot) = true := by
    simp only [Bool.and_eq_true, bne_iff_ne, all_eq_true, Bool.or_eq_true, beq_iff_eq]
    exact ⟨(seam_plainName hn).1, plainName_octets hn⟩
  cases rr <;> cases h <;> exact hplain

theorem readsHosts_fieldReader : ReadsHosts fieldReader where
  owner _ _ _ _ := rfl
  host := by
    intro z t ds n n' rr _ ht hds hn hn' h
    have hsafe (ds : List ℕ) : ∀ c ∈ join 32 (ds.map Addr.itoa ++ [n']), c = 32 ∨ SafeByte c := by
      rw [← closed_append_eq_join]
      exact hostText_safe hn'
    have hname : ∀ c ∈ hostText [] n', c = 32 ∨ SafeByte c := hostText_safe hn'
    have hfields {n : Str} (hn : PlainName n) (ht : t ∈ fieldTypes) :
        fieldReader.newRR z t (hostText ds n) = (fieldRecord t (ds.map Addr.itoa ++ [n])).filter
          plainNames := by
      rw [← words_hostText hn]
      exact if_pos ht
    simp only [hostTypes, mem_cons, not_mem_nil, or_false] at ht
    rcases ht with rfl | rfl | rfl | rfl | rfl
    · obtain rfl := length_eq_zero_iff.1 hds
      refine ⟨.cname n', ?_, rfl, hname⟩
      exact Option.filter_eq_some_iff.2 ⟨rfl, plainNames_of_host hn' rfl⟩
    · obtain rfl := length_eq_zero_iff.1 hds
      refine ⟨.ns n', ?_, rfl, hname⟩
      exact Option.filter_eq_some_iff.2 ⟨rfl, plainNames_of_host hn' rfl⟩
    · obtain rfl := length_eq_zero_iff.1 hds
      refine ⟨.ptr n', ?_, rfl, hname⟩
      exact Option.filter_eq_some_iff.2 ⟨rfl, plainNames_of_host hn' rfl⟩
    · obtain ⟨d, rfl⟩ := length_eq_one_iff.1 hds
      rw [hfields hn (by decide)] at h
      obtain ⟨i, hi, -⟩ := Option.map_eq_some_iff.1 (Option.filter_eq_some_iff.1 h).1
      refine ⟨.mx i n', ?_, rfl, hsafe [i]⟩
      rw [hfields hn' (by decide)]
      exact Option.filter_eq_some_iff.2 ⟨Option.map_eq_some_iff.2 ⟨i, hi, rfl⟩,
        plainNames_of_host hn' rfl⟩
    · obtain ⟨d₁, d₂, d₃, rfl⟩ := length_eq_three.1 hds
      rw [hfields hn (by decide)] at h
      obtain ⟨i, hi, h⟩ := Option.bind_eq_some_iff.1 (Option.filter_eq_some_iff.1 h).1
      obtain ⟨j, hj, h⟩ := Option.bind_eq_some_iff.1 h
      obtain ⟨k, hk, -⟩ := Option.map_eq_some_iff.1 h
      refine ⟨.srv i j k n', ?_, rfl, hsafe [i, j, k]⟩
      rw [hfields hn' (by decide)]
      refine Option.filter_eq_some_iff.2 ⟨?_, plainNames_of_host hn' rfl⟩
      refine Option.bind_eq_some_iff.2 ⟨i, hi,
        Option.bind_eq_some_iff.2 ⟨j, hj, Option.map_eq_some_iff.2 ⟨k, hk, ?_⟩⟩⟩
      exact congrArg _ (flatten_singleton (l := n'))

def mailConfig : Config := { Config.sample with env := fieldReader }

/-- Name and mail servers, a web server and a mail policy. -/
def mailRecords : List Store.TemplateRecord :=
  [⟨str "@", str "NS", 3600, str "ns1.[ZONE].", 0⟩,
    ⟨str "@", str "MX", 3600, str "mail.[ZONE].", 10⟩,
    ⟨str "mail.[ZONE].", str "A", 300, str "192.0.2.25", 0⟩,
      ⟨str "www.[ZONE]", str "CNAME", 300, str "[ZONE].", 0⟩,
    ⟨str "_dmarc", str "TXT", 3600, str "v=DMARC1; p=none; rua=mailto:dmarc@[ZONE]", 0⟩]

theorem mailRecords_usual : ∀ r ∈ mailRecords, Contains r.content placeholder →
    Usual (toUpper fieldReader.cases (trimSpace r.type)) r.content := by
  have htypes : ∀ r ∈ mailRecords, toUpper fieldReader.cases (trimSpace r.type) =
      r.type := by decide +kernel
  have husual : ∀ r ∈ mailRecords, Contains r.content placeholder → Usual r.type r.content := by
    rw [mailRecords]
    simp only [forall_mem_cons]
    refine ⟨fun _ => .host [] [str "ns1"] (by decide) (by decide) (by decide) (by decide)
      (by decide),
      fun _ => .host [] [str "mail"] (by decide) (by decide) (by decide) (by decide) (by decide),
      fun h => absurd h (by decide),
      fun _ => .host [] [] (by decide) (by decide) (by decide) (by decide) (by decide),
      fun _ => .text (by decide +kernel) (by decide +kernel), by simp⟩
  intro r hr hc
  rw [htypes r hr]
  exact husual r hr hc

theorem mailRecords_suit :
    Suits fieldReader defaultLimits (str "lab.example.com.") mailRecords := by
  have hnames : ∀ r ∈ mailRecords, (∀ x ∈
      labelsOf (fullName fieldReader (str "lab.example.com.") r), x.length ≤ 63) ∧
      (fullName fieldReader (str "lab.example.com.") r = str "lab.example.com." ∨
        Under (fullName fieldReader (str "lab.example.com.") r)
          (str "lab.example.com.")) := by decide +kernel
  have hmeet : ∀ a ∈ mailRecords, ∀ b ∈ mailRecords, fullName fieldReader
      (str "lab.example.com.") a =
      fullName fieldReader (str "lab.example.com.") b →
        fullName fieldReader placeholderZone a = fullName fieldReader placeholderZone
          b := by decide +kernel
  have hdistinct : mailRecords.Pairwise fun a b => fullName fieldReader (str "lab.example.com.") a =
      fullName fieldReader (str "lab.example.com.") b →
      typeOf fieldReader a ≠ typeOf fieldReader b := by decide +kernel
  exact ⟨fun r hr => ⟨(hnames r hr).1, (hnames r hr).2⟩,
    fun r hr hc hu => absurd (mailRecords_usual r hr hc) hu,
    hdistinct.imp fun h _ hname htype => absurd htype (h hname),
    fun a ha b hb h => absurd (hmeet a ha b hb h.1) h.2, fun a ha b hb h =>
      absurd (hmeet a ha b hb h.1) h.2⟩

/-- The template for a zone of another name. -/
theorem saved_expands_mail :
    normalize mailConfig defaultLimits ⟨str "mail", [], mailRecords⟩ =
      .ok ⟨str "mail", [], mailRecords⟩ ∧
      ∃ sets, expandRecords mailConfig.env defaultLimits (str "lab.example.com")
        mailRecords = .ok sets := by
  have hsaved : normalize mailConfig defaultLimits ⟨str "mail", [], mailRecords⟩ =
      .ok ⟨str "mail", [], mailRecords⟩ := by
    decide +kernel
  exact ⟨hsaved, (saved_expands_iff (C := mailConfig) readsHosts_fieldReader hsaved
    (by decide +kernel) (by decide)).2
    mailRecords_suit⟩

def Refused (zone : Str) (recs : List Store.TemplateRecord) (e : Err) : Prop :=
  normalize .sample defaultLimits ⟨str "std", [], recs⟩ = .ok ⟨str "std", [], recs⟩ ∧
    expandRecords Config.sample.env defaultLimits zone recs = .error e

/-- Saved templates that are not expanded for a zone of another name: an absolute name in the
    placeholder zone, a label of a name and of a host that the zone makes too long, two texts that
    it makes the same, and two names that it brings together. -/
theorem saved_not_expanded :
    Refused (str "example.com.") [⟨str "www.placeholder.example.", str "A", 3600,
      str "192.0.2.1", 0⟩]
        (recordErr 0 .name (.badName (.outside (str "www.placeholder.example.")
          (str "example.com.")))) ∧
      Refused (str "abcdefghijklmno.com.")
        [⟨replicate 52 97 ++ placeholder, str "A", 3600, str "192.0.2.1", 0⟩]
        (recordErr 0 .name (.badName (.label (replicate 52 97 ++ str "abcdefghijklmno")))) ∧
      Refused (str "abcdefghijklmno.com.")
        [⟨str "www", str "CNAME", 3600, replicate 52 97 ++ placeholder ++ [dot], 0⟩]
        (recordErr 0 .content (.targetLabel (replicate 52 97 ++ str "abcdefghijklmno"))) ∧
      Refused (str "example.com.")
        [⟨str "@", str "TXT", 3600, placeholder, 0⟩,
          ⟨str "@", str "TXT", 3600, str "example.com", 0⟩]
        (recordErr 0 .content .duplicate) ∧
      Refused (str "example.com.") [⟨str "a.[ZONE]", str "CNAME", 3600, str "b.example.", 0⟩,
          ⟨str "a.example.com", str "A", 3600, str "192.0.2.1", 0⟩]
        (recordErr 1 .type (.cnameExists (str "a.example.com.example.com."))) := by
  unfold Refused
  refine ⟨?_, ?_, ?_, ?_, ?_⟩ <;> decide +kernel

end TangraDns.Templates
