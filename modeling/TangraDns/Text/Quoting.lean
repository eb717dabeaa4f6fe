/-
  Texts with strings between double quotes, in which a backslash takes the
  meaning from the byte after it.
-/
import TangraDns.Text.Labels

namespace Str

open List

/-- What may stand between quotes: bytes after a backslash, and bytes other than quote and
    backslash. -/
inductive Body : Str → Prop
  | nil : Body []
  | plain {b : UInt8} {s : Str} (hq : b ≠ 34) (he : b ≠ 92) (h : Body s) : Body (b :: s)
  | escaped {b : UInt8} {s : Str} (h : Body s) : Body (92 :: b :: s)

/-- Closed strings, and bytes with the property outside them. -/
inductive Quoting (ok : UInt8 → Prop) : Str → Prop
  | nil : Quoting ok []
  | outside {b : UInt8} {s : Str} (hq : b ≠ 34) (hb : ok b) (h : Quoting ok s) : Quoting ok (b :: s)
  | quoted {q s : Str} (hq : Body q) (h : Quoting ok s) : Quoting ok (34 :: (q ++ 34 :: s))

def unescape : Str → Str
  | 92 :: b :: s => b :: unescape s
  | b :: s => b :: unescape s
  | [] => []

@[simp] theorem unescape_escaped (b : UInt8) (s : Str) :
    unescape (92 :: b :: s) = b :: unescape s := by
  rw [unescape]

theorem unescape_plain {b : UInt8} (h : b ≠ 92) (s : Str) :
    unescape (b :: s) = b :: unescape s := by
  rw [unescape]
  rintro c t ⟨⟩
  exact absurd rfl h

variable {ok ok' : UInt8 → Prop} {s : Str}

theorem Quoting.mono (h : Quoting ok s) (hok : ∀ b ∈ s, b ≠ 34 → ok b → ok' b) : Quoting ok' s := by
  induction h with
  | nil => exact .nil
  | outside hq hb _ ih =>
    exact .outside hq (hok _ (mem_cons_self ..) hq hb) (ih fun b hb => hok b (mem_cons_of_mem _ hb))
  | quoted hq _ ih =>
    exact .quoted hq (ih fun b hb =>
      hok b (mem_cons_of_mem _ (mem_append_right _ (mem_cons_of_mem _ hb))))

theorem Quoting.append {t : Str} (h : Quoting ok s) (ht : Quoting ok t) : Quoting ok (s ++ t) := by
  induction h with
  | nil => exact ht
  | outside hq hb _ ih => exact .outside hq hb ih
  | quoted hq _ ih =>
    rw [cons_append, append_assoc, cons_append]
    exact .quoted hq ih

theorem Quoting.join {c : UInt8} (hc : c ≠ 34) (hok : ok c) {ss : List Str}
    (h : ∀ s ∈ ss, Quoting ok s) :
    Quoting ok (join c ss) := by
  induction ss with
  | nil => exact .nil
  | cons s ss ih =>
    obtain ⟨hs, hss⟩ := forall_mem_cons.1 h
    cases ss with
    | nil => rwa [join_singleton]
    | cons s' ss =>
      rw [join_cons_cons]
      exact hs.append (.outside hc hok (ih hss))

theorem quoting_of_forall (hq : 34 ∉ s) (h : ∀ b ∈ s, ok b) : Quoting ok s := by
  induction s with
  | nil => exact .nil
  | cons b s ih =>
    rw [mem_cons, not_or] at hq
    exact .outside (Ne.symm hq.1) (h b (mem_cons_self ..))
      (ih hq.2 fun c hc => h c (mem_cons_of_mem _ hc))

theorem Quoting.forall_of_not_mem (h : Quoting ok s) (hq : 34 ∉ s) : ∀ b ∈ s, ok b := by
  induction h with
  | nil => exact fun b hb => absurd hb not_mem_nil
  | outside _ hb _ ih =>
    rw [mem_cons, not_or] at hq
    intro c hc
    rcases mem_cons.1 hc with rfl | hc
    exacts [hb, ih hq.2 c hc]
  | quoted => exact absurd (mem_cons_self ..) hq

end Str
