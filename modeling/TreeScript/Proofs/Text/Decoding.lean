/-
**Texts that can be taken apart.**

A text that is put together of pieces tells them again if each piece ends where it can be seen to:
a word before a delimiter that no word has, a number before what is no digit, and a quoted character
at the end of its escape.  Then two such texts are equal only if they begin with the same piece and
go on in the same way.

Main definitions:

* `TreeScript.Text.Quoted.Escapes` — the ways in which a character may be written;
* `TreeScript.Text.Quoted.unescape` — what the character after a backslash stands for;
* `TreeScript.Text.quotedWith` — **a text between quotes, whichever characters stand for
  themselves**.

Main results:

* `TreeScript.Text.append_inj_of_delimited` — a word ends before a delimiter;
* `TreeScript.Text.toDigits_inj` — different numbers are written with different digits;
* `TreeScript.Text.Quoted.Escapes.append_inj` — **an escape tells its character and where it ends**;
* `TreeScript.Text.quotedWith_inj` — different texts are different between quotes.
-/

import Mathlib.Data.Nat.Digits.Defs
import TreeScript.Text.Quoted

set_option relaxedAutoImplicit false
set_option autoImplicit false

namespace TreeScript.Text

/-! ### Words -/

section Words

variable {p : Char → Prop} {x y r s : List Char}

/-- **A word ends before a delimiter**, if no word has one. -/
theorem append_inj_of_delimited (hx : ∀ c ∈ x, ¬ p c) (hy : ∀ c ∈ y, ¬ p c)
    (hr : ∀ c ∈ r.head?, p c) (hs : ∀ c ∈ s.head?, p c) (h : x ++ r = y ++ s) :
    x = y ∧ r = s := by
  induction x generalizing y with
  | nil =>
      cases y with
      | nil => exact ⟨rfl, h⟩
      | cons d y => exact absurd (hr d (by rw [← List.nil_append r, h]; rfl)) (hy d (by simp))
  | cons c x ih =>
      cases y with
      | nil => exact absurd (hs c (by rw [← List.nil_append s, ← h]; rfl)) (hx c (by simp))
      | cons d y =>
          obtain ⟨rfl, hxy⟩ := List.cons.inj h
          obtain ⟨rfl, hrs⟩ := ih (List.forall_mem_cons.1 hx).2 (List.forall_mem_cons.1 hy).2 hxy
          exact ⟨rfl, hrs⟩

end Words

/-! ### Numbers -/

section Numbers

variable {b m n : Nat} {r s : List Char}

theorem digitChar_inj (hm : m < 16) (hn : n < 16) (h : m.digitChar = n.digitChar) : m = n := by
  have hall : ∀ i < 16, ∀ j < 16, Nat.digitChar i = Nat.digitChar j → i = j := by decide
  exact hall m hm n hn h

/-- **Different numbers are written with different digits.** -/
theorem toDigits_inj (hb : 1 < b) (hb' : b ≤ 16) (h : Nat.toDigits b m = Nat.toDigits b n) :
    m = n := by
  induction m using Nat.strong_induction_on generalizing n with
  | _ m ih =>
      -- one digit each, or the last digits and what stands in front of them
      rcases Nat.lt_or_ge m b with hm | hm <;> rcases Nat.lt_or_ge n b with hn | hn
      · rw [Nat.toDigits_of_lt_base hm, Nat.toDigits_of_lt_base hn] at h
        exact digitChar_inj (hm.trans_le hb') (hn.trans_le hb') (List.cons.inj h).1
      · rw [Nat.toDigits_of_lt_base hm, Nat.toDigits_of_base_le hb hn] at h
        exact absurd (List.append_inj' (h.symm.trans (List.nil_append _).symm) rfl).1
          Nat.toDigits_ne_nil
      · rw [Nat.toDigits_of_base_le hb hm, Nat.toDigits_of_lt_base hn] at h
        exact absurd (List.append_inj' (h.trans (List.nil_append _).symm) rfl).1 Nat.toDigits_ne_nil
      · rw [Nat.toDigits_of_base_le hb hm, Nat.toDigits_of_base_le hb hn] at h
        obtain ⟨hfront, hlast⟩ := List.append_inj' h rfl
        have hdiv := ih (m / b) (Nat.div_lt_self (by omega) hb) hfront
        have hlt : ∀ k, k % b < 16 := fun k => (Nat.mod_lt k (by omega)).trans_le hb'
        have hmod := digitChar_inj (hlt m) (hlt n) (List.cons.inj hlast).1
        rw [← Nat.div_add_mod m b, ← Nat.div_add_mod n b, hdiv, hmod]

theorem exists_digitChar_of_mem_toDigits {c : Char} (hb : 1 < b) (hc : c ∈ Nat.toDigits b n) :
    ∃ d, c = Nat.digitChar d := by
  induction n using Nat.strong_induction_on with
  | _ n ih =>
      rcases Nat.lt_or_ge n b with hn | hn
      · rw [Nat.toDigits_of_lt_base hn] at hc
        exact ⟨n, List.mem_singleton.1 hc⟩
      · rw [Nat.toDigits_of_base_le hb hn] at hc
        rcases List.mem_append.1 hc with hc | hc
        · exact ih (n / b) (Nat.div_lt_self (by omega) hb) hc
        · exact ⟨n % b, List.mem_singleton.1 hc⟩

/-- **A number ends before what is no digit.** -/
theorem repr_append_inj (hr : ∀ c ∈ r.head?, ¬ c.isDigit) (hs : ∀ c ∈ s.head?, ¬ c.isDigit)
    (h : m.repr.toList ++ r = n.repr.toList ++ s) : m = n ∧ r = s := by
  have hdigits : ∀ k, ∀ c ∈ Nat.toDigits 10 k, ¬ ¬ c.isDigit := fun k c hc =>
    not_not.2 (Nat.isDigit_of_mem_toDigits (by decide) (by decide) hc)
  rw [Nat.repr_eq_ofList_toDigits, Nat.repr_eq_ofList_toDigits, String.toList_ofList,
    String.toList_ofList] at h
  obtain ⟨hmn, hrs⟩ := append_inj_of_delimited (hdigits m) (hdigits n) hr hs h
  exact ⟨toDigits_inj (by decide) (by decide) hmn, hrs⟩

end Numbers

/-! ### Quoted text -/

namespace Quoted

variable {plain : Char → Bool} {c d e : Char} {x y r s cs ds : List Char}

/-- `x` is one of the ways in which `c` may be written between quotes. -/
inductive Escapes (c : Char) : List Char → Prop where
  | short {e : Char} (h : shortEscape? c = some e) : Escapes c ['\\', e]
  | plain (h : shortEscape? c = none) : Escapes c [c]
  | hex (h : shortEscape? c = none) : Escapes c (hexEscape c)

theorem escapes_escape (plain : Char → Bool) (c : Char) : Escapes c (escape plain c) := by
  unfold escape
  split
  case h_1 e he => exact Escapes.short he
  case h_2 he =>
    split
    · exact Escapes.plain he
    · exact Escapes.hex he

/-- What stands after a backslash is not the letter with which digits are announced. -/
theorem shortEscape?_ne_some_u : shortEscape? c ≠ some 'u' := by
  unfold shortEscape?
  split_ifs <;> simp

/-- The character for which `e` stands after a backslash. -/
def unescape (e : Char) : Char :=
  match e with
  | '0' => '\x00'
  | 't' => '\t'
  | 'r' => '\r'
  | 'n' => '\n'
  | e => e

theorem eq_unescape (h : shortEscape? c = some e) : c = unescape e := by
  unfold shortEscape? at h
  split_ifs at h with h0 ht hr hn hb hq
  · rw [h0, ← Option.some.inj h]; rfl
  · rw [ht, ← Option.some.inj h]; rfl
  · rw [hr, ← Option.some.inj h]; rfl
  · rw [hn, ← Option.some.inj h]; rfl
  · rw [hb, ← Option.some.inj h]; rfl
  · rw [hq, ← Option.some.inj h]; rfl

theorem ne_backslash_of_shortEscape?_eq_none (h : shortEscape? c = none) : c ≠ '\\' := by
  rintro rfl
  cases h

theorem ne_quote_of_shortEscape?_eq_none (h : shortEscape? c = none) : c ≠ '"' := by
  rintro rfl
  cases h

/-- **The digits of a character end before the brace.** -/
theorem hexEscape_append_inj (h : hexEscape c ++ r = hexEscape d ++ s) : c = d ∧ r = s := by
  have hbrace : ∀ k, ∀ e ∈ Nat.toDigits 16 k, ¬ e = '\x7d' := by
    intro k e he
    obtain ⟨i, rfl⟩ := exists_digitChar_of_mem_toDigits (by decide) he
    exact Nat.digitChar_ne '\x7d' (by decide)
  simp only [hexEscape, List.append_assoc, List.append_cancel_left_eq] at h
  obtain ⟨hcd, hrs⟩ := append_inj_of_delimited (p := (· = '\x7d')) (hbrace c.toNat) (hbrace d.toNat)
    (by simp) (by simp) h
  exact ⟨Char.toNat_inj.1 (toDigits_inj (by decide) (by decide) hcd), List.append_cancel_left hrs⟩

/-- **An escape tells its character and where it ends.** -/
theorem Escapes.append_inj (hx : Escapes c x) (hy : Escapes d y) (h : x ++ r = y ++ s) :
    c = d ∧ r = s := by
  cases hx with
  | short hc =>
      cases hy with
      | short hd =>
          obtain ⟨-, hafter⟩ := List.cons.inj h
          obtain ⟨rfl, hrs⟩ := List.cons.inj hafter
          exact ⟨(eq_unescape hc).trans (eq_unescape hd).symm, hrs⟩
      | plain hd => exact absurd (List.cons.inj h).1.symm (ne_backslash_of_shortEscape?_eq_none hd)
      | hex hd =>
          obtain ⟨-, hafter⟩ := List.cons.inj h
          obtain ⟨rfl, -⟩ := List.cons.inj hafter
          exact absurd hc shortEscape?_ne_some_u
  | plain hc =>
      cases hy with
      | short hd => exact absurd (List.cons.inj h).1 (ne_backslash_of_shortEscape?_eq_none hc)
      | plain hd => exact List.cons.inj h
      | hex hd => exact absurd (List.cons.inj h).1 (ne_backslash_of_shortEscape?_eq_none hc)
  | hex hc =>
      cases hy with
      | short hd =>
          obtain ⟨-, hafter⟩ := List.cons.inj h
          obtain ⟨rfl, -⟩ := List.cons.inj hafter
          exact absurd hd shortEscape?_ne_some_u
      | plain hd => exact absurd (List.cons.inj h).1.symm (ne_backslash_of_shortEscape?_eq_none hd)
      | hex hd => exact hexEscape_append_inj h

/-- No escape begins with a quote. -/
theorem Escapes.append_ne_quote (hx : Escapes c x) : x ++ r ≠ '"' :: s := by
  intro h
  cases hx with
  | short hc => exact absurd (List.cons.inj h).1 (by decide)
  | plain hc => exact ne_quote_of_shortEscape?_eq_none hc (List.cons.inj h).1
  | hex hc => exact absurd (List.cons.inj h).1 (by decide)

/-- **What is between quotes tells the characters of the text and where it ends.** -/
theorem encode_append_inj (h : encode plain cs ++ '"' :: r = encode plain ds ++ '"' :: s) :
    cs = ds ∧ r = s := by
  induction cs generalizing ds with
  | nil =>
      cases ds with
      | nil => exact ⟨rfl, (List.cons.inj h).2⟩
      | cons d ds =>
          rw [encode_cons, List.append_assoc] at h
          exact absurd h.symm (escapes_escape plain d).append_ne_quote
  | cons c cs ih =>
      rw [encode_cons, List.append_assoc] at h
      cases ds with
      | nil => exact absurd h (escapes_escape plain c).append_ne_quote
      | cons d ds =>
          rw [encode_cons, List.append_assoc] at h
          obtain ⟨rfl, hafter⟩ := (escapes_escape plain c).append_inj (escapes_escape plain d) h
          obtain ⟨rfl, hrs⟩ := ih hafter
          exact ⟨rfl, hrs⟩

end Quoted

/-- A text between quotes, when the characters for which `plain` holds stand for themselves. -/
def quotedWith (plain : Char → Bool) (s : String) : String :=
  String.ofList ('"' :: Quoted.encode plain s.toList ++ ['"'])

theorem quoted_eq_quotedWith (s : String) : quoted s = quotedWith Quoted.isPlain s := rfl

/-- **Different texts are different between quotes**, whichever characters stand for themselves. -/
theorem quotedWith_inj {plain : Char → Bool} {s t : String} :
    quotedWith plain s = quotedWith plain t ↔ s = t := by
  refine ⟨fun h => ?_, fun h => by rw [h]⟩
  have h := (List.cons.inj (String.ofList_injective h)).2
  exact String.toList_inj.1 (Quoted.encode_append_inj h).1

end TreeScript.Text
