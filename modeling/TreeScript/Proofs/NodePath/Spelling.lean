/-
**Spellings of a path.**

A path is written in one way, but more texts than that one stand for it: in each piece there may be
a plus sign and zeros in front.  They are the only freedom there is, so that reading what has been
written gives the path back, and writing what has been read takes the signs and the zeros away.

Main definitions:

* `TreeScript.NodePath.Plain` — digits without zeros in front;
* `TreeScript.NodePath.Respells`, `TreeScript.NodePath.Respelled` — **the same piece, and the same
  text, in its plain spelling**.

Main results:

* `TreeScript.NodePath.Plain.eq_toDigits` — a number has one plain spelling, the one that is written;
* `TreeScript.NodePath.written_iff_respells` — a number is written by the spellings of its plain one;
* `TreeScript.NodePath.parse_eq_ok_iff_respelled` — **a text stands for a path if and only if the
  written path is its plain spelling**;
* `TreeScript.NodePath.text_parse_inverse` — **reading and writing are inverse up to spelling**.
-/

import TreeScript.Proofs.NodePath.Grammar

set_option relaxedAutoImplicit false
set_option autoImplicit false

namespace TreeScript.NodePath

variable {s t x y : String} {cs ds es : List Char} {n : Nat} {p q : NodePath}

/-! ### Plain digits -/

/-- Decimal digits, at least one, with a zero in front only if it is the only one. -/
structure Plain (digits : List Char) : Prop where
  ne_nil : digits ≠ []
  digit : ∀ c ∈ digits, '0' ≤ c ∧ c ≤ '9'
  zero : digits.head? = some '0' → digits = ['0']

/-- A character from 0 to 9 is the digit of its value. -/
theorem digitChar_of_digit {c : Char} (hc : '0' ≤ c ∧ c ≤ '9') :
    c.toNat - '0'.toNat < 10 ∧ (c.toNat - '0'.toNat).digitChar = c := by
  have hlo : 48 ≤ c.toNat := hc.1
  have hhi : c.toNat ≤ 57 := hc.2
  have hlt : c.toNat - '0'.toNat < 10 := by simp; omega
  refine ⟨hlt, Char.toNat_inj.1 ?_⟩
  rw [Nat.toNat_digitChar_of_lt_ten hlt]
  simp
  omega

/-- **Digits behind a written number are written behind it**: they are those of the number that has
been made with them. -/
theorem toDigits_append (hn : 0 < n) (hcs : ∀ c ∈ cs, '0' ≤ c ∧ c ≤ '9') :
    Nat.toDigits 10 n ++ cs = Nat.toDigits 10 (Nat.ofDigitChars 10 cs n) := by
  induction cs generalizing n with
  | nil => simp
  | cons c cs ih =>
      obtain ⟨hc, hcs⟩ := List.forall_mem_cons.1 hcs
      obtain ⟨hlt, hchar⟩ := digitChar_of_digit hc
      have hstep : Nat.toDigits 10 n ++ [c] = Nat.toDigits 10 (10 * n + (c.toNat - '0'.toNat)) := by
        rw [← Nat.toDigits_append_toDigits (by decide) hn hlt, Nat.toDigits_of_lt_base hlt, hchar]
      calc Nat.toDigits 10 n ++ c :: cs
          = (Nat.toDigits 10 n ++ [c]) ++ cs := by simp
        _ = Nat.toDigits 10 (10 * n + (c.toNat - '0'.toNat)) ++ cs := by rw [hstep]
        _ = Nat.toDigits 10 (Nat.ofDigitChars 10 cs (10 * n + (c.toNat - '0'.toNat))) :=
            ih (by omega) hcs
        _ = Nat.toDigits 10 (Nat.ofDigitChars 10 (c :: cs) n) := by rw [Nat.ofDigitChars_cons]

/-- **A number has one plain spelling**, the one that is written for it. -/
theorem Plain.eq_toDigits (h : Plain ds) : ds = Nat.toDigits 10 (decimal ds) := by
  rw [← ofDigitChars_eq_decimal]
  cases ds with
  | nil => exact absurd rfl h.ne_nil
  | cons c cs =>
      by_cases hzero : c = '0'
      · obtain rfl : cs = [] := (List.cons.inj (h.zero (by rw [hzero]; rfl))).2
        rw [hzero]
        rfl
      · obtain ⟨hc, hcs⟩ := List.forall_mem_cons.1 h.digit
        obtain ⟨hlt, hchar⟩ := digitChar_of_digit hc
        have hpos : 0 < c.toNat - '0'.toNat := by
          refine Nat.pos_of_ne_zero fun h0 => hzero ?_
          rw [← hchar, h0]
          rfl
        calc c :: cs = Nat.toDigits 10 (c.toNat - '0'.toNat) ++ cs := by
              rw [Nat.toDigits_of_lt_base hlt, hchar, List.singleton_append]
          _ = Nat.toDigits 10 (Nat.ofDigitChars 10 (c :: cs) 0) := by
              rw [toDigits_append hpos hcs, Nat.ofDigitChars_cons, Nat.mul_zero, Nat.zero_add]

theorem decimal_toDigits (n : Nat) : decimal (Nat.toDigits 10 n) = n := by
  rw [← ofDigitChars_eq_decimal, Nat.ofDigitChars_ten_toDigits]

theorem head?_toDigits_ne_zero (h : 0 < n) : (Nat.toDigits 10 n).head? ≠ some '0' := by
  induction n using Nat.strong_induction_on with
  | _ n ih =>
      rw [Nat.toDigits_eq_if (by decide)]
      split
      case isTrue => simpa using Nat.ne_of_gt h
      case isFalse hge =>
        rw [List.head?_append_of_ne_nil _ Nat.toDigits_ne_nil]
        exact ih (n / 10) (by omega) (by omega)

/-- **A number is written plainly.** -/
theorem plain_toDigits (n : Nat) : Plain (Nat.toDigits 10 n) where
  ne_nil := Nat.toDigits_ne_nil
  digit c hc := isDigit_iff.1 (Nat.isDigit_of_mem_toDigits (by decide) (by decide) hc)
  zero h := by
    obtain rfl : n = 0 := by
      by_contra hn
      exact head?_toDigits_ne_zero (Nat.pos_of_ne_zero hn) h
    rfl

/-! ### Zeros in front -/

/-- Zeros in front do not count. -/
theorem decimal_zeros_append {zeros : List Char} (h : ∀ c ∈ zeros, c = '0') (ds : List Char) :
    decimal (zeros ++ ds) = decimal ds := by
  induction zeros with
  | nil => rfl
  | cons c zeros ih =>
      obtain ⟨rfl, hzeros⟩ := List.forall_mem_cons.1 h
      rw [List.cons_append, decimal_cons, ih hzeros]
      simp

/-- Digits are zeros and a plain spelling. -/
theorem exists_plain (hne : cs ≠ []) (hcs : ∀ c ∈ cs, '0' ≤ c ∧ c ≤ '9') :
    ∃ zeros ds, cs = zeros ++ ds ∧ (∀ c ∈ zeros, c = '0') ∧ Plain ds := by
  induction cs with
  | nil => exact absurd rfl hne
  | cons c cs ih =>
      by_cases hplain : c = '0' ∧ cs ≠ []
      · obtain ⟨rfl, hne'⟩ := hplain
        obtain ⟨zeros, ds, rfl, hzeros, hds⟩ := ih hne' (List.forall_mem_cons.1 hcs).2
        exact ⟨'0' :: zeros, ds, rfl, List.forall_mem_cons.2 ⟨rfl, hzeros⟩, hds⟩
      · refine ⟨[], c :: cs, rfl, by simp, hne, hcs, fun hzero => ?_⟩
        obtain rfl := Option.some.inj hzero
        rw [not_and_not_right.1 hplain rfl]

/-! ### Spellings -/

/-- `y` is `x` in its plain spelling: without a plus sign in front, and without the zeros in front
of other digits. -/
def Respells (x y : String) : Prop :=
  ∃ sign zeros, x.toList = sign ++ (zeros ++ y.toList) ∧ (sign = [] ∨ sign = ['+']) ∧
    (∀ c ∈ zeros, c = '0') ∧ Plain y.toList

/-- `t` is `s` with each piece in its plain spelling. -/
def Respelled (s t : String) : Prop :=
  s = "" ∧ t = "" ∨ ∃ xs ys, Pieces s xs ∧ Pieces t ys ∧ List.Forall₂ Respells xs ys

/-- **A number is written by the spellings of its plain one.** -/
theorem written_iff_respells : Written x n ↔ Respells x (Nat.repr n) := by
  rw [Respells, Nat.toList_repr]
  constructor
  · rintro ⟨digits, hx, hne, hdigits, hn⟩
    obtain ⟨zeros, ds, rfl, hzeros, hds⟩ := exists_plain hne hdigits
    have hplain := hds.eq_toDigits
    rw [← decimal_zeros_append hzeros, hn] at hplain
    obtain rfl := hplain
    rcases hx with hx | hx
    · exact ⟨[], zeros, hx, Or.inl rfl, hzeros, hds⟩
    · exact ⟨['+'], zeros, hx, Or.inr rfl, hzeros, hds⟩
  · rintro ⟨sign, zeros, hx, hsign, hzeros, hds⟩
    refine ⟨zeros ++ Nat.toDigits 10 n, ?_, by simp, ?_, ?_⟩
    · rcases hsign with rfl | rfl
      · exact Or.inl hx
      · exact Or.inr hx
    · intro c hc
      rcases List.mem_append.1 hc with hc | hc
      · rw [hzeros c hc]
        decide
      · exact hds.digit c hc
    · rw [decimal_zeros_append hzeros, decimal_toDigits]

/-- A path that is not empty is written with one piece for each segment. -/
theorem pieces_text (hp : p ≠ root) : Pieces p.text (p.segments.map segmentText) where
  ne_nil hnil := by
    obtain ⟨segments⟩ := p
    exact hp (congrArg mk (List.map_eq_nil_iff.1 hnil))
  dot_notMem := by
    intro x hx hdot
    obtain ⟨i, -, rfl⟩ := List.mem_map.1 hx
    rw [segmentText, Nat.toList_repr] at hdot
    exact absurd ((plain_toDigits _).digit '.' hdot) (by decide)
  intercalate_eq := rfl

theorem text_eq_empty_iff : p.text = "" ↔ p = root := by
  constructor
  · intro h
    by_contra hp
    have hempty := pieces_empty (h ▸ pieces_text hp)
    obtain ⟨i, -, hi⟩ := List.mem_map.1 (hempty ▸ List.mem_singleton_self "")
    exact Nat.repr_ne_empty hi
  · rintro rfl
    rfl

theorem not_respells_empty : ¬ Respells x "" := by
  rintro ⟨_, _, -, -, -, h⟩
  exact h.ne_nil rfl

/-- **A text stands for a path if and only if the written path is its plain spelling.** -/
theorem parse_eq_ok_iff_respelled : parse s = .ok p ↔ Respelled s p.text := by
  have hs := pieces_splitDots s
  rw [parse_eq_ok_iff hs]
  by_cases hp : p = root
  · obtain rfl := hp
    constructor
    · rintro (⟨rfl, -⟩ | h)
      · exact Or.inl ⟨rfl, rfl⟩
      · exact absurd (List.forall₂_nil_right_iff.1 h) hs.ne_nil
    · rintro (⟨rfl, -⟩ | ⟨xs, ys, -, hys, h⟩)
      · exact Or.inl ⟨rfl, rfl⟩
      · -- no piece has an empty plain spelling
        obtain rfl := pieces_empty hys
        obtain ⟨x, _, hx, -⟩ := List.forall₂_cons_right_iff.1 h
        exact absurd hx not_respells_empty
  · have hwritten : ∀ {xs : List String}, List.Forall₂ Respells xs (p.segments.map segmentText) ↔
        WrittenAll xs p.segments := by
      intro xs
      simp only [WrittenAll, List.forall₂_map_right_iff, segmentText, written_iff_respells]
    constructor
    · rintro (⟨-, h⟩ | h)
      · exact absurd h hp
      · exact Or.inr ⟨_, _, hs, pieces_text hp, hwritten.2 h⟩
    · rintro (⟨-, h⟩ | ⟨xs, ys, hxs, hys, h⟩)
      · exact absurd (text_eq_empty_iff.1 h) hp
      · obtain rfl := hxs.unique hs
        obtain rfl := hys.unique (pieces_text hp)
        exact Or.inr (hwritten.1 h)

/-- A written path is its own plain spelling. -/
theorem respelled_text (p : NodePath) : Respelled p.text p.text := by
  by_cases hp : p = root
  · obtain rfl := hp
    exact Or.inl ⟨rfl, rfl⟩
  · refine Or.inr ⟨_, _, pieces_text hp, pieces_text hp, List.forall₂_same.2 fun x hx => ?_⟩
    obtain ⟨i, -, rfl⟩ := List.mem_map.1 hx
    exact ⟨[], [], rfl, Or.inl rfl, by simp, by
      rw [segmentText, Nat.toList_repr]
      exact plain_toDigits _⟩

/-- **Reading and writing are inverse up to spelling**: what has been written is read back, so that
different paths are written differently, and what has been read is written in its plain spelling. -/
theorem text_parse_inverse : (∀ p : NodePath, parse p.text = .ok p) ∧ Function.Injective text ∧
    ∀ s q, parse s = .ok q ↔ Respelled s q.text := by
  have hback : ∀ p : NodePath, parse p.text = .ok p := fun p =>
    parse_eq_ok_iff_respelled.2 (respelled_text p)
  refine ⟨hback, fun p q h => ?_, fun s q => parse_eq_ok_iff_respelled⟩
  exact Except.ok.inj ((hback p).symm.trans (h ▸ hback q))

/-- A sign and zeros in front, also before a zero, are taken away. -/
theorem text_parse_inverse_padded : parse "+007.000" = .ok ⟨[7, 0]⟩ ∧
    (⟨[7, 0]⟩ : NodePath).text = "7.0" ∧ Respelled "+007.000" "7.0" ∧
    parse "7.0" = .ok ⟨[7, 0]⟩ := by
  have hread : parse "+007.000" = .ok ⟨[7, 0]⟩ := rfl
  have htext : (⟨[7, 0]⟩ : NodePath).text = "7.0" := by decide
  obtain ⟨hback, -, hspell⟩ := text_parse_inverse
  exact ⟨hread, htext, htext ▸ (hspell _ _).1 hread, htext ▸ hback ⟨[7, 0]⟩⟩

end TreeScript.NodePath
