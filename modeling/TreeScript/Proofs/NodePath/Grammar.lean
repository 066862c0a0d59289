/-
**The grammar of written paths.**

A text is cut at its dots into pieces, and each piece has to be a written index: a plus sign or
none, and then at least one decimal digit, with a value that fits into a segment.  Zeros may stand
in front, so it is the value that is bounded and not the length.  A text that is no path is refused
with the first piece from the left that is no index.

Main definitions:

* `TreeScript.NodePath.Pieces` — the pieces of a text between its dots;
* `TreeScript.NodePath.decimal`, `TreeScript.NodePath.Written` — **how a number may be written**;
* `TreeScript.NodePath.IsIndex` — what is a written index.

Main results:

* `TreeScript.NodePath.Pieces.unique`, `TreeScript.NodePath.pieces_splitDots` — a text has its
  pieces in one way only, and they are found;
* `TreeScript.NodePath.readSegment?_eq_some_iff` — reading one piece;
* `TreeScript.NodePath.parse_eq_ok_iff`, `TreeScript.NodePath.parse_eq_error_iff` — reading a text;
* `TreeScript.NodePath.parse_grammar` — **the texts that are paths are those of the grammar**.
-/

import Mathlib.Data.List.Forall2
import Mathlib.Data.Nat.Digits.Defs
import TreeScript.NodePath
import TreeScript.Proofs.Results

set_option relaxedAutoImplicit false
set_option autoImplicit false

namespace TreeScript.NodePath

variable {s x : String} {pieces : List String} {cs digits : List Char} {ss : List (List Char)}
  {is : List UInt32} {i : UInt32} {n : Nat} {e : PathError}

/-! ### Pieces -/

/-- The pieces are those of the text between its dots: they have no dots of their own, and with a
dot between every two they make up the text. -/
structure Pieces (s : String) (pieces : List String) : Prop where
  ne_nil : pieces ≠ []
  dot_notMem : ∀ x ∈ pieces, '.' ∉ x.toList
  intercalate_eq : ".".intercalate pieces = s

theorem Pieces.splitOn_eq (h : Pieces s pieces) : s.toList.splitOn '.' = pieces.map String.toList := by
  rw [← h.intercalate_eq, String.toList_intercalate]
  refine List.splitOn_intercalate '.' ?_ (by simpa using h.ne_nil)
  intro cs hcs
  obtain ⟨x, hx, rfl⟩ := List.mem_map.1 hcs
  exact h.dot_notMem x hx

/-- **A text has its pieces in one way only.** -/
theorem Pieces.unique {others : List String} (h : Pieces s pieces) (h' : Pieces s others) :
    pieces = others :=
  (List.map_inj_right fun _ _ => String.toList_inj.1).1 (h.splitOn_eq.symm.trans h'.splitOn_eq)

/-- **The pieces are found.** -/
theorem pieces_splitDots (s : String) : Pieces s ((splitDots s.toList).map String.ofList) where
  ne_nil := by simpa using splitDots_ne_nil s.toList
  dot_notMem := by
    intro x hx
    obtain ⟨cs, hcs, rfl⟩ := List.mem_map.1 hx
    rw [String.toList_ofList]
    exact dot_notMem_of_mem_splitDots hcs
  intercalate_eq := by
    rw [← String.toList_inj, String.toList_intercalate, List.map_map]
    simpa [Function.comp_def] using intercalate_splitDots s.toList

/-! ### Written numbers -/

/-- The value of decimal digits: each one counts by the power of ten of its place. -/
def decimal (digits : List Char) : Nat :=
  Nat.ofDigits 10 (digits.reverse.map fun c => c.toNat - '0'.toNat)

/-- `x` is a way to write the number `n`: a plus sign or none, and then at least one of the digits
from 0 to 9. -/
def Written (x : String) (n : Nat) : Prop :=
  ∃ digits, (x.toList = digits ∨ x.toList = '+' :: digits) ∧ digits ≠ [] ∧
    (∀ c ∈ digits, '0' ≤ c ∧ c ≤ '9') ∧ decimal digits = n

/-- `x` is a written index: the number fits into a segment. -/
def IsIndex (x : String) : Prop := ∃ n < 2 ^ 32, Written x n

/-- The texts are ways to write the segments, one by one. -/
def WrittenAll (xs : List String) (segments : List UInt32) : Prop :=
  List.Forall₂ (fun x (i : UInt32) => Written x i.toNat) xs segments

theorem writtenAll_nil_iff : WrittenAll [] is ↔ is = [] := List.forall₂_nil_left_iff

theorem writtenAll_cons_iff {xs : List String} : WrittenAll (x :: xs) is ↔
    ∃ i rest, Written x i.toNat ∧ WrittenAll xs rest ∧ is = i :: rest :=
  List.forall₂_cons_left_iff

theorem decimal_cons (c : Char) (cs : List Char) :
    decimal (c :: cs) = decimal cs + 10 ^ cs.length * (c.toNat - '0'.toNat) := by
  rw [decimal, List.reverse_cons, List.map_append, Nat.ofDigits_append]
  simp [decimal]

/-- The value is found digit by digit from the left. -/
theorem ofDigitChars_eq_decimal (cs : List Char) : Nat.ofDigitChars 10 cs 0 = decimal cs := by
  induction cs with
  | nil => rfl
  | cons c cs ih =>
      rw [Nat.ofDigitChars_cons, Nat.ofDigitChars_eq_ofDigitChars_zero, ih, decimal_cons]
      simp [Nat.add_comm]

theorem isDigit_iff {c : Char} : c.isDigit ↔ '0' ≤ c ∧ c ≤ '9' := by
  simp [Char.isDigit, Char.le_def]

theorem not_isDigit_plus : ¬ ('0' ≤ '+' ∧ '+' ≤ '9') := by decide

/-- A written number is what is left without the sign. -/
theorem written_ofList_iff : Written (String.ofList cs) n ↔
    unsigned cs ≠ [] ∧ (∀ c ∈ unsigned cs, '0' ≤ c ∧ c ≤ '9') ∧ decimal (unsigned cs) = n := by
  rw [Written, String.toList_ofList]
  unfold unsigned
  split
  case h_1 cs =>
    constructor
    · rintro ⟨digits, rfl | h, hne, hdigits, hn⟩
      · -- a plus sign is no digit
        exact absurd (hdigits '+' List.mem_cons_self) not_isDigit_plus
      · obtain rfl := (List.cons.inj h).2
        exact ⟨hne, hdigits, hn⟩
    · rintro ⟨hne, hdigits, hn⟩
      exact ⟨cs, Or.inr rfl, hne, hdigits, hn⟩
  case h_2 hsign =>
    constructor
    · rintro ⟨digits, rfl | h, hne, hdigits, hn⟩
      · exact ⟨hne, hdigits, hn⟩
      · exact absurd h (hsign digits)
    · rintro ⟨hne, hdigits, hn⟩
      exact ⟨cs, Or.inl rfl, hne, hdigits, hn⟩

/-! ### Reading -/

/-- **A piece is read if and only if it is a written index**, and then for its value. -/
theorem readSegment?_eq_some_iff :
    readSegment? cs = some i ↔ Written (String.ofList cs) i.toNat := by
  rw [written_ofList_iff, readSegment?, ofDigitChars_eq_decimal]
  have hform : (!(unsigned cs).isEmpty && (unsigned cs).all Char.isDigit) = true ↔
      unsigned cs ≠ [] ∧ ∀ c ∈ unsigned cs, '0' ≤ c ∧ c ≤ '9' := by
    simp [isDigit_iff]
  simp only [Option.ite_none_right_eq_some, Option.some.injEq, Bool.and_eq_true, decide_eq_true_eq]
  rw [← Bool.and_eq_true, hform]
  constructor
  · rintro ⟨⟨⟨hne, hdigits⟩, hlt⟩, rfl⟩
    exact ⟨hne, hdigits, by rw [Nat.toUInt32_eq, UInt32.toNat_ofNat_of_lt' hlt]⟩
  · rintro ⟨hne, hdigits, hn⟩
    exact ⟨⟨⟨hne, hdigits⟩, hn ▸ i.toNat_lt_size⟩, by rw [hn, Nat.toUInt32_eq, UInt32.ofNat_toNat]⟩

theorem isIndex_iff : IsIndex x ↔ ∃ i : UInt32, Written x i.toNat := by
  constructor
  · rintro ⟨n, hlt, hx⟩
    exact ⟨n.toUInt32, by rwa [Nat.toUInt32_eq, UInt32.toNat_ofNat_of_lt' hlt]⟩
  · rintro ⟨i, hx⟩
    exact ⟨i.toNat, i.toNat_lt, hx⟩

theorem isSome_readSegment?_iff : (readSegment? x.toList).isSome ↔ IsIndex x := by
  simp only [Option.isSome_iff_exists, isIndex_iff, readSegment?_eq_some_iff, String.ofList_toList]

instance (x : String) : Decidable (IsIndex x) := decidable_of_iff _ isSome_readSegment?_iff

example : IsIndex "+007" ∧ ¬ IsIndex "++7" ∧ ¬ IsIndex "4294967296" ∧ ¬ IsIndex "٧" := by decide

theorem readSegment?_eq_none_iff : readSegment? cs = none ↔ ¬ IsIndex (String.ofList cs) := by
  rw [← isSome_readSegment?_iff, String.toList_ofList, Option.not_isSome_iff_eq_none]

/-- All pieces are read, one after the other, -/
theorem readSegments_eq_ok_iff : readSegments ss = .ok is ↔
    WrittenAll (ss.map String.ofList) is := by
  induction ss generalizing is with
  | nil =>
      rw [readSegments, Except.ok.injEq, List.map_nil, writtenAll_nil_iff]
      exact eq_comm
  | cons cs ss ih =>
      simp only [List.map_cons, writtenAll_cons_iff, ← readSegment?_eq_some_iff, ← ih]
      rw [readSegments]
      cases hcs : readSegment? cs with
      | none => simp
      | some i => simp [map_eq_ok, eq_comm (a := is)]

/-- or the first one that is no index is to blame. -/
theorem readSegments_eq_error_iff : readSegments ss = .error e ↔ ∃ before x after,
    ss.map String.ofList = before ++ x :: after ∧ (∀ y ∈ before, IsIndex y) ∧ ¬ IsIndex x ∧
    e = .invalidSegment x := by
  induction ss with
  | nil => simp [readSegments]
  | cons cs ss ih =>
      rw [readSegments]
      cases hcs : readSegment? cs with
      | none =>
          have hbad := readSegment?_eq_none_iff.1 hcs
          constructor
          · intro h
            exact ⟨[], _, _, rfl, by simp, hbad, (Except.error.inj h).symm⟩
          · rintro ⟨before, x, after, hsplit, hbefore, -, rfl⟩
            cases before with
            | nil =>
                obtain rfl := (List.cons.inj hsplit).1
                rfl
            | cons y before =>
                obtain rfl := (List.cons.inj hsplit).1
                exact absurd (hbefore _ List.mem_cons_self) hbad
      | some i =>
          have hgood : IsIndex (String.ofList cs) :=
            isIndex_iff.2 ⟨i, readSegment?_eq_some_iff.1 hcs⟩
          rw [map_eq_error, ih]
          constructor
          · rintro ⟨before, x, after, hsplit, hbefore, hx, rfl⟩
            exact ⟨String.ofList cs :: before, x, after, by rw [List.map_cons, hsplit]; rfl,
              List.forall_mem_cons.2 ⟨hgood, hbefore⟩, hx, rfl⟩
          · rintro ⟨before, x, after, hsplit, hbefore, hx, rfl⟩
            cases before with
            | nil =>
                obtain rfl := (List.cons.inj hsplit).1
                exact absurd hgood hx
            | cons y before =>
                exact ⟨before, x, after, (List.cons.inj hsplit).2,
                  (List.forall_mem_cons.1 hbefore).2, hx, rfl⟩

theorem not_isIndex_empty : ¬ IsIndex "" := by decide

/-- The empty text is one piece, which is empty. -/
theorem pieces_empty (h : Pieces "" pieces) : pieces = [""] := h.unique (pieces_splitDots "")

/-- **The paths that a text stands for.** -/
theorem parse_eq_ok_iff (hs : Pieces s pieces) (p : NodePath) : parse s = .ok p ↔
    s = "" ∧ p = root ∨ WrittenAll pieces p.segments := by
  obtain ⟨segments⟩ := p
  rw [parse]
  split
  case isTrue h =>
    obtain rfl := String.isEmpty_iff.1 h
    obtain rfl := pieces_empty hs
    have hempty : ¬ WrittenAll [""] segments := by
      rintro (_ | ⟨hx, -⟩)
      exact not_isIndex_empty (isIndex_iff.2 ⟨_, hx⟩)
    simp [hempty, eq_comm]
  case isFalse h =>
    obtain rfl := hs.unique (pieces_splitDots s)
    rw [map_eq_ok, or_iff_right fun hs => h (String.isEmpty_iff.2 hs.1)]
    simp only [mk.injEq, exists_eq_right, readSegments_eq_ok_iff]

/-- **The error for a text that is no path.** -/
theorem parse_eq_error_iff (hs : Pieces s pieces) (e : PathError) : parse s = .error e ↔
    s ≠ "" ∧ ∃ before x after, pieces = before ++ x :: after ∧ (∀ y ∈ before, IsIndex y) ∧
      ¬ IsIndex x ∧ e = .invalidSegment x := by
  rw [parse]
  split
  case isTrue h => simp [String.isEmpty_iff.1 h]
  case isFalse h =>
    obtain rfl := hs.unique (pieces_splitDots s)
    rw [map_eq_error, readSegments_eq_error_iff,
      and_iff_right fun hs => h (String.isEmpty_iff.2 hs)]

theorem WrittenAll.isIndex (h : WrittenAll pieces is) : ∀ x ∈ pieces, IsIndex x := by
  induction h with
  | nil => simp
  | cons hx _ ih => exact List.forall_mem_cons.2 ⟨isIndex_iff.2 ⟨_, hx⟩, ih⟩

/-- **A text stands for a path if and only if it is empty or all its pieces are indices.** -/
theorem exists_parse_iff (hs : Pieces s pieces) :
    (∃ p, parse s = .ok p) ↔ s = "" ∨ ∀ x ∈ pieces, IsIndex x := by
  constructor
  · rintro ⟨p, hp⟩
    exact ((parse_eq_ok_iff hs p).1 hp).imp And.left WrittenAll.isIndex
  · intro h
    cases hp : parse s with
    | ok p => exact ⟨p, rfl⟩
    | error e =>
        obtain ⟨hne, before, x, after, rfl, -, hx, -⟩ := (parse_eq_error_iff hs e).1 hp
        exact absurd (h.resolve_left hne x (by simp)) hx

/-- **The texts that are paths are those of the grammar**: the empty text, which is the empty path,
and the texts whose pieces are written indices, which are the segments.  Any other text is refused
with the first of its pieces that is none. -/
theorem parse_grammar (s : String) : ∃ pieces, Pieces s pieces ∧
    (∀ others, Pieces s others → others = pieces) ∧
    ((∃ p, parse s = .ok p) ↔ s = "" ∨ ∀ x ∈ pieces, IsIndex x) ∧
    (∀ p, parse s = .ok p ↔ s = "" ∧ p = root ∨ WrittenAll pieces p.segments) ∧
    ∀ e, parse s = .error e ↔ s ≠ "" ∧ ∃ before x after, pieces = before ++ x :: after ∧
      (∀ y ∈ before, IsIndex y) ∧ ¬ IsIndex x ∧ e = .invalidSegment x := by
  have hs := pieces_splitDots s
  exact ⟨_, hs, fun _ h => h.unique hs, exists_parse_iff hs, parse_eq_ok_iff hs,
    parse_eq_error_iff hs⟩

/-- A doubled dot is to blame, which comes before a number that is too big. -/
theorem parse_grammar_doubled : ∃ pieces, Pieces "+007.4294967295..4294967296" pieces ∧
    pieces = ["+007", "4294967295", "", "4294967296"] ∧
    parse "+007.4294967295..4294967296" = .error (.invalidSegment "") := by
  obtain ⟨pieces, hs, hunique, -, -, herror⟩ := parse_grammar "+007.4294967295..4294967296"
  obtain rfl := hunique _ (pieces_splitDots _)
  exact ⟨_, hs, rfl, (herror _).2 ⟨by decide, ["+007", "4294967295"], "", ["4294967296"], rfl,
    by decide, not_isIndex_empty, rfl⟩⟩

end TreeScript.NodePath
