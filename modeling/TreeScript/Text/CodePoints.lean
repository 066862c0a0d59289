/-
**Sets of characters given by ranges of code points.**

Main definitions:

* `TreeScript.Text.Ranges` — a table of ranges, both ends included;
* `TreeScript.Text.Ranges.holds` — whether a character lies in one of them;
* `TreeScript.Text.Ranges.isAscending`, `TreeScript.Text.Ranges.count` — what a table can be
  checked for.

Main results:

* `TreeScript.Text.Ranges.holds_append` — a table in two parts;
* `TreeScript.Text.Ranges.holds_eq_false_of_lt`, `TreeScript.Text.Ranges.holds_eq_false_of_le` — a
  part that begins later or ends earlier need not be looked at.
-/

set_option relaxedAutoImplicit false
set_option autoImplicit false

namespace TreeScript.Text

/-- A table of ranges of code points, both ends included. -/
abbrev Ranges : Type := List (Nat × Nat)

/-- Whether a character lies in one of the ranges. -/
def Ranges.holds (r : Ranges) (c : Char) : Bool :=
  r.any fun range => range.1 ≤ c.toNat && c.toNat ≤ range.2

/-- Whether the ranges ascend, with a gap between each and the next. -/
def Ranges.isAscending : Ranges → Bool
  | [] => true
  | [range] => range.1 ≤ range.2
  | range :: next :: rest =>
      range.1 ≤ range.2 && range.2 + 1 < next.1 && Ranges.isAscending (next :: rest)

/-- The number of code points in the ranges of an ascending table. -/
def Ranges.count (r : Ranges) : Nat := r.foldr (fun range n => range.2 + 1 - range.1 + n) 0

namespace Ranges

variable {r : Ranges} {c : Char} {n : Nat}

theorem holds_eq_true_iff :
    r.holds c = true ↔ ∃ range ∈ r, range.1 ≤ c.toNat ∧ c.toNat ≤ range.2 := by
  simp [holds]

theorem holds_append (r r' : Ranges) (c : Char) :
    Ranges.holds (r ++ r') c = (r.holds c || r'.holds c) :=
  List.any_append

/-- A character before all ranges lies in none of them. -/
theorem holds_eq_false_of_lt (h : ∀ range ∈ r, n ≤ range.1) (hc : c.toNat < n) :
    r.holds c = false := by
  refine Bool.eq_false_iff.2 fun hr => ?_
  obtain ⟨range, hrange, hle, -⟩ := holds_eq_true_iff.1 hr
  have hn := h range hrange
  omega

/-- A character behind all ranges lies in none of them. -/
theorem holds_eq_false_of_le (h : ∀ range ∈ r, range.2 < n) (hc : n ≤ c.toNat) :
    r.holds c = false := by
  refine Bool.eq_false_iff.2 fun hr => ?_
  obtain ⟨range, hrange, -, hle⟩ := holds_eq_true_iff.1 hr
  have hn := h range hrange
  omega

end Ranges

end TreeScript.Text
