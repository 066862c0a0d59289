/-
**Longest common subsequences.**

A common subsequence of two lists, under a relation between their elements, is a list of related
pairs that go forward in both lists.  The longest one is found by a table with a cell for every
pair of suffixes, filled row by row from the end: two related heads are always paired, and where
the heads are not related the first list gives way unless that would cost a pair.

Main definitions:

* `TreeScript.CommonSubsequence.Cell` — a common subsequence and its length;
* `TreeScript.CommonSubsequence.row` — the cells of one suffix of the first list;
* `TreeScript.longestCommon` — a longest common subsequence.
-/

set_option relaxedAutoImplicit false
set_option autoImplicit false

namespace TreeScript

namespace CommonSubsequence

variable {α β : Type}

/-- A common subsequence, with its length. -/
structure Cell (α β : Type) where
  /-- The number of pairs. -/
  length : Nat
  /-- The pairs. -/
  pairs : List (α × β)

/-- The subsequence without pairs. -/
def Cell.nil : Cell α β := ⟨0, []⟩

/-- A subsequence with one more pair in front. -/
def Cell.cons (p : α × β) (c : Cell α β) : Cell α β := ⟨c.length + 1, p :: c.pairs⟩

/-- The first cell of a row. -/
def first : List (Cell α β) → Cell α β
  | c :: _ => c
  | [] => .nil

/-- The row of `a` in front of a suffix of the first list: for each suffix of the second list the
best cell.  `below` is the row of the suffix that `a` stands in front of. -/
def row (r : α → β → Bool) (a : α) : List β → List (Cell α β) → List (Cell α β)
  | [], _ => [.nil]
  | b :: bs, below =>
    let right := row r a bs below.tail
    let best :=
      if r a b then .cons (a, b) (first below.tail)
      else if (first right).length ≤ (first below).length then first below
      else first right
    best :: right

/-- The row of the first list itself. -/
def rows (r : α → β → Bool) (bs : List β) : List α → List (Cell α β)
  | [] => List.replicate (bs.length + 1) .nil
  | a :: as => row r a bs (rows r bs as)

end CommonSubsequence

/-- **A longest common subsequence** of two lists under a relation. -/
def longestCommon {α β : Type} (r : α → β → Bool) (as : List α) (bs : List β) : List (α × β) :=
  (CommonSubsequence.first (CommonSubsequence.rows r bs as)).pairs

example : longestCommon (fun a b => a == b) [1, 2, 3, 4, 5] [2, 4, 1, 5] =
    [(2, 2), (4, 4), (5, 5)] := by decide

end TreeScript
