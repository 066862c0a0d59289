/-
**Paths: child indices from a node down to one below it.**

A path is written as its indices with dots between them, `1.0` for the first child of the second
child; the empty text is the empty path.  A segment may be written with a plus sign and with
leading zeros.

Main definitions:

* `TreeScript.NodePath`, with `isEmpty` and `text`;
* `TreeScript.NodePath.parse` — reading a path, or the first segment that is no index.

Main results:

* `TreeScript.NodePath.intercalate_splitDots` — **splitting at the dots loses nothing**.
-/

set_option relaxedAutoImplicit false
set_option autoImplicit false

namespace TreeScript

/-- A path from a node to a node below it. -/
structure NodePath where
  /-- Which child to go to, step by step. -/
  segments : List UInt32
deriving DecidableEq, Repr

/-- Why a text is no path. -/
inductive PathError where
  /-- The first segment that is no index. -/
  | invalidSegment (segment : String)
deriving DecidableEq, Repr

/-- The words for a text that is no path; the segment appears as it was written. -/
def PathError.message : PathError → String
  | invalidSegment s => s!"invalid path segment \"{s}\", expected a child index"

namespace NodePath

/-- The path from a node to itself. -/
def root : NodePath := ⟨[]⟩

/-- Whether the path leads from a node to itself. -/
def isEmpty (p : NodePath) : Bool := p.segments.isEmpty

/-! ### Writing -/

/-- The written form of one index. -/
def segmentText (i : UInt32) : String := Nat.repr i.toNat

/-- The written form of a path. -/
def text (p : NodePath) : String := ".".intercalate (p.segments.map segmentText)

/-! ### Reading -/

/-- The pieces of a text between its dots; there is one more of them than there are dots. -/
def splitDots : List Char → List (List Char)
  | [] => [[]]
  | c :: cs =>
    if c = '.' then [] :: splitDots cs
    else
      match splitDots cs with
      | s :: ss => (c :: s) :: ss
      | [] => [[c]]

/-- What is left of a segment when it has lost a leading plus sign. -/
def unsigned : List Char → List Char
  | '+' :: cs => cs
  | cs => cs

/-- The index that a segment stands for: a plus sign or none, and then at least one decimal digit
of the ASCII range, with a value below 2³². -/
def readSegment? (cs : List Char) : Option UInt32 :=
  let digits := unsigned cs
  let value := Nat.ofDigitChars 10 digits 0
  if !digits.isEmpty && digits.all Char.isDigit && value < UInt32.size then some value.toUInt32
  else none

/-- The indices that the segments stand for, or the first segment that stands for none. -/
def readSegments : List (List Char) → Except PathError (List UInt32)
  | [] => .ok []
  | s :: ss =>
    match readSegment? s with
    | none => .error (.invalidSegment (String.ofList s))
    | some i => (readSegments ss).map (i :: ·)

/-- The path that a text stands for. -/
def parse (s : String) : Except PathError NodePath :=
  if s.isEmpty then .ok root else (readSegments (splitDots s.toList)).map (⟨·⟩)

/-! ### The pieces between dots -/

theorem splitDots_ne_nil (cs : List Char) : splitDots cs ≠ [] := by
  cases cs with
  | nil => simp [splitDots]
  | cons c cs =>
    unfold splitDots
    split
    · simp
    · split <;> simp

/-- **Splitting at the dots loses nothing.** -/
theorem intercalate_splitDots (cs : List Char) :
    ['.'].intercalate (splitDots cs) = cs := by
  induction cs with
  | nil => rfl
  | cons c cs ih =>
    unfold splitDots
    split
    case isTrue h =>
      subst h
      cases hs : splitDots cs with
      | nil => exact absurd hs (splitDots_ne_nil cs)
      | cons s ss => rw [hs] at ih; simp [List.intercalate, List.intersperse, ← ih]
    case isFalse =>
      cases hs : splitDots cs with
      | nil => exact absurd hs (splitDots_ne_nil cs)
      | cons s ss =>
        rw [hs] at ih
        cases ss <;> simp_all [List.intercalate, List.intersperse]

/-- No piece holds a dot. -/
theorem dot_notMem_of_mem_splitDots {cs s : List Char} (h : s ∈ splitDots cs) : '.' ∉ s := by
  induction cs generalizing s with
  | nil => simp_all [splitDots]
  | cons c cs ih =>
    unfold splitDots at h
    split at h
    case isTrue =>
      rcases List.mem_cons.1 h with rfl | h
      · simp
      · exact ih h
    case isFalse hc =>
      split at h
      case h_1 t ts ht =>
        rcases List.mem_cons.1 h with rfl | h
        · have := ih (ht ▸ List.mem_cons_self)
          simp only [List.mem_cons, not_or]
          exact ⟨fun e => hc e.symm, this⟩
        · exact ih (ht ▸ List.mem_cons_of_mem _ h)
      case h_2 hn => exact absurd hn (splitDots_ne_nil cs)

end NodePath

end TreeScript
