/-
**Identities of nodes.**

A node lives in a numbered slot.  Slots are handed out again after their node is gone, so a slot
alone does not name a node: an identity also says how many tenants the slot had before.  Two
identities are equal only if both parts are; what is written about a node shows the slot alone,
counted from one.

Main definitions:

* `TreeScript.NodeId` — a slot together with its generation;
* `TreeScript.NodeId.number` — the number a node is written with.
-/

set_option relaxedAutoImplicit false
set_option autoImplicit false

namespace TreeScript

/-- The identity of a node: the slot it was given, and how often that slot had been vacated
before. -/
structure NodeId where
  /-- The slot, counted from zero. -/
  slot : Nat
  /-- The number of nodes that have left the slot before this one took it. -/
  generation : Nat
deriving DecidableEq, Inhabited, Repr

namespace NodeId

/-- The number a node is written with: slots are counted from one. -/
def number (n : NodeId) : Nat := n.slot + 1

theorem ext_iff {a b : NodeId} : a = b ↔ a.slot = b.slot ∧ a.generation = b.generation := by
  cases a; cases b; simp

/-- Equal numbers are equal slots. -/
@[simp] theorem number_inj {a b : NodeId} : a.number = b.number ↔ a.slot = b.slot := by
  simp [number]

end NodeId

end TreeScript
