/-
**Faults: what a caller must not do.**

An operation that is handed a node which is not there, an index that is too big or a pair of nodes
that do not fit has no answer.  It stops with a fault, which says what was asked for.  Faults are
the caller's doing; a script that does not fit its tree is an ordinary error and lives with the
replay of scripts.

Main definitions:

* `TreeScript.Fault` — the causes;
* `TreeScript.Fault.message?` — the words for those causes that have a text of their own.
-/

import TreeScript.NodeId

set_option relaxedAutoImplicit false
set_option autoImplicit false

namespace TreeScript

/-- Why an operation could not be carried out. -/
inductive Fault where
  /-- No slot has this number. -/
  | noSlot (node : NodeId)
  /-- The slot holds no node. -/
  | vacantSlot (node : NodeId)
  /-- A last child was to be put under a node that has left its slot. -/
  | outdated (node : NodeId)
  /-- A node was to be put below itself. -/
  | ownDescendant (node : NodeId)
  /-- A child was to be inserted beyond the end of the list of children. -/
  | childIndex (index count : Nat)
  /-- The source node already has a counterpart. -/
  | sourceMapped (node : NodeId)
  /-- The destination node already has a counterpart. -/
  | destinationMapped (node : NodeId)
  /-- The types of two nodes that were to be mapped differ; their names are given. -/
  | typeMismatch (source destination : String)
  /-- Two subtrees that were to be mapped node by node differ. -/
  | notIsomorphic
  /-- No counterpart is known for the node. -/
  | noCounterpart (node : NodeId)
deriving DecidableEq, Repr

namespace Fault

/-- The words for a fault, for those faults that have a text of their own. -/
def message? : Fault → Option String
  | childIndex i n => some s!"child index {i} out of bounds for {n} children"
  | sourceMapped s => some s!"source node {s.number} is already mapped"
  | destinationMapped d => some s!"destination node {d.number} is already mapped"
  | typeMismatch s d => some s!"cannot map a {s} node to a {d} node"
  | notIsomorphic => some "recursive mappings need isomorphic subtrees"
  | _ => none

end Fault

end TreeScript
