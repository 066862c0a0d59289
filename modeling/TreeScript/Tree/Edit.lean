/-
**Changing a tree.**

A new node goes under a parent, at the end or at a given index; a child goes with all that is
below it.  A copy of a subtree is a tree of its own whose nodes are numbered in pre-order.

Main definitions:

* `TreeScript.Tree.addChild`, `TreeScript.Tree.insertChild`, `TreeScript.Tree.removeChild`,
  `TreeScript.Tree.setLabel`;
* `TreeScript.Tree.deepCopy` — a subtree as a tree of its own.
-/

import TreeScript.Tree.Basic

set_option relaxedAutoImplicit false
set_option autoImplicit false

namespace TreeScript.Tree

/-- Gives `n` another label. -/
def setLabel (t : Tree) (n : NodeId) (label : String) : Except Fault Tree := do
  let _ ← t.data n
  return { t with arena := t.arena.setData n fun d => { d with label } }

/-- Makes a new node and puts it under `p` as child `i`, or as the last child if there are not
that many.  The answer is the new node and the tree that has it. -/
def place (t : Tree) (p : NodeId) (i : Nat) (d : NodeData) : Except Fault (NodeId × Tree) := do
  let n := t.arena.nextId
  let arena ← (t.arena.alloc d).attach p i n
  return (n, { t with arena })

/-- Makes a new last child of `p`. -/
def addChild (t : Tree) (p : NodeId) (kind : NodeType) (label : String) :
    Except Fault (NodeId × Tree) :=
  t.place p (t.arena.children p).length ⟨kind, label⟩

/-- Makes a new child `i` of `p`, which must have at least `i` children. -/
def insertChild (t : Tree) (p : NodeId) (i : Nat) (kind : NodeType) (label : String) :
    Except Fault (NodeId × Tree) := do
  let count ← t.childCount p
  if i ≤ count then t.place p i ⟨kind, label⟩ else throw (.childIndex i count)

/-- Takes out child `i` of `p` with all that is below it.  The answer is the child that was taken
out, if there was one, and the tree without it. -/
def removeChild (t : Tree) (p : NodeId) (i : Nat) : Except Fault (Option NodeId × Tree) := do
  match ← t.child? p i with
  | some c => return (some c, { t with arena := t.arena.removeSubtree c })
  | none => return (none, t)

/-- **The subtree at `n` as a tree of its own**, with new nodes and the same registry. -/
def deepCopy (t : Tree) (n : NodeId) : Except Fault Tree := do
  let subtree ← t.view n
  let blank : Arena NodeData := Arena.empty
  return { types := t.types, arena := (blank.plant none subtree).1, root := blank.nextId }

end TreeScript.Tree
