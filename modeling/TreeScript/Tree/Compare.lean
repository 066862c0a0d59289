/-
**Comparing and printing subtrees.**

Two subtrees, of one tree or of two, are isomorphic if they have the same shape and the same types
and labels at corresponding nodes; types are compared by identity.  The text of a subtree shows
its shape, the names of its types and its labels.

Main definitions:

* `TreeScript.Tree.isIsomorphic`, `TreeScript.Tree.isomorphicTo` — comparing in step;
* `TreeScript.Tree.sameData` — comparing two nodes;
* `TreeScript.Tree.sexpr` — the nested text `(type:label child child)`.
-/

import TreeScript.Tree.Basic

set_option relaxedAutoImplicit false
set_option autoImplicit false

namespace TreeScript.Tree

/-- Whether two nodes carry the same type and the same label. -/
def sameData (t : Tree) (n : NodeId) (u : Tree) (m : NodeId) : Except Fault Bool :=
  return (← t.data n) == (← u.data m)

/-- Whether the subtree at `n` and the subtree of `u` at `m` have the same shape, types and
labels. -/
def isIsomorphic (t : Tree) (n : NodeId) (u : Tree) (m : NodeId) : Except Fault Bool :=
  return (← t.view n).agrees (fun a b => a.2 == b.2) (← u.view m)

/-- Whether two trees are isomorphic from their roots. -/
def isomorphicTo (t u : Tree) : Except Fault Bool := t.isIsomorphic t.root u u.root

/-- The text of the branches that a walk meets after a subtree, for one ancestor after the
other: each branch after a space, and the ancestor closed. -/
def laterText (t : Tree) : List (List NodeId) → Except Fault String
  | [] => return ""
  | ns :: rest => do
    let branches ← ns.mapM t.view
    let others ← t.laterText rest
    return RoseTree.renderForest (fun e => e.2.text) branches ++ ")" ++ others

/-- The text of the subtree at `n`. -/
def sexpr (t : Tree) (n : NodeId) : Except Fault String := do
  let subtree ← t.view n
  let others ← t.laterText (t.arena.later n)
  return subtree.render (fun e => e.2.text) ++ others

end TreeScript.Tree
