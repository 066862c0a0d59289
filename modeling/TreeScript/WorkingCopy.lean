/-
**The working copy and its changes.**

To find out where a node has to go, an edit script is worked out on a copy of the source tree that
changes along with the script.  Each node of the copy knows its label and the node it stands in
for: the source node that it is the copy of, or the destination node that it was made for.  Two
tables, inverse to each other, say which nodes of the copy already have a counterpart in the
destination tree.

A change of the working copy and the action of a script that tells of it are two views of one
step: `TreeScript.WorkingCopy.apply` carries it out and `TreeScript.WorkingCopy.report?` names it
in terms of the source and the destination.

Main definitions:

* `TreeScript.WorkNode`, `TreeScript.WorkingCopy`, `TreeScript.WorkingCopy.start`;
* `TreeScript.Change` — the changes;
* `TreeScript.WorkingCopy.apply` — **the working copy after a change**;
* `TreeScript.WorkingCopy.report?` — **the action that tells of a change**;
* `TreeScript.WorkingCopy.placeOf` — where a node goes among its siblings.
-/

import TreeScript.Action
import TreeScript.Mapping

set_option relaxedAutoImplicit false
set_option autoImplicit false

namespace TreeScript

/-- A node of the working copy. -/
structure WorkNode where
  /-- The label, as it is by now. -/
  label : String
  /-- The source node it is the copy of, or the destination node it was made for. -/
  origin : NodeRef

/-- The source tree in the course of becoming the destination tree. -/
structure WorkingCopy where
  /-- The nodes. -/
  arena : Arena WorkNode
  /-- The root. -/
  root : NodeId
  /-- The copies of source nodes. -/
  ofSrc : NodeMap NodeId
  /-- The destination counterparts of nodes of the copy. -/
  toDst : NodeMap NodeId
  /-- The nodes of the copy that are the counterparts of destination nodes. -/
  ofDst : NodeMap NodeId

/-- A change of the working copy. -/
inductive Change where
  /-- Gives a node another label. -/
  | relabel (w : NodeId) (label : String)
  /-- Makes a node with the given label for destination node `d`, at a place under `parent`. -/
  | insert (d : NodeId) (label : String) (parent : NodeId) (position : Nat)
  /-- Makes nodes for a whole subtree of the destination, at a place under `parent`. -/
  | graft (subtree : RoseTree (NodeId × String)) (parent : NodeId) (position : Nat)
  /-- Puts a node, with all that is below it, at a place under `parent`; the position is counted
  without the node. -/
  | move (w parent : NodeId) (position : Nat)
  /-- Takes out a node with all that is below it. -/
  | removeTree (w : NodeId)
  /-- Takes out a node alone. -/
  | remove (w : NodeId)

/-- Whether a change brings nothing in and takes nothing out. -/
def Change.keepsNodes : Change → Bool
  | .relabel .. => true
  | .move .. => true
  | _ => false

namespace WorkingCopy

/-! ### Reading -/

/-- What a node of the working copy stands in for. -/
def origin? (c : WorkingCopy) (w : NodeId) : Option NodeRef := (c.arena.data? w).map WorkNode.origin

/-- The label of a node of the working copy. -/
def label? (c : WorkingCopy) (w : NodeId) : Option String := (c.arena.data? w).map WorkNode.label

/-- The node of the working copy that is the counterpart of destination node `d`. -/
def counterpart (c : WorkingCopy) (d : NodeId) : Except Fault NodeId :=
  match c.ofDst.get? d with
  | some w => .ok w
  | none => .error (.noCounterpart d)

/-- The copy of source node `s`. -/
def copyOf (c : WorkingCopy) (s : NodeId) : Except Fault NodeId :=
  match c.ofSrc.get? s with
  | some w => .ok w
  | none => .error (.noCounterpart s)

/-! ### The beginning -/

/-- From now on node `w` of the copy and destination node `d` are counterparts. -/
def pair (c : WorkingCopy) (w d : NodeId) : WorkingCopy :=
  { c with toDst := c.toDst.insert w d, ofDst := c.ofDst.insert d w }

/-- A copy of the source tree, its nodes paired as the mapping pairs the nodes they are copies
of. -/
def start (m : Mapping) : Except Fault WorkingCopy := do
  let subtree ← m.src.view m.src.root
  let blank : Arena WorkNode := Arena.empty
  let (arena, copies) :=
    blank.plant none (subtree.map fun e => (e.1, ⟨e.2.label, .src e.1⟩))
  let unpaired : WorkingCopy :=
    { arena, root := blank.nextId, ofSrc := .ofList copies, toDst := .empty, ofDst := .empty }
  return copies.foldl
    (fun c e =>
      match m.counterpart? e.1 with
      | some d => c.pair e.2 d
      | none => c)
    unpaired

/-! ### Changes -/

/-- **The working copy after a change.** -/
def apply (c : WorkingCopy) : Change → Except Fault WorkingCopy
  | .relabel w label =>
    return { c with arena := c.arena.setData w fun node => { node with label } }
  | .insert d label parent position => do
    let w := c.arena.nextId
    let arena ← (c.arena.alloc ⟨label, .dst d⟩).attach parent position w
    return { c with arena }.pair w d
  | .graft subtree parent position => do
    let w := c.arena.nextId
    let (arena, copies) :=
      c.arena.plant none (subtree.map fun e => (e.1, ⟨e.2, .dst e.1⟩))
    let arena ← arena.attach parent position w
    return copies.foldl (fun c e => c.pair e.2 e.1) { c with arena }
  | .move w parent position =>
    return { c with arena := ← (c.arena.unlink w).attach parent position w }
  | .removeTree w =>
    return { c with arena := c.arena.removeSubtree w }
  | .remove w =>
    return { c with arena := c.arena.removeAlone w }

/-- **The action that tells of a change**, made to the working copy as it is.  Actions relabel,
move and take out source nodes only. -/
def report? (c : WorkingCopy) : Change → Option Action
  | .relabel w label =>
    match c.origin? w with
    | some (.src s) => some (.update s label)
    | _ => none
  | .insert d _ parent position =>
    (c.origin? parent).map fun p => .insert d p position
  | .graft subtree parent position =>
    (c.origin? parent).map fun p => .treeInsert subtree.value.1 (some p) position
  | .move w parent position =>
    match c.origin? w, c.origin? parent with
    | some (.src s), some p => some (.move s p position)
    | _, _ => none
  | .removeTree w =>
    match c.origin? w with
    | some (.src s) => some (.treeDelete s)
    | _ => none
  | .remove w =>
    match c.origin? w with
    | some (.src s) => some (.delete s)
    | _ => none

/-! ### Places -/

/-- Where the counterpart of destination node `x` goes among its siblings: right after the
counterpart of the last sibling before `x` that is in order already, or first. -/
def placeOf (c : WorkingCopy) (dst : Tree) (inOrder : NodeSet) (x : NodeId) : Except Fault Nat :=
  match dst.arena.parent? x with
  | none => return 0
  | some y =>
    match (((dst.arena.children y).takeWhile (· != x)).filter inOrder.contains).getLast? with
    | none => return 0
    | some v => return c.arena.position (← c.counterpart v) + 1

/-- The working copy with node `w` taken from its siblings. -/
def without (c : WorkingCopy) (w : NodeId) : WorkingCopy := { c with arena := c.arena.unlink w }

end WorkingCopy

end TreeScript
