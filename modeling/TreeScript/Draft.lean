/-
**Drafting an edit script.**

A draft is a working copy together with the changes that have been made to it so far, each with
the action that tells of it.  Destination nodes are visited level by level.  A visit sees to it
that the node has a counterpart at the right place under the counterpart of its parent: the node
is brought in, alone or with all that is below it, or its counterpart is relabeled and moved.
Then the children that are already there are arranged, moving as few of them as possible.  When
all nodes have been visited, the nodes that still have no counterpart are taken out.

Main definitions:

* `TreeScript.Edit`, `TreeScript.Draft`, `TreeScript.Draft.perform` — one change;
* `TreeScript.Draft.rename`, `TreeScript.Draft.bring`, `TreeScript.Draft.arrange`,
  `TreeScript.Draft.visit` — seeing to one destination node;
* `TreeScript.Draft.prune` — taking out what is left over.
-/

import TreeScript.CommonSubsequence
import TreeScript.WorkingCopy

set_option relaxedAutoImplicit false
set_option autoImplicit false

namespace TreeScript

/-- A change with the action that tells of it, if the script is to tell of it. -/
structure Edit where
  /-- The change. -/
  change : Change
  /-- The action. -/
  report? : Option Action

/-- A script in the making. -/
structure Draft where
  /-- The working copy, as it is after the changes. -/
  copy : WorkingCopy
  /-- The destination nodes whose counterparts stand in the right order among their siblings. -/
  inOrder : NodeSet
  /-- The destination nodes that were brought in below another one. -/
  grafted : NodeSet
  /-- The changes, in order. -/
  edits : List Edit

namespace Draft

/-- The draft without changes. -/
def start (m : Mapping) : Except Fault Draft :=
  return { copy := ← WorkingCopy.start m, inOrder := .empty, grafted := .empty, edits := [] }

/-- The actions that tell of the changes. -/
def script (d : Draft) : List Action := d.edits.filterMap Edit.report?

/-- Destination node `x` is in order from now on. -/
def mark (d : Draft) (x : NodeId) : Draft := { d with inOrder := d.inOrder.add x }

/-- **One change.**  A quiet script does not tell of changes that keep all nodes. -/
def perform (quiet : Bool) (d : Draft) (change : Change) : Except Fault Draft := do
  let report? := if quiet && change.keepsNodes then none else d.copy.report? change
  return { d with
    copy := ← d.copy.apply change
    edits := d.edits ++ [⟨change, report?⟩] }

section Visit

variable (m : Mapping) (quiet : Bool)

/-- Gives node `w` of the copy the label of its counterpart `x`. -/
def rename (d : Draft) (w x : NodeId) : Except Fault Draft := do
  let label ← m.dst.label x
  if d.copy.label? w = some label then return d else d.perform quiet (.relabel w label)

/-- Puts node `w` of the copy, the counterpart of `x`, at its place under `z`. -/
def bring (d : Draft) (w z x : NodeId) : Except Fault Draft := do
  let position ← (d.copy.without w).placeOf m.dst d.inOrder x
  d.perform quiet (.move w z position)

/-- The children of `w` that have their counterparts among the children of `x`, in the order of
the copy. -/
def ownChildren (d : Draft) (w x : NodeId) : List NodeId :=
  (d.copy.arena.children w).filter fun a =>
    match d.copy.toDst.get? a with
    | some e => m.dst.arena.parent? e == some x
    | none => false

/-- The children of `x` that have their counterparts among the children of `w`, in the order of
the destination. -/
def ownCounterparts (d : Draft) (w x : NodeId) : List NodeId :=
  (m.dst.arena.children x).filter fun b =>
    match d.copy.ofDst.get? b with
    | some a => d.copy.arena.parent? a == some w
    | none => false

/-- The children of `x` whose counterparts can stay where they are. -/
def stayers (d : Draft) (w x : NodeId) : List NodeId :=
  (longestCommon (fun a b => d.copy.toDst.get? a == some b)
    (d.ownChildren m w x) (d.ownCounterparts m w x)).map Prod.snd

/-- Puts the counterpart of `b` at its place among the children of `w`, unless it stays. -/
def arrangeOne (stay : List NodeId) (w : NodeId) (d : Draft) (b : NodeId) : Except Fault Draft := do
  if b ∈ stay then return d
  else
    let d ← d.bring m quiet (← d.copy.counterpart b) w b
    return d.mark b

/-- Puts the children of `w` that have their counterparts among the children of `x` in the order
of the destination.  Before this no child of `x` counts as being in order, and after it these
do. -/
def arrange (d : Draft) (w x : NodeId) : Except Fault Draft :=
  let stay := d.stayers m w x
  let unordered := d.inOrder.eraseAll (m.dst.arena.children x)
  (d.ownCounterparts m w x).foldlM (arrangeOne m quiet stay w)
    { d with inOrder := unordered.addAll stay }

/-- Brings in destination node `x` without its children, under `z`. -/
def insertAlone (d : Draft) (z x : NodeId) : Except Fault Draft := do
  let label ← m.dst.label x
  let position ← d.copy.placeOf m.dst d.inOrder x
  let w := d.copy.arena.nextId
  let d ← d.perform quiet (.insert x label z position)
  (d.mark x).arrange m quiet w x

/-- Brings in destination node `x` with all that is below it, under `z`. -/
def insertWhole (d : Draft) (z x : NodeId) : Except Fault Draft := do
  let position ← d.copy.placeOf m.dst d.inOrder x
  let subtree ← m.dst.view x
  let d ← d.perform quiet (.graft (subtree.map fun e => (e.1, e.2.label)) z position)
  return { d.mark x with grafted := d.grafted.addAll (subtree.preorder.drop 1 |>.map Prod.fst) }

/-- Puts the copy of `s`, the counterpart of `x`, in its place under `z`. -/
def settle (d : Draft) (z s x : NodeId) : Except Fault Draft := do
  let w ← d.copy.copyOf s
  let d ← d.rename m quiet w x
  let d ← if d.copy.arena.parent? w = some z then pure d else d.bring m quiet w z x
  (d.mark x).arrange m quiet w x

/-- **Sees to one destination node.**  The root, and the nodes that were brought in below another
one, need no visit. -/
def visit (d : Draft) (x : NodeId) : Except Fault Draft := do
  if d.grafted.contains x then return d
  else
    match m.dst.arena.parent? x with
    | none => return d
    | some y =>
      let z ← d.copy.counterpart y
      match m.source? x with
      | some s => d.settle m quiet z s x
      | none =>
        if (m.dst.arena.children x).isEmpty || !(← m.isDstClean x) then d.insertAlone m quiet z x
        else d.insertWhole m quiet z x

end Visit

section Prune

variable (m : Mapping) (quiet : Bool)

/-- The source nodes without counterparts below which there are none with counterparts either. -/
def cleanSources : NodeSet :=
  m.src.postorder.foldl
    (fun clean s =>
      if !m.hasSrc s && (m.src.arena.children s).all clean.contains then clean.add s else clean)
    .empty

/-- Whether source node `s` goes away in one piece with what is below it. -/
def collapses (clean : NodeSet) (s : NodeId) : Bool :=
  clean.contains s && !(m.src.arena.children s).isEmpty

/-- Takes out node `w` of the copy if it has no counterpart, and does not go away with its
parent. -/
def pruneOne (clean : NodeSet) (d : Draft) (w : NodeId) : Except Fault Draft :=
  if d.copy.toDst.contains w then return d
  else
    match d.copy.origin? w with
    | some (.src s) =>
      if (m.src.arena.parent? s).any (collapses m clean) then return d
      else if collapses m clean s then d.perform quiet (.removeTree w)
      else d.perform quiet (.remove w)
    | _ => return d

/-- **Takes out the nodes of the copy that have no counterpart**, from the bottom up. -/
def prune (d : Draft) : Except Fault Draft :=
  (d.copy.arena.postorder d.copy.root).foldlM (pruneOne m quiet (cleanSources m)) d

end Prune

end Draft

end TreeScript
