/-
**Replaying a script.**

A script is replayed action by action on a copy of the source tree.  The nodes it brings in are
read from the destination tree.  At every moment a table says which node a reference of the script
stands for; a reference to a node that is gone, or has not come yet, stands for none.  Replay stops
at the first action that does not fit the tree as it is.

Main definitions:

* `TreeScript.ReplayError`, with `message` — why a script does not fit;
* `TreeScript.Replay` — the tree in the making, and the tables of references;
* `TreeScript.Replay.step` — **one action**;
* `TreeScript.replay` — a whole script.

Main results:

* `TreeScript.Replay.live?_track`, `TreeScript.Replay.live?_drop` — **the table of references is
  changed one reference at a time**.
-/

import TreeScript.Action
import TreeScript.NodeMap
import TreeScript.Tree.Basic

set_option relaxedAutoImplicit false
set_option autoImplicit false

namespace TreeScript

/-- Why a script cannot be replayed. -/
inductive ReplayError where
  /-- The reference stands for no node at this point. -/
  | unknownNode (node : NodeRef)
  /-- The position is beyond the end of the list of children. -/
  | positionOutOfBounds (position count : Nat)
  /-- A node with children was to be taken out alone. -/
  | nodeHasChildren (node : NodeRef)
  /-- A root was to be brought in while there is one. -/
  | rootAlreadyPresent
  /-- The script is over and there is no root. -/
  | noRoot
  /-- A node was to be moved under itself or below. -/
  | moveIntoDescendant (node : NodeRef)
  /-- The script names a destination node that is not there. -/
  | fault (cause : Fault)
deriving DecidableEq, Repr

namespace ReplayError

/-- The words for an error; a fault may have none. -/
def message? : ReplayError → Option String
  | unknownNode r => some s!"node {r.text} does not exist at this point of the script"
  | positionOutOfBounds p n => some s!"position {p} out of bounds for {n} children"
  | nodeHasChildren r => some s!"cannot delete node {r.text}: it still has children"
  | rootAlreadyPresent => some "cannot insert a root: the tree already has one"
  | noRoot => some "the script leaves the tree without a root"
  | moveIntoDescendant r => some s!"cannot move node {r.text} under its own subtree"
  | fault f => f.message?

end ReplayError

/-- A tree in the making. -/
structure Replay where
  /-- The tree that new nodes are read from. -/
  dst : Tree
  /-- The nodes. -/
  arena : Arena NodeData
  /-- The root, while there is one. -/
  root : Option NodeId
  /-- The nodes that references to source nodes stand for. -/
  ofSrc : NodeMap NodeId
  /-- The nodes that references to destination nodes stand for. -/
  ofDst : NodeMap NodeId
  /-- The references that stand for the nodes. -/
  refs : NodeMap NodeRef

namespace Replay

/-! ### References -/

/-- The node that a reference stands for. -/
def live? (r : Replay) : NodeRef → Option NodeId
  | .src s => r.ofSrc.get? s
  | .dst d => r.ofDst.get? d

/-- From now on `ref` stands for `n`. -/
def track (r : Replay) (ref : NodeRef) (n : NodeId) : Replay :=
  match ref with
  | .src s => { r with ofSrc := r.ofSrc.insert s n, refs := r.refs.insert n ref }
  | .dst d => { r with ofDst := r.ofDst.insert d n, refs := r.refs.insert n ref }

/-- From now on `ref` stands for no node. -/
def drop (r : Replay) : NodeRef → Replay
  | .src s => { r with ofSrc := r.ofSrc.erase s }
  | .dst d => { r with ofDst := r.ofDst.erase d }

theorem live?_track (r : Replay) (ref other : NodeRef) (n : NodeId) :
    (r.track ref n).live? other = if ref = other then some n else r.live? other := by
  cases ref <;> cases other <;> simp [track, live?, NodeMap.get?_insert]

theorem live?_drop (r : Replay) (ref other : NodeRef) :
    (r.drop ref).live? other = if ref = other then none else r.live? other := by
  cases ref <;> cases other <;> simp [drop, live?, NodeMap.get?_erase]

/-- The reference that stands for `n`, if there is one, stands for no node from now on. -/
def forget (r : Replay) (n : NodeId) : Replay :=
  match r.refs.get? n with
  | some ref => { r with refs := r.refs.erase n }.drop ref
  | none => r

/-- The node that a reference stands for, which has to exist. -/
def resolve (r : Replay) (ref : NodeRef) : Except ReplayError NodeId :=
  match r.live? ref with
  | some n => .ok n
  | none => .error (.unknownNode ref)

/-! ### Changes -/

/-- A position has to be at most the number of children of `p`, among which `moving` does not
count. -/
def checkPosition (r : Replay) (p : NodeId) (position : Nat) (moving : Option NodeId) :
    Except ReplayError Unit :=
  let count := ((r.arena.children p).filter fun c => some c != moving).length
  if position ≤ count then .ok () else .error (.positionOutOfBounds position count)

/-- What the destination tree answers; a fault there ends the replay. -/
def fromDst {β : Type} : Except Fault β → Except ReplayError β
  | .ok x => .ok x
  | .error f => .error (.fault f)

/-- Puts `n` under `p` at the given position. -/
def attach (r : Replay) (p : NodeId) (position : Nat) (n : NodeId) : Except ReplayError Replay :=
  return { r with arena := ← fromDst (r.arena.attach p position n) }

/-- Takes out `n` with all that is below it. -/
def remove (r : Replay) (n : NodeId) : Replay :=
  let r := (r.arena.preorder n).foldl forget r
  { r with
    root := if r.root = some n then none else r.root
    arena := r.arena.removeSubtree n }

/-- Makes a node for destination node `d` under `p`. -/
def insert (r : Replay) (d p : NodeId) (position : Nat) : Except ReplayError Replay := do
  let data ← fromDst (r.dst.data d)
  let n := r.arena.nextId
  let r ← { r with arena := r.arena.alloc data }.attach p position n
  return r.track (.dst d) n

/-- Makes nodes for destination node `d` and all that is below it, under `p`, or as the whole tree
if no `p` is given. -/
def insertTree (r : Replay) (d : NodeId) (p : Option NodeId) (position : Nat) :
    Except ReplayError Replay := do
  let subtree ← fromDst (r.dst.view d)
  let top := r.arena.nextId
  let (arena, pairs) := r.arena.plant none subtree
  let r := pairs.foldl (fun r e => r.track (.dst e.1) e.2) { r with arena }
  match p with
  | some p => r.attach p position top
  | none => return { r with root := some top }

/-! ### Actions -/

/-- **One action.**  Of several things that are wrong with it the first one in this order is
reported: a reference that stands for no node; a move into the moved subtree; a position out of
bounds. -/
def step (r : Replay) : Action → Except ReplayError Replay
  | .insert d parent position => do
    let p ← r.resolve parent
    r.checkPosition p position none
    r.insert d p position
  | .treeInsert d (some parent) position => do
    let p ← r.resolve parent
    r.checkPosition p position none
    r.insertTree d (some p) position
  | .treeInsert d none position =>
    if r.root.isSome then throw .rootAlreadyPresent else r.insertTree d none position
  | .update s label => do
    let n ← r.resolve (.src s)
    return { r with arena := r.arena.setData n fun data => { data with label } }
  | .move s parent position => do
    let n ← r.resolve (.src s)
    let p ← r.resolve parent
    if n ∈ r.arena.ancestors p then throw (.moveIntoDescendant (.src s))
    r.checkPosition p position (some n)
    { r with arena := r.arena.unlink n }.attach p position n
  | .treeDelete s => do
    let n ← r.resolve (.src s)
    return r.remove n
  | .delete s => do
    let n ← r.resolve (.src s)
    if (r.arena.children n).isEmpty then return r.remove n else throw (.nodeHasChildren (.src s))

/-- The state before the first action: the source tree, whose nodes stand for themselves. -/
def start (src dst : Tree) : Replay :=
  src.preorder.foldl (fun r n => r.track (.src n) n)
    { dst, arena := src.arena, root := some src.root, ofSrc := .empty, ofDst := .empty,
      refs := .empty }

/-- The actions of a script, one after the other. -/
def run (r : Replay) (script : List Action) : Except ReplayError Replay := script.foldlM step r

/-- The finished tree, which has to have a root. -/
def finish (r : Replay) (types : Registry) : Except ReplayError Tree :=
  match r.root with
  | some root => .ok { types, arena := r.arena, root }
  | none => .error .noRoot

end Replay

/-- **The tree that a script makes of `src`**; what it brings in is read from `dst`, and the types
are those of `src`. -/
def replay (src dst : Tree) (script : List Action) : Except ReplayError Tree := do
  (← (Replay.start src dst).run script).finish src.types

end TreeScript
