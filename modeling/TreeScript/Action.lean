/-
**Edit actions.**

A script changes a source tree into a destination tree, action by action.  Its actions name nodes
of the source by their own identities; a node that the script itself has brought in is named by
the destination node it was made for.  Positions are child indices in the tree as it is right
before the action; for a move, after the moved node has been taken from its old place.

Main definitions:

* `TreeScript.NodeRef` — how an action names a node;
* `TreeScript.Action`, with `node`, `parent?`, `position?`, `value?`;
* `TreeScript.ActionKind`, with its two names;
* `TreeScript.Action.text` — an action in one line.
-/

import TreeScript.NodeId
import TreeScript.Text.Quoted

set_option relaxedAutoImplicit false
set_option autoImplicit false

namespace TreeScript

/-- How a script names a node. -/
inductive NodeRef where
  /-- A node of the source tree. -/
  | src (node : NodeId)
  /-- The node that the script made for a node of the destination tree. -/
  | dst (node : NodeId)
deriving DecidableEq, Repr

namespace NodeRef

/-- The identity, without its side. -/
def id : NodeRef → NodeId
  | src n => n
  | dst n => n

/-- A reference in writing: the side, `a` for the source and `b` for the destination, and the
number of the node. -/
def text : NodeRef → String
  | src n => s!"a:{n.number}"
  | dst n => s!"b:{n.number}"

end NodeRef

/-- What an action does. -/
inductive ActionKind where
  /-- Brings in one node. -/
  | insert
  /-- Brings in a whole subtree. -/
  | treeInsert
  /-- Changes a label. -/
  | update
  /-- Moves a subtree. -/
  | move
  /-- Takes out a whole subtree. -/
  | treeDelete
  /-- Takes out one node. -/
  | delete
deriving DecidableEq, Repr

namespace ActionKind

/-- The word with which the line of an action begins. -/
def word : ActionKind → String
  | insert => "Insert"
  | treeInsert => "TreeInsert"
  | update => "Update"
  | move => "Move"
  | treeDelete => "TreeDelete"
  | delete => "Delete"

/-- The short name of an action. -/
def name : ActionKind → String
  | insert => "insert-node"
  | treeInsert => "insert-tree"
  | update => "update-node"
  | move => "move-tree"
  | treeDelete => "delete-tree"
  | delete => "delete-node"

end ActionKind

/-- One step of a script. -/
inductive Action where
  /-- Makes a node for destination node `node`, without its children. -/
  | insert (node : NodeId) (parent : NodeRef) (position : Nat)
  /-- Makes nodes for destination node `node` and all that is below it; without a parent the
  topmost of them becomes the root. -/
  | treeInsert (node : NodeId) (parent : Option NodeRef) (position : Nat)
  /-- Gives source node `node` a new label. -/
  | update (node : NodeId) (label : String)
  /-- Puts source node `node`, with all that is below it, under another parent or at another
  position. -/
  | move (node : NodeId) (parent : NodeRef) (position : Nat)
  /-- Takes out source node `node` with all that is below it. -/
  | treeDelete (node : NodeId)
  /-- Takes out source node `node`, which has no children. -/
  | delete (node : NodeId)
deriving DecidableEq, Repr

namespace Action

/-- What the action does. -/
def kind : Action → ActionKind
  | insert .. => .insert
  | treeInsert .. => .treeInsert
  | update .. => .update
  | move .. => .move
  | treeDelete .. => .treeDelete
  | delete .. => .delete

/-- The short name of the action. -/
def name (a : Action) : String := a.kind.name

/-- The node that the action is about. -/
def node : Action → NodeRef
  | insert d .. => .dst d
  | treeInsert d .. => .dst d
  | update s .. => .src s
  | move s .. => .src s
  | treeDelete s => .src s
  | delete s => .src s

/-- The parent to put a node under. -/
def parent? : Action → Option NodeRef
  | insert _ p _ => some p
  | treeInsert _ p _ => p
  | move _ p _ => some p
  | _ => none

/-- The position to put a node at. -/
def position? : Action → Option Nat
  | insert _ _ k => some k
  | treeInsert _ _ k => some k
  | move _ _ k => some k
  | _ => none

/-- The new label. -/
def value? : Action → Option String
  | update _ l => some l
  | _ => none

/-- Whether the action only moves or relabels a node that was there before. -/
def isMoveOrUpdate : Action → Bool
  | move .. => true
  | update .. => true
  | _ => false

/-- What stands between the parentheses of the line of an action. -/
def details : Action → String
  | insert d p k => s!"{(NodeRef.dst d).text} @{k} under {p.text}"
  | treeInsert d (some p) k => s!"{(NodeRef.dst d).text} @{k} under {p.text}"
  | treeInsert d none _ => s!"{(NodeRef.dst d).text} as root"
  | update s l => s!"{(NodeRef.src s).text} → {Text.quoted l}"
  | move s p k => s!"{(NodeRef.src s).text} @{k} under {p.text}"
  | treeDelete s => (NodeRef.src s).text
  | delete s => (NodeRef.src s).text

/-- The action in one line. -/
def text (a : Action) : String := s!"{a.kind.word}({a.details})"

end Action

end TreeScript
