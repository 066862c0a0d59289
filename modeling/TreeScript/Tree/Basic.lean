/-
**Ordered labeled trees, read.**

A tree is an arena of typed and labeled nodes, the identity of its root, and the registry its
types come from.  Reading links or data through an identity looks at the slot only; it is a fault
if there is no such slot, and for data also if the slot is vacant.  `contains`, `position` and
`isRoot` answer for every identity.

Main definitions:

* `TreeScript.NodeData`, `TreeScript.Tree`, `TreeScript.Tree.single`;
* `TreeScript.Tree.data`, `TreeScript.Tree.children`, `TreeScript.Tree.child?` and the other
  readers of one node;
* `TreeScript.Tree.ancestors`, `TreeScript.Tree.descendants`, `TreeScript.Tree.iter`,
  `TreeScript.Tree.preorder`, `TreeScript.Tree.postorder` — the walks;
* `TreeScript.Tree.size`, `TreeScript.Tree.height`, `TreeScript.Tree.depth` — the measures;
* `TreeScript.Tree.childAt`, `TreeScript.Tree.resolve`, `TreeScript.Tree.pathOf` — paths;
* `TreeScript.Tree.view` — **the subtree at a node as a rose tree of identities and data**.
-/

import TreeScript.Arena.Edit
import TreeScript.NodePath
import TreeScript.NodeType

set_option relaxedAutoImplicit false
set_option autoImplicit false

namespace TreeScript

/-- What a node of a tree carries. -/
structure NodeData where
  /-- The type. -/
  kind : NodeType
  /-- The label, possibly empty. -/
  label : String
deriving DecidableEq, Repr

/-- The text of a node: its type, and after a colon its label unless that is empty. -/
def NodeData.text (d : NodeData) : String :=
  if d.label.isEmpty then d.kind.name else d.kind.name ++ ":" ++ d.label

/-- An ordered tree of typed and labeled nodes. -/
structure Tree where
  /-- The registry that the types of the nodes come from. -/
  types : Registry
  /-- The nodes. -/
  arena : Arena NodeData
  /-- The root. -/
  root : NodeId

namespace Tree

/-- The tree that consists of a root. -/
def single (types : Registry) (kind : NodeType) (label : String) : Tree :=
  { types
    arena := Arena.empty.alloc ⟨kind, label⟩
    root := (Arena.empty : Arena NodeData).nextId }

/-! ### One node -/

/-- A reading of the links of `n`, which must be the identity of some slot. -/
def reading {β : Type} (t : Tree) (n : NodeId) (answer : β) : Except Fault β :=
  if t.arena.hasSlot n then .ok answer else .error (.noSlot n)

/-- What `n` carries. -/
def data (t : Tree) (n : NodeId) : Except Fault NodeData :=
  match t.arena.data? n with
  | some d => .ok d
  | none => .error (if t.arena.hasSlot n then .vacantSlot n else .noSlot n)

/-- The type of `n`. -/
def kind (t : Tree) (n : NodeId) : Except Fault NodeType := return (← t.data n).kind

/-- The label of `n`. -/
def label (t : Tree) (n : NodeId) : Except Fault String := return (← t.data n).label

/-- The parent of `n`; the root has none. -/
def parent? (t : Tree) (n : NodeId) : Except Fault (Option NodeId) :=
  t.reading n (t.arena.parent? n)

/-- The children of `n`, in order. -/
def children (t : Tree) (n : NodeId) : Except Fault (List NodeId) :=
  t.reading n (t.arena.children n)

/-- Child `i` of `n`. -/
def child? (t : Tree) (n : NodeId) (i : Nat) : Except Fault (Option NodeId) :=
  return (← t.children n)[i]?

/-- The number of children of `n`. -/
def childCount (t : Tree) (n : NodeId) : Except Fault Nat := return (← t.children n).length

/-- Whether `n` has no children. -/
def isLeaf (t : Tree) (n : NodeId) : Except Fault Bool := return (← t.children n).isEmpty

/-- The place of `n` among its siblings, 0 for the root. -/
def position (t : Tree) (n : NodeId) : Nat := t.arena.position n

/-- Whether `n` is the root. -/
def isRoot (t : Tree) (n : NodeId) : Bool := n == t.root

/-- Whether `n` is a node of the tree: it is up to date, and the walk upwards from it ends at the
root. -/
def contains (t : Tree) (n : NodeId) : Bool :=
  t.arena.isLive n && (t.arena.ancestors n).getLast? == some t.root

/-! ### Walks -/

/-- The ancestors of `n`, nearest first, without `n`. -/
def ancestors (t : Tree) (n : NodeId) : Except Fault (List NodeId) :=
  t.reading n ((t.arena.ancestors n).drop 1)

/-- `n` and the nodes below it, in pre-order. -/
def descendants (t : Tree) (n : NodeId) : Except Fault (List NodeId) :=
  t.reading n (t.arena.preorder n ++ (t.arena.later n).flatten.flatMap t.arena.preorder)

/-- All nodes, level by level. -/
def iter (t : Tree) : List NodeId := (t.arena.subtree t.root).levelOrder

/-- All nodes, each before the nodes below it. -/
def preorder (t : Tree) : List NodeId := t.arena.preorder t.root

/-- All nodes, each after the nodes below it. -/
def postorder (t : Tree) : List NodeId := t.arena.postorder t.root

/-! ### Measures -/

/-- The number of nodes that `descendants` lists. -/
def size (t : Tree) (n : NodeId) : Except Fault Nat := return (← t.descendants n).length

/-- The number of nodes. -/
def nodeCount (t : Tree) : Nat := t.preorder.length

/-- The number of levels from `n` downwards.  They are counted on the way back to `n`, so that a
walk that does not return there has counted `n` alone. -/
def height (t : Tree) (n : NodeId) : Except Fault Nat :=
  t.reading n (if t.arena.returnsTo n then (t.arena.subtree n).height else 1)

/-- The number of ancestors of `n`. -/
def depth (t : Tree) (n : NodeId) : Except Fault Nat := return (← t.ancestors n).length

/-! ### Paths -/

/-- The node to which child indices lead from `n`. -/
def childAt (t : Tree) (n : NodeId) : List UInt32 → Except Fault (Option NodeId)
  | [] => return some n
  | i :: rest => do
    match ← t.child? n i.toNat with
    | some c => t.childAt c rest
    | none => return none

/-- The node to which a path leads from the root. -/
def resolve (t : Tree) (p : NodePath) : Except Fault (Option NodeId) := t.childAt t.root p.segments

/-- The path from the root to `n`. -/
def pathOf (t : Tree) (n : NodeId) : Except Fault NodePath :=
  t.reading n
    ⟨(((t.arena.ancestors n).takeWhile (· != t.root)).map fun m => (t.position m).toUInt32).reverse⟩

/-! ### The subtree as a value -/

/-- A node with what it carries. -/
def entry (t : Tree) (n : NodeId) : Except Fault (NodeId × NodeData) := return (n, ← t.data n)

/-- **The subtree at `n`, as a rose tree of identities and data.** -/
def view (t : Tree) (n : NodeId) : Except Fault (RoseTree (NodeId × NodeData)) :=
  (t.arena.subtree n).traverse t.entry

end Tree

end TreeScript
