/-
**Arenas: nodes in slots, and what their links say.**

An arena is a row of slots, each vacant or holding a node with its payload, the identity of its
parent and those of its children in order.  Reading through an identity looks at the slot only: an
identity that is out of date reads the present tenant.  Whether an identity is up to date is a
question of its own, `TreeScript.Arena.isLive`.

The nodes below a node form a rose tree of identities, `TreeScript.Arena.subtree`; the walks of
the library are walks over it.

Main definitions:

* `TreeScript.Node`, `TreeScript.Slot`, `TreeScript.Arena`;
* `TreeScript.Arena.data?`, `TreeScript.Arena.parent?`, `TreeScript.Arena.children` — reading;
* `TreeScript.Arena.ancestors`, `TreeScript.Arena.subtree` — walking up and down;
* `TreeScript.Arena.position` — the place of a node among its siblings;
* `TreeScript.Arena.returnsTo`, `TreeScript.Arena.later` — what a walk does that starts from an
  identity that is out of date.

Main results:

* `TreeScript.Arena.later_eq_nil` — **a walk from an identity that is up to date meets nothing
  but what is below it**.
-/

import TreeScript.NodeId
import TreeScript.RoseTree

set_option relaxedAutoImplicit false
set_option autoImplicit false

namespace TreeScript

/-- A node: its payload and its links. -/
structure Node (α : Type) where
  /-- What the node carries. -/
  data : α
  /-- The parent; the link is up to date as long as the node is in the arena. -/
  parent : Option NodeId
  /-- The children, in order. -/
  children : List NodeId

/-- A place for a node. -/
structure Slot (α : Type) where
  /-- How many nodes have left the slot. -/
  generation : Nat
  /-- The node that is in the slot. -/
  node? : Option (Node α)

/-- Nodes in slots. -/
structure Arena (α : Type) where
  /-- The slots. -/
  slots : Array (Slot α)
  /-- The vacant slots, the one that has been vacant longest first. -/
  free : List Nat

namespace Arena

variable {α : Type}

/-- The arena without slots. -/
def empty : Arena α := ⟨#[], []⟩

/-! ### Reading a slot -/

/-- Whether the arena has the slot of `n`. -/
def hasSlot (a : Arena α) (n : NodeId) : Bool := n.slot < a.slots.size

/-- The node in the slot of `n`. -/
def node? (a : Arena α) (n : NodeId) : Option (Node α) := a.slots[n.slot]?.bind Slot.node?

/-- The payload of the node in the slot of `n`. -/
def data? (a : Arena α) (n : NodeId) : Option α := (a.node? n).map Node.data

/-- The parent of the node in the slot of `n`. -/
def parent? (a : Arena α) (n : NodeId) : Option NodeId := (a.node? n).bind Node.parent

/-- The children of the node in the slot of `n`; a vacant slot has none. -/
def children (a : Arena α) (n : NodeId) : List NodeId :=
  match a.node? n with
  | some node => node.children
  | none => []

/-- Whether `n` is up to date: the slot holds a node, of that very generation. -/
def isLive (a : Arena α) (n : NodeId) : Bool :=
  match a.slots[n.slot]? with
  | some s => s.generation == n.generation && s.node?.isSome
  | none => false

/-- The place of a node among its siblings, 0 for a node without parent and for an identity that
is out of date. -/
def position (a : Arena α) (n : NodeId) : Nat :=
  if a.isLive n then
    match a.parent? n with
    | some p => ((a.children p).idxOf? n).getD 0
    | none => 0
  else 0

/-- An identity that is up to date has its slot. -/
theorem hasSlot_of_isLive {a : Arena α} {n : NodeId} (h : a.isLive n = true) :
    a.hasSlot n = true := by
  unfold isLive at h
  split at h
  case h_1 s hs => simpa [hasSlot] using (Array.getElem?_eq_some_iff.mp hs).1
  case h_2 => exact absurd h (by decide)

/-! ### Walking up -/

/-- The first `fuel` nodes of the walk from `n` along parent links. -/
def ancestorsF (a : Arena α) : Nat → NodeId → List NodeId
  | 0, _ => []
  | fuel + 1, n =>
      match a.parent? n with
      | some p => n :: a.ancestorsF fuel p
      | none => [n]

/-- `n`, its parent, the parent of that, and so on. -/
def ancestors (a : Arena α) (n : NodeId) : List NodeId := a.ancestorsF (a.slots.size + 1) n

/-! ### Walking down -/

/-- The nodes below `n`, down to `fuel` levels. -/
def subtreeF (a : Arena α) : Nat → NodeId → RoseTree NodeId
  | 0, n => .node n []
  | fuel + 1, n => .node n ((a.children n).map (a.subtreeF fuel))

/-- **The rose tree of the identities below `n`**, with `n` itself at the root.  No branch is
longer than the number of slots. -/
def subtree (a : Arena α) (n : NodeId) : RoseTree NodeId := a.subtreeF a.slots.size n

/-- `n` and the nodes below it, each before the nodes below it. -/
def preorder (a : Arena α) (n : NodeId) : List NodeId := (a.subtree n).preorder

/-- `n` and the nodes below it, each after the nodes below it. -/
def postorder (a : Arena α) (n : NodeId) : List NodeId := (a.subtree n).postorder

/-! ### Walks from an identity that is out of date -/

/-- Whether a walk below `n` notices that it is back at `n`.  It comes back from the last child
along the link to the parent, which is up to date, and it is over when that link leads to `n`
itself; from a node without children there is no way to come back. -/
def returnsTo (a : Arena α) (n : NodeId) : Bool := a.isLive n || (a.children n).isEmpty

/-- For each ancestor of `n`, nearest first, its children after the branch of `n`; as many
ancestors as `fuel` says. -/
def laterF (a : Arena α) : Nat → NodeId → List (List NodeId)
  | 0, _ => []
  | fuel + 1, n =>
      match a.parent? n with
      | some p => ((a.children p).dropWhile (·.slot != n.slot)).drop 1 :: a.laterF fuel p
      | none => []

/-- What a walk below `n` meets after the nodes below `n`.  A walk that does not notice that it
is back goes on to the end of the whole tree: for each ancestor, the branches after the one it
came from.  Any other walk meets nothing more. -/
def later (a : Arena α) (n : NodeId) : List (List NodeId) :=
  if a.returnsTo n then [] else a.laterF (a.slots.size + 1) n

/-! ### The walks, step by step -/

theorem later_eq_nil {a : Arena α} {n : NodeId} (h : a.isLive n = true) : a.later n = [] := by
  simp only [later, returnsTo, h, Bool.true_or, if_true]

theorem ancestorsF_succ_some {a : Arena α} {fuel : Nat} {n p : NodeId} (h : a.parent? n = some p) :
    a.ancestorsF (fuel + 1) n = n :: a.ancestorsF fuel p := by
  simp only [ancestorsF, h]

theorem ancestorsF_succ_none {a : Arena α} {fuel : Nat} {n : NodeId} (h : a.parent? n = none) :
    a.ancestorsF (fuel + 1) n = [n] := by
  simp only [ancestorsF, h]

theorem subtreeF_succ (a : Arena α) (fuel : Nat) (n : NodeId) :
    a.subtreeF (fuel + 1) n = .node n ((a.children n).map (a.subtreeF fuel)) := rfl

@[simp] theorem value_subtreeF (a : Arena α) (fuel : Nat) (n : NodeId) :
    (a.subtreeF fuel n).value = n := by
  cases fuel <;> rfl

/-- The rose tree below a node has the node at its root. -/
@[simp] theorem value_subtree (a : Arena α) (n : NodeId) : (a.subtree n).value = n :=
  a.value_subtreeF _ n

end Arena

end TreeScript
