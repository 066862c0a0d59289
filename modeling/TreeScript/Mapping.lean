/-
**Mappings between the nodes of two trees.**

A mapping pairs nodes of a source tree with nodes of a destination tree, each node at most once,
and only nodes of the same type.  Two tables answer which counterpart a node has; like all reading
of a tree they look at the slot of a node only.  A pair that does not fit is passed over by `add`
and is a fault for `addChecked`.

Main definitions:

* `TreeScript.Mapping`, with `counterpart?` and `source?` — looking up either way;
* `TreeScript.Mapping.add`, `TreeScript.Mapping.addChecked` — one pair;
* `TreeScript.Mapping.addSubtrees`, `TreeScript.Mapping.addSubtreesChecked` — the pre-orders of
  two subtrees, pair by pair;
* `TreeScript.Mapping.isSrcClean`, `TreeScript.Mapping.isDstClean` — whether a
  subtree is untouched.

Main results:

* `TreeScript.Mapping.counterpart?_push`, `TreeScript.Mapping.source?_push` — **a pair changes
  each table at one slot**.
-/

import TreeScript.NodeMap
import TreeScript.Tree.Compare

set_option relaxedAutoImplicit false
set_option autoImplicit false

namespace TreeScript

/-- The identity of the first node that was in the slot of `n`.  It stands for the slot in the
tables of a mapping. -/
def NodeId.slotKey (n : NodeId) : NodeId := ⟨n.slot, 0⟩

@[simp] theorem NodeId.slotKey_inj {a b : NodeId} : a.slotKey = b.slotKey ↔ a.slot = b.slot := by
  simp [slotKey]

/-- A partial one-to-one correspondence between the nodes of two trees. -/
structure Mapping where
  /-- The source tree. -/
  src : Tree
  /-- The destination tree. -/
  dst : Tree
  /-- The counterparts of source nodes. -/
  toDst : NodeMap NodeId
  /-- The counterparts of destination nodes. -/
  toSrc : NodeMap NodeId
  /-- The pairs, in the order in which they were added. -/
  pairs : List (NodeId × NodeId)

namespace Mapping

/-- The mapping between two trees that pairs no nodes. -/
def empty (src dst : Tree) : Mapping :=
  { src, dst, toDst := .empty, toSrc := .empty, pairs := [] }

/-! ### Looking up -/

/-- The counterpart of a source node. -/
def counterpart? (m : Mapping) (s : NodeId) : Option NodeId := m.toDst.get? s.slotKey

/-- The counterpart of a destination node. -/
def source? (m : Mapping) (d : NodeId) : Option NodeId := m.toSrc.get? d.slotKey

/-- Whether a source node has a counterpart. -/
def hasSrc (m : Mapping) (s : NodeId) : Bool := (m.counterpart? s).isSome

/-- Whether a destination node has a counterpart. -/
def hasDst (m : Mapping) (d : NodeId) : Bool := (m.source? d).isSome

/-- Whether `d` is the counterpart of `s`. -/
def has (m : Mapping) (s d : NodeId) : Bool := m.counterpart? s == some d

/-- The number of pairs. -/
def size (m : Mapping) : Nat := m.pairs.length

/-- Whether there are no pairs. -/
def isEmpty (m : Mapping) : Bool := m.pairs.isEmpty

/-- Whether no node of the source subtree at `s` has a counterpart. -/
def isSrcClean (m : Mapping) (s : NodeId) : Except Fault Bool :=
  return (← m.src.descendants s).all fun n => !m.hasSrc n

/-- Whether no node of the destination subtree at `d` has a counterpart. -/
def isDstClean (m : Mapping) (d : NodeId) : Except Fault Bool :=
  return (← m.dst.descendants d).all fun n => !m.hasDst n

/-! ### Adding -/

/-- Whether a pair fits: the types are the same, and neither node has a counterpart. -/
def isAllowed (m : Mapping) (s d : NodeId) : Except Fault Bool :=
  return (← m.src.kind s) == (← m.dst.kind d) && !m.hasSrc s && !m.hasDst d

/-- The mapping with one more pair. -/
def push (m : Mapping) (s d : NodeId) : Mapping :=
  { m with
    toDst := m.toDst.insert s.slotKey d
    toSrc := m.toSrc.insert d.slotKey s
    pairs := m.pairs ++ [(s, d)] }

/-- A new pair answers for the slot of its source node, and other look-ups are as before. -/
theorem counterpart?_push (m : Mapping) (s d k : NodeId) :
    (m.push s d).counterpart? k = if s.slot = k.slot then some d else m.counterpart? k := by
  simp [counterpart?, push, NodeMap.get?_insert]

/-- A new pair answers for the slot of its destination node, and other look-ups are as before. -/
theorem source?_push (m : Mapping) (s d k : NodeId) :
    (m.push s d).source? k = if d.slot = k.slot then some s else m.source? k := by
  simp [source?, push, NodeMap.get?_insert]

/-- Adds a pair if it fits. -/
def add (m : Mapping) (s d : NodeId) : Except Fault Mapping :=
  return if ← m.isAllowed s d then m.push s d else m

/-- Adds a pair, which has to fit. -/
def addChecked (m : Mapping) (s d : NodeId) : Except Fault Mapping := do
  if m.hasSrc s then throw (.sourceMapped s)
  if m.hasDst d then throw (.destinationMapped d)
  let sourceKind ← m.src.kind s
  let destinationKind ← m.dst.kind d
  if sourceKind == destinationKind then return m.push s d
  else throw (.typeMismatch sourceKind.name destinationKind.name)

/-- The nodes of two subtrees that stand at the same place of the two pre-orders, up to the end of
the shorter one. -/
def inStep (m : Mapping) (s d : NodeId) : Except Fault (List (NodeId × NodeId)) :=
  return (← m.src.descendants s).zip (← m.dst.descendants d)

/-- Adds the pairs of two subtrees, those that fit. -/
def addSubtrees (m : Mapping) (s d : NodeId) : Except Fault Mapping := do
  (← m.inStep s d).foldlM (fun m p => m.add p.1 p.2) m

/-- Adds the pairs of two subtrees, which have to be isomorphic and to have no counterparts. -/
def addSubtreesChecked (m : Mapping) (s d : NodeId) : Except Fault Mapping := do
  if ← m.src.isIsomorphic s m.dst d then
    (← m.inStep s d).foldlM (fun m p => m.addChecked p.1 p.2) m
  else throw .notIsomorphic

end Mapping

end TreeScript
