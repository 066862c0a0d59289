/-
**Changing an arena.**

A new node takes the slot that has been vacant longest, and a new slot only if none is vacant.
Slots are vacated from the bottom up, so that the slot of a node becomes vacant after those of the
nodes below it.

Main definitions:

* `TreeScript.Arena.alloc`, `TreeScript.Arena.nextId` — a new node without links;
* `TreeScript.Arena.unlink`, `TreeScript.Arena.link`, `TreeScript.Arena.attach` — taking a node
  from its siblings and putting it among others;
* `TreeScript.Arena.removeSubtree`, `TreeScript.Arena.removeAlone` — taking out a node with all
  that is below it, or leaving that in its place;
* `TreeScript.Arena.plant` — putting a whole rose tree into the arena.

Main results:

* `TreeScript.Arena.node?_modify`, `TreeScript.Arena.node?_alloc`, `TreeScript.Arena.node?_vacate`
  — **each primitive changes one slot**;
* `TreeScript.Arena.attach_of_isLive` — a node that is up to date takes any node that it is not
  below.
-/

import TreeScript.Arena.Basic
import TreeScript.Fault

set_option relaxedAutoImplicit false
set_option autoImplicit false

namespace TreeScript.Arena

variable {α : Type}

/-! ### Primitives -/

/-- Changes the node in the slot of `n`, if there is one. -/
def modify (a : Arena α) (n : NodeId) (f : Node α → Node α) : Arena α :=
  { a with slots := a.slots.modify n.slot fun s => { s with node? := s.node?.map f } }

/-- The identity that the next new node will have. -/
def nextId (a : Arena α) : NodeId :=
  match a.free with
  | [] => ⟨a.slots.size, 0⟩
  | s :: _ => ⟨s, (a.slots[s]?.map Slot.generation).getD 0⟩

/-- Puts a new node without links into the arena; `nextId` says where. -/
def alloc (a : Arena α) (d : α) : Arena α :=
  match a.free with
  | [] => { a with slots := a.slots.push ⟨0, some ⟨d, none, []⟩⟩ }
  | s :: rest =>
    { slots := a.slots.modify s fun slot => { slot with node? := some ⟨d, none, []⟩ }
      free := rest }

/-- Empties the slot of `n`, which from now on waits for a new tenant. -/
def vacate (a : Arena α) (n : NodeId) : Arena α :=
  { slots := a.slots.modify n.slot fun s => ⟨s.generation + 1, none⟩
    free := a.free ++ [n.slot] }

/-- Changes the payload of the node in the slot of `n`. -/
def setData (a : Arena α) (n : NodeId) (f : α → α) : Arena α :=
  a.modify n fun node => { node with data := f node.data }

/-! ### Links -/

/-- Changes the list of children of the node in the slot of `p`. -/
def mapChildren (a : Arena α) (p : NodeId) (f : List NodeId → List NodeId) : Arena α :=
  a.modify p fun node => { node with children := f node.children }

/-- Changes the link of the node in the slot of `n` to its parent. -/
def setParent (a : Arena α) (n : NodeId) (p : Option NodeId) : Arena α :=
  a.modify n fun node => { node with parent := p }

/-- Takes `n` from the children of its parent. -/
def unlink (a : Arena α) (n : NodeId) : Arena α :=
  match a.parent? n with
  | some p => (a.mapChildren p (·.erase n)).setParent n none
  | none => a

/-- The link to the parent for a node that becomes child `i` of `p`.  It is taken over from the
child that gives way to the node, which is up to date even if `p` is not. -/
def linkUnder (a : Arena α) (p : NodeId) (i : Nat) : Option NodeId :=
  match (a.children p)[i]? with
  | some c => a.parent? c
  | none => some p

/-- Makes `n`, which has no parent, child `i` of `p`, or the last child if there are not that
many. -/
def link (a : Arena α) (p : NodeId) (i : Nat) (n : NodeId) : Arena α :=
  (a.mapChildren p fun ns => ns.insertIdx (min i ns.length) n).setParent n (a.linkUnder p i)

/-- `link`, once it is clear that there is a node to put `n` under and that this node is not below
`n`.  A child that gives way to `n` shows that there is one, whatever the generation of `p`; to
become the last child, `n` needs a `p` that is up to date. -/
def attach (a : Arena α) (p : NodeId) (i : Nat) (n : NodeId) : Except Fault (Arena α) :=
  if !a.hasSlot p then .error (.noSlot p)
  else if !(a.isLive p || i < (a.children p).length) then .error (.outdated p)
  else if n ∈ a.ancestors p then .error (.ownDescendant n)
  else .ok (a.link p i n)

/-- A node can be put anywhere under a node that is up to date and not below it. -/
theorem attach_of_isLive {a : Arena α} {p n : NodeId} (i : Nat) (hp : a.isLive p = true)
    (hn : n ∉ a.ancestors p) : a.attach p i n = .ok (a.link p i n) := by
  simp [attach, hasSlot_of_isLive hp, hp, hn]

/-! ### Whole subtrees -/

/-- Takes out `n` and the nodes below it; their slots become vacant from the bottom up. -/
def removeSubtree (a : Arena α) (n : NodeId) : Arena α :=
  (a.postorder n).foldl vacate (a.unlink n)

/-- Takes out `n` alone: its children take its place among its siblings. -/
def removeAlone (a : Arena α) (n : NodeId) : Arena α :=
  let up := a.parent? n
  let orphans := a.children n
  let b :=
    match up with
    | some p => a.mapChildren p (·.flatMap fun c => if c = n then orphans else [c])
    | none => a
  (orphans.foldl (fun b c => b.setParent c up) b).vacate n

/-- Puts a new node into the arena, as the last child of `under` if that is given. -/
def sprout (a : Arena α) (under : Option NodeId) (d : α) : Arena α :=
  let b := a.alloc d
  match under with
  | some p => b.link p (b.children p).length a.nextId
  | none => b

mutual
/-- Puts a new node for every node of `t` into the arena, in pre-order, and gives each the place
in the arena that it has in `t`.  The root of the copy becomes the last child of `under`, if that
is given.  With the arena come the pairs of what stood in `t` and the new node. -/
def plant {κ : Type} (a : Arena α) (under : Option NodeId) :
    RoseTree (κ × α) → Arena α × List (κ × NodeId)
  | .node (key, d) ts =>
    let (b, pairs) := (a.sprout under d).plantForest a.nextId ts
    (b, (key, a.nextId) :: pairs)

/-- Plants the trees of a forest one after the other, as the last children of `p`. -/
def plantForest {κ : Type} (a : Arena α) (p : NodeId) :
    List (RoseTree (κ × α)) → Arena α × List (κ × NodeId)
  | [] => (a, [])
  | t :: ts =>
    let (b, first) := a.plant (some p) t
    let (c, rest) := b.plantForest p ts
    (c, first ++ rest)
end

/-! ### What the primitives change -/

theorem node?_modify (a : Arena α) (n k : NodeId) (f : Node α → Node α) :
    (a.modify n f).node? k = if n.slot = k.slot then (a.node? k).map f else a.node? k := by
  simp only [node?, modify, Array.getElem?_modify]
  split
  · cases a.slots[k.slot]? <;> rfl
  · rfl

theorem node?_vacate (a : Arena α) (n k : NodeId) :
    (a.vacate n).node? k = if n.slot = k.slot then none else a.node? k := by
  simp only [node?, vacate, Array.getElem?_modify]
  split
  · cases a.slots[k.slot]? <;> rfl
  · rfl

/-- A new node has its payload and no links, and the other slots are as before. -/
theorem node?_alloc (a : Arena α) (d : α) (k : NodeId) (h : ∀ s ∈ a.free, s < a.slots.size) :
    (a.alloc d).node? k =
      if a.nextId.slot = k.slot then some ⟨d, none, []⟩ else a.node? k := by
  unfold alloc nextId node?
  split
  case h_1 => simp only [Array.getElem?_push, eq_comm (a := a.slots.size)]; split <;> rfl
  case h_2 s rest hf =>
    have hs : s < a.slots.size := h s (hf ▸ List.mem_cons_self)
    simp only [Array.getElem?_modify]
    by_cases e : s = k.slot
    · subst e; simp [hs]
    · simp [e]

end TreeScript.Arena
