/-
**Finite maps and sets keyed by node identities.**

A map keeps one row for each slot, and in the row an entry for each generation of that slot that
has a value.  Looking up an identity that is out of date therefore finds nothing that was stored
for the present tenant of its slot, and looking up is as fast as indexing an array, since hardly
any slot has more than one generation stored.

Main definitions:

* `TreeScript.NodeMap`, with `get?`, `insert`, `erase`, `contains` and `ofList`;
* `TreeScript.NodeSet`, with `contains`, `add` and `erase`.

Main results:

* `TreeScript.NodeMap.get?_insert`, `TreeScript.NodeMap.get?_erase` — **a map is the function
  `get?`**, changed at one identity at a time.
-/

import TreeScript.NodeId

set_option relaxedAutoImplicit false
set_option autoImplicit false

namespace TreeScript

/-- A finite map from node identities. -/
structure NodeMap (β : Type) where
  /-- The entries of each slot, by generation. -/
  rows : Array (List (Nat × β))

namespace NodeMap

variable {β : Type}

/-- The map with no entries. -/
def empty : NodeMap β := ⟨#[]⟩

/-- The entries of a slot. -/
def row (m : NodeMap β) (slot : Nat) : List (Nat × β) := m.rows[slot]?.getD []

/-- The value stored for `n`. -/
def get? (m : NodeMap β) (n : NodeId) : Option β := (m.row n.slot).lookup n.generation

/-- Whether a value is stored for `n`. -/
def contains (m : NodeMap β) (n : NodeId) : Bool := (m.get? n).isSome

/-- The map with the row of one slot replaced. -/
def setRow (m : NodeMap β) (slot : Nat) (r : List (Nat × β)) : NodeMap β :=
  if slot < m.rows.size then ⟨m.rows.setIfInBounds slot r⟩
  else ⟨(m.rows ++ Array.replicate (slot - m.rows.size) []).push r⟩

/-- Stores `v` for `n`, in place of what was stored for it before. -/
def insert (m : NodeMap β) (n : NodeId) (v : β) : NodeMap β :=
  m.setRow n.slot ((n.generation, v) :: (m.row n.slot).filter (·.1 != n.generation))

/-- Forgets what is stored for `n`. -/
def erase (m : NodeMap β) (n : NodeId) : NodeMap β :=
  m.setRow n.slot ((m.row n.slot).filter (·.1 != n.generation))

/-- The map that stores the given values, a later one in place of an earlier one. -/
def ofList (entries : List (NodeId × β)) : NodeMap β :=
  entries.foldl (fun m e => m.insert e.1 e.2) empty

/-! ### Rows -/

@[simp] theorem row_empty (s : Nat) : (empty : NodeMap β).row s = [] := by
  simp [row, empty]

theorem row_setRow (m : NodeMap β) (s t : Nat) (r : List (Nat × β)) :
    (m.setRow s r).row t = if s = t then r else m.row t := by
  unfold setRow row
  split
  case isTrue h =>
    simp only [Array.getElem?_setIfInBounds]
    by_cases e : s = t
    · simp [e, e ▸ h]
    · simp [e]
  case isFalse h =>
    have hs : m.rows.size ≤ s := by omega
    rw [Array.getElem?_push, Array.getElem?_append]
    simp only [Array.size_append, Array.size_replicate]
    by_cases e : s = t
    · subst e
      have : s = m.rows.size + (s - m.rows.size) := by omega
      rw [if_pos this]
      simp
    · have : ¬ t = m.rows.size + (s - m.rows.size) := by omega
      rw [if_neg this, if_neg e]
      split
      · rfl
      · next hb =>
        rw [Array.getElem?_eq_none (by omega : m.rows.size ≤ t), Array.getElem?_replicate]
        split <;> simp

/-! ### The map as a function -/

private theorem lookup_filter_ne (l : List (Nat × β)) (g h : Nat) :
    (l.filter (·.1 != g)).lookup h = if g = h then none else l.lookup h := by
  induction l with
  | nil => simp
  | cons e l ih =>
    obtain ⟨k, v⟩ := e
    simp only [List.filter_cons, List.lookup_cons]
    grind

@[simp] theorem get?_empty (n : NodeId) : (empty : NodeMap β).get? n = none := by
  simp [get?]

/-- Storing a value changes what is found at that identity and nowhere else. -/
theorem get?_insert (m : NodeMap β) (n k : NodeId) (v : β) :
    (m.insert n v).get? k = if n = k then some v else m.get? k := by
  unfold get? insert
  rw [row_setRow]
  by_cases hs : n.slot = k.slot
  · rw [if_pos hs, List.lookup_cons, lookup_filter_ne]
    by_cases hg : n.generation = k.generation
    · have : n = k := NodeId.ext_iff.2 ⟨hs, hg⟩
      simp [this]
    · have h1 : ¬ n = k := fun e => hg (e ▸ rfl)
      have h2 : (k.generation == n.generation) = false := by simpa using fun e => hg e.symm
      simp [h1, h2, hg, hs]
  · have : ¬ n = k := fun e => hs (e ▸ rfl)
    simp [hs, this]

/-- Forgetting changes what is found at that identity and nowhere else. -/
theorem get?_erase (m : NodeMap β) (n k : NodeId) :
    (m.erase n).get? k = if n = k then none else m.get? k := by
  unfold get? erase
  rw [row_setRow]
  by_cases hs : n.slot = k.slot
  · rw [if_pos hs, lookup_filter_ne]
    by_cases hg : n.generation = k.generation
    · have : n = k := NodeId.ext_iff.2 ⟨hs, hg⟩
      simp [this]
    · have : ¬ n = k := fun e => hg (e ▸ rfl)
      simp [this, hg, hs]
  · have : ¬ n = k := fun e => hs (e ▸ rfl)
    simp [hs, this]

end NodeMap

/-- A finite set of node identities. -/
structure NodeSet where
  /-- The members, each with a value that says nothing. -/
  members : NodeMap Unit

namespace NodeSet

/-- The set without members. -/
def empty : NodeSet := ⟨.empty⟩

/-- Whether `n` is a member. -/
def contains (s : NodeSet) (n : NodeId) : Bool := s.members.contains n

/-- The set with `n` as a member. -/
def add (s : NodeSet) (n : NodeId) : NodeSet := ⟨s.members.insert n ()⟩

/-- The set without `n`. -/
def erase (s : NodeSet) (n : NodeId) : NodeSet := ⟨s.members.erase n⟩

/-- The set with every node of a list as a member. -/
def addAll (s : NodeSet) (ns : List NodeId) : NodeSet := ns.foldl add s

/-- The set without the nodes of a list. -/
def eraseAll (s : NodeSet) (ns : List NodeId) : NodeSet := ns.foldl erase s

@[simp] theorem contains_empty (n : NodeId) : empty.contains n = false := by
  simp [contains, empty, NodeMap.contains]

theorem contains_add (s : NodeSet) (n k : NodeId) :
    (s.add n).contains k = (decide (n = k) || s.contains k) := by
  unfold add contains NodeMap.contains
  rw [NodeMap.get?_insert]
  by_cases h : n = k <;> simp [h]

theorem contains_erase (s : NodeSet) (n k : NodeId) :
    (s.erase n).contains k = (!decide (n = k) && s.contains k) := by
  unfold erase contains NodeMap.contains
  rw [NodeMap.get?_erase]
  by_cases h : n = k <;> simp [h]

/-- The members after adding a list are the members before and the nodes of the list. -/
theorem contains_addAll (s : NodeSet) (ns : List NodeId) (k : NodeId) :
    (s.addAll ns).contains k = (decide (k ∈ ns) || s.contains k) := by
  unfold addAll
  induction ns generalizing s with
  | nil => simp
  | cons n ns ih =>
    rw [List.foldl_cons, ih, contains_add]
    by_cases h : n = k
    · simp [h]
    · have : ¬ k = n := fun e => h e.symm
      simp [h, this]

end NodeSet

end TreeScript
