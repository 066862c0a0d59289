/-
**What changing an arena leaves alone.**

For each way of changing an arena it is said, for every node that is up to date, what its payload,
its parent and its children are afterwards, and which identities are up to date.  In a well-formed
arena identities can be compared as a whole: two of them that are up to date share a slot only if
they are equal.

Main results:

* `TreeScript.Arena.children_unlink`, `TreeScript.Arena.children_link` — the children of every
  node after a node has been taken from its siblings, and after one has been put among others;
* `TreeScript.Arena.isLive_alloc_iff`, `TreeScript.Arena.not_issued_nextId` — a new node is new;
* `TreeScript.Arena.isLive_removeSubtree_iff`, `TreeScript.Arena.children_removeSubtree` — **what
  goes with a subtree**.
-/

import TreeScript.Proofs.Arena.Orders

set_option relaxedAutoImplicit false
set_option autoImplicit false

namespace TreeScript.Arena

variable {α : Type} {a : Arena α} {n m k p c r : NodeId} {i : Nat} {d : α}

theorem slot_eq_iff (hn : a.isLive n) (hk : a.isLive k) : n.slot = k.slot ↔ n = k :=
  ⟨eq_of_slot_eq hn hk, fun h => h ▸ rfl⟩

/-! ### Changing the node in a slot -/

@[simp] theorem isLive_modify (a : Arena α) (n k : NodeId) (f : Node α → Node α) :
    (a.modify n f).isLive k = a.isLive k := by
  unfold isLive modify
  simp only [Array.getElem?_modify]
  by_cases h : n.slot = k.slot
  · cases hs : a.slots[k.slot]? <;> simp [h]
  · simp [h]

theorem issued_modify_iff {f : Node α → Node α} : (a.modify n f).Issued k ↔ a.Issued k := by
  unfold Issued modify
  simp only [Array.getElem?_modify]
  by_cases h : n.slot = k.slot
  · cases hs : a.slots[k.slot]? <;> simp [h]
  · simp [h]

/-! ### Another payload -/

@[simp] theorem isLive_setData (a : Arena α) (n k : NodeId) (f : α → α) :
    (a.setData n f).isLive k = a.isLive k := isLive_modify ..

theorem issued_setData_iff {f : α → α} : (a.setData n f).Issued k ↔ a.Issued k :=
  issued_modify_iff

@[simp] theorem parent?_setData (a : Arena α) (n k : NodeId) (f : α → α) :
    (a.setData n f).parent? k = a.parent? k := by
  unfold parent? setData
  rw [node?_modify]
  split
  · cases a.node? k <;> rfl
  · rfl

@[simp] theorem children_setData (a : Arena α) (n k : NodeId) (f : α → α) :
    (a.setData n f).children k = a.children k := by
  unfold children setData
  rw [node?_modify]
  by_cases h : n.slot = k.slot
  · rw [if_pos h]; cases a.node? k <;> rfl
  · rw [if_neg h]

theorem data?_setData {f : α → α} (hn : a.isLive n) (hk : a.isLive k) :
    (a.setData n f).data? k = if k = n then (a.data? k).map f else a.data? k := by
  unfold data? setData
  rw [node?_modify, if_congr (slot_eq_iff hn hk) rfl rfl]
  by_cases h : n = k
  · subst h; cases a.node? n <;> simp
  · rw [if_neg h, if_neg fun e => h e.symm]

/-! ### Another list of children -/

section MapChildren

variable {f : List NodeId → List NodeId}

@[simp] theorem isLive_mapChildren (a : Arena α) (p k : NodeId) (f : List NodeId → List NodeId) :
    (a.mapChildren p f).isLive k = a.isLive k := isLive_modify ..

theorem issued_mapChildren_iff : (a.mapChildren p f).Issued k ↔ a.Issued k := issued_modify_iff

@[simp] theorem data?_mapChildren (a : Arena α) (p k : NodeId) (f : List NodeId → List NodeId) :
    (a.mapChildren p f).data? k = a.data? k := by
  unfold data? mapChildren
  rw [node?_modify]
  split
  · cases a.node? k <;> rfl
  · rfl

@[simp] theorem parent?_mapChildren (a : Arena α) (p k : NodeId) (f : List NodeId → List NodeId) :
    (a.mapChildren p f).parent? k = a.parent? k := by
  unfold parent? mapChildren
  rw [node?_modify]
  split
  · cases a.node? k <;> rfl
  · rfl

theorem children_mapChildren (hp : a.isLive p) (hk : a.isLive k) :
    (a.mapChildren p f).children k = if k = p then f (a.children k) else a.children k := by
  unfold children mapChildren
  rw [node?_modify]
  by_cases h : p = k
  · obtain ⟨node, hnode⟩ := exists_node?_of_isLive hk
    simp [h, hnode]
  · rw [if_neg fun e => h (eq_of_slot_eq hp hk e), if_neg fun e => h e.symm]

end MapChildren

/-! ### Another parent -/

section SetParent

variable {q : Option NodeId}

@[simp] theorem isLive_setParent (a : Arena α) (n k : NodeId) (q : Option NodeId) :
    (a.setParent n q).isLive k = a.isLive k := isLive_modify ..

theorem issued_setParent_iff : (a.setParent n q).Issued k ↔ a.Issued k := issued_modify_iff

@[simp] theorem data?_setParent (a : Arena α) (n k : NodeId) (q : Option NodeId) :
    (a.setParent n q).data? k = a.data? k := by
  unfold data? setParent
  rw [node?_modify]
  split
  · cases a.node? k <;> rfl
  · rfl

@[simp] theorem children_setParent (a : Arena α) (n k : NodeId) (q : Option NodeId) :
    (a.setParent n q).children k = a.children k := by
  unfold children setParent
  rw [node?_modify]
  by_cases h : n.slot = k.slot
  · rw [if_pos h]; cases a.node? k <;> rfl
  · rw [if_neg h]

theorem parent?_setParent (hn : a.isLive n) (hk : a.isLive k) :
    (a.setParent n q).parent? k = if k = n then q else a.parent? k := by
  unfold parent? setParent
  rw [node?_modify]
  by_cases h : n = k
  · obtain ⟨node, hnode⟩ := exists_node?_of_isLive hk
    simp [h, hnode]
  · rw [if_neg fun e => h (eq_of_slot_eq hn hk e), if_neg fun e => h e.symm]

end SetParent

/-! ### Taking a node from its siblings -/

@[simp] theorem isLive_unlink (a : Arena α) (n k : NodeId) :
    (a.unlink n).isLive k = a.isLive k := by
  unfold unlink
  split <;> simp

@[simp] theorem free_unlink (a : Arena α) (n : NodeId) : (a.unlink n).free = a.free := by
  unfold unlink
  split <;> rfl

@[simp] theorem size_slots_unlink (a : Arena α) (n : NodeId) :
    (a.unlink n).slots.size = a.slots.size := by
  unfold unlink
  split <;> simp [setParent, mapChildren, modify]

theorem issued_unlink_iff : (a.unlink n).Issued k ↔ a.Issued k := by
  unfold unlink
  split
  · rw [issued_setParent_iff, issued_mapChildren_iff]
  · exact Iff.rfl

@[simp] theorem data?_unlink (a : Arena α) (n k : NodeId) :
    (a.unlink n).data? k = a.data? k := by
  unfold unlink
  split <;> simp

theorem parent?_unlink (hn : a.isLive n) (hk : a.isLive k) :
    (a.unlink n).parent? k = if k = n then none else a.parent? k := by
  unfold unlink
  split
  case h_1 p hp =>
    rw [parent?_setParent (by simpa using hn) (by simpa using hk), parent?_mapChildren]
  case h_2 hp =>
    split
    case isTrue h => rw [h]; exact hp
    case isFalse => rfl

/-- A node that is taken from its siblings is no node's child. -/
theorem children_unlink (hw : a.WellFormed) (hn : a.isLive n) (hk : a.isLive k) :
    (a.unlink n).children k = (a.children k).erase n := by
  have hne : a.parent? n ≠ some k → (a.children k).erase n = a.children k := fun h =>
    List.erase_of_not_mem fun hm => h (hw.parent?_of_mem hk hm)
  unfold unlink
  split
  case h_1 p hp =>
    rw [children_setParent, children_mapChildren (hw.isLive_of_parent? hn hp) hk]
    split
    case isTrue => rfl
    case isFalse h => exact (hne fun e => h (Option.some.inj (hp.symm.trans e)).symm).symm
  case h_2 hp => exact (hne (by rw [hp]; exact nofun)).symm

/-! ### Putting a node among others -/

@[simp] theorem isLive_link (a : Arena α) (p : NodeId) (i : Nat) (n k : NodeId) :
    (a.link p i n).isLive k = a.isLive k := by
  simp [link]

@[simp] theorem free_link (a : Arena α) (p : NodeId) (i : Nat) (n : NodeId) :
    (a.link p i n).free = a.free := rfl

@[simp] theorem size_slots_link (a : Arena α) (p : NodeId) (i : Nat) (n : NodeId) :
    (a.link p i n).slots.size = a.slots.size := by
  simp [link, setParent, mapChildren, modify]

theorem issued_link_iff : (a.link p i n).Issued k ↔ a.Issued k := by
  rw [link, issued_setParent_iff, issued_mapChildren_iff]

@[simp] theorem data?_link (a : Arena α) (p : NodeId) (i : Nat) (n k : NodeId) :
    (a.link p i n).data? k = a.data? k := by
  simp [link]

/-- The child that gives way to a new one names `p` as its parent. -/
theorem linkUnder_eq (hw : a.WellFormed) (hp : a.isLive p) (i : Nat) :
    a.linkUnder p i = some p := by
  unfold linkUnder
  split
  case h_1 c hc => exact hw.parent?_of_mem hp (List.mem_of_getElem? hc)
  case h_2 => rfl

theorem parent?_link (hw : a.WellFormed) (hp : a.isLive p) (hn : a.isLive n) (hk : a.isLive k) :
    (a.link p i n).parent? k = if k = n then some p else a.parent? k := by
  rw [link, parent?_setParent (by simpa using hn) (by simpa using hk), parent?_mapChildren,
    linkUnder_eq hw hp]

theorem children_link (hp : a.isLive p) (hk : a.isLive k) :
    (a.link p i n).children k =
      if k = p then (a.children p).insertIdx (min i (a.children p).length) n
      else a.children k := by
  rw [link, children_setParent, children_mapChildren hp hk]
  split
  case isTrue h => rw [h]
  case isFalse => rfl

/-! ### A new node -/

theorem isLive_alloc_iff (hw : a.WellFormed) :
    (a.alloc d).isLive k ↔ k = a.nextId ∨ a.isLive k := by
  unfold alloc nextId
  split
  case h_1 =>
    rw [isLive_iff, isLive_iff, NodeId.ext_iff]
    simp only [Array.getElem?_push]
    by_cases h : k.slot = a.slots.size
    · simp [h, @eq_comm _ 0]
    · simp [h]
  case h_2 s rest hf =>
    have hs : s < a.slots.size := hw.free_lt s (hf ▸ List.mem_cons_self)
    by_cases h : s = k.slot
    · -- the slot was vacant, and keeps its generation
      subst h
      have hvac : ¬ a.isLive k := hw.free_vacant _ (hf ▸ List.mem_cons_self) k.generation
      rw [or_iff_left hvac, isLive_iff, NodeId.ext_iff]
      simp [hs, @eq_comm _ k.generation, Array.getElem_modify]
    · have hne : k.slot ≠ s := fun e => h e.symm
      rw [isLive_iff, isLive_iff, NodeId.ext_iff]
      simp [Array.getElem?_modify, h, hne]

/-- **A new node gets an identity that no node has had before.** -/
theorem not_issued_nextId (hw : a.WellFormed) : ¬ a.Issued a.nextId := by
  unfold nextId
  split
  case h_1 =>
    rintro ⟨s, hs, -⟩
    simp at hs
  case h_2 s rest hf =>
    have hs : s < a.slots.size := hw.free_lt s (hf ▸ List.mem_cons_self)
    have hvac := hw.free_vacant s (hf ▸ List.mem_cons_self) (a.slots[s]).generation
    rintro ⟨slot, hslot, h⟩
    simp only [Array.getElem?_eq_getElem hs, Option.some.injEq] at hslot
    subst hslot
    rcases h with h | ⟨-, h⟩
    · simp [hs] at h
    · exact hvac (isLive_iff.2 ⟨_, Array.getElem?_eq_getElem hs, rfl, h⟩)

theorem not_isLive_nextId (hw : a.WellFormed) : ¬ a.isLive a.nextId :=
  fun h => not_issued_nextId hw (issued_of_isLive h)

theorem slot_nextId_ne (hw : a.WellFormed) (hk : a.isLive k) : a.nextId.slot ≠ k.slot := by
  intro h
  unfold nextId at h
  split at h
  case h_1 => have := slot_lt_of_isLive hk; simp at h; omega
  case h_2 s rest hf =>
    subst h
    exact hw.free_vacant _ (hf ▸ List.mem_cons_self) k.generation hk

theorem node?_alloc_of_isLive (hw : a.WellFormed) (hk : a.isLive k) :
    (a.alloc d).node? k = a.node? k := by
  rw [node?_alloc a d k hw.free_lt, if_neg (slot_nextId_ne hw hk)]

theorem data?_alloc (hw : a.WellFormed) (hk : a.isLive k) : (a.alloc d).data? k = a.data? k := by
  rw [data?, node?_alloc_of_isLive hw hk, data?]

theorem parent?_alloc (hw : a.WellFormed) (hk : a.isLive k) :
    (a.alloc d).parent? k = a.parent? k := by
  rw [parent?, node?_alloc_of_isLive hw hk, parent?]

theorem children_alloc (hw : a.WellFormed) (hk : a.isLive k) :
    (a.alloc d).children k = a.children k := by
  rw [children, node?_alloc_of_isLive hw hk, children]

theorem node?_alloc_nextId (hw : a.WellFormed) :
    (a.alloc d).node? a.nextId = some ⟨d, none, []⟩ := by
  rw [node?_alloc a d _ hw.free_lt, if_pos rfl]

theorem data?_alloc_nextId (hw : a.WellFormed) : (a.alloc d).data? a.nextId = some d := by
  rw [data?, node?_alloc_nextId hw]; rfl

theorem parent?_alloc_nextId (hw : a.WellFormed) : (a.alloc d).parent? a.nextId = none := by
  rw [parent?, node?_alloc_nextId hw]; rfl

theorem children_alloc_nextId (hw : a.WellFormed) : (a.alloc d).children a.nextId = [] := by
  rw [children, node?_alloc_nextId hw]

theorem issued_alloc (h : a.Issued k) : (a.alloc d).Issued k := by
  obtain ⟨s, hs, h⟩ := h
  unfold alloc
  split
  case h_1 =>
    have hlt : k.slot < a.slots.size := (Array.getElem?_eq_some_iff.1 hs).1
    refine ⟨s, ?_, h⟩
    rw [Array.getElem?_push, if_neg (Nat.ne_of_lt hlt), hs]
  case h_2 t rest hf =>
    by_cases ht : t = k.slot
    · refine ⟨{ s with node? := some ⟨d, none, []⟩ }, ?_, ?_⟩
      · simp [Array.getElem?_modify, ht, hs]
      · rcases h with h | ⟨h, -⟩
        · exact Or.inl h
        · exact Or.inr ⟨h, rfl⟩
    · exact ⟨s, by simp [Array.getElem?_modify, ht, hs], h⟩

/-! ### Emptying slots -/

theorem isLive_vacate_iff (hn : a.isLive n) : (a.vacate n).isLive k ↔ a.isLive k ∧ k ≠ n := by
  rw [isLive_iff]
  unfold vacate
  simp only [Array.getElem?_modify]
  by_cases h : n.slot = k.slot
  · have : a.isLive k → k = n := fun hk => eq_of_slot_eq hk hn h.symm
    cases hs : a.slots[k.slot]? with
    | none => simp only [h, if_true, Option.map_none]; simp; exact this
    | some s => simp only [h, if_true, Option.map_some]; simp; exact this
  · have : k ≠ n := fun e => h (e ▸ rfl)
    simp [h, this, isLive_iff]

theorem issued_vacate (h : a.Issued k) : (a.vacate n).Issued k := by
  obtain ⟨s, hs, h⟩ := h
  unfold vacate Issued
  by_cases hn : n.slot = k.slot
  · refine ⟨⟨s.generation + 1, none⟩, by simp [Array.getElem?_modify, hn, hs], Or.inl ?_⟩
    simp only
    omega
  · exact ⟨s, by simp [Array.getElem?_modify, hn, hs], h⟩

theorem node?_vacate_of_ne (hn : a.isLive n) (hk : a.isLive k) (hne : k ≠ n) :
    (a.vacate n).node? k = a.node? k := by
  rw [node?_vacate, if_neg fun h => hne (eq_of_slot_eq hk hn h.symm)]

theorem isLive_foldl_vacate_iff {ns : List NodeId} (hns : ∀ n ∈ ns, a.isLive n)
    (hnd : ns.Nodup) : (ns.foldl vacate a).isLive k ↔ a.isLive k ∧ k ∉ ns := by
  induction ns generalizing a with
  | nil => simp
  | cons n ns ih =>
      obtain ⟨hn, hns⟩ := List.forall_mem_cons.1 hns
      obtain ⟨hnn, hnd⟩ := List.nodup_cons.1 hnd
      rw [List.foldl_cons, ih _ hnd, isLive_vacate_iff hn]
      · simp only [List.mem_cons, not_or, and_assoc]
      · exact fun m hm => (isLive_vacate_iff hn).2 ⟨hns m hm, fun e => hnn (e ▸ hm)⟩

theorem node?_foldl_vacate {ns : List NodeId} (hns : ∀ n ∈ ns, a.isLive n) (hnd : ns.Nodup)
    (hk : a.isLive k) (hnk : k ∉ ns) : (ns.foldl vacate a).node? k = a.node? k := by
  induction ns generalizing a with
  | nil => rfl
  | cons n ns ih =>
      obtain ⟨hn, hns⟩ := List.forall_mem_cons.1 hns
      obtain ⟨hnn, hnd⟩ := List.nodup_cons.1 hnd
      rw [List.mem_cons, not_or] at hnk
      have hlive : ∀ m, a.isLive m → m ≠ n → (a.vacate n).isLive m := fun m hm hne =>
        (isLive_vacate_iff hn).2 ⟨hm, hne⟩
      rw [List.foldl_cons, ih (fun m hm => hlive m (hns m hm) fun e => hnn (e ▸ hm)) hnd
        (hlive k hk hnk.1) hnk.2]
      exact node?_vacate_of_ne hn hk hnk.1

theorem issued_foldl_vacate {ns : List NodeId} (h : a.Issued k) :
    (ns.foldl vacate a).Issued k := by
  induction ns generalizing a with
  | nil => exact h
  | cons n ns ih => exact ih (issued_vacate h)

theorem free_foldl_vacate (a : Arena α) (ns : List NodeId) :
    (ns.foldl vacate a).free = a.free ++ ns.map NodeId.slot := by
  induction ns generalizing a with
  | nil => simp
  | cons n ns ih => simp [ih, vacate]

theorem size_slots_foldl_vacate (a : Arena α) (ns : List NodeId) :
    (ns.foldl vacate a).slots.size = a.slots.size := by
  induction ns generalizing a with
  | nil => rfl
  | cons n ns ih => simp [ih, vacate]

/-! ### Taking out a subtree -/

section RemoveSubtree

variable (hw : a.WellFormed) (hn : a.isLive n)

include hw hn

/-- **With a node goes what is below it**, and nothing else. -/
theorem isLive_removeSubtree_iff :
    (a.removeSubtree n).isLive k ↔ a.isLive k ∧ ¬ a.Below n k := by
  have hpost : ∀ m ∈ a.postorder n, (a.unlink n).isLive m := fun m hm => by
    rw [isLive_unlink]; exact ((hw.mem_postorder_iff hn).1 hm).1
  rw [removeSubtree, isLive_foldl_vacate_iff hpost (hw.nodup_postorder hn), isLive_unlink,
    hw.mem_postorder_iff hn]
  exact and_congr_right fun hk => not_congr (and_iff_right hk)

theorem node?_removeSubtree (hk : a.isLive k) (hb : ¬ a.Below n k) :
    (a.removeSubtree n).node? k = (a.unlink n).node? k := by
  have hpost : ∀ m ∈ a.postorder n, (a.unlink n).isLive m := fun m hm => by
    rw [isLive_unlink]; exact ((hw.mem_postorder_iff hn).1 hm).1
  exact node?_foldl_vacate hpost (hw.nodup_postorder hn) (by simpa using hk)
    fun hm => hb ((hw.mem_postorder_iff hn).1 hm).2

theorem data?_removeSubtree (hk : a.isLive k) (hb : ¬ a.Below n k) :
    (a.removeSubtree n).data? k = a.data? k := by
  rw [data?, node?_removeSubtree hw hn hk hb, ← data?, data?_unlink]

theorem parent?_removeSubtree (hk : a.isLive k) (hb : ¬ a.Below n k) :
    (a.removeSubtree n).parent? k = a.parent? k := by
  rw [parent?, node?_removeSubtree hw hn hk hb, ← parent?, parent?_unlink hn hk,
    if_neg]
  rintro rfl
  exact hb Below.self

theorem children_removeSubtree (hk : a.isLive k) (hb : ¬ a.Below n k) :
    (a.removeSubtree n).children k = (a.children k).erase n := by
  rw [children, node?_removeSubtree hw hn hk hb, ← children_unlink hw hn hk, children]

end RemoveSubtree

theorem issued_removeSubtree (h : a.Issued k) : (a.removeSubtree n).Issued k :=
  issued_foldl_vacate (issued_unlink_iff.2 h)

end TreeScript.Arena
