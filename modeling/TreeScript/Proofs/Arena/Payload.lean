/-
**Arenas with other payloads.**

No operation on an arena looks at a payload, apart from handing it on.  Exchanging the payloads of
all nodes therefore changes no link, and it makes no difference whether they are exchanged before
an operation or after it.

Main definitions:

* `TreeScript.Arena.mapData` — **the arena with other payloads**.

Main results:

* `TreeScript.Arena.node?_mapData`, `TreeScript.Arena.subtree_mapData` — it is read alike;
* `TreeScript.Arena.attach_mapData`, `TreeScript.Arena.removeSubtree_mapData`,
  `TreeScript.Arena.removeAlone_mapData`, `TreeScript.Arena.plant_mapData` — **it is changed
  alike**.
-/

import TreeScript.Arena.Edit

set_option relaxedAutoImplicit false
set_option autoImplicit false

namespace TreeScript

variable {α β κ μ : Type}

namespace RoseTree

variable (f : α → β) (g : β → μ)

mutual
/-- A tree relabelled twice. -/
theorem map_map : ∀ t : RoseTree α, (t.map f).map g = t.map (g ∘ f)
  | node _ ts => by simp only [map, mapForest_mapForest ts, Function.comp_apply]

theorem mapForest_mapForest : ∀ ts : List (RoseTree α),
    mapForest g (mapForest f ts) = mapForest (g ∘ f) ts
  | [] => rfl
  | t :: ts => by simp only [mapForest, map_map t, mapForest_mapForest ts]
end

end RoseTree

/-- The node with another payload. -/
def Node.mapData (f : α → β) (n : Node α) : Node β := ⟨f n.data, n.parent, n.children⟩

/-- The slot with another payload in it. -/
def Slot.mapData (f : α → β) (s : Slot α) : Slot β := ⟨s.generation, s.node?.map (Node.mapData f)⟩

namespace Arena

/-- **The arena with other payloads.** -/
def mapData (f : α → β) (a : Arena α) : Arena β := ⟨a.slots.map (Slot.mapData f), a.free⟩

variable (f : α → β) (a : Arena α) (n p : NodeId)

/-! ### Reading -/

theorem getElem?_slots_mapData (i : Nat) :
    (a.mapData f).slots[i]? = a.slots[i]?.map (Slot.mapData f) := Array.getElem?_map

@[simp] theorem size_slots_mapData : (a.mapData f).slots.size = a.slots.size := Array.size_map

@[simp] theorem free_mapData : (a.mapData f).free = a.free := rfl

@[simp] theorem mapData_empty : (empty : Arena α).mapData f = empty := by
  simp [mapData, empty]

@[simp] theorem hasSlot_mapData : (a.mapData f).hasSlot n = a.hasSlot n := by
  simp [hasSlot]

theorem node?_mapData : (a.mapData f).node? n = (a.node? n).map (Node.mapData f) := by
  rw [node?, getElem?_slots_mapData, node?]
  cases a.slots[n.slot]? <;> rfl

@[simp] theorem data?_mapData : (a.mapData f).data? n = (a.data? n).map f := by
  rw [data?, node?_mapData, data?]
  cases a.node? n <;> rfl

@[simp] theorem parent?_mapData : (a.mapData f).parent? n = a.parent? n := by
  rw [parent?, node?_mapData, parent?]
  cases a.node? n <;> rfl

@[simp] theorem children_mapData : (a.mapData f).children n = a.children n := by
  rw [children, node?_mapData, children]
  cases a.node? n <;> rfl

@[simp] theorem isLive_mapData : (a.mapData f).isLive n = a.isLive n := by
  rw [isLive, getElem?_slots_mapData, isLive]
  cases a.slots[n.slot]? with
  | none => rfl
  | some s => simp [Slot.mapData]

@[simp] theorem position_mapData : (a.mapData f).position n = a.position n := by
  simp only [position, isLive_mapData, parent?_mapData, children_mapData]

@[simp] theorem nextId_mapData : (a.mapData f).nextId = a.nextId := by
  unfold nextId
  rw [free_mapData, size_slots_mapData]
  split
  · rfl
  · rw [getElem?_slots_mapData, Option.map_map]
    rfl

@[simp] theorem ancestors_mapData : (a.mapData f).ancestors n = a.ancestors n := by
  have key : ∀ fuel n, (a.mapData f).ancestorsF fuel n = a.ancestorsF fuel n := by
    intro fuel
    induction fuel with
    | zero => exact fun _ => rfl
    | succ fuel ih =>
        intro n
        simp only [ancestorsF, parent?_mapData, ih]
  rw [ancestors, key, size_slots_mapData, ancestors]

@[simp] theorem subtree_mapData : (a.mapData f).subtree n = a.subtree n := by
  have key : ∀ fuel n, (a.mapData f).subtreeF fuel n = a.subtreeF fuel n := by
    intro fuel
    induction fuel with
    | zero => exact fun _ => rfl
    | succ fuel ih =>
        intro n
        rw [subtreeF_succ, subtreeF_succ, children_mapData, funext ih]
  rw [subtree, key, size_slots_mapData, subtree]

@[simp] theorem postorder_mapData : (a.mapData f).postorder n = a.postorder n := by
  rw [postorder, subtree_mapData, postorder]

/-! ### Primitives -/

/-- A change of one entry, and an exchange of all entries. -/
theorem map_modify {σ τ : Type} (xs : Array σ) (i : Nat) {f : σ → τ} {g : σ → σ} {g' : τ → τ}
    (h : ∀ x, f (g x) = g' (f x)) : (xs.map f).modify i g' = (xs.modify i g).map f := by
  refine Array.ext_getElem? fun j => ?_
  simp only [Array.getElem?_modify, Array.getElem?_map]
  split
  · cases xs[j]? with
    | none => rfl
    | some x => exact congrArg some (h x).symm
  · rfl

theorem modify_mapData {g : Node α → Node α} {g' : Node β → Node β}
    (h : ∀ node, (g node).mapData f = g' (node.mapData f)) :
    (a.mapData f).modify n g' = (a.modify n g).mapData f := by
  unfold modify mapData
  rw [map_modify a.slots n.slot fun s => ?_]
  cases hs : s.node? with
  | none => simp [Slot.mapData, hs]
  | some node => simp [Slot.mapData, hs, h]

theorem setData_mapData {g : α → α} {g' : β → β} (h : ∀ d, f (g d) = g' (f d)) :
    (a.mapData f).setData n g' = (a.setData n g).mapData f :=
  modify_mapData f a n fun node => by simp [Node.mapData, h]

theorem mapChildren_mapData (g : List NodeId → List NodeId) :
    (a.mapData f).mapChildren p g = (a.mapChildren p g).mapData f :=
  modify_mapData f a p fun _ => rfl

theorem setParent_mapData (q : Option NodeId) :
    (a.mapData f).setParent n q = (a.setParent n q).mapData f :=
  modify_mapData f a n fun _ => rfl

theorem alloc_mapData (d : α) : (a.mapData f).alloc (f d) = (a.alloc d).mapData f := by
  unfold alloc
  rw [free_mapData]
  split
  · simp [mapData, Slot.mapData, Node.mapData]
  · unfold mapData
    rw [map_modify a.slots _ fun slot => ?_]
    rfl

theorem vacate_mapData : (a.mapData f).vacate n = (a.vacate n).mapData f := by
  unfold vacate mapData
  rw [map_modify a.slots n.slot fun s => ?_]
  rfl

/-! ### Links -/

theorem unlink_mapData : (a.mapData f).unlink n = (a.unlink n).mapData f := by
  unfold unlink
  rw [parent?_mapData]
  split
  · rw [mapChildren_mapData, setParent_mapData]
  · rfl

theorem link_mapData (i : Nat) : (a.mapData f).link p i n = (a.link p i n).mapData f := by
  have hunder : (a.mapData f).linkUnder p i = a.linkUnder p i := by
    simp only [linkUnder, children_mapData, parent?_mapData]
  rw [link, hunder, mapChildren_mapData, setParent_mapData, link]

theorem attach_mapData (i : Nat) :
    (a.mapData f).attach p i n = (a.attach p i n).map (mapData f) := by
  unfold attach
  simp only [hasSlot_mapData, isLive_mapData, children_mapData, ancestors_mapData, link_mapData]
  split
  · rfl
  · split
    · rfl
    · split <;> rfl

/-! ### Whole subtrees -/

theorem foldl_vacate_mapData (ns : List NodeId) :
    ns.foldl vacate (a.mapData f) = (ns.foldl vacate a).mapData f := by
  induction ns generalizing a with
  | nil => rfl
  | cons k ns ih => rw [List.foldl_cons, vacate_mapData, ih, List.foldl_cons]

theorem removeSubtree_mapData : (a.mapData f).removeSubtree n = (a.removeSubtree n).mapData f := by
  rw [removeSubtree, postorder_mapData, unlink_mapData, foldl_vacate_mapData, removeSubtree]

theorem foldl_setParent_mapData (ns : List NodeId) (q : Option NodeId) :
    ns.foldl (fun b c => b.setParent c q) (a.mapData f) =
      (ns.foldl (fun b c => b.setParent c q) a).mapData f := by
  induction ns generalizing a with
  | nil => rfl
  | cons k ns ih => rw [List.foldl_cons, setParent_mapData, ih, List.foldl_cons]

theorem removeAlone_mapData : (a.mapData f).removeAlone n = (a.removeAlone n).mapData f := by
  unfold removeAlone
  rw [parent?_mapData, children_mapData]
  cases a.parent? n with
  | none => exact (congrArg (vacate · n) (foldl_setParent_mapData ..)).trans (vacate_mapData ..)
  | some p =>
      simp only [mapChildren_mapData]
      exact (congrArg (vacate · n) (foldl_setParent_mapData ..)).trans (vacate_mapData ..)

theorem sprout_mapData (under : Option NodeId) (d : α) :
    (a.mapData f).sprout under (f d) = (a.sprout under d).mapData f := by
  unfold sprout
  simp only [alloc_mapData, nextId_mapData]
  split
  · rw [children_mapData, link_mapData]
  · rfl

mutual
/-- **A rose tree with other keys and payloads is planted alike.** -/
theorem plant_mapData (g : κ → μ) (t : RoseTree (κ × α)) (a : Arena α) (under : Option NodeId) :
    (a.mapData f).plant under (t.map (Prod.map g f)) =
      ((a.plant under t).1.mapData f, (a.plant under t).2.map (Prod.map g id)) := by
  match t with
  | .node (key, d) ts =>
    rw [RoseTree.map, plant, Prod.map_apply, sprout_mapData, nextId_mapData,
      plantForest_mapData g ts]
    rfl

theorem plantForest_mapData (g : κ → μ) (ts : List (RoseTree (κ × α))) (a : Arena α) (p : NodeId) :
    (a.mapData f).plantForest p (RoseTree.mapForest (Prod.map g f) ts) =
      ((a.plantForest p ts).1.mapData f, (a.plantForest p ts).2.map (Prod.map g id)) := by
  match ts with
  | [] => rfl
  | t :: ts =>
    simp only [RoseTree.mapForest, plantForest, plant_mapData g t, plantForest_mapData g ts,
      List.map_append]
end

end Arena

end TreeScript
