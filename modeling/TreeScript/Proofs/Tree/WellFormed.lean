/-
**Well-formed trees.**

A tree is well formed if its arena is and has the root of the tree as its only root.  Then every
node that is up to date is below the root, reading it does not fail, and the subtree at it can be
written down as a rose tree.

Main definitions:

* `TreeScript.Tree.WellFormed`;
* `TreeScript.Tree.route` — the child indices that lead from the root to a node.

Main results:

* `TreeScript.Tree.data?_of_mem_view` — a view shows what the nodes carry;
* `TreeScript.Tree.WellFormed.contains_iff` — **a tree contains the nodes that are up to date**;
* `TreeScript.Tree.WellFormed.view_eq` — a view, step by step, and
  `TreeScript.Tree.WellFormed.exists_view` — **every node has a view, which depicts it**;
* `TreeScript.Tree.WellFormed.route_of_parent?` — the path to a node goes on from the path to its
  parent.
-/

import TreeScript.Proofs.Arena.Matching
import TreeScript.Proofs.Arena.Orders
import TreeScript.Proofs.Arena.Rooted
import TreeScript.Proofs.Results
import TreeScript.Tree.Compare

set_option relaxedAutoImplicit false
set_option autoImplicit false

namespace TreeScript

/-! ### Lists made element by element -/

/-- If each element is related to something, the list is related to a list. -/
theorem exists_forall₂ {σ τ : Type} {R : σ → τ → Prop} {l : List σ} (h : ∀ x ∈ l, ∃ y, R x y) :
    ∃ l', List.Forall₂ R l l' := by
  induction l with
  | nil => exact ⟨[], List.Forall₂.nil⟩
  | cons x l ih =>
      obtain ⟨⟨y, hy⟩, hl⟩ := List.forall_mem_cons.1 h
      obtain ⟨l', hl'⟩ := ih hl
      exact ⟨y :: l', List.Forall₂.cons hy hl'⟩

namespace RoseTree

variable {α β ε : Type} {f : α → Except ε β}

@[simp] theorem value_map (g : α → β) (t : RoseTree α) : (t.map g).value = g t.value := by
  cases t; simp

theorem traverseForest_eq_ok {ts : List (RoseTree α)} {us : List (RoseTree β)}
    (h : List.Forall₂ (fun t u => t.traverse f = .ok u) ts us) :
    traverseForest f ts = .ok us := by
  induction h with
  | nil => rfl
  | cons ht _ ih => rw [traverseForest, ht, ih]; rfl

/-- Relabelling does not fail where it fails nowhere. -/
theorem traverse_node_eq_ok {v : α} {w : β} {ts : List (RoseTree α)} {us : List (RoseTree β)}
    (hv : f v = .ok w) (h : List.Forall₂ (fun t u => t.traverse f = .ok u) ts us) :
    (node v ts).traverse f = .ok (node w us) := by
  rw [traverse, hv, traverseForest_eq_ok h]; rfl

mutual
/-- Every value of a relabelled tree is the image of one that was there. -/
theorem exists_mem_of_traverse (t : RoseTree α) {u : RoseTree β} (h : t.traverse f = .ok u) :
    ∀ y ∈ u.preorder, ∃ x ∈ t.preorder, f x = .ok y := by
  match t with
  | .node v ts =>
    rw [traverse, bind_eq_ok] at h
    obtain ⟨w, hw, h⟩ := h
    obtain ⟨us, hus, h⟩ := bind_eq_ok.1 h
    obtain rfl := pure_eq_ok.1 h
    intro y hy
    rcases List.mem_cons.1 hy with rfl | hy
    · exact ⟨v, List.mem_cons_self, hw⟩
    · obtain ⟨x, hx, hxy⟩ := exists_mem_of_traverseForest ts hus y hy
      exact ⟨x, List.mem_cons_of_mem _ hx, hxy⟩

theorem exists_mem_of_traverseForest (ts : List (RoseTree α)) {us : List (RoseTree β)}
    (h : traverseForest f ts = .ok us) :
    ∀ y ∈ preorderForest us, ∃ x ∈ preorderForest ts, f x = .ok y := by
  match ts with
  | [] =>
    obtain rfl := pure_eq_ok.1 h
    intro y hy
    cases hy
  | t :: ts =>
    rw [traverseForest, bind_eq_ok] at h
    obtain ⟨u, hu, h⟩ := h
    obtain ⟨us, hus, h⟩ := bind_eq_ok.1 h
    obtain rfl := pure_eq_ok.1 h
    intro y hy
    rcases List.mem_append.1 hy with hy | hy
    · obtain ⟨x, hx, hxy⟩ := exists_mem_of_traverse t hu y hy
      exact ⟨x, List.mem_append_left _ hx, hxy⟩
    · obtain ⟨x, hx, hxy⟩ := exists_mem_of_traverseForest ts hus y hy
      exact ⟨x, List.mem_append_right _ hx, hxy⟩
end

end RoseTree

namespace Tree

variable {t : Tree} {n m p c : NodeId} {d : NodeData}

/-- A tree whose links are in order, with one root. -/
structure WellFormed (t : Tree) : Prop where
  arena : t.arena.WellFormed
  rooted : t.arena.Rooted (some t.root)

/-! ### One node -/

theorem data_eq_ok (h : t.arena.data? n = some d) : t.data n = .ok d := by
  rw [data, h]

theorem data_eq_ok_iff : t.data n = .ok d ↔ t.arena.data? n = some d := by
  unfold data
  split
  case h_1 h => rw [h, Except.ok.injEq, Option.some_inj]
  case h_2 h => simp [h]

theorem label_eq_ok (h : t.arena.data? n = some d) : t.label n = .ok d.label := by
  rw [label, data_eq_ok h]; rfl

theorem kind_eq_ok (h : t.arena.data? n = some d) : t.kind n = .ok d.kind := by
  rw [kind, data_eq_ok h]; rfl

theorem reading_eq_ok {β : Type} (h : t.arena.isLive n) (x : β) : t.reading n x = .ok x := by
  rw [reading, if_pos (Arena.hasSlot_of_isLive h)]

theorem descendants_eq_ok (hn : t.arena.isLive n) :
    t.descendants n = .ok (t.arena.preorder n) := by
  rw [descendants, reading_eq_ok hn, Arena.later_eq_nil hn]
  simp

theorem size_eq_ok (hn : t.arena.isLive n) : t.size n = .ok (t.arena.preorder n).length := by
  rw [size, descendants_eq_ok hn]
  rfl

/-- A view shows what the nodes carry, also from an identity that is out of date. -/
theorem data?_of_mem_view {v : RoseTree (NodeId × NodeData)}
    (h : t.view n = .ok v) {e : NodeId × NodeData} (he : e ∈ v.preorder) :
    t.arena.data? e.1 = some e.2 := by
  obtain ⟨x, -, hx⟩ := RoseTree.exists_mem_of_traverse _ h e he
  rw [entry, bind_eq_ok] at hx
  obtain ⟨d, hd, hx⟩ := hx
  obtain rfl := pure_eq_ok.1 hx
  exact data_eq_ok_iff.1 hd

theorem depth_eq_ok (hn : t.arena.isLive n) :
    t.depth n = .ok ((t.arena.ancestors n).length - 1) := by
  rw [depth, ancestors, reading_eq_ok hn, ← List.length_drop]
  rfl

namespace WellFormed

variable (ht : t.WellFormed)

include ht

theorem isLive_root : t.arena.isLive t.root := ht.rooted.isLive rfl

theorem parent?_root : t.arena.parent? t.root = none := ht.rooted.parent?_root

/-- **A tree contains the nodes that are up to date.** -/
theorem contains_iff : t.contains n ↔ t.arena.isLive n := by
  unfold contains
  rw [Bool.and_eq_true, beq_iff_eq]
  refine and_iff_left_of_imp fun hn => ?_
  have hg := ht.arena.grounded hn
  induction hg with
  | top hp =>
      rw [ht.arena.ancestors_of_none hn hp, (ht.rooted.parent?_eq_none_iff hn).1 hp]
      rfl
  | step hp _ ih =>
      have ih := ih (ht.arena.isLive_of_parent? hn hp)
      rw [ht.arena.ancestors_of_some hn hp, List.getLast?_cons, ih]
      rfl

/-- The walk over all nodes meets the nodes that are up to date. -/
theorem mem_preorder_iff : n ∈ t.preorder ↔ t.arena.isLive n := by
  rw [Tree.preorder, ht.arena.mem_preorder_iff ht.isLive_root]
  exact and_iff_left_of_imp fun hn => ht.rooted.below ht.arena hn

/-- So does the walk level by level, -/
theorem mem_iter_iff : n ∈ t.iter ↔ t.arena.isLive n := by
  rw [iter, ht.arena.mem_levelOrder_iff ht.isLive_root]
  exact and_iff_left_of_imp fun hn => ht.rooted.below ht.arena hn

/-- and it meets each of them once. -/
theorem nodup_iter : t.iter.Nodup := ht.arena.nodup_levelOrder ht.isLive_root

/-- An induction along the way down from the root. -/
theorem induction_from_root {P : NodeId → Prop} (root : P t.root)
    (step : ∀ p c, t.arena.isLive p → t.arena.isLive c → t.arena.parent? c = some p → P p → P c)
    (hn : t.arena.isLive n) : P n := by
  have hb := ht.rooted.below ht.arena hn
  induction hb with
  | self => exact root
  | step hp _ ih =>
      have hlp := ht.arena.isLive_of_parent? hn hp
      exact step _ _ hlp hn hp (ih hlp)

/-! ### Views -/

/-- **The view of a node is made of the views of its children.** -/
theorem view_eq (hn : t.arena.isLive n) (hd : t.arena.data? n = some d)
    {vs : List (RoseTree (NodeId × NodeData))}
    (hvs : List.Forall₂ (fun c v => t.view c = .ok v) (t.arena.children n) vs) :
    t.view n = .ok (.node (n, d) vs) := by
  rw [view, ht.arena.subtree_eq hn]
  refine RoseTree.traverse_node_eq_ok ?_ (List.forall₂_map_left_iff.2 hvs)
  rw [entry, data_eq_ok hd]; rfl

/-- **Every node has a view, which depicts the nodes below it.** -/
theorem exists_view (hn : t.arena.isLive n) : ∃ v, t.view n = .ok v ∧
    Depicts t.arena.children t.arena.data? v ∧ v.map Prod.fst = t.arena.subtree n := by
  refine ht.arena.children_induction (P := fun n => ∃ v, t.view n = .ok v ∧
    Depicts t.arena.children t.arena.data? v ∧ v.map Prod.fst = t.arena.subtree n) ?_ n hn
  intro n hn ih
  obtain ⟨d, hd⟩ := Arena.exists_data?_of_isLive hn
  obtain ⟨vs, hvs⟩ := exists_forall₂ ih
  have hmap : vs.map (RoseTree.map Prod.fst) = (t.arena.children n).map t.arena.subtree :=
    List.forall₂_eq_eq_eq ▸ List.forall₂_map_left_iff.2
      (List.forall₂_map_right_iff.2 (hvs.flip.imp fun _ _ h => h.2.2))
  refine ⟨_, ht.view_eq hn hd (hvs.imp fun _ _ h => h.1), Depicts.node hd ?_ ?_, ?_⟩
  · -- the root of each view is the child that it is the view of
    have hval := congrArg (List.map RoseTree.value) hmap
    simpa [Function.comp_def] using hval.symm
  · intro v hv
    obtain ⟨c, -, hc⟩ := exists_left_of_forall₂ hvs hv
    exact hc.2.1
  · rw [RoseTree.map_node, hmap, ht.arena.subtree_eq hn]

/-- Whoever has the view of a node has a depiction of the nodes below it. -/
theorem depicts_of_view (hn : t.arena.isLive n) {v : RoseTree (NodeId × NodeData)}
    (hv : t.view n = .ok v) :
    Depicts t.arena.children t.arena.data? v ∧ v.map Prod.fst = t.arena.subtree n := by
  obtain ⟨v', hv', h⟩ := ht.exists_view hn
  obtain rfl := Except.ok.inj (hv.symm.trans hv')
  exact h

/-! ### Paths -/

end WellFormed

/-- The child indices that lead from the root to `n`. -/
def route (t : Tree) (n : NodeId) : List UInt32 :=
  (((t.arena.ancestors n).takeWhile (· != t.root)).map fun m => (t.position m).toUInt32).reverse

theorem pathOf_eq_ok (hn : t.arena.isLive n) : t.pathOf n = .ok ⟨t.route n⟩ :=
  reading_eq_ok hn _

namespace WellFormed

variable (ht : t.WellFormed)

include ht

theorem route_root : t.route t.root = [] := by
  rw [route, ht.arena.ancestors_of_none ht.isLive_root ht.parent?_root]
  simp

theorem ne_root_of_parent? (hp : t.arena.parent? c = some p) : c ≠ t.root := by
  rintro rfl
  rw [ht.parent?_root] at hp
  cases hp

/-- **The path to a node is the path to its parent and one index more.** -/
theorem route_of_parent? (hc : t.arena.isLive c) (hp : t.arena.parent? c = some p) :
    t.route c = t.route p ++ [(t.position c).toUInt32] := by
  have hne : c ≠ t.root := ht.ne_root_of_parent? hp
  rw [route, ht.arena.ancestors_of_some hc hp, List.takeWhile_cons, if_pos (by simpa using hne),
    List.map_cons, List.reverse_cons, route]

end WellFormed

end Tree

end TreeScript
