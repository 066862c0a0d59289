/-
**The three orders of visiting, compared.**

Pre-order, post-order and level order visit the same nodes, each once.  They differ in what may
be relied on at a visit: in level order the parent has been visited before, in post-order what is
below the node has.

Main results:

* `TreeScript.RoseTree.postorder_perm_preorder`, `TreeScript.RoseTree.levelOrder_perm_preorder` —
  **the orders are rearrangements of each other**;
* `TreeScript.Arena.WellFormed.mem_of_postorder_split` — in post-order a node comes after the
  nodes below it;
* `TreeScript.Arena.WellFormed.parent_mem_of_levelOrder_split` — in level order a node comes
  after its parent.

A walk with a list of nodes that are still to be visited takes a node from the list and puts its
children there; `TreeScript.Arena.pending` says how many visits are left to it.
-/

import TreeScript.Proofs.Arena.WellFormed

set_option relaxedAutoImplicit false
set_option autoImplicit false

namespace TreeScript

namespace RoseTree

variable {α : Type}

mutual
/-- **Post-order rearranges pre-order.** -/
theorem postorder_perm_preorder : ∀ t : RoseTree α, t.postorder.Perm t.preorder
  | node v ts => by
    simp only [postorder, preorder]
    exact (List.perm_append_singleton v _).trans ((postorderForest_perm ts).cons v)

theorem postorderForest_perm : ∀ ts : List (RoseTree α),
    (postorderForest ts).Perm (preorderForest ts)
  | [] => List.Perm.refl _
  | t :: ts => by
    simp only [postorderForest, preorderForest]
    exact (postorder_perm_preorder t).append (postorderForest_perm ts)
end

theorem heightForest_append (ts us : List (RoseTree α)) :
    heightForest (ts ++ us) = max (heightForest ts) (heightForest us) := by
  induction ts with
  | nil => simp [heightForest]
  | cons t ts ih => simp [heightForest, ih, Nat.max_assoc]

theorem heightForest_singleton (t : RoseTree α) : heightForest [t] = t.height := Nat.max_zero _

theorem eq_nil_of_heightForest_le_zero {ts : List (RoseTree α)} (h : heightForest ts ≤ 0) :
    ts = [] := by
  cases ts with
  | nil => rfl
  | cons t ts => obtain ⟨v, us⟩ := t; simp only [heightForest, height] at h; omega

/-- The forest below the roots of a forest is lower. -/
theorem heightForest_flatMap_children_le {fuel : Nat} (ts : List (RoseTree α))
    (h : heightForest ts ≤ fuel + 1) : heightForest (ts.flatMap children) ≤ fuel := by
  induction ts with
  | nil => simp [heightForest]
  | cons t ts ih =>
      obtain ⟨v, us⟩ := t
      simp only [heightForest, height] at h
      rw [List.flatMap_cons, heightForest_append]
      have := ih (by omega)
      simp only [children_node]
      omega

/-- The roots first, and then what is below them. -/
theorem preorderForest_perm_roots (ts : List (RoseTree α)) :
    (preorderForest ts).Perm (ts.map value ++ preorderForest (ts.flatMap children)) := by
  induction ts with
  | nil => exact List.Perm.refl _
  | cons t ts ih =>
      obtain ⟨v, us⟩ := t
      simp only [preorderForest, preorder, List.map_cons, value_node, List.flatMap_cons,
        children_node, List.cons_append]
      refine List.Perm.cons v ?_
      rw [preorderForest_eq (us ++ _), List.flatMap_append, ← preorderForest_eq,
        ← preorderForest_eq]
      refine (ih.append_left _).trans ?_
      rw [← List.append_assoc, ← List.append_assoc]
      exact List.perm_append_comm.append_right _

theorem levelsF_perm : ∀ (fuel : Nat) (ts : List (RoseTree α)), heightForest ts ≤ fuel →
    (levelsF fuel ts).Perm (preorderForest ts) := by
  intro fuel
  induction fuel with
  | zero =>
      intro ts h
      obtain rfl := eq_nil_of_heightForest_le_zero h
      exact List.Perm.refl _
  | succ fuel ih =>
      intro ts h
      have hlow := heightForest_flatMap_children_le ts h
      exact ((ih _ hlow).append_left _).trans (preorderForest_perm_roots ts).symm

/-- **Level order rearranges pre-order.** -/
theorem levelOrder_perm_preorder (t : RoseTree α) : t.levelOrder.Perm t.preorder := by
  have h := levelsF_perm t.height [t] (Nat.le_of_eq (heightForest_singleton t))
  simpa [levelOrder, preorderForest] using h

/-- Level order begins at the root. -/
theorem exists_levelOrder_eq_cons (t : RoseTree α) : ∃ l, t.levelOrder = t.value :: l := by
  obtain ⟨v, ts⟩ := t
  refine ⟨levelsF (heightForest ts) ([node v ts].flatMap children), ?_⟩
  have hheight : (node v ts).height = heightForest ts + 1 := by simp only [height, Nat.add_comm]
  rw [levelOrder, hheight, levelsF]
  rfl

/-! ### Level order of a relabelled tree -/

section Map

variable {β : Type} (f : α → β)

mutual
theorem height_map : ∀ t : RoseTree α, (t.map f).height = t.height
  | node _ ts => by simp only [map, height, heightForest_map ts]

theorem heightForest_map : ∀ ts : List (RoseTree α),
    heightForest (mapForest f ts) = heightForest ts
  | [] => rfl
  | t :: ts => by simp only [mapForest, heightForest, height_map t, heightForest_map ts]
end

theorem levelsF_map (fuel : Nat) (ts : List (RoseTree α)) :
    levelsF fuel (ts.map (map f)) = (levelsF fuel ts).map f := by
  induction fuel generalizing ts with
  | zero => rfl
  | succ fuel ih =>
      have hroots : (ts.map (map f)).map value = (ts.map value).map f := by
        rw [List.map_map, List.map_map]
        refine List.map_congr_left fun t _ => ?_
        cases t
        simp
      have hbelow : (ts.map (map f)).flatMap children = (ts.flatMap children).map (map f) := by
        rw [List.flatMap_map, List.map_flatMap]
        refine List.flatMap_congr fun t _ => ?_
        cases t
        simp
      rw [levelsF, levelsF, hroots, hbelow, ih, List.map_append]

/-- Relabelling a tree relabels its level order. -/
theorem levelOrder_map (t : RoseTree α) : (t.map f).levelOrder = t.levelOrder.map f := by
  rw [levelOrder, height_map, levelOrder]
  exact levelsF_map f t.height [t]

end Map

end RoseTree

namespace Arena

variable {α : Type} {a : Arena α} {n m p x : NodeId}

namespace WellFormed

variable (hw : a.WellFormed)

include hw

/-- **The walk back up meets the nodes below the node**, each once. -/
theorem mem_postorder_iff (hn : a.isLive n) :
    m ∈ a.postorder n ↔ a.isLive m ∧ a.Below n m := by
  rw [postorder, (RoseTree.postorder_perm_preorder _).mem_iff]
  exact hw.mem_preorder_iff hn

theorem nodup_postorder (hn : a.isLive n) : (a.postorder n).Nodup :=
  (RoseTree.postorder_perm_preorder _).nodup_iff.2 (hw.nodup_preorder hn)

/-- **In post-order no node comes before one that is below it.** -/
theorem pairwise_postorder (hn : a.isLive n) :
    (a.postorder n).Pairwise fun x y => ¬ a.Below x y := by
  refine hw.children_induction
    (P := fun n => (a.postorder n).Pairwise fun x y => ¬ a.Below x y) ?_ n hn
  intro n hn ih
  rw [hw.postorder_eq hn]
  refine List.pairwise_append.2
    ⟨List.pairwise_flatMap.2 ⟨ih, ?_⟩, List.pairwise_singleton _ _, ?_⟩
  · -- what is below one child is not above anything below another
    refine (hw.nodup_children hn).imp_of_mem fun {c c'} hc hc' hne x hx y hy hxy => ?_
    have hcx := ((hw.mem_postorder_iff (hw.isLive_of_mem hn hc)).1 hx).2
    have hcy := ((hw.mem_postorder_iff (hw.isLive_of_mem hn hc')).1 hy).2
    exact hne (hw.child_unique_of_below hn hc hc' (hcx.trans hxy) hcy)
  · intro x hx y hy hxy
    obtain rfl := List.mem_singleton.1 hy
    obtain ⟨c, hc, hxc⟩ := List.mem_flatMap.1 hx
    have hlc := hw.isLive_of_mem hn hc
    exact hw.not_below_parent hlc (hw.parent?_of_mem hn hc)
      (((hw.mem_postorder_iff hlc).1 hxc).2.trans hxy)

/-- In post-order what is below a node comes before it. -/
theorem mem_of_postorder_split {l₁ l₂ : List NodeId} (hn : a.isLive n)
    (h : a.postorder n = l₁ ++ m :: l₂) (hx : a.isLive x) (hb : a.Below m x) (hne : x ≠ m) :
    x ∈ l₁ := by
  have hpw := hw.pairwise_postorder hn
  have hm : m ∈ a.postorder n := by rw [h]; simp
  have hmem : x ∈ a.postorder n :=
    (hw.mem_postorder_iff hn).2 ⟨hx, ((hw.mem_postorder_iff hn).1 hm).2.trans hb⟩
  rw [h, List.pairwise_append, List.pairwise_cons] at hpw
  rw [h] at hmem
  rcases List.mem_append.1 hmem with hmem | hmem
  · exact hmem
  · rcases List.mem_cons.1 hmem with he | hmem
    · exact absurd he hne
    · exact absurd hb (hpw.2.1.1 x hmem)

theorem mem_levelOrder_iff (hn : a.isLive n) :
    m ∈ (a.subtree n).levelOrder ↔ a.isLive m ∧ a.Below n m := by
  rw [(RoseTree.levelOrder_perm_preorder _).mem_iff]
  exact hw.mem_preorder_iff hn

theorem nodup_levelOrder (hn : a.isLive n) : (a.subtree n).levelOrder.Nodup :=
  (RoseTree.levelOrder_perm_preorder _).nodup_iff.2 (hw.nodup_preorder hn)

/-- The forest below the roots of a forest of subtrees. -/
theorem flatMap_children_subtree {ns : List NodeId} (h : ∀ n ∈ ns, a.isLive n) :
    (ns.map a.subtree).flatMap RoseTree.children = (ns.flatMap a.children).map a.subtree := by
  rw [List.flatMap_map, List.map_flatMap]
  refine List.flatMap_congr fun n hn => ?_
  rw [hw.subtree_eq (h n hn), RoseTree.children_node]

/-- **A level, and then what is below it.** -/
theorem levelsF_succ {fuel : Nat} {ns : List NodeId} (h : ∀ n ∈ ns, a.isLive n) :
    RoseTree.levelsF (fuel + 1) (ns.map a.subtree) =
      ns ++ RoseTree.levelsF fuel ((ns.flatMap a.children).map a.subtree) := by
  rw [RoseTree.levelsF, hw.flatMap_children_subtree h, List.map_map]
  simp [Function.comp_def]

/-- The levels below the first one are one fewer. -/
theorem heightForest_flatMap_children_le {fuel : Nat} {ns : List NodeId}
    (h : ∀ n ∈ ns, a.isLive n) (hfuel : RoseTree.heightForest (ns.map a.subtree) ≤ fuel + 1) :
    RoseTree.heightForest ((ns.flatMap a.children).map a.subtree) ≤ fuel := by
  rw [← hw.flatMap_children_subtree h]
  exact RoseTree.heightForest_flatMap_children_le _ hfuel

/-- The children of nodes that are up to date are up to date. -/
theorem isLive_of_mem_flatMap_children {ns : List NodeId} (h : ∀ n ∈ ns, a.isLive n) :
    ∀ c ∈ ns.flatMap a.children, a.isLive c := by
  intro c hc
  obtain ⟨n, hn, hc⟩ := List.mem_flatMap.1 hc
  exact hw.isLive_of_mem (h n hn) hc

theorem parent_mem_of_levelsF_split : ∀ (fuel : Nat) {ns l₁ l₂ : List NodeId},
    (∀ n ∈ ns, a.isLive n) → RoseTree.levelsF fuel (ns.map a.subtree) = l₁ ++ x :: l₂ →
    x ∈ ns ∨ ∃ p ∈ l₁, a.parent? x = some p := by
  intro fuel
  induction fuel with
  | zero => intro ns l₁ l₂ _ h; simp [RoseTree.levelsF] at h
  | succ fuel ih =>
      intro ns l₁ l₂ hns h
      rw [hw.levelsF_succ hns] at h
      have hch := hw.isLive_of_mem_flatMap_children hns
      have hroot : x ∈ ns.flatMap a.children → ∃ p ∈ ns, a.parent? x = some p := by
        intro hx
        obtain ⟨p, hp, hxp⟩ := List.mem_flatMap.1 hx
        exact ⟨p, hp, hw.parent?_of_mem (hns p hp) hxp⟩
      rcases List.append_eq_append_iff.1 h with ⟨l, rfl, hl⟩ | ⟨l, he, hl⟩
      · -- `x` stands below the first level
        rcases ih hch hl with hx | ⟨p, hp, hxp⟩
        · obtain ⟨p, hp, hxp⟩ := hroot hx
          exact Or.inr ⟨p, List.mem_append_left _ hp, hxp⟩
        · exact Or.inr ⟨p, List.mem_append_right _ hp, hxp⟩
      · -- `x` stands on the first level, or right after it
        cases l with
        | nil =>
            have hl' : _ = [] ++ x :: l₂ := hl.symm
            rcases ih hch hl' with hx | ⟨p, hp, -⟩
            · obtain ⟨p, hp, hxp⟩ := hroot hx
              exact Or.inr ⟨p, by simpa [he] using hp, hxp⟩
            · simp at hp
        | cons y l =>
            obtain rfl : x = y := (List.cons.inj hl).1
            exact Or.inl (by simp [he])

/-- **In level order a node comes after its parent.** -/
theorem parent_mem_of_levelOrder_split {l₁ l₂ : List NodeId} (hn : a.isLive n)
    (h : (a.subtree n).levelOrder = l₁ ++ x :: l₂) (hne : x ≠ n) :
    ∃ p ∈ l₁, a.parent? x = some p := by
  have h' : RoseTree.levelsF (a.subtree n).height ([n].map a.subtree) = l₁ ++ x :: l₂ := h
  rcases hw.parent_mem_of_levelsF_split _ (by simpa using hn) h' with hx | hx
  · exact absurd (List.mem_singleton.1 hx) hne
  · exact hx

end WellFormed

/-! ### Visits that are left -/

/-- The number of nodes in the subtrees at the nodes of a list. -/
def pending (a : Arena α) (ns : List NodeId) : Nat := (ns.flatMap a.preorder).length

@[simp] theorem pending_nil : a.pending [] = 0 := rfl

@[simp] theorem pending_append (ns ms : List NodeId) :
    a.pending (ns ++ ms) = a.pending ns + a.pending ms := by
  simp [pending]

@[simp] theorem pending_reverse (ns : List NodeId) : a.pending ns.reverse = a.pending ns := by
  simp [pending, List.length_flatMap, List.sum_reverse, List.map_reverse]

namespace WellFormed

variable {ns : List NodeId} (hw : a.WellFormed)

include hw

theorem length_preorder (hn : a.isLive n) :
    (a.preorder n).length = a.pending (a.children n) + 1 := by
  rw [hw.preorder_eq hn, List.length_cons, pending]

/-- **A visit leaves one visit less**, with the children of the node in its place. -/
theorem pending_cons (hn : a.isLive n) :
    a.pending (n :: ns) = a.pending (a.children n) + a.pending ns + 1 := by
  have h := hw.length_preorder hn
  simp only [pending, List.flatMap_cons, List.length_append] at h ⊢
  omega

end WellFormed

end Arena

end TreeScript
