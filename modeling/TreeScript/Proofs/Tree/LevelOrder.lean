/-
**Level order.**

The nodes of a tree are visited level by level with a queue: the node at the front is visited and
its children go to the back.  While one level is visited the next one gathers behind it, so that the
queue holds the rest of a level and the beginning of the next.  What comes of it is pre-order, put
into order by depth.

Main definitions:

* `TreeScript.Tree.queueF` — visiting with a queue;
* `TreeScript.Tree.LevelOrdered` — **the nodes of a tree, level by level**.

Main results:

* `TreeScript.Arena.WellFormed.levelsF_eq_append_flatMap` — after the first nodes level order lists
  the children of the nodes on it, one after the other;
* `TreeScript.Arena.Level.filter_levelsF` — on each level the nodes are in pre-order;
* `TreeScript.Tree.queueF_append` — **the queue goes over from one level to the next**;
* `TreeScript.Tree.Built.iter_levelOrdered` — **the queue runs empty, and the nodes have been visited
  in level order**.
-/

import TreeScript.Proofs.Tree.Built
import TreeScript.Proofs.Tree.ChildLists

set_option relaxedAutoImplicit false
set_option autoImplicit false

namespace TreeScript

/-! ### Levels of an arena -/

namespace Arena

variable {α : Type} {a : Arena α} {n m p : NodeId} {ns : List NodeId} {d k fuel : Nat}

/-- All nodes of the list are up to date, and there are `d` nodes on the way up from each. -/
def Level (a : Arena α) (d : Nat) (ns : List NodeId) : Prop :=
  ∀ n ∈ ns, a.isLive n ∧ (a.ancestors n).length = d

/-- The children of a level are one level further down. -/
theorem Level.below (hw : a.WellFormed) (h : a.Level d ns) :
    a.Level (d + 1) (ns.flatMap a.children) := by
  intro c hc
  obtain ⟨n, hn, hc⟩ := List.mem_flatMap.1 hc
  obtain ⟨hl, hd⟩ := h n hn
  exact ⟨hw.isLive_of_mem hl hc, by rw [hw.length_ancestors_of_mem hl hc, hd]⟩

theorem Level.isLive (h : a.Level d ns) : ∀ n ∈ ns, a.isLive n := fun n hn => (h n hn).1

/-- Nothing that is listed below a level is above it. -/
theorem Level.le_of_mem_levelsF (hw : a.WellFormed) (h : a.Level d ns)
    (hm : m ∈ RoseTree.levelsF fuel (ns.map a.subtree)) : d ≤ (a.ancestors m).length := by
  induction fuel generalizing d ns with
  | zero => simp [RoseTree.levelsF] at hm
  | succ fuel ih =>
      rw [hw.levelsF_succ h.isLive] at hm
      rcases List.mem_append.1 hm with hm | hm
      · exact (h m hm).2.ge
      · exact Nat.le_of_succ_le (ih (h.below hw) hm)

/-- **Level order is in order of depth.** -/
theorem Level.pairwise_levelsF (hw : a.WellFormed) (h : a.Level d ns) :
    (RoseTree.levelsF fuel (ns.map a.subtree)).Pairwise
      fun x y => (a.ancestors x).length ≤ (a.ancestors y).length := by
  induction fuel generalizing d ns with
  | zero => exact List.Pairwise.nil
  | succ fuel ih =>
      rw [hw.levelsF_succ h.isLive]
      refine List.pairwise_append.2 ⟨?_, ih (h.below hw), ?_⟩
      · exact List.pairwise_of_forall_mem_list fun x hx y hy => ((h x hx).2.trans (h y hy).2.symm).le
      · intro x hx y hy
        rw [(h x hx).2]
        exact Nat.le_of_succ_le ((h.below hw).le_of_mem_levelsF hw hy)

/-- Below the first nodes of a walk there are only deeper ones, -/
theorem Level.filter_preorder_zero (hw : a.WellFormed) (h : a.Level d ns) :
    (ns.flatMap a.preorder).filter (fun m => (a.ancestors m).length == d) = ns := by
  rw [List.filter_flatMap]
  refine (List.flatMap_congr fun n hn => ?_).trans (List.flatMap_singleton' ns)
  obtain ⟨hl, hd⟩ := h n hn
  rw [hw.preorder_eq hl, List.filter_cons_of_pos (by simpa using hd), List.cons.injEq,
    List.filter_eq_nil_iff]
  refine ⟨rfl, fun m hm => ?_⟩
  obtain ⟨c, hc, hm⟩ := List.mem_flatMap.1 hm
  obtain ⟨hlm, hcm⟩ := (hw.mem_preorder_iff (hw.isLive_of_mem hl hc)).1 hm
  have hle := hw.length_ancestors_le_of_below hlm hcm
  rw [hw.length_ancestors_of_mem hl hc, hd] at hle
  simpa using Nat.ne_of_gt hle

/-- and the deeper ones are those below the children. -/
theorem Level.filter_preorder_succ (hw : a.WellFormed) (h : a.Level d ns) :
    (ns.flatMap a.preorder).filter (fun m => (a.ancestors m).length == d + (k + 1)) =
      ((ns.flatMap a.children).flatMap a.preorder).filter
        fun m => (a.ancestors m).length == d + 1 + k := by
  rw [List.flatMap_assoc, List.filter_flatMap, List.filter_flatMap]
  refine List.flatMap_congr fun n hn => ?_
  obtain ⟨hl, hd⟩ := h n hn
  rw [hw.preorder_eq hl, List.filter_cons_of_neg (by simp [hd]), Nat.add_assoc, Nat.add_comm 1]

/-- **On each level the nodes are in pre-order.** -/
theorem Level.filter_levelsF (hw : a.WellFormed) (h : a.Level d ns)
    (hfuel : RoseTree.heightForest (ns.map a.subtree) ≤ fuel) :
    (RoseTree.levelsF fuel (ns.map a.subtree)).filter (fun m => (a.ancestors m).length == d + k) =
      (ns.flatMap a.preorder).filter fun m => (a.ancestors m).length == d + k := by
  induction fuel generalizing d k ns with
  | zero =>
      obtain rfl := List.map_eq_nil_iff.1 (RoseTree.eq_nil_of_heightForest_le_zero hfuel)
      rfl
  | succ fuel ih =>
      have hlow := hw.heightForest_flatMap_children_le h.isLive hfuel
      rw [hw.levelsF_succ h.isLive, List.filter_append]
      cases k with
      | zero =>
          have hns : ns.filter (fun m => (a.ancestors m).length == d + 0) = ns :=
            List.filter_eq_self.2 fun n hn => by simpa using (h n hn).2
          have hrest : (RoseTree.levelsF fuel ((ns.flatMap a.children).map a.subtree)).filter
              (fun m => (a.ancestors m).length == d + 0) = [] :=
            List.filter_eq_nil_iff.2 fun m hm => by
              simpa using Nat.ne_of_gt ((h.below hw).le_of_mem_levelsF hw hm)
          rw [hns, hrest, List.append_nil]
          exact (h.filter_preorder_zero hw).symm
      | succ k =>
          have hns : ns.filter (fun m => (a.ancestors m).length == d + (k + 1)) = [] :=
            List.filter_eq_nil_iff.2 fun n hn => by simp [(h n hn).2]
          rw [hns, List.nil_append, h.filter_preorder_succ hw, ← ih (h.below hw) hlow,
            Nat.add_assoc, Nat.add_comm 1]

namespace WellFormed

variable (hw : a.WellFormed)

include hw

/-- **After the first nodes level order lists the children of the nodes on it**, one after the
other. -/
theorem levelsF_eq_append_flatMap (h : ∀ n ∈ ns, a.isLive n)
    (hfuel : RoseTree.heightForest (ns.map a.subtree) ≤ fuel) :
    RoseTree.levelsF fuel (ns.map a.subtree) =
      ns ++ (RoseTree.levelsF fuel (ns.map a.subtree)).flatMap a.children := by
  induction fuel generalizing ns with
  | zero =>
      obtain rfl := List.map_eq_nil_iff.1 (RoseTree.eq_nil_of_heightForest_le_zero hfuel)
      rfl
  | succ fuel ih =>
      have hlow := hw.heightForest_flatMap_children_le h hfuel
      rw [hw.levelsF_succ h, List.flatMap_append]
      exact congrArg (ns ++ ·) (ih (hw.isLive_of_mem_flatMap_children h) hlow)

/-- What is left to visit below a level is what is left below its children. -/
theorem pending_eq (h : ∀ n ∈ ns, a.isLive n) :
    a.pending ns = a.pending (ns.flatMap a.children) + ns.length := by
  induction ns with
  | nil => rfl
  | cons n ns ih =>
      obtain ⟨hn, hns⟩ := List.forall_mem_cons.1 h
      rw [hw.pending_cons hn, List.flatMap_cons, pending_append, ih hns, List.length_cons]
      omega

end WellFormed

end Arena

/-! ### Visiting with a queue -/

namespace Tree

variable {t : Tree} {n p : NodeId} {ns ms : List NodeId} {fuel : Nat}

/-- Visits the nodes of a queue, in at most `fuel` turns, and gives no answer if that is not enough.
The node at the front is visited, and its children go to the back. -/
def queueF (t : Tree) : Nat → List NodeId → Except Fault (Option (List NodeId))
  | _, [] => return some []
  | 0, _ :: _ => return none
  | fuel + 1, n :: queue => do
    let ns ← t.children n
    return (← t.queueF fuel (queue ++ ns)).map (n :: ·)

/-- **A level is visited while its children gather behind it**, and behind what gathered there
before. -/
theorem queueF_append (h : ∀ n ∈ ns, t.arena.isLive n) :
    t.queueF (fuel + ns.length) (ns ++ ms) =
      (t.queueF fuel (ms ++ ns.flatMap t.arena.children)).map (Option.map (ns ++ ·)) := by
  induction ns generalizing ms with
  | nil => simp
  | cons n ns ih =>
      obtain ⟨hn, hns⟩ := List.forall_mem_cons.1 h
      rw [List.length_cons, ← Nat.add_assoc, List.cons_append, queueF, children_eq_ok hn, bind_ok,
        List.append_assoc, ih hns, List.flatMap_cons, ← List.append_assoc]
      cases t.queueF fuel (ms ++ t.arena.children n ++ ns.flatMap t.arena.children) with
      | error f => rfl
      | ok answer => cases answer <;> rfl

/-- **The queue runs empty**, after as many turns as there are nodes in the subtrees of its first
nodes, **and the nodes have been visited in level order**. -/
theorem WellFormed.queueF_eq (ht : t.WellFormed) {levels : Nat} (h : ∀ n ∈ ns, t.arena.isLive n)
    (hlevels : RoseTree.heightForest (ns.map t.arena.subtree) ≤ levels)
    (hfuel : t.arena.pending ns ≤ fuel) :
    t.queueF fuel ns = .ok (some (RoseTree.levelsF levels (ns.map t.arena.subtree))) := by
  induction levels generalizing ns fuel with
  | zero =>
      obtain rfl := List.map_eq_nil_iff.1 (RoseTree.eq_nil_of_heightForest_le_zero hlevels)
      cases fuel <;> rfl
  | succ levels ih =>
      have hlow := ht.arena.heightForest_flatMap_children_le h hlevels
      rw [ht.arena.pending_eq h] at hfuel
      obtain ⟨rest, rfl⟩ := Nat.exists_eq_add_of_le' (Nat.le_of_add_left_le hfuel)
      have hbelow := ih (ht.arena.isLive_of_mem_flatMap_children h) hlow
        (Nat.le_of_add_le_add_right hfuel)
      have hqueue : t.queueF (rest + ns.length) (ns ++ []) = _ := queueF_append h
      rw [List.append_nil, List.nil_append, hbelow] at hqueue
      rw [hqueue, ht.arena.levelsF_succ h]
      rfl

/-! ### Level order of a tree -/

/-- Whether `n` has `k` ancestors. -/
def hasDepth (t : Tree) (k : Nat) (n : NodeId) : Bool :=
  match t.depth n with
  | .ok j => j == k
  | .error _ => false

/-- **The nodes of the tree, level by level.** -/
structure LevelOrdered (t : Tree) (visits : List NodeId) : Prop where
  /-- The nodes are those of pre-order, -/
  perm : visits.Perm t.preorder
  /-- each once. -/
  nodup : visits.Nodup
  /-- No node comes before one that has fewer ancestors, -/
  sorted : visits.Pairwise fun x y => ∃ j k, t.depth x = .ok j ∧ t.depth y = .ok k ∧ j ≤ k
  /-- and those with equally many come in pre-order. -/
  filter_eq : ∀ k, visits.filter (t.hasDepth k) = t.preorder.filter (t.hasDepth k)
  /-- A node comes after its parent, -/
  parent_mem : ∀ before n after, visits = before ++ n :: after → n ≠ t.root →
    ∃ p ∈ before, t.parent? n = .ok (some p)
  /-- and the children of a node follow each other in order. -/
  children_infix : ∀ p ns, t.contains p → t.children p = .ok ns → ns <:+: visits

namespace WellFormed

variable (ht : t.WellFormed)

include ht

theorem level_root : t.arena.Level 1 [t.root] := by
  intro n hn
  obtain rfl := List.mem_singleton.1 hn
  exact ⟨ht.isLive_root, by rw [ht.arena.ancestors_of_none ht.isLive_root ht.parent?_root]; rfl⟩

theorem hasDepth_eq {k : Nat} (hn : t.arena.isLive n) :
    t.hasDepth k n = ((t.arena.ancestors n).length == 1 + k) := by
  have hpos := List.length_pos_of_mem ((ht.arena.mem_ancestors_iff hn).2 Arena.Below.self)
  rw [hasDepth, depth_eq_ok hn, Bool.eq_iff_iff, beq_iff_eq, beq_iff_eq]
  omega

/-- **The level order of a well-formed tree.** -/
theorem levelOrdered : t.LevelOrdered t.iter where
  perm := RoseTree.levelOrder_perm_preorder _
  nodup := ht.nodup_iter
  sorted := by
    refine List.Pairwise.imp_of_mem (fun {x y} hx hy hle => ?_)
      (ht.level_root.pairwise_levelsF ht.arena)
    exact ⟨_, _, depth_eq_ok (ht.mem_iter_iff.1 hx), depth_eq_ok (ht.mem_iter_iff.1 hy),
      Nat.sub_le_sub_right hle 1⟩
  filter_eq k := by
    have hlevels := ht.level_root.filter_levelsF (k := k) ht.arena
      (RoseTree.heightForest_singleton _).le
    rw [List.flatMap_singleton] at hlevels
    calc t.iter.filter (t.hasDepth k)
        = t.iter.filter fun m => (t.arena.ancestors m).length == 1 + k :=
          List.filter_congr fun n hn => ht.hasDepth_eq (ht.mem_iter_iff.1 hn)
      _ = t.preorder.filter fun m => (t.arena.ancestors m).length == 1 + k := hlevels
      _ = t.preorder.filter (t.hasDepth k) :=
          List.filter_congr fun n hn => (ht.hasDepth_eq (ht.mem_preorder_iff.1 hn)).symm
  parent_mem before n after h hne := by
    obtain ⟨p, hp, hnp⟩ := ht.arena.parent_mem_of_levelOrder_split ht.isLive_root h hne
    have hn : n ∈ t.iter := by rw [h]; simp
    exact ⟨p, hp, by rw [parent?_eq_ok (ht.mem_iter_iff.1 hn), hnp]⟩
  children_infix p ns hp hns := by
    have hlp := ht.contains_iff.1 hp
    obtain rfl := children_eq_of_children_eq_ok hlp hns
    have hiter : t.iter = [t.root] ++ t.iter.flatMap t.arena.children :=
      ht.arena.levelsF_eq_append_flatMap ht.level_root.isLive
        (RoseTree.heightForest_singleton _).le
    obtain ⟨before, after, hsplit⟩ := List.append_of_mem (ht.mem_iter_iff.2 hlp)
    -- after the root stand the children of the nodes before `p`, those of `p`, and the rest
    rw [hsplit, List.flatMap_append, List.flatMap_cons, ← hsplit] at hiter
    rw [hiter, ← List.append_assoc, ← List.append_assoc]
    exact List.infix_append _ _ _

end WellFormed

/-- **The queue of a tree made by the operations runs empty, and the nodes have been visited in level
order.** -/
theorem Built.iter_levelOrdered (ht : t.Built) : t.LevelOrdered t.iter ∧
    ∀ fuel, t.nodeCount ≤ fuel → t.queueF fuel [t.root] = .ok (some t.iter) := by
  have hw := ht.wellFormed
  refine ⟨hw.levelOrdered, fun fuel hfuel => ?_⟩
  exact hw.queueF_eq hw.level_root.isLive (RoseTree.heightForest_singleton _).le
    (by rw [Arena.pending, List.flatMap_singleton]; exact hfuel)

/-- Below the first of two children there is a third node, which is visited after both. -/
theorem Built.iter_levelOrdered_nested : ∃ t u a b c, fan ⟨"item", 0⟩ "top" ["a", "b"] = .ok t ∧
    t.children t.root = .ok [a, b] ∧ t.addChild a ⟨"item", 0⟩ "c" = .ok (c, u) ∧ u.Built ∧
    u.preorder = [u.root, a, c, b] ∧ u.iter = [u.root, a, b, c] ∧ u.LevelOrdered u.iter ∧
    u.queueF 4 [u.root] = .ok (some u.iter) := by
  obtain ⟨t, u, a, b, c, ht, hab, hu, hpre, hiter⟩ : ∃ t u a b c,
      fan ⟨"item", 0⟩ "top" ["a", "b"] = .ok t ∧ t.children t.root = .ok [a, b] ∧
      t.addChild a ⟨"item", 0⟩ "c" = .ok (c, u) ∧ u.preorder = [u.root, a, c, b] ∧
      u.iter = [u.root, a, b, c] :=
    ⟨_, _, _, _, _, rfl, rfl, rfl, rfl, rfl⟩
  have hbuilt : u.Built := (built_fan _ _ _ ht).addChild hu
  obtain ⟨hordered, hqueue⟩ := Built.iter_levelOrdered hbuilt
  exact ⟨t, u, a, b, c, ht, hab, hu, hbuilt, hpre, hiter, hordered,
    hqueue 4 (by rw [nodeCount, hpre]; rfl)⟩

end Tree

end TreeScript
