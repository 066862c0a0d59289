/-
**Heights, sizes and depths.**

The height of a subtree is one more than the greatest height of a subtree at a child, and it is the
greatest number of steps down from its top, one more, since the top is a level too.  Steps down are
counted by depths, which are counted on the way up; the number of nodes is counted on a walk down.
So the measures of a tree are taken along different ways through it, and agree since the tree is
one.

Heights can be taken in post-order, with a table of those that are known: when a node is visited,
its children have been.

Main definitions:

* `TreeScript.greatest` — the greatest number of a list, 0 if it is empty;
* `TreeScript.Arena.height` — the number of levels below a node;
* `TreeScript.Arena.heightByTable` — **the same, by a table filled in post-order**;
* `TreeScript.Tree.Measured` — what the measures of a tree have to do with each other.

Main results:

* `TreeScript.Arena.WellFormed.height_eq` — a height from those of the children;
* `TreeScript.Arena.WellFormed.get?_foldl_heightStep` — **the table knows the heights of what has
  been visited**;
* `TreeScript.Arena.WellFormed.height_eq_greatest_depth` — **a height from the depths of the nodes
  below**;
* `TreeScript.Tree.WellFormed.mem_descendants_iff` — what is below a node has it above;
* `TreeScript.Tree.Built.measured` — **the measures of a tree agree**.
-/

import Mathlib.Algebra.Order.Ring.Nat
import Mathlib.Data.List.Induction
import TreeScript.NodeMap
import TreeScript.Proofs.Tree.Built
import TreeScript.Proofs.Tree.ChildLists

set_option relaxedAutoImplicit false
set_option autoImplicit false

namespace TreeScript

/-! ### The greatest number of a list -/

/-- The greatest number of a list, 0 if it is empty. -/
def greatest (l : List Nat) : Nat := l.max?.getD 0

theorem greatest_cons (k : Nat) (l : List Nat) : greatest (k :: l) = max k (greatest l) := by
  rw [greatest, greatest, List.max?_cons]
  cases l.max? <;> simp

/-- A bound that is reached is the greatest number. -/
theorem greatest_eq {l : List Nat} {k : Nat} (hk : k ∈ l) (h : ∀ i ∈ l, i ≤ k) :
    greatest l = k := by
  rw [greatest, List.max?_eq_some_iff.2 ⟨hk, h⟩]
  rfl

theorem le_greatest {l : List Nat} {k : Nat} (hk : k ∈ l) : k ≤ greatest l := by
  induction l with
  | nil => cases hk
  | cons i l ih =>
      rw [greatest_cons]
      rcases List.mem_cons.1 hk with rfl | hk
      · exact le_max_left _ _
      · exact (ih hk).trans (le_max_right _ _)

theorem greatest_mem {l : List Nat} (h : l ≠ []) : greatest l ∈ l := by
  obtain ⟨k, hk⟩ := Option.ne_none_iff_exists'.1 (mt List.max?_eq_none_iff.1 h)
  rw [greatest, hk]
  exact (List.max?_eq_some_iff.1 hk).1

theorem RoseTree.heightForest_eq_greatest {α : Type} (ts : List (RoseTree α)) :
    heightForest ts = greatest (ts.map height) := by
  induction ts with
  | nil => rfl
  | cons t ts ih => rw [heightForest, ih, List.map_cons, greatest_cons]

/-! ### Heights in an arena -/

namespace Arena

variable {α : Type} {a : Arena α} {n m c p : NodeId}

/-- The number of levels from `n` downwards. -/
def height (a : Arena α) (n : NodeId) : Nat := (a.subtree n).height

/-- A height is one more than the greatest height that the table has for a child; what it does not
have counts 0. -/
def heightStep (a : Arena α) (heights : NodeMap Nat) (n : NodeId) : NodeMap Nat :=
  heights.insert n (1 + greatest ((a.children n).map fun c => (heights.get? c).getD 0))

/-- **The height of `n`, by a table that is filled in post-order.** -/
def heightByTable (a : Arena α) (n : NodeId) : Nat :=
  (((a.postorder n).foldl a.heightStep NodeMap.empty).get? n).getD 1

namespace WellFormed

variable (hw : a.WellFormed)

include hw

/-- **A height is one more than the greatest height of a child.** -/
theorem height_eq (hn : a.isLive n) : a.height n = 1 + greatest ((a.children n).map a.height) := by
  rw [height, hw.subtree_eq hn, RoseTree.height, RoseTree.heightForest_eq_greatest, List.map_map]
  rfl

/-- **The table knows the heights of the nodes that have been visited.** -/
theorem get?_foldl_heightStep (hn : a.isLive n) (visited rest : List NodeId)
    (h : a.postorder n = visited ++ rest) :
    ∀ m ∈ visited, (visited.foldl a.heightStep NodeMap.empty).get? m = some (a.height m) := by
  induction visited using List.reverseRecOn generalizing rest with
  | nil => simp
  | append_singleton visited x ih =>
      have h : a.postorder n = visited ++ x :: rest := by rw [h, List.append_assoc]; rfl
      have ih := ih (x :: rest) h
      have hx : a.isLive x := ((hw.mem_postorder_iff hn).1 (h ▸ by simp)).1
      have hchildren : ((a.children x).map fun c =>
          ((visited.foldl a.heightStep NodeMap.empty).get? c).getD 0) =
          (a.children x).map a.height := by
        refine List.map_congr_left fun c hc => ?_
        -- a child is below the node, so it has been visited
        obtain ⟨hlc, hpc⟩ := hw.of_mem_children hx hc
        have hne : c ≠ x := by
          rintro rfl
          exact hw.not_below_parent hlc hpc Below.self
        rw [ih c (hw.mem_of_postorder_split hn h hlc (Below.of_parent hpc) hne)]
        rfl
      intro m hm
      rw [List.foldl_append, List.foldl_cons, List.foldl_nil, heightStep, hchildren,
        ← hw.height_eq hx, NodeMap.get?_insert]
      split
      case isTrue he => rw [he]
      case isFalse hne =>
        refine ih m ((List.mem_append.1 hm).resolve_right fun hm => hne ?_)
        exact (List.mem_singleton.1 hm).symm

/-- **The table finds the height.** -/
theorem heightByTable_eq (hn : a.isLive n) : a.heightByTable n = a.height n := by
  rw [heightByTable, hw.get?_foldl_heightStep hn (a.postorder n) [] (by simp) n
    ((hw.mem_postorder_iff hn).2 ⟨hn, Below.self⟩)]
  rfl

/-- What is below a node is less deep than the subtree is high. -/
theorem length_ancestors_lt_of_mem_preorder (hn : a.isLive n) :
    ∀ m ∈ a.preorder n, (a.ancestors m).length < (a.ancestors n).length + a.height n := by
  refine hw.children_induction (P := fun n => ∀ m ∈ a.preorder n,
    (a.ancestors m).length < (a.ancestors n).length + a.height n) ?_ n hn
  intro n hn ih m hm
  rw [hw.height_eq hn]
  rw [hw.preorder_eq hn] at hm
  rcases List.mem_cons.1 hm with rfl | hm
  · omega
  · obtain ⟨c, hc, hm⟩ := List.mem_flatMap.1 hm
    have hlt := ih c hc m hm
    have hlen := hw.length_ancestors_of_mem hn hc
    have hle := le_greatest (List.mem_map_of_mem (f := a.height) hc)
    omega

/-- Some node below is as deep as the subtree is high. -/
theorem exists_mem_preorder_length_ancestors (hn : a.isLive n) :
    ∃ m ∈ a.preorder n, (a.ancestors m).length + 1 = (a.ancestors n).length + a.height n := by
  refine hw.children_induction (P := fun n => ∃ m ∈ a.preorder n,
    (a.ancestors m).length + 1 = (a.ancestors n).length + a.height n) ?_ n hn
  intro n hn ih
  rw [hw.height_eq hn]
  by_cases hleaf : a.children n = []
  · exact ⟨n, hw.mem_preorder_self hn, by rw [hleaf]; rfl⟩
  · -- the way on is through the child with the greatest height
    obtain ⟨c, hc, hgreatest⟩ := List.mem_map.1
      (greatest_mem (mt List.map_eq_nil_iff.1 hleaf) : _ ∈ (a.children n).map a.height)
    obtain ⟨m, hm, hlen⟩ := ih c hc
    refine ⟨m, ?_, ?_⟩
    · rw [hw.preorder_eq hn]
      exact List.mem_cons_of_mem _ (List.mem_flatMap.2 ⟨c, hc, hm⟩)
    · rw [hlen, hw.length_ancestors_of_mem hn hc, hgreatest]
      omega

/-- **A height is one more than the greatest number of steps down.** -/
theorem height_eq_greatest_depth (hn : a.isLive n) : a.height n = 1 + greatest
    ((a.preorder n).map fun m => (a.ancestors m).length - (a.ancestors n).length) := by
  obtain ⟨m, hm, hlen⟩ := hw.exists_mem_preorder_length_ancestors hn
  have hpos : 0 < a.height n := by rw [hw.height_eq hn]; omega
  have hgreatest : greatest
      ((a.preorder n).map fun m => (a.ancestors m).length - (a.ancestors n).length) =
      (a.ancestors m).length - (a.ancestors n).length := by
    refine greatest_eq (List.mem_map_of_mem hm) fun i hi => ?_
    obtain ⟨k, hk, rfl⟩ := List.mem_map.1 hi
    have hlt := hw.length_ancestors_lt_of_mem_preorder hn k hk
    omega
  rw [hgreatest]
  omega

/-- **The number of nodes is one more than those at the children together.** -/
theorem length_preorder_eq_sum (hn : a.isLive n) : (a.preorder n).length =
    1 + ((a.children n).map fun c => (a.preorder c).length).sum := by
  rw [hw.length_preorder hn, pending, List.length_flatMap, Nat.add_comm]

/-- The walk upwards begins at the node. -/
theorem ancestors_eq_cons (hn : a.isLive n) : a.ancestors n = n :: (a.ancestors n).drop 1 := by
  cases hp : a.parent? n with
  | none => rw [hw.ancestors_of_none hn hp]; rfl
  | some p => rw [hw.ancestors_of_some hn hp]; rfl

end WellFormed

end Arena

/-! ### Measures of a tree -/

namespace Tree

variable {t : Tree} {n m c p : NodeId}

/-- **What the measures of a tree have to do with each other.** -/
structure Measured (t : Tree) : Prop where
  /-- A height is one more than the greatest height of a child, 1 for a leaf. -/
  height_eq : ∀ n, t.contains n → ∃ ns hs, t.children n = .ok ns ∧
    List.Forall₂ (fun c h => t.height c = .ok h) ns hs ∧ t.height n = .ok (1 + greatest hs)
  /-- A table that is filled in post-order has the height. -/
  height_eq_byTable : ∀ n, t.contains n → t.height n = .ok (t.arena.heightByTable n)
  /-- A height is one more than the greatest difference in depth to a node below, none of which is
  less deep. -/
  height_eq_depths : ∀ n, t.contains n → ∃ below d ds, t.descendants n = .ok below ∧
    t.depth n = .ok d ∧ List.Forall₂ (fun m e => t.depth m = .ok e) below ds ∧
    (∀ e ∈ ds, d ≤ e) ∧ t.height n = .ok (1 + greatest (ds.map (· - d)))
  /-- A size is one more than the sizes of the children together. -/
  size_eq : ∀ n, t.contains n → ∃ ns ss, t.children n = .ok ns ∧
    List.Forall₂ (fun c s => t.size c = .ok s) ns ss ∧ t.size n = .ok (1 + ss.sum)
  /-- A child is one deeper than its parent, -/
  depth_child : ∀ p ns, t.contains p → t.children p = .ok ns → ∃ d, t.depth p = .ok d ∧
    ∀ c ∈ ns, t.depth c = .ok (d + 1)
  /-- and only the root is at depth 0. -/
  depth_eq_zero_iff : ∀ n, t.contains n → (t.depth n = .ok 0 ↔ n = t.root)
  /-- What is below a node is the node itself and what has it above. -/
  mem_descendants_iff : ∀ n m, t.contains n → t.contains m → ∃ below above,
    t.descendants n = .ok below ∧ t.ancestors m = .ok above ∧ (m ∈ below ↔ m = n ∨ n ∈ above)

theorem height_eq_ok (hn : t.arena.isLive n) : t.height n = .ok (t.arena.height n) := by
  rw [height, reading_eq_ok hn, Arena.returnsTo, hn, Bool.true_or, if_pos rfl, Arena.height]

theorem ancestors_eq_ok (hn : t.arena.isLive n) :
    t.ancestors n = .ok ((t.arena.ancestors n).drop 1) := reading_eq_ok hn _

/-- A measure of nodes, one by one. -/
theorem forall₂_eq_ok {f : NodeId → Except Fault Nat} {g : NodeId → Nat}
    (h : ∀ k, t.arena.isLive k → f k = .ok (g k)) {ns : List NodeId}
    (hns : ∀ k ∈ ns, t.arena.isLive k) : List.Forall₂ (fun k i => f k = .ok i) ns (ns.map g) :=
  List.forall₂_map_right_iff.2 (List.forall₂_same.2 fun k hk => h k (hns k hk))

namespace WellFormed

variable (ht : t.WellFormed)

include ht

theorem exists_heights (hn : t.arena.isLive n) : ∃ ns hs, t.children n = .ok ns ∧
    List.Forall₂ (fun c h => t.height c = .ok h) ns hs ∧ t.height n = .ok (1 + greatest hs) := by
  refine ⟨_, _, children_eq_ok hn,
    forall₂_eq_ok (fun k hk => height_eq_ok hk) fun c hc => ht.arena.isLive_of_mem hn hc, ?_⟩
  rw [height_eq_ok hn, ht.arena.height_eq hn]

theorem exists_sizes (hn : t.arena.isLive n) : ∃ ns ss, t.children n = .ok ns ∧
    List.Forall₂ (fun c s => t.size c = .ok s) ns ss ∧ t.size n = .ok (1 + ss.sum) := by
  refine ⟨_, _, children_eq_ok hn,
    forall₂_eq_ok (fun k hk => size_eq_ok hk) fun c hc => ht.arena.isLive_of_mem hn hc, ?_⟩
  rw [size_eq_ok hn, ht.arena.length_preorder_eq_sum hn]

theorem exists_depths (hn : t.arena.isLive n) : ∃ below d ds, t.descendants n = .ok below ∧
    t.depth n = .ok d ∧ List.Forall₂ (fun m e => t.depth m = .ok e) below ds ∧
    (∀ e ∈ ds, d ≤ e) ∧ t.height n = .ok (1 + greatest (ds.map (· - d))) := by
  have hbelow : ∀ m ∈ t.arena.preorder n, t.arena.isLive m ∧ t.arena.Below n m := fun m hm =>
    (ht.arena.mem_preorder_iff hn).1 hm
  refine ⟨_, _, _, descendants_eq_ok hn, depth_eq_ok hn,
    forall₂_eq_ok (fun k hk => depth_eq_ok hk) fun m hm => (hbelow m hm).1, ?_, ?_⟩
  · intro e he
    obtain ⟨m, hm, rfl⟩ := List.mem_map.1 he
    have hle := ht.arena.length_ancestors_le_of_below (hbelow m hm).1 (hbelow m hm).2
    omega
  · rw [height_eq_ok hn, ht.arena.height_eq_greatest_depth hn, List.map_map]
    refine congrArg (fun l => Except.ok (1 + greatest l)) (List.map_congr_left fun m _ => ?_)
    -- both depths are one less than the lengths of the walks up
    have hpos : 0 < (t.arena.ancestors n).length := by
      rw [ht.arena.ancestors_eq_cons hn]
      exact Nat.succ_pos _
    simp only [Function.comp_apply]
    omega

/-- **A child is one deeper than its parent.** -/
theorem exists_depth_children (hp : t.arena.isLive p) {ns : List NodeId}
    (hns : t.children p = .ok ns) :
    ∃ d, t.depth p = .ok d ∧ ∀ c ∈ ns, t.depth c = .ok (d + 1) := by
  obtain rfl := children_eq_of_children_eq_ok hp hns
  refine ⟨_, depth_eq_ok hp, fun c hc => ?_⟩
  rw [depth_eq_ok (ht.arena.isLive_of_mem hp hc), ht.arena.length_ancestors_of_mem hp hc,
    ht.arena.ancestors_eq_cons hp]
  rfl

/-- **Only the root is at depth 0.** -/
theorem depth_eq_zero_iff (hn : t.arena.isLive n) : t.depth n = .ok 0 ↔ n = t.root := by
  rw [depth_eq_ok hn, Except.ok.injEq]
  constructor
  · intro h
    by_contra hne
    obtain ⟨p, hp⟩ := ht.exists_parent?_of_ne_root hn hne
    rw [ht.arena.ancestors_of_some hn hp,
      ht.arena.ancestors_eq_cons (ht.arena.isLive_of_parent? hn hp)] at h
    simp at h
  · rintro rfl
    rw [ht.arena.ancestors_of_none hn ht.parent?_root]
    rfl

/-- **What is below a node is the node itself and what has it above.** -/
theorem mem_descendants_iff (hn : t.arena.isLive n) (hm : t.arena.isLive m) : ∃ below above,
    t.descendants n = .ok below ∧ t.ancestors m = .ok above ∧
      (m ∈ below ↔ m = n ∨ n ∈ above) := by
  refine ⟨_, _, descendants_eq_ok hn, ancestors_eq_ok hm, ?_⟩
  calc m ∈ t.arena.preorder n ↔ t.arena.Below n m := by
        rw [ht.arena.mem_preorder_iff hn, and_iff_right hm]
    _ ↔ n ∈ t.arena.ancestors m := (ht.arena.mem_ancestors_iff hm).symm
    _ ↔ m = n ∨ n ∈ (t.arena.ancestors m).drop 1 := by
        rw [ht.arena.ancestors_eq_cons hm, List.mem_cons, eq_comm]
        rfl

end WellFormed

/-- **The measures of a tree agree**, whichever way through the tree they are taken. -/
theorem Built.measured (h : t.Built) : t.Measured := by
  have ht := h.wellFormed
  have hlive : ∀ {n}, t.contains n → t.arena.isLive n := fun hn => ht.contains_iff.1 hn
  exact
    { height_eq := fun n hn => ht.exists_heights (hlive hn)
      height_eq_byTable := fun n hn => by
        rw [height_eq_ok (hlive hn), ht.arena.heightByTable_eq (hlive hn)]
      height_eq_depths := fun n hn => ht.exists_depths (hlive hn)
      size_eq := fun n hn => ht.exists_sizes (hlive hn)
      depth_child := fun p ns hp hns => ht.exists_depth_children (hlive hp) hns
      depth_eq_zero_iff := fun n hn => ht.depth_eq_zero_iff (hlive hn)
      mem_descendants_iff := fun n m hn hm => ht.mem_descendants_iff (hlive hn) (hlive hm) }

/-- A tree with a leaf at depth 1 and one at depth 2. -/
theorem Built.measured_uneven : ∃ t u b c, fan ⟨"item", 0⟩ "top" ["a", "b"] = .ok t ∧
    t.child? t.root 1 = .ok (some b) ∧ t.addChild b ⟨"item", 0⟩ "c" = .ok (c, u) ∧ u.Measured ∧
    u.height u.root = .ok 3 ∧ u.size u.root = .ok 4 ∧ u.depth c = .ok 2 := by
  obtain ⟨t, u, b, c, ht, hb, hu, hheight, hsize, hdepth⟩ : ∃ t u b c,
      fan ⟨"item", 0⟩ "top" ["a", "b"] = .ok t ∧ t.child? t.root 1 = .ok (some b) ∧
      t.addChild b ⟨"item", 0⟩ "c" = .ok (c, u) ∧ u.height u.root = .ok 3 ∧
      u.size u.root = .ok 4 ∧ u.depth c = .ok 2 :=
    ⟨_, _, _, _, rfl, rfl, rfl, rfl, rfl, rfl⟩
  have h : u.Built := (built_fan _ _ _ ht).addChild hu
  exact ⟨t, u, b, c, ht, hb, hu, Built.measured h, hheight, hsize, hdepth⟩

end Tree

end TreeScript
