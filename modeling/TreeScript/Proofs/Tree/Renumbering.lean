/-
**Isomorphic trees, renumbered.**

Of two isomorphic trees one is the other with its nodes under other identities: each node is
renamed to the node at the same place.  Whatever is read off the links and the data of the one is
read off the other, up to the names.

Main definitions:

* `TreeScript.Tree.Renumbering` — names that lead from each node to the node at the same place;
* `TreeScript.Tree.Renumbered` — **a tree under other names**.

Main results:

* `TreeScript.Tree.exists_renumbering`, `TreeScript.Tree.renumbered` — **isomorphic trees are such
  trees**;
* `TreeScript.Tree.renumbering_iff` — how to tell the right names;
* `TreeScript.Tree.Renumbered.parent?`, `TreeScript.Tree.Renumbered.children`,
  `TreeScript.Tree.Renumbered.preorder`, `TreeScript.Tree.Renumbered.iter`,
  `TreeScript.Tree.Renumbered.view` — they are read alike.
-/

import Mathlib.Data.Set.Function
import TreeScript.Proofs.Arena.Orders
import TreeScript.Proofs.Tree.Isomorphic

set_option relaxedAutoImplicit false
set_option autoImplicit false

namespace TreeScript

/-- Elements that are related to their images only. -/
theorem map_eq_of_forall₂ {σ τ : Type} {R : σ → τ → Prop} {f : σ → τ} {l : List σ} {l' : List τ}
    (h : List.Forall₂ R l l') (hf : ∀ x y, x ∈ l → R x y → f x = y) : l.map f = l' := by
  induction h with
  | nil => rfl
  | cons hxy _ ih =>
      rw [List.map_cons, hf _ _ List.mem_cons_self hxy,
        ih fun x y hx => hf x y (List.mem_cons_of_mem _ hx)]

namespace Tree

variable {t u : Tree} {φ : NodeId → NodeId} {n k : NodeId}

/-- **`φ` leads from each node to the node of `u` at the same place.** -/
def Renumbering (t u : Tree) (φ : NodeId → NodeId) : Prop :=
  ∀ n, t.contains n → t.SamePlace u n (φ n)

/-- **`u` is `t` with each node `n` under the name `φ n`.** -/
structure Renumbered (t u : Tree) (φ : NodeId → NodeId) : Prop where
  left : t.WellFormed
  right : u.WellFormed
  matching : Arena.Matching t.arena u.arena fun n k => t.arena.isLive n ∧ φ n = k
  root : φ t.root = u.root
  data? : ∀ {n}, t.arena.isLive n → u.arena.data? (φ n) = t.arena.data? n

/-- The nodes of isomorphic trees can be renamed to the nodes at the same place. -/
theorem exists_renumbering (ht : t.WellFormed) (hu : u.WellFormed)
    (h : t.isomorphicTo u = .ok true) : ∃ φ, t.Renumbering u φ := by
  have hplace : ∀ n, ∃ k, t.contains n → t.SamePlace u n k := by
    intro n
    by_cases hn : t.contains n
    · obtain ⟨k, hk⟩ := SamePlace.exists_right ht hu h (ht.contains_iff.1 hn)
      exact ⟨k, fun _ => hk⟩
    · exact ⟨n, fun hn' => absurd hn' hn⟩
  exact ⟨fun n => (hplace n).choose, fun n => (hplace n).choose_spec⟩

/-- **A tree whose nodes are renamed to the nodes at the same place of an isomorphic tree.** -/
theorem renumbered (ht : t.WellFormed) (hu : u.WellFormed) (h : t.isomorphicTo u = .ok true)
    (hφ : t.Renumbering u φ) : t.Renumbered u φ := by
  have hmatch := matching_samePlace ht hu h
  have hplace : ∀ {n}, t.arena.isLive n → t.SamePlace u n (φ n) :=
    fun hn => hφ _ (ht.contains_iff.2 hn)
  exact
    { left := ht
      right := hu
      matching := by
        refine hmatch.congr fun n k => ⟨fun hnk => ?_, ?_⟩
        · have hn := hmatch.isLive_left hnk
          exact ⟨hn, hmatch.right_unique (hplace hn) hnk⟩
        · rintro ⟨hn, rfl⟩
          exact hplace hn
      root := hmatch.right_unique (hplace ht.isLive_root) SamePlace.root
      data? := fun hn => ((hplace hn).data? ht hu h).symm }

/-- **Names are right if they take one walk to the other.** -/
theorem renumbering_iff (ht : t.WellFormed) (hu : u.WellFormed) (h : t.isomorphicTo u = .ok true) :
    t.Renumbering u φ ↔ t.preorder.map φ = u.preorder := by
  have hmatch := matching_samePlace ht hu h
  have hwalk : List.Forall₂ (t.SamePlace u) t.preorder u.preorder :=
    hmatch.preorder ht.arena hu.arena SamePlace.root
  constructor
  · intro hφ
    refine map_eq_of_forall₂ hwalk fun n k hn hnk => ?_
    exact hmatch.right_unique (hφ n (ht.contains_iff.2 (ht.mem_preorder_iff.1 hn))) hnk
  · intro hmap n hn
    rw [← hmap, List.forall₂_map_right_iff, List.forall₂_same] at hwalk
    exact hwalk n (ht.mem_preorder_iff.2 (ht.contains_iff.1 hn))

namespace Renumbered

variable (h : t.Renumbered u φ)

include h

theorem isLive (hn : t.arena.isLive n) : u.arena.isLive (φ n) := h.matching.isLive_right ⟨hn, rfl⟩

theorem injOn : Set.InjOn φ {n | t.arena.isLive n} := fun _ hn _ hk he =>
  h.matching.left_unique ⟨hn, rfl⟩ ⟨hk, he.symm⟩

/-- **The names are one to one.** -/
theorem bijOn : Set.BijOn φ {n | t.contains n} {n | u.contains n} := by
  simp only [h.left.contains_iff, h.right.contains_iff]
  refine ⟨fun _ hn => h.isLive hn, h.injOn, fun k hk => ?_⟩
  obtain ⟨n, hn⟩ := h.matching.exists_left hk
  exact ⟨n, hn⟩

/-! ### Links -/

theorem children (hn : t.arena.isLive n) : u.arena.children (φ n) = (t.arena.children n).map φ :=
  (map_eq_of_forall₂ (h.matching.children ⟨hn, rfl⟩) fun _ _ _ hck => hck.2).symm

theorem parent? (hn : t.arena.isLive n) : u.arena.parent? (φ n) = (t.arena.parent? n).map φ := by
  cases hp : t.arena.parent? n with
  | none => exact (h.matching.parent?_eq_none_iff h.left.arena h.right.arena ⟨hn, rfl⟩).1 hp
  | some p =>
      obtain ⟨q, hq, -, rfl⟩ := h.matching.parent? h.left.arena h.right.arena ⟨hn, rfl⟩ hp
      exact hq

theorem parent?_eq_some_iff (hn : t.arena.isLive n) (hk : t.arena.isLive k) :
    u.arena.parent? (φ n) = some (φ k) ↔ t.arena.parent? n = some k := by
  rw [h.parent? hn, Option.map_eq_some_iff]
  constructor
  · rintro ⟨p, hp, he⟩
    rw [hp, h.injOn (h.left.arena.isLive_of_parent? hn hp) hk he]
  · exact fun hp => ⟨k, hp, rfl⟩

theorem subtree (hn : t.arena.isLive n) : u.arena.subtree (φ n) = (t.arena.subtree n).map φ := by
  refine h.left.arena.children_induction
    (P := fun n => u.arena.subtree (φ n) = (t.arena.subtree n).map φ) ?_ n hn
  intro n hn ih
  rw [h.left.arena.subtree_eq hn, h.right.arena.subtree_eq (h.isLive hn), h.children hn,
    RoseTree.map_node, List.map_map, List.map_map]
  exact congrArg (RoseTree.node (φ n)) (List.map_congr_left ih)

theorem preorder (hn : t.arena.isLive n) :
    u.arena.preorder (φ n) = (t.arena.preorder n).map φ := by
  rw [Arena.preorder, h.subtree hn, RoseTree.preorder_map, Arena.preorder]

/-- **The walk level by level meets the nodes in the same order.** -/
theorem iter : u.iter = t.iter.map φ := by
  rw [Tree.iter, ← h.root, h.subtree h.left.isLive_root, RoseTree.levelOrder_map, Tree.iter]

/-! ### Data -/

theorem label (hn : t.arena.isLive n) : u.label (φ n) = t.label n := by
  obtain ⟨d, hd⟩ := Arena.exists_data?_of_isLive hn
  rw [label_eq_ok hd, label_eq_ok ((h.data? hn).trans hd)]

/-- **A subtree shows the same data under the other names.** -/
theorem view (hn : t.arena.isLive n) :
    ∃ v, t.view n = .ok v ∧ u.view (φ n) = .ok (v.map (Prod.map φ id)) := by
  refine h.left.arena.children_induction (P := fun n => ∃ v, t.view n = .ok v ∧
    u.view (φ n) = .ok (v.map (Prod.map φ id))) ?_ n hn
  intro n hn ih
  obtain ⟨d, hd⟩ := Arena.exists_data?_of_isLive hn
  obtain ⟨vs, hvs⟩ := exists_forall₂ ih
  refine ⟨_, h.left.view_eq hn hd (hvs.imp fun _ _ hc => hc.1), ?_⟩
  rw [RoseTree.map_node]
  refine h.right.view_eq (h.isLive hn) ((h.data? hn).trans hd) ?_
  rw [h.children hn, List.forall₂_map_left_iff, List.forall₂_map_right_iff]
  exact hvs.imp fun _ _ hc => hc.2

end Renumbered

end Tree

end TreeScript
