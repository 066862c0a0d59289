/-
**Trees refine rose trees.**

The view of the root of a tree is a rose tree, and what an operation does to the tree is seen in
its view as a change of one list of children, or as a new label.  Together with what the
operations do to child lists this is all there is to know about trees made by them: their slots,
their links and the identities that come back into use do not show.

Main definitions:

* `TreeScript.RoseTree.editChildren` — a rose tree with one list of children changed.

Main results:

* `TreeScript.Tree.Inserts.view_eq`, `TreeScript.Tree.Removes.view_eq`,
  `TreeScript.Tree.Relabels.view_eq` — **what an operation does to the view**;
* `TreeScript.Tree.Built.orderedTree` — **a tree made by the operations is an ordered tree, and
  each operation changes what it says and nothing else**.
-/

import TreeScript.Proofs.Tree.Built
import TreeScript.Proofs.Tree.ChildLists

set_option relaxedAutoImplicit false
set_option autoImplicit false

namespace TreeScript

/-! ### Changing a rose tree -/

namespace RoseTree

variable {κ δ : Type} [DecidableEq κ]

mutual
/-- The tree in which the list of children of each node with the key `p` is changed by `f`. -/
def editChildren (p : κ) (f : List (RoseTree (κ × δ)) → List (RoseTree (κ × δ))) :
    RoseTree (κ × δ) → RoseTree (κ × δ)
  | node e ts =>
    node e (if e.1 = p then f (editChildrenForest p f ts) else editChildrenForest p f ts)

/-- The forest in which the list of children of each node with the key `p` is changed by `f`. -/
def editChildrenForest (p : κ) (f : List (RoseTree (κ × δ)) → List (RoseTree (κ × δ))) :
    List (RoseTree (κ × δ)) → List (RoseTree (κ × δ))
  | [] => []
  | t :: ts => t.editChildren p f :: editChildrenForest p f ts
end

variable {p : κ} {f : List (RoseTree (κ × δ)) → List (RoseTree (κ × δ))}

theorem editChildrenForest_eq (ts : List (RoseTree (κ × δ))) :
    editChildrenForest p f ts = ts.map (editChildren p f) := by
  induction ts with
  | nil => rfl
  | cons t ts ih => rw [editChildrenForest, ih, List.map_cons]

theorem editChildren_node (e : κ × δ) (ts : List (RoseTree (κ × δ))) :
    (node e ts).editChildren p f =
      node e (if e.1 = p then f (ts.map (editChildren p f)) else ts.map (editChildren p f)) := by
  rw [editChildren, editChildrenForest_eq]

end RoseTree

namespace Tree

variable {t u : Tree} {n p c : NodeId} {i : Nat} {label : String} {d : NodeData}
  {v : RoseTree (NodeId × NodeData)}

/-! ### What an operation does to the view -/

/-- The view of a node has its data at the top, and below it the views of its children. -/
theorem WellFormed.view_eq_ok (ht : t.WellFormed) (hn : t.arena.isLive n)
    (h : t.view n = .ok v) : ∃ d vs, t.arena.data? n = some d ∧ v = .node (n, d) vs ∧
      List.Forall₂ (fun c v => t.view c = .ok v) (t.arena.children n) vs := by
  obtain ⟨d, hd⟩ := Arena.exists_data?_of_isLive hn
  obtain ⟨vs, hvs⟩ := exists_forall₂ fun c hc =>
    (ht.exists_view (ht.arena.isLive_of_mem hn hc)).imp fun v hv => hv.1
  have hv := (ht.view_eq hn hd hvs).symm.trans h
  exact ⟨d, vs, hd, (Except.ok.inj hv).symm, hvs⟩

/-- The relation of nodes and their views, after each view has been changed. -/
theorem forall₂_view_map {f : RoseTree (NodeId × NodeData) → RoseTree (NodeId × NodeData)}
    {ns : List NodeId} {vs : List (RoseTree (NodeId × NodeData))}
    (h : List.Forall₂ (fun c v => t.view c = .ok v) ns vs)
    (hf : ∀ c ∈ ns, ∀ v, t.view c = .ok v → u.view c = .ok (f v)) :
    List.Forall₂ (fun c v => u.view c = .ok v) ns (vs.map f) :=
  List.forall₂_map_right_iff.2 ((forall₂_and_mem h hf).imp fun _ _ hc => hc.2 _ hc.1)

theorem data?_eq_of_data_eq (hn : t.arena.isLive n) (h : u.data n = t.data n) :
    u.arena.data? n = t.arena.data? n := by
  obtain ⟨d, hd⟩ := Arena.exists_data?_of_isLive hn
  rw [hd, ← data_eq_ok_iff, h, data_eq_ok hd]

section Views

variable (ht : t.WellFormed) (hu : u.WellFormed)

include ht hu

/-- **A change of the child list of `p` alone is seen in every view as a change of the children
of `p`.**  What becomes of them is for the change to say, once their own views are known. -/
theorem view_editChildren
    {f : List (RoseTree (NodeId × NodeData)) → List (RoseTree (NodeId × NodeData))}
    (hdata : ∀ k, t.arena.isLive k → u.arena.isLive k → u.arena.data? k = t.arena.data? k)
    (hsame : ∀ k, t.arena.isLive k → u.arena.isLive k → k ≠ p →
      u.arena.children k = t.arena.children k)
    (hedit : ∀ g vs, List.Forall₂ (fun c v => t.view c = .ok v) (t.arena.children p) vs →
      (∀ c ∈ t.arena.children p, c ∈ u.arena.children p →
        ∀ v, t.view c = .ok v → u.view c = .ok (g v)) →
      List.Forall₂ (fun c v => u.view c = .ok v) (u.arena.children p) (f (vs.map g)))
    (hnt : t.arena.isLive n) (hnu : u.arena.isLive n) (hv : t.view n = .ok v) :
    u.view n = .ok (v.editChildren p f) := by
  revert hnt v
  refine hu.arena.children_induction
    (P := fun n => ∀ {v}, t.arena.isLive n → t.view n = .ok v →
      u.view n = .ok (v.editChildren p f)) ?_ n hnu
  intro n hnu ih v hnt hv
  obtain ⟨d, vs, hd, rfl, hvs⟩ := ht.view_eq_ok hnt hv
  have ih : ∀ c ∈ t.arena.children n, c ∈ u.arena.children n → ∀ v, t.view c = .ok v →
      u.view c = .ok (v.editChildren p f) := fun c hct hcu v hv =>
    ih c hcu (ht.arena.isLive_of_mem hnt hct) hv
  rw [RoseTree.editChildren_node]
  refine hu.view_eq hnu ((hdata n hnt hnu).trans hd) ?_
  by_cases hp : n = p
  · subst hp
    rw [if_pos rfl]
    exact hedit _ vs hvs ih
  · rw [if_neg hp, hsame n hnt hnu hp]
    rw [hsame n hnt hnu hp] at ih
    exact forall₂_view_map hvs fun c hc => ih c hc hc

/-- **A new leaf stands in the view at its place.** -/
theorem Inserts.view_eq (h : t.Inserts u p i d n) (hp : t.contains p)
    (hv : t.view t.root = .ok v) :
    u.view u.root = .ok (v.editChildren p (·.insertIdx i (.node (n, d) []))) := by
  have hlive : ∀ {k}, t.arena.isLive k → u.arena.isLive k := fun hk =>
    hu.contains_iff.1 ((h.contains_iff _).2 (Or.inl (ht.contains_iff.2 hk)))
  have hn : u.arena.isLive n := hu.contains_iff.1 ((h.contains_iff n).2 (Or.inr rfl))
  have hlp := ht.contains_iff.1 hp
  have hleaf : u.view n = .ok (.node (n, d) []) :=
    hu.view_eq hn (data_eq_ok_iff.1 h.data)
      (by rw [children_eq_of_children_eq_ok hn h.leaf]; exact List.Forall₂.nil)
  rw [h.root]
  refine view_editChildren ht hu ?_ ?_ ?_ ht.isLive_root (hlive ht.isLive_root) hv
  · exact fun k hk _ => data?_eq_of_data_eq hk (h.data_eq k (ht.contains_iff.2 hk))
  · intro k hk hku hne
    exact children_eq_of_children_eq_ok hku
      ((h.children_eq k (ht.contains_iff.2 hk) hne).trans (children_eq_ok hk))
  · intro g vs hvs hg
    obtain ⟨ns, hns, hi, hchildren⟩ := h.children
    obtain rfl := children_eq_of_children_eq_ok hlp hns
    rw [children_eq_of_children_eq_ok (hlive hlp) hchildren] at hg ⊢
    refine forall₂_insertIdx (forall₂_view_map hvs fun c hc => hg c hc ?_) hleaf i
    exact List.mem_insertIdx hi |>.2 (Or.inr hc)

/-- **What goes is gone from the view.** -/
theorem Removes.view_eq (h : t.Removes u p i c) (hv : t.view t.root = .ok v) :
    u.view u.root = .ok (v.editChildren p (·.eraseIdx i)) := by
  obtain ⟨below, -, hbelow⟩ := h.subtree
  have hlive : ∀ {k}, u.arena.isLive k → t.contains k := fun hk =>
    ((hbelow _).1 (hu.contains_iff.2 hk)).1
  have hlp := hu.contains_iff.1 h.contains_parent
  rw [h.root]
  refine view_editChildren ht hu ?_ ?_ ?_ ht.isLive_root (h.root ▸ hu.isLive_root) hv
  · exact fun k hk hku => data?_eq_of_data_eq hk (h.data_eq k (hu.contains_iff.2 hku))
  · intro k hk hku hne
    exact children_eq_of_children_eq_ok hku
      ((h.children_eq k (hu.contains_iff.2 hku) hne).trans (children_eq_ok hk))
  · intro g vs hvs hg
    obtain ⟨ns, hns, -, hchildren⟩ := h.children
    obtain rfl := children_eq_of_children_eq_ok (ht.contains_iff.1 (hlive hlp)) hns
    rw [children_eq_of_children_eq_ok hlp hchildren] at hg ⊢
    rw [List.eraseIdx_map]
    exact forall₂_view_map (forall₂_eraseIdx hvs i) fun c hc => hg c (List.mem_of_mem_eraseIdx hc) hc

/-- **A new label stands in the view at its node.** -/
theorem Relabels.view_eq (h : t.Relabels u n label) (hv : t.view t.root = .ok v) :
    u.view u.root =
      .ok (v.map fun e => if e.1 = n then (e.1, { e.2 with label }) else e) := by
  have hlive : ∀ {k}, t.arena.isLive k → u.arena.isLive k := fun hk =>
    hu.contains_iff.1 ((h.contains_iff _).2 (ht.contains_iff.2 hk))
  let relabel : NodeId × NodeData → NodeId × NodeData := fun e =>
    if e.1 = n then (e.1, { e.2 with label }) else e
  have key : ∀ k, t.arena.isLive k → ∀ v, t.view k = .ok v → u.view k = .ok (v.map relabel) := by
    refine ht.arena.children_induction fun k hk ih v hv => ?_
    obtain ⟨d, vs, hd, rfl, hvs⟩ := ht.view_eq_ok hk hv
    have hchildren : u.arena.children k = t.arena.children k :=
      children_eq_of_children_eq_ok (hlive hk)
        ((h.children_eq k (ht.contains_iff.2 hk)).trans (children_eq_ok hk))
    have hvs' := forall₂_view_map hvs ih
    rw [← hchildren] at hvs'
    rw [RoseTree.map_node]
    by_cases hkn : k = n
    · subst hkn
      obtain ⟨d', hd', hud⟩ := h.data
      obtain rfl : d' = d := Option.some.inj ((data_eq_ok_iff.1 hd').symm.trans hd)
      simpa [relabel] using hu.view_eq (hlive hk) (data_eq_ok_iff.1 hud) hvs'
    · have hdata := data?_eq_of_data_eq hk (h.data_eq k (ht.contains_iff.2 hk) hkn)
      simpa [relabel, hkn] using hu.view_eq (hlive hk) (hdata.trans hd) hvs'
  rw [h.root]
  exact key _ ht.isLive_root v hv

end Views

/-! ### Trees made by the operations -/

/-- **A tree made by the operations is an ordered tree, and what it shows is a rose tree.**  Every
operation on a node of the tree succeeds and does what it says and nothing else: to the child
lists, and to the rose tree. -/
theorem Built.orderedTree (h : t.Built) : t.Ordered ∧ ∃ v, t.view t.root = .ok v ∧
    v.preorder.map Prod.fst = t.preorder ∧
    (∀ p kind label, t.contains p → ∃ n u ns, t.addChild p kind label = .ok (n, u) ∧
      t.children p = .ok ns ∧ t.Inserts u p ns.length ⟨kind, label⟩ n ∧
      u.view u.root =
        .ok (v.editChildren p (·.insertIdx ns.length (.node (n, ⟨kind, label⟩) [])))) ∧
    (∀ p ns i kind label, t.contains p → t.children p = .ok ns → i ≤ ns.length →
      ∃ n u, t.insertChild p i kind label = .ok (n, u) ∧ t.Inserts u p i ⟨kind, label⟩ n ∧
        u.view u.root =
          .ok (v.editChildren p (·.insertIdx i (.node (n, ⟨kind, label⟩) [])))) ∧
    (∀ p ns i, t.contains p → t.children p = .ok ns →
      (∀ c, ns[i]? = some c → ∃ u, t.removeChild p i = .ok (some c, u) ∧ t.Removes u p i c ∧
        u.view u.root = .ok (v.editChildren p (·.eraseIdx i))) ∧
      (ns[i]? = none → t.removeChild p i = .ok (none, t))) ∧
    ∀ n label, t.contains n → ∃ u, t.setLabel n label = .ok u ∧ t.Relabels u n label ∧
      u.view u.root = .ok (v.map fun e => if e.1 = n then (e.1, { e.2 with label }) else e) := by
  have ht := h.wellFormed
  obtain ⟨v, hv, -, hshape⟩ := ht.exists_view ht.isLive_root
  refine ⟨ht.ordered, v, hv, ?_, ?_, ?_, ?_, ?_⟩
  · rw [← RoseTree.preorder_map, hshape]
    rfl
  · intro p kind label hp
    obtain ⟨n, u, ns, hadd, hns, hins⟩ := ht.exists_addChild hp kind label
    exact ⟨n, u, ns, hadd, hns, hins, hins.view_eq ht (ht.addChild hadd) hp hv⟩
  · intro p ns i kind label hp hns hi
    obtain ⟨n, u, hinsert, hins⟩ := ht.exists_insertChild hp hns hi kind label
    exact ⟨n, u, hinsert, hins, hins.view_eq ht (ht.insertChild hinsert) hp hv⟩
  · intro p ns i hp hns
    obtain ⟨hthere, hnone⟩ := ht.exists_removeChild hp hns i
    refine ⟨fun c hc => ?_, hnone⟩
    obtain ⟨u, hremove, hrem⟩ := hthere c hc
    exact ⟨u, hremove, hrem, hrem.view_eq ht (ht.removeChild hremove) hv⟩
  · intro n label hn
    obtain ⟨u, hset, hrel⟩ := ht.exists_setLabel hn label
    exact ⟨u, hset, hrel, hrel.view_eq ht (ht.setLabel hset) hv⟩

/-- A leaf is taken out, and the next one gets its slot. -/
theorem Built.orderedTree_reused : ∃ t u w a b, fan ⟨"item", 0⟩ "top" ["a", "b"] = .ok t ∧
    t.removeChild t.root 0 = .ok (some a, u) ∧
    u.insertChild t.root 1 ⟨"item", 0⟩ "c" = .ok (b, w) ∧ a.slot = b.slot ∧ a ≠ b ∧
    w.Built ∧ w.Ordered := by
  obtain ⟨t, u, w, a, b, ht, hu, hw, hslot, hne⟩ : ∃ t u w a b,
      fan ⟨"item", 0⟩ "top" ["a", "b"] = .ok t ∧ t.removeChild t.root 0 = .ok (some a, u) ∧
      u.insertChild t.root 1 ⟨"item", 0⟩ "c" = .ok (b, w) ∧ a.slot = b.slot ∧ a ≠ b :=
    ⟨_, _, _, _, _, rfl, rfl, rfl, rfl, by decide⟩
  have hbuilt : w.Built := ((built_fan _ _ _ ht).removeChild hu).insertChild hw
  exact ⟨t, u, w, a, b, ht, hu, hw, hslot, hne, hbuilt, (Built.orderedTree hbuilt).1⟩

end Tree

end TreeScript
