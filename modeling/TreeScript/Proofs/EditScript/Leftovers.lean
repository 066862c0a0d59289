/-
**What is left over is what is taken out.**

When all destination nodes have been seen to, a node of the working copy that has no counterpart
is the copy of a source node without counterpart, and nothing below it has a counterpart.  So such
nodes can be left out of the working copy branch by branch, and what remains is the destination:
its shape, its labels, and at every place the counterpart of the node that is there.  And what
remains when nodes have been taken out is just that.

Main definitions:

* `TreeScript.RoseTree.trim` — a tree without the branches that begin with the wrong value;
* `TreeScript.WorkingCopy.outline` — the nodes of the working copy below a node, with their labels;
* `TreeScript.Draft.TakesLeftovers` — **what is taken out, and what remains**.

Main results:

* `TreeScript.WorkingCopy.Sound.trim_subtree` — where counterparts have the children and labels
  that they should, the copy without its other branches is the destination;
* `TreeScript.Mapping.prune_takesLeftovers` — **the nodes without counterparts are taken out, and no
  others**.
-/

import TreeScript.Proofs.EditScript.QuietReplay

set_option relaxedAutoImplicit false
set_option autoImplicit false

namespace TreeScript

/-! ### Trees without some of their branches -/

namespace RoseTree

variable {α β : Type} {p : α → Bool}

mutual
/-- The tree without the branches at whose beginning `p` does not hold; the root stays. -/
def trim (p : α → Bool) : RoseTree α → RoseTree α
  | node v ts => node v (trimForest p ts)

/-- The trees of a forest that begin with a value of `p`, each without its other branches. -/
def trimForest (p : α → Bool) : List (RoseTree α) → List (RoseTree α)
  | [] => []
  | t :: ts => if p t.value then t.trim p :: trimForest p ts else trimForest p ts
end

theorem trimForest_eq (p : α → Bool) (ts : List (RoseTree α)) :
    trimForest p ts = (ts.filter fun t => p t.value).map (trim p) := by
  induction ts with
  | nil => rfl
  | cons t ts ih =>
      rw [trimForest, List.filter_cons, ih]
      split <;> rfl

@[simp] theorem trim_node (v : α) (ts : List (RoseTree α)) :
    (node v ts).trim p = node v ((ts.filter fun t => p t.value).map (trim p)) := by
  rw [trim, trimForest_eq]

end RoseTree

namespace Arena.WellFormed

variable {α : Type} {a : Arena α} {p : NodeId → Bool} {n : NodeId}

/-- One step downwards in a tree without some of its branches. -/
theorem trim_subtree (hw : a.WellFormed) (hn : a.isLive n) : (a.subtree n).trim p =
    .node n (((a.children n).filter p).map fun k => (a.subtree k).trim p) := by
  have hvalue : (fun t : RoseTree NodeId => p t.value) ∘ a.subtree = p :=
    funext fun k => congrArg p (value_subtree a k)
  rw [hw.subtree_eq hn, RoseTree.trim_node, List.filter_map, List.map_map, hvalue]
  rfl

/-- Where `p` holds of all nodes, nothing is missing. -/
theorem trim_subtree_eq_self (hw : a.WellFormed) (hp : ∀ k, a.isLive k → p k) (hn : a.isLive n) :
    (a.subtree n).trim p = a.subtree n := by
  refine hw.children_induction (P := fun n => (a.subtree n).trim p = a.subtree n) ?_ n hn
  intro n hn ih
  have hall : (a.children n).filter p = a.children n :=
    List.filter_eq_self.2 fun k hk => hp k (hw.isLive_of_mem hn hk)
  rw [hw.trim_subtree hn, hall, hw.subtree_eq hn]
  exact congrArg _ (List.map_congr_left ih)

end Arena.WellFormed

/-! ### The copy and the destination -/

namespace WorkingCopy

variable {m : Mapping} {c : WorkingCopy} {x w : NodeId}

/-- Nodes of the working copy with their labels. -/
def outline (c : WorkingCopy) (t : RoseTree NodeId) : RoseTree (Option NodeId × Option String) :=
  t.map fun w => (some w, c.label? w)

/-- The destination with the counterparts of its nodes in the working copy, and their labels. -/
def image (c : WorkingCopy) (dst : Tree) (t : RoseTree NodeId) :
    RoseTree (Option NodeId × Option String) :=
  t.map fun x => (c.ofDst.get? x, dst.label? x)

/-- **The copy without the branches that have no counterparts is the destination**, if
counterparts have the labels and the children that they should. -/
theorem Sound.trim_subtree (h : c.Sound m) (hd : m.dst.WellFormed)
    (hlabel : ∀ {x w}, c.ofDst.get? x = some w → c.label? w = m.dst.label? x)
    (hchildren : ∀ {x w}, c.ofDst.get? x = some w →
      (c.arena.children w).filterMap c.toDst.get? = m.dst.arena.children x)
    (hw : c.ofDst.get? x = some w) :
    c.outline ((c.arena.subtree w).trim c.toDst.contains) =
      c.image m.dst (m.dst.arena.subtree x) := by
  have hx := h.isLive_of_ofDst hw
  revert w
  refine hd.arena.children_induction (P := fun x => ∀ {w}, c.ofDst.get? x = some w →
    c.outline ((c.arena.subtree w).trim c.toDst.contains) =
      c.image m.dst (m.dst.arena.subtree x)) ?_ x hx
  intro x hx ih w hw
  have hlw := (h.ofDst hw).1
  rw [h.wf.trim_subtree hlw, hd.arena.subtree_eq hx, outline, image, RoseTree.map_node,
    RoseTree.map_node, List.map_map, List.map_map, hw, hlabel hw]
  refine congrArg _ (map_filter_eq_map_of_filterMap (hchildren hw) fun k hk y hy => ?_)
  have hky := (h.toDst (h.wf.isLive_of_mem hlw hk) hy).2
  exact ih y ((hchildren hw) ▸ List.mem_filterMap.2 ⟨k, hk, hy⟩) hky

end WorkingCopy

/-! ### What is taken out, and what remains -/

namespace Draft

variable {m : Mapping} {d₀ d : Draft} {w : NodeId}

/-- **What is taken out, and what remains**, when a draft `d₀` in which all destination nodes have
been seen to becomes the finished draft `d`. -/
structure TakesLeftovers (m : Mapping) (d₀ d : Draft) : Prop where
  /-- A node without counterpart is the copy of a source node without one, and nothing below it
  has one. -/
  leftover : ∀ w, d₀.copy.arena.isLive w → d₀.copy.toDst.get? w = none →
    (∃ s, m.src.contains s ∧ m.hasSrc s = false ∧ d₀.copy.origin? w = some (.src s) ∧
      d₀.copy.ofSrc.get? s = some w) ∧
    ∀ n ∈ d₀.copy.arena.preorder w, d₀.copy.toDst.get? n = none
  /-- Without such nodes the copy is the destination, with the counterpart of every node at its
  place. -/
  image : d₀.copy.outline ((d₀.copy.arena.subtree d₀.copy.root).trim d₀.copy.toDst.contains) =
    d₀.copy.image m.dst (m.dst.arena.subtree m.dst.root)
  /-- These nodes are taken out and no others, -/
  isLive_iff : ∀ n, d.copy.arena.isLive n ↔ d₀.copy.arena.isLive n ∧ d₀.copy.toDst.contains n
  /-- and what remains is as it was. -/
  remains : d.copy.outline (d.copy.arena.subtree d.copy.root) =
    d₀.copy.outline ((d₀.copy.arena.subtree d₀.copy.root).trim d₀.copy.toDst.contains)

/-- What is below a node without counterpart has none. -/
theorem Aligned.toDst_of_mem_preorder (h₀ : Aligned m (Stage.done m) d₀) (hm : m.Sound)
    (hw : d₀.copy.arena.isLive w) (ht : d₀.copy.toDst.get? w = none) {n : NodeId}
    (hn : n ∈ d₀.copy.arena.preorder w) : d₀.copy.toDst.get? n = none := by
  obtain ⟨hln, hb⟩ := (h₀.sound.wf.mem_preorder_iff hw).1 hn
  exact h₀.toDst_of_below hm hb hln ht

/-- **The nodes without counterparts are taken out, and no others.** -/
theorem Pruning.takesLeftovers
    (h : Pruning m d₀ (d₀.copy.arena.postorder d₀.copy.root) d) (hm : m.Sound)
    (hr : m.source? m.dst.root = some m.src.root) (h₀ : Aligned m (Stage.done m) d₀) :
    TakesLeftovers m d₀ d := by
  have hcontains : ∀ {n}, d.copy.arena.isLive n → d.copy.toDst.contains n := by
    intro n hn
    exact NodeMap.contains_iff.2 (h.exists_counterpart hm hr h₀ hn)
  have himage : d₀.copy.outline
      ((d₀.copy.arena.subtree d₀.copy.root).trim d₀.copy.toDst.contains) =
        d₀.copy.image m.dst (m.dst.arena.subtree m.dst.root) :=
    h₀.sound.trim_subtree hm.dst h₀.label?_counterpart (h₀.filterMap_children hm) h₀.root
  have hof : ∀ {x w}, d.copy.ofDst.get? x = some w → d₀.copy.ofDst.get? x = some w := by
    intro x w hw
    rwa [← h.ofDst]
  exact
    { leftover := by
        intro w hw ht
        obtain ⟨s, hs⟩ := h₀.exists_leftover hw ht
        obtain ⟨hls, hsw, hnone⟩ := h₀.source_of_leftover hw hs
        exact ⟨⟨s, hm.src.contains_iff.2 hls, Mapping.hasSrc_eq_false_iff.2 hnone,
          (leftover_eq_some_iff.1 hs).2, hsw⟩, fun n hn => h₀.toDst_of_mem_preorder hm hw ht hn⟩
      image := himage
      isLive_iff := by
        intro n
        constructor
        · intro hn
          exact ⟨h.isLive hn, h.toDst ▸ hcontains hn⟩
        · rintro ⟨hn, hc⟩
          obtain ⟨x, hx⟩ := NodeMap.contains_iff.1 hc
          refine (h.sound.ofDst (x := x) ?_).1
          rw [h.ofDst]
          exact (h₀.sound.toDst hn hx).2
      remains := by
        have hlr : d.copy.arena.isLive d.copy.root := h.sound.rooted.isLive rfl
        have hroot : d.copy.ofDst.get? m.dst.root = some d.copy.root := by
          rw [h.ofDst, h.root]
          exact h₀.root
        have hrest := h.sound.trim_subtree hm.dst
          (fun hw => (h.label? (h.sound.ofDst hw).1).trans (h₀.label?_counterpart (hof hw)))
          (fun hw => (h.filterMap_children (h.sound.ofDst hw).1).trans
            (h₀.filterMap_children hm (hof hw))) hroot
        rw [h.sound.wf.trim_subtree_eq_self (fun k hk => hcontains hk) hlr] at hrest
        rw [hrest, himage, WorkingCopy.image, WorkingCopy.image, h.ofDst] }

end Draft

/-! ### Main result -/

namespace Mapping

open Draft

variable {m : Mapping} {src dst : Tree}

/-- **The nodes without counterparts are taken out, and no others**, quiet or not, if the roots are
counterparts. -/
theorem prune_takesLeftovers (hs : src.Built) (hd : dst.Built) (hm : Filled src dst m)
    (hr : m.has src.root dst.root) (quiet : Bool) : ∃ d₀ d, align m quiet = .ok d₀ ∧
      d₀.prune m quiet = .ok d ∧ m.draft quiet = .ok d ∧ TakesLeftovers m d₀ d := by
  obtain ⟨hsound, rfl, rfl⟩ := hm.sound hs.wellFormed hd.wellFormed
  have hroots := (hsound.right hsound.src.isLive_root (has_iff.1 hr)).2
  obtain ⟨d₀, hd₀, h₀⟩ := exists_aligned hsound hroots
  obtain ⟨d, hprune, h⟩ := h₀.exists_pruning hsound hroots (List.append_nil _).symm
  have halign : align m quiet = .ok (d₀.toned quiet) := by
    rw [align_toned, hd₀]
    rfl
  have hfinish : (d₀.toned quiet).prune m quiet = .ok (d.toned quiet) := by
    rw [prune_toned, prune, hprune]
    rfl
  refine ⟨d₀.toned quiet, d.toned quiet, halign, hfinish, ?_, ?_⟩
  · rw [draft_eq, halign, bind_ok, hfinish]
  · obtain ⟨hleft, himage, hlive, hremains⟩ := h.takesLeftovers hsound hroots h₀
    exact
      { leftover := by simpa only [copy_toned] using hleft
        image := by simpa only [copy_toned] using himage
        isLive_iff := by simpa only [copy_toned] using hlive
        remains := by simpa only [copy_toned] using hremains }

/-- A leaf comes to the root, and the node that it has been below is taken out. -/
theorem prune_takesLeftovers_sheltering : ∃ t₀ src dst m,
    Tree.fan ⟨"item", 0⟩ "old" ["a"] = .ok t₀ ∧
    t₀.addChild ⟨1, 0⟩ ⟨"item", 0⟩ "b" = .ok (⟨2, 0⟩, src) ∧
    Tree.fan ⟨"item", 0⟩ "new" ["b", "c"] = .ok dst ∧ pairing src dst sheltering = .ok m ∧
    m.has src.root dst.root ∧ ∃ d₀ d, align m false = .ok d₀ ∧ d₀.prune m false = .ok d ∧
      m.draft false = .ok d ∧ TakesLeftovers m d₀ d := by
  obtain ⟨t₀, src, dst, m, hfan, hsrc, hdst, hlive, hm, hr⟩ : ∃ t₀ src dst m,
      Tree.fan ⟨"item", 0⟩ "old" ["a"] = .ok t₀ ∧
      t₀.addChild ⟨1, 0⟩ ⟨"item", 0⟩ "b" = .ok (⟨2, 0⟩, src) ∧
      Tree.fan ⟨"item", 0⟩ "new" ["b", "c"] = .ok dst ∧
      (∀ p ∈ sheltering, src.contains p.1 ∧ dst.contains p.2) ∧
      pairing src dst sheltering = .ok m ∧ m.has src.root dst.root :=
    ⟨_, _, _, _, rfl, rfl, rfl, by decide +kernel, rfl, rfl⟩
  exact ⟨t₀, src, dst, m, hfan, hsrc, hdst, hm, hr, prune_takesLeftovers
    (Tree.Built.addChild (Tree.built_fan _ _ _ hfan) hsrc) (Tree.built_fan _ _ _ hdst)
    (filled_pairing sheltering hlive hm) hr false⟩

end Mapping

end TreeScript
