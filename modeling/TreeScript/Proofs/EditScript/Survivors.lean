/-
**Edits that move nothing need no moves.**

If a copy of the source is edited by adding leaves and taking out subtrees, and each source node
that is left is paired with itself, the script has nothing to move and nothing to relabel: a node
that is left is under the node that it was under, and among the children that are left the order is
the old one, so that all of them stay.  That slots are used again makes no difference, since the new
tenant of a slot is no source node.

Main definitions:

* `TreeScript.Mapping.survivors`, `TreeScript.Mapping.PairsSurvivors` — **the source nodes that are
  left, each paired with itself**.

Main results:

* `TreeScript.Mapping.PairsSurvivors.moving_eq_nil`,
  `TreeScript.Mapping.PairsSurvivors.relabels_eq_false` — what there is to do for one node;
* `TreeScript.Mapping.editScript_moves_nothing` — **the script moves and relabels nothing, and makes
  the edited tree**.
-/

import TreeScript.Proofs.EditScript.Moves
import TreeScript.Proofs.EditScript.Silent
import TreeScript.Proofs.Tree.Edited

set_option relaxedAutoImplicit false
set_option autoImplicit false

namespace TreeScript

/-- An action moves or relabels if it moves a node or relabels one. -/
theorem Action.isMoveOrUpdate_eq (a : Action) :
    a.isMoveOrUpdate = (a.moved?.isSome || a.updated?.isSome) := by
  cases a <;> rfl

namespace Mapping

variable {m : Mapping} {src dst : Tree} {s x : NodeId}

/-! ### Survivors -/

/-- The pairs of the source nodes that the destination contains, each with itself. -/
def survivors (src dst : Tree) : List (NodeId × NodeId) :=
  (src.preorder.filter dst.contains).map fun n => (n, n)

/-- **The source nodes that the destination contains are paired with themselves**, and the others
with no node. -/
def PairsSurvivors (m : Mapping) : Prop :=
  ∀ n, m.src.contains n → m.counterpart? n = if m.dst.contains n then some n else none

theorem mem_survivors (hs : src.WellFormed) {p : NodeId × NodeId} :
    p ∈ survivors src dst ↔ p.1 = p.2 ∧ src.contains p.1 ∧ dst.contains p.1 := by
  obtain ⟨n, k⟩ := p
  simp only [survivors, List.mem_map, List.mem_filter, hs.mem_preorder_iff, ← hs.contains_iff,
    Prod.mk.injEq]
  constructor
  · rintro ⟨n, ⟨hn, hn'⟩, rfl, rfl⟩
    exact ⟨rfl, hn, hn'⟩
  · rintro ⟨rfl, hn, hn'⟩
    exact ⟨n, ⟨hn, hn'⟩, rfl, rfl⟩

/-- **The survivors can be paired**, also if the pairs have to fit. -/
theorem exists_survivors (hs : src.WellFormed) (hd : dst.WellFormed) (h : src.Unmoved dst) :
    ∃ m, pairing src dst (survivors src dst) = .ok m ∧
      (survivors src dst).foldlM (fun m p => m.addChecked p.1 p.2) (empty src dst) = .ok m ∧
      Filled src dst m ∧ m.PairsSurvivors := by
  have hmem : ∀ p, p ∈ survivors src dst ↔ p.1 = p.2 ∧ src.contains p.1 ∧ dst.contains p.1 :=
    fun p => mem_survivors hs
  have hnodup : ((src.preorder.filter dst.contains).map id).Nodup := by
    rw [List.map_id]
    exact hs.nodup_preorder.filter _
  obtain ⟨m, hm, hchecked, hpairs⟩ := Pairs.exists_foldlM (l := survivors src dst) hs hd
    (by
      intro p hp
      obtain ⟨heq, hls, hld⟩ := (hmem p).1 hp
      have hls := hs.contains_iff.1 hls
      have hld := hd.contains_iff.1 hld
      rw [← heq]
      exact ⟨hls, hld, (h.keeps_common.data? (Tree.common_iff.2 ⟨hls, hld⟩)).symm⟩)
    (by rw [survivors, List.map_map]; exact hnodup) (by rw [survivors, List.map_map]; exact hnodup)
  refine ⟨m, hm, hchecked, ?_, ?_⟩
  · refine filled_pairing _ (fun p hp => ?_) hm
    obtain ⟨heq, hls, hld⟩ := (hmem p).1 hp
    exact ⟨hls, heq ▸ hld⟩
  · intro n hn
    rw [hpairs.src_eq] at hn
    rw [hpairs.dst_eq]
    have hiff := fun x => (hpairs.counterpart?_iff (x := x) (hs.contains_iff.1 hn)).trans (hmem _)
    split
    case isTrue hld => exact (hiff n).2 ⟨rfl, hn, hld⟩
    case isFalse hld =>
      refine Option.eq_none_iff_forall_ne_some.2 fun x hx => ?_
      exact hld ((hiff x).1 hx).2.2

/-! ### Nothing to do for one node -/

namespace PairsSurvivors

variable (h : m.PairsSurvivors) (hm : m.Sound) (hu : m.src.Unmoved m.dst)

include h hm

/-- The counterpart of a destination node, if there is one, is the node itself. -/
theorem source?_iff (hx : m.dst.arena.isLive x) :
    m.source? x = some s ↔ s = x ∧ m.src.arena.isLive x := by
  constructor
  · intro hs
    obtain ⟨hls, hsx⟩ := hm.left hx hs
    rw [h s (hm.src.contains_iff.2 hls)] at hsx
    split at hsx
    · obtain rfl := Option.some.inj hsx
      exact ⟨rfl, hls⟩
    · cases hsx
  · rintro ⟨rfl, hs⟩
    have hss := h s (hm.src.contains_iff.2 hs)
    rw [if_pos (hm.dst.contains_iff.2 hx)] at hss
    exact (hm.right hs hss).2

include hu

/-- No survivor has to go under another parent. -/
theorem crosses_eq_false (hx : m.dst.arena.isLive x) : m.crosses x = false := by
  cases hs : m.source? x with
  | none => rw [crosses, hs]
  | some s =>
      cases hp : m.dst.arena.parent? x with
      | none => rw [crosses, hs, hp]
      | some y =>
          obtain ⟨rfl, hls⟩ := (h.source?_iff hm hx).1 hs
          have hps : m.src.arena.parent? s = some y :=
            (hu.keeps_common.parent? (Tree.common_iff.2 ⟨hls, hx⟩)).symm.trans hp
          have hly := hm.dst.arena.isLive_of_parent? hx hp
          have hys : m.source? y = some y :=
            (h.source?_iff hm hly).2 ⟨rfl, hm.src.arena.isLive_of_parent? hls hps⟩
          rw [Bool.eq_false_iff, ne_eq, crosses_iff hs hp, not_not, hps, hys]

/-- The children that a survivor has in common with itself are those that survive. -/
theorem ownTargets_eq (hx : m.dst.arena.isLive x) (hs : m.source? x = some x) :
    m.ownTargets x = (m.dst.arena.children x).filter (m.src.common m.dst) := by
  rw [ownTargets, hs]
  refine List.filter_congr fun b hb => ?_
  obtain ⟨hlb, hpb⟩ := hm.dst.arena.of_mem_children hx hb
  rw [Bool.eq_iff_iff]
  constructor
  · intro hown
    cases ht : m.source? b with
    | none => simp [ht] at hown
    | some t => exact Tree.common_iff.2 ⟨((h.source?_iff hm hlb).1 ht).2, hlb⟩
  · intro hcommon
    have ht : m.source? b = some b :=
      (h.source?_iff hm hlb).2 ⟨rfl, (Tree.common_iff.1 hcommon).1⟩
    have hp := (hu.keeps_common.parent? hcommon).symm.trans hpb
    simp [ht, hp]

/-- **The children that survive stay where they are**, all of them. -/
theorem stay_eq (hx : m.dst.arena.isLive x) (hs : m.source? x = some x) :
    m.stay x = m.ownTargets x := by
  have hls := ((h.source?_iff hm hx).1 hs).2
  have hown := h.ownTargets_eq hm hu hx hs
  -- they come from themselves, in the order that they had
  have hsources : (m.ownTargets x).filterMap m.source? =
      (m.src.arena.children x).filter (m.src.common m.dst) := by
    rw [← hu.keeps_common.children hls hx, hown]
    refine (List.filterMap_congr fun b hb => ?_).trans List.filterMap_some
    obtain ⟨hlb, hlb'⟩ := Tree.common_iff.1 (List.mem_filter.1 hb).2
    exact (h.source?_iff hm hlb').2 ⟨rfl, hlb⟩
  exact (stay_sublist x).eq_of_length_le (length_le_stay hm hx hs (List.Sublist.refl _)
    (hsources ▸ List.filter_sublist))

/-- **Nothing is moved.** -/
theorem moving_eq_nil (hx : m.dst.arena.isLive x) : m.moving x = [] := by
  cases hs : m.source? x with
  | none => exact moving_of_unmapped hs
  | some s =>
      obtain ⟨rfl, -⟩ := (h.source?_iff hm hx).1 hs
      rw [moving, h.crosses_eq_false hm hu hx, reordered, h.stay_eq hm hu hx hs]
      simp

/-- **Nothing is relabeled.** -/
theorem relabels_eq_false (hx : m.dst.arena.isLive x) : m.relabels x = false := by
  cases hs : m.source? x with
  | none => exact relabels_of_unmapped hs
  | some s =>
      obtain ⟨rfl, hls⟩ := (h.source?_iff hm hx).1 hs
      have hdata := hu.keeps_common.data? (Tree.common_iff.2 ⟨hls, hx⟩)
      rw [Bool.eq_false_iff, ne_eq, relabels_iff hs, not_not, Tree.label?, Tree.label?, hdata]

/-- **The script moves and relabels nothing**, and it can be replayed. -/
theorem exists_editScript : ∃ script t, m.editScript false = .ok script ∧
    (∀ a ∈ script, a.isMoveOrUpdate = false) ∧ replay m.src m.dst script = .ok t ∧
    t.isomorphicTo m.dst = .ok true := by
  have hroot : m.source? m.dst.root = some m.src.root :=
    (h.source?_iff hm hm.dst.isLive_root).2 ⟨hu.root.symm, hu.root ▸ hm.src.isLive_root⟩
  obtain ⟨d, -, hscript, hf⟩ := hm.exists_draft hroot
  obtain ⟨script, t, hscript', hreplay, hreal, -⟩ := hm.exists_realised hroot
  obtain rfl := Except.ok.inj (hscript.symm.trans hscript')
  refine ⟨d.script, t, hscript, fun a ha => ?_, hreplay, hreal.isomorphic⟩
  have hlive : ∀ x ∈ m.dst.iter, m.dst.arena.isLive x := fun x hx => hm.dst.mem_iter_iff.1 hx
  have hmoved : d.script.filterMap Action.moved? = [] := by
    rw [hf.filterMap_moved? hm hroot,
      List.flatMap_eq_nil_iff.2 fun x hx => h.moving_eq_nil hm hu (hlive x hx)]
    rfl
  have hupdated : d.script.filterMap Action.updated? = [] := by
    rw [hf.filterMap_updated? hm hroot, List.filter_eq_nil_iff.2 fun x hx => by
      simp [h.relabels_eq_false hm hu (hlive x hx)]]
    rfl
  rw [Action.isMoveOrUpdate_eq, List.filterMap_eq_nil_iff.1 hmoved a ha,
    List.filterMap_eq_nil_iff.1 hupdated a ha]
  rfl

end PairsSurvivors

/-! ### Main result -/

/-- **Edits that move nothing need no moves.**  However leaves have been added to a copy of the source
and subtrees have been taken from it, the source nodes that are left can be paired with themselves;
and if just they are paired, the script moves nothing and relabels nothing, and replaying it gives a
tree that is isomorphic to the edited copy. -/
theorem editScript_moves_nothing (hs : src.Built) (he : src.Edited dst) :
    (∃ m, pairing src dst (survivors src dst) = .ok m ∧
      (survivors src dst).foldlM (fun m p => m.addChecked p.1 p.2) (empty src dst) = .ok m ∧
      Filled src dst m ∧ m.PairsSurvivors) ∧
    ∀ m, Filled src dst m → m.PairsSurvivors → ∃ script t, m.editScript false = .ok script ∧
      (∀ a ∈ script, a.isMoveOrUpdate = false) ∧ replay src dst script = .ok t ∧
      t.isomorphicTo dst = .ok true := by
  have hu := he.unmoved hs
  have hd := (he.built hs).wellFormed
  refine ⟨exists_survivors hs.wellFormed hd hu, fun m hm h => ?_⟩
  obtain ⟨hsound, rfl, rfl⟩ := hm.sound hs.wellFormed hd
  exact h.exists_editScript hsound hu

/-- A leaf is taken out, and another one gets its slot behind the leaf that is left. -/
theorem editScript_moves_nothing_reusing : ∃ src t dst m, ∃ a b : NodeId,
    Tree.fan ⟨"item", 0⟩ "top" ["a", "b"] = .ok src ∧
    src.removeChild src.root 0 = .ok (some a, t) ∧
    t.insertChild src.root 1 ⟨"item", 0⟩ "c" = .ok (b, dst) ∧ a.slot = b.slot ∧
    pairing src dst [(⟨0, 0⟩, ⟨0, 0⟩), (⟨2, 0⟩, ⟨2, 0⟩)] = .ok m ∧
    ∃ script u, m.editScript false = .ok script ∧ (∀ a ∈ script, a.isMoveOrUpdate = false) ∧
      replay src dst script = .ok u ∧ u.isomorphicTo dst = .ok true := by
  obtain ⟨src, t, dst, a, b, hsrc, ht, hdst, hp, hq, hslot, hleft⟩ : ∃ src t dst, ∃ a b : NodeId,
      Tree.fan ⟨"item", 0⟩ "top" ["a", "b"] = .ok src ∧
      src.removeChild src.root 0 = .ok (some a, t) ∧
      t.insertChild src.root 1 ⟨"item", 0⟩ "c" = .ok (b, dst) ∧ src.contains src.root ∧
      t.contains src.root ∧ a.slot = b.slot ∧
      survivors src dst = [(⟨0, 0⟩, ⟨0, 0⟩), (⟨2, 0⟩, ⟨2, 0⟩)] :=
    ⟨_, _, _, _, _, rfl, rfl, rfl, rfl, rfl, rfl, rfl⟩
  have he : src.Edited dst := (Tree.Edited.copy.removeChild hp ht).insertChild hq hdst
  obtain ⟨⟨m, hm, -, hfilled, h⟩, hscript⟩ :=
    editScript_moves_nothing (Tree.built_fan _ _ _ hsrc) he
  exact ⟨src, t, dst, m, a, b, hsrc, ht, hdst, hslot, hleft ▸ hm, hscript m hfilled h⟩

end Mapping

end TreeScript
