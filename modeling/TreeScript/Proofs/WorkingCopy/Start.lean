/-
**The working copy at the beginning.**

Main definitions:

* `TreeScript.WorkingCopy.Started` — a copy of the source tree, paired as the mapping says.

Main results:

* `TreeScript.WorkingCopy.exists_start` — **the beginning is such a copy**;
* `TreeScript.WorkingCopy.Started.inStep` — and it is in step with a replay that begins.
-/

import TreeScript.Proofs.Arena.Payload
import TreeScript.Proofs.Mapping
import TreeScript.Proofs.Replay.Lockstep
import TreeScript.Proofs.Tree.Built

set_option relaxedAutoImplicit false
set_option autoImplicit false

namespace TreeScript.WorkingCopy

variable {m : Mapping} {c : WorkingCopy} {s x w : NodeId}

/-- **A copy of the source tree**, its nodes paired as the mapping pairs the nodes they are copies
of. -/
structure Started (m : Mapping) (c : WorkingCopy) : Prop where
  wf : c.arena.WellFormed
  rooted : c.arena.Rooted (some c.root)
  matching : Arena.Matching m.src.arena c.arena fun s w => c.ofSrc.get? s = some w
  root : c.ofSrc.get? m.src.root = some c.root
  data : ∀ {s w}, c.ofSrc.get? s = some w →
    c.arena.data? w = (m.src.arena.data? s).map fun d => ⟨d.label, .src s⟩
  toDst : ∀ {w x}, c.toDst.get? w = some x ↔
    ∃ s, c.ofSrc.get? s = some w ∧ m.counterpart? s = some x
  ofDst : ∀ {x w}, c.ofDst.get? x = some w ↔
    ∃ s, c.ofSrc.get? s = some w ∧ m.counterpart? s = some x

/-- The pairs of counterparts in the destination and nodes of the copy. -/
private def counterparts (m : Mapping) (copies : List (NodeId × NodeId)) : List (NodeId × NodeId) :=
  copies.filterMap fun e => (m.counterpart? e.1).map fun d => (d, e.2)

private theorem mem_counterparts {copies : List (NodeId × NodeId)} :
    (x, w) ∈ counterparts m copies ↔ ∃ s, (s, w) ∈ copies ∧ m.counterpart? s = some x := by
  simp only [counterparts, List.mem_filterMap, Option.map_eq_some_iff, Prod.mk.injEq]
  constructor
  · rintro ⟨⟨s, w'⟩, hm, d, hd, rfl, rfl⟩
    exact ⟨s, hm, hd⟩
  · rintro ⟨s, hm, hs⟩
    exact ⟨(s, w), hm, x, hs, rfl, rfl⟩

private theorem foldl_counterparts (copies : List (NodeId × NodeId)) (c : WorkingCopy) :
    copies.foldl
      (fun c e =>
        match m.counterpart? e.1 with
        | some d => c.pair e.2 d
        | none => c) c =
      { c with
        toDst := c.toDst.insertAll ((counterparts m copies).map Prod.swap)
        ofDst := c.ofDst.insertAll (counterparts m copies) } := by
  rw [← foldl_pair, counterparts]
  induction copies generalizing c with
  | nil => rfl
  | cons e copies ih =>
      rw [List.foldl_cons, ih, List.filterMap_cons]
      cases m.counterpart? e.1 with
      | none => rfl
      | some d => rfl

/-- The copy that consists of the given nodes, which are copies of source nodes as `copies` says. -/
private def ofCopies (m : Mapping) (arena : Arena WorkNode) (root : NodeId)
    (copies : List (NodeId × NodeId)) : WorkingCopy where
  arena := arena
  root := root
  ofSrc := .ofList copies
  toDst := NodeMap.empty.insertAll ((counterparts m copies).map Prod.swap)
  ofDst := NodeMap.empty.insertAll (counterparts m copies)

private theorem started_ofCopies (h : m.Sound) {arena : Arena WorkNode} {root : NodeId}
    {copies : List (NodeId × NodeId)} (hw : arena.WellFormed) (hr : arena.Rooted (some root))
    (hm : Arena.Matching m.src.arena arena fun s w => (s, w) ∈ copies)
    (hroot : (m.src.root, root) ∈ copies)
    (hdata : ∀ {s w}, (s, w) ∈ copies →
      arena.data? w = (m.src.arena.data? s).map fun d => ⟨d.label, .src s⟩) :
    Started m (ofCopies m arena root copies) := by
  have hofSrc : ∀ {s w}, (ofCopies m arena root copies).ofSrc.get? s = some w ↔ (s, w) ∈ copies :=
    NodeMap.get?_ofList_iff hm.right_unique
  have hof : ∀ {x w w'}, (x, w) ∈ counterparts m copies → (x, w') ∈ counterparts m copies →
      w = w' := by
    intro x w w' hw hw'
    obtain ⟨s, hs, hx⟩ := mem_counterparts.1 hw
    obtain ⟨s', hs', hx'⟩ := mem_counterparts.1 hw'
    obtain rfl := h.counterpart?_inj (hm.isLive_left hs) (hm.isLive_left hs') hx hx'
    exact hm.right_unique hs hs'
  have hto : ∀ {w x x'}, (w, x) ∈ (counterparts m copies).map Prod.swap →
      (w, x') ∈ (counterparts m copies).map Prod.swap → x = x' := by
    intro w x x' hx hx'
    rw [mem_map_swap] at hx hx'
    obtain ⟨s, hs, hx⟩ := mem_counterparts.1 hx
    obtain ⟨s', hs', hx'⟩ := mem_counterparts.1 hx'
    obtain rfl := hm.left_unique hs hs'
    rw [hx] at hx'
    exact Option.some.inj hx'
  exact
    { wf := hw
      rooted := hr
      matching := hm.congr fun _ _ => hofSrc.symm
      root := hofSrc.2 hroot
      data := fun hs => hdata (hofSrc.1 hs)
      toDst := by
        intro w x
        simp only [hofSrc, ← mem_counterparts]
        refine (NodeMap.get?_insertAll_iff hto).trans ?_
        rw [mem_map_swap]
        simp
      ofDst := by
        intro x w
        simp only [hofSrc, ← mem_counterparts]
        refine (NodeMap.get?_insertAll_iff hof).trans ?_
        simp }

/-- **The beginning is a copy of the source tree.** -/
theorem exists_start (h : m.Sound) : ∃ c, start m = .ok c ∧ Started m c := by
  obtain ⟨v, hview, hv, hids⟩ := h.src.exists_view h.src.isLive_root
  -- what is planted is the view, with the origins written to the nodes
  have hu := hv.map fun s (d : NodeData) => (⟨d.label, .src s⟩ : WorkNode)
  have hids' : (v.map fun e => (e.1, (⟨e.2.label, .src e.1⟩ : WorkNode))).map Prod.fst =
      m.src.arena.subtree m.src.root := (RoseTree.map_map _ _ v).trans hids
  have hstart : start m = .ok (ofCopies m
      (Arena.empty.plant none (v.map fun e => (e.1, (⟨e.2.label, .src e.1⟩ : WorkNode)))).1
      (Arena.empty : Arena WorkNode).nextId
      (Arena.empty.plant none (v.map fun e => (e.1, (⟨e.2.label, .src e.1⟩ : WorkNode)))).2) := by
    rw [start, hview, bind_ok]
    exact congrArg Except.ok (foldl_counterparts _ _)
  refine ⟨_, hstart, ?_⟩
  generalize v.map (fun e => (e.1, (⟨e.2.label, .src e.1⟩ : WorkNode))) = u at hu hids'
  have hg : Arena.Grown (Arena.empty : Arena WorkNode) (Arena.empty.plant none u).1 none
      [Arena.nextId Arena.empty] ((Arena.empty.plant none u).2.map Prod.snd) :=
    Arena.grown_plant u Arena.wellFormed_empty (by simp)
  have hcopied : Arena.CopiedBy m.src.arena.children _
      ((Arena.empty : Arena WorkNode).plant none u).2 (Arena.empty.plant none u).1 :=
    Arena.copiedBy_plant u hu Arena.wellFormed_empty (by simp)
  have hfst := Arena.map_fst_plant_subtree hids' (Arena.empty : Arena WorkNode) none
  refine started_ofCopies h hg.wf (Arena.rooted_empty.of_grown Arena.wellFormed_empty hg)
    (Arena.matching_of_copiedBy hcopied ?_ hg.nodup ?_ ?_) (Arena.mem_plant_subtree hids' _ none)
    fun hs => (hcopied _ _ hs).1
  · rw [hfst]
    exact h.src.arena.nodup_preorder h.src.isLive_root
  · intro s
    rw [hfst]
    exact h.src.mem_preorder_iff.symm
  · intro w
    rw [hg.isLive_iff]
    simp [Arena.isLive, Arena.empty]

/-! ### The beginning of a replay -/

/-- **The beginning is in step with a replay that begins.** -/
theorem Started.inStep (h : Started m c) (hs : m.src.WellFormed) :
    InStep m.src m.dst c (Replay.start m.src m.dst) := by
  have hstands : ∀ {s w}, c.ofSrc.get? s = some w ↔ c.StandsFor (Replay.start m.src m.dst) w s := by
    intro s w
    constructor
    · intro hw
      have hls := h.matching.isLive_left hw
      have hlw := h.matching.isLive_right hw
      obtain ⟨d, hd⟩ := Arena.exists_data?_of_isLive hls
      refine ⟨hlw, .src s, ?_, (Replay.live?_start hs).2 ⟨rfl, hls⟩⟩
      rw [origin?, h.data hw, hd]
      rfl
    · rintro ⟨hlw, ref, ho, hl⟩
      obtain ⟨rfl, -⟩ := (Replay.live?_start hs).1 hl
      obtain ⟨s', hw⟩ := h.matching.exists_left hlw
      obtain ⟨d, hd⟩ := Arena.exists_data?_of_isLive (h.matching.isLive_left hw)
      rw [origin?, h.data hw, hd] at ho
      cases ho
      exact hw
  exact
    { matching := by
        rw [Replay.arena_start]
        exact h.matching.symm.congr fun _ _ => hstands
      root := ⟨_, Replay.root_start _ _, hstands.1 h.root⟩
      label := by
        intro w s hw
        rw [label?, h.data (hstands.2 hw), Replay.arena_start]
        cases m.src.arena.data? s <;> rfl
      wf := h.wf
      sound := Replay.sound_start hs m.dst
      twoWay := Replay.twoWay_start hs
      reads := Replay.dst_start _ _
      kind := by
        intro ref n hl
        obtain ⟨rfl, -⟩ := (Replay.live?_start hs).1 hl
        rw [Replay.arena_start]
        rfl }

end TreeScript.WorkingCopy
