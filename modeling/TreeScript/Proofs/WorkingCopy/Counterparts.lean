/-
**Nodes of the working copy and their counterparts.**

Main definitions:

* `TreeScript.WorkingCopy.Sound` — **links are in order, and the tables say who is whose
  counterpart**: copies of source nodes have the counterparts that the mapping gives them, and a
  node that was made for a destination node without counterpart has that one.

Main results:

* `TreeScript.WorkingCopy.Started.sound` — so it is at the beginning;
* `TreeScript.WorkingCopy.Sound.relabeled`, `TreeScript.WorkingCopy.Sound.moved`,
  `TreeScript.WorkingCopy.Sound.grafted`, `TreeScript.WorkingCopy.Sound.pruned` — **and after
  every change**.
-/

import TreeScript.Proofs.WorkingCopy.Start

set_option relaxedAutoImplicit false
set_option autoImplicit false

namespace TreeScript.WorkingCopy

variable {m : Mapping} {c : WorkingCopy} {s x y w w' p : NodeId} {k : Nat}
  {v : RoseTree (NodeId × String)} {C : NodeId → List NodeId} {D : NodeId → Option String}

/-- **Links are in order, and the tables say who is whose counterpart.** -/
structure Sound (m : Mapping) (c : WorkingCopy) : Prop where
  wf : c.arena.WellFormed
  rooted : c.arena.Rooted (some c.root)
  /-- The copy of a source node has the counterpart of that node. -/
  source : ∀ {w s}, c.arena.isLive w → c.origin? w = some (.src s) →
    m.src.arena.isLive s ∧ c.ofSrc.get? s = some w ∧ c.toDst.get? w = m.counterpart? s
  /-- A node is made for a destination node without counterpart in the source. -/
  made : ∀ {w x}, c.arena.isLive w → c.origin? w = some (.dst x) →
    m.dst.arena.isLive x ∧ m.source? x = none ∧ c.toDst.get? w = some x
  /-- The two tables of counterparts are inverse to each other. -/
  toDst : ∀ {w x}, c.arena.isLive w → c.toDst.get? w = some x →
    m.dst.arena.isLive x ∧ c.ofDst.get? x = some w
  ofDst : ∀ {x w}, c.ofDst.get? x = some w → c.arena.isLive w ∧ c.toDst.get? w = some x
  /-- What the mapping pairs is paired. -/
  mapped : ∀ {s x}, m.src.arena.isLive s → m.counterpart? s = some x →
    ∃ w, c.ofSrc.get? s = some w ∧ c.ofDst.get? x = some w

/-! ### The beginning -/

theorem Started.origin?_eq (h : Started m c) (hs : c.ofSrc.get? s = some w) :
    c.origin? w = some (.src s) := by
  obtain ⟨d, hd⟩ := Arena.exists_data?_of_isLive (h.matching.isLive_left hs)
  rw [origin?, h.data hs, hd]
  rfl

theorem Started.label?_eq (h : Started m c) (hs : c.ofSrc.get? s = some w) :
    c.label? w = (m.src.arena.data? s).map NodeData.label := by
  rw [label?, h.data hs]
  cases m.src.arena.data? s <;> rfl

theorem Started.sound (h : Started m c) (hm : m.Sound) : c.Sound m where
  wf := h.wf
  rooted := h.rooted
  source := by
    intro w s hw ho
    obtain ⟨s', hs'⟩ := h.matching.exists_left hw
    rw [h.origin?_eq hs'] at ho
    cases ho
    refine ⟨h.matching.isLive_left hs', hs', Option.ext fun x => ?_⟩
    rw [h.toDst]
    refine ⟨fun ⟨s', hs, hx⟩ => ?_, fun hx => ⟨s, hs', hx⟩⟩
    rwa [h.matching.left_unique hs' hs]
  made := by
    intro w x hw ho
    obtain ⟨s, hs⟩ := h.matching.exists_left hw
    rw [h.origin?_eq hs] at ho
    cases ho
  toDst := by
    intro w x _ hx
    obtain ⟨s, hs, hsx⟩ := h.toDst.1 hx
    exact ⟨(hm.right (h.matching.isLive_left hs) hsx).1, h.ofDst.2 ⟨s, hs, hsx⟩⟩
  ofDst := by
    intro x w hw
    obtain ⟨s, hs, hsx⟩ := h.ofDst.1 hw
    exact ⟨h.matching.isLive_right hs, h.toDst.2 ⟨s, hs, hsx⟩⟩
  mapped := by
    intro s x hs hsx
    obtain ⟨w, hw⟩ := h.matching.exists_right hs
    exact ⟨w, hw, h.ofDst.2 ⟨s, hw, hsx⟩⟩

namespace Sound

variable (h : c.Sound m)

include h

/-! ### Counterparts -/

theorem isLive_of_ofDst (hx : c.ofDst.get? x = some w) : m.dst.arena.isLive x :=
  (h.toDst (h.ofDst hx).1 (h.ofDst hx).2).1

theorem ofDst_inj (hx : c.ofDst.get? x = some w) (hy : c.ofDst.get? y = some w) : x = y := by
  have hx := (h.ofDst hx).2
  rw [(h.ofDst hy).2] at hx
  exact (Option.some.inj hx).symm

/-- The counterpart of a destination node that the mapping pairs is a copy of a source node. -/
theorem origin?_of_source? (hm : m.Sound) (hx : c.ofDst.get? x = some w)
    (hs : m.source? x = some s) : c.origin? w = some (.src s) := by
  have hlx := h.isLive_of_ofDst hx
  obtain ⟨hlw, hwx⟩ := h.ofDst hx
  obtain ⟨ref, ho⟩ := exists_origin hlw
  cases ref with
  | src s' =>
      obtain ⟨hls, -, hs'⟩ := h.source hlw ho
      rw [hwx] at hs'
      have := (hm.right hls hs'.symm).2
      rw [hs] at this
      obtain rfl := Option.some.inj this
      exact ho
  | dst x' =>
      obtain ⟨-, hnone, hx'⟩ := h.made hlw ho
      rw [hwx] at hx'
      obtain rfl := Option.some.inj hx'
      rw [hs] at hnone
      cases hnone

/-- The counterpart of a destination node that the mapping does not pair was made for it. -/
theorem origin?_of_unmapped (hm : m.Sound) (hx : c.ofDst.get? x = some w)
    (hs : m.source? x = none) : c.origin? w = some (.dst x) := by
  obtain ⟨hlw, hwx⟩ := h.ofDst hx
  obtain ⟨ref, ho⟩ := exists_origin hlw
  cases ref with
  | src s =>
      obtain ⟨hls, -, hs'⟩ := h.source hlw ho
      rw [hwx] at hs'
      rw [(hm.right hls hs'.symm).2] at hs
      cases hs
  | dst x' =>
      obtain ⟨-, -, hx'⟩ := h.made hlw ho
      rw [hwx] at hx'
      obtain rfl := Option.some.inj hx'
      exact ho

/-- What has no counterpart has not been made. -/
theorem lacks (hx : c.ofDst.get? x = none) : c.Lacks x := by
  intro w hw ho
  obtain ⟨-, -, hwx⟩ := h.made hw ho
  rw [(h.toDst hw hwx).2] at hx
  cases hx

/-! ### Changes that keep all nodes -/

theorem relabeled (hw : c.arena.isLive w) (label : String) : (c.relabeled w label).Sound m where
  wf := by rw [arena_relabeled]; exact h.wf.setData w _
  rooted := by rw [arena_relabeled]; exact h.rooted.setData w _
  source := by
    intro n s hn ho
    rw [isLive_relabeled] at hn
    rw [origin?_relabeled hw label hn] at ho
    exact h.source hn ho
  made := by
    intro n x hn ho
    rw [isLive_relabeled] at hn
    rw [origin?_relabeled hw label hn] at ho
    exact h.made hn ho
  toDst hn hx := h.toDst (by rwa [isLive_relabeled] at hn) hx
  ofDst hx := by
    rw [isLive_relabeled]
    exact h.ofDst hx
  mapped := h.mapped

theorem moved (hw : c.arena.isLive w) (hp : c.arena.isLive p) (hb : ¬ c.arena.Below w p)
    (k : Nat) : (c.moved w p k).Sound m where
  wf := Arena.wellFormed_move h.wf hw hp hb k
  rooted := h.rooted.move h.wf hw hp hb k
  source hn ho := h.source (isLive_moved c .. ▸ hn) (by rwa [origin?_moved] at ho)
  made hn ho := h.made (isLive_moved c .. ▸ hn) (by rwa [origin?_moved] at ho)
  toDst hn hx := h.toDst (isLive_moved c .. ▸ hn) hx
  ofDst hx := by rw [isLive_moved]; exact h.ofDst hx
  mapped := h.mapped

/-! ### Bringing in a part of the destination -/

end Sound

theorem toDst_grafted_iff (hnd : ((c.copies v).map Prod.snd).Nodup) :
    (c.grafted v p k).toDst.get? w = some x ↔
      (x, w) ∈ c.copies v ∨ w ∉ (c.copies v).map Prod.snd ∧ c.toDst.get? w = some x := by
  have hu : ∀ {w x x'}, (w, x) ∈ (c.copies v).map Prod.swap →
      (w, x') ∈ (c.copies v).map Prod.swap → x = x' := by
    intro w x x' hx hx'
    exact fst_unique_of_nodup hnd (mem_map_swap.1 hx) (mem_map_swap.1 hx')
  have hkeys : ((c.copies v).map Prod.swap).map Prod.fst = (c.copies v).map Prod.snd := by
    rw [List.map_map]; rfl
  refine (NodeMap.get?_insertAll_iff hu).trans ?_
  rw [mem_map_swap, hkeys]

theorem ofDst_grafted_iff (hnd : (v.preorder.map Prod.fst).Nodup) :
    (c.grafted v p k).ofDst.get? x = some w ↔
      (x, w) ∈ c.copies v ∨ x ∉ v.preorder.map Prod.fst ∧ c.ofDst.get? x = some w := by
  rw [← map_fst_copies c v] at hnd ⊢
  exact NodeMap.get?_insertAll_iff (snd_unique_of_nodup hnd)

/-- What was there before keeps its counterpart. -/
theorem toDst_grafted_of_isLive (hw : c.arena.WellFormed) (hn : c.arena.isLive w) :
    (c.grafted v p k).toDst.get? w = c.toDst.get? w := by
  have hg := grown_made hw v
  have hnot : w ∉ (c.copies v).map Prod.snd := fun hm => hg.not_isLive hm hn
  refine Option.ext fun x => (toDst_grafted_iff hg.nodup).trans ⟨?_, fun hx => Or.inr ⟨hnot, hx⟩⟩
  rintro (hm | ⟨-, hx⟩)
  · exact absurd (List.mem_map_of_mem hm) hnot
  · exact hx

theorem ofDst_grafted_iff_of_new (hnd : (v.preorder.map Prod.fst).Nodup)
    (hnew : ∀ x ∈ v.preorder.map Prod.fst, c.ofDst.get? x = none) :
    (c.grafted v p k).ofDst.get? x = some w ↔ (x, w) ∈ c.copies v ∨ c.ofDst.get? x = some w := by
  refine (ofDst_grafted_iff hnd).trans (or_congr_right (and_iff_right_of_imp fun hx hm => ?_))
  rw [hnew x hm] at hx
  cases hx

namespace Sound

variable (h : c.Sound m)

include h

theorem grafted (hp : c.arena.isLive p) (hv : Depicts C D v)
    (hnd : (v.preorder.map Prod.fst).Nodup)
    (hnew : ∀ x ∈ v.preorder.map Prod.fst,
      m.dst.arena.isLive x ∧ m.source? x = none ∧ c.ofDst.get? x = none)
    (k : Nat) : (c.grafted v p k).Sound m := by
  have hg := grafted_spec h.wf hp hv k
  have hgrown := grown_made h.wf v
  have hmem : ∀ {x w}, (x, w) ∈ c.copies v → x ∈ v.preorder.map Prod.fst := fun hm =>
    map_fst_copies c v ▸ List.mem_map_of_mem hm
  have hto : ∀ {w x}, (c.grafted v p k).toDst.get? w = some x ↔
      (x, w) ∈ c.copies v ∨ w ∉ (c.copies v).map Prod.snd ∧ c.toDst.get? w = some x :=
    toDst_grafted_iff hg.nodup
  have hold : ∀ {w}, c.arena.isLive w → (c.grafted v p k).toDst.get? w = c.toDst.get? w :=
    toDst_grafted_of_isLive h.wf
  have hof : ∀ {x w}, (c.grafted v p k).ofDst.get? x = some w ↔
      (x, w) ∈ c.copies v ∨ c.ofDst.get? x = some w :=
    ofDst_grafted_iff_of_new hnd fun x hx => (hnew x hx).2.2
  exact
    { wf := hg.wf
      rooted := h.rooted.graft hgrown hp k
      source := by
        intro w s hw ho
        rcases hg.isLive_iff.1 hw with hw | hw
        · rw [origin?_of_grafted hg hw] at ho
          rw [hold hw]
          exact h.source hw ho
        · obtain ⟨x, hx⟩ := exists_mem_of_snd hw
          rw [origin?_of_mem hg hx] at ho
          cases ho
      made := by
        intro w x hw ho
        rcases hg.isLive_iff.1 hw with hw | hw
        · rw [origin?_of_grafted hg hw] at ho
          rw [hold hw]
          exact h.made hw ho
        · obtain ⟨x', hx⟩ := exists_mem_of_snd hw
          rw [origin?_of_mem hg hx] at ho
          cases ho
          obtain ⟨hlx, hsx, -⟩ := hnew _ (hmem hx)
          exact ⟨hlx, hsx, hto.2 (Or.inl hx)⟩
      toDst := by
        intro w x _ hx
        rcases hto.1 hx with hm | ⟨hnot, hx⟩
        · exact ⟨(hnew x (hmem hm)).1, hof.2 (Or.inl hm)⟩
        · rcases hg.isLive_iff.1 ‹_› with hw | hw
          · obtain ⟨hlx, hxw⟩ := h.toDst hw hx
            exact ⟨hlx, hof.2 (Or.inr hxw)⟩
          · exact absurd hw hnot
      ofDst := by
        intro x w hx
        rcases hof.1 hx with hm | hx
        · exact ⟨hg.isLive_new (List.mem_map_of_mem hm), hto.2 (Or.inl hm)⟩
        · obtain ⟨hw, hwx⟩ := h.ofDst hx
          exact ⟨hg.isLive hw, by rw [hold hw, hwx]⟩
      mapped := by
        intro s x hs hsx
        obtain ⟨w, hw, hx⟩ := h.mapped hs hsx
        exact ⟨w, hw, hof.2 (Or.inr hx)⟩ }

/-! ### Taking out a subtree -/

/-- A subtree goes in which nothing has a counterpart. -/
theorem pruned (hw : c.arena.isLive w) (hroot : w ≠ c.root)
    (hun : ∀ n, c.arena.isLive n → c.arena.Below w n → c.toDst.get? n = none) :
    (c.pruned w).Sound m := by
  have hlive : ∀ {n}, (c.pruned w).arena.isLive n ↔ c.arena.isLive n ∧ ¬ c.arena.Below w n :=
    Arena.isLive_removeSubtree_iff h.wf hw
  exact
    { wf := h.wf.removeSubtree hw
      rooted := by
        have hr := h.rooted.removeSubtree h.wf hw
        rwa [if_neg fun e => hroot (Option.some.inj e).symm] at hr
      source := by
        intro n s hn ho
        obtain ⟨hn, hb⟩ := hlive.1 hn
        rw [origin?_pruned h.wf hw hn hb] at ho
        exact h.source hn ho
      made := by
        intro n x hn ho
        obtain ⟨hn, hb⟩ := hlive.1 hn
        rw [origin?_pruned h.wf hw hn hb] at ho
        exact h.made hn ho
      toDst := fun hn hx => h.toDst (hlive.1 hn).1 hx
      ofDst := by
        intro x n hx
        obtain ⟨hn, hnx⟩ := h.ofDst hx
        refine ⟨hlive.2 ⟨hn, fun hb => ?_⟩, hnx⟩
        rw [hun n hn hb] at hnx
        cases hnx
      mapped := h.mapped }

end Sound

end TreeScript.WorkingCopy
