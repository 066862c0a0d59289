/-
**A draft in the course of alignment.**

While destination nodes are visited, the draft keeps to an invariant that says how much of the
work is done.  A node is named when its counterpart has its label, placed when its counterpart is
where it belongs, opened when its children may come in, and arranged when those of its children
that are there already are in order.

Main definitions:

* `TreeScript.Draft.settled` — the destination nodes in order, and those brought in with others;
* `TreeScript.Draft.Stage` — how far the work has come;
* `TreeScript.Draft.Aligned` — **the invariant**.

Main results:

* `TreeScript.Draft.aligned_start` — the invariant holds at the beginning;
* `TreeScript.Draft.Aligned.relabeled`, `TreeScript.Draft.Aligned.moved` — **what a change that
  keeps all nodes does to it**;
* `TreeScript.Draft.Aligned.not_below` — a node that is placed is not below one that is not.
-/

import Mathlib.Data.Set.Insert
import TreeScript.Proofs.Draft.Plan
import TreeScript.Proofs.Draft.Siblings
import TreeScript.Proofs.WorkingCopy.Counterparts

set_option relaxedAutoImplicit false
set_option autoImplicit false

namespace TreeScript

/-- A counterpart goes by the name that the plan has for it. -/
theorem WorkingCopy.Sound.origin?_eq_ref {m : Mapping} {c : WorkingCopy} {x w : NodeId}
    (h : c.Sound m) (hm : m.Sound) (hx : c.ofDst.get? x = some w) :
    c.origin? w = some (m.ref x) := by
  unfold Mapping.ref
  split
  case h_1 s hs => exact h.origin?_of_source? hm hx hs
  case h_2 hs => exact h.origin?_of_unmapped hm hx hs

namespace Draft

open WorkingCopy

variable {m : Mapping} {d : Draft} {c c' : WorkingCopy} {x y b n s t w z : NodeId}

/-! ### Changes -/

/-- The destination nodes whose counterparts stand in the right order among their siblings, and
those that were brought in below another one. -/
def settled (d : Draft) (x : NodeId) : Bool := d.inOrder.contains x || d.grafted.contains x

theorem settled_mark (d : Draft) (x v : NodeId) :
    (d.mark x).settled v = (decide (x = v) || d.settled v) := by
  simp only [settled, mark, NodeSet.contains_add, Bool.or_assoc]

/-- The draft after one more change. -/
def performed (d : Draft) (c : WorkingCopy) (change : Change) (action : Action) : Draft :=
  { d with copy := c, edits := d.edits ++ [edit false change action] }

section Performed

variable (d : Draft) (c : WorkingCopy) (change : Change) (action : Action)

@[simp] theorem copy_performed : (d.performed c change action).copy = c := rfl

@[simp] theorem settled_performed : (d.performed c change action).settled = d.settled := rfl

@[simp] theorem copy_mark (x : NodeId) : (d.mark x).copy = d.copy := rfl

@[simp] theorem script_mark (x : NodeId) : (d.mark x).script = d.script := rfl

end Performed

theorem script_performed (d : Draft) (c : WorkingCopy) (change : Change) (action : Action) :
    (d.performed c change action).script = d.script ++ [action] := by
  simp [script, performed, edit]

/-- **A change that fits is carried out**, and the script tells of it. -/
theorem perform_ok {change : Change} {action : Action} (hw : d.copy.arena.WellFormed)
    (hd : m.dst.WellFormed) (hs : Step m.dst d.copy change action c) :
    d.perform false change = .ok (d.performed c change action) := by
  rw [perform, hs.apply_eq hw, hs.report?_eq hd]
  rfl

/-! ### The invariant -/

/-- How far the work has come. -/
structure Stage where
  /-- The destination nodes whose counterparts have their labels. -/
  named : Set NodeId
  /-- The destination nodes whose counterparts are where they belong. -/
  placed : Set NodeId
  /-- The destination nodes below which others may be placed. -/
  opened : Set NodeId
  /-- The destination nodes whose children are in order as far as they are there. -/
  arranged : Set NodeId
  /-- What the script has to have told. -/
  told : List Action

/-- **A draft in the course of alignment.** -/
structure Aligned (m : Mapping) (g : Stage) (d : Draft) : Prop where
  sound : d.copy.Sound m
  root : d.copy.ofDst.get? m.dst.root = some d.copy.root
  /-- Nothing has been taken out. -/
  copied : ∀ {s}, m.src.arena.isLive s → ∃ w, d.copy.ofSrc.get? s = some w ∧
    d.copy.arena.isLive w ∧ d.copy.origin? w = some (.src s)
  /-- The children of counterparts that are settled stand in the right order. -/
  inLine : ∀ {y w}, d.copy.ofDst.get? y = some w →
    InLine d.copy.toDst.get? d.settled (d.copy.arena.children w) (m.dst.arena.children y)
  /-- What is settled has a parent with a counterpart. -/
  anchored : ∀ {x y}, d.settled x → m.dst.arena.parent? x = some y →
    ∃ z, d.copy.ofDst.get? y = some z
  settled_of_placed : ∀ {x}, x ∈ g.placed → x ≠ m.dst.root → d.settled x
  root_placed : m.dst.root ∈ g.placed
  opened_of_placed : ∀ {x y}, x ∈ g.placed → m.dst.arena.parent? x = some y → y ∈ g.opened
  placed_of_opened : g.opened ⊆ g.placed
  opened_of_arranged : g.arranged ⊆ g.opened
  /-- Among the children of a node that is arranged those are settled that are there. -/
  settled_of_arranged : ∀ {y z b w}, y ∈ g.arranged → d.copy.ofDst.get? y = some z →
    m.dst.arena.parent? b = some y → d.copy.ofDst.get? b = some w →
    d.copy.arena.parent? w = some z → d.settled b
  /-- A node has a counterpart from the beginning, or since it was placed or brought in. -/
  ofDst_iff : ∀ {x}, m.dst.arena.isLive x → ((∃ w, d.copy.ofDst.get? x = some w) ↔
    (∃ s, m.source? x = some s) ∨ x ∈ g.placed ∨ d.grafted.contains x)
  /-- A node is brought in below another one if that is clean. -/
  grafted_iff : ∀ {x}, m.dst.arena.isLive x → (d.grafted.contains x ↔
    ∃ y, m.dst.arena.parent? x = some y ∧ m.dstClean y ∧ ∃ z, d.copy.ofDst.get? y = some z)
  named : ∀ {x w}, x ∈ g.named ∨ d.grafted.contains x → d.copy.ofDst.get? x = some w →
    d.copy.label? w = m.dst.label? x
  unnamed : ∀ {s w}, m.src.arena.isLive s → d.copy.ofSrc.get? s = some w →
    (∀ x, m.counterpart? s = some x → x ∉ g.named) → d.copy.label? w = m.src.label? s
  /-- What has not been placed is still under its old parent. -/
  unmoved : ∀ {t s w v}, m.src.arena.isLive t → m.src.arena.parent? t = some s →
    d.copy.ofSrc.get? t = some w → d.copy.ofSrc.get? s = some v →
    (∀ x, m.counterpart? t = some x → x ∉ g.placed) → d.copy.arena.parent? w = some v
  /-- What has not been opened has none but its old children, in their old order. -/
  inherited : ∀ {s w}, m.src.arena.isLive s → d.copy.ofSrc.get? s = some w →
    (∀ x, m.counterpart? s = some x → x ∉ g.opened) →
    (d.copy.arena.children w).Sublist ((m.src.arena.children s).filterMap d.copy.ofSrc.get?)
  run : ∀ {c₀}, WorkingCopy.start m = .ok c₀ → Run (Sound m) m.dst false c₀ d.edits d.copy
  told : d.script.map Action.unplaced = g.told

/-- At the beginning only the root is placed. -/
def Stage.start (m : Mapping) : Stage where
  named := ∅
  placed := {m.dst.root}
  opened := ∅
  arranged := ∅
  told := []

/-- **The invariant holds at the beginning.** -/
theorem aligned_start (hm : m.Sound) (hr : m.source? m.dst.root = some m.src.root)
    (h : Started m c) (hstart : WorkingCopy.start m = .ok c) :
    Aligned m (Stage.start m) ⟨c, .empty, .empty, []⟩ := by
  have hsettled : ∀ v, Draft.settled ⟨c, .empty, .empty, []⟩ v = false := by
    intro v
    simp [settled]
  have hroot : m.counterpart? m.src.root = some m.dst.root := (hm.left hm.dst.isLive_root hr).2
  have hofDst : ∀ {x}, m.dst.arena.isLive x →
      ((∃ w, c.ofDst.get? x = some w) ↔ ∃ s, m.source? x = some s) := by
    intro x hx
    constructor
    · rintro ⟨w, hw⟩
      obtain ⟨s, hs, hsx⟩ := h.ofDst.1 hw
      exact ⟨s, (hm.right (h.matching.isLive_left hs) hsx).2⟩
    · rintro ⟨s, hs⟩
      obtain ⟨hls, hsx⟩ := hm.left hx hs
      obtain ⟨w, hw⟩ := h.matching.exists_right hls
      exact ⟨w, h.ofDst.2 ⟨s, hw, hsx⟩⟩
  exact
    { sound := h.sound hm
      root := h.ofDst.2 ⟨_, h.root, hroot⟩
      copied := by
        intro s hs
        obtain ⟨w, hw⟩ := h.matching.exists_right hs
        exact ⟨w, hw, h.matching.isLive_right hw, h.origin?_eq hw⟩
      inLine := by
        intro y w _
        rw [InLine, List.filter_eq_nil_iff.2 fun v _ => by simp [hsettled],
          List.filter_eq_nil_iff.2 fun v _ => by simp [hsettled]]
      anchored := by
        intro x y hx
        rw [hsettled] at hx
        cases hx
      settled_of_placed := fun hx hne => absurd hx hne
      root_placed := rfl
      opened_of_placed := by
        rintro x y rfl hp
        rw [hm.dst.parent?_root] at hp
        cases hp
      placed_of_opened := Set.empty_subset _
      opened_of_arranged := Set.empty_subset _
      settled_of_arranged := fun hy => absurd hy (Set.notMem_empty _)
      ofDst_iff := by
        intro x hx
        rw [hofDst hx]
        refine ⟨Or.inl, ?_⟩
        rintro (hs | rfl | hg)
        · exact hs
        · exact ⟨_, hr⟩
        · simp at hg
      grafted_iff := by
        intro x hx
        simp only [NodeSet.contains_empty, Bool.false_eq_true, false_iff]
        rintro ⟨y, hp, hclean, hz⟩
        have hy := hm.dst.arena.isLive_of_parent? hx hp
        obtain ⟨s, hs⟩ := (hofDst hy).1 hz
        rw [Mapping.source?_of_dstClean hm.dst hy hclean] at hs
        cases hs
      named := by
        rintro x w (hx | hx)
        · exact absurd hx (Set.notMem_empty _)
        · simp at hx
      unnamed := fun _ hw _ => h.label?_eq hw
      unmoved := by
        intro t s w v ht hp hw hv _
        obtain ⟨v', hpw, hv'⟩ := h.matching.parent? hm.src.arena h.wf hw hp
        rw [hpw, ← hv']
        exact hv ▸ rfl
      inherited := by
        intro s w _ hw _
        rw [filterMap_eq_of_forall₂ (h.matching.children hw)]
      run := by
        intro c₀ hc₀
        rw [hstart] at hc₀
        obtain rfl := Except.ok.inj hc₀
        exact Run.nil (h.sound hm)
      told := rfl }

namespace Aligned

variable {g : Stage} (h : Aligned m g d)

include h

/-! ### Who is where -/

theorem isLive_of_ofDst (hx : d.copy.ofDst.get? x = some w) : d.copy.arena.isLive w :=
  (h.sound.ofDst hx).1

theorem toDst_of_ofDst (hx : d.copy.ofDst.get? x = some w) : d.copy.toDst.get? w = some x :=
  (h.sound.ofDst hx).2

/-- The copy of a source node with a counterpart is the counterpart of that. -/
theorem ofDst_of_counterpart? (hs : m.src.arena.isLive s) (hx : m.counterpart? s = some x)
    (hw : d.copy.ofSrc.get? s = some w) : d.copy.ofDst.get? x = some w := by
  obtain ⟨w', hw', hxw⟩ := h.sound.mapped hs hx
  rw [hw] at hw'
  obtain rfl := Option.some.inj hw'
  exact hxw

/-- A copy is live and comes from its source node. -/
theorem origin?_of_ofSrc (hs : m.src.arena.isLive s) (hw : d.copy.ofSrc.get? s = some w) :
    d.copy.arena.isLive w ∧ d.copy.origin? w = some (.src s) := by
  obtain ⟨w', hw', hlw, ho⟩ := h.copied hs
  rw [hw] at hw'
  obtain rfl := Option.some.inj hw'
  exact ⟨hlw, ho⟩

/-- Different source nodes have different copies. -/
theorem ofSrc_inj (hs : m.src.arena.isLive s) (ht : m.src.arena.isLive t)
    (hw : d.copy.ofSrc.get? s = some w) (hw' : d.copy.ofSrc.get? t = some w) : s = t := by
  have ho := (h.origin?_of_ofSrc hs hw).2
  rw [(h.origin?_of_ofSrc ht hw').2] at ho
  exact (NodeRef.src.inj (Option.some.inj ho)).symm

/-- The counterpart of a copy is the counterpart of the source node. -/
theorem counterpart?_of_ofDst (hs : m.src.arena.isLive s) (hw : d.copy.ofSrc.get? s = some w)
    (hx : d.copy.ofDst.get? x = some w) : m.counterpart? s = some x := by
  obtain ⟨hlw, ho⟩ := h.origin?_of_ofSrc hs hw
  rw [← (h.sound.source hlw ho).2.2]
  exact h.toDst_of_ofDst hx

/-- What stands for a destination node with a source node is the copy of that. -/
theorem ofSrc_of_ofDst (hs : m.src.arena.isLive s) (hsx : m.counterpart? s = some x)
    (hx : d.copy.ofDst.get? x = some w) : d.copy.ofSrc.get? s = some w := by
  obtain ⟨w', hw', -⟩ := h.copied hs
  rw [h.ofDst_of_counterpart? hs hsx hw'] at hx
  exact Option.some.inj hx ▸ hw'

/-- A destination node without a source node has no counterpart, until it is placed or brought
in. -/
theorem ofDst_eq_none (hx : m.dst.arena.isLive x) (hs : m.source? x = none) (hpx : x ∉ g.placed)
    (hg : d.grafted.contains x = false) : d.copy.ofDst.get? x = none := by
  refine Option.eq_none_iff_forall_ne_some.2 fun w hw => ?_
  rcases (h.ofDst_iff hx).1 ⟨w, hw⟩ with ⟨s, hs'⟩ | hpx' | hgx
  · rw [hs] at hs'
    cases hs'
  · exact hpx hpx'
  · rw [hg] at hgx
    cases hgx

/-- A child of a node that is not clean has not been brought in with it. -/
theorem grafted_eq_false (hx : m.dst.arena.isLive x) (hp : m.dst.arena.parent? x = some y)
    (hclean : m.dstClean y = false) : d.grafted.contains x = false := by
  refine Bool.eq_false_iff.2 fun hg => ?_
  obtain ⟨q, hq, hcl, -⟩ := (h.grafted_iff hx).1 hg
  obtain rfl := Option.some.inj (hp.symm.trans hq)
  rw [hclean] at hcl
  cases hcl

/-- A child of a node that has a counterpart has been brought in with it if that is clean. -/
theorem grafted_iff_of_parent? (hx : m.dst.arena.isLive x) (hp : m.dst.arena.parent? x = some y)
    (hz : d.copy.ofDst.get? y = some z) : d.grafted.contains x ↔ m.dstClean y := by
  constructor
  · intro hg
    by_contra hclean
    rw [h.grafted_eq_false hx hp (by simpa using hclean)] at hg
    cases hg
  · intro hclean
    exact (h.grafted_iff hx).2 ⟨y, hp, hclean, z, hz⟩

/-- A settled child is a child of the counterpart of its parent. -/
theorem parent?_of_settled (hd : m.dst.WellFormed) (hx : m.dst.arena.isLive x)
    (hs : d.settled x) (hp : m.dst.arena.parent? x = some y)
    (hw : d.copy.ofDst.get? x = some w) (hz : d.copy.ofDst.get? y = some z) :
    d.copy.arena.parent? w = some z := by
  have hmem : x ∈ m.dst.arena.children y := (hd.arena.of_parent? hx hp).2
  obtain ⟨u, hu, hux⟩ := ((h.inLine hz).mem_iff hs).1 hmem
  have hlz := h.isLive_of_ofDst hz
  have hlu := h.sound.wf.isLive_of_mem hlz hu
  have he := (h.sound.toDst hlu hux).2
  rw [hw] at he
  obtain rfl := Option.some.inj he
  exact h.sound.wf.parent?_of_mem hlz hu

/-- **What a counterpart of a placed node is below, is the counterpart of a node that this is
below.** -/
theorem exists_below (hd : m.dst.WellFormed) (hx : m.dst.arena.isLive x) (hpx : x ∈ g.placed)
    (hw : d.copy.ofDst.get? x = some w) (hb : d.copy.arena.Below n w) :
    ∃ y, m.dst.arena.Below y x ∧ d.copy.ofDst.get? y = some n := by
  revert hpx w
  refine hd.induction_from_root (P := fun x => ∀ {w}, x ∈ g.placed →
    d.copy.ofDst.get? x = some w → d.copy.arena.Below n w →
    ∃ y, m.dst.arena.Below y x ∧ d.copy.ofDst.get? y = some n) ?_ ?_ hx
  · intro w _ hw hb
    rw [h.root] at hw
    obtain rfl := Option.some.inj hw
    obtain rfl := hb.eq_of_parent?_eq_none h.sound.rooted.parent?_root
    exact ⟨_, Arena.Below.self, h.root⟩
  · intro p x _ hx hp ih w hpx hw hb
    have hs := h.settled_of_placed hpx (hd.ne_root_of_parent? hp)
    obtain ⟨z, hz⟩ := h.anchored hs hp
    rcases hb.parent_or_eq (h.parent?_of_settled hd hx hs hp hw hz) with rfl | hb
    · exact ⟨x, Arena.Below.self, hw⟩
    · obtain ⟨y, hy, hyn⟩ := ih (h.placed_of_opened (h.opened_of_placed hpx hp)) hz hb
      exact ⟨y, Arena.Below.step hp hy, hyn⟩

/-- **A node that is to come under `y` is not above it.** -/
theorem not_below (hd : m.dst.WellFormed) (hx : m.dst.arena.isLive x)
    (hp : m.dst.arena.parent? x = some y) (hy : y ∈ g.placed)
    (hw : d.copy.ofDst.get? x = some w) (hz : d.copy.ofDst.get? y = some z) :
    ¬ d.copy.arena.Below w z := by
  intro hb
  obtain ⟨k, hk, hkw⟩ := h.exists_below hd (hd.arena.isLive_of_parent? hx hp) hy hz hb
  obtain rfl := h.sound.ofDst_inj hkw hw
  exact hd.arena.not_below_parent hx hp hk

/-! ### A change of a label -/

theorem relabeled (hs : m.source? x = some s) (hx : d.copy.ofDst.get? x = some w)
    (hm : m.Sound) {label : String} (hlabel : m.dst.label? x = some label) :
    Aligned m { g with named := insert x g.named, told := g.told ++ [.update s label] }
      (d.performed (d.copy.relabeled w label) (.relabel w label) (.update s label)) := by
  have hlw := h.isLive_of_ofDst hx
  have ho := h.sound.origin?_of_source? hm hx hs
  have hl : ∀ {k}, d.copy.arena.isLive k → (d.copy.relabeled w label).label? k =
      if k = w then some label else d.copy.label? k := label?_relabeled hlw label
  exact
    { sound := h.sound.relabeled hlw label
      root := h.root
      copied := by
        intro t ht
        obtain ⟨k, hk, hlk, hok⟩ := h.copied ht
        exact ⟨k, hk, by simpa using hlk,
          (origin?_relabeled hlw label hlk).trans hok⟩
      inLine := by
        intro y k hk
        simpa using h.inLine hk
      anchored := h.anchored
      settled_of_placed := h.settled_of_placed
      root_placed := h.root_placed
      opened_of_placed := h.opened_of_placed
      placed_of_opened := h.placed_of_opened
      opened_of_arranged := h.opened_of_arranged
      settled_of_arranged := by
        intro y z b k hy hz hb hk hp
        exact h.settled_of_arranged hy hz hb hk (by simpa using hp)
      ofDst_iff := h.ofDst_iff
      grafted_iff := h.grafted_iff
      named := by
        intro y k hy hk
        refine (hl (h.isLive_of_ofDst hk)).trans ?_
        by_cases he : k = w
        · subst he
          obtain rfl := h.sound.ofDst_inj hk hx
          rw [if_pos rfl, hlabel]
        · rw [if_neg he]
          refine h.named (hy.imp_left fun hy => hy.resolve_left ?_) hk
          rintro rfl
          exact he (Option.some.inj (hk.symm.trans hx))
      unnamed := by
        intro t k ht (hk : d.copy.ofSrc.get? t = some k) hnot
        refine (hl (h.origin?_of_ofSrc ht hk).1).trans ?_
        rw [if_neg]
        · exact h.unnamed ht hk fun y hy => fun hm => hnot y hy (Set.mem_insert_of_mem _ hm)
        · rintro rfl
          exact hnot x (h.counterpart?_of_ofDst ht hk hx) (Set.mem_insert _ _)
      unmoved := by
        intro t s w v ht hp hw hv hnot
        simpa using h.unmoved ht hp hw hv hnot
      inherited := by
        intro s w hs hw hnot
        simpa using h.inherited hs hw hnot
      run := fun hc => Run.snoc (h.run hc) (Step.relabel hlw ho) (h.sound.relabeled hlw label)
      told := by
        rw [script_performed, List.map_append, h.told]
        rfl }

/-! ### A move -/

/-- The children of counterparts are in line after a node has been put into its gap. -/
theorem inLine_moved (hm : m.Sound) (hlx : m.dst.arena.isLive x)
    (hp : m.dst.arena.parent? x = some y) (hw : d.copy.ofDst.get? x = some w)
    (hz : d.copy.ofDst.get? y = some z) (hns : d.settled x = false)
    {K₁ K₂ : List NodeId} {k : Nat} (hK : m.dst.arena.children y = K₁ ++ x :: K₂)
    (hgap : Gap d.copy.toDst.get? d.settled ((d.copy.arena.children z).erase w) K₁ K₂ k)
    {S : NodeId → Bool} (hS : ∀ v, S v = (decide (x = v) || d.settled v)) {q w' : NodeId}
    (hq : d.copy.ofDst.get? q = some w') :
    InLine d.copy.toDst.get? S ((d.copy.moved w z k).arena.children w')
      (m.dst.arena.children q) := by
  have hlw' := h.isLive_of_ofDst hq
  have hnd := h.sound.wf.nodup_children hlw'
  have hval : ∀ u ∈ (d.copy.arena.children w').erase w, d.copy.toDst.get? u ≠ some x := by
    intro u hu hux
    rw [hnd.mem_erase_iff] at hu
    have he := (h.sound.toDst (h.sound.wf.isLive_of_mem hlw' hu.2) hux).2
    exact hu.1 (Option.some.inj (he.symm.trans hw))
  have hnx := not_mem_of_nodup_middle (hK ▸ hm.dst.arena.nodup_children
    (hm.dst.arena.isLive_of_parent? hlx hp))
  rw [arena_moved, Arena.children_move h.sound.wf (h.isLive_of_ofDst hw) (h.isLive_of_ofDst hz) k
    hlw', Nat.min_eq_left hgap.le_length]
  by_cases he : w' = z
  · subst he
    obtain rfl := h.sound.ofDst_inj hq hz
    rw [if_pos rfl, hK]
    exact hgap.inLine (h.toDst_of_ofDst hw) hval hnx.1 hnx.2 hS
  · rw [if_neg he]
    refine ((h.inLine hq).erase fun v hv => ?_).congr (fun u _ => rfl) fun v hv => ?_
    · rw [h.toDst_of_ofDst hw] at hv
      obtain rfl := Option.some.inj hv
      exact hns
    · have hne : x ≠ v := by
        rintro rfl
        rcases hv with ⟨u, hu, hux⟩ | hv
        · exact hval u hu hux
        · -- then `q` would be `y`
          have hpx := hm.dst.arena.parent?_of_mem (h.sound.isLive_of_ofDst hq) hv
          rw [hp] at hpx
          obtain rfl := Option.some.inj hpx
          exact he (Option.some.inj (hq.symm.trans hz))
      rw [hS, decide_eq_false hne, Bool.false_or]

/-- A node is put into its gap.  Either it is placed thereby, or it had the right parent before
and only its place was wrong. -/
theorem moved (hm : m.Sound) (hs : m.source? x = some s) (hlx : m.dst.arena.isLive x)
    (hp : m.dst.arena.parent? x = some y) (hw : d.copy.ofDst.get? x = some w)
    (hz : d.copy.ofDst.get? y = some z) (hy : y ∈ g.opened) (hns : d.settled x = false)
    {K₁ K₂ : List NodeId} {k : Nat} (hK : m.dst.arena.children y = K₁ ++ x :: K₂)
    (hgap : Gap d.copy.toDst.get? d.settled ((d.copy.arena.children z).erase w) K₁ K₂ k)
    {P : Set NodeId}
    (hP : P = insert x g.placed ∨ P = g.placed ∧ d.copy.arena.parent? w = some z) :
    Aligned m { g with placed := P, told := g.told ++ [.move s (m.ref y) 0] }
      ((d.performed (d.copy.moved w z k) (.move w z k) (.move s (m.ref y) k)).mark x) := by
  have hlw := h.isLive_of_ofDst hw
  have hlz := h.isLive_of_ofDst hz
  have hb := h.not_below hm.dst hlx hp (h.placed_of_opened hy) hw hz
  have hsub : g.placed ⊆ P := by
    rcases hP with rfl | ⟨rfl, -⟩
    · exact Set.subset_insert _ _
    · exact Set.Subset.rfl
  have hnot : ∀ {v}, v ∈ P → v = x ∨ v ∈ g.placed := by
    rcases hP with rfl | ⟨rfl, -⟩
    · exact id
    · exact Or.inr
  have hset : ∀ v, ((d.performed (d.copy.moved w z k) (.move w z k)
      (.move s (m.ref y) k)).mark x).settled v = (decide (x = v) || d.settled v) :=
    fun v => settled_mark _ _ _
  have hmono : ∀ {v}, d.settled v → ((d.performed (d.copy.moved w z k) (.move w z k)
      (.move s (m.ref y) k)).mark x).settled v := by
    intro v hv
    rw [hset, hv, Bool.or_true]
  have hpar : ∀ {k'}, d.copy.arena.isLive k' →
      (d.copy.moved w z k).arena.parent? k' = if k' = w then some z else d.copy.arena.parent? k' :=
    fun hk' => by rw [arena_moved, Arena.parent?_move h.sound.wf hlw hlz k hk']
  have hch : ∀ {k'}, d.copy.arena.isLive k' → (d.copy.moved w z k).arena.children k' =
      if k' = z then ((d.copy.arena.children z).erase w).insertIdx k w
      else (d.copy.arena.children k').erase w := by
    intro k' hk'
    rw [arena_moved, Arena.children_move h.sound.wf hlw hlz k hk', Nat.min_eq_left hgap.le_length]
  exact
    { sound := h.sound.moved hlw hlz hb k
      root := h.root
      copied := by
        intro t ht
        simpa using h.copied ht
      inLine := h.inLine_moved hm hlx hp hw hz hns hK hgap hset
      anchored := by
        intro v q hv hq
        rw [hset, Bool.or_eq_true, decide_eq_true_iff] at hv
        rcases hv with rfl | hv
        · rw [hp] at hq
          obtain rfl := Option.some.inj hq
          exact ⟨z, hz⟩
        · exact h.anchored hv hq
      settled_of_placed := by
        intro v hv hne
        rcases hnot hv with rfl | hv
        · rw [hset, decide_eq_true rfl, Bool.true_or]
        · exact hmono (h.settled_of_placed hv hne)
      root_placed := hsub h.root_placed
      opened_of_placed := by
        intro v q hv hq
        rcases hnot hv with rfl | hv
        · rw [hp] at hq
          obtain rfl := Option.some.inj hq
          exact hy
        · exact h.opened_of_placed hv hq
      placed_of_opened := h.placed_of_opened.trans hsub
      opened_of_arranged := h.opened_of_arranged
      settled_of_arranged := by
        intro q z' b w' hq hz' hbq hw' hpw'
        simp only [copy_mark, copy_performed, ofDst_moved] at hz' hw' hpw'
        rw [hpar (h.isLive_of_ofDst hw')] at hpw'
        by_cases he : w' = w
        · subst he
          obtain rfl := h.sound.ofDst_inj hw' hw
          rw [hset, decide_eq_true rfl, Bool.true_or]
        · rw [if_neg he] at hpw'
          exact hmono (h.settled_of_arranged hq hz' hbq hw' hpw')
      ofDst_iff := by
        intro v hv
        constructor
        · intro hwv
          exact ((h.ofDst_iff hv).1 hwv).imp_right (Or.imp_left fun hm => hsub hm)
        · rintro (hsv | hmem | hgv)
          · exact (h.ofDst_iff hv).2 (Or.inl hsv)
          · rcases hnot hmem with rfl | hmem
            · exact ⟨w, hw⟩
            · exact (h.ofDst_iff hv).2 (Or.inr (Or.inl hmem))
          · exact (h.ofDst_iff hv).2 (Or.inr (Or.inr hgv))
      grafted_iff := h.grafted_iff
      named := by
        intro v w' hv hw'
        simpa using h.named hv hw'
      unnamed := by
        intro t w' ht hw' hnot
        simpa using h.unnamed ht hw' hnot
      unmoved := by
        intro t s' w' v ht hpt (hw' : d.copy.ofSrc.get? t = some w') hv hnotP
        have hold := h.unmoved ht hpt hw' hv fun q hq hmem => hnotP q hq (hsub hmem)
        refine (hpar (h.origin?_of_ofSrc ht hw').1).trans ?_
        split
        case isFalse => exact hold
        case isTrue he =>
          subst he
          rcases hP with rfl | ⟨rfl, hpw⟩
          · exact absurd (Set.mem_insert _ _) (hnotP x (h.counterpart?_of_ofDst ht hw' hw))
          · exact hpw.symm.trans hold
      inherited := by
        intro s' w' hs' (hw' : d.copy.ofSrc.get? s' = some w') hnotO
        have hlk := (h.origin?_of_ofSrc hs' hw').1
        have hne : w' ≠ z := by
          rintro rfl
          exact hnotO y (h.counterpart?_of_ofDst hs' hw' hz) hy
        simp only [copy_mark, copy_performed, ofSrc_moved, hch hlk, if_neg hne]
        exact List.erase_sublist.trans (h.inherited hs' hw' hnotO)
      run := by
        intro c₀ hc₀
        exact Run.snoc (h.run hc₀) (Step.move hlw hlz (h.sound.origin?_of_source? hm hw hs)
          (h.sound.origin?_eq_ref hm hz) hb hgap.le_length) (h.sound.moved hlw hlz hb k)
      told := by
        rw [script_mark, script_performed, List.map_append, h.told]
        rfl }

end Aligned

end Draft

end TreeScript
