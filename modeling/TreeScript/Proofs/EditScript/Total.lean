/-
**Scripts are found without a fault.**

Working out a script never comes upon a node that is not there.  At every moment the links and the
tables of the working copy lead to nodes that are in their slots, so that whatever is looked up is
found and is there; every change fits the working copy as it is then, and no node is put below
itself; and a node that is taken out alone is a leaf.

Main definitions:

* `TreeScript.WorkingCopy.Fits` — a change for which the working copy has what it takes;
* `TreeScript.WorkingCopy.Intact` — **nothing in the working copy leads astray**;
* `TreeScript.Draft.Safe` — a draft that is worked out from beginning to end in this way.

Main results:

* `TreeScript.WorkingCopy.Step.fits`, `TreeScript.WorkingCopy.Sound.intact` — the invariants say so;
* `TreeScript.Draft.Finished.exists_moment` — **the working copy before each change**;
* `TreeScript.Draft.exists_safe` — **a draft is worked out safely**, quiet or not;
* `TreeScript.Mapping.editScript_total` — **a script is found for every mapping between nodes**,
  quiet or not.
-/

import TreeScript.Proofs.EditScript.Quiet

set_option relaxedAutoImplicit false
set_option autoImplicit false

namespace TreeScript

namespace WorkingCopy

variable {m : Mapping} {c c' : WorkingCopy} {dst : Tree} {change : Change} {action : Action}

/-! ### Changes that fit -/

/-- **The working copy has what the change takes**: the nodes that it is about are there, no node
goes below itself, positions are not beyond the last child, and what is taken out is not the root
and, if it is taken out alone, has no children. -/
def Fits (c : WorkingCopy) : Change → Prop
  | .relabel w _ => c.arena.isLive w
  | .insert _ _ p k =>
    c.arena.isLive p ∧ c.arena.nextId ∉ c.arena.ancestors p ∧ k ≤ (c.arena.children p).length
  | .graft _ p k =>
    c.arena.isLive p ∧ c.arena.nextId ∉ c.arena.ancestors p ∧ k ≤ (c.arena.children p).length
  | .move w p k =>
    c.arena.isLive w ∧ c.arena.isLive p ∧ w ∉ c.arena.ancestors p ∧
      k ≤ ((c.arena.children p).erase w).length
  | .removeTree w => c.arena.isLive w ∧ w ≠ c.root
  | .remove w => c.arena.isLive w ∧ w ≠ c.root ∧ c.arena.children w = []

/-- A new node is not above any other. -/
theorem nextId_notMem_ancestors (hw : c.arena.WellFormed) {p : NodeId} (hp : c.arena.isLive p) :
    c.arena.nextId ∉ c.arena.ancestors p := by
  intro hmem
  have hb := (hw.mem_ancestors_iff hp).1 hmem
  exact Arena.not_isLive_nextId hw (hw.isLive_of_below hp hb)

theorem Step.fits (h : Step dst c change action c') (hw : c.arena.WellFormed) : c.Fits change := by
  cases h with
  | relabel hlw => exact hlw
  | insert hp _ hk => exact ⟨hp, nextId_notMem_ancestors hw hp, hk⟩
  | graft hp _ hk => exact ⟨hp, nextId_notMem_ancestors hw hp, hk⟩
  | move hlw hp _ _ hb hk => exact ⟨hlw, hp, fun hmem => hb ((hw.mem_ancestors_iff hp).1 hmem), hk⟩
  | removeTree hlw _ hroot => exact ⟨hlw, hroot⟩
  | remove hlw _ hroot hc => exact ⟨hlw, hroot, hc⟩

/-! ### Nothing leads astray -/

/-- **Nothing in the working copy leads astray**: the root is there, links lead from nodes that
are there to such nodes, and so do the tables, in which the copies of source nodes that have
counterparts are found. -/
structure Intact (m : Mapping) (c : WorkingCopy) : Prop where
  root : c.arena.isLive c.root
  parent : ∀ {w p}, c.arena.isLive w → c.arena.parent? w = some p → c.arena.isLive p
  children : ∀ {w k}, c.arena.isLive w → k ∈ c.arena.children w → c.arena.isLive k
  counterpart : ∀ {x w}, c.counterpart x = .ok w → c.arena.isLive w
  copyOf : ∀ {s x}, m.src.contains s → m.has s x →
    ∃ w, c.copyOf s = .ok w ∧ c.arena.isLive w
  /-- Counterparts are nodes of the destination. -/
  target : ∀ {w x}, c.arena.isLive w → c.toDst.get? w = some x → m.dst.contains x
  /-- Every node stands in for a node of the source or of the destination. -/
  origin : ∀ {w}, c.arena.isLive w → (∃ s, c.origin? w = some (.src s) ∧ m.src.contains s) ∨
    ∃ x, c.origin? w = some (.dst x) ∧ m.dst.contains x

theorem Sound.intact (h : c.Sound m) (hm : m.Sound) : c.Intact m where
  root := h.rooted.isLive rfl
  parent hw hp := h.wf.isLive_of_parent? hw hp
  children hw hk := h.wf.isLive_of_mem hw hk
  counterpart := by
    intro x w hw
    rw [WorkingCopy.counterpart] at hw
    split at hw
    case h_1 w' hx =>
      obtain rfl := Except.ok.inj hw
      exact (h.ofDst hx).1
    case h_2 => cases hw
  copyOf := by
    intro s x hs hx
    obtain ⟨w, hw, hxw⟩ := h.mapped (hm.src.contains_iff.1 hs) (Mapping.has_iff.1 hx)
    exact ⟨w, copyOf_eq_ok hw, (h.ofDst hxw).1⟩
  target hw hx := hm.dst.contains_iff.2 (h.toDst hw hx).1
  origin := by
    intro w hw
    obtain ⟨ref, ho⟩ := exists_origin hw
    cases ref with
    | src s => exact Or.inl ⟨s, ho, hm.src.contains_iff.2 (h.source hw ho).1⟩
    | dst x => exact Or.inr ⟨x, ho, hm.dst.contains_iff.2 (h.made hw ho).1⟩

end WorkingCopy

/-! ### The working copy before each change -/

namespace Draft

open WorkingCopy

variable {m : Mapping} {d d₀ : Draft} {c₀ : WorkingCopy}

/-- **The working copy before each change**, and after the last: nothing in it leads astray, and
the change that comes next fits. -/
theorem Finished.exists_moment (hf : Finished m d) (hm : m.Sound)
    (hc₀ : WorkingCopy.start m = .ok c₀) (n : Nat) : ∃ c,
      ((d.edits.map Edit.change).take n).foldlM apply c₀ = .ok c ∧ c.Intact m ∧
        ∀ change, (d.edits.map Edit.change)[n]? = some change → c.Fits change := by
  obtain ⟨c₁, hc₁, hstart⟩ := WorkingCopy.exists_start hm
  obtain rfl := Except.ok.inj (hc₀.symm.trans hc₁)
  have hin := hstart.inStep hm.src
  have happly : ∀ {edits : List Edit} {c : WorkingCopy},
      Run (Sound m) m.dst false c₀ edits c → (edits.map Edit.change).foldlM apply c₀ = .ok c := by
    intro edits c hrun
    rw [List.foldlM_map]
    exact hin.foldlM_apply hm.dst hrun
  rw [← List.map_take]
  cases he : d.edits[n]? with
  | none =>
      obtain ⟨c, hc⟩ := (hf.run hc₀).take n
      refine ⟨c, happly hc, hc.invariant.intact hm, fun change hchange => ?_⟩
      rw [List.getElem?_map, he] at hchange
      cases hchange
  | some e =>
      obtain ⟨c, c', action, hc, hstep⟩ := (hf.run hc₀).exists_step he
      refine ⟨c, happly hc, hc.invariant.intact hm, fun change hchange => ?_⟩
      rw [List.getElem?_map, he] at hchange
      obtain rfl := Option.some.inj hchange
      exact hstep.fits hc.invariant.wf

/-- **Whenever a node is looked at that may have to be taken out, it is there.** -/
theorem Aligned.exists_pruned (h₀ : Aligned m (Stage.done m) d₀) (hm : m.Sound)
    (hr : m.source? m.dst.root = some m.src.root) {l l' : List NodeId} {w : NodeId}
    (hl : d₀.copy.arena.postorder d₀.copy.root = l ++ w :: l') : ∃ d,
      l.foldlM (pruneOne m false (cleanSources m)) d₀ = .ok d ∧ d.copy.arena.isLive w := by
  obtain ⟨d, hd, h⟩ := h₀.exists_pruning hm hr hl
  exact ⟨d, hd, h.isLive_next h₀ hl⟩

/-- **A draft is worked out safely**: from the beginning `c₀` by way of `d₀`, the draft in which
all destination nodes have been seen to, to the finished draft `d`. -/
structure Safe (m : Mapping) (quiet : Bool) (c₀ : WorkingCopy) (d₀ d : Draft) : Prop where
  start : WorkingCopy.start m = .ok c₀
  align : align m quiet = .ok d₀
  prune : d₀.prune m quiet = .ok d
  copy : (d.edits.map Edit.change).foldlM apply c₀ = .ok d.copy
  /-- Before each change, and after the last, nothing in the working copy leads astray, and the
  change that comes next fits. -/
  moment : ∀ n, ∃ c, ((d.edits.map Edit.change).take n).foldlM apply c₀ = .ok c ∧ c.Intact m ∧
    ∀ change, (d.edits.map Edit.change)[n]? = some change → c.Fits change
  /-- Whenever a node is looked at that may have to be taken out, it is there. -/
  turn : ∀ l w l', d₀.copy.arena.postorder d₀.copy.root = l ++ w :: l' → ∃ d',
    l.foldlM (pruneOne m quiet (cleanSources m)) d₀ = .ok d' ∧ d'.copy.arena.isLive w

/-- **A draft for counterparts at the roots is worked out safely**, quiet or not. -/
theorem exists_safe (hm : m.Sound) (hr : m.source? m.dst.root = some m.src.root) (quiet : Bool) :
    ∃ c₀ d₀ d, Safe m quiet c₀ d₀ d := by
  obtain ⟨d₀, hd₀, h₀⟩ := exists_aligned hm hr
  obtain ⟨d, hdraft, hf⟩ := exists_finished hm hr
  obtain ⟨c₀, hc₀, hstart⟩ := WorkingCopy.exists_start hm
  rw [draft_eq, hd₀, bind_ok] at hdraft
  exact ⟨c₀, d₀.toned quiet, d.toned quiet,
    { start := hc₀
      align := by rw [align_toned, hd₀]; rfl
      prune := by rw [prune_toned, hdraft]; rfl
      copy := by
        rw [changes_toned, copy_toned, List.foldlM_map]
        exact (hstart.inStep hm.src).foldlM_apply hm.dst (hf.run hc₀)
      moment := by
        rw [changes_toned]
        exact hf.exists_moment hm hc₀
      turn := by
        intro l w l' hl
        rw [copy_toned] at hl
        obtain ⟨d', hd', hlw⟩ := h₀.exists_pruned hm hr hl
        exact ⟨d'.toned quiet, by rw [foldlM_pruneOne_toned, hd']; rfl, by rwa [copy_toned]⟩ }⟩

end Draft

/-! ### Main result -/

namespace Mapping

open Draft

variable {m : Mapping} {src dst : Tree}

/-- **A script is found for every mapping between nodes of two trees**, quiet or not, and if the
roots are counterparts, it is that of a draft that is worked out safely. -/
theorem editScript_total (hs : src.Built) (hd : dst.Built) (hm : Filled src dst m) (quiet : Bool) :
    (∃ script, m.editScript quiet = .ok script) ∧
      (m.rootsPaired → ∃ c₀ d₀ d, Safe m quiet c₀ d₀ d ∧ m.editScript quiet = .ok d.script) := by
  obtain ⟨hsound, rfl, rfl⟩ := hm.sound hs.wellFormed hd.wellFormed
  by_cases hpaired : m.rootsPaired
  · obtain ⟨c₀, d₀, d, h⟩ := exists_safe hsound (beq_iff_eq.1 hpaired) quiet
    have hscript : m.editScript quiet = .ok d.script := by
      rw [editScript, if_pos hpaired, draft_eq, h.align, bind_ok, h.prune]
      rfl
    exact ⟨⟨_, hscript⟩, fun _ => ⟨c₀, d₀, d, h, hscript⟩⟩
  · exact ⟨⟨m.replacement, by rw [editScript, if_neg hpaired]; rfl⟩, fun h => absurd h hpaired⟩

/-- Two leaves change places, a leaf goes and a leaf comes, all quietly. -/
theorem editScript_total_crossing : ∃ src dst m,
    Tree.fan ⟨"item", 0⟩ "old" ["a", "b", "c"] = .ok src ∧
    Tree.fan ⟨"item", 0⟩ "new" ["b", "a", "d"] = .ok dst ∧ pairing src dst crossing = .ok m ∧
    m.rootsPaired ∧ (∃ script, m.editScript true = .ok script) ∧
      (m.rootsPaired → ∃ c₀ d₀ d, Safe m true c₀ d₀ d ∧ m.editScript true = .ok d.script) :=
  ⟨_, _, _, rfl, rfl, rfl, rfl, editScript_total
    (Tree.built_fan ⟨"item", 0⟩ "old" ["a", "b", "c"] rfl)
    (Tree.built_fan ⟨"item", 0⟩ "new" ["b", "a", "d"] rfl)
    (filled_pairing crossing (by decide) rfl) true⟩

end Mapping

end TreeScript
