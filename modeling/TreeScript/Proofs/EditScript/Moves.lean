/-
**Which source nodes a script moves and relabels.**

The plan of a script says it: a counterpart is moved if it has to go under another parent, or if
it is not among the children that stay where they are; and it is relabeled if its label is not the
right one.

Main definitions:

* `TreeScript.Mapping.crosses` — the counterpart of a destination node is under another parent;
* `TreeScript.Mapping.reordered` — the children whose counterparts change their order;
* `TreeScript.Mapping.relabels` — the counterpart of a destination node has another label.

Main results:

* `TreeScript.Draft.Finished.filterMap_moved?` — **the source nodes that a script moves**;
* `TreeScript.Draft.Finished.filterMap_updated?` — **the source nodes that a script relabels**.
-/

import TreeScript.Proofs.Draft.Prune
import TreeScript.Proofs.Replay.Untouched

set_option relaxedAutoImplicit false
set_option autoImplicit false

namespace TreeScript

namespace Mapping

variable (m : Mapping)

/-! ### Moves -/

/-- The counterpart of `x` is under another parent than that of `x`. -/
def crosses (x : NodeId) : Bool :=
  match m.source? x, m.dst.arena.parent? x with
  | some s, some y => m.src.arena.parent? s != m.source? y
  | _, _ => false

/-- The children of `x` whose counterparts change their places among each other. -/
def reordered (x : NodeId) : List NodeId := (m.ownTargets x).filter fun b => b ∉ m.stay x

/-- The destination nodes whose counterparts move when `x` is visited. -/
def moving (x : NodeId) : List NodeId := (if m.crosses x then [x] else []) ++ m.reordered x

/-- The counterpart of `x` has another label than `x`. -/
def relabels (x : NodeId) : Bool :=
  match m.source? x with
  | some s => m.src.label? s != m.dst.label? x
  | none => false

variable {m} {x y s : NodeId}

theorem moving_of_unmapped (hs : m.source? x = none) : m.moving x = [] := by
  rw [moving, reordered, ownTargets_of_unmapped hs, crosses, hs]
  rfl

theorem relabels_of_unmapped (hs : m.source? x = none) : m.relabels x = false := by
  rw [relabels, hs]

theorem crosses_iff (hs : m.source? x = some s) (hp : m.dst.arena.parent? x = some y) :
    m.crosses x ↔ m.src.arena.parent? s ≠ m.source? y := by
  simp only [crosses, hs, hp, bne_iff_ne]

theorem relabels_iff (hs : m.source? x = some s) :
    m.relabels x ↔ m.src.label? s ≠ m.dst.label? x := by
  simp only [relabels, hs, bne_iff_ne]

theorem crosses_root (hd : m.dst.WellFormed) : m.crosses m.dst.root = false := by
  rw [crosses, hd.parent?_root]
  cases m.source? m.dst.root <;> rfl

/-! ### One visit -/

theorem filterMap_relabeling (hs : m.source? x = some s) (hl : m.dst.arena.isLive x) :
    (m.relabeling s x).filterMap Action.moved? = [] ∧
      (m.relabeling s x).filterMap Action.updated? =
        (if m.relabels x then [x] else []).filterMap m.source? := by
  obtain ⟨label, hlabel⟩ := Tree.exists_label? hl
  simp only [relabeling, relabels, hs, hlabel]
  by_cases he : m.src.label? s = some label
  · simp [he]
  · simp [he, hs, Action.moved?, Action.updated?]

theorem filterMap_bringing (hs : m.source? x = some s) (hp : m.dst.arena.parent? x = some y) :
    (m.bringing s y).filterMap Action.moved? =
        (if m.crosses x then [x] else []).filterMap m.source? ∧
      (m.bringing s y).filterMap Action.updated? = [] := by
  simp only [bringing, crosses, hs, hp]
  by_cases he : m.src.arena.parent? s = m.source? y
  · simp [he]
  · simp [he, hs, Action.moved?, Action.updated?]

theorem filterMap_arranging (m : Mapping) (x : NodeId) :
    (m.arranging x).filterMap Action.moved? = (m.reordered x).filterMap m.source? ∧
      (m.arranging x).filterMap Action.updated? = [] := by
  rw [arranging, reordered]
  induction m.ownTargets x with
  | nil => exact ⟨rfl, rfl⟩
  | cons b l ih =>
      rw [List.flatMap_cons, List.filterMap_append, List.filterMap_append, ih.1, ih.2,
        List.filter_cons]
      by_cases hb : b ∈ m.stay x
      · simp [arrangingOne, hb]
      · cases hs : m.source? b with
        | none => simp [arrangingOne, hb, hs]
        | some t => simp [arrangingOne, hb, hs, Action.moved?, Action.updated?]

theorem filterMap_introducing (m : Mapping) (x y : NodeId) :
    (m.introducing x y).filterMap Action.moved? = [] ∧
      (m.introducing x y).filterMap Action.updated? = [] := by
  unfold introducing
  split
  · exact ⟨rfl, rfl⟩
  · exact ⟨rfl, rfl⟩

/-- What a visit moves and relabels. -/
theorem filterMap_visiting (hd : m.dst.WellFormed) (hl : m.dst.arena.isLive x)
    (hp : m.dst.arena.parent? x = some y) :
    (m.visiting x).filterMap Action.moved? = (m.moving x).filterMap m.source? ∧
      (m.visiting x).filterMap Action.updated? =
        (if m.relabels x then [x] else []).filterMap m.source? := by
  cases hs : m.source? x with
  | none =>
      rw [moving_of_unmapped hs, relabels_of_unmapped hs, visiting, hp, hs]
      split
      · exact ⟨rfl, rfl⟩
      · exact filterMap_introducing m x y
  | some s =>
      -- what comes with its parent has no counterpart
      have hnot : ¬ m.carried x := by
        intro hc
        rw [carried_of_parent? hp] at hc
        rw [source?_of_dstClean hd hl (dstClean_of_below hd hl (Arena.Below.of_parent hp) hc)] at hs
        cases hs
      obtain ⟨hrel, hrel'⟩ := filterMap_relabeling hs hl
      obtain ⟨hbr, hbr'⟩ := filterMap_bringing hs hp
      obtain ⟨har, har'⟩ := filterMap_arranging m x
      rw [visiting, if_neg hnot, hp, hs, moving]
      simp only [List.filterMap_append, hrel, hrel', hbr, hbr', har, har', List.nil_append,
        List.append_nil, and_self]

/-! ### All visits -/

theorem filter_eq_flatMap {σ : Type} (P : σ → Bool) (l : List σ) :
    l.filter P = l.flatMap fun x => if P x then [x] else [] := by
  induction l with
  | nil => rfl
  | cons x l ih =>
      rw [List.filter_cons, List.flatMap_cons, ih]
      split <;> rfl

/-- All nodes are the root and nodes that have parents. -/
theorem exists_iter_eq_cons (hd : m.dst.WellFormed) : ∃ l, m.dst.iter = m.dst.root :: l ∧
    ∀ x ∈ l, m.dst.arena.isLive x ∧ ∃ y, m.dst.arena.parent? x = some y := by
  obtain ⟨l, hl⟩ := RoseTree.exists_levelOrder_eq_cons (m.dst.arena.subtree m.dst.root)
  have hnd := hd.nodup_iter
  have hiter : m.dst.iter = m.dst.root :: l := by
    rw [Tree.iter, hl]
    simp
  rw [hiter, List.nodup_cons] at hnd
  refine ⟨l, hiter, fun x hx => ?_⟩
  have hmem : x ∈ m.dst.iter := by
    rw [hiter]
    exact List.mem_cons_of_mem _ hx
  have hlx := hd.mem_iter_iff.1 hmem
  refine ⟨hlx, Option.ne_none_iff_exists'.1 fun hp => ?_⟩
  obtain rfl := Option.some.inj ((hd.rooted.parent?_eq_none_iff hlx).1 hp)
  exact hnd.1 hx

/-- What all visits move and relabel. -/
theorem filterMap_aligning (hm : m.Sound) (hr : m.source? m.dst.root = some m.src.root) :
    m.aligning.filterMap Action.moved? = (m.dst.iter.flatMap m.moving).filterMap m.source? ∧
      m.aligning.filterMap Action.updated? =
        (m.dst.iter.filter m.relabels).filterMap m.source? := by
  obtain ⟨l, hiter, hl⟩ := exists_iter_eq_cons hm.dst
  obtain ⟨hrel, hrel'⟩ := filterMap_relabeling hr hm.dst.isLive_root
  obtain ⟨har, har'⟩ := filterMap_arranging m m.dst.root
  have hroot : m.visiting m.dst.root = [] := Draft.visiting_root hm
  have hmoved : (l.flatMap m.visiting).filterMap Action.moved? =
      (l.flatMap m.moving).filterMap m.source? := by
    rw [List.filterMap_flatMap, List.filterMap_flatMap]
    refine List.flatMap_congr fun x hx => ?_
    obtain ⟨hlx, y, hp⟩ := hl x hx
    exact (filterMap_visiting hm.dst hlx hp).1
  have hupdated : (l.flatMap m.visiting).filterMap Action.updated? =
      (l.filter m.relabels).filterMap m.source? := by
    rw [filter_eq_flatMap, List.filterMap_flatMap, List.filterMap_flatMap]
    refine List.flatMap_congr fun x hx => ?_
    obtain ⟨hlx, y, hp⟩ := hl x hx
    exact (filterMap_visiting hm.dst hlx hp).2
  have hmoving : m.moving m.dst.root = m.reordered m.dst.root := by
    rw [moving, crosses_root hm.dst]
    rfl
  simp only [aligning, hiter, List.flatMap_cons, List.filterMap_append, hrel, hrel', har, har',
    hroot, hmoved, hupdated, hmoving, List.nil_append, List.append_nil, List.filter_cons,
    true_and]
  rw [← List.filterMap_append]
  split <;> rfl

end Mapping

/-! ### The script -/

/-- What does not depend on positions can be read off a plan. -/
theorem Action.filterMap_unplaced {β : Type} {f : Action → Option β}
    (hf : ∀ a : Action, f a.unplaced = f a) (l : List Action) :
    (l.map Action.unplaced).filterMap f = l.filterMap f := by
  rw [List.filterMap_map]
  exact List.filterMap_congr fun a _ => hf a

theorem Mapping.filterMap_removing (m : Mapping) (l : List NodeId) :
    (l.flatMap m.removing).filterMap Action.moved? = [] ∧
      (l.flatMap m.removing).filterMap Action.updated? = [] := by
  have hkind : ∀ a ∈ l.flatMap m.removing, a.moved? = none ∧ a.updated? = none := by
    intro a ha
    obtain ⟨s, -, ha⟩ := List.mem_flatMap.1 ha
    unfold Mapping.removing at ha
    split at ha
    · cases ha
    · split at ha
      · obtain rfl := List.mem_singleton.1 ha
        exact ⟨rfl, rfl⟩
      · obtain rfl := List.mem_singleton.1 ha
        exact ⟨rfl, rfl⟩
  exact ⟨List.filterMap_eq_nil_iff.2 fun a ha => (hkind a ha).1,
    List.filterMap_eq_nil_iff.2 fun a ha => (hkind a ha).2⟩

namespace Draft.Finished

variable {m : Mapping} {d : Draft}

/-- **The source nodes that a script moves**, in the order of the moves. -/
theorem filterMap_moved? (hf : Finished m d) (hm : m.Sound)
    (hr : m.source? m.dst.root = some m.src.root) :
    d.script.filterMap Action.moved? = (m.dst.iter.flatMap m.moving).filterMap m.source? := by
  obtain ⟨l, -, -, htold⟩ := hf.told
  have hun : ∀ a : Action, a.unplaced.moved? = a.moved? := fun a => by cases a <;> rfl
  rw [← Action.filterMap_unplaced hun, htold, List.filterMap_append,
    (Mapping.filterMap_aligning hm hr).1, (m.filterMap_removing l).1, List.append_nil]

/-- **The source nodes that a script relabels.** -/
theorem filterMap_updated? (hf : Finished m d) (hm : m.Sound)
    (hr : m.source? m.dst.root = some m.src.root) :
    d.script.filterMap Action.updated? = (m.dst.iter.filter m.relabels).filterMap m.source? := by
  obtain ⟨l, -, -, htold⟩ := hf.told
  have hun : ∀ a : Action, a.unplaced.updated? = a.updated? := fun a => by cases a <;> rfl
  rw [← Action.filterMap_unplaced hun, htold, List.filterMap_append,
    (Mapping.filterMap_aligning hm hr).2, (m.filterMap_removing l).2, List.append_nil]

end Draft.Finished

end TreeScript
