/-
**Working copies of renamed trees.**

The nodes of a working copy are numbered in the order in which they are made, whatever the
identities of the nodes that they are made for.  So the working copies for a mapping and for the
same mapping between renamed trees have the same nodes and the same links; they differ only in the
names of source and destination nodes that are written to their nodes and stored in their tables.

Main definitions:

* `TreeScript.Action.renamed`, `TreeScript.Change.renamed` — what a script says, and what it
  changes, with the nodes under other names;
* `TreeScript.Mapping.Renamed` — **the same mapping between renamed trees**;
* `TreeScript.WorkingCopy.Renamed` — **the same working copy for renamed trees**.

Main results:

* `TreeScript.Mapping.Renamed.start` — the working copies are the same at the beginning;
* `TreeScript.WorkingCopy.Renamed.apply`, `TreeScript.WorkingCopy.Renamed.report?` — **they are
  changed alike, and alike is told of it**;
* `TreeScript.WorkingCopy.Renamed.placeOf` — nodes go to the same places.
-/

import TreeScript.Proofs.Arena.Payload
import TreeScript.Proofs.Mapping
import TreeScript.Proofs.NodeMap
import TreeScript.Proofs.Tree.Renumbering
import TreeScript.Proofs.WorkingCopy.Steps

set_option relaxedAutoImplicit false
set_option autoImplicit false

namespace TreeScript

/-- What stands before an element, under other names. -/
theorem takeWhile_ne_map {σ τ : Type} [DecidableEq σ] [DecidableEq τ] {S : Set σ} {f : σ → τ}
    (hf : S.InjOn f) {l : List σ} (hl : ∀ y ∈ l, y ∈ S) {x : σ} (hx : x ∈ S) :
    (l.map f).takeWhile (· != f x) = (l.takeWhile (· != x)).map f := by
  induction l with
  | nil => rfl
  | cons y l ih =>
      obtain ⟨hy, hl⟩ := List.forall_mem_cons.1 hl
      rw [List.map_cons, List.takeWhile_cons, List.takeWhile_cons]
      by_cases he : y = x
      · simp [he]
      · have hne : f y ≠ f x := fun hfe => he (hf hy hx hfe)
        simp [he, hne, ih hl]

/-! ### Other names -/

section Names

variable (φ ψ : NodeId → NodeId)

/-- The reference with source nodes renamed by `φ` and destination nodes by `ψ`. -/
def NodeRef.renamed : NodeRef → NodeRef
  | .src s => .src (φ s)
  | .dst x => .dst (ψ x)

/-- The node of a working copy with another name for what it stands in for. -/
def WorkNode.renamed (n : WorkNode) : WorkNode := ⟨n.label, n.origin.renamed φ ψ⟩

/-- **The action with source nodes renamed by `φ` and destination nodes by `ψ`.** -/
def Action.renamed : Action → Action
  | .insert x p k => .insert (ψ x) (p.renamed φ ψ) k
  | .treeInsert x p k => .treeInsert (ψ x) (p.map (NodeRef.renamed φ ψ)) k
  | .update s label => .update (φ s) label
  | .move s p k => .move (φ s) (p.renamed φ ψ) k
  | .treeDelete s => .treeDelete (φ s)
  | .delete s => .delete (φ s)

/-- The change with destination nodes renamed by `ψ`. -/
def Change.renamed : Change → Change
  | .insert x label p k => .insert (ψ x) label p k
  | .graft v p k => .graft (v.map (Prod.map ψ id)) p k
  | change => change

end Names

/-- The destination nodes that a change makes nodes for. -/
def Change.targets : Change → List NodeId
  | .insert x _ _ _ => [x]
  | .graft v _ _ => v.preorder.map Prod.fst
  | _ => []

/-- **The same mapping between renamed trees**: counterparts are paired under their new names. -/
structure Mapping.Renamed (φ ψ : NodeId → NodeId) (m m' : Mapping) : Prop where
  src : m.src.Renumbered m'.src φ
  dst : m.dst.Renumbered m'.dst ψ
  sound : m.Sound
  counterpart? : ∀ {s}, m.src.arena.isLive s → m'.counterpart? (φ s) = (m.counterpart? s).map ψ
  source? : ∀ {x}, m.dst.arena.isLive x → m'.source? (ψ x) = (m.source? x).map φ

/-- **The same working copy for renamed trees**: the nodes and their links are the same, and the
tables find the same nodes under the new names. -/
structure WorkingCopy.Renamed (φ ψ : NodeId → NodeId) (m : Mapping) (c c' : WorkingCopy) :
    Prop where
  arena : c'.arena = c.arena.mapData (WorkNode.renamed φ ψ)
  root : c'.root = c.root
  ofSrc : c.ofSrc.Renamed {s | m.src.arena.isLive s} φ id c'.ofSrc
  toDst : c.toDst.Renamed Set.univ id ψ c'.toDst
  ofDst : c.ofDst.Renamed {x | m.dst.arena.isLive x} ψ id c'.ofDst
  /-- Counterparts are nodes of the destination. -/
  target : ∀ {w x}, c.toDst.get? w = some x → m.dst.arena.isLive x

variable {φ ψ : NodeId → NodeId} {m m' : Mapping} {c c' : WorkingCopy} {w x s p n : NodeId}

namespace WorkingCopy.Renamed

/-! ### Reading -/

section Reading

variable (h : Renamed φ ψ m c c')

include h

theorem get?_toDst (w : NodeId) : c'.toDst.get? w = (c.toDst.get? w).map ψ :=
  h.toDst w (Set.mem_univ w)

theorem get?_ofDst (hx : m.dst.arena.isLive x) : c'.ofDst.get? (ψ x) = c.ofDst.get? x := by
  rw [h.ofDst x hx, Option.map_id, id]

theorem contains_toDst (w : NodeId) : c'.toDst.contains w = c.toDst.contains w :=
  h.toDst.contains (Set.mem_univ w)

theorem counterpart (hx : m.dst.arena.isLive x) :
    Follows Eq (c.counterpart x) (c'.counterpart (ψ x)) := by
  rw [WorkingCopy.counterpart, WorkingCopy.counterpart, h.get?_ofDst hx]
  cases c.ofDst.get? x with
  | none => exact Follows.error _ _
  | some w => exact Follows.ok rfl

theorem copyOf (hs : m.src.arena.isLive s) : Follows Eq (c.copyOf s) (c'.copyOf (φ s)) := by
  rw [WorkingCopy.copyOf, WorkingCopy.copyOf, h.ofSrc s hs, Option.map_id, id]
  cases c.ofSrc.get? s with
  | none => exact Follows.error _ _
  | some w => exact Follows.ok rfl

theorem origin? (w : NodeId) : c'.origin? w = (c.origin? w).map (NodeRef.renamed φ ψ) := by
  rw [WorkingCopy.origin?, h.arena, Arena.data?_mapData, WorkingCopy.origin?]
  cases c.arena.data? w <;> rfl

theorem label? (w : NodeId) : c'.label? w = c.label? w := by
  rw [WorkingCopy.label?, h.arena, Arena.data?_mapData, WorkingCopy.label?]
  cases c.arena.data? w <;> rfl

/-- **What is told of a change is told under the new names.** -/
theorem report? (change : Change) :
    c'.report? (change.renamed ψ) = (c.report? change).map (Action.renamed φ ψ) := by
  cases change with
  | insert _ _ p | graft _ p =>
      simp only [Change.renamed, WorkingCopy.report?, h.origin?, RoseTree.value_map]
      cases c.origin? p <;> rfl
  | move w p =>
      simp only [Change.renamed, WorkingCopy.report?, h.origin?]
      rcases c.origin? w with _ | _ | _ <;> cases c.origin? p <;> rfl
  | relabel w | removeTree w | remove w =>
      simp only [Change.renamed, WorkingCopy.report?, h.origin?]
      rcases c.origin? w with _ | _ | _ <;> rfl

/-! ### Places -/

/-- **A node goes to the same place**, among siblings under other names. -/
theorem placeOf (hm : m.Renamed φ ψ m') {inOrder inOrder' : NodeSet}
    (ho : inOrder.Renamed {x | m.dst.arena.isLive x} ψ inOrder') (hx : m.dst.arena.isLive x) :
    Follows Eq (c.placeOf m.dst inOrder x) (c'.placeOf m'.dst inOrder' (ψ x)) := by
  unfold WorkingCopy.placeOf
  rw [hm.dst.parent? hx]
  cases hp : m.dst.arena.parent? x with
  | none => exact Follows.ok rfl
  | some y =>
      have hy := hm.dst.left.arena.isLive_of_parent? hx hp
      have hsub : ∀ v ∈ (m.dst.arena.children y).takeWhile (· != x), m.dst.arena.isLive v :=
        fun v hv => hm.dst.left.arena.isLive_of_mem hy (List.takeWhile_subset _ hv)
      have hbefore : ((m'.dst.arena.children (ψ y)).takeWhile (· != ψ x)).filter
          inOrder'.contains =
            (((m.dst.arena.children y).takeWhile (· != x)).filter inOrder.contains).map ψ := by
        rw [hm.dst.children hy, takeWhile_ne_map hm.dst.injOn
          (fun v hv => hm.dst.left.arena.isLive_of_mem hy hv) hx, List.filter_map]
        exact congrArg (List.map ψ) (List.filter_congr fun v hv => ho v (hsub v hv))
      simp only [Option.map_some, hbefore, List.getLast?_map]
      cases hv : (((m.dst.arena.children y).takeWhile (· != x)).filter
        inOrder.contains).getLast? with
      | none => exact Follows.ok rfl
      | some v =>
          have hlv := hsub v (List.mem_filter.1 (List.mem_of_getLast? hv)).1
          refine (h.counterpart hlv).bind fun w w' _ hw => ?_
          rw [← hw, h.arena, Arena.position_mapData]
          exact Follows.ok rfl

/-! ### Changes -/

/-- The nodes of both may be replaced. -/
theorem withArena (a : Arena WorkNode) : Renamed φ ψ m { c with arena := a }
    { c' with arena := a.mapData (WorkNode.renamed φ ψ) } :=
  { h with arena := rfl }

theorem without (w : NodeId) : Renamed φ ψ m (c.without w) (c'.without w) := by
  rw [WorkingCopy.without, WorkingCopy.without, h.arena, Arena.unlink_mapData]
  exact h.withArena _

theorem pair (hm : m.Renamed φ ψ m') (hx : m.dst.arena.isLive x) (w : NodeId) :
    Renamed φ ψ m (c.pair w x) (c'.pair w (ψ x)) :=
  { h with
    toDst := h.toDst.insert Function.injective_id.injOn (Set.mem_univ w) x
    ofDst := h.ofDst.insert hm.dst.injOn hx w
    target := by
      intro v y hy
      rw [WorkingCopy.pair, NodeMap.get?_insert] at hy
      split at hy
      · obtain rfl := Option.some.inj hy
        exact hx
      · exact h.target hy }

theorem foldl_pair (hm : m.Renamed φ ψ m') {l : List (NodeId × NodeId)}
    (hl : ∀ e ∈ l, m.dst.arena.isLive e.1) :
    Renamed φ ψ m (l.foldl (fun c e => c.pair e.2 e.1) c)
      ((l.map (Prod.map ψ id)).foldl (fun c e => c.pair e.2 e.1) c') := by
  rw [List.foldl_map]
  exact List.foldl_rel h fun e he _ _ h => h.pair hm (hl e he) e.2

/-- A node put at a place, in both. -/
theorem attach (a : Arena WorkNode) (p : NodeId) (k : Nat) (w : NodeId) :
    Follows (fun b b' => Renamed φ ψ m { c with arena := b } { c' with arena := b' })
      (a.attach p k w) ((a.mapData (WorkNode.renamed φ ψ)).attach p k w) := by
  rw [Arena.attach_mapData]
  refine (Follows.map _ _).imp ?_
  rintro b b' rfl
  exact h.withArena b

/-- **Both are changed alike.** -/
theorem apply (hm : m.Renamed φ ψ m') (change : Change)
    (ht : ∀ x ∈ change.targets, m.dst.arena.isLive x) :
    Follows (Renamed φ ψ m) (c.apply change) (c'.apply (change.renamed ψ)) := by
  cases change with
  | relabel w label =>
      have hset : (c.arena.mapData (WorkNode.renamed φ ψ)).setData w (fun n => { n with label }) =
          (c.arena.setData w fun n => { n with label }).mapData (WorkNode.renamed φ ψ) :=
        Arena.setData_mapData _ _ _ fun _ => rfl
      simp only [Change.renamed, WorkingCopy.apply, h.arena, hset]
      exact Follows.ok (h.withArena _)
  | insert x label p k =>
      have hnew := Arena.alloc_mapData (WorkNode.renamed φ ψ) c.arena ⟨label, .dst x⟩
      simp only [Change.renamed, WorkingCopy.apply, h.arena, Arena.nextId_mapData]
      refine (hnew ▸ h.attach _ p k c.arena.nextId).bind fun b b' _ hb => ?_
      exact Follows.ok (hb.pair hm (ht x List.mem_cons_self) c.arena.nextId)
  | graft v p k =>
      -- the names are changed in the nodes that are planted
      have hv : ((v.map (Prod.map ψ id)).map fun e => (e.1, (⟨e.2, .dst e.1⟩ : WorkNode))) =
          (v.map fun e => (e.1, (⟨e.2, .dst e.1⟩ : WorkNode))).map
            (Prod.map ψ (WorkNode.renamed φ ψ)) := by
        rw [RoseTree.map_map, RoseTree.map_map]
        rfl
      have hlive : ∀ e ∈ c.copies v, m.dst.arena.isLive e.1 := by
        intro e he
        refine ht e.1 ?_
        rw [Change.targets, ← map_fst_copies]
        exact List.mem_map_of_mem he
      simp only [Change.renamed, WorkingCopy.apply, h.arena, Arena.nextId_mapData, hv,
        Arena.plant_mapData]
      refine (h.attach _ p k c.arena.nextId).bind fun b b' _ hb => ?_
      exact Follows.ok (hb.foldl_pair hm hlive)
  | move w p k =>
      simp only [Change.renamed, WorkingCopy.apply, h.arena, Arena.unlink_mapData]
      exact (h.attach _ p k w).bind fun _ _ _ hb => Follows.ok hb
  | removeTree w =>
      simp only [Change.renamed, WorkingCopy.apply, h.arena, Arena.removeSubtree_mapData]
      exact Follows.ok (h.withArena _)
  | remove w =>
      simp only [Change.renamed, WorkingCopy.apply, h.arena, Arena.removeAlone_mapData]
      exact Follows.ok (h.withArena _)

end Reading

end WorkingCopy.Renamed

/-! ### The beginning -/

/-- **The working copies are the same at the beginning**, since what is planted is numbered as it
is met, whatever it is a copy of. -/
theorem Mapping.Renamed.start (hm : m.Renamed φ ψ m') :
    Follows (WorkingCopy.Renamed φ ψ m) (WorkingCopy.start m) (WorkingCopy.start m') := by
  have hroot := hm.src.left.isLive_root
  obtain ⟨v, hv, hv'⟩ := hm.src.view hroot
  rw [hm.src.root] at hv'
  let u := v.map fun e => (e.1, (⟨e.2.label, .src e.1⟩ : WorkNode))
  have hu : ((v.map (Prod.map φ id)).map fun e => (e.1, (⟨e.2.label, .src e.1⟩ : WorkNode))) =
      u.map (Prod.map φ (WorkNode.renamed φ ψ)) := by
    rw [RoseTree.map_map, RoseTree.map_map]
    rfl
  have hplant := Arena.plant_mapData (WorkNode.renamed φ ψ) φ u Arena.empty none
  rw [Arena.mapData_empty] at hplant
  have hlive : ∀ e ∈ (Arena.empty.plant none u).2, m.src.arena.isLive e.1 := by
    intro e he
    have hmem := List.mem_map_of_mem (f := Prod.fst) he
    rw [Arena.map_fst_plant, RoseTree.preorder_map, List.map_map] at hmem
    have hids := congrArg RoseTree.preorder (hm.src.left.depicts_of_view hroot hv).2
    rw [RoseTree.preorder_map] at hids
    refine hm.src.left.mem_preorder_iff.1 ?_
    rw [Tree.preorder, Arena.preorder, ← hids]
    exact hmem
  simp only [WorkingCopy.start, hv, hv', bind_ok, hu, hplant]
  refine Follows.ok ?_
  rw [List.foldl_map]
  refine List.foldl_rel ?_ fun e he c c' h => ?_
  · exact
      { arena := rfl
        root := rfl
        ofSrc := NodeMap.Renamed.ofList hm.src.injOn hlive
        toDst := NodeMap.Renamed.empty
        ofDst := NodeMap.Renamed.empty
        target := fun hx => by rw [NodeMap.get?_empty] at hx; cases hx }
  · rw [Prod.map_fst, Prod.map_snd, hm.counterpart? (hlive e he)]
    cases hx : m.counterpart? e.1 with
    | none => exact h
    | some x => exact h.pair hm (hm.sound.right (hlive e he) hx).1 e.2

end TreeScript
