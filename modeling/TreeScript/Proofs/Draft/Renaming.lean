/-
**Drafts for renamed trees.**

Whatever is decided in working out a draft is decided by the mapping, by the order of children and
by the place of nodes in the working copy, and not by identities.  So the draft for the same
mapping between renamed trees makes the same changes, told of under the new names.

Main definitions:

* `TreeScript.Draft.Renamed` — **the same draft for renamed trees**.

Main results:

* `TreeScript.Draft.Renamed.stayers` — the same children stay;
* `TreeScript.Draft.Renamed.perform`, `TreeScript.Draft.Renamed.arrange`,
  `TreeScript.Draft.Renamed.visit`, `TreeScript.Draft.Renamed.pruneOne` — **each step is the
  same**;
* `TreeScript.Mapping.Renamed.align`, `TreeScript.Draft.Renamed.prune` — so are the loops.
-/

import TreeScript.Proofs.Draft.Prune
import TreeScript.Proofs.WorkingCopy.Renaming

set_option relaxedAutoImplicit false
set_option autoImplicit false

namespace TreeScript

variable {φ ψ : NodeId → NodeId} {m m' : Mapping} {x s : NodeId}

/-! ### Clean subtrees -/

/-- A clean subtree is clean under other names. -/
theorem Tree.Renumbered.clean {t u : Tree} {n : NodeId} {kept kept' : NodeId → Bool}
    (h : t.Renumbered u φ) (hkept : ∀ k, t.arena.isLive k → kept' (φ k) = kept k)
    (hn : t.arena.isLive n) : u.clean kept' (φ n) = t.clean kept n := by
  rw [Tree.clean, h.preorder hn, List.all_map, Tree.clean, Bool.eq_iff_iff, List.all_eq_true,
    List.all_eq_true]
  refine forall₂_congr fun k hk => ?_
  rw [Function.comp_apply, hkept k ((h.left.arena.mem_preorder_iff hn).1 hk).1]

namespace Mapping.Renamed

variable (h : m.Renamed φ ψ m')

include h

theorem dstClean (hx : m.dst.arena.isLive x) : m'.dstClean (ψ x) = m.dstClean x := by
  refine h.dst.clean (fun k hk => ?_) hx
  rw [hasDst, h.source? hk, Option.isSome_map, hasDst]

theorem srcClean (hs : m.src.arena.isLive s) : m'.srcClean (φ s) = m.srcClean s := by
  refine h.src.clean (fun k hk => ?_) hs
  rw [hasSrc, h.counterpart? hk, Option.isSome_map, hasSrc]

theorem isDstClean (hx : m.dst.arena.isLive x) : m'.isDstClean (ψ x) = m.isDstClean x := by
  rw [isDstClean_eq_ok hx, isDstClean_eq_ok (h.dst.isLive hx), h.dstClean hx]

/-- A source node goes away in one piece under its new name if it does under its old one. -/
theorem collapses (hs : m.src.arena.isLive s) :
    Draft.collapses m' (Draft.cleanSources m') (φ s) =
      Draft.collapses m (Draft.cleanSources m) s := by
  rw [Draft.collapses_cleanSources h.src.left hs,
    Draft.collapses_cleanSources h.src.right (h.src.isLive hs), collapsing, h.srcClean hs,
    h.src.children hs, List.isEmpty_map, collapsing]

theorem any_collapses (hs : m.src.arena.isLive s) :
    (m'.src.arena.parent? (φ s)).any (Draft.collapses m' (Draft.cleanSources m')) =
      (m.src.arena.parent? s).any (Draft.collapses m (Draft.cleanSources m)) := by
  rw [h.src.parent? hs]
  cases hp : m.src.arena.parent? s with
  | none => rfl
  | some q => exact h.collapses (h.src.left.arena.isLive_of_parent? hs hp)

end Mapping.Renamed

/-! ### Drafts -/

/-- A change and what is told of it, under other names. -/
def Edit.renamed (φ ψ : NodeId → NodeId) (e : Edit) : Edit :=
  ⟨e.change.renamed ψ, e.report?.map (Action.renamed φ ψ)⟩

@[simp] theorem Change.keepsNodes_renamed (change : Change) :
    (change.renamed ψ).keepsNodes = change.keepsNodes := by
  cases change <;> rfl

namespace Draft

/-- **The same draft for renamed trees.** -/
structure Renamed (φ ψ : NodeId → NodeId) (m : Mapping) (d d' : Draft) : Prop where
  copy : d.copy.Renamed φ ψ m d'.copy
  inOrder : d.inOrder.Renamed {x | m.dst.arena.isLive x} ψ d'.inOrder
  grafted : d.grafted.Renamed {x | m.dst.arena.isLive x} ψ d'.grafted
  edits : d'.edits = d.edits.map (Edit.renamed φ ψ)

theorem isLive_of_mem_ownCounterparts {d : Draft} {w b : NodeId} (hd : m.dst.WellFormed)
    (hx : m.dst.arena.isLive x) (hb : b ∈ d.ownCounterparts m w x) : m.dst.arena.isLive b :=
  hd.arena.isLive_of_mem hx (List.mem_filter.1 hb).1

namespace Renamed

variable {d d' : Draft} {w z : NodeId} (h : d.Renamed φ ψ m d') (hm : m.Renamed φ ψ m')
  (quiet : Bool)

include h

/-- The same is told, under the new names. -/
theorem script : d'.script = d.script.map (Action.renamed φ ψ) := by
  rw [Draft.script, h.edits, List.filterMap_map, Draft.script, List.map_filterMap]
  rfl

include hm

theorem mark (hx : m.dst.arena.isLive x) : (d.mark x).Renamed φ ψ m (d'.mark (ψ x)) :=
  { h with inOrder := h.inOrder.add hm.dst.injOn hx }

/-- **One change.** -/
theorem perform (change : Change) (ht : ∀ x ∈ change.targets, m.dst.arena.isLive x) :
    Follows (Renamed φ ψ m) (d.perform quiet change) (d'.perform quiet (change.renamed ψ)) := by
  have hreport : (if quiet && (change.renamed ψ).keepsNodes then none
      else d'.copy.report? (change.renamed ψ)) =
        (if quiet && change.keepsNodes then none else d.copy.report? change).map
          (Action.renamed φ ψ) := by
    rw [Change.keepsNodes_renamed, h.copy.report?]
    split <;> rfl
  unfold Draft.perform
  rw [hreport]
  refine (h.copy.apply hm change ht).bind fun c c' _ hc => Follows.ok ?_
  exact { h with
    copy := hc
    edits := by rw [h.edits, List.map_append]; rfl }

/-! ### Relabeling and moving -/

theorem rename (hx : m.dst.arena.isLive x) (w : NodeId) :
    Follows (Renamed φ ψ m) (d.rename m quiet w x) (d'.rename m' quiet w (ψ x)) := by
  unfold Draft.rename
  rw [hm.dst.label hx, h.copy.label?]
  refine (Follows.refl _).bind ?_
  rintro label _ - rfl
  split
  · exact Follows.ok h
  · exact h.perform hm quiet (.relabel w label) nofun

theorem bring (hx : m.dst.arena.isLive x) (w z : NodeId) :
    Follows (Renamed φ ψ m) (d.bring m quiet w z x) (d'.bring m' quiet w z (ψ x)) := by
  refine ((h.copy.without w).placeOf hm h.inOrder hx).bind ?_
  rintro k _ - rfl
  exact h.perform hm quiet (.move w z k) nofun

/-! ### Arranging -/

theorem ownChildren (hx : m.dst.arena.isLive x) (w : NodeId) :
    d'.ownChildren m' w (ψ x) = d.ownChildren m w x := by
  rw [Draft.ownChildren, h.copy.arena, Arena.children_mapData, Draft.ownChildren]
  refine List.filter_congr fun a _ => ?_
  rw [h.copy.get?_toDst]
  cases ha : d.copy.toDst.get? a with
  | none => rfl
  | some e =>
      rw [Option.map_some, Bool.eq_iff_iff, beq_iff_eq, beq_iff_eq]
      exact hm.dst.parent?_eq_some_iff (h.copy.target ha) hx

theorem ownCounterparts (hx : m.dst.arena.isLive x) (w : NodeId) :
    d'.ownCounterparts m' w (ψ x) = (d.ownCounterparts m w x).map ψ := by
  rw [Draft.ownCounterparts, hm.dst.children hx, List.filter_map, Draft.ownCounterparts]
  refine congrArg (List.map ψ) (List.filter_congr fun b hb => ?_)
  rw [Function.comp_apply, h.copy.get?_ofDst (hm.dst.left.arena.isLive_of_mem hx hb)]
  cases d.copy.ofDst.get? b with
  | none => rfl
  | some a => simp only [h.copy.arena, Arena.parent?_mapData]

/-- **The same children stay**: a longest common subsequence does not depend on names. -/
theorem stayers (hx : m.dst.arena.isLive x) (w : NodeId) :
    d'.stayers m' w (ψ x) = (d.stayers m w x).map ψ := by
  have hcommon : longestCommon (fun a b => d'.copy.toDst.get? a == some b)
      ((d.ownChildren m w x).map id) ((d.ownCounterparts m w x).map ψ) =
        (longestCommon (fun a b => d.copy.toDst.get? a == some b) (d.ownChildren m w x)
          (d.ownCounterparts m w x)).map (Prod.map id ψ) := by
    refine longestCommon_map id ψ fun a _ b hb => ?_
    have hlb := isLive_of_mem_ownCounterparts hm.dst.left hx hb
    rw [id, h.copy.get?_toDst, Bool.eq_iff_iff, beq_iff_eq, beq_iff_eq, Option.map_eq_some_iff]
    constructor
    · rintro ⟨e, he, heb⟩
      rw [he, hm.dst.injOn (h.copy.target he) hlb heb]
    · exact fun he => ⟨b, he, rfl⟩
  rw [List.map_id] at hcommon
  rw [Draft.stayers, h.ownChildren hm hx, h.ownCounterparts hm hx, hcommon, Draft.stayers,
    List.map_map, List.map_map]
  rfl

theorem arrangeOne {stay : List NodeId} (hs : ∀ b ∈ stay, m.dst.arena.isLive b)
    (hx : m.dst.arena.isLive x) (w : NodeId) :
    Follows (Renamed φ ψ m) (Draft.arrangeOne m quiet stay w d x)
      (Draft.arrangeOne m' quiet (stay.map ψ) w d' (ψ x)) := by
  have hmem : ψ x ∈ stay.map ψ ↔ x ∈ stay := mem_map_iff_of_injOn hm.dst.injOn hs hx
  unfold Draft.arrangeOne
  rw [if_congr hmem rfl rfl]
  split
  · exact Follows.ok h
  · refine (h.copy.counterpart hx).bind ?_
    rintro v _ - rfl
    exact (h.bring hm quiet hx v w).bind fun e e' _ he => Follows.ok (he.mark hm hx)

/-- **The children are put in the same order.** -/
theorem arrange (hx : m.dst.arena.isLive x) (w : NodeId) :
    Follows (Renamed φ ψ m) (d.arrange m quiet w x) (d'.arrange m' quiet w (ψ x)) := by
  have hchildren : ∀ b ∈ m.dst.arena.children x, m.dst.arena.isLive b :=
    fun b hb => hm.dst.left.arena.isLive_of_mem hx hb
  have hown : ∀ b ∈ d.ownCounterparts m w x, m.dst.arena.isLive b :=
    fun b hb => isLive_of_mem_ownCounterparts hm.dst.left hx hb
  have hstay : ∀ b ∈ d.stayers m w x, m.dst.arena.isLive b :=
    fun b hb => hown b ((stayers_sublist m d w x).subset hb)
  unfold Draft.arrange
  rw [h.stayers hm hx, hm.dst.children hx, h.ownCounterparts hm hx]
  refine Follows.foldlM ψ ?_ fun l₁ b l₂ e e' hl _ he => ?_
  · exact { h with
      inOrder := (h.inOrder.eraseAll hm.dst.injOn hchildren).addAll hm.dst.injOn hstay }
  · exact he.arrangeOne hm quiet hstay (hown b (by simp [hl])) w

/-! ### Bringing in -/

theorem insertAlone (hx : m.dst.arena.isLive x) (z : NodeId) :
    Follows (Renamed φ ψ m) (d.insertAlone m quiet z x) (d'.insertAlone m' quiet z (ψ x)) := by
  unfold Draft.insertAlone
  rw [hm.dst.label hx, h.copy.arena, Arena.nextId_mapData]
  refine (Follows.refl _).bind ?_
  rintro label _ - rfl
  refine (h.copy.placeOf hm h.inOrder hx).bind ?_
  rintro k _ - rfl
  refine (h.perform hm quiet (.insert x label z k) ?_).bind fun e e' _ he => ?_
  · intro y hy
    obtain rfl := List.mem_singleton.1 hy
    exact hx
  · exact (he.mark hm hx).arrange hm quiet hx _

theorem insertWhole (hx : m.dst.arena.isLive x) (z : NodeId) :
    Follows (Renamed φ ψ m) (d.insertWhole m quiet z x) (d'.insertWhole m' quiet z (ψ x)) := by
  obtain ⟨v, hv, hv'⟩ := hm.dst.view hx
  -- everything in the view is a node of the destination
  have hids : ∀ n ∈ v.preorder.map Prod.fst, m.dst.arena.isLive n := by
    intro n hn
    rw [← RoseTree.preorder_map, (hm.dst.left.depicts_of_view hx hv).2] at hn
    exact ((hm.dst.left.arena.mem_preorder_iff hx).1 hn).1
  have hlabels : ((v.map (Prod.map ψ id)).map fun e => (e.1, e.2.label)) =
      (v.map fun e => (e.1, e.2.label)).map (Prod.map ψ id) := by
    rw [RoseTree.map_map, RoseTree.map_map]
    rfl
  have hbelow : (((v.map (Prod.map ψ id)).preorder.drop 1).map Prod.fst) =
      ((v.preorder.drop 1).map Prod.fst).map ψ := by
    rw [RoseTree.preorder_map, ← List.map_drop, List.map_map, List.map_map]
    rfl
  unfold Draft.insertWhole
  refine (h.copy.placeOf hm h.inOrder hx).bind ?_
  rintro k _ - rfl
  rw [hv, hv', bind_ok, bind_ok, hlabels, hbelow]
  have hgraft := h.perform hm quiet (.graft (v.map fun e => (e.1, e.2.label)) z k) ?_
  · refine hgraft.bind fun e e' _ he => Follows.ok ?_
    exact { he.mark hm hx with
      grafted := he.grafted.addAll hm.dst.injOn fun y hy =>
        hids y (List.map_subset _ (List.drop_subset 1 _) hy) }
  · intro y hy
    rw [Change.targets, RoseTree.preorder_map, List.map_map] at hy
    exact hids y hy

theorem settle (hs : m.src.arena.isLive s) (hx : m.dst.arena.isLive x) (z : NodeId) :
    Follows (Renamed φ ψ m) (d.settle m quiet z s x) (d'.settle m' quiet z (φ s) (ψ x)) := by
  unfold Draft.settle
  refine (h.copy.copyOf hs).bind ?_
  rintro w _ - rfl
  refine (h.rename hm quiet hx w).bind fun e e' _ he => ?_
  rw [he.copy.arena, Arena.parent?_mapData]
  by_cases hp : e.copy.arena.parent? w = some z
  · simp only [if_pos hp, pure_bind]
    exact (he.mark hm hx).arrange hm quiet hx w
  · simp only [if_neg hp]
    exact (he.bring hm quiet hx w z).bind fun f f' _ hf => (hf.mark hm hx).arrange hm quiet hx w

/-- **A visit does the same.** -/
theorem visit (hx : m.dst.arena.isLive x) :
    Follows (Renamed φ ψ m) (Draft.visit m quiet d x) (Draft.visit m' quiet d' (ψ x)) := by
  unfold Draft.visit
  rw [h.grafted x hx, hm.dst.parent? hx, hm.source? hx, hm.isDstClean hx, hm.dst.children hx,
    List.isEmpty_map]
  split
  · exact Follows.ok h
  · cases hp : m.dst.arena.parent? x with
    | none => exact Follows.ok h
    | some y =>
        refine (h.copy.counterpart (hm.dst.left.arena.isLive_of_parent? hx hp)).bind ?_
        rintro z _ - rfl
        cases hs : m.source? x with
        | some s => exact h.settle hm quiet (hm.sound.left hx hs).1 hx z
        | none =>
            refine (Follows.refl _).bind ?_
            rintro clean _ - rfl
            split
            · exact h.insertAlone hm quiet hx z
            · exact h.insertWhole hm quiet hx z

/-! ### Taking out -/

/-- **A node is taken out alike**, as long as the source nodes that are taken out are there. -/
theorem pruneOne (hs : ∀ s, d.copy.origin? w = some (.src s) → m.src.arena.isLive s) :
    Follows (Renamed φ ψ m) (Draft.pruneOne m quiet (cleanSources m) d w)
      (Draft.pruneOne m' quiet (cleanSources m') d' w) := by
  unfold Draft.pruneOne
  rw [h.copy.contains_toDst, h.copy.origin?]
  split
  · exact Follows.ok h
  · cases ho : d.copy.origin? w with
    | none => exact Follows.ok h
    | some ref =>
        cases ref with
        | dst y => exact Follows.ok h
        | src s =>
            have hls := hs s ho
            simp only [Option.map_some, NodeRef.renamed, hm.any_collapses hls, hm.collapses hls]
            split
            · exact Follows.ok h
            · split
              · exact h.perform hm quiet (.removeTree w) nofun
              · exact h.perform hm quiet (.remove w) nofun

/-- **What is left over is taken out alike.** -/
theorem prune (h₀ : Aligned m (Stage.done m) d)
    (hr : m.source? m.dst.root = some m.src.root) :
    Follows (Renamed φ ψ m) (d.prune m false) (d'.prune m' false) := by
  unfold Draft.prune
  rw [h.copy.root, h.copy.arena, Arena.postorder_mapData]
  have hloop : Follows (Renamed φ ψ m)
      ((d.copy.arena.postorder d.copy.root).foldlM (Draft.pruneOne m false (cleanSources m)) d)
      (((d.copy.arena.postorder d.copy.root).map id).foldlM
        (Draft.pruneOne m' false (cleanSources m')) d') := by
    refine Follows.foldlM id h fun l₁ w l₂ e e' hl hrun he => ?_
    -- the node whose turn it is is still there, and so is what it is a copy of
    obtain ⟨e₁, hrun₁, hp⟩ := h₀.exists_pruning hm.sound hr hl
    obtain rfl := Except.ok.inj (hrun.symm.trans hrun₁)
    exact he.pruneOne hm false fun s ho => (hp.sound.source (hp.isLive_next h₀ hl) ho).1
  rwa [List.map_id] at hloop

end Renamed

end Draft

/-! ### All visits -/

/-- **All destination nodes are seen to alike.** -/
theorem Mapping.Renamed.align (hm : m.Renamed φ ψ m') (quiet : Bool) :
    Follows (Draft.Renamed φ ψ m) (Draft.align m quiet) (Draft.align m' quiet) := by
  have hroot := hm.dst.left.isLive_root
  have hstart : Follows (Draft.Renamed φ ψ m) (Draft.start m) (Draft.start m') :=
    hm.start.bind fun c c' _ hc => Follows.ok
      { copy := hc
        inOrder := NodeSet.Renamed.empty
        grafted := NodeSet.Renamed.empty
        edits := rfl }
  unfold Draft.align
  rw [← hm.dst.root, hm.dst.iter]
  refine hstart.bind fun d d' _ h => ?_
  rw [h.copy.root]
  refine (h.rename hm quiet hroot d.copy.root).bind fun e e' _ he => ?_
  refine ((he.mark hm hroot).arrange hm quiet hroot d.copy.root).bind fun f f' _ hf => ?_
  refine Follows.foldlM ψ hf fun l₁ x l₂ g g' hl _ hg => ?_
  exact hg.visit hm quiet (hm.dst.left.mem_iter_iff.1 (by simp [hl]))

end TreeScript
