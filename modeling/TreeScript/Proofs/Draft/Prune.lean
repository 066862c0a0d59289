/-
**Taking out what is left over.**

When all destination nodes have been seen to, a node of the working copy without counterpart is
the copy of a source node without counterpart, still under the copy of its old parent, and nothing
below it has a counterpart.  So the way to a node with a counterpart is never cut when such nodes
are taken out, and each is a leaf when its turn comes, unless it goes with what is below it.

Main definitions:

* `TreeScript.Draft.leftover` — the source node that a node without counterpart is the copy of;
* `TreeScript.Draft.Pruning` — the invariant of the last loop;
* `TreeScript.Draft.Finished` — **what a finished draft is like**.

Main results:

* `TreeScript.Draft.contains_cleanSources_iff` — the set of clean source nodes is right;
* `TreeScript.Draft.exists_finished` — **a draft is finished without a fault**.
-/

import TreeScript.EditScript
import TreeScript.Proofs.Draft.Visit

set_option relaxedAutoImplicit false
set_option autoImplicit false

namespace TreeScript.Draft

open WorkingCopy

variable {m : Mapping} {d d' d₀ : Draft} {x y n s w k : NodeId} {l : List NodeId}

/-! ### Clean source nodes -/

/-- **The set of clean source nodes has these and no others.** -/
theorem contains_cleanSources_iff (hs : m.src.WellFormed) (s : NodeId) :
    (cleanSources m).contains s ↔ m.src.arena.isLive s ∧ m.srcClean s := by
  have hr := hs.isLive_root
  have hmem : ∀ {s}, s ∈ m.src.postorder ↔ m.src.arena.isLive s := fun {s} =>
    (hs.arena.mem_postorder_iff hr).trans (and_iff_left_of_imp (hs.rooted.below hs.arena))
  have key : ∀ s, (cleanSources m).contains s ↔ s ∈ m.src.postorder ∧ m.srcClean s := by
    refine foldl_invariant (fun l (clean : NodeSet) =>
      ∀ s, clean.contains s ↔ s ∈ l ∧ m.srcClean s) (fun s => by simp) ?_
    intro l₁ x l₂ clean hsplit h s
    have hx : m.src.arena.isLive x := hmem.1 (by simp [hsplit])
    -- the children of `x` have been looked at before
    have hall : (m.src.arena.children x).all clean.contains =
        (m.src.arena.children x).all m.srcClean := by
      rw [Bool.eq_iff_iff, List.all_eq_true, List.all_eq_true]
      refine forall₂_congr fun c hc => ?_
      have hlc := hs.arena.isLive_of_mem hx hc
      have hpc := hs.arena.parent?_of_mem hx hc
      have hne : c ≠ x := by
        rintro rfl
        exact hs.arena.not_below_parent hlc hpc Arena.Below.self
      have hmem := hs.arena.mem_of_postorder_split hr hsplit hlc (Arena.Below.of_parent hpc) hne
      rw [h, and_iff_right hmem]
    have hclean := Mapping.srcClean_eq hs hx
    rw [← hall] at hclean
    rw [List.mem_append, List.mem_singleton]
    split
    case isTrue ht =>
      rw [NodeSet.contains_add, Bool.or_eq_true, decide_eq_true_iff, h]
      constructor
      · rintro (rfl | ⟨hm, hc⟩)
        · exact ⟨Or.inr rfl, hclean.trans ht⟩
        · exact ⟨Or.inl hm, hc⟩
      · rintro ⟨hm | rfl, hc⟩
        · exact Or.inr ⟨hm, hc⟩
        · exact Or.inl rfl
    case isFalse hf =>
      rw [h]
      constructor
      · rintro ⟨hm, hc⟩
        exact ⟨Or.inl hm, hc⟩
      · rintro ⟨hm | rfl, hc⟩
        · exact ⟨hm, hc⟩
        · exact absurd (hclean.symm.trans hc) hf
  rw [key, hmem]

theorem contains_cleanSources (hs : m.src.WellFormed) (hl : m.src.arena.isLive s) :
    (cleanSources m).contains s = m.srcClean s := by
  rw [Bool.eq_iff_iff, contains_cleanSources_iff hs, and_iff_right hl]

theorem collapses_cleanSources (hs : m.src.WellFormed) (hl : m.src.arena.isLive s) :
    collapses m (cleanSources m) s = m.collapsing s := by
  rw [collapses, contains_cleanSources hs hl]
  rfl

theorem any_collapses_cleanSources (hs : m.src.WellFormed) (hl : m.src.arena.isLive s) :
    (m.src.arena.parent? s).any (collapses m (cleanSources m)) =
      (m.src.arena.parent? s).any m.collapsing := by
  cases hp : m.src.arena.parent? s with
  | none => rfl
  | some q => exact collapses_cleanSources hs (hs.arena.isLive_of_parent? hl hp)

/-! ### When all nodes have been seen to -/

/-- The source node without counterpart that a node of the copy is the copy of. -/
def leftover (c : WorkingCopy) (w : NodeId) : Option NodeId :=
  match c.toDst.get? w, c.origin? w with
  | none, some (.src s) => some s
  | _, _ => none

theorem leftover_eq_some_iff {c : WorkingCopy} :
    leftover c w = some s ↔ c.toDst.get? w = none ∧ c.origin? w = some (.src s) := by
  unfold leftover
  split
  case h_1 t ht ho =>
    rw [ht, ho]
    simp
  case h_2 hno =>
    constructor
    · intro h
      cases h
    · rintro ⟨ht, ho⟩
      exact absurd ho (hno s ht)

section Done

variable (h : Aligned m (Stage.done m) d) (hm : m.Sound)

include h

/-- Every destination node has a counterpart now. -/
theorem Aligned.exists_counterpart (hx : m.dst.arena.isLive x) :
    ∃ w, d.copy.ofDst.get? x = some w :=
  (h.ofDst_iff hx).2 (Or.inr (Or.inl hx))

theorem Aligned.label?_counterpart (hw : d.copy.ofDst.get? x = some w) :
    d.copy.label? w = m.dst.label? x :=
  h.named (Or.inl (h.sound.isLive_of_ofDst hw)) hw

/-- What has no counterpart is the copy of a source node without one. -/
theorem Aligned.exists_leftover (hw : d.copy.arena.isLive w) (ht : d.copy.toDst.get? w = none) :
    ∃ s, leftover d.copy w = some s := by
  obtain ⟨ref, ho⟩ := exists_origin hw
  cases ref with
  | src s => exact ⟨s, leftover_eq_some_iff.2 ⟨ht, ho⟩⟩
  | dst x =>
      rw [(h.sound.made hw ho).2.2] at ht
      cases ht

theorem Aligned.source_of_leftover (hw : d.copy.arena.isLive w)
    (hs : leftover d.copy w = some s) :
    m.src.arena.isLive s ∧ d.copy.ofSrc.get? s = some w ∧ m.counterpart? s = none := by
  obtain ⟨ht, ho⟩ := leftover_eq_some_iff.1 hs
  obtain ⟨hls, hsw, hto⟩ := h.sound.source hw ho
  exact ⟨hls, hsw, hto.symm.trans ht⟩

include hm

/-- A destination node has its counterpart under that of its parent. -/
theorem Aligned.parent?_counterpart {z : NodeId} (hp : m.dst.arena.parent? x = some y)
    (hw : d.copy.ofDst.get? x = some w) (hz : d.copy.ofDst.get? y = some z) :
    d.copy.arena.parent? w = some z := by
  have hx := h.sound.isLive_of_ofDst hw
  exact h.parent?_of_settled hm.dst hx
    (h.settled_of_placed hx (hm.dst.ne_root_of_parent? hp)) hp hw hz

/-- The children of a counterpart that have counterparts are where they belong. -/
theorem Aligned.filterMap_children (hy : d.copy.ofDst.get? y = some w) :
    (d.copy.arena.children w).filterMap d.copy.toDst.get? = m.dst.arena.children y := by
  have hlw := h.isLive_of_ofDst hy
  have hsettled : ∀ {x}, m.dst.arena.isLive x → m.dst.arena.parent? x ≠ none → d.settled x := by
    intro x hx hp
    refine h.settled_of_placed hx ?_
    rintro rfl
    exact hp hm.dst.parent?_root
  refine (h.inLine hy).filterMap_eq (fun u hu v hv => ?_) fun v hv => ?_
  · obtain ⟨hlu, hpu⟩ := h.sound.wf.of_mem_children hlw hu
    obtain ⟨hlv, hvu⟩ := h.sound.toDst hlu hv
    refine hsettled hlv fun hp => ?_
    obtain rfl := Option.some.inj ((hm.dst.rooted.parent?_eq_none_iff hlv).1 hp)
    rw [h.root] at hvu
    obtain rfl := Option.some.inj hvu
    rw [h.sound.rooted.parent?_root] at hpu
    cases hpu
  · obtain ⟨hlv, hpv⟩ := hm.dst.arena.of_mem_children (h.sound.isLive_of_ofDst hy) hv
    exact hsettled hlv (by rw [hpv]; exact Option.some_ne_none y)

/-- It is still under the copy of its old parent. -/
theorem Aligned.parent?_leftover (hr : m.source? m.dst.root = some m.src.root)
    (hw : d.copy.arena.isLive w) (hs : leftover d.copy w = some s) :
    ∃ q v, m.src.arena.parent? s = some q ∧ d.copy.origin? v = some (.src q) ∧
      d.copy.arena.parent? w = some v := by
  obtain ⟨hls, hsw, hnone⟩ := h.source_of_leftover hw hs
  cases hq : m.src.arena.parent? s with
  | none =>
      obtain rfl := Option.some.inj ((hm.src.rooted.parent?_eq_none_iff hls).1 hq)
      rw [(hm.left hm.dst.isLive_root hr).2] at hnone
      cases hnone
  | some q =>
      obtain ⟨v, hv, -, ho⟩ := h.copied (hm.src.arena.isLive_of_parent? hls hq)
      refine ⟨q, v, rfl, ho, h.unmoved hls hq hsw hv fun x hx => ?_⟩
      rw [hnone] at hx
      cases hx

/-- The children of a node without counterpart have none. -/
theorem Aligned.toDst_of_child (hw : d.copy.arena.isLive w) (ht : d.copy.toDst.get? w = none)
    (hk : k ∈ d.copy.arena.children w) : d.copy.toDst.get? k = none := by
  obtain ⟨hlk, hpk⟩ := h.sound.wf.of_mem_children hw hk
  refine Option.eq_none_iff_forall_ne_some.2 fun x hx => ?_
  obtain ⟨hlx, hxk⟩ := h.sound.toDst hlk hx
  cases hp : m.dst.arena.parent? x with
  | none =>
      obtain rfl := Option.some.inj ((hm.dst.rooted.parent?_eq_none_iff hlx).1 hp)
      rw [h.root] at hxk
      obtain rfl := Option.some.inj hxk
      rw [h.sound.rooted.parent?_root] at hpk
      cases hpk
  | some y =>
      obtain ⟨z, hz⟩ := h.exists_counterpart (hm.dst.arena.isLive_of_parent? hlx hp)
      have hpz := h.parent?_counterpart hm hp hxk hz
      rw [hpk] at hpz
      obtain rfl := Option.some.inj hpz
      rw [h.toDst_of_ofDst hz] at ht
      cases ht

theorem Aligned.toDst_of_below (hb : d.copy.arena.Below w n) (hn : d.copy.arena.isLive n)
    (ht : d.copy.toDst.get? w = none) : d.copy.toDst.get? n = none := by
  induction hb with
  | self => exact ht
  | step hp _ ih =>
      obtain ⟨hlp, hmem⟩ := h.sound.wf.of_parent? hn hp
      exact h.toDst_of_child hm hlp (ih hlp) hmem

end Done

/-! ### The loop -/

/-- **The draft after the nodes in `l` have been looked at.** -/
structure Pruning (m : Mapping) (d₀ : Draft) (l : List NodeId) (d : Draft) : Prop where
  sound : d.copy.Sound m
  root : d.copy.root = d₀.copy.root
  ofSrc : d.copy.ofSrc = d₀.copy.ofSrc
  toDst : d.copy.toDst = d₀.copy.toDst
  ofDst : d.copy.ofDst = d₀.copy.ofDst
  isLive : ∀ {n}, d.copy.arena.isLive n → d₀.copy.arena.isLive n
  /-- Only what is below a node that has been looked at is gone. -/
  kept : ∀ {n}, d₀.copy.arena.isLive n → (∀ r ∈ l, ¬ d₀.copy.arena.Below r n) →
    d.copy.arena.isLive n
  parent? : ∀ {n}, d.copy.arena.isLive n → d.copy.arena.parent? n = d₀.copy.arena.parent? n
  origin? : ∀ {n}, d.copy.arena.isLive n → d.copy.origin? n = d₀.copy.origin? n
  label? : ∀ {n}, d.copy.arena.isLive n → d.copy.label? n = d₀.copy.label? n
  filterMap_children : ∀ {n}, d.copy.arena.isLive n →
    (d.copy.arena.children n).filterMap d.copy.toDst.get? =
      (d₀.copy.arena.children n).filterMap d₀.copy.toDst.get?
  /-- What has been looked at and is still there goes with its parent. -/
  waiting : ∀ {n s}, n ∈ l → d.copy.arena.isLive n → leftover d₀.copy n = some s →
    (m.src.arena.parent? s).any m.collapsing
  run : ∀ {c₀}, Run (Sound m) m.dst false c₀ d₀.edits d₀.copy →
    Run (Sound m) m.dst false c₀ d.edits d.copy
  told : d.script = d₀.script ++ (l.filterMap (leftover d₀.copy)).flatMap m.removing

theorem pruning_nil (h : d₀.copy.Sound m) : Pruning m d₀ [] d₀ where
  sound := h
  root := rfl
  ofSrc := rfl
  toDst := rfl
  ofDst := rfl
  isLive := id
  kept hn _ := hn
  parent? _ := rfl
  origin? _ := rfl
  label? _ := rfl
  filterMap_children _ := rfl
  waiting hn := absurd hn List.not_mem_nil
  run := id
  told := by simp

namespace Pruning

variable (h : Pruning m d₀ l d)

include h

theorem below (hn : d.copy.arena.isLive n) (hb : d.copy.arena.Below w n) :
    d₀.copy.arena.Below w n :=
  hb.imp h.sound.wf hn fun _ _ hc hp => (h.parent? hc).symm.trans hp

/-- A node is passed over. -/
theorem pass (hw : ∀ s, leftover d₀.copy w = some s →
      (m.src.arena.parent? s).any m.collapsing) : Pruning m d₀ (l ++ [w]) d :=
  { h with
    kept := fun hn hr => h.kept hn fun r hm => hr r (List.mem_append_left _ hm)
    waiting := by
      intro n s hn hln hs
      rcases List.mem_append.1 hn with hn | hn
      · exact h.waiting hn hln hs
      · obtain rfl := List.mem_singleton.1 hn
        exact hw s hs
    told := by
      -- what goes with its parent is not told of
      have hnil : ([w].filterMap (leftover d₀.copy)).flatMap m.removing = [] := by
        cases hs : leftover d₀.copy w with
        | none => simp [hs]
        | some s => simp [hs, Mapping.removing, hw s hs]
      rw [List.filterMap_append, List.flatMap_append, hnil, List.append_nil]
      exact h.told }

/-- A node is taken out. -/
theorem take (hm : m.Sound) (h₀ : Aligned m (Stage.done m) d₀) {change : Change} {action : Action}
    (hw : d.copy.arena.isLive w) (hs : leftover d₀.copy w = some s)
    (hstep : Step m.dst d.copy change action (d.copy.pruned w))
    (hplan : m.removing s = [action]) :
    Pruning m d₀ (l ++ [w]) (d.performed (d.copy.pruned w) change action) := by
  have hnone : d₀.copy.toDst.get? w = none := (leftover_eq_some_iff.1 hs).1
  have hun : ∀ n, d.copy.arena.isLive n → d.copy.arena.Below w n →
      d.copy.toDst.get? n = none := by
    intro n hn hb
    rw [h.toDst]
    exact h₀.toDst_of_below hm (h.below hn hb) (h.isLive hn) hnone
  have hroot : w ≠ d.copy.root := by
    rintro rfl
    rw [h.root, h₀.toDst_of_ofDst h₀.root] at hnone
    cases hnone
  have hlive : ∀ {n}, (d.copy.pruned w).arena.isLive n ↔
      d.copy.arena.isLive n ∧ ¬ d.copy.arena.Below w n :=
    Arena.isLive_removeSubtree_iff h.sound.wf hw
  have hsound := h.sound.pruned hw hroot hun
  exact
    { sound := hsound
      root := h.root
      ofSrc := h.ofSrc
      toDst := h.toDst
      ofDst := h.ofDst
      isLive := fun hn => h.isLive (hlive.1 hn).1
      kept := by
        intro n hn hr
        have hln := h.kept hn fun r hm => hr r (List.mem_append_left _ hm)
        exact hlive.2 ⟨hln, fun hb => hr w (by simp) (h.below hln hb)⟩
      parent? := by
        intro n hn
        obtain ⟨hn, hb⟩ := hlive.1 hn
        exact (Arena.parent?_removeSubtree h.sound.wf hw hn hb).trans (h.parent? hn)
      origin? := by
        intro n hn
        obtain ⟨hn, hb⟩ := hlive.1 hn
        exact (origin?_pruned h.sound.wf hw hn hb).trans (h.origin? hn)
      label? := by
        intro n hn
        obtain ⟨hn, hb⟩ := hlive.1 hn
        exact (label?_pruned h.sound.wf hw hn hb).trans (h.label? hn)
      filterMap_children := by
        intro n hn
        obtain ⟨hn, hb⟩ := hlive.1 hn
        have hch : (d.copy.pruned w).arena.children n = (d.copy.arena.children n).erase w :=
          Arena.children_removeSubtree h.sound.wf hw hn hb
        simp only [copy_performed, hch, toDst_pruned]
        rw [← h.filterMap_children hn]
        refine filterMap_erase_of_none ?_ _
        rw [h.toDst, hnone]
      waiting := by
        intro n s' hn hln hs'
        obtain ⟨hln, hb⟩ := hlive.1 hln
        rcases List.mem_append.1 hn with hn | hn
        · exact h.waiting hn hln hs'
        · obtain rfl := List.mem_singleton.1 hn
          exact absurd Arena.Below.self hb
      run := fun hc => Run.snoc (h.run hc) hstep hsound
      told := by
        have hsome : ([w].filterMap (leftover d₀.copy)).flatMap m.removing = [action] := by
          simp [hs, hplan]
        rw [script_performed, h.told, List.filterMap_append, List.flatMap_append, hsome,
          List.append_assoc] }

/-- **The node whose turn it is is still there**: what is above it has its turn later. -/
theorem isLive_next (h₀ : Aligned m (Stage.done m) d₀) {l₂ : List NodeId}
    (hl : d₀.copy.arena.postorder d₀.copy.root = l ++ w :: l₂) : d.copy.arena.isLive w := by
  have hlr := h₀.isLive_of_ofDst h₀.root
  have hw₀ : d₀.copy.arena.isLive w := by
    refine ((h₀.sound.wf.mem_postorder_iff hlr).1 ?_).1
    simp [hl]
  refine h.kept hw₀ fun r hr => ?_
  have hpw := h₀.sound.wf.pairwise_postorder hlr
  rw [hl, List.pairwise_append] at hpw
  exact hpw.2.2 r hr w List.mem_cons_self

/-- **Each turn of the loop succeeds.** -/
theorem pruneOne_ok (hm : m.Sound) (hr : m.source? m.dst.root = some m.src.root)
    (h₀ : Aligned m (Stage.done m) d₀) {l₂ : List NodeId}
    (hl : d₀.copy.arena.postorder d₀.copy.root = l ++ w :: l₂) :
    ∃ d', pruneOne m false (cleanSources m) d w = .ok d' ∧ Pruning m d₀ (l ++ [w]) d' := by
  have hlr := h₀.isLive_of_ofDst h₀.root
  have hw₀ : d₀.copy.arena.isLive w := by
    refine ((h₀.sound.wf.mem_postorder_iff hlr).1 ?_).1
    simp [hl]
  by_cases hcontains : d.copy.toDst.contains w
  · obtain ⟨x, hx⟩ := NodeMap.contains_iff.1 hcontains
    refine ⟨d, by rw [pruneOne, if_pos hcontains]; rfl, h.pass fun s hs => ?_⟩
    rw [h.toDst, (leftover_eq_some_iff.1 hs).1] at hx
    cases hx
  · have ht : d₀.copy.toDst.get? w = none := by
      rw [← h.toDst]
      simpa [NodeMap.contains] using hcontains
    obtain ⟨s, hs⟩ := h₀.exists_leftover hw₀ ht
    obtain ⟨hls, hsw, -⟩ := h₀.source_of_leftover hw₀ hs
    have hw := h.isLive_next h₀ hl
    have ho : d.copy.origin? w = some (.src s) :=
      (h.origin? hw).trans (leftover_eq_some_iff.1 hs).2
    have hne : w ≠ d.copy.root := by
      rintro rfl
      rw [h.root, h₀.toDst_of_ofDst h₀.root] at ht
      cases ht
    simp only [pruneOne, if_neg hcontains, ho, any_collapses_cleanSources hm.src hls,
      collapses_cleanSources hm.src hls]
    by_cases hpar : (m.src.arena.parent? s).any m.collapsing
    · refine ⟨d, by rw [if_pos hpar]; rfl, h.pass fun s' hs' => ?_⟩
      rw [hs] at hs'
      obtain rfl := Option.some.inj hs'
      exact hpar
    · rw [if_neg hpar]
      by_cases hc : m.collapsing s
      · have hstep : Step m.dst d.copy (.removeTree w) (.treeDelete s) (d.copy.pruned w) :=
          Step.removeTree hw ho hne
        refine ⟨_, by rw [if_pos hc]; exact perform_ok h.sound.wf hm.dst hstep,
          h.take hm h₀ hw hs hstep ?_⟩
        rw [Mapping.removing, if_neg hpar, if_pos hc]
      · -- what was below `w` is gone, as it did not wait for `w`
        have hleaf : d.copy.arena.children w = [] := by
          refine List.eq_nil_iff_forall_not_mem.2 fun k hk => ?_
          obtain ⟨hlk, hpk⟩ := h.sound.wf.of_mem_children hw hk
          rw [h.parent? hlk] at hpk
          have hlk₀ := h.isLive hlk
          have hkw : k ≠ w := by
            rintro rfl
            exact h₀.sound.wf.not_below_parent hlk₀ hpk Arena.Below.self
          have hmem := h₀.sound.wf.mem_of_postorder_split hlr hl hlk₀
            (Arena.Below.of_parent hpk) hkw
          have htk := h₀.toDst_of_below hm (Arena.Below.of_parent hpk) hlk₀ ht
          obtain ⟨t, ht⟩ := h₀.exists_leftover hlk₀ htk
          obtain ⟨q, v, hq, hoq, hpv⟩ := h₀.parent?_leftover hm hr hlk₀ ht
          rw [hpk] at hpv
          obtain rfl := Option.some.inj hpv
          rw [(leftover_eq_some_iff.1 hs).2] at hoq
          cases hoq
          have hwait := h.waiting hmem hlk ht
          rw [hq] at hwait
          exact hc hwait
        have hstep : Step m.dst d.copy (.remove w) (.delete s) (d.copy.pruned w) :=
          Step.remove hw ho hne hleaf
        refine ⟨_, by rw [if_neg hc]; exact perform_ok h.sound.wf hm.dst hstep,
          h.take hm h₀ hw hs hstep ?_⟩
        rw [Mapping.removing, if_neg hpar, if_neg hc]

end Pruning

/-- **The loop succeeds as far as it has gone.** -/
theorem Aligned.exists_pruning (h₀ : Aligned m (Stage.done m) d₀) (hm : m.Sound)
    (hr : m.source? m.dst.root = some m.src.root) {l' : List NodeId}
    (hl : d₀.copy.arena.postorder d₀.copy.root = l ++ l') : ∃ d,
      l.foldlM (pruneOne m false (cleanSources m)) d₀ = .ok d ∧ Pruning m d₀ l d := by
  refine foldlM_ok (Pruning m d₀) (pruning_nil h₀.sound) fun l₁ x l₂ d hsplit h => ?_
  have hl₁ : d₀.copy.arena.postorder d₀.copy.root = l₁ ++ x :: (l₂ ++ l') := by
    rw [hl, hsplit, List.append_assoc, List.cons_append]
  exact h.pruneOne_ok hm hr h₀ hl₁

/-! ### The finished draft -/

/-- **A finished draft**: the copy is the destination, node by node. -/
structure Finished (m : Mapping) (d : Draft) : Prop where
  sound : d.copy.Sound m
  root : d.copy.ofDst.get? m.dst.root = some d.copy.root
  matching : Arena.Matching d.copy.arena m.dst.arena fun w x => d.copy.ofDst.get? x = some w
  label? : ∀ {x w}, d.copy.ofDst.get? x = some w → d.copy.label? w = m.dst.label? x
  run : ∀ {c₀}, WorkingCopy.start m = .ok c₀ → Run (Sound m) m.dst false c₀ d.edits d.copy
  /-- After what the visits come to, the script takes out the source nodes without
  counterparts. -/
  told : ∃ l : List NodeId, l.Nodup ∧
    (∀ s, s ∈ l ↔ m.src.arena.isLive s ∧ m.counterpart? s = none) ∧
    d.script.map Action.unplaced = m.aligning ++ l.flatMap m.removing

theorem map_unplaced_removing (m : Mapping) (l : List NodeId) :
    (l.flatMap m.removing).map Action.unplaced = l.flatMap m.removing := by
  rw [List.map_flatMap]
  refine List.flatMap_congr fun s _ => ?_
  unfold Mapping.removing
  split
  · rfl
  · split <;> rfl

/-- When all nodes have been looked at, every node has a counterpart. -/
theorem Pruning.exists_counterpart (h : Pruning m d₀ (d₀.copy.arena.postorder d₀.copy.root) d)
    (hm : m.Sound) (hr : m.source? m.dst.root = some m.src.root)
    (h₀ : Aligned m (Stage.done m) d₀) (hn : d.copy.arena.isLive n) :
    ∃ x, d.copy.toDst.get? n = some x := by
  have hb := h.sound.rooted.below h.sound.wf hn
  rw [h.root] at hb
  -- from the root downwards
  induction hb with
  | self => exact ⟨_, by rw [h.toDst]; exact h₀.toDst_of_ofDst h₀.root⟩
  | @step n p hp _ ih =>
      obtain ⟨hlp, -⟩ := h.sound.wf.of_parent? hn hp
      obtain ⟨y, hy⟩ := ih hlp
      by_contra hnone
      have hn₀ := h.isLive hn
      have hnone₀ : d₀.copy.toDst.get? n = none := by
        rw [← h.toDst]
        exact Option.eq_none_iff_forall_ne_some.2 fun x hx => hnone ⟨x, hx⟩
      obtain ⟨s, hs⟩ := h₀.exists_leftover hn₀ hnone₀
      obtain ⟨q, v, hq, ho, hpv⟩ := h₀.parent?_leftover hm hr hn₀ hs
      rw [← h.parent? hn, hp] at hpv
      obtain rfl := Option.some.inj hpv
      have hlive := h₀.isLive_of_ofDst h₀.root
      have hmem := (h₀.sound.wf.mem_postorder_iff hlive).2
        ⟨hn₀, h₀.sound.rooted.below h₀.sound.wf hn₀⟩
      have hwait := h.waiting hmem hn hs
      obtain ⟨hlq, -, hto⟩ := h₀.sound.source (h.isLive hlp) ho
      rw [hq] at hwait
      rw [h.toDst, hto, Mapping.counterpart?_of_collapsing hm.src hlq hwait] at hy
      cases hy

/-- **A draft is finished without a fault.** -/
theorem exists_finished (hm : m.Sound) (hr : m.source? m.dst.root = some m.src.root) :
    ∃ d, m.draft false = .ok d ∧ Finished m d := by
  obtain ⟨d₀, hd₀, h₀⟩ := exists_aligned hm hr
  have hlr := h₀.isLive_of_ofDst h₀.root
  obtain ⟨d, hd, h⟩ := h₀.exists_pruning hm hr (List.append_nil _).symm
  have hall : ∀ {n}, d.copy.arena.isLive n → ∃ x, d.copy.ofDst.get? x = some n := by
    intro n hn
    obtain ⟨x, hx⟩ := h.exists_counterpart hm hr h₀ hn
    exact ⟨x, (h.sound.toDst hn hx).2⟩
  have hof : ∀ {x w}, d.copy.ofDst.get? x = some w ↔ d₀.copy.ofDst.get? x = some w := by
    intro x w
    rw [h.ofDst]
  refine ⟨d, ?_, ?_⟩
  · rw [draft_eq, hd₀, bind_ok, prune, hd]
  · exact
      { sound := h.sound
        root := by rw [h.ofDst, h.root]; exact h₀.root
        matching :=
          { isLive_left := fun hx => (h.sound.ofDst hx).1
            isLive_right := fun hx => h.sound.isLive_of_ofDst hx
            exists_right := hall
            exists_left := fun hx => by simpa only [hof] using h₀.exists_counterpart hx
            left_unique := fun hx hx' => Option.some.inj (hx.symm.trans hx')
            right_unique := fun hx hx' => h.sound.ofDst_inj hx hx'
            children := by
              intro w x hx
              have hlw := (h.sound.ofDst hx).1
              have hch := h.filterMap_children hlw
              rw [h₀.filterMap_children hm (hof.1 hx)] at hch
              rw [← hch]
              refine forall₂_filterMap fun k hk => ?_
              have hlk := h.sound.wf.isLive_of_mem hlw hk
              obtain ⟨v, hv⟩ := h.exists_counterpart hm hr h₀ hlk
              exact ⟨v, hv, (h.sound.toDst hlk hv).2⟩ }
        label? := by
          intro x w hx
          rw [h.label? (h.sound.ofDst hx).1]
          exact h₀.label?_counterpart (hof.1 hx)
        run := fun hc => h.run (h₀.run hc)
        told := by
          refine ⟨(d₀.copy.arena.postorder d₀.copy.root).filterMap (leftover d₀.copy), ?_, ?_, ?_⟩
          · refine nodup_filterMap_of_inj (h₀.sound.wf.nodup_postorder hlr) ?_
            intro w hw w' hw' s hs hs'
            have hsw := h₀.source_of_leftover ((h₀.sound.wf.mem_postorder_iff hlr).1 hw).1 hs
            have hsw' := h₀.source_of_leftover ((h₀.sound.wf.mem_postorder_iff hlr).1 hw').1 hs'
            exact Option.some.inj (hsw.2.1.symm.trans hsw'.2.1)
          · intro s
            rw [List.mem_filterMap]
            constructor
            · rintro ⟨w, hw, hs⟩
              have hsw := h₀.source_of_leftover ((h₀.sound.wf.mem_postorder_iff hlr).1 hw).1 hs
              exact ⟨hsw.1, hsw.2.2⟩
            · rintro ⟨hls, hnone⟩
              obtain ⟨w, -, hlw, ho⟩ := h₀.copied hls
              refine ⟨w, (h₀.sound.wf.mem_postorder_iff hlr).2
                ⟨hlw, h₀.sound.rooted.below h₀.sound.wf hlw⟩, leftover_eq_some_iff.2 ⟨?_, ho⟩⟩
              rw [(h₀.sound.source hlw ho).2.2, hnone]
          · rw [h.told, List.map_append, h₀.told, map_unplaced_removing]
            rfl }

end TreeScript.Draft
