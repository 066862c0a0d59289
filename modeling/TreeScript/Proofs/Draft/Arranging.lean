/-
**Putting children in order.**

The children that a node and its counterpart have in common are those that the mapping and the
two trees say, however far the work has come.  Arranging leaves a longest common subsequence of
them where it is and puts the others into their gaps, one after the other.

Main definitions:

* `TreeScript.Draft.staying` — the draft when arranging begins;
* `TreeScript.Draft.Arranging` — a draft in the course of that.

Main results:

* `TreeScript.WorkingCopy.exists_placeOf` — the place of a node is in its gap;
* `TreeScript.Draft.Aligned.bring_ok` — a node is put into its gap;
* `TreeScript.Draft.Aligned.stayers_eq` — **what stays can be read off the mapping**;
* `TreeScript.Draft.Arranging.arrangeOne_ok` — one more child is seen to;
* `TreeScript.Draft.Aligned.arrange_turn` — **a child that does not stay is put into its gap**;
* `TreeScript.Draft.Aligned.arrange_ok` — **arranging succeeds and does what was planned**.
-/

import TreeScript.Proofs.Draft.Incoming

set_option relaxedAutoImplicit false
set_option autoImplicit false

namespace TreeScript

/-! ### Places and gaps -/

namespace WorkingCopy

variable {c : WorkingCopy} {dst : Tree} {x y z : NodeId}

/-- Values of a list, some of which are elements that are selected. -/
theorem takeWhile_ne_append {K₁ K₂ : List NodeId} (h : x ∉ K₁) :
    (K₁ ++ x :: K₂).takeWhile (· != x) = K₁ := by
  rw [List.takeWhile_append_of_pos, List.takeWhile_cons_of_neg (by simp), List.append_nil]
  intro v hv
  have hne : v ≠ x := fun e => h (e ▸ hv)
  simpa using hne

/-- **The place of a node is in its gap.** -/
theorem exists_placeOf {S : NodeId → Bool} {inOrder : NodeSet} {K₁ K₂ : List NodeId}
    (hw : c.arena.WellFormed) (hz : c.arena.isLive z)
    (htables : ∀ {u v}, c.arena.isLive u → c.toDst.get? u = some v → c.ofDst.get? v = some u)
    (hp : dst.arena.parent? x = some y) (hK : dst.arena.children y = K₁ ++ x :: K₂)
    (hnd : (K₁ ++ x :: K₂).Nodup)
    (hline : InLine c.toDst.get? S (c.arena.children z) (K₁ ++ x :: K₂)) (hx : S x = false)
    (hin : ∀ v ∈ K₁, inOrder.contains v = S v) :
    ∃ k, c.placeOf dst inOrder x = .ok k ∧
      Gap c.toDst.get? S (c.arena.children z) K₁ K₂ k := by
  have hxK := (not_mem_of_nodup_middle hnd).1
  have hbefore : ((dst.arena.children y).takeWhile (· != x)).filter inOrder.contains =
      K₁.filter S := by
    rw [hK, takeWhile_ne_append hxK]
    exact List.filter_congr hin
  unfold placeOf
  simp only [hp, hbefore]
  cases hlast : (K₁.filter S).getLast? with
  | none => exact ⟨0, rfl, hline.gap_first hx (List.getLast?_eq_none_iff.1 hlast)⟩
  | some v =>
      -- the node after which `x` comes is there, at its position
      have hv := List.mem_filter.1 (List.mem_of_getLast? hlast)
      obtain ⟨u, hu, huv⟩ := (hline.mem_iff hv.2).1 (List.mem_append_left _ hv.1)
      obtain ⟨hlu, hpu⟩ := hw.of_mem_children hz hu
      refine ⟨c.arena.position u + 1, ?_,
        hline.gap_after hx hnd hlast (hw.getElem?_position hlu hpu) huv⟩
      simp only [counterpart_eq_ok (htables hlu huv)]
      rfl

end WorkingCopy

namespace Draft

open WorkingCopy

variable {m : Mapping} {d : Draft} {g : Stage} {x y s w z : NodeId}

/-! ### What two counterparts have in common -/

theorem mem_ownCounterparts_iff {b : NodeId} : b ∈ d.ownCounterparts m w x ↔
    b ∈ m.dst.arena.children x ∧
      ∃ a, d.copy.ofDst.get? b = some a ∧ d.copy.arena.parent? a = some w := by
  rw [ownCounterparts, List.mem_filter]
  refine and_congr_right fun _ => ?_
  cases d.copy.ofDst.get? b <;> simp

theorem stayers_sublist (m : Mapping) (d : Draft) (w x : NodeId) :
    (d.stayers m w x).Sublist (d.ownCounterparts m w x) :=
  (common_longestCommon _ _ _).snd

/-- What stays are values of children of `w`, in their order. -/
theorem stayers_sublist_children : (d.stayers m w x).Sublist
    ((d.copy.arena.children w).filterMap d.copy.toDst.get?) := by
  have hc := common_longestCommon (fun a b => d.copy.toDst.get? a == some b)
    (d.ownChildren m w x) (d.ownCounterparts m w x)
  have hval : (d.stayers m w x) = ((longestCommon (fun a b => d.copy.toDst.get? a == some b)
      (d.ownChildren m w x) (d.ownCounterparts m w x)).map Prod.fst).filterMap
        d.copy.toDst.get? := by
    rw [List.filterMap_map, stayers, ← List.filterMap_eq_map]
    refine List.filterMap_congr fun p hp => ?_
    have hrel : d.copy.toDst.get? p.1 = some p.2 := by simpa using hc.rel p hp
    exact hrel.symm
  rw [hval]
  exact (hc.fst.trans List.filter_sublist).filterMap _

/-- The draft when the children of `x` begin to be arranged: of these only those are in order that
stay. -/
def staying (m : Mapping) (d : Draft) (w x : NodeId) : Draft :=
  { d with inOrder := (d.inOrder.eraseAll (m.dst.arena.children x)).addAll (d.stayers m w x) }

@[simp] theorem copy_staying (w x : NodeId) : (d.staying m w x).copy = d.copy := rfl

theorem settled_staying (hleaf : ∀ b ∈ m.dst.arena.children x, d.grafted.contains b = false)
    (v : NodeId) : (d.staying m w x).settled v = (decide (v ∈ d.stayers m w x) ||
      (!decide (v ∈ m.dst.arena.children x) && d.settled v)) := by
  simp only [settled, staying, NodeSet.contains_addAll, NodeSet.contains_eraseAll]
  by_cases hv : v ∈ m.dst.arena.children x
  · simp [hv, hleaf v hv]
  · simp [hv, Bool.or_assoc]

/-! ### Moving a node to its place -/

namespace Aligned

variable (h : Aligned m g d)

include h

/-- Next to a node whose parent is not clean no node came with its parent. -/
theorem settled_eq_of_parent? (hm : m.Sound) {v : NodeId} (hly : m.dst.arena.isLive y)
    (hv : v ∈ m.dst.arena.children y) (hclean : m.dstClean y = false) :
    d.inOrder.contains v = d.settled v := by
  obtain ⟨hlv, hpv⟩ := hm.dst.arena.of_mem_children hly hv
  rw [settled, h.grafted_eq_false hlv hpv hclean, Bool.or_false]

/-- **A node is put into its gap**, at a place among the other children. -/
theorem bring_ok (hm : m.Sound) (hs : m.source? x = some s) (hlx : m.dst.arena.isLive x)
    (hp : m.dst.arena.parent? x = some y) (hw : d.copy.ofDst.get? x = some w)
    (hz : d.copy.ofDst.get? y = some z) (hy : y ∈ g.opened) (hclean : m.dstClean y = false)
    (hns : d.settled x = false) {P : Set NodeId}
    (hP : P = insert x g.placed ∨ P = g.placed ∧ d.copy.arena.parent? w = some z) :
    ∃ k, (d.copy.without w).placeOf m.dst d.inOrder x = .ok k ∧
      k ≤ ((d.copy.without w).arena.children z).length ∧
      d.perform false (.move w z k) =
        .ok (d.performed (d.copy.moved w z k) (.move w z k) (.move s (m.ref y) k)) ∧
      Aligned m { g with placed := P, told := g.told ++ [.move s (m.ref y) 0] }
        ((d.performed (d.copy.moved w z k) (.move w z k) (.move s (m.ref y) k)).mark x) := by
  have hlw := h.isLive_of_ofDst hw
  have hlz := h.isLive_of_ofDst hz
  have hly := hm.dst.arena.isLive_of_parent? hlx hp
  have hb := h.not_below hm.dst hlx hp (h.placed_of_opened hy) hw hz
  have hch : (d.copy.without w).arena.children z = (d.copy.arena.children z).erase w :=
    Arena.children_unlink h.sound.wf hlw hlz
  obtain ⟨K₁, K₂, hK⟩ := List.append_of_mem (hm.dst.arena.of_parent? hlx hp).2
  have hnd := hm.dst.arena.nodup_children hly
  have hline := (h.inLine hz).erase (w := w) fun v hv => by
    rw [h.toDst_of_ofDst hw] at hv
    obtain rfl := Option.some.inj hv
    exact hns
  rw [hK] at hnd hline
  obtain ⟨k, hk, hgap⟩ : ∃ k, (d.copy.without w).placeOf m.dst d.inOrder x = .ok k ∧
      Gap d.copy.toDst.get? d.settled ((d.copy.without w).arena.children z) K₁ K₂ k :=
    exists_placeOf (c := d.copy.without w) (h.sound.wf.unlink hlw)
      (by simpa [WorkingCopy.without] using hlz)
      (fun hu huv => (h.sound.toDst (by simpa [WorkingCopy.without] using hu) huv).2) hp hK hnd
      (hch ▸ hline) hns
      fun v hv => h.settled_eq_of_parent? hm hly (hK ▸ List.mem_append_left _ hv) hclean
  have hle := hgap.le_length
  rw [hch] at hgap
  exact ⟨k, hk, hle,
    perform_ok h.sound.wf hm.dst (Step.move hlw hlz (h.sound.origin?_of_source? hm hw hs)
      (h.sound.origin?_eq_ref hm hz) hb hgap.le_length),
    h.moved hm hs hlx hp hw hz hy hns hK hgap hP⟩

/-! ### Children in common -/

/-- What has not been opened has no children that were placed. -/
theorem not_placed_of_parent? {b : NodeId} (hx : x ∉ g.opened)
    (hb : m.dst.arena.parent? b = some x) : b ∉ g.placed :=
  fun hpb => hx (h.opened_of_placed hpb hb)

/-- A child of `x` that has not been placed has its counterpart under that of `x` if it had it
there from the beginning. -/
theorem parent?_counterpart_iff (hm : m.Sound) (hr : m.source? m.dst.root = some m.src.root)
    (hlx : m.dst.arena.isLive x) (hw : d.copy.ofDst.get? x = some w)
    {b t a : NodeId} (hlb : m.dst.arena.isLive b) (hpb : m.dst.arena.parent? b = some x)
    (hb : b ∉ g.placed) (ht : m.source? b = some t) (ha : d.copy.ofSrc.get? t = some a) :
    d.copy.arena.parent? a = some w ↔ m.src.arena.parent? t = m.source? x := by
  obtain ⟨hlt, htb⟩ := hm.left hlb ht
  have hne : t ≠ m.src.root := by
    rintro rfl
    have hroot := (hm.left hm.dst.isLive_root hr).2
    rw [htb] at hroot
    exact hm.dst.ne_root_of_parent? hpb (Option.some.inj hroot)
  obtain ⟨u, hu⟩ : ∃ u, m.src.arena.parent? t = some u := by
    refine Option.ne_none_iff_exists'.1 fun hnone => hne ?_
    exact (Option.some.inj ((hm.src.rooted.parent?_eq_none_iff hlt).1 hnone)).symm
  obtain ⟨v, hv, hlv, hov⟩ := h.copied (hm.src.arena.isLive_of_parent? hlt hu)
  have hav : d.copy.arena.parent? a = some v := h.unmoved hlt hu ha hv fun q hq => by
    rw [htb] at hq
    exact Option.some.inj hq ▸ hb
  rw [hav, hu]
  constructor
  · intro he
    obtain rfl := Option.some.inj he
    have href := h.sound.origin?_eq_ref hm hw
    rw [hov, Option.some.injEq] at href
    cases hs : m.source? x with
    | none => simp [Mapping.ref, hs] at href
    | some s => simpa [Mapping.ref, hs] using href
  · intro hs
    have hux := h.ofDst_of_counterpart? (hm.left hlx hs.symm).1 (hm.left hlx hs.symm).2 hv
    exact hux.symm.trans hw

/-- The children that have a counterpart under `w` are those that the mapping says. -/
theorem ownCounterparts_eq (hm : m.Sound) (hr : m.source? m.dst.root = some m.src.root)
    (hlx : m.dst.arena.isLive x) (hw : d.copy.ofDst.get? x = some w) (hx : x ∉ g.opened)
    (hnew : m.source? x = none → d.copy.arena.children w = [])
    (hleaf : ∀ b ∈ m.dst.arena.children x, d.grafted.contains b = false) :
    d.ownCounterparts m w x = m.ownTargets x := by
  have hlw := h.isLive_of_ofDst hw
  cases hs : m.source? x with
  | none =>
      rw [Mapping.ownTargets, hs, ownCounterparts]
      refine List.filter_eq_nil_iff.2 fun b hb => ?_
      cases ha : d.copy.ofDst.get? b with
      | none => simp
      | some a =>
          suffices d.copy.arena.parent? a ≠ some w by simpa using this
          intro hp
          have hmem := (h.sound.wf.of_parent? (h.isLive_of_ofDst ha) hp).2
          rw [hnew hs] at hmem
          cases hmem
  | some s =>
      rw [Mapping.ownTargets, hs, ownCounterparts]
      refine List.filter_congr fun b hb => ?_
      obtain ⟨hlb, hpb⟩ := hm.dst.arena.of_mem_children hlx hb
      have hbp := h.not_placed_of_parent? hx hpb
      cases ht : m.source? b with
      | none =>
          rw [h.ofDst_eq_none hlb ht hbp (hleaf b hb)]
      | some t =>
          obtain ⟨hlt, htb⟩ := hm.left hlb ht
          obtain ⟨a, ha, -⟩ := h.copied hlt
          rw [h.ofDst_of_counterpart? hlt htb ha, Bool.eq_iff_iff, beq_iff_eq, beq_iff_eq, ← hs]
          exact h.parent?_counterpart_iff hm hr hlx hw hlb hpb hbp ht ha

/-- The children in common, in the order of the copy, are copies of those in the source. -/
theorem ownChildren_eq (hm : m.Sound) (hr : m.source? m.dst.root = some m.src.root)
    (hlx : m.dst.arena.isLive x) (hw : d.copy.ofDst.get? x = some w) (hx : x ∉ g.opened)
    (hnew : m.source? x = none → d.copy.arena.children w = []) :
    d.ownChildren m w x = (m.ownSources x).map fun t => (d.copy.ofSrc.get? t).getD t := by
  cases hs : m.source? x with
  | none =>
      rw [Mapping.ownSources, hs, ownChildren, hnew hs]
      rfl
  | some s =>
      obtain ⟨hls, hsx⟩ := hm.left hlx hs
      have hw' := h.ofSrc_of_ofDst hls hsx hw
      have hsub := h.inherited hls hw' fun q hq => by
        rw [hsx] at hq
        exact Option.some.inj hq ▸ hx
      have hnd := nodup_filterMap_of_inj (hm.src.arena.nodup_children hls)
        fun t ht t' ht' a ha ha' => h.ofSrc_inj (hm.src.arena.isLive_of_mem hls ht)
          (hm.src.arena.isLive_of_mem hls ht') ha ha'
      -- a child of `s` that has its counterpart under `x` is still there
      rw [ownChildren, filter_eq_of_sublist hsub hnd fun a ha hax => ?_]
      · rw [Mapping.ownSources, hs]
        refine filter_filterMap_eq_map fun t ht => ?_
        obtain ⟨a, ha, hla, hoa⟩ := h.copied (hm.src.arena.isLive_of_mem hls ht)
        exact ⟨a, ha, (h.sound.source hla hoa).2.2 ▸ rfl, by rw [ha]; rfl⟩
      · obtain ⟨t, ht, hta⟩ := List.mem_filterMap.1 ha
        obtain ⟨hlt, hpt⟩ := hm.src.arena.of_mem_children hls ht
        obtain ⟨hla, hoa⟩ := h.origin?_of_ofSrc hlt hta
        rw [(h.sound.source hla hoa).2.2] at hax
        cases htb : m.counterpart? t with
        | none => simp [htb] at hax
        | some b =>
            have hpb : m.dst.arena.parent? b = some x := by simpa [htb] using hax
            obtain ⟨hlb, hbt⟩ := hm.right hlt htb
            have hpa := (h.parent?_counterpart_iff hm hr hlx hw hlb hpb
              (h.not_placed_of_parent? hx hpb) hbt hta).2 (hpt.trans hs.symm)
            exact (h.sound.wf.of_parent? hla hpa).2

/-- **What stays can be read off the mapping.** -/
theorem stayers_eq (hm : m.Sound) (hr : m.source? m.dst.root = some m.src.root)
    (hlx : m.dst.arena.isLive x) (hw : d.copy.ofDst.get? x = some w) (hx : x ∉ g.opened)
    (hnew : m.source? x = none → d.copy.arena.children w = [])
    (hleaf : ∀ b ∈ m.dst.arena.children x, d.grafted.contains b = false) :
    d.stayers m w x = m.stay x := by
  rw [stayers, h.ownChildren_eq hm hr hlx hw hx hnew,
    h.ownCounterparts_eq hm hr hlx hw hx hnew hleaf, longestCommon_map_left (q :=
      fun t b => m.counterpart? t == some b), List.map_map]
  · rfl
  · intro t ht b _
    have hlt : m.src.arena.isLive t := by
      cases hs : m.source? x with
      | none =>
          rw [Mapping.ownSources, hs] at ht
          cases ht
      | some s =>
          rw [Mapping.mem_ownSources_iff hs] at ht
          exact hm.src.arena.isLive_of_mem (hm.left hlx hs).1 ht.1
    obtain ⟨a, ha, hla, hoa⟩ := h.copied hlt
    rw [ha, Option.getD_some, (h.sound.source hla hoa).2.2]

/-! ### Arranging -/

/-- The children of counterparts are in line with only those children of `x` that stay. -/
theorem inLine_reset (hm : m.Sound) (hlx : m.dst.arena.isLive x)
    (hw : d.copy.ofDst.get? x = some w) {S : NodeId → Bool}
    (hS : ∀ v, S v = (decide (v ∈ d.stayers m w x) ||
      (!decide (v ∈ m.dst.arena.children x) && d.settled v))) {q u : NodeId}
    (hu : d.copy.ofDst.get? q = some u) :
    InLine d.copy.toDst.get? S (d.copy.arena.children u) (m.dst.arena.children q) := by
  have hold : InLine d.copy.toDst.get?
      (fun v => !decide (v ∈ m.dst.arena.children x) && d.settled v)
      (d.copy.arena.children u) (m.dst.arena.children q) :=
    (h.inLine hu).mono fun v hv => (Bool.and_eq_true _ _ ▸ hv).2
  have hlu := h.isLive_of_ofDst hu
  by_cases he : u = w
  · subst he
    obtain rfl := h.sound.ofDst_inj hu hw
    refine hold.of_sublist (fun v hv => by simp [hv]) stayers_sublist_children
      ((stayers_sublist m d u q).trans List.filter_sublist) ?_
      (hm.dst.arena.nodup_children hlx) hS
    refine nodup_filterMap_of_inj (h.sound.wf.nodup_children hlu) ?_
    intro a ha a' ha' v hv hv'
    have hla := h.sound.wf.isLive_of_mem hlu ha
    have hla' := h.sound.wf.isLive_of_mem hlu ha'
    exact Option.some.inj ((h.sound.toDst hla hv).2.symm.trans (h.sound.toDst hla' hv').2)
  · refine hold.congr (fun _ _ => rfl) fun v hv => ?_
    have hnot : v ∉ d.stayers m w x := by
      intro hvs
      obtain ⟨hvx, a, ha, hpa⟩ := mem_ownCounterparts_iff.1 ((stayers_sublist m d w x).subset hvs)
      rcases hv with ⟨a', ha', hav⟩ | hv
      · -- it is a child of `w`, and of no other node
        obtain ⟨hla', hpa'⟩ := h.sound.wf.of_mem_children hlu ha'
        have heq := (h.sound.toDst hla' hav).2
        rw [ha] at heq
        obtain rfl := Option.some.inj heq
        rw [hpa] at hpa'
        exact he (Option.some.inj hpa').symm
      · have hpv := hm.dst.arena.parent?_of_mem (h.sound.isLive_of_ofDst hu) hv
        rw [hm.dst.arena.parent?_of_mem hlx hvx] at hpv
        obtain rfl := Option.some.inj hpv
        exact he (Option.some.inj (hu.symm.trans hw))
    rw [hS, decide_eq_false hnot, Bool.false_or]

/-- At the beginning of arranging only those children are in order that stay. -/
theorem reset (hm : m.Sound) (hlx : m.dst.arena.isLive x) (hw : d.copy.ofDst.get? x = some w)
    (hx : x ∉ g.opened)
    (hleaf : ∀ b ∈ m.dst.arena.children x, d.grafted.contains b = false) :
    Aligned m g (d.staying m w x) := by
  have hset := settled_staying (w := w) hleaf
  have hkeep : ∀ {v}, v ∉ m.dst.arena.children x → d.settled v →
      (d.staying m w x).settled v := by
    intro v hv hs
    rw [hset, decide_eq_false hv, hs]
    simp
  exact { h with
    inLine := h.inLine_reset hm hlx hw hset
    anchored := by
      intro v q hv hq
      rw [hset, Bool.or_eq_true, decide_eq_true_iff, Bool.and_eq_true] at hv
      rcases hv with hv | hv
      · have hvx := (mem_ownCounterparts_iff.1 ((stayers_sublist m d w x).subset hv)).1
        have hpv := hm.dst.arena.parent?_of_mem hlx hvx
        rw [hq] at hpv
        obtain rfl := Option.some.inj hpv
        exact ⟨w, hw⟩
      · exact h.anchored hv.2 hq
    settled_of_placed := by
      intro v hv hne
      refine hkeep (fun hmem => ?_) (h.settled_of_placed hv hne)
      exact hx (h.opened_of_placed hv (hm.dst.arena.parent?_of_mem hlx hmem))
    settled_of_arranged := by
      intro q z' b u hq hz' hbq hu hpu
      refine hkeep (fun hmem => ?_) (h.settled_of_arranged hq hz' hbq hu hpu)
      have hpb := hm.dst.arena.parent?_of_mem hlx hmem
      rw [hbq] at hpb
      obtain rfl := Option.some.inj hpb
      exact hx (h.opened_of_arranged hq) }

/-- A node that is placed may be opened. -/
theorem opened (hx : x ∈ g.placed) : Aligned m { g with opened := insert x g.opened } d :=
  { h with
    opened_of_placed := fun hn hq => Set.mem_insert_of_mem _ (h.opened_of_placed hn hq)
    placed_of_opened := Set.insert_subset hx h.placed_of_opened
    opened_of_arranged := h.opened_of_arranged.trans (Set.subset_insert _ _)
    inherited := fun hs hw hnot =>
      h.inherited hs hw fun q hq hmem => hnot q hq (Set.mem_insert_of_mem _ hmem) }

/-- A node whose children are settled as far as they are there is arranged. -/
theorem arranged (hx : x ∈ g.opened) (hw : d.copy.ofDst.get? x = some w)
    (hs : ∀ {b a}, m.dst.arena.parent? b = some x → d.copy.ofDst.get? b = some a →
      d.copy.arena.parent? a = some w → d.settled b) :
    Aligned m { g with arranged := insert x g.arranged } d :=
  { h with
    opened_of_arranged := Set.insert_subset hx h.opened_of_arranged
    settled_of_arranged := by
      intro y z b a hy hz hb ha hpa
      rcases Set.mem_insert_iff.1 hy with rfl | hy
      · obtain rfl := Option.some.inj (hz.symm.trans hw)
        exact hs hb ha hpa
      · exact h.settled_of_arranged hy hz hb ha hpa }

end Aligned

/-! ### The loop over the children in common -/

/-- **The children of `x` are being arranged**: `d` has become `d'` with those in `l` seen to. -/
structure Arranging (m : Mapping) (g : Stage) (d : Draft) (x : NodeId) (l : List NodeId)
    (d' : Draft) : Prop where
  aligned : Aligned m { g with told := g.told ++ l.flatMap (m.arrangingOne x) } d'
  ofDst : d'.copy.ofDst = d.copy.ofDst
  isLive : ∀ {n}, d.copy.arena.isLive n → d'.copy.arena.isLive n
  /-- All nodes stay under their parents. -/
  parent? : ∀ {n}, d.copy.arena.isLive n → d'.copy.arena.parent? n = d.copy.arena.parent? n
  settled : ∀ v, d'.settled v = (decide (v ∈ l) || d.settled v)

theorem Aligned.arranging_nil (h : Aligned m g d) (x : NodeId) : Arranging m g d x [] d where
  aligned := by simpa using h
  ofDst := rfl
  isLive := id
  parent? := fun _ => rfl
  settled := by simp

section Turn

variable {l : List NodeId} {d' : Draft} {a b : NodeId} (h : Arranging m g d x l d') (hm : m.Sound)
  (hlx : m.dst.arena.isLive x) (hw : d.copy.ofDst.get? x = some w) (hx : x ∈ g.opened)
  (hleaf : m.dst.arena.children x = [] ∨ m.dstClean x = false) (hb : b ∈ m.ownTargets x)
  (hla : d.copy.arena.isLive a) (hba : d.copy.ofDst.get? b = some a)
  (hpa : d.copy.arena.parent? a = some w) (hset : d.settled b = decide (b ∈ m.stay x))
  (hnot : b ∉ l)

include h hm hlx hw hx hleaf hb hla hba hpa hset hnot

/-- **A child that does not stay is put into its gap.** -/
theorem Arranging.bring_ok (hstay : b ∉ m.stay x) : ∃ t k, m.source? b = some t ∧
    (d'.copy.without a).placeOf m.dst d'.inOrder b = .ok k ∧
    k ≤ ((d'.copy.without a).arena.children w).length ∧
    d'.perform false (.move a w k) =
      .ok (d'.performed (d'.copy.moved a w k) (.move a w k) (.move t (m.ref x) k)) ∧
    Aligned m { g with
        told := g.told ++ l.flatMap (m.arrangingOne x) ++ [.move t (m.ref x) 0] }
      ((d'.performed (d'.copy.moved a w k) (.move a w k) (.move t (m.ref x) k)).mark b) := by
  obtain ⟨hbx, -, t, -, ht, -⟩ := Mapping.exists_of_mem_ownTargets hb
  obtain ⟨hlb, hpb⟩ := hm.dst.arena.of_mem_children hlx hbx
  have hns : d'.settled b = false := by
    rw [h.settled, decide_eq_false hnot, hset, decide_eq_false hstay, Bool.or_false]
  have hclean : m.dstClean x = false := hleaf.resolve_left fun hnil => by
    rw [hnil] at hbx
    cases hbx
  have hba' : d'.copy.ofDst.get? b = some a := by rw [h.ofDst, hba]
  have hw' : d'.copy.ofDst.get? x = some w := by rw [h.ofDst, hw]
  obtain ⟨k, hk⟩ := h.aligned.bring_ok hm ht hlb hpb hba' hw' hx hclean hns
    (Or.inr ⟨rfl, (h.parent? hla).trans hpa⟩)
  exact ⟨t, k, ht, hk⟩

/-- **One more child is seen to**: it is put into its gap, unless it stays. -/
theorem Arranging.arrangeOne_ok : ∃ d'', arrangeOne m false (m.stay x) w d' b = .ok d'' ∧
    Arranging m g d x (l ++ [b]) d'' := by
  have htold : g.told ++ (l ++ [b]).flatMap (m.arrangingOne x) =
      g.told ++ l.flatMap (m.arrangingOne x) ++ m.arrangingOne x b := by simp
  by_cases hstay : b ∈ m.stay x
  · refine ⟨d', by rw [arrangeOne, if_pos hstay]; rfl, ?_, h.ofDst, h.isLive, h.parent?,
      fun v => ?_⟩
    · rw [htold, Mapping.arrangingOne, if_pos hstay, List.append_nil]
      exact h.aligned
    · by_cases hv : v = b
      · subst hv
        simp [h.settled, hset, hstay]
      · simp [h.settled, hv]
  · have hba' : d'.copy.ofDst.get? b = some a := by rw [h.ofDst, hba]
    have hw' : d'.copy.ofDst.get? x = some w := by rw [h.ofDst, hw]
    obtain ⟨t, k, ht, hk, -, hperform, haligned⟩ :=
      h.bring_ok hm hlx hw hx hleaf hb hla hba hpa hset hnot hstay
    refine ⟨(d'.performed (d'.copy.moved a w k) (.move a w k) (.move t (m.ref x) k)).mark b,
      ?_, ?_, h.ofDst, fun hn => by simpa using h.isLive hn, fun {n} hn => ?_, fun v => ?_⟩
    · rw [arrangeOne, if_neg hstay, counterpart_eq_ok hba', bind_ok, bring, hk, bind_ok, hperform]
      rfl
    · rw [htold, Mapping.arrangingOne, if_neg hstay, ht]
      exact haligned
    · -- the node stays under its parent
      rw [copy_mark, copy_performed, arena_moved, Arena.parent?_move h.aligned.sound.wf
        (h.isLive hla) (h.aligned.isLive_of_ofDst hw') k (h.isLive hn), h.parent? hn]
      split
      case isTrue he => rw [he, hpa]
      case isFalse => rfl
    · rw [settled_mark, settled_performed, h.settled]
      by_cases hv : b = v
      · simp [hv]
      · have hv' : ¬ v = b := fun e => hv e.symm
        simp [hv, hv']

end Turn

namespace Aligned

variable (h : Aligned m g d)

include h

/-- **The loop sees to the children in common**, one after the other. -/
theorem arrange_loop (hm : m.Sound) (hlx : m.dst.arena.isLive x)
    (hw : d.copy.ofDst.get? x = some w) (hx : x ∈ g.opened)
    (hleaf : m.dst.arena.children x = [] ∨ m.dstClean x = false)
    (hown : ∀ b ∈ m.ownTargets x,
      ∃ a, d.copy.ofDst.get? b = some a ∧ d.copy.arena.parent? a = some w)
    (hset : ∀ b ∈ m.ownTargets x, d.settled b = decide (b ∈ m.stay x)) {l l' : List NodeId}
    (hl : m.ownTargets x = l ++ l') :
    ∃ d', l.foldlM (arrangeOne m false (m.stay x) w) d = .ok d' ∧ Arranging m g d x l d' := by
  have hnd : (m.ownTargets x).Nodup :=
    (Mapping.ownTargets_sublist x).nodup (hm.dst.arena.nodup_children hlx)
  refine foldlM_ok (Arranging m g d x) (h.arranging_nil x) fun l₁ b l₂ d' hsplit h' => ?_
  rw [hl, hsplit, List.append_assoc] at hnd
  have hb : b ∈ m.ownTargets x := by simp [hl, hsplit]
  obtain ⟨a, hba, hpa⟩ := hown b hb
  exact h'.arrangeOne_ok hm hlx hw hx hleaf hb (h.isLive_of_ofDst hba) hba hpa (hset b hb)
    (not_mem_of_nodup_middle hnd).1

section Arrange

variable (hm : m.Sound) (hr : m.source? m.dst.root = some m.src.root)
  (hlx : m.dst.arena.isLive x) (hw : d.copy.ofDst.get? x = some w) (hpx : x ∈ g.placed)
  (hx : x ∉ g.opened) (hleaf : m.dst.arena.children x = [] ∨ m.dstClean x = false)
  (hnew : m.source? x = none → d.copy.arena.children w = [])

include hm hlx hleaf

/-- No child of `x` came with it. -/
theorem not_grafted_of_mem : ∀ b ∈ m.dst.arena.children x, d.grafted.contains b = false := by
  intro b hb
  obtain ⟨hlb, hpb⟩ := hm.dst.arena.of_mem_children hlx hb
  rcases hleaf with hnil | hdirty
  · rw [hnil] at hb
    cases hb
  · exact h.grafted_eq_false hlb hpb hdirty

include hr hw hpx hx hnew

/-- **Arranging succeeds as far as it has gone.** -/
theorem arrange_turns {l l' : List NodeId} (hl : d.ownCounterparts m w x = l ++ l') :
    ∃ d', l.foldlM (arrangeOne m false (d.stayers m w x) w) (d.staying m w x) = .ok d' ∧
      Arranging m { g with opened := insert x g.opened } (d.staying m w x) x l d' := by
  have hng := h.not_grafted_of_mem hm hlx hleaf
  have hownEq := h.ownCounterparts_eq hm hr hlx hw hx hnew hng
  have hstayEq := h.stayers_eq hm hr hlx hw hx hnew hng
  rw [hstayEq]
  rw [hownEq] at hl
  refine ((h.reset hm hlx hw hx hng).opened hpx).arrange_loop hm hlx hw (Set.mem_insert _ _) hleaf
    (fun b hb => (mem_ownCounterparts_iff.1 (hownEq ▸ hb)).2) (fun b hb => ?_) hl
  have hbx := (Mapping.ownTargets_sublist x).subset hb
  rw [settled_staying hng, hstayEq]
  simp [hbx]

/-- **Whenever a child does not stay, it is put into its gap.** -/
theorem arrange_turn {l l' : List NodeId} {b : NodeId} (hl : d.ownCounterparts m w x = l ++ b :: l')
    (hb : b ∉ d.stayers m w x) : ∃ d' a t k,
      l.foldlM (arrangeOne m false (d.stayers m w x) w) (d.staying m w x) = .ok d' ∧
      d'.copy.ofDst.get? b = some a ∧
      (d'.copy.without a).placeOf m.dst d'.inOrder b = .ok k ∧
      k ≤ ((d'.copy.without a).arena.children w).length ∧
      d'.perform false (.move a w k) =
        .ok (d'.performed (d'.copy.moved a w k) (.move a w k) (.move t (m.ref x) k)) ∧
      Aligned m { g with
          opened := insert x g.opened
          told := g.told ++ l.flatMap (m.arrangingOne x) ++ [.move t (m.ref x) 0] }
        ((d'.performed (d'.copy.moved a w k) (.move a w k) (.move t (m.ref x) k)).mark b) ∧
      d'.copy.ofDst.get? x = some w := by
  have hng := h.not_grafted_of_mem hm hlx hleaf
  have hownEq := h.ownCounterparts_eq hm hr hlx hw hx hnew hng
  have hstayEq := h.stayers_eq hm hr hlx hw hx hnew hng
  have hmem : b ∈ d.ownCounterparts m w x := by simp [hl]
  obtain ⟨hbx, a, hba, hpa⟩ := mem_ownCounterparts_iff.1 hmem
  have hnd : (l ++ b :: l').Nodup :=
    hl ▸ List.filter_sublist.nodup (hm.dst.arena.nodup_children hlx)
  obtain ⟨d', hd', h'⟩ := h.arrange_turns hm hr hlx hw hpx hx hleaf hnew hl
  have hset : (d.staying m w x).settled b = decide (b ∈ m.stay x) := by
    rw [settled_staying hng, hstayEq]
    simp [hbx]
  rw [hstayEq] at hb
  obtain ⟨t, k, -, hk, hle, hperform, haligned⟩ := h'.bring_ok hm hlx hw (Set.mem_insert _ _) hleaf
    (hownEq ▸ hmem) (h.isLive_of_ofDst hba) hba hpa hset (not_mem_of_nodup_middle hnd).1 hb
  exact ⟨d', a, t, k, hd', by rw [h'.ofDst, copy_staying, hba], hk, hle, hperform, haligned,
    by rw [h'.ofDst, copy_staying, hw]⟩

/-- **Arranging succeeds and does what was planned.** -/
theorem arrange_ok : ∃ d', d.arrange m false w x = .ok d' ∧
    Aligned m { g with opened := insert x g.opened, arranged := insert x g.arranged,
                       told := g.told ++ m.arranging x } d' := by
  have hng := h.not_grafted_of_mem hm hlx hleaf
  have hownEq := h.ownCounterparts_eq hm hr hlx hw hx hnew hng
  obtain ⟨d', hd', h'⟩ :=
    h.arrange_turns hm hr hlx hw hpx hx hleaf hnew (List.append_nil _).symm
  rw [hownEq] at h'
  have hw' : d'.copy.ofDst.get? x = some w := by rw [h'.ofDst, copy_staying, hw]
  refine ⟨d', hd', h'.aligned.arranged (Set.mem_insert _ _) hw' ?_⟩
  intro b a hpb hba hpa
  rw [h'.ofDst] at hba
  have hlb := h.sound.isLive_of_ofDst hba
  have hpa' := (h'.parent? (h.isLive_of_ofDst hba)).symm.trans hpa
  have hb : b ∈ m.ownTargets x := by
    rw [← hownEq]
    exact mem_ownCounterparts_iff.2 ⟨(hm.dst.arena.of_parent? hlb hpb).2, a, hba, hpa'⟩
  rw [h'.settled, decide_eq_true hb, Bool.true_or]

end Arrange

end Aligned

end Draft

end TreeScript
