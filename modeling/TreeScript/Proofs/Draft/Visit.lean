/-
**Visiting the destination.**

A visit of a destination node does what the plan says of it, and leaves the node named, placed,
opened and arranged.  Since the nodes are visited level by level, the parent of a node has been
arranged when the node is visited.

Main results:

* `TreeScript.Draft.Aligned.settle_placed`, `TreeScript.Draft.Aligned.insert_ok`,
  `TreeScript.Draft.Aligned.graft_ok` — a node gets its place among its siblings;
* `TreeScript.Draft.Aligned.settle_ok`, `TreeScript.Draft.Aligned.insertAlone_ok`,
  `TreeScript.Draft.Aligned.insertWhole_ok` — the three kinds of visits;
* `TreeScript.Draft.Aligned.visit_ok` — **a visit succeeds and does what was planned**;
* `TreeScript.Draft.exists_aligned` — **all visits do**.
-/

import TreeScript.EditScript
import TreeScript.Proofs.Draft.Arranging

set_option relaxedAutoImplicit false
set_option autoImplicit false

namespace TreeScript.Draft

open WorkingCopy

variable {m : Mapping} {d : Draft} {g : Stage} {x y s w z : NodeId}

namespace Aligned

variable (h : Aligned m g d)

include h

/-! ### A node with a counterpart -/

/-- The counterpart of a node that has not been named gets its label. -/
theorem rename_ok (hm : m.Sound) (hs : m.source? x = some s) (hlx : m.dst.arena.isLive x)
    (hw : d.copy.ofDst.get? x = some w) (hx : x ∉ g.named) :
    ∃ d', d.rename m false w x = .ok d' ∧
      Aligned m { g with named := insert x g.named, told := g.told ++ m.relabeling s x } d' ∧
      d'.copy.ofDst = d.copy.ofDst := by
  obtain ⟨hls, hsx⟩ := hm.left hlx hs
  have hold : d.copy.label? w = m.src.label? s :=
    h.unnamed hls (h.ofSrc_of_ofDst hls hsx hw) fun q hq => by
      rw [hsx] at hq
      exact Option.some.inj hq ▸ hx
  obtain ⟨label, hlabel⟩ := Tree.exists_label? hlx
  rw [rename, Tree.label_eq_ok_of_label? hlabel, bind_ok, hold, Mapping.relabeling, hlabel]
  by_cases he : m.src.label? s = some label
  · refine ⟨d, by rw [if_pos he]; rfl, ?_, rfl⟩
    simp only [if_pos he, List.append_nil]
    exact { h with
      named := by
        intro q u hq hu
        rcases hq with hq | hq
        · rcases Set.mem_insert_iff.1 hq with rfl | hq
          · obtain rfl := Option.some.inj (hw.symm.trans hu)
            rw [hold, he, hlabel]
          · exact h.named (Or.inl hq) hu
        · exact h.named (Or.inr hq) hu
      unnamed := fun ht hu hnot => h.unnamed ht hu fun q hq hmem =>
        hnot q hq (Set.mem_insert_of_mem _ hmem) }
  · simp only [if_neg he]
    have hstep : Step m.dst d.copy (.relabel w label) (.update s label)
        (d.copy.relabeled w label) :=
      Step.relabel (h.isLive_of_ofDst hw) (h.sound.origin?_of_source? hm hw hs)
    exact ⟨_, perform_ok h.sound.wf hm.dst hstep, h.relabeled hs hw hm hlabel, rfl⟩

/-- A node is placed whose place does not matter or is right already. -/
theorem marked (hw : d.copy.ofDst.get? x = some w)
    (hp : ∀ y, m.dst.arena.parent? x = some y → y ∈ g.opened ∧ ∃ z, d.copy.ofDst.get? y = some z)
    (hline : ∀ {q u}, d.copy.ofDst.get? q = some u →
      InLine d.copy.toDst.get? (d.mark x).settled (d.copy.arena.children u)
        (m.dst.arena.children q)) :
    Aligned m { g with placed := insert x g.placed } (d.mark x) := by
  have hmono : ∀ {v}, d.settled v → (d.mark x).settled v := by
    intro v hv
    rw [settled_mark, hv, Bool.or_true]
  exact { h with
    inLine := hline
    anchored := by
      intro v q hv hq
      rw [settled_mark, Bool.or_eq_true, decide_eq_true_iff] at hv
      rcases hv with rfl | hv
      · exact (hp q hq).2
      · exact h.anchored hv hq
    settled_of_placed := by
      intro v hv hne
      rcases Set.mem_insert_iff.1 hv with rfl | hv
      · rw [settled_mark, decide_eq_true rfl, Bool.true_or]
      · exact hmono (h.settled_of_placed hv hne)
    root_placed := Set.mem_insert_of_mem _ h.root_placed
    opened_of_placed := by
      intro v q hv hq
      rcases Set.mem_insert_iff.1 hv with rfl | hv
      · exact (hp q hq).1
      · exact h.opened_of_placed hv hq
    placed_of_opened := h.placed_of_opened.trans (Set.subset_insert _ _)
    settled_of_arranged := fun hy hz hb ha hpa =>
      hmono (h.settled_of_arranged hy hz hb ha hpa)
    ofDst_iff := by
      intro v hv
      constructor
      · intro hwv
        exact ((h.ofDst_iff hv).1 hwv).imp_right (Or.imp_left (Set.mem_insert_of_mem _))
      · rintro (hs | hpv | hgv)
        · exact (h.ofDst_iff hv).2 (Or.inl hs)
        · rcases Set.mem_insert_iff.1 hpv with rfl | hpv
          · exact ⟨w, hw⟩
          · exact (h.ofDst_iff hv).2 (Or.inr (Or.inl hpv))
        · exact (h.ofDst_iff hv).2 (Or.inr (Or.inr hgv))
    unmoved := fun ht hpt hw hv hnot => h.unmoved ht hpt hw hv fun q hq hmem =>
      hnot q hq (Set.mem_insert_of_mem _ hmem) }

section Settle

variable (hm : m.Sound) (hr : m.source? m.dst.root = some m.src.root) (hs : m.source? x = some s)
  (hlx : m.dst.arena.isLive x) (hp : m.dst.arena.parent? x = some y)
  (hz : d.copy.ofDst.get? y = some z) (hy : y ∈ g.arranged) (hclean : m.dstClean y = false)
  (hxn : x ∉ g.named) (hxp : x ∉ g.placed)

include hm hr hs hlx hp hz hy hclean hxn hxp

/-- **The counterpart of a node gets its label and comes under its parent**, unless it is there. -/
theorem settle_placed : ∃ w d₁ d₂, d.copy.ofSrc.get? s = some w ∧
    d.rename m false w x = .ok d₁ ∧
    (if d₁.copy.arena.parent? w = some z then pure d₁ else d₁.bring m false w z x) = .ok d₂ ∧
    Aligned m
      { g with
        named := insert x g.named, placed := insert x g.placed,
        told := g.told ++ m.relabeling s x ++ m.bringing s y } (d₂.mark x) ∧
    d₂.copy.ofDst = d.copy.ofDst ∧
    (d₁.copy.arena.parent? w ≠ some z → ∃ k,
      (d₁.copy.without w).placeOf m.dst d₁.inOrder x = .ok k ∧
      k ≤ ((d₁.copy.without w).arena.children z).length ∧
      d₁.perform false (.move w z k) = .ok d₂) := by
  obtain ⟨hls, hsx⟩ := hm.left hlx hs
  obtain ⟨w, hw, -⟩ := h.copied hls
  have hxw := h.ofDst_of_counterpart? hls hsx hw
  have hly := hm.dst.arena.isLive_of_parent? hlx hp
  obtain ⟨d₁, hd₁, h₁, hof₁⟩ := h.rename_ok hm hs hlx hxw hxn
  rw [← hof₁] at hxw hz
  have hyo : y ∈ g.opened := h.opened_of_arranged hy
  have hw₁ := h₁.ofSrc_of_ofDst hls hsx hxw
  have hstay := h₁.parent?_counterpart_iff hm hr hly hz hlx hp hxp hs hw₁
  by_cases hpw : d₁.copy.arena.parent? w = some z
  · have hset : d₁.settled x := h₁.settled_of_arranged hy hz hp hxw hpw
    have hmark : (d₁.mark x).settled = d₁.settled := by
      funext v
      rw [settled_mark]
      by_cases hv : x = v
      · rw [← hv, hset, Bool.or_true]
      · rw [decide_eq_false hv, Bool.false_or]
    refine ⟨w, d₁, d₁, hw, hd₁, by rw [if_pos hpw]; rfl, ?_, hof₁, fun hne => absurd hpw hne⟩
    rw [Mapping.bringing, if_pos (hstay.1 hpw), List.append_nil]
    refine h₁.marked hxw (fun q hq => ?_) fun hq => by rw [hmark]; exact h₁.inLine hq
    obtain rfl := Option.some.inj (hp.symm.trans hq)
    exact ⟨hyo, z, hz⟩
  · have hns : d₁.settled x = false := by
      refine Bool.eq_false_iff.2 fun hset => hpw ?_
      exact h₁.parent?_of_settled hm.dst hlx hset hp hxw hz
    obtain ⟨k, hk, hle, hperform, h₂⟩ := h₁.bring_ok hm hs hlx hp hxw hz hyo hclean hns (Or.inl rfl)
    refine ⟨w, d₁, d₁.performed (d₁.copy.moved w z k) (.move w z k) (.move s (m.ref y) k), hw, hd₁,
      by rw [if_neg hpw, bring, hk, bind_ok, hperform], ?_, hof₁, fun _ => ⟨k, hk, hle, hperform⟩⟩
    rwa [Mapping.bringing, if_neg fun e => hpw (hstay.2 e)]

/-- **A visit of a node with a counterpart in the source.** -/
theorem settle_ok : ∃ d', d.settle m false z s x = .ok d' ∧
    Aligned m
      { named := insert x g.named, placed := insert x g.placed, opened := insert x g.opened,
        arranged := insert x g.arranged,
        told := g.told ++ (m.relabeling s x ++ m.bringing s y ++ m.arranging x) } d' := by
  obtain ⟨hls, hsx⟩ := hm.left hlx hs
  obtain ⟨w, d₁, d₂, hw, hd₁, hd₂, h₂, hof₂, -⟩ :=
    h.settle_placed hm hr hs hlx hp hz hy hclean hxn hxp
  have hxw : (d₂.mark x).copy.ofDst.get? x = some w := by
    rw [copy_mark, hof₂]
    exact h.ofDst_of_counterpart? hls hsx hw
  obtain ⟨d₃, hd₃, h₃⟩ := h₂.arrange_ok hm hr hlx hxw (Set.mem_insert _ _)
    (fun hxo => hxp (h.placed_of_opened hxo)) (Or.inr (Mapping.dstClean_of_source? hm.dst hlx hs))
    fun hnone => by rw [hs] at hnone; cases hnone
  refine ⟨d₃, ?_, ?_⟩
  · rw [settle, copyOf_eq_ok hw, bind_ok, hd₁, bind_ok]
    by_cases hpw : d₁.copy.arena.parent? w = some z
    · rw [if_pos hpw] at hd₂
      simp only [if_pos hpw, hd₂, bind_ok, hd₃]
    · rw [if_neg hpw] at hd₂
      simp only [if_neg hpw, hd₂, bind_ok, hd₃]
  · rwa [← List.append_assoc, ← List.append_assoc]

end Settle

/-! ### A node without counterpart -/

/-- The place of a new node is in its gap. -/
theorem exists_gap (hm : m.Sound) (hlx : m.dst.arena.isLive x)
    (hp : m.dst.arena.parent? x = some y) (hz : d.copy.ofDst.get? y = some z)
    (hclean : m.dstClean y = false) (hx : d.copy.ofDst.get? x = none) :
    ∃ k K₁ K₂, d.copy.placeOf m.dst d.inOrder x = .ok k ∧
      m.dst.arena.children y = K₁ ++ x :: K₂ ∧
      Gap d.copy.toDst.get? d.settled (d.copy.arena.children z) K₁ K₂ k := by
  have hly := hm.dst.arena.isLive_of_parent? hlx hp
  have hxy := (hm.dst.arena.of_parent? hlx hp).2
  have hns : d.settled x = false := by
    refine Bool.eq_false_iff.2 fun hset => ?_
    obtain ⟨u, hu, hux⟩ := ((h.inLine hz).mem_iff hset).1 hxy
    have hlu := h.sound.wf.isLive_of_mem (h.isLive_of_ofDst hz) hu
    rw [(h.sound.toDst hlu hux).2] at hx
    cases hx
  obtain ⟨K₁, K₂, hK⟩ := List.append_of_mem hxy
  have hnd := hm.dst.arena.nodup_children hly
  have hline := h.inLine hz
  rw [hK] at hnd hline
  obtain ⟨k, hk, hgap⟩ := exists_placeOf h.sound.wf (h.isLive_of_ofDst hz)
    (fun hu huv => (h.sound.toDst hu huv).2) hp hK hnd hline hns fun v hv =>
      h.settled_eq_of_parent? hm hly (hK ▸ List.mem_append_left _ hv) hclean
  exact ⟨k, K₁, K₂, hk, hK, hgap⟩

section Insert

variable (hm : m.Sound) (hlx : m.dst.arena.isLive x) (hp : m.dst.arena.parent? x = some y)
  (hz : d.copy.ofDst.get? y = some z) (hy : y ∈ g.opened) (hclean : m.dstClean y = false)
  (hx : d.copy.ofDst.get? x = none)

include hm hlx hp hz hy hclean hx

/-- **A new node is put into its gap.** -/
theorem insert_ok (hs : m.source? x = none)
    (hleaf : m.dst.arena.children x = [] ∨ m.dstClean x = false) {label : String}
    (hlabel : m.dst.label? x = some label) : ∃ k c,
      d.copy.placeOf m.dst d.inOrder x = .ok k ∧ k ≤ (d.copy.arena.children z).length ∧
      d.perform false (.insert x label z k) =
        .ok (d.performed c (.insert x label z k) (.insert x (m.ref y) k)) ∧
      Aligned m
        { g with
          named := insert x g.named, placed := insert x g.placed,
          told := g.told ++ [.insert x (m.ref y) 0] }
        ((d.performed c (.insert x label z k) (.insert x (m.ref y) k)).mark x) ∧
      c.ofDst.get? x = some d.copy.arena.nextId ∧ c.arena.children d.copy.arena.nextId = [] := by
  obtain ⟨data, hdata, rfl⟩ := Option.map_eq_some_iff.1 hlabel
  have hlz := h.isLive_of_ofDst hz
  obtain ⟨k, K₁, K₂, hk, hK, hgap⟩ := h.exists_gap hm hlx hp hz hclean hx
  have hi := h.incoming_alone hm hlx hs hx hlabel hleaf
  have hstep : Step m.dst d.copy (.insert x data.label z k) (.insert x (m.ref y) k)
      (d.copy.grafted (.node (x, data.label) []) z k) :=
    Step.insert hlz (h.sound.origin?_eq_ref hm hz) hgap.le_length hlx hdata (h.sound.lacks hx)
  refine ⟨k, _, hk, hgap.le_length, perform_ok h.sound.wf hm.dst hstep, ?_,
    hi.ofDst_iff.2 (Or.inl hi.top_mem), ?_⟩
  · exact h.grown hm hlx hp hz hi hK hgap hy (G := d.grafted)
      (fun n => ⟨Or.inl, fun hn => hn.resolve_right fun hn => hn.2 (by
        simpa [RoseTree.preorder_node] using hn.1)⟩) hstep
  · have hg := grafted_spec h.sound.wf hlz hi.depicts k
    exact List.forall₂_nil_left_iff.1 (hg.copied _ _ hi.top_mem).2

/-- **A visit of a node that comes in alone.** -/
theorem insertAlone_ok (hr : m.source? m.dst.root = some m.src.root) (hs : m.source? x = none)
    (hxp : x ∉ g.placed) (hleaf : m.dst.arena.children x = [] ∨ m.dstClean x = false) :
    ∃ d', d.insertAlone m false z x = .ok d' ∧
      Aligned m
        { named := insert x g.named, placed := insert x g.placed, opened := insert x g.opened,
          arranged := insert x g.arranged, told := g.told ++ m.introducing x y } d' := by
  obtain ⟨label, hlabel⟩ := Tree.exists_label? hlx
  obtain ⟨k, c, hk, -, hperform, h₁, hw, hnil⟩ :=
    h.insert_ok hm hlx hp hz hy hclean hx hs hleaf hlabel
  obtain ⟨d', hd', h'⟩ := h₁.arrange_ok hm hr hlx hw (Set.mem_insert _ _)
    (fun hxo => hxp (h.placed_of_opened hxo)) hleaf fun _ => hnil
  refine ⟨d', ?_, ?_⟩
  · rw [insertAlone, Tree.label_eq_ok_of_label? hlabel, bind_ok, hk, bind_ok]
    simp only [hperform, bind_ok]
    exact hd'
  · have hplan : m.introducing x y = [.insert x (m.ref y) 0] := by
      rw [Mapping.introducing, if_pos]
      rcases hleaf with hleaf | hleaf <;> simp [hleaf]
    have harr : m.arranging x = [] := by rw [Mapping.arranging, Mapping.ownTargets, hs]; rfl
    simp only [harr, List.append_nil] at h'
    rwa [hplan]

/-- **New nodes for a whole subtree are put into their gap.** -/
theorem graft_ok (hxc : m.dstClean x) {u : RoseTree (NodeId × NodeData)}
    (hu : m.dst.view x = .ok u) : ∃ k c,
      d.copy.placeOf m.dst d.inOrder x = .ok k ∧ k ≤ (d.copy.arena.children z).length ∧
      d.perform false (.graft (u.map fun e => (e.1, e.2.label)) z k) =
        .ok (d.performed c (.graft (u.map fun e => (e.1, e.2.label)) z k)
          (.treeInsert x (some (m.ref y)) k)) ∧
      Aligned m
        { g with
          named := insert x g.named, placed := insert x g.placed,
          told := g.told ++ [.treeInsert x (some (m.ref y)) 0] }
        { (d.performed c (.graft (u.map fun e => (e.1, e.2.label)) z k)
            (.treeInsert x (some (m.ref y)) k)).mark x with
          grafted := d.grafted.addAll ((u.preorder.drop 1).map Prod.fst) } ∧
      c.ofDst.get? x = some d.copy.arena.nextId := by
  have hlz := h.isLive_of_ofDst hz
  obtain ⟨k, K₁, K₂, hk, hK, hgap⟩ := h.exists_gap hm hlx hp hz hclean hx
  have hi := h.incoming_whole hm hlx hx hxc hu
  have hstep : Step m.dst d.copy (.graft (u.map fun e => (e.1, e.2.label)) z k)
      (.treeInsert x (some (m.ref y)) k)
      (d.copy.grafted (u.map fun e => (e.1, e.2.label)) z k) :=
    Step.graft hlz (h.sound.origin?_eq_ref hm hz) hgap.le_length hlx hu fun n hn hb =>
      h.sound.lacks (h.ofDst_eq_none_of_below hm hn hb hxc hx)
  -- what comes with `x` is the rest of the pre-order
  have hpre : (u.map fun e => (e.1, e.2.label)).preorder.map Prod.fst =
      u.preorder.map Prod.fst := by
    rw [RoseTree.preorder_map, List.map_map]
    rfl
  have hval : u.value.1 = x := by simpa using hi.value
  have hG : ∀ n, (d.grafted.addAll ((u.preorder.drop 1).map Prod.fst)).contains n ↔
      d.grafted.contains n ∨
        n ∈ (u.map fun e => (e.1, e.2.label)).preorder.map Prod.fst ∧ n ≠ x := by
    intro n
    have hnd := hi.nodup
    rw [hpre] at hnd ⊢
    rw [NodeSet.contains_addAll, Bool.or_eq_true, decide_eq_true_iff, or_comm]
    refine or_congr_right ?_
    obtain ⟨e, ts⟩ := u
    obtain rfl : e.1 = x := hval
    rw [RoseTree.preorder_node, List.map_cons, List.nodup_cons] at hnd
    rw [RoseTree.preorder_node, List.map_cons, List.mem_cons, List.drop_succ_cons, List.drop_zero]
    constructor
    · intro hn
      exact ⟨Or.inr hn, fun he => hnd.1 (he ▸ hn)⟩
    · rintro ⟨hn, hne⟩
      exact hn.resolve_left hne
  exact ⟨k, _, hk, hgap.le_length, perform_ok h.sound.wf hm.dst hstep,
    h.grown hm hlx hp hz hi hK hgap hy hG hstep, hi.ofDst_iff.2 (Or.inl hi.top_mem)⟩

/-- **A visit of a node that comes in with all that is below it.** -/
theorem insertWhole_ok (hxc : m.dstClean x) (hleaf : m.dst.arena.children x ≠ []) :
    ∃ d', d.insertWhole m false z x = .ok d' ∧
      Aligned m
        { named := insert x g.named, placed := insert x g.placed, opened := insert x g.opened,
          arranged := insert x g.arranged, told := g.told ++ m.introducing x y } d' := by
  obtain ⟨u, hu, -⟩ := hm.dst.exists_view hlx
  obtain ⟨k, c, hk, -, hperform, h₁, hw⟩ := h.graft_ok hm hlx hp hz hy hclean hx hxc hu
  have hplan : m.introducing x y = [.treeInsert x (some (m.ref y)) 0] := by
    rw [Mapping.introducing, if_neg]
    simpa [hxc] using hleaf
  rw [hplan]
  refine ⟨_, ?_, (h₁.opened (Set.mem_insert _ _)).arranged (Set.mem_insert _ _) hw ?_⟩
  · rw [insertWhole, hk, bind_ok, hu, bind_ok, hperform, bind_ok]
    rfl
  · -- its children came with it
    intro b a hb hba _
    have hlb := h₁.sound.isLive_of_ofDst hba
    have hgb := (h₁.grafted_iff hlb).2 ⟨x, hb, hxc, _, hw⟩
    rw [settled, hgb, Bool.or_true]

end Insert

/-- A node that came with its parent needs no visit. -/
theorem skipped (hm : m.Sound) (hlx : m.dst.arena.isLive x)
    (hp : m.dst.arena.parent? x = some y) (hy : y ∈ g.opened) (hx : d.grafted.contains x) :
    Aligned m
      { g with
        named := insert x g.named, placed := insert x g.placed, opened := insert x g.opened,
        arranged := insert x g.arranged } d := by
  obtain ⟨w, hw⟩ := (h.ofDst_iff hlx).2 (Or.inr (Or.inr hx))
  obtain ⟨q, hq, hclean, z, hz⟩ := (h.grafted_iff hlx).1 hx
  obtain rfl := Option.some.inj (hp.symm.trans hq)
  have hset : d.settled x := by rw [settled, hx, Bool.or_true]
  have hplaced : Aligned m { g with named := insert x g.named, placed := insert x g.placed } d :=
    { h with
      settled_of_placed := by
        intro v hv hne
        rcases Set.mem_insert_iff.1 hv with rfl | hv
        · exact hset
        · exact h.settled_of_placed hv hne
      root_placed := Set.mem_insert_of_mem _ h.root_placed
      opened_of_placed := by
        intro v q hv hvq
        rcases Set.mem_insert_iff.1 hv with rfl | hv
        · exact Option.some.inj (hp.symm.trans hvq) ▸ hy
        · exact h.opened_of_placed hv hvq
      placed_of_opened := h.placed_of_opened.trans (Set.subset_insert _ _)
      ofDst_iff := by
        intro v hv
        refine (h.ofDst_iff hv).trans (or_congr_right ⟨Or.imp_left (Set.mem_insert_of_mem _), ?_⟩)
        rintro (hpv | hgv)
        · rcases Set.mem_insert_iff.1 hpv with rfl | hpv
          · exact Or.inr hx
          · exact Or.inl hpv
        · exact Or.inr hgv
      named := by
        intro v u hv hu
        rcases hv with hv | hv
        · rcases Set.mem_insert_iff.1 hv with rfl | hv
          · exact h.named (Or.inr hx) hu
          · exact h.named (Or.inl hv) hu
        · exact h.named (Or.inr hv) hu
      unnamed := fun ht hu hnot => h.unnamed ht hu fun q hq hmem =>
        hnot q hq (Set.mem_insert_of_mem _ hmem)
      unmoved := fun ht hpt hu hv hnot => h.unmoved ht hpt hu hv fun q hq hmem =>
        hnot q hq (Set.mem_insert_of_mem _ hmem) }
  refine (hplaced.opened (Set.mem_insert _ _)).arranged (Set.mem_insert _ _) hw ?_
  -- its children came with it
  intro b a hb hba _
  have hlb := h.sound.isLive_of_ofDst hba
  have hxc := Mapping.dstClean_of_below hm.dst hlx (Arena.Below.of_parent hp) hclean
  have hgb : d.grafted.contains b := (h.grafted_iff hlb).2 ⟨x, hb, hxc, w, hw⟩
  rw [settled, hgb, Bool.or_true]

end Aligned

/-! ### All visits -/

/-- The stage at which the given nodes have been seen to. -/
def Stage.seen (S : Set NodeId) (told : List Action) : Stage where
  named := S
  placed := S
  opened := S
  arranged := S
  told := told

/-- **A visit succeeds and does what was planned.** -/
theorem Aligned.visit_ok {S : Set NodeId} {acts : List Action}
    (h : Aligned m (Stage.seen S acts) d) (hm : m.Sound)
    (hr : m.source? m.dst.root = some m.src.root) (hlx : m.dst.arena.isLive x) (hx : x ∉ S)
    (hp : m.dst.arena.parent? x = some y) (hy : y ∈ S) :
    ∃ d', visit m false d x = .ok d' ∧
      Aligned m (Stage.seen (insert x S) (acts ++ m.visiting x)) d' := by
  have hly := hm.dst.arena.isLive_of_parent? hlx hp
  obtain ⟨z, hz⟩ := (h.ofDst_iff hly).2 (Or.inr (Or.inl hy))
  have hcarried := Mapping.carried_of_parent? hp
  have hiff := h.grafted_iff_of_parent? hlx hp hz
  by_cases hg : d.grafted.contains x
  · have hplan : m.visiting x = [] := by rw [Mapping.visiting, if_pos (hcarried.trans (hiff.1 hg))]
    refine ⟨d, by rw [visit, if_pos hg]; rfl, ?_⟩
    rw [hplan, List.append_nil]
    exact h.skipped hm hlx hp hy hg
  · have hclean : m.dstClean y = false := Bool.eq_false_iff.2 fun e => hg (hiff.2 e)
    have hnot : ¬ m.carried x = true := by rw [hcarried, hclean]; exact Bool.false_ne_true
    simp only [visit, if_neg hg, hp, Mapping.visiting, if_neg hnot, counterpart_eq_ok hz, bind_ok]
    cases hs : m.source? x with
    | some s => exact h.settle_ok hm hr hs hlx hp hz hy hclean hx hx
    | none =>
        have hnone := h.ofDst_eq_none hlx hs hx (Bool.eq_false_iff.2 hg)
        simp only [Mapping.isDstClean_eq_ok hlx, bind_ok]
        by_cases hleaf : m.dst.arena.children x = [] ∨ m.dstClean x = false
        · rw [if_pos]
          · exact h.insertAlone_ok hm hlx hp hz hy hclean hnone hr hs hx hleaf
          · rcases hleaf with hleaf | hleaf <;> simp [hleaf]
        · obtain ⟨hne, hxc⟩ := not_or.1 hleaf
          rw [if_neg]
          · exact h.insertWhole_ok hm hlx hp hz hy hclean hnone (by simpa using hxc) hne
          · simpa [hne] using hxc

/-- The root has been seen to before the visits begin. -/
theorem visiting_root (hm : m.Sound) : m.visiting m.dst.root = [] := by
  have hp := hm.dst.parent?_root
  simp only [Mapping.visiting, Mapping.carried, hp, Bool.false_eq_true, if_false]

/-- **The visits succeed as far as they have gone**, and do what was planned. -/
theorem Aligned.visits_ok {acts : List Action}
    (h : Aligned m (Stage.seen {m.dst.root} acts) d) (hm : m.Sound)
    (hr : m.source? m.dst.root = some m.src.root) {l l' : List NodeId}
    (hl : m.dst.iter = l ++ l') :
    ∃ d', l.foldlM (visit m false) d = .ok d' ∧
      Aligned m (Stage.seen {n | n = m.dst.root ∨ n ∈ l} (acts ++ l.flatMap m.visiting)) d' := by
  have hlr := hm.dst.isLive_root
  refine foldlM_ok (fun l d' => Aligned m
    (Stage.seen {n | n = m.dst.root ∨ n ∈ l} (acts ++ l.flatMap m.visiting)) d') ?_ ?_
  · have hset : {n | n = m.dst.root ∨ n ∈ ([] : List NodeId)} = {m.dst.root} := by
      ext n
      simp
    rw [hset, List.flatMap_nil, List.append_nil]
    exact h
  · intro l₁ x l₂ d' hsplit h'
    have hset : {n | n = m.dst.root ∨ n ∈ l₁ ++ [x]} =
        insert x {n | n = m.dst.root ∨ n ∈ l₁} := by
      ext n
      simp only [Set.mem_ofPred_eq, Set.mem_insert_iff, List.mem_append, List.mem_singleton]
      tauto
    have hplan : acts ++ (l₁ ++ [x]).flatMap m.visiting =
        acts ++ l₁.flatMap m.visiting ++ m.visiting x := by simp
    rw [hset, hplan]
    have hiter : m.dst.iter = l₁ ++ x :: (l₂ ++ l') := by simp [hl, hsplit]
    have hmem : x ∈ m.dst.iter := by simp [hiter]
    have hlx := hm.dst.mem_iter_iff.1 hmem
    by_cases hxr : x = m.dst.root
    · subst hxr
      have hng : d'.grafted.contains m.dst.root = false := by
        refine Bool.eq_false_iff.2 fun hg => ?_
        obtain ⟨q, hq, -⟩ := (h'.grafted_iff hlr).1 hg
        rw [hm.dst.parent?_root] at hq
        cases hq
      refine ⟨d', ?_, ?_⟩
      · simp only [visit, hng, Bool.false_eq_true, if_false, hm.dst.parent?_root]
        rfl
      · have hins : insert m.dst.root {n | n = m.dst.root ∨ n ∈ l₁} =
            {n | n = m.dst.root ∨ n ∈ l₁} := Set.insert_eq_of_mem (Or.inl rfl)
        rwa [visiting_root hm, List.append_nil, hins]
    · obtain ⟨y, hy, hp⟩ := hm.dst.arena.parent_mem_of_levelOrder_split hlr hiter hxr
      have hnd : (l₁ ++ x :: (l₂ ++ l')).Nodup := hiter ▸ hm.dst.nodup_iter
      have hnot := (not_mem_of_nodup_middle hnd).1
      refine h'.visit_ok hm hr hlx ?_ hp (Or.inr hy)
      rintro (e | e)
      · exact hxr e
      · exact hnot e

/-! ### The whole alignment -/

/-- The stage at which all nodes have been seen to. -/
def Stage.done (m : Mapping) : Stage := Stage.seen {n | m.dst.arena.isLive n} m.aligning

/-- All that is done before nodes are taken out. -/
def align (m : Mapping) (quiet : Bool) : Except Fault Draft := do
  let d ← start m
  let w := d.copy.root
  let d ← d.rename m quiet w m.dst.root
  let d ← (d.mark m.dst.root).arrange m quiet w m.dst.root
  m.dst.iter.foldlM (visit m quiet) d

theorem draft_eq (m : Mapping) (quiet : Bool) :
    m.draft quiet = align m quiet >>= fun d => d.prune m quiet := by
  simp only [Mapping.draft, align, bind_assoc]

/-- **The root is seen to**: it gets its label, and its children are arranged. -/
theorem exists_begun (hm : m.Sound) (hr : m.source? m.dst.root = some m.src.root) :
    ∃ d₀ d₁ d₂, start m = .ok d₀ ∧ d₀.rename m false d₀.copy.root m.dst.root = .ok d₁ ∧
      (d₁.mark m.dst.root).arrange m false d₀.copy.root m.dst.root = .ok d₂ ∧
      Aligned m { Stage.start m with
        named := {m.dst.root}, told := m.relabeling m.src.root m.dst.root }
        (d₁.mark m.dst.root) ∧
      d₁.copy.ofDst.get? m.dst.root = some d₀.copy.root ∧
      Aligned m (Stage.seen {m.dst.root}
        (m.relabeling m.src.root m.dst.root ++ m.arranging m.dst.root)) d₂ := by
  obtain ⟨c, hc, hstart⟩ := WorkingCopy.exists_start hm
  have h₀ := aligned_start hm hr hstart hc
  have hlr := hm.dst.isLive_root
  obtain ⟨d₁, hd₁, h₁, hof₁⟩ := h₀.rename_ok hm hr hlr h₀.root (Set.notMem_empty _)
  have hroot₁ : d₁.copy.ofDst.get? m.dst.root = some c.root := by rw [hof₁]; exact h₀.root
  -- the root is among no node's children
  have hmark : Aligned m { Stage.start m with
      named := insert m.dst.root ∅, placed := insert m.dst.root {m.dst.root},
      told := [] ++ m.relabeling m.src.root m.dst.root } (d₁.mark m.dst.root) := by
    refine h₁.marked hroot₁ (fun y hy => ?_) fun {q u} hu => ?_
    · rw [hm.dst.parent?_root] at hy
      cases hy
    · refine (h₁.inLine hu).congr (fun _ _ => rfl) fun v hv => ?_
      have hne : m.dst.root ≠ v := by
        rintro rfl
        rcases hv with ⟨k, hk, hkr⟩ | hv
        · obtain ⟨hlk, hpk⟩ := h₁.sound.wf.of_mem_children (h₁.isLive_of_ofDst hu) hk
          have hk' := (h₁.sound.toDst hlk hkr).2
          rw [h₁.root] at hk'
          obtain rfl := Option.some.inj hk'
          rw [h₁.sound.rooted.parent?_root] at hpk
          cases hpk
        · have hpr := hm.dst.arena.parent?_of_mem (h₁.sound.isLive_of_ofDst hu) hv
          rw [hm.dst.parent?_root] at hpr
          cases hpr
      rw [settled_mark, decide_eq_false hne, Bool.false_or]
  have hbegun : Aligned m { Stage.start m with
      named := {m.dst.root}, told := m.relabeling m.src.root m.dst.root }
      (d₁.mark m.dst.root) := by
    simpa [Stage.start] using hmark
  obtain ⟨d₂, hd₂, h₂⟩ := hbegun.arrange_ok hm hr hlr hroot₁ rfl (Set.notMem_empty _)
    (Or.inr (Mapping.dstClean_of_source? hm.dst hlr hr)) fun hnone => by
      rw [hr] at hnone
      cases hnone
  exact ⟨_, d₁, d₂, by rw [start, hc]; rfl, hd₁, hd₂, hbegun, hroot₁,
    by simpa [Stage.seen, Stage.start] using h₂⟩

/-- **All visits succeed and do what was planned.** -/
theorem exists_aligned (hm : m.Sound) (hr : m.source? m.dst.root = some m.src.root) :
    ∃ d, align m false = .ok d ∧ Aligned m (Stage.done m) d := by
  obtain ⟨d₀, d₁, d₂, hd₀, hd₁, hd₂, -, -, h₂⟩ := exists_begun hm hr
  obtain ⟨d₃, hd₃, h₃⟩ := h₂.visits_ok hm hr (List.append_nil _).symm
  refine ⟨d₃, ?_, ?_⟩
  · simp only [align, hd₀, bind_ok, hd₁, hd₂, hd₃]
  · have hset : {n | n = m.dst.root ∨ n ∈ m.dst.iter} = {n | m.dst.arena.isLive n = true} := by
      ext n
      simp only [Set.mem_ofPred_eq]
      constructor
      · rintro (rfl | hn)
        · exact hm.dst.isLive_root
        · exact hm.dst.mem_iter_iff.1 hn
      · intro hn
        exact Or.inr (hm.dst.mem_iter_iff.2 hn)
    rw [hset] at h₃
    exact h₃

end TreeScript.Draft
