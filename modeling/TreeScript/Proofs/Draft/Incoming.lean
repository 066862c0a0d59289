/-
**Bringing in a part of the destination.**

A destination node without counterpart comes in alone, or, if nothing below it has a counterpart
either, with all that is below it.  Both are the same change of the draft, made with a smaller or
a larger part of the destination.

Main definitions:

* `TreeScript.Draft.Incoming` — **a part of the destination that can be brought in**.

Main results:

* `TreeScript.Draft.Aligned.incoming_alone`, `TreeScript.Draft.Aligned.incoming_whole` — a node
  alone, and a clean subtree, are such parts;
* `TreeScript.Draft.Aligned.grown` — **the invariant after a part has been brought in**.
-/

import TreeScript.Proofs.Draft.Aligned

set_option relaxedAutoImplicit false
set_option autoImplicit false

namespace TreeScript.Draft

open WorkingCopy

variable {m : Mapping} {d : Draft} {g : Stage} {x y z : NodeId} {k : Nat}
  {v : RoseTree (NodeId × String)} {C : NodeId → List NodeId}

/-- **A part of the destination that can be brought in**: the node `x` and some of what is below
it, with the lists of children `C`. -/
structure Incoming (m : Mapping) (d : Draft) (C : NodeId → List NodeId)
    (v : RoseTree (NodeId × String)) (x : NodeId) : Prop where
  depicts : Depicts C m.dst.label? v
  value : v.value.1 = x
  nodup : (v.preorder.map Prod.fst).Nodup
  new : ∀ n ∈ v.preorder.map Prod.fst,
    m.dst.arena.isLive n ∧ m.source? n = none ∧ d.copy.ofDst.get? n = none
  /-- Below `x` every node comes with its parent. -/
  parent? : ∀ n ∈ v.preorder.map Prod.fst, n ≠ x →
    ∃ q ∈ v.preorder.map Prod.fst, m.dst.arena.parent? n = some q
  /-- A node comes with its children if it is clean, and only then. -/
  clean : ∀ q ∈ v.preorder.map Prod.fst, ∀ n, m.dst.arena.isLive n →
    m.dst.arena.parent? n = some q → (m.dstClean q ↔ n ∈ v.preorder.map Prod.fst)
  /-- Of the children of a node those come that are settled then. -/
  children : ∀ n ∈ v.preorder.map Prod.fst,
    (C n).filter (fun b => decide (b ∈ v.preorder.map Prod.fst) || d.settled b) =
      (m.dst.arena.children n).filter fun b =>
        decide (b ∈ v.preorder.map Prod.fst) || d.settled b

namespace Incoming

variable {n w : NodeId} (hi : Incoming m d C v x)

include hi

theorem mem_self : x ∈ v.preorder.map Prod.fst := by
  have hx := hi.value
  cases v with
  | node e ts =>
      rw [RoseTree.preorder_node, List.map_cons]
      exact List.mem_cons.2 (Or.inl hx.symm)

theorem top_mem : (x, d.copy.arena.nextId) ∈ d.copy.copies v := by
  have := Arena.mem_plant_self (made v) d.copy.arena none
  rw [made, RoseTree.value_map, hi.value] at this
  exact this

theorem not_mem (hn : d.copy.ofDst.get? n = some w) : n ∉ v.preorder.map Prod.fst := by
  intro hm
  rw [(hi.new n hm).2.2] at hn
  cases hn

/-- What comes in gets a counterpart, and all others keep theirs. -/
theorem ofDst_iff : (d.copy.grafted v z k).ofDst.get? n = some w ↔
    (n, w) ∈ d.copy.copies v ∨ d.copy.ofDst.get? n = some w :=
  ofDst_grafted_iff_of_new hi.nodup fun n hn => (hi.new n hn).2.2

omit hi in
theorem mem_of_mem_copies (hn : (n, w) ∈ d.copy.copies v) : n ∈ v.preorder.map Prod.fst :=
  map_fst_copies d.copy v ▸ List.mem_map_of_mem hn

theorem exists_ofDst (hn : n ∈ v.preorder.map Prod.fst) :
    ∃ w, (d.copy.grafted v z k).ofDst.get? n = some w := by
  obtain ⟨w, hw⟩ := exists_mem_of_fst ((map_fst_copies d.copy v).symm ▸ hn)
  exact ⟨w, hi.ofDst_iff.2 (Or.inl hw)⟩

/-- What comes in is settled, and what was settled is so still. -/
theorem settled_grown {G : NodeSet}
    (hG : ∀ n, G.contains n ↔ d.grafted.contains n ∨ n ∈ v.preorder.map Prod.fst ∧ n ≠ x)
    (c : WorkingCopy) (edits : List Edit) (n : NodeId) :
    Draft.settled ⟨c, d.inOrder.add x, G, edits⟩ n =
      (decide (n ∈ v.preorder.map Prod.fst) || d.settled n) := by
  rw [Bool.eq_iff_iff]
  simp only [settled, NodeSet.contains_add, Bool.or_eq_true, hG, decide_eq_true_iff]
  constructor
  · rintro ((rfl | hn) | hn | hn)
    · exact Or.inl hi.mem_self
    · exact Or.inr (Or.inl hn)
    · exact Or.inr (Or.inr hn)
    · exact Or.inl hn.1
  · rintro (hn | hn | hn)
    · by_cases he : x = n
      · exact Or.inl (Or.inl he)
      · exact Or.inr (Or.inr ⟨hn, fun e => he e.symm⟩)
    · exact Or.inl (Or.inr hn)
    · exact Or.inr (Or.inl hn)

end Incoming

namespace Aligned

variable (h : Aligned m g d)

include h

/-! ### What can be brought in -/

/-- Nothing below a node without counterpart is settled. -/
theorem not_settled_of_parent? {b : NodeId} (hx : d.copy.ofDst.get? x = none)
    (hb : m.dst.arena.parent? b = some x) : d.settled b = false := by
  refine Bool.eq_false_iff.2 fun hs => ?_
  obtain ⟨z, hz⟩ := h.anchored hs hb
  rw [hx] at hz
  cases hz

/-- What is below a clean node that has not come yet has not come either. -/
theorem ofDst_eq_none_of_below (hm : m.Sound) {n : NodeId} (hn : m.dst.arena.isLive n)
    (hb : m.dst.arena.Below x n) (hclean : m.dstClean x) (hx : d.copy.ofDst.get? x = none) :
    d.copy.ofDst.get? n = none := by
  induction hb with
  | self => exact hx
  | @step n p hp hb ih =>
      have hlp := hm.dst.arena.isLive_of_parent? hn hp
      have hnone := ih hlp
      refine Option.eq_none_iff_forall_ne_some.2 fun w hw => ?_
      rcases (h.ofDst_iff hn).1 ⟨w, hw⟩ with ⟨s, hs⟩ | hpn | hgn
      · have hcn := Mapping.dstClean_of_below hm.dst hn (Arena.Below.step hp hb) hclean
        rw [Mapping.source?_of_dstClean hm.dst hn hcn] at hs
        cases hs
      · -- a node is placed under one that has a counterpart
        obtain ⟨z, hz⟩ := (h.ofDst_iff hlp).2
          (Or.inr (Or.inl (h.placed_of_opened (h.opened_of_placed hpn hp))))
        rw [hnone] at hz
        cases hz
      · obtain ⟨q, hq, -, z, hz⟩ := (h.grafted_iff hn).1 hgn
        rw [hp] at hq
        obtain rfl := Option.some.inj hq
        rw [hnone] at hz
        cases hz

theorem incoming_alone (hm : m.Sound) {label : String} (hlx : m.dst.arena.isLive x)
    (hs : m.source? x = none) (hx : d.copy.ofDst.get? x = none)
    (hlabel : m.dst.label? x = some label)
    (hleaf : m.dst.arena.children x = [] ∨ m.dstClean x = false) :
    Incoming m d (fun _ => []) (.node (x, label) []) x := by
  have hpre : (RoseTree.node (x, label) []).preorder.map Prod.fst = [x] := by
    simp [RoseTree.preorder_node]
  have hne : ∀ {b}, m.dst.arena.isLive b → m.dst.arena.parent? b = some x → b ≠ x := by
    rintro b hb hp rfl
    exact hm.dst.arena.not_below_parent hb hp Arena.Below.self
  refine
    { depicts := Depicts.node hlabel rfl nofun
      value := rfl
      nodup := by rw [hpre]; exact List.nodup_singleton x
      new := ?_
      parent? := ?_
      clean := ?_
      children := ?_ } <;> rw [hpre]
  · intro n hn
    obtain rfl := List.mem_singleton.1 hn
    exact ⟨hlx, hs, hx⟩
  · intro n hn hnx
    exact absurd (List.mem_singleton.1 hn) hnx
  · intro q hq n hn hp
    obtain rfl := List.mem_singleton.1 hq
    rcases hleaf with hnil | hclean
    · have hmem := (hm.dst.arena.of_parent? hn hp).2
      rw [hnil] at hmem
      cases hmem
    · rw [hclean, List.mem_singleton]
      exact ⟨nofun, fun e => absurd e (hne hn hp)⟩
  · intro n hn
    obtain rfl := List.mem_singleton.1 hn
    refine (List.filter_eq_nil_iff.2 fun b hb => ?_).symm
    obtain ⟨hlb, hpb⟩ := hm.dst.arena.of_mem_children hlx hb
    simp [hne hlb hpb, h.not_settled_of_parent? hx hpb]

theorem incoming_whole (hm : m.Sound) (hlx : m.dst.arena.isLive x)
    (hx : d.copy.ofDst.get? x = none) (hclean : m.dstClean x)
    {u : RoseTree (NodeId × NodeData)} (hu : m.dst.view x = .ok u) :
    Incoming m d m.dst.arena.children (u.map fun e => (e.1, e.2.label)) x := by
  obtain ⟨hdep, hids⟩ := hm.dst.depicts_of_view hlx hu
  have hpre : (u.map fun e => (e.1, e.2.label)).preorder.map Prod.fst =
      m.dst.arena.preorder x := by
    rw [RoseTree.preorder_map, List.map_map, Arena.preorder, ← hids, RoseTree.preorder_map]
    rfl
  have hmem : ∀ {n}, n ∈ m.dst.arena.preorder x ↔
      m.dst.arena.isLive n ∧ m.dst.arena.Below x n := hm.dst.arena.mem_preorder_iff hlx
  refine
    { depicts := hdep.map fun _ e => e.label
      value := by
        rw [RoseTree.value_map]
        simpa using congrArg RoseTree.value hids
      nodup := by rw [hpre]; exact hm.dst.arena.nodup_preorder hlx
      new := ?_
      parent? := ?_
      clean := ?_
      children := fun n _ => rfl } <;> rw [hpre]
  · intro n hn
    obtain ⟨hln, hb⟩ := hmem.1 hn
    exact ⟨hln, (Mapping.dstClean_iff hm.dst hlx).1 hclean n hln hb,
      h.ofDst_eq_none_of_below hm hln hb hclean hx⟩
  · intro n hn hne
    obtain ⟨hln, hb⟩ := hmem.1 hn
    cases hb with
    | self => exact absurd rfl hne
    | step hp hb => exact ⟨_, hmem.2 ⟨hm.dst.arena.isLive_of_parent? hln hp, hb⟩, hp⟩
  · intro q hq n hn hp
    obtain ⟨hlq, hb⟩ := hmem.1 hq
    exact iff_of_true (Mapping.dstClean_of_below hm.dst hlq hb hclean)
      (hmem.2 ⟨hn, Arena.Below.step hp hb⟩)

/-! ### Bringing it in -/

/-- A node has a counterpart from the beginning, or since it was placed or brought in. -/
theorem ofDst_grown_iff (hi : Incoming m d C v x) {G : NodeSet}
    (hG : ∀ n, G.contains n ↔ d.grafted.contains n ∨ n ∈ v.preorder.map Prod.fst ∧ n ≠ x)
    {n : NodeId} (hn : m.dst.arena.isLive n) :
    (∃ w, (d.copy.grafted v z k).ofDst.get? n = some w) ↔
      (∃ s, m.source? n = some s) ∨ n ∈ insert x g.placed ∨ G.contains n := by
  have hkeep : ∀ {n w}, d.copy.ofDst.get? n = some w →
      (d.copy.grafted v z k).ofDst.get? n = some w := fun hw => hi.ofDst_iff.2 (Or.inr hw)
  constructor
  · rintro ⟨w, hw⟩
    rcases hi.ofDst_iff.1 hw with hm' | hw
    · by_cases he : n = x
      · exact Or.inr (Or.inl (Set.mem_insert_iff.2 (Or.inl he)))
      · exact Or.inr (Or.inr ((hG n).2 (Or.inr ⟨Incoming.mem_of_mem_copies hm', he⟩)))
    · rcases (h.ofDst_iff hn).1 ⟨w, hw⟩ with hs | hpn | hgn
      · exact Or.inl hs
      · exact Or.inr (Or.inl (Set.mem_insert_of_mem _ hpn))
      · exact Or.inr (Or.inr ((hG n).2 (Or.inl hgn)))
  · rintro (hs | hpn | hgn)
    · exact ((h.ofDst_iff hn).2 (Or.inl hs)).imp fun _ => hkeep
    · rcases Set.mem_insert_iff.1 hpn with rfl | hpn
      · exact hi.exists_ofDst hi.mem_self
      · exact ((h.ofDst_iff hn).2 (Or.inr (Or.inl hpn))).imp fun _ => hkeep
    · rcases (hG n).1 hgn with hgn | ⟨hnX, -⟩
      · exact ((h.ofDst_iff hn).2 (Or.inr (Or.inr hgn))).imp fun _ => hkeep
      · exact hi.exists_ofDst hnX

/-- A node is brought in below another one if that is clean. -/
theorem grafted_grown_iff (hp : m.dst.arena.parent? x = some y)
    (hz : d.copy.ofDst.get? y = some z) (hi : Incoming m d C v x) {G : NodeSet}
    (hG : ∀ n, G.contains n ↔ d.grafted.contains n ∨ n ∈ v.preorder.map Prod.fst ∧ n ≠ x)
    {n : NodeId} (hn : m.dst.arena.isLive n) :
    G.contains n ↔ ∃ q, m.dst.arena.parent? n = some q ∧ m.dstClean q ∧
      ∃ w, (d.copy.grafted v z k).ofDst.get? q = some w := by
  refine (hG n).trans ⟨?_, ?_⟩
  · rintro (hgn | ⟨hnX, hne⟩)
    · obtain ⟨q, hq, hclean, w, hw⟩ := (h.grafted_iff hn).1 hgn
      exact ⟨q, hq, hclean, w, hi.ofDst_iff.2 (Or.inr hw)⟩
    · obtain ⟨q, hq, hpq⟩ := hi.parent? n hnX hne
      exact ⟨q, hpq, (hi.clean q hq n hn hpq).2 hnX, hi.exists_ofDst hq⟩
  · rintro ⟨q, hpq, hclean, w, hw⟩
    rcases hi.ofDst_iff.1 hw with hm' | hw
    · have hnX := (hi.clean q (Incoming.mem_of_mem_copies hm') n hn hpq).1 hclean
      refine Or.inr ⟨hnX, ?_⟩
      rintro rfl
      rw [hp] at hpq
      obtain rfl := Option.some.inj hpq
      exact hi.not_mem hz (Incoming.mem_of_mem_copies hm')
    · exact Or.inl ((h.grafted_iff hn).2 ⟨q, hpq, hclean, w, hw⟩)

section Grown

variable (hm : m.Sound) (hlx : m.dst.arena.isLive x) (hp : m.dst.arena.parent? x = some y)
  (hz : d.copy.ofDst.get? y = some z) (hi : Incoming m d C v x) {K₁ K₂ : List NodeId}
  (hK : m.dst.arena.children y = K₁ ++ x :: K₂)
  (hgap : Gap d.copy.toDst.get? d.settled (d.copy.arena.children z) K₁ K₂ k)

include hm hlx hp hz hi hK hgap

/-- The children of counterparts are in line after a part of the destination has been put into
its gap. -/
theorem inLine_grown {S : NodeId → Bool}
    (hS : ∀ n, S n = (decide (n ∈ v.preorder.map Prod.fst) || d.settled n)) {q w : NodeId}
    (hqw : (d.copy.grafted v z k).ofDst.get? q = some w) :
    InLine (d.copy.grafted v z k).toDst.get? S ((d.copy.grafted v z k).arena.children w)
      (m.dst.arena.children q) := by
  have hg := grafted_spec h.sound.wf (h.isLive_of_ofDst hz) hi.depicts k
  have hnew : ∀ {n u}, (n, u) ∈ d.copy.copies v → (d.copy.grafted v z k).toDst.get? u = some n :=
    fun hn => (toDst_grafted_iff hg.nodup).2 (Or.inl hn)
  rcases hi.ofDst_iff.1 hqw with hqw | hq
  · -- a new node has the children that came with it
    have hch := (hg.copied q w hqw).2
    rw [InLine, filterMap_eq_of_forall₂ (hch.flip.imp fun _ _ he => hnew he)]
    exact (List.filter_congr fun b _ => hS b).trans
      ((hi.children q (Incoming.mem_of_mem_copies hqw)).trans
        (List.filter_congr fun b _ => (hS b).symm))
  have hlw := h.isLive_of_ofDst hq
  have hold : ∀ u ∈ d.copy.arena.children w,
      (d.copy.grafted v z k).toDst.get? u = d.copy.toDst.get? u := fun u hu =>
    toDst_grafted_of_isLive h.sound.wf (h.sound.wf.isLive_of_mem hlw hu)
  -- of the part only `x` can be a value here, and only under `y`
  have hval : ∀ n, (∃ u ∈ d.copy.arena.children w, d.copy.toDst.get? u = some n) ∨
      n ∈ m.dst.arena.children q → n ∈ v.preorder.map Prod.fst → n = x ∧ q = y := by
    rintro n (⟨u, hu, hun⟩ | hn) hnX
    · exact absurd hnX (hi.not_mem (h.sound.toDst (h.sound.wf.isLive_of_mem hlw hu) hun).2)
    · have hpn := hm.dst.arena.parent?_of_mem (h.sound.isLive_of_ofDst hq) hn
      by_cases he : n = x
      · subst he
        rw [hp] at hpn
        exact ⟨rfl, (Option.some.inj hpn).symm⟩
      · obtain ⟨q', hq', hpq⟩ := hi.parent? n hnX he
        rw [hpn] at hpq
        obtain rfl := Option.some.inj hpq
        exact absurd hq' (hi.not_mem hq)
  have hchildren := hg.children hlw
  by_cases he : w = z
  · subst he
    obtain rfl := h.sound.ofDst_inj hq hz
    rw [if_pos rfl, Nat.min_eq_left hgap.le_length] at hchildren
    have hnx := not_mem_of_nodup_middle
      (hK ▸ hm.dst.arena.nodup_children (h.sound.isLive_of_ofDst hq))
    have hgap' : Gap (d.copy.grafted v w k).toDst.get? d.settled (d.copy.arena.children w)
        K₁ K₂ k := by
      obtain ⟨L₁, L₂, hL, hk, h₁, h₂⟩ := hgap
      rw [hL] at hold
      refine ⟨L₁, L₂, hL, hk, ?_, ?_⟩
      · rwa [List.filterMap_congr fun u hu => hold u (List.mem_append_left _ hu)]
      · rwa [List.filterMap_congr fun u hu => hold u (List.mem_append_right _ hu)]
    have hline := hgap'.inLine (T := fun n => decide (x = n) || d.settled n) (hnew hi.top_mem)
      (fun u hu hux => ?_) hnx.1 hnx.2 fun n => rfl
    · rw [hchildren, hK]
      refine hline.congr (fun u _ => rfl) fun n hn => ?_
      rw [hS]
      by_cases hxn : x = n
      · subst hxn
        simp [hi.mem_self]
      · have hnX : n ∉ v.preorder.map Prod.fst := by
          intro hnX
          refine hxn (hval n ?_ hnX).1.symm
          rw [← hK] at hn
          rcases hn with hn | hn
          · obtain ⟨u, hu, hun⟩ := hn
            rcases (List.mem_insertIdx hgap.le_length).1 hu with rfl | hu
            · exact absurd (Option.some.inj ((hnew hi.top_mem).symm.trans hun)) hxn
            · exact Or.inl ⟨u, hu, (hold u hu).symm.trans hun⟩
          · exact Or.inr hn
        rw [decide_eq_false hnX, decide_eq_false hxn]
    · rw [hold u hu] at hux
      exact hi.not_mem (h.sound.toDst (h.sound.wf.isLive_of_mem hlw hu) hux).2 hi.mem_self
  · rw [if_neg he] at hchildren
    rw [hchildren]
    refine (h.inLine hq).congr hold fun n hn => ?_
    have hnX : n ∉ v.preorder.map Prod.fst := by
      intro hnX
      obtain ⟨-, rfl⟩ := hval n hn hnX
      exact he (Option.some.inj (hq.symm.trans hz))
    rw [hS, decide_eq_false hnX, Bool.false_or]

/-- **The invariant after a part of the destination has been brought in.** -/
theorem grown (hy : y ∈ g.opened) {G : NodeSet}
    (hG : ∀ n, G.contains n ↔ d.grafted.contains n ∨ n ∈ v.preorder.map Prod.fst ∧ n ≠ x)
    {change : Change} {action : Action}
    (hstep : Step m.dst d.copy change action (d.copy.grafted v z k)) :
    Aligned m { g with named := insert x g.named, placed := insert x g.placed,
                       told := g.told ++ [action.unplaced] }
      ⟨d.copy.grafted v z k, d.inOrder.add x, G, d.edits ++ [edit false change action]⟩ := by
  have hg := grafted_spec h.sound.wf (h.isLive_of_ofDst hz) hi.depicts k
  have hxX := hi.mem_self
  have hset : ∀ n, Draft.settled
      ⟨d.copy.grafted v z k, d.inOrder.add x, G, d.edits ++ [edit false change action]⟩ n =
        (decide (n ∈ v.preorder.map Prod.fst) || d.settled n) := hi.settled_grown hG _ _
  have hmono : ∀ {n}, d.settled n → Draft.settled
      ⟨d.copy.grafted v z k, d.inOrder.add x, G, d.edits ++ [edit false change action]⟩ n := by
    intro n hn
    rw [hset, hn, Bool.or_true]
  have hkeep : ∀ {n w}, d.copy.ofDst.get? n = some w →
      (d.copy.grafted v z k).ofDst.get? n = some w := fun hw => hi.ofDst_iff.2 (Or.inr hw)
  have hsound := h.sound.grafted (h.isLive_of_ofDst hz) hi.depicts hi.nodup hi.new k
  exact
    { sound := hsound
      root := hkeep h.root
      copied := by
        intro s hs
        obtain ⟨w, hw, hlw, ho⟩ := h.copied hs
        exact ⟨w, hw, hg.isLive hlw, (origin?_of_grafted hg hlw).trans ho⟩
      inLine := h.inLine_grown hm hlx hp hz hi hK hgap hset
      anchored := by
        intro n q hn hq
        rw [hset, Bool.or_eq_true, decide_eq_true_iff] at hn
        rcases hn with hn | hn
        · by_cases he : n = x
          · subst he
            rw [hp] at hq
            obtain rfl := Option.some.inj hq
            exact ⟨z, hkeep hz⟩
          · obtain ⟨q', hq', hpq⟩ := hi.parent? n hn he
            rw [hq] at hpq
            obtain rfl := Option.some.inj hpq
            exact hi.exists_ofDst hq'
        · obtain ⟨z', hz'⟩ := h.anchored hn hq
          exact ⟨z', hkeep hz'⟩
      settled_of_placed := by
        intro n hn hne
        rcases Set.mem_insert_iff.1 hn with rfl | hn
        · rw [hset, decide_eq_true hxX, Bool.true_or]
        · exact hmono (h.settled_of_placed hn hne)
      root_placed := Set.mem_insert_of_mem _ h.root_placed
      opened_of_placed := by
        intro n q hn hq
        rcases Set.mem_insert_iff.1 hn with rfl | hn
        · rw [hp] at hq
          obtain rfl := Option.some.inj hq
          exact hy
        · exact h.opened_of_placed hn hq
      placed_of_opened := h.placed_of_opened.trans (Set.subset_insert _ _)
      opened_of_arranged := h.opened_of_arranged
      settled_of_arranged := by
        intro q z' b w' hq hz' hbq hw' hpw'
        rcases hi.ofDst_iff.1 hw' with hm' | hw'
        · rw [hset, decide_eq_true (Incoming.mem_of_mem_copies hm'), Bool.true_or]
        · have hlw' := h.isLive_of_ofDst hw'
          have hpw : d.copy.arena.parent? w' = some z' := (hg.parent? hlw').symm.trans hpw'
          have hlz' := h.sound.wf.isLive_of_parent? hlw' hpw
          rcases hi.ofDst_iff.1 hz' with hm' | hz'
          · exact absurd hlz' (hg.not_isLive (List.mem_map_of_mem hm'))
          · exact hmono (h.settled_of_arranged hq hz' hbq hw' hpw)
      ofDst_iff := h.ofDst_grown_iff hi hG
      grafted_iff := h.grafted_grown_iff hp hz hi hG
      named := by
        intro n w hn hw
        rcases hi.ofDst_iff.1 hw with hm' | hw
        · exact label?_of_mem hg hm'
        · have hnX := hi.not_mem hw
          refine (label?_of_grafted hg (h.isLive_of_ofDst hw)).trans (h.named ?_ hw)
          rcases hn with hn | hgn
          · refine Or.inl ((Set.mem_insert_iff.1 hn).resolve_left ?_)
            rintro rfl
            exact hnX hxX
          · exact Or.inr (((hG n).1 hgn).resolve_right fun e => hnX e.1)
      unnamed := by
        intro s w hs (hw : d.copy.ofSrc.get? s = some w) hnot
        have hlw := (h.origin?_of_ofSrc hs hw).1
        refine (label?_of_grafted hg hlw).trans (h.unnamed hs hw fun n hn hm' => ?_)
        exact hnot n hn (Set.mem_insert_of_mem _ hm')
      unmoved := by
        intro t s w u ht hpt (hw : d.copy.ofSrc.get? t = some w) hu hnot
        have hlw := (h.origin?_of_ofSrc ht hw).1
        refine (hg.parent? hlw).trans (h.unmoved ht hpt hw hu fun n hn hm' => ?_)
        exact hnot n hn (Set.mem_insert_of_mem _ hm')
      inherited := by
        intro s w hs (hw : d.copy.ofSrc.get? s = some w) hnot
        have hlw := (h.origin?_of_ofSrc hs hw).1
        have hne : w ≠ z := by
          rintro rfl
          exact hnot y (h.counterpart?_of_ofDst hs hw hz) hy
        have hch := hg.children hlw
        rw [if_neg hne] at hch
        exact (congrArg (List.Sublist · _) hch).mpr (h.inherited hs hw hnot)
      run := fun hc => Run.snoc (h.run hc) hstep hsound
      told := by
        refine (congrArg (List.map Action.unplaced)
          (script_performed d (d.copy.grafted v z k) change action)).trans ?_
        rw [List.map_append, h.told]
        rfl }

end Grown

end Aligned

end TreeScript.Draft
