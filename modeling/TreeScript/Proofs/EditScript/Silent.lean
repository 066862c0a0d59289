/-
**When there is nothing to do.**

A script is empty if and only if there is nothing to do: the trees are isomorphic, and every node
is paired with the node at its place.  An empty script leaves the source as it is, so that the
source itself is the destination, node for node; and where every node is at its place, each step
of the plan comes to nothing.

Main definitions:

* `TreeScript.Mapping.InPlace` — **every source node is paired with the node at its place**.

Main results:

* `TreeScript.Mapping.Sound.inPlace_of_editScript` — an empty script leaves nothing to do;
* `TreeScript.Mapping.InPlace.editScript_eq_nil` — and nothing is done where all is in place;
* `TreeScript.Mapping.exists_addSubtrees` — pairing isomorphic trees pairs the nodes in place;
* `TreeScript.Mapping.editScript_eq_nil_iff` — **the script is empty if and only if all is in
  place**.
-/

import TreeScript.Proofs.EditScript.Faithful
import TreeScript.Proofs.Mapping.Pairs
import TreeScript.Proofs.Tree.Addresses

set_option relaxedAutoImplicit false
set_option autoImplicit false

namespace TreeScript.Mapping

variable {m : Mapping} {src dst : Tree} {s x y b : NodeId}

/-- **Every source node is paired with the node at its place** in the destination, and the trees
are isomorphic. -/
structure InPlace (m : Mapping) : Prop where
  isomorphic : m.src.isomorphicTo m.dst = .ok true
  paired : ∀ s, m.src.contains s → ∃ x, m.src.SamePlace m.dst s x ∧ m.has s x

/-! ### An empty script leaves nothing to do -/

/-- **If the script is empty, everything is in place already.** -/
theorem Sound.inPlace_of_editScript (hm : m.Sound) (h : m.editScript false = .ok []) :
    m.InPlace := by
  have hr : m.rootsPaired := by
    by_contra hr
    rw [editScript, if_neg hr] at h
    cases h
  rw [rootsPaired, beq_iff_eq] at hr
  obtain ⟨d, -, hscript, hf⟩ := hm.exists_draft hr
  obtain ⟨c₀, hc₀, hstart⟩ := WorkingCopy.exists_start hm
  obtain ⟨r, hrun, hin⟩ := (hstart.inStep hm.src).run hm.dst (hf.run hc₀)
  -- nothing has been replayed
  have hnil : d.edits.filterMap Edit.report? = [] := Except.ok.inj (hscript.symm.trans h)
  rw [hnil] at hrun
  obtain rfl := Except.ok.inj hrun
  have hmatch := hf.matching_landsOn hin
  obtain ⟨n, hn, hland⟩ := hf.root_landsOn hin
  rw [Replay.root_start, Option.some_inj] at hn
  subst hn
  rw [Replay.arena_start] at hmatch
  have hdata : ∀ s x, d.LandsOn (Replay.start m.src m.dst) s x →
      m.src.arena.data? s = m.dst.arena.data? x := by
    intro s x hsx
    have hd := hf.data?_of_landsOn hm hin hsx
    rwa [Replay.arena_start] at hd
  exact
    { isomorphic := (Tree.isomorphicTo_iff hm.src hm.dst).2 ⟨_, hmatch, hland, hdata⟩
      paired := by
        intro s hs
        have hls := hm.src.contains_iff.1 hs
        obtain ⟨x, hsx⟩ := hmatch.exists_right hls
        exact ⟨x, Tree.samePlace_of_matching hm.src hm.dst hmatch hland hsx,
          has_iff.2 ((hf.landsOn_iff hm hin hls).1 hsx)⟩ }

/-! ### Nothing is done where all is in place -/

namespace InPlace

variable (h : m.InPlace) (hm : m.Sound)

include h hm

theorem matching : Arena.Matching m.src.arena m.dst.arena (m.src.SamePlace m.dst) :=
  Tree.matching_samePlace hm.src hm.dst h.isomorphic

theorem source?_of_samePlace (hsx : m.src.SamePlace m.dst s x) : m.source? x = some s := by
  have hmatch := h.matching hm
  have hls := hmatch.isLive_left hsx
  obtain ⟨y, hsy, hy⟩ := h.paired s (hm.src.contains_iff.2 hls)
  obtain rfl := hmatch.right_unique hsx hsy
  exact (hm.right hls (has_iff.1 hy)).2

/-- Every destination node is paired, and with the node at its place. -/
theorem exists_samePlace (hx : m.dst.arena.isLive x) :
    ∃ s, m.src.SamePlace m.dst s x ∧ m.source? x = some s := by
  obtain ⟨s, hsx⟩ := (h.matching hm).exists_left hx
  exact ⟨s, hsx, h.source?_of_samePlace hm hsx⟩

theorem relabeling_eq_nil (hsx : m.src.SamePlace m.dst s x) : m.relabeling s x = [] := by
  have hlabel : m.src.label? s = m.dst.label? x :=
    congrArg (Option.map NodeData.label) (hsx.data? hm.src hm.dst h.isomorphic)
  rw [relabeling, hlabel]
  cases m.dst.label? x with
  | none => rfl
  | some label => exact if_pos rfl

theorem bringing_eq_nil (hsx : m.src.SamePlace m.dst s x) (hp : m.dst.arena.parent? x = some y) :
    m.bringing s y = [] := by
  obtain ⟨p, hps, hpy⟩ := (h.matching hm).symm.parent? hm.dst.arena hm.src.arena hsx hp
  rw [bringing, if_pos (hps.trans (h.source?_of_samePlace hm hpy).symm)]

theorem ownTargets_eq (hsx : m.src.SamePlace m.dst s x) :
    m.ownTargets x = m.dst.arena.children x := by
  have hmatch := h.matching hm
  rw [ownTargets, h.source?_of_samePlace hm hsx]
  refine List.filter_eq_self.2 fun b hb => ?_
  have hlx := hmatch.isLive_right hsx
  obtain ⟨hlb, hpb⟩ := hm.dst.arena.of_mem_children hlx hb
  obtain ⟨t, htb, ht⟩ := h.exists_samePlace hm hlb
  -- the parent of the node at the place of `b` is the node at the place of `x`
  obtain ⟨p, hp, hpx⟩ := hmatch.symm.parent? hm.dst.arena hm.src.arena htb hpb
  obtain rfl := hmatch.left_unique hsx hpx
  simp [ht, hp]

/-- Children that are in place stay there. -/
theorem stay_eq (hsx : m.src.SamePlace m.dst s x) : m.stay x = m.ownTargets x := by
  have hmatch := h.matching hm
  have hs := h.source?_of_samePlace hm hsx
  have hlx := hmatch.isLive_right hsx
  have hsources : (m.ownTargets x).filterMap m.source? = m.src.arena.children s := by
    rw [h.ownTargets_eq hm hsx]
    exact filterMap_eq_of_forall₂
      ((hmatch.children hsx).flip.imp fun _ _ hck => h.source?_of_samePlace hm hck)
  exact (stay_sublist x).eq_of_length_le
    (length_le_stay hm hlx hs (List.Sublist.refl _) (hsources ▸ List.Sublist.refl _))

theorem arranging_eq_nil (hsx : m.src.SamePlace m.dst s x) : m.arranging x = [] := by
  rw [arranging, List.flatMap_eq_nil_iff]
  intro b hb
  rw [arrangingOne, if_pos (h.stay_eq hm hsx ▸ hb)]

theorem visiting_eq_nil (hx : m.dst.arena.isLive x) : m.visiting x = [] := by
  obtain ⟨s, hsx, hs⟩ := h.exists_samePlace hm hx
  unfold visiting
  split
  · rfl
  · split
    case h_1 => rfl
    case h_2 y hp =>
      rw [hs]
      simp only [h.relabeling_eq_nil hm hsx, h.bringing_eq_nil hm hsx hp,
        h.arranging_eq_nil hm hsx, List.append_nil]

theorem aligning_eq_nil : m.aligning = [] := by
  have hroot : m.src.SamePlace m.dst m.src.root m.dst.root := Tree.SamePlace.root
  have hvisits : m.dst.iter.flatMap m.visiting = [] := by
    rw [List.flatMap_eq_nil_iff]
    intro x hx
    exact h.visiting_eq_nil hm (hm.dst.mem_iter_iff.1 hx)
  rw [aligning, h.relabeling_eq_nil hm hroot, h.arranging_eq_nil hm hroot, hvisits]
  rfl

/-- **Nothing is done where all is in place.** -/
theorem editScript_eq_nil : m.editScript false = .ok [] := by
  have hr := h.source?_of_samePlace hm Tree.SamePlace.root
  obtain ⟨d, -, hscript, hf⟩ := hm.exists_draft hr
  obtain ⟨l, -, hmem, htold⟩ := hf.told
  -- no source node is left over
  have hl : l = [] := by
    rw [List.eq_nil_iff_forall_not_mem]
    intro s hs
    obtain ⟨hls, hnone⟩ := (hmem s).1 hs
    obtain ⟨x, -, hx⟩ := h.paired s (hm.src.contains_iff.2 hls)
    rw [has_iff, hnone] at hx
    cases hx
  rw [hl, h.aligning_eq_nil hm] at htold
  rw [hscript, List.map_eq_nil_iff.1 htold]

/-- Every node of both trees is paired. -/
theorem covers_all : (∀ s, m.src.contains s → m.hasSrc s) ∧ ∀ x, m.dst.contains x → m.hasDst x := by
  constructor
  · intro s hs
    obtain ⟨x, -, hx⟩ := h.paired s hs
    exact hasSrc_iff.2 ⟨x, has_iff.1 hx⟩
  · intro x hx
    obtain ⟨s, -, hs⟩ := h.exists_samePlace hm (hm.dst.contains_iff.1 hx)
    rw [hasDst, hs]
    rfl

end InPlace

/-- **All is in place if nodes are paired that have the same path**, as long as child indices fit
into a segment of a path. -/
theorem inPlace_iff_pathOf (hm : m.Sound)
    (hsize : ∀ n, m.dst.contains n → (m.dst.arena.children n).length < 2 ^ 32) :
    m.InPlace ↔ m.src.isomorphicTo m.dst = .ok true ∧ ∀ s, m.src.contains s →
      ∃ x, m.dst.contains x ∧ m.src.pathOf s = m.dst.pathOf x ∧ m.has s x := by
  have hroute : m.src.isomorphicTo m.dst = .ok true → ∀ {s x}, m.src.SamePlace m.dst s x →
      m.src.pathOf s = m.dst.pathOf x := by
    intro hiso s x hsx
    have hmatch := Tree.matching_samePlace hm.src hm.dst hiso
    rw [Tree.pathOf_eq_ok (hmatch.isLive_left hsx), Tree.pathOf_eq_ok (hmatch.isLive_right hsx),
      Tree.route_eq_of_matching hm.src hm.dst hmatch Tree.SamePlace.root hsx]
  constructor
  · intro h
    refine ⟨h.isomorphic, fun s hs => ?_⟩
    obtain ⟨x, hsx, hx⟩ := h.paired s hs
    exact ⟨x, hm.dst.contains_iff.2 ((h.matching hm).isLive_right hsx),
      hroute h.isomorphic hsx, hx⟩
  · rintro ⟨hiso, hall⟩
    refine ⟨hiso, fun s hs => ?_⟩
    obtain ⟨x, hx, hpath, hsx⟩ := hall s hs
    have hlx := hm.dst.contains_iff.1 hx
    obtain ⟨y, hsy⟩ := Tree.SamePlace.exists_right hm.src hm.dst hiso (hm.src.contains_iff.1 hs)
    have hly := (Tree.matching_samePlace hm.src hm.dst hiso).isLive_right hsy
    -- both have the path of `s`
    rw [hroute hiso hsy, Tree.pathOf_eq_ok hly, Tree.pathOf_eq_ok hlx, Except.ok.injEq,
      NodePath.mk.injEq] at hpath
    obtain rfl := hm.dst.route_inj (fun n hn => (hsize n (hm.dst.contains_iff.2 hn)).le) hly hlx
      hpath
    exact ⟨y, hsy, hsx⟩

/-! ### Pairing isomorphic trees -/

namespace Pairs

variable {l : List (NodeId × NodeId)}

/-- **Pairs of nodes that carry the same data are added one by one**, with the same outcome if they
have to fit. -/
theorem exists_foldlM (hs : src.WellFormed) (hd : dst.WellFormed)
    (hdata : ∀ p ∈ l, src.arena.isLive p.1 ∧ dst.arena.isLive p.2 ∧
      src.arena.data? p.1 = dst.arena.data? p.2)
    (hfst : (l.map Prod.fst).Nodup) (hsnd : (l.map Prod.snd).Nodup) :
    ∃ m, l.foldlM (fun m p => m.add p.1 p.2) (empty src dst) = .ok m ∧
      l.foldlM (fun m p => m.addChecked p.1 p.2) (empty src dst) = .ok m ∧ Pairs src dst l m := by
  have hstep : ∀ l₁ p l₂ m, l = l₁ ++ p :: l₂ → Pairs src dst l₁ m →
      ∃ m', m.add p.1 p.2 = .ok m' ∧ m.addChecked p.1 p.2 = .ok m' ∧
        Pairs src dst (l₁ ++ [p]) m' := by
    rintro l₁ p l₂ m rfl h
    obtain ⟨hls, hlx, hp⟩ := hdata p (List.mem_append_right _ List.mem_cons_self)
    rw [List.map_append, List.map_cons] at hfst hsnd
    exact h.snoc hls hlx (congrArg (Option.map NodeData.kind) hp)
      (not_mem_of_nodup_middle hfst).1 (not_mem_of_nodup_middle hsnd).1
  obtain ⟨m, hm, h⟩ := foldlM_ok (Pairs src dst) (nil hs hd)
    fun l₁ p l₂ m hl h => (hstep l₁ p l₂ m hl h).imp fun _ h' => ⟨h'.1, h'.2.2⟩
  obtain ⟨m', hm', h'⟩ := foldlM_ok (Pairs src dst) (nil hs hd)
    fun l₁ p l₂ m hl h => (hstep l₁ p l₂ m hl h).imp fun _ h' => h'.2
  obtain rfl := h.eq.trans h'.eq.symm
  exact ⟨m, hm, hm', h⟩

end Pairs

/-- **Isomorphic trees, paired subtree by subtree from the roots on, are in place**, with the same
outcome if the pairs have to fit. -/
theorem exists_addSubtrees (hs : src.WellFormed) (hd : dst.WellFormed)
    (hiso : src.isomorphicTo dst = .ok true) :
    ∃ m, (empty src dst).addSubtrees src.root dst.root = .ok m ∧
      (empty src dst).addSubtreesChecked src.root dst.root = .ok m ∧ m.Sound ∧ m.InPlace := by
  have hmatch := Tree.matching_samePlace hs hd hiso
  have hwalk := hmatch.preorder hs.arena hd.arena Tree.SamePlace.root
  have hlength := hwalk.length_eq
  have hzip : (empty src dst).inStep src.root dst.root =
      .ok ((src.arena.preorder src.root).zip (dst.arena.preorder dst.root)) := by
    rw [inStep, empty, Tree.descendants_eq_ok hs.isLive_root, Tree.descendants_eq_ok hd.isLive_root]
    rfl
  have hfst := List.map_fst_zip hlength.le
  have hsnd := List.map_snd_zip hlength.ge
  obtain ⟨m, hadd, hchecked, h⟩ := Pairs.exists_foldlM hs hd
    (fun p hp => by
      have hp' := List.forall₂_zip hwalk hp
      exact ⟨hmatch.isLive_left hp', hmatch.isLive_right hp', hp'.data? hs hd hiso⟩)
    (hfst.symm ▸ hs.arena.nodup_preorder hs.isLive_root)
    (hsnd.symm ▸ hd.arena.nodup_preorder hd.isLive_root)
  refine ⟨m, ?_, ?_, h.sound, ?_⟩
  · rw [addSubtrees, hzip]
    exact hadd
  · rw [addSubtreesChecked, hzip]
    have hiso' : (empty src dst).src.isIsomorphic src.root (empty src dst).dst dst.root =
      .ok true := hiso
    rw [hiso']
    exact hchecked
  · obtain ⟨-, hm, rfl, rfl, hiff⟩ := h
    refine ⟨hiso, fun s hs' => ?_⟩
    have hls := hs.contains_iff.1 hs'
    have hmem : s ∈ m.src.arena.preorder m.src.root := hs.mem_preorder_iff.2 hls
    rw [← hfst] at hmem
    obtain ⟨p, hp, rfl⟩ := List.mem_map.1 hmem
    exact ⟨p.2, List.forall₂_zip hwalk hp, has_iff.2 ((hiff hls).2 hp)⟩

/-! ### Main result -/

/-- **The script is empty if and only if all is in place**: the trees are isomorphic, and every
source node is paired with the node at its place, which is the one with its path.  Then all nodes
of both trees are paired; and all is in place after isomorphic trees have been paired from the
roots on. -/
theorem editScript_eq_nil_iff (hs : src.Built) (hd : dst.Built) :
    (∀ m, Filled src dst m → (m.editScript false = .ok [] ↔ m.InPlace) ∧
      (m.InPlace → (∀ s, src.contains s → m.hasSrc s) ∧ ∀ x, dst.contains x → m.hasDst x) ∧
      ((∀ n, dst.contains n → (dst.arena.children n).length < 2 ^ 32) →
        (m.InPlace ↔ src.isomorphicTo dst = .ok true ∧ ∀ s, src.contains s →
          ∃ x, dst.contains x ∧ src.pathOf s = dst.pathOf x ∧ m.has s x))) ∧
    (src.isomorphicTo dst = .ok true →
      ∃ m, (empty src dst).addSubtrees src.root dst.root = .ok m ∧
        (empty src dst).addSubtreesChecked src.root dst.root = .ok m ∧
        m.editScript false = .ok []) := by
  constructor
  · intro m hm
    obtain ⟨hsound, rfl, rfl⟩ := hm.sound hs.wellFormed hd.wellFormed
    exact ⟨⟨hsound.inPlace_of_editScript, fun h => h.editScript_eq_nil hsound⟩,
      fun h => h.covers_all hsound, inPlace_iff_pathOf hsound⟩
  · intro hiso
    obtain ⟨m, hadd, hchecked, hm, h⟩ := exists_addSubtrees hs.wellFormed hd.wellFormed hiso
    exact ⟨m, hadd, hchecked, h.editScript_eq_nil hm⟩

/-- Two leaves that have changed places in the mapping, but not in the tree, are not in place; they
are when the tree is paired with itself. -/
theorem editScript_eq_nil_iff_crossing : ∃ src m,
    Tree.fan ⟨"item", 0⟩ "list" ["a", "a"] = .ok src ∧ pairing src src crossing = .ok m ∧
    (m.editScript false = .ok [] ↔ m.InPlace) ∧ src.isomorphicTo src = .ok true ∧
    ∃ m', (empty src src).addSubtrees src.root src.root = .ok m' ∧
      (empty src src).addSubtreesChecked src.root src.root = .ok m' ∧
      m'.editScript false = .ok [] :=
  have hbuilt := Tree.built_fan ⟨"item", 0⟩ "list" ["a", "a"] rfl
  ⟨_, _, rfl, rfl, ((editScript_eq_nil_iff hbuilt hbuilt).1 _
      (filled_pairing crossing (by decide) rfl)).1, rfl,
    (editScript_eq_nil_iff hbuilt hbuilt).2 rfl⟩

end TreeScript.Mapping
