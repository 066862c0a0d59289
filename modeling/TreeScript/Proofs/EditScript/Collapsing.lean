/-
**Two ways to find the subtrees that go in one piece.**

The source nodes below which nothing has a counterpart are found in one pass from the bottom up,
in which a node is decided by its children; asked for one node, the whole subtree is looked
through.  Both say the same.  When the copy of a node without counterpart has its turn to be taken
out, only its parent is looked at.  That is enough to find out whether anything above goes away in
one piece: what is below a clean node is clean, so that a node under a clean parent is below a
largest clean subtree.

Main definitions:

* `TreeScript.Draft.Turn` — a node of the working copy has its turn to be taken out;
* `TreeScript.Mapping.FindsClean` — **both ways agree, and a node is passed over if and only if
  something above it goes in one piece**.

Main results:

* `TreeScript.Tree.WellFormed.underClean_iff` — looking at the parent only is enough;
* `TreeScript.Draft.Aligned.exists_turn` — every source node without counterpart has its turn;
* `TreeScript.Mapping.findsClean` — **so it is for every mapping**.
-/

import TreeScript.Proofs.EditScript.Coverage
import TreeScript.Proofs.Tree.Measures

set_option relaxedAutoImplicit false
set_option autoImplicit false

namespace TreeScript

/-! ### What is above a node -/

namespace Tree.WellFormed

variable {t : Tree} {kept : NodeId → Bool} {n q : NodeId}

/-- What is above a node is the parent and what that is below. -/
theorem mem_above_iff (ht : t.WellFormed) (hn : t.arena.isLive n) :
    q ∈ (t.arena.ancestors n).drop 1 ↔ ∃ p, t.arena.parent? n = some p ∧ t.arena.Below q p := by
  cases hp : t.arena.parent? n with
  | none =>
      rw [ht.arena.ancestors_of_none hn hp]
      simp
  | some p =>
      rw [ht.arena.ancestors_of_some hn hp]
      simp [ht.arena.mem_ancestors_iff (ht.arena.isLive_of_parent? hn hp)]

/-- **A node has a clean parent if and only if there is a piece above it.** -/
theorem underClean_iff (ht : t.WellFormed) (hn : t.arena.isLive n) :
    t.underClean kept n ↔ ∃ q ∈ (t.arena.ancestors n).drop 1, t.whole kept q := by
  constructor
  · intro h
    obtain ⟨p, hp, hclean⟩ := (Option.any_eq_true ..).1 h
    obtain ⟨q, -, hb, hcq, hq⟩ := ht.exists_top (ht.arena.isLive_of_parent? hn hp) hclean
    refine ⟨q, (ht.mem_above_iff hn).2 ⟨p, hp, hb⟩, ?_⟩
    -- the piece has more than one node, for `n` is another
    have hleaf : (t.arena.children q).isEmpty = false := by
      rw [← Bool.not_eq_true]
      intro hleaf
      obtain rfl := ht.eq_of_below_leaf hn (Arena.Below.step hp hb) hleaf
      exact ht.arena.not_below_parent hn hp hb
    simp [whole, hcq, hleaf, hq]
  · rintro ⟨q, hmem, hq⟩
    obtain ⟨p, hp, hb⟩ := (ht.mem_above_iff hn).1 hmem
    simp only [whole, Bool.and_eq_true] at hq
    rw [underClean_of_parent? hp]
    exact ht.clean_of_below (ht.arena.isLive_of_parent? hn hp) hb hq.1.1

end Tree.WellFormed

/-- A script takes out a subtree if and only if it does so at least once. -/
theorem Action.treeDelete_mem_iff {script : List Action} {q : NodeId} :
    .treeDelete q ∈ script ↔ 0 < occurrences script .treeDelete (.src q) := by
  rw [occurrences, List.countP_pos_iff]
  constructor
  · intro h
    exact ⟨_, h, decide_eq_true ⟨rfl, rfl⟩⟩
  · rintro ⟨a, ha, hkind⟩
    obtain ⟨hkind, hnode⟩ := of_decide_eq_true hkind
    cases a with
    | treeDelete s =>
        cases hnode
        exact ha
    | _ => cases hkind

/-- The pieces that a script takes out. -/
theorem Mapping.Covers.treeDelete_mem_iff {m : Mapping} {script : List Action} {q : NodeId}
    (h : m.Covers script) :
    .treeDelete q ∈ script ↔ m.src.contains q ∧ m.src.whole m.hasSrc q := by
  rw [Action.treeDelete_mem_iff, h.treeDelete]
  split <;> simp [*]

/-! ### Turns -/

namespace Draft

variable {m : Mapping} {quiet : Bool} {d d₀ : Draft} {s w : NodeId}

/-- **Node `w` of the copy has its turn to be taken out** in draft `d`, after the nodes before it
in post-order have had theirs. -/
def Turn (m : Mapping) (quiet : Bool) (d₀ d : Draft) (w : NodeId) : Prop :=
  ∃ l l', d₀.copy.arena.postorder d₀.copy.root = l ++ w :: l' ∧
    l.foldlM (pruneOne m quiet (cleanSources m)) d₀ = .ok d

/-- After a change the draft is another one. -/
theorem perform_ne (d : Draft) (change : Change) : d.perform quiet change ≠ .ok d := by
  intro h
  obtain ⟨c, -, h⟩ := bind_eq_ok.1 h
  have hedits := congrArg (List.length ∘ edits) (pure_eq_ok.1 h)
  simp at hedits

/-- **A turn passes without a change if and only if the parent goes away in one piece**, for the
copy of a source node without counterpart. -/
theorem pruneOne_eq_self_iff (ht : d.copy.toDst.get? w = none)
    (ho : d.copy.origin? w = some (.src s)) (clean : NodeSet) :
    pruneOne m quiet clean d w = .ok d ↔ (m.src.arena.parent? s).any (collapses m clean) := by
  have hcontains : ¬ d.copy.toDst.contains w := by simp [NodeMap.contains, ht]
  simp only [pruneOne, if_neg hcontains, ho]
  split
  · exact iff_of_true rfl ‹_›
  · split
    · exact iff_of_false (perform_ne d _) ‹_›
    · exact iff_of_false (perform_ne d _) ‹_›

/-- **Every source node without counterpart has its turn.** -/
theorem Aligned.exists_turn (h₀ : Aligned m (Stage.done m) d₀) (hm : m.Sound)
    (hr : m.source? m.dst.root = some m.src.root) (hs : m.src.arena.isLive s)
    (hn : m.counterpart? s = none) (quiet : Bool) :
    ∃ d w, Turn m quiet (d₀.toned quiet) d w ∧ d.copy.origin? w = some (.src s) ∧
      d.copy.toDst.get? w = none := by
  obtain ⟨w, -, hlw, ho⟩ := h₀.copied hs
  have hmem := (h₀.sound.wf.mem_postorder_iff (h₀.isLive_of_ofDst h₀.root)).2
    ⟨hlw, h₀.sound.rooted.below h₀.sound.wf hlw⟩
  obtain ⟨l, l', hl⟩ := List.append_of_mem hmem
  obtain ⟨d, hd, hp⟩ := h₀.exists_pruning hm hr hl
  have hlive := hp.isLive_next h₀ hl
  refine ⟨d.toned quiet, w, ⟨l, l', by rw [copy_toned, hl], ?_⟩, ?_, ?_⟩
  · rw [foldlM_pruneOne_toned, hd]
    rfl
  · rw [copy_toned, hp.origin? hlive, ho]
  · rw [copy_toned, hp.toDst, (h₀.sound.source hlw ho).2.2, hn]

end Draft

/-! ### Main result -/

namespace Mapping

open Draft

variable {m : Mapping} {src dst : Tree} {s : NodeId}

/-- The parent of a source node goes away in one piece if and only if the script says so of
something above the node. -/
theorem Covers.any_collapses_iff {script : List Action} (h : m.Covers script) (hm : m.Sound)
    (hs : m.src.arena.isLive s) :
    (m.src.arena.parent? s).any (collapses m (cleanSources m)) ↔
      ∃ q ∈ (m.src.arena.ancestors s).drop 1, .treeDelete q ∈ script := by
  have hlive : ∀ q ∈ (m.src.arena.ancestors s).drop 1, m.src.contains q := by
    intro q hq
    obtain ⟨p, hp, hb⟩ := (hm.src.mem_above_iff hs).1 hq
    exact hm.src.contains_iff.2
      (hm.src.arena.isLive_of_below (hm.src.arena.isLive_of_parent? hs hp) hb)
  calc (m.src.arena.parent? s).any (collapses m (cleanSources m))
      ↔ m.src.underClean m.hasSrc s := by
        rw [any_collapses_cleanSources hm.src hs, any_collapsing_eq_underClean hm.src hs]
    _ ↔ ∃ q ∈ (m.src.arena.ancestors s).drop 1, m.src.whole m.hasSrc q :=
        hm.src.underClean_iff hs
    _ ↔ ∃ q ∈ (m.src.arena.ancestors s).drop 1, .treeDelete q ∈ script :=
        exists_congr fun q => and_congr_right fun hq => by
          rw [h.treeDelete_mem_iff, and_iff_right (hlive q hq)]

/-- **Both ways to find the clean source nodes agree**, and with them what goes in one piece. -/
structure FindsClean (m : Mapping) : Prop where
  contains : ∀ s, (cleanSources m).contains s → m.src.contains s
  /-- A source node is found from the bottom up if its subtree, looked through, is clean. -/
  agrees : ∀ s, m.src.contains s → ∃ clean below, m.isSrcClean s = .ok clean ∧
    m.src.descendants s = .ok below ∧ (cleanSources m).contains s = clean ∧
    (clean ↔ ∀ n ∈ below, m.hasSrc n = false)
  /-- If the roots are counterparts, a source node without counterpart is passed over when its
  copy has its turn if and only if something above it goes in one piece. -/
  passes : m.has m.src.root m.dst.root → ∀ quiet, ∃ d₀ script, align m quiet = .ok d₀ ∧
    m.editScript quiet = .ok script ∧
    ∀ s, m.src.contains s → m.hasSrc s = false → ∃ d w above, Turn m quiet d₀ d w ∧
      d.copy.origin? w = some (.src s) ∧ m.src.ancestors s = .ok above ∧
      (pruneOne m quiet (cleanSources m) d w = .ok d ↔
        (m.src.arena.parent? s).any (collapses m (cleanSources m))) ∧
      ((m.src.arena.parent? s).any (collapses m (cleanSources m)) ↔
        ∃ q ∈ above, .treeDelete q ∈ script)

/-- **The clean source nodes are found**, whichever way. -/
theorem findsClean (hs : src.Built) (hd : dst.Built) (hm : Filled src dst m) : m.FindsClean := by
  obtain ⟨hsound, rfl, rfl⟩ := hm.sound hs.wellFormed hd.wellFormed
  have hlive : ∀ {s}, m.src.contains s → m.src.arena.isLive s := fun h =>
    hsound.src.contains_iff.1 h
  exact
    { contains := fun s h =>
        hsound.src.contains_iff.2 ((contains_cleanSources_iff hsound.src s).1 h).1
      agrees := by
        intro s h
        have hbelow := Tree.descendants_eq_ok (hlive h)
        refine ⟨m.srcClean s, _, by rw [isSrcClean, hbelow]; rfl, hbelow,
          contains_cleanSources hsound.src (hlive h), ?_⟩
        simp [srcClean]
      passes := by
        intro hr quiet
        have hroots := (hsound.right hsound.src.isLive_root (has_iff.1 hr)).2
        obtain ⟨d₀, hd₀, h₀⟩ := exists_aligned hsound hroots
        obtain ⟨script, hscript, hcovers⟩ := hsound.exists_covering hroots quiet
        refine ⟨d₀.toned quiet, script, by rw [align_toned, hd₀]; rfl, hscript, fun s h hn => ?_⟩
        obtain ⟨d, w, hturn, ho, ht⟩ := h₀.exists_turn hsound hroots (hlive h)
          (hasSrc_eq_false_iff.1 hn) quiet
        exact ⟨d, w, _, hturn, ho, Tree.ancestors_eq_ok (hlive h),
          pruneOne_eq_self_iff ht ho _, hcovers.any_collapses_iff hsound (hlive h)⟩ }

/-- A leaf goes with the node that it is below. -/
theorem findsClean_nested : ∃ t₀ src dst m, Tree.fan ⟨"item", 0⟩ "top" ["a"] = .ok t₀ ∧
    t₀.addChild ⟨1, 0⟩ ⟨"item", 0⟩ "b" = .ok (⟨2, 0⟩, src) ∧
    Tree.fan ⟨"item", 0⟩ "top" ["c"] = .ok dst ∧ pairing src dst [(⟨0, 0⟩, ⟨0, 0⟩)] = .ok m ∧
    m.has src.root dst.root ∧
    m.editScript false = .ok [.insert ⟨1, 0⟩ (.src ⟨0, 0⟩) 0, .treeDelete ⟨1, 0⟩] ∧
    m.FindsClean := by
  obtain ⟨t₀, src, dst, m, hfan, hsrc, hdst, hlive, hm, hr, hscript⟩ : ∃ t₀ src dst m,
      Tree.fan ⟨"item", 0⟩ "top" ["a"] = .ok t₀ ∧
      t₀.addChild ⟨1, 0⟩ ⟨"item", 0⟩ "b" = .ok (⟨2, 0⟩, src) ∧
      Tree.fan ⟨"item", 0⟩ "top" ["c"] = .ok dst ∧
      (∀ p ∈ [((⟨0, 0⟩ : NodeId), (⟨0, 0⟩ : NodeId))], src.contains p.1 ∧ dst.contains p.2) ∧
      pairing src dst [(⟨0, 0⟩, ⟨0, 0⟩)] = .ok m ∧ m.has src.root dst.root ∧
      m.editScript false = .ok [.insert ⟨1, 0⟩ (.src ⟨0, 0⟩) 0, .treeDelete ⟨1, 0⟩] :=
    ⟨_, _, _, _, rfl, rfl, rfl, by decide +kernel, rfl, rfl, by decide +kernel⟩
  exact ⟨t₀, src, dst, m, hfan, hsrc, hdst, hm, hr, hscript, findsClean
    (Tree.Built.addChild (Tree.built_fan _ _ _ hfan) hsrc) (Tree.built_fan _ _ _ hdst)
    (filled_pairing _ hlive hm)⟩

end Mapping

end TreeScript
