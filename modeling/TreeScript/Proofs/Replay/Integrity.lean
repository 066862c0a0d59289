/-
**No script corrupts the tree in the making.**

Scripts may be anything: what they bring in may be brought in twice, what they delete may be gone,
and the root may be taken out.  Whatever is accepted, the nodes that are there are those of one
tree, or there are none.  The books are balanced: what was in the source, together with what has
been brought in, is what is there, together with what has gone.  A tree without nodes is one that
nothing refers to; it takes a new root and nothing else, and source nodes are gone for good.

Main definitions:

* `TreeScript.Replay.Intact` — **one tree, balanced books, and references into it**;
* `TreeScript.Replay.Anchored` — the root of the source, or nothing of the source at all.

Main results:

* `TreeScript.Replay.Chronicle.perm` — **the books are balanced**;
* `TreeScript.Replay.Sound.step_iff_of_root_eq_none` — what is accepted when there is no root;
* `TreeScript.Replay.run_intact` — **every accepted script leaves the tree intact**.
-/

import TreeScript.Proofs.Replay.History
import TreeScript.Proofs.Tree.Built

set_option relaxedAutoImplicit false
set_option autoImplicit false

namespace TreeScript.Replay

variable {r r' r₀ : Replay} {src dst : Tree} {a : Action} {a₀ : Arena NodeData}
  {es : List Event} {script before after : List Action} {n d : NodeId} {ref : NodeRef}

/-! ### Balanced books -/

/-- **The books are balanced.**  The nodes of the source and those that have been made are the
nodes that are there and those that have gone, each of them once. -/
theorem Chronicle.perm (h : Chronicle src es r) (hr : r.Sound src.arena) (hs : src.WellFormed) :
    (src.preorder ++ es.filterMap Event.made?).Perm (r.nodes ++ es.filterMap Event.gone?) := by
  have hmade : ∀ {n}, n ∈ es.filterMap Event.made? → ∃ d, .made d n ∈ es :=
    Event.mem_filterMap_made?.1
  have hleft : (src.preorder ++ es.filterMap Event.made?).Nodup := by
    refine (hs.arena.nodup_preorder hs.isLive_root).append h.nodup_made fun n hn hn' => ?_
    obtain ⟨d, hd⟩ := hmade hn'
    exact h.not_isLive hd (hs.mem_preorder_iff.1 hn)
  have hright : (r.nodes ++ es.filterMap Event.gone?).Nodup := by
    refine hr.nodup_nodes.append h.nodup_gone fun n hn hn' => ?_
    exact (h.isLive_iff.1 (hr.mem_nodes_iff.1 hn)).2 (Event.mem_filterMap_gone?.1 hn')
  -- on both sides stand the nodes that have come
  refine (List.perm_ext_iff_of_nodup hleft hright).2 fun n => ?_
  rw [List.mem_append, List.mem_append, hs.mem_preorder_iff, Event.mem_filterMap_made?,
    hr.mem_nodes_iff, h.isLive_iff, Event.mem_filterMap_gone?]
  constructor
  · intro hn
    have horigin : ∃ ref, Origin src es ref n := by
      rcases hn with hn | ⟨d, hd⟩
      · exact ⟨_, .src hn⟩
      · exact ⟨_, .dst hd⟩
    by_cases hg : .gone n ∈ es
    · exact Or.inr hg
    · exact Or.inl ⟨horigin, hg⟩
  · intro hn
    have horigin : ∃ ref, Origin src es ref n := hn.elim And.left h.origin_of_gone
    rcases horigin with ⟨ref, ho | ho⟩
    · exact Or.inl ho
    · exact Or.inr ⟨_, ho⟩

/-! ### Without a root -/

/-- No reference stands for anything if there is no root. -/
theorem Sound.live?_of_root_eq_none (h : r.Sound a₀) (hroot : r.root = none) (ref : NodeRef) :
    r.live? ref = none := by
  have hrooted := h.rooted
  rw [hroot] at hrooted
  exact Option.eq_none_iff_forall_ne_some.2 fun n hn => hrooted.not_isLive h.wf (h.isLive hn)

/-- **Without a root, a new root is accepted and nothing else.** -/
theorem Sound.step_iff_of_root_eq_none (h : r.Sound a₀) (hroot : r.root = none)
    (hd : r.dst.WellFormed) (hnames : ∀ d, a.node = .dst d → r.dst.contains d) :
    (∃ r', r.step a = .ok r') ↔ ∃ d k, a = .treeInsert d none k := by
  have hnone := h.live?_of_root_eq_none hroot
  constructor
  · rintro ⟨r', hstep⟩
    cases h.step_iff.1 hstep with
    | @root d k => exact ⟨d, k, rfl⟩
    | insert hl => exact nomatch (hnone _).symm.trans hl
    | treeInsert hl => exact nomatch (hnone _).symm.trans hl
    | update hl => exact nomatch (hnone _).symm.trans hl
    | move hl => exact nomatch (hnone _).symm.trans hl
    | treeDelete hl => exact nomatch (hnone _).symm.trans hl
    | delete hl => exact nomatch (hnone _).symm.trans hl
  · rintro ⟨d, k, rfl⟩
    obtain ⟨v, hv, -⟩ := hd.exists_view (hd.contains_iff.1 (hnames d rfl))
    exact ⟨_, h.step_of_accepts (.root hroot hv)⟩

/-- **The root of the source, or nothing of the source at all.**  In the second case nothing can be
deleted any more, so that what has been brought in since stays. -/
def Anchored (src : Tree) (r : Replay) : Prop :=
  r.root = some src.root ∨
    (∀ s, r.live? (.src s) = none) ∧ (r.root ≠ none → ∃ ref n, r.live? ref = some n)

/-- What has been brought in can be referred to. -/
theorem exists_live?_planted (r : Replay) (v : RoseTree (NodeId × NodeData)) :
    ∃ n, (r.planted v).live? (.dst v.value.1) = some n :=
  NodeMap.exists_get?_insertAll (List.mem_map_of_mem (Arena.mem_plant_self v r.arena none))

theorem Anchored.planted (h : Anchored src r) {v : RoseTree (NodeId × NodeData)}
    (hroot : r.root = some src.root → r'.root = some src.root)
    (hlive : ∀ ref, r'.live? ref = (r.planted v).live? ref) : Anchored src r' := by
  refine h.imp hroot fun ⟨hsrc, _⟩ => ⟨fun s => (hlive _).trans (hsrc s), fun _ => ?_⟩
  obtain ⟨n, hn⟩ := r.exists_live?_planted v
  exact ⟨_, n, (hlive _).trans hn⟩

theorem Anchored.remove (h : Anchored src r) (hr : r.Sound a₀) {s : NodeId}
    (hn : r.live? (.src s) = some n) : Anchored src (r.remove n) := by
  rcases h with hroot | ⟨hsrc, _⟩
  · by_cases he : src.root = n
    · -- with the root everything goes
      have hnone : (r.remove n).root = none := by rw [root_remove, hroot, he, if_pos rfl]
      have hlive := (hr.remove (hr.isLive hn)).live?_of_root_eq_none hnone
      exact Or.inr ⟨fun s => hlive _, fun hne => absurd hnone hne⟩
    · left
      rw [root_remove, hroot, if_neg fun he' => he (Option.some.inj he')]
  · exact nomatch (hsrc s).symm.trans hn

theorem Anchored.accepts (h : Anchored src r) (hr : r.Sound a₀) (ha : r.Accepts a r') :
    Anchored src r' := by
  cases ha with
  | insert => exact h.planted id fun _ => rfl
  | treeInsert => exact h.planted id fun _ => rfl
  | root hroot =>
      refine h.planted (fun hsome => ?_) fun _ => rfl
      exact nomatch hroot.symm.trans hsome
  | update => exact h
  | move => exact h
  | treeDelete hn => exact h.remove hr hn
  | delete hn => exact h.remove hr hn

theorem anchored_run (hs : src.WellFormed) (hr : (start src dst).run script = .ok r) :
    Anchored src r :=
  ((sound_start hs dst).run_invariant (fun hsound ha h => h.accepts hsound ha) hr
    (Or.inl (root_start src dst))).2

theorem run_dst_eq (hs : src.WellFormed) (hr : (start src dst).run script = .ok r) :
    r.dst = dst :=
  ((sound_start hs dst).run_invariant (P := fun r => r.dst = dst)
    (fun _ ha h => ha.dst_eq.trans h) hr (dst_start src dst)).2

theorem resolve_eq_error_iff : r.resolve ref = .error (.unknownNode ref) ↔ r.live? ref = none := by
  unfold resolve
  split
  case h_1 n hn => simp [hn]
  case h_2 hn => simp [hn]

/-- **A replay has no root if and only if nothing can be referred to.** -/
theorem Anchored.root_eq_none_iff (h : Anchored src r) (hs : src.WellFormed)
    (hr : r.Sound src.arena) (hc : Chronicle src es r) :
    r.root = none ↔ ∀ ref, r.live? ref = none := by
  refine ⟨hr.live?_of_root_eq_none, fun hnone => ?_⟩
  by_contra hroot
  rcases h with hsome | ⟨-, hex⟩
  · -- the root of the source stands for itself as long as it is there
    have hgone := (hc.isLive_iff.1 (hr.rooted.isLive hsome)).2
    have hself := hc.told.live?_src.2 ⟨.src hs.isLive_root, hgone⟩
    exact nomatch (hnone _).symm.trans hself
  · obtain ⟨ref, n, hn⟩ := hex hroot
    exact nomatch (hnone ref).symm.trans hn

/-- **What has left with the root does not come back.** -/
theorem Sound.live?_src_of_later (h : r₀.Sound src.arena) (hroot : r₀.root = none)
    (hc : Chronicle src es r) (hlive : ∀ {ref n}, r.live? ref = some n → r.arena.isLive n)
    (hlater : Arena.Later r₀.arena r.arena) (s : NodeId) : r.live? (.src s) = none := by
  have hrooted := h.rooted
  rw [hroot] at hrooted
  refine Option.eq_none_iff_forall_ne_some.2 fun n hn => ?_
  obtain ⟨rfl, hsrc⟩ := Origin.src_iff.1 (hc.told.live?_src.1 hn).1
  have hissued := h.later.issued (Arena.issued_of_isLive hsrc)
  exact hrooted.not_isLive h.wf (hlater.isLive hissued (hlive hn))

/-! ### Main result -/

/-- **The tree in the making is intact**, after the events `es`. -/
structure Intact (src : Tree) (es : List Event) (r : Replay) : Prop where
  /-- Parents and children agree, and the way up from a node ends. -/
  links : r.arena.WellFormed
  /-- The root is there and has no parent. -/
  root : ∀ root, r.root = some root → r.arena.isLive root ∧ r.arena.parent? root = none
  /-- What is there is reached from the root, once. -/
  count_nodes : ∀ n, r.nodes.count n = if r.arena.isLive n then 1 else 0
  /-- So is what a reference stands for. -/
  mem_nodes : ∀ ref n, r.resolve ref = .ok n → n ∈ r.nodes
  /-- What was there or has been made is there or has gone. -/
  perm : (src.preorder ++ es.filterMap Event.made?).Perm (r.nodes ++ es.filterMap Event.gone?)
  /-- There is no root if and only if no reference stands for anything. -/
  root_eq_none_iff : r.root = none ↔ ∀ ref, r.resolve ref = .error (.unknownNode ref)

/-- **What has become of the source is intact.** -/
theorem Chronicle.intact (h : Chronicle src es r) (hr : r.Sound src.arena) (hs : src.WellFormed)
    (hanchored : Anchored src r) : Intact src es r where
  links := hr.wf
  root := by
    intro root hroot
    have hrooted := hr.rooted
    rw [hroot] at hrooted
    exact ⟨hrooted.isLive rfl, hrooted.parent?_root⟩
  count_nodes n := by rw [hr.nodup_nodes.count, if_congr hr.mem_nodes_iff rfl rfl]
  mem_nodes ref n hn := hr.mem_nodes_iff.2 (hr.isLive (Sound.resolve_iff.1 hn))
  perm := h.perm hr hs
  root_eq_none_iff := by
    simp only [resolve_eq_error_iff]
    exact hanchored.root_eq_none_iff hs hr h

/-- **Every accepted script leaves the tree in the making intact**, and so does every accepted part
of one.  The number of nodes is that of the source, and those that have been brought in, without
those that have gone.  If there is no root, the next action can only bring in a new one, and
whatever follows a moment without a root, no source node is referred to any more. -/
theorem run_intact (hs : src.Built) (hd : dst.Built) (hnames : Names dst script)
    (hr : (start src dst).run script = .ok r) :
    Intact src ((start src dst).history script) r ∧
    r.nodes.length + (((start src dst).history script).filterMap Event.gone?).length =
      src.nodeCount + (script.flatMap (Action.brings dst)).length ∧
    (r.root = none → ∀ a, (∀ d, a.node = .dst d → dst.contains d) →
      ((∃ r', r.step a = .ok r') ↔ ∃ d k, a = .treeInsert d none k)) ∧
    ∀ before after r₀, script = before ++ after → (start src dst).run before = .ok r₀ →
      r₀.root = none → ∀ s, r.resolve (.src s) = .error (.unknownNode (.src s)) := by
  have hs := hs.wellFormed
  have hd := hd.wellFormed
  obtain ⟨hc, horigins⟩ := chronicle_run hs hd hnames hr
  have hsound := (sound_start hs dst).run hr
  have hdst := run_dst_eq hs hr
  refine ⟨hc.intact hsound hs (anchored_run hs hr), ?_, ?_, ?_⟩
  · have hlength := (hc.perm hsound hs).length_eq
    rw [List.length_append, List.length_append, ← Event.length_filterMap_origin?, horigins]
      at hlength
    exact hlength.symm
  · intro hroot a ha
    exact hsound.step_iff_of_root_eq_none hroot (hdst ▸ hd) (hdst ▸ ha)
  · rintro before after r₀ rfl hbefore hroot s
    obtain ⟨r₁, hr₁, hafter⟩ := run_append_iff.1 hr
    obtain rfl := Except.ok.inj (hbefore.symm.trans hr₁)
    have hsound₀ := (sound_start hs dst).run hbefore
    rw [resolve_eq_error_iff]
    exact hsound₀.live?_src_of_later hroot hc hsound.isLive (hsound₀.later_of_run hafter) s

/-- A leaf is brought in and goes with everything else; a new tree is brought in, and the leaf once
more. -/
def replanting : List Action :=
  [.insert ⟨1, 0⟩ (.src ⟨0, 0⟩) 0, .treeDelete ⟨0, 0⟩, .treeInsert ⟨0, 0⟩ none 0,
    .insert ⟨1, 0⟩ (.dst ⟨0, 0⟩) 2]

/-- After the root has gone with all that was below it, the nodes are those of the new tree, and no
source node is referred to. -/
theorem run_intact_replanting : ∃ src dst r, Tree.fan ⟨"item", 0⟩ "old" ["a", "b"] = .ok src ∧
    Tree.fan ⟨"item", 0⟩ "new" ["x", "y"] = .ok dst ∧ Names dst replanting ∧
    (start src dst).run replanting = .ok r ∧ r.nodes = [⟨3, 1⟩, ⟨1, 1⟩, ⟨2, 1⟩, ⟨0, 1⟩] ∧
    Intact src ((start src dst).history replanting) r ∧
    ∀ s, r.resolve (.src s) = .error (.unknownNode (.src s)) := by
  obtain ⟨src, dst, r₀, r, hsrc, hdst, hnames, hr₀, hroot, hr, hnodes⟩ : ∃ src dst r₀ r,
      Tree.fan ⟨"item", 0⟩ "old" ["a", "b"] = .ok src ∧
      Tree.fan ⟨"item", 0⟩ "new" ["x", "y"] = .ok dst ∧ Names dst replanting ∧
      (start src dst).run (replanting.take 2) = .ok r₀ ∧ r₀.root = none ∧
      (start src dst).run replanting = .ok r ∧ r.nodes = [⟨3, 1⟩, ⟨1, 1⟩, ⟨2, 1⟩, ⟨0, 1⟩] :=
    ⟨_, _, _, _, rfl, rfl, by decide +kernel, rfl, by decide +kernel, rfl, by decide +kernel⟩
  obtain ⟨hintact, -, -, hgone⟩ := run_intact (Tree.built_fan _ _ _ hsrc)
    (Tree.built_fan _ _ _ hdst) hnames hr
  exact ⟨src, dst, r, hsrc, hdst, hnames, hr, hnodes, hintact,
    hgone (replanting.take 2) (replanting.drop 2) r₀ rfl hr₀ hroot⟩

end TreeScript.Replay
