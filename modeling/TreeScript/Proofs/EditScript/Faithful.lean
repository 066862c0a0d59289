/-
**Scripts are faithful.**

A script is worked out on a copy of the source tree and carried out on the source tree itself.
The working copy, when the script is finished, is the destination node by node, and the replayed
tree is the working copy node by node.  So the replayed tree is the destination node by node, and
source nodes come to stand where their counterparts do.

Main definitions:

* `TreeScript.Draft.LandsOn` — the node of the replayed tree that is where a destination node is;
* `TreeScript.Mapping.Realised` — **a tree in which a mapping has come true**.

Main results:

* `TreeScript.Mapping.realised_iff` — that can be found out;
* `TreeScript.Mapping.replay_editScript_isomorphicTo` — **the script makes the destination of the
  source**;
* `TreeScript.Mapping.replay_editScript_realised` — **and the source nodes that have counterparts
  become them**;
* `TreeScript.Mapping.editScript_mirrors` — **after every action the replayed tree is the working
  copy**.
-/

import TreeScript.Proofs.Draft.Prune
import TreeScript.Proofs.Replay.Lockstep
import TreeScript.Proofs.Tree.Built
import TreeScript.Proofs.Tree.Isomorphic

set_option relaxedAutoImplicit false
set_option autoImplicit false

namespace TreeScript

/-! ### The replayed tree and the destination -/

namespace Draft

open WorkingCopy

variable {m : Mapping} {d : Draft} {r : Replay} {n x s w : NodeId}

/-- Node `n` of the replayed tree is where destination node `x` is. -/
def LandsOn (d : Draft) (r : Replay) (n x : NodeId) : Prop :=
  ∃ w, d.copy.StandsFor r w n ∧ d.copy.ofDst.get? x = some w

namespace Finished

variable (hf : Finished m d) (hm : m.Sound) (h : InStep m.src m.dst d.copy r)

include hf h

theorem matching_landsOn : Arena.Matching r.arena m.dst.arena (d.LandsOn r) :=
  h.matching.symm.trans hf.matching

theorem root_landsOn : ∃ n, r.root = some n ∧ d.LandsOn r n m.dst.root := by
  obtain ⟨n, hn, hwn⟩ := h.root
  exact ⟨n, hn, d.copy.root, hwn, hf.root⟩

include hm

/-- Nodes carry what they are to carry. -/
theorem data?_of_landsOn (hnx : d.LandsOn r n x) :
    r.arena.data? n = m.dst.arena.data? x := by
  have hln := (hf.matching_landsOn h).isLive_left hnx
  have hlx := (hf.matching_landsOn h).isLive_right hnx
  obtain ⟨w, hwn, hxw⟩ := hnx
  obtain ⟨e, he⟩ := Arena.exists_data?_of_isLive hln
  obtain ⟨e', he'⟩ := Arena.exists_data?_of_isLive hlx
  have hlabel : some e.label = some e'.label := by
    have hl := (h.label hwn).symm.trans (hf.label? hxw)
    rwa [Tree.label?, he, he'] at hl
  have hkind : some e.kind = some e'.kind := by
    obtain ⟨hlw, ref, ho, hn⟩ := hwn
    have hk := h.kind hn
    rw [hf.sound.origin?_eq_ref hm hxw] at ho
    obtain rfl := Option.some.inj ho
    rw [he] at hk
    refine hk.trans ?_
    unfold Mapping.ref
    split
    case h_1 s hs =>
      obtain ⟨hls, hsx⟩ := hm.left hlx hs
      rw [kind?, hm.kind hls hsx, he']
      rfl
    case h_2 => rw [kind?, he']; rfl
  rw [he, he', Option.some_inj]
  obtain ⟨kind, label⟩ := e
  obtain ⟨kind', label'⟩ := e'
  obtain rfl := Option.some.inj hlabel
  obtain rfl := Option.some.inj hkind
  rfl

/-- **A source node that is still there is where its counterpart is.** -/
theorem landsOn_iff (hs : m.src.arena.isLive s) :
    d.LandsOn r s x ↔ m.counterpart? s = some x := by
  constructor
  · rintro ⟨w, ⟨hlw, ref, ho, hn⟩, hxw⟩
    cases ref with
    | src s' =>
        obtain rfl := h.sound.src hn
        rw [← (hf.sound.source hlw ho).2.2]
        exact (hf.sound.ofDst hxw).2
    | dst x' =>
        -- identities of source nodes are not issued again
        exact absurd (Arena.issued_of_isLive hs) (h.sound.dst hn)
  · intro hx
    obtain ⟨hlx, hxs⟩ := hm.right hs hx
    obtain ⟨w, hw⟩ := hf.matching.exists_left hlx
    have ho := hf.sound.origin?_of_source? hm hw hxs
    obtain ⟨n, hn, hwn⟩ := h.exists_live (hf.sound.ofDst hw).1 ho
    obtain rfl := h.sound.src hn
    exact ⟨w, hwn, hw⟩

end Finished

end Draft

/-! ### What comes true -/

namespace Mapping

variable {m : Mapping} {src dst t : Tree} {s x : NodeId}

/-- **The mapping has come true in `t`**: this is the destination, the source nodes that have
counterparts are the source nodes in it, and they are where their counterparts are, with the same
labels. -/
structure Realised (m : Mapping) (t : Tree) : Prop where
  isomorphic : t.isomorphicTo m.dst = .ok true
  survives : ∀ {s}, m.src.contains s → (t.contains s ↔ m.hasSrc s)
  path : ∀ {s x}, m.src.contains s → m.has s x →
    ∃ path, t.pathOf s = .ok path ∧ m.dst.pathOf x = .ok path
  label : ∀ {s x}, m.src.contains s → m.has s x →
    ∃ label, t.label s = .ok label ∧ m.dst.label x = .ok label

/-- **Whether a mapping has come true can be found out** by looking at the source nodes one by
one. -/
theorem realised_iff (hm : m.Sound) (ht : t.WellFormed) : m.Realised t ↔
    t.isomorphicTo m.dst = .ok true ∧ ∀ s ∈ m.src.preorder, t.contains s = m.hasSrc s ∧
      ∀ x ∈ m.counterpart? s, t.route s = m.dst.route x ∧ t.label? s = m.dst.label? x := by
  have hmem : ∀ {s}, s ∈ m.src.preorder ↔ m.src.contains s := by
    intro s
    rw [hm.src.mem_preorder_iff, hm.src.contains_iff]
  constructor
  · intro h
    refine ⟨h.isomorphic, fun s hs => ?_⟩
    have hsurvives := h.survives (hmem.1 hs)
    refine ⟨Bool.eq_iff_iff.2 hsurvives, fun x hx => ?_⟩
    have hls := ht.contains_iff.1 (hsurvives.2 (hasSrc_iff.2 ⟨x, hx⟩))
    have hlx := (hm.right (hm.src.mem_preorder_iff.1 hs) hx).1
    obtain ⟨path, hpath, hpath'⟩ := h.path (hmem.1 hs) (has_iff.2 hx)
    obtain ⟨label, hlabel, hlabel'⟩ := h.label (hmem.1 hs) (has_iff.2 hx)
    obtain ⟨e, he⟩ := Tree.exists_label? hls
    obtain ⟨e', he'⟩ := Tree.exists_label? hlx
    rw [Tree.pathOf_eq_ok hls] at hpath
    rw [Tree.pathOf_eq_ok hlx, ← hpath] at hpath'
    rw [Tree.label_eq_ok_of_label? he] at hlabel
    rw [Tree.label_eq_ok_of_label? he', ← hlabel] at hlabel'
    refine ⟨congrArg NodePath.segments (Except.ok.inj hpath').symm, ?_⟩
    rw [he, he', Except.ok.inj hlabel']
  · rintro ⟨hiso, hall⟩
    have hread : ∀ {s x}, m.src.contains s → m.has s x → t.arena.isLive s ∧
        m.dst.arena.isLive x ∧ t.route s = m.dst.route x ∧ t.label? s = m.dst.label? x := by
      intro s x hs hx
      obtain ⟨hcontains, hx'⟩ := hall s (hmem.2 hs)
      rw [hasSrc_iff.2 ⟨x, has_iff.1 hx⟩, ht.contains_iff] at hcontains
      exact ⟨hcontains, (hm.right (hm.src.contains_iff.1 hs) (has_iff.1 hx)).1,
        hx' x (has_iff.1 hx)⟩
    exact
      { isomorphic := hiso
        survives := fun hs => Bool.eq_iff_iff.1 (hall _ (hmem.2 hs)).1
        path := by
          intro s x hs hx
          obtain ⟨hls, hlx, hroute, -⟩ := hread hs hx
          exact ⟨_, Tree.pathOf_eq_ok hls, hroute ▸ Tree.pathOf_eq_ok hlx⟩
        label := by
          intro s x hs hx
          obtain ⟨hls, hlx, -, hlabel⟩ := hread hs hx
          obtain ⟨e, he⟩ := Tree.exists_label? hls
          exact ⟨e, Tree.label_eq_ok_of_label? he,
            Tree.label_eq_ok_of_label? (hlabel.symm.trans he)⟩ }

/-- The script is that of a draft that is finished. -/
theorem Sound.exists_draft (hm : m.Sound) (hr : m.source? m.dst.root = some m.src.root) :
    ∃ d, m.draft false = .ok d ∧ m.editScript false = .ok d.script ∧ Draft.Finished m d := by
  obtain ⟨d, hd, hf⟩ := Draft.exists_finished hm hr
  refine ⟨d, hd, ?_, hf⟩
  rw [editScript, if_pos (by rw [rootsPaired, beq_iff_eq]; exact hr), hd]
  rfl

/-- **The script is found and can be replayed, and the mapping comes true.** -/
theorem Sound.exists_realised (hm : m.Sound) (hr : m.source? m.dst.root = some m.src.root) :
    ∃ script t, m.editScript false = .ok script ∧ TreeScript.replay m.src m.dst script = .ok t ∧
      m.Realised t ∧ ∀ s x, m.src.contains s → m.has s x →
        ∃ kind, t.kind s = .ok kind ∧ m.dst.kind x = .ok kind := by
  obtain ⟨d, -, hscript, hf⟩ := hm.exists_draft hr
  obtain ⟨c₀, hc₀, hstart⟩ := WorkingCopy.exists_start hm
  obtain ⟨r, hrun, hin⟩ := (hstart.inStep hm.src).run hm.dst (hf.run hc₀)
  obtain ⟨root, hroot, hland⟩ := hf.root_landsOn hin
  let t : Tree := { types := m.src.types, arena := r.arena, root }
  have ht : t.WellFormed := ⟨hin.sound.wf, hroot ▸ hin.sound.rooted⟩
  have hmatch : Arena.Matching t.arena m.dst.arena (d.LandsOn r) := hf.matching_landsOn hin
  have hdata : ∀ n x, d.LandsOn r n x → t.arena.data? n = m.dst.arena.data? x :=
    fun n x => hf.data?_of_landsOn hm hin
  have hiff : ∀ {s x}, m.src.arena.isLive s → (d.LandsOn r s x ↔ m.counterpart? s = some x) :=
    fun hs => hf.landsOn_iff hm hin hs
  have hiso := (Tree.isomorphicTo_iff ht hm.dst).2 ⟨_, hmatch, hland, hdata⟩
  refine ⟨d.script, t, hscript, replay_eq_ok_iff.2 ⟨r, root, hrun, hroot, rfl⟩,
    (realised_iff hm ht).2 ⟨hiso, ?_⟩, ?_⟩
  · intro s hs
    rw [hm.src.mem_preorder_iff] at hs
    refine ⟨?_, fun x hx => ?_⟩
    · rw [Bool.eq_iff_iff, ht.contains_iff, hasSrc_iff]
      constructor
      · intro hls
        obtain ⟨x, hx⟩ := hmatch.exists_right hls
        exact ⟨x, (hiff hs).1 hx⟩
      · rintro ⟨x, hx⟩
        exact hmatch.isLive_left ((hiff hs).2 hx)
    · have hsx := (hiff hs).2 hx
      exact ⟨Tree.route_eq_of_matching ht hm.dst hmatch hland hsx,
        congrArg (Option.map NodeData.label) (hdata s x hsx)⟩
  · intro s x hs hx
    have hsx := (hiff (hm.src.contains_iff.1 hs)).2 (has_iff.1 hx)
    obtain ⟨e, he⟩ := Arena.exists_data?_of_isLive (hmatch.isLive_right hsx)
    exact ⟨e.kind, Tree.kind_eq_ok ((hdata s x hsx).trans he), Tree.kind_eq_ok he⟩

/-- A script that takes out the whole tree and brings in another makes that one. -/
theorem Sound.exists_replaced (hm : m.Sound) : ∃ t,
    TreeScript.replay m.src m.dst m.replacement = .ok t ∧ t.isomorphicTo m.dst = .ok true := by
  obtain ⟨v, hview, hv, hids⟩ := hm.dst.exists_view hm.dst.isLive_root
  have hs₀ := Replay.sound_start hm.src m.dst
  have hdel : (Replay.start m.src m.dst).Accepts (.treeDelete m.src.root)
      ((Replay.start m.src m.dst).remove m.src.root) :=
    Replay.Accepts.treeDelete ((Replay.live?_start hm.src).2 ⟨rfl, hm.src.isLive_root⟩)
  have hs₁ := hs₀.accepts hdel
  have hstep₁ := hs₀.step_iff.2 hdel
  have hroot₁ : ((Replay.start m.src m.dst).remove m.src.root).root = none := by
    rw [Replay.root_remove, Replay.root_start, if_pos rfl]
  have hdst₁ : ((Replay.start m.src m.dst).remove m.src.root).dst = m.dst := by
    rw [Replay.dst_remove, Replay.dst_start]
  generalize (Replay.start m.src m.dst).remove m.src.root = r at hs₁ hstep₁ hroot₁ hdst₁
  -- nothing is left without a root
  have hempty : ∀ k, ¬ r.arena.isLive k :=
    fun _ => Arena.Rooted.not_isLive (hroot₁ ▸ hs₁.rooted) hs₁.wf
  have hins : r.Accepts (.treeInsert m.dst.root none 0)
      { r.planted v with root := some r.arena.nextId } :=
    Replay.Accepts.root hroot₁ (by rw [hdst₁, hview])
  have hs₂ := hs₁.accepts hins
  have hg := Replay.grown_planted hs₁.wf v
  have hcopied : Arena.CopiedBy m.dst.arena.children m.dst.arena.data? (r.arena.plant none v).2
      (r.arena.plant none v).1 := Arena.copiedBy_plant v hv hs₁.wf (by simp)
  have hfst := Arena.map_fst_plant_subtree hids r.arena none
  have hmatch := (Arena.matching_of_copiedBy (o := m.dst.arena) hcopied
    (hfst ▸ hm.dst.arena.nodup_preorder hm.dst.isLive_root) hg.nodup
    (fun {x} => by rw [hfst]; exact hm.dst.mem_preorder_iff.symm)
    fun {n} => hg.isLive_iff.trans (or_iff_right (hempty n))).symm
  let t : Tree :=
    { types := m.src.types, arena := (r.arena.plant none v).1, root := r.arena.nextId }
  have ht : t.WellFormed := ⟨hs₂.wf, hs₂.rooted⟩
  have htop := Arena.mem_plant_subtree hids r.arena none
  refine ⟨t, replay_eq_ok_iff.2
      ⟨{ r.planted v with root := some r.arena.nextId }, r.arena.nextId, ?_, rfl, rfl⟩,
    (Tree.isomorphicTo_iff ht hm.dst).2 ⟨_, hmatch, htop, fun n x hnx => (hcopied x n hnx).1⟩⟩
  rw [Replay.run, replacement, List.foldlM_cons, hstep₁, bind_ok, List.foldlM_cons,
    hs₁.step_iff.2 hins]
  rfl

/-! ### Main results -/

/-- The pairs of the roots and of the leaves, two on each side, which have changed places. -/
def crossing : List (NodeId × NodeId) := [(⟨0, 0⟩, ⟨0, 0⟩), (⟨1, 0⟩, ⟨2, 0⟩), (⟨2, 0⟩, ⟨1, 0⟩)]

/-- **The script makes the destination of the source.** -/
theorem replay_editScript_isomorphicTo (hs : src.Built) (hd : dst.Built)
    (hm : Filled src dst m) : ∃ script t, m.editScript false = .ok script ∧
      replay src dst script = .ok t ∧ t.isomorphicTo dst = .ok true := by
  obtain ⟨hsound, rfl, rfl⟩ := hm.sound hs.wellFormed hd.wellFormed
  by_cases hr : m.rootsPaired
  · obtain ⟨script, t, hscript, ht, hreal, -⟩ := hsound.exists_realised (beq_iff_eq.1 hr)
    exact ⟨script, t, hscript, ht, hreal.isomorphic⟩
  · obtain ⟨t, ht, hiso⟩ := hsound.exists_replaced
    exact ⟨m.replacement, t, by rw [editScript, if_neg hr]; rfl, ht, hiso⟩

/-- Two leaves change places, and the root gets another label. -/
theorem replay_editScript_isomorphicTo_crossing : ∃ src dst m,
    Tree.fan ⟨"item", 0⟩ "old" ["a", "b"] = .ok src ∧
    Tree.fan ⟨"item", 0⟩ "new" ["b", "a"] = .ok dst ∧ pairing src dst crossing = .ok m ∧
    ∃ script t, m.editScript false = .ok script ∧
      replay src dst script = .ok t ∧ t.isomorphicTo dst = .ok true :=
  ⟨_, _, _, rfl, rfl, rfl, replay_editScript_isomorphicTo
    (Tree.built_fan ⟨"item", 0⟩ "old" ["a", "b"] rfl)
    (Tree.built_fan ⟨"item", 0⟩ "new" ["b", "a"] rfl)
    (filled_pairing crossing (by decide) rfl)⟩

/-- **The script makes the mapping come true**, if that pairs the roots: the source nodes that are
left are those with counterparts, and they are where their counterparts are, with the same labels
and types. -/
theorem replay_editScript_realised (hs : src.Built) (hd : dst.Built) (hm : Filled src dst m)
    (hr : m.has src.root dst.root) : ∃ script t, m.editScript false = .ok script ∧
      replay src dst script = .ok t ∧ m.Realised t ∧ ∀ s x, src.contains s → m.has s x →
        ∃ kind, t.kind s = .ok kind ∧ dst.kind x = .ok kind := by
  obtain ⟨hsound, rfl, rfl⟩ := hm.sound hs.wellFormed hd.wellFormed
  exact hsound.exists_realised (hsound.right hsound.src.isLive_root (has_iff.1 hr)).2

/-- Two leaves change places and keep their identities. -/
theorem replay_editScript_realised_crossing : ∃ src dst m,
    Tree.fan ⟨"item", 0⟩ "old" ["a", "b"] = .ok src ∧
    Tree.fan ⟨"item", 0⟩ "new" ["b", "a"] = .ok dst ∧ pairing src dst crossing = .ok m ∧
    m.has src.root dst.root ∧ ∃ script t, m.editScript false = .ok script ∧
      replay src dst script = .ok t ∧ m.Realised t ∧ ∀ s x, src.contains s → m.has s x →
        ∃ kind, t.kind s = .ok kind ∧ dst.kind x = .ok kind :=
  ⟨_, _, _, rfl, rfl, rfl, rfl, replay_editScript_realised
    (Tree.built_fan ⟨"item", 0⟩ "old" ["a", "b"] rfl)
    (Tree.built_fan ⟨"item", 0⟩ "new" ["b", "a"] rfl)
    (filled_pairing crossing (by decide) rfl) rfl⟩

/-- **The working copy and the replayed tree change in lockstep.**  There is an action for every
change, and after any number of them the replayed tree is the working copy, node for node. -/
theorem editScript_mirrors (hs : src.Built) (hd : dst.Built) (hm : Filled src dst m)
    (hr : m.has src.root dst.root) : ∃ d c₀, m.draft false = .ok d ∧
      m.editScript false = .ok d.script ∧
      d.edits.map Edit.report? = d.script.map some ∧
      WorkingCopy.start m = .ok c₀ ∧
      d.edits.foldlM (fun c e => c.apply e.change) c₀ = .ok d.copy ∧
      ∀ n ≤ d.script.length, ∃ c r,
        (d.edits.take n).foldlM (fun c e => c.apply e.change) c₀ = .ok c ∧
        (Replay.start src dst).run (d.script.take n) = .ok r ∧ c.Mirrors r := by
  obtain ⟨hsound, rfl, rfl⟩ := hm.sound hs.wellFormed hd.wellFormed
  have hr' := (hsound.right hsound.src.isLive_root (has_iff.1 hr)).2
  obtain ⟨d, hdraft, hscript, hf⟩ := hsound.exists_draft hr'
  obtain ⟨c₀, hc₀, hstart⟩ := WorkingCopy.exists_start hsound
  have hin := hstart.inStep hsound.src
  have hrun := hf.run hc₀
  have hreports := hrun.map_report?
  refine ⟨d, c₀, hdraft, hscript, hreports, hc₀, hin.foldlM_apply hsound.dst hrun, fun n _ => ?_⟩
  obtain ⟨c, hc⟩ := hrun.take n
  obtain ⟨r, hrr, hinr⟩ := hin.run hsound.dst hc
  refine ⟨c, r, hin.foldlM_apply hsound.dst hc, ?_, hinr.toMirrors⟩
  -- the first changes are told by the first actions
  have htake : (d.edits.take n).filterMap Edit.report? = d.script.take n := by
    have hmap := congrArg (List.take n) hreports
    rw [← List.map_take, ← List.map_take, hc.map_report?] at hmap
    exact List.map_injective_iff.2 (fun _ _ => Option.some.inj) hmap
  rw [← htake]
  exact hrr

/-- Two leaves change places in lockstep. -/
theorem editScript_mirrors_crossing : ∃ src dst m,
    Tree.fan ⟨"item", 0⟩ "old" ["a", "b"] = .ok src ∧
    Tree.fan ⟨"item", 0⟩ "new" ["b", "a"] = .ok dst ∧ pairing src dst crossing = .ok m ∧
    m.has src.root dst.root ∧ ∃ d c₀, m.draft false = .ok d ∧ m.editScript false = .ok d.script ∧
      d.edits.map Edit.report? = d.script.map some ∧
      WorkingCopy.start m = .ok c₀ ∧
      d.edits.foldlM (fun c e => c.apply e.change) c₀ = .ok d.copy ∧
      ∀ n ≤ d.script.length, ∃ c r,
        (d.edits.take n).foldlM (fun c e => c.apply e.change) c₀ = .ok c ∧
        (Replay.start src dst).run (d.script.take n) = .ok r ∧ c.Mirrors r :=
  ⟨_, _, _, rfl, rfl, rfl, rfl, editScript_mirrors
    (Tree.built_fan ⟨"item", 0⟩ "old" ["a", "b"] rfl)
    (Tree.built_fan ⟨"item", 0⟩ "new" ["b", "a"] rfl)
    (filled_pairing crossing (by decide) rfl) rfl⟩

end Mapping

end TreeScript
