/-
**The working copy and the replay in lockstep.**

A change of the working copy and the action that tells of it are carried out by two programs on
two arenas.  As long as every node of the copy stands for the node that its origin refers to in the
replay, and both trees have the same links and labels, a change that fits the copy is told by an
action that the replay accepts, and afterwards the two trees are alike again.

Main definitions:

* `TreeScript.WorkingCopy.StandsFor` — the node of the replay that a node of the copy stands for;
* `TreeScript.WorkingCopy.Mirrors` — **the two trees are alike, node for node**;
* `TreeScript.WorkingCopy.InStep` — what carries this from step to step.

Main results:

* `TreeScript.WorkingCopy.InStep.step` — **a step of both**;
* `TreeScript.WorkingCopy.InStep.run`, `TreeScript.WorkingCopy.InStep.foldlM_apply` — **all steps
  of both**.
-/

import TreeScript.Proofs.Replay.Steps
import TreeScript.Proofs.WorkingCopy.Steps

set_option relaxedAutoImplicit false
set_option autoImplicit false

namespace TreeScript.WorkingCopy

variable {src dst : Tree} {c c' : WorkingCopy} {r r' : Replay} {w w' n m p q x : NodeId} {k : Nat}
  {ref : NodeRef} {change : Change} {action : Action}

/-- Node `w` of the copy stands for the node of the replay that its origin refers to. -/
def StandsFor (c : WorkingCopy) (r : Replay) (w n : NodeId) : Prop :=
  c.arena.isLive w ∧ ∃ ref, c.origin? w = some ref ∧ r.live? ref = some n

/-- **The working copy and the replayed tree are alike, node for node.** -/
structure Mirrors (c : WorkingCopy) (r : Replay) : Prop where
  /-- Nodes match one to one, and their children do, in order. -/
  matching : Arena.Matching c.arena r.arena (c.StandsFor r)
  /-- The root stands for the root. -/
  root : ∃ n, r.root = some n ∧ c.StandsFor r c.root n
  /-- Nodes have the labels of what they stand for. -/
  label : ∀ {w n}, c.StandsFor r w n → c.label? w = (r.arena.data? n).map NodeData.label

/-- The type of the node that a reference was made for. -/
def kind? (src dst : Tree) : NodeRef → Option NodeType
  | .src s => (src.arena.data? s).map NodeData.kind
  | .dst x => (dst.arena.data? x).map NodeData.kind

/-- What carries the likeness from step to step: links and references are in order on both sides,
and the replay has given every node the type of what it was made for. -/
structure InStep (src dst : Tree) (c : WorkingCopy) (r : Replay) : Prop extends Mirrors c r where
  wf : c.arena.WellFormed
  sound : r.Sound src.arena
  twoWay : r.TwoWay
  reads : r.dst = dst
  kind : ∀ {ref n}, r.live? ref = some n →
    (r.arena.data? n).map NodeData.kind = kind? src dst ref

namespace InStep

variable (h : InStep src dst c r)

include h

/-! ### Changes that keep all nodes -/

theorem exists_live (hw : c.arena.isLive w) (hr : c.origin? w = some ref) :
    ∃ n, r.live? ref = some n ∧ c.StandsFor r w n := by
  obtain ⟨n, -, ref', hr', hn⟩ := h.matching.exists_right hw
  rw [hr] at hr'
  obtain rfl := Option.some.inj hr'
  exact ⟨n, hn, hw, _, hr, hn⟩

theorem relabel (hw : c.arena.isLive w) (hn : c.StandsFor r w n) (label : String) :
    InStep src dst (c.relabeled w label) (r.relabeled n label) := by
  have hln := h.matching.isLive_right hn
  have hstands : ∀ {k l}, c.StandsFor r k l ↔
      (c.relabeled w label).StandsFor (r.relabeled n label) k l := by
    intro k l
    rw [StandsFor, StandsFor, arena_relabeled, Arena.isLive_setData]
    exact and_congr_right fun hk => by rw [origin?_relabeled hw label hk]; rfl
  refine
    { matching := by
        rw [arena_relabeled, Replay.arena_relabeled]
        exact (h.matching.setData w n _ _).congr fun _ _ => hstands
      root := h.root.imp fun _ hr => ⟨hr.1, hstands.1 hr.2⟩
      label := ?_
      wf := by rw [arena_relabeled]; exact h.wf.setData w _
      sound := h.sound.relabeled n label
      twoWay := h.twoWay
      reads := h.reads
      kind := ?_ }
  · intro k l hkl'
    have hkl := hstands.2 hkl'
    have hll := h.matching.isLive_right hkl
    have hiff : k = w ↔ l = n := by
      constructor
      · intro e; exact h.matching.right_unique hkl (e ▸ hn)
      · intro e; exact h.matching.left_unique hkl (e ▸ hn)
    rw [label?_relabeled hw label hkl.1, Replay.arena_relabeled, Arena.data?_setData hln hll]
    by_cases hk : k = w
    · obtain ⟨e, he⟩ := Arena.exists_data?_of_isLive hll
      rw [if_pos hk, if_pos (hiff.1 hk), he]
      rfl
    · rw [if_neg hk, if_neg fun e => hk (hiff.2 e)]
      exact h.label hkl
  · intro ref l hl
    have hkind := h.kind hl
    rw [Replay.arena_relabeled, Arena.data?_setData hln (h.sound.isLive hl), ← hkind]
    split
    · cases r.arena.data? l <;> rfl
    · rfl

theorem move (hn : c.StandsFor r w n) (hq : c.StandsFor r p q) (hb : ¬ c.arena.Below w p)
    (k : Nat) : InStep src dst (c.moved w p k) (r.moved n q k) := by
  have hb' : ¬ r.arena.Below n q := fun e => hb ((h.matching.below_iff h.wf h.sound.wf hn hq).2 e)
  have hstands : ∀ {k' l}, c.StandsFor r k' l ↔ (c.moved w p k).StandsFor (r.moved n q k) k' l := by
    intro k' l
    simp only [StandsFor, origin?_moved, arena_moved, Arena.isLive_link, Arena.isLive_unlink]
    exact Iff.rfl
  exact
    { matching :=
        ((h.matching.unlink h.wf h.sound.wf hn).link hq hn k).congr fun _ _ => hstands
      root := h.root.imp fun _ hr => ⟨hr.1, hstands.1 hr.2⟩
      label := fun hkl => by simpa using h.label (hstands.2 hkl)
      wf := Arena.wellFormed_move h.wf hn.1 hq.1 hb k
      sound := h.sound.moved (h.matching.isLive_right hn) (h.matching.isLive_right hq) hb' k
      twoWay := h.twoWay
      reads := h.reads
      kind := fun hl => by simpa using h.kind hl }

/-! ### Taking out a subtree -/

theorem remove (hn : c.StandsFor r w n) (hroot : w ≠ c.root) :
    InStep src dst (c.pruned w) (r.remove n) := by
  have hln := h.matching.isLive_right hn
  have hlive : ∀ {ref l}, (r.remove n).live? ref = some l ↔
      r.live? ref = some l ∧ ¬ r.arena.Below n l :=
    h.twoWay.live?_remove_iff h.sound.wf hln h.sound.isLive
  have hbelow : ∀ {k l}, c.StandsFor r k l → (c.arena.Below w k ↔ r.arena.Below n l) :=
    h.matching.below_iff h.wf h.sound.wf hn
  have hstands : ∀ {k l}, c.StandsFor r k l ∧ ¬ c.arena.Below w k ↔
      (c.pruned w).StandsFor (r.remove n) k l := by
    intro k l
    constructor
    · rintro ⟨hkl, hb⟩
      obtain ⟨hk, ref, ho, hl⟩ := hkl
      exact ⟨(Arena.isLive_removeSubtree_iff h.wf hn.1).2 ⟨hk, hb⟩, ref,
        (origin?_pruned h.wf hn.1 hk hb).trans ho,
        hlive.2 ⟨hl, fun e => hb ((hbelow ⟨hk, ref, ho, hl⟩).2 e)⟩⟩
    · rintro ⟨hk, ref, ho, hl⟩
      obtain ⟨hk, hb⟩ := (Arena.isLive_removeSubtree_iff h.wf hn.1).1 hk
      rw [origin?_pruned h.wf hn.1 hk hb] at ho
      exact ⟨⟨hk, ref, ho, (hlive.1 hl).1⟩, hb⟩
  obtain ⟨m, hm, hroots⟩ := h.root
  -- what goes away is not above the root
  have hnb : ¬ c.arena.Below w c.root := fun e => by
    have hp : c.arena.parent? c.root = none :=
      (h.matching.parent?_eq_none_iff h.wf h.sound.wf hroots).2
        ((h.sound.rooted.parent?_eq_none_iff (h.matching.isLive_right hroots)).2 hm)
    exact hroot (e.eq_of_parent?_eq_none hp).symm
  refine
    { matching := ?_
      root := ⟨m, ?_, hstands.1 ⟨hroots, hnb⟩⟩
      label := ?_
      wf := h.wf.removeSubtree hn.1
      sound := h.sound.remove hln
      twoWay := h.twoWay.remove n
      reads := (r.dst_remove n).trans h.reads
      kind := ?_ }
  · rw [Replay.arena_remove]
    exact (h.matching.removeSubtree h.wf h.sound.wf hn).congr fun _ _ => hstands
  · rw [Replay.root_remove, if_neg, hm]
    rintro he
    rw [hm] at he
    obtain rfl := Option.some.inj he
    exact hroot (h.matching.left_unique hn hroots)
  · intro k l hkl
    obtain ⟨hkl, hb⟩ := hstands.2 hkl
    rw [label?_pruned h.wf hn.1 hkl.1 hb, h.label hkl, Replay.arena_remove,
      Arena.data?_removeSubtree h.sound.wf hln (h.matching.isLive_right hkl)
        fun e => hb ((hbelow hkl).2 e)]
  · intro ref l hl
    obtain ⟨hl, hb⟩ := hlive.1 hl
    rw [Replay.arena_remove, Arena.data?_removeSubtree h.sound.wf hln (h.sound.isLive hl) hb]
    exact h.kind hl

/-! ### Bringing in a part of the destination -/

/-- What the copy lacks, the replay lacks too. -/
theorem live?_of_lacks (hx : c.Lacks x) : r.live? (.dst x) = none := by
  refine Option.eq_none_iff_forall_ne_some.2 fun n hn => ?_
  obtain ⟨w, hw, ref, ho, hl⟩ := h.matching.exists_left (h.sound.isLive hn)
  obtain rfl := h.sound.readable.inj hn hl
  exact hx w hw ho

section Graft

variable {v : RoseTree (NodeId × NodeData)} {C : NodeId → List NodeId}
  (hnd : (v.preorder.map Prod.fst).Nodup) (hnew : ∀ x ∈ v.preorder.map Prod.fst, c.Lacks x)

include hnd hnew

/-- What comes in gets references, and all others are kept. -/
theorem live?_grafted_iff {q : NodeId} {k : Nat} {ref : NodeRef} {n : NodeId} :
    (r.grafted v q k).live? ref = some n ↔
      (∃ x, ref = .dst x ∧ (x, n) ∈ (r.arena.plant none v).2) ∨ r.live? ref = some n := by
  refine (Replay.Sound.live?_planted_iff (r := r) hnd).trans
    (or_congr_right (and_iff_right_of_imp fun hn x hx => ?_))
  rintro rfl
  rw [h.live?_of_lacks (hnew x hx)] at hn
  cases hn

/-- The references are still the table read the other way. -/
theorem twoWay_grafted {q : NodeId} (hq : r.arena.isLive q) (hv : Depicts C dst.arena.data? v)
    (k : Nat) : (r.grafted v q k).TwoWay := by
  intro ref n
  have hr := Arena.grafted_plant h.sound.wf hq hv k
  have hkeys : ((r.arena.plant none v).2.map fun e => (e.2, NodeRef.dst e.1)).map Prod.fst =
      (r.arena.plant none v).2.map Prod.snd := by
    rw [List.map_map]; rfl
  refine (NodeMap.get?_insertAll_iff (snd_unique_of_nodup (hkeys ▸ hr.nodup))).trans
    (Iff.trans (or_congr ?_ ?_) (h.live?_grafted_iff hnd hnew).symm)
  · rw [List.mem_map]
    constructor
    · rintro ⟨⟨x, n'⟩, hm, he⟩
      obtain ⟨rfl, rfl⟩ := Prod.mk.inj he
      exact ⟨x, rfl, hm⟩
    · rintro ⟨x, rfl, hm⟩
      exact ⟨(x, n), hm, rfl⟩
  · rw [hkeys, h.twoWay]
    exact and_iff_right_of_imp fun hl hm => hr.not_isLive hm (h.sound.isLive hl)

/-- Nodes that have come in stand for each other when they stand for the same destination node,
and all others as before. -/
theorem standsFor_grafted_iff (hp : c.arena.isLive p) (hv : Depicts C dst.arena.data? v)
    {q w n : NodeId} (k : Nat) :
    (c.StandsFor r w n ∨ ∃ x, (x, w) ∈ c.copies (v.map fun e => (e.1, e.2.label)) ∧
      (x, n) ∈ (r.arena.plant none v).2) ↔
    (c.grafted (v.map fun e => (e.1, e.2.label)) p k).StandsFor (r.grafted v q k) w n := by
  have hc := grafted_spec h.wf hp (hv.map fun _ d => d.label) k
  have hlive : ∀ {ref n}, (r.grafted v q k).live? ref = some n ↔
      (∃ x, ref = .dst x ∧ (x, n) ∈ (r.arena.plant none v).2) ∨ r.live? ref = some n :=
    h.live?_grafted_iff hnd hnew
  have hmem : ∀ {x w}, (x, w) ∈ c.copies (v.map fun e => (e.1, e.2.label)) →
      x ∈ v.preorder.map Prod.fst := by
    intro x w hx
    have hfst := List.mem_map_of_mem (f := Prod.fst) hx
    rw [map_fst_copies, RoseTree.preorder_map, List.map_map] at hfst
    exact hfst
  constructor
  · rintro (⟨hw, ref, ho, hl⟩ | ⟨x, hw, hn⟩)
    · exact ⟨hc.isLive hw, ref, (origin?_of_grafted hc hw).trans ho, hlive.2 (Or.inr hl)⟩
    · exact ⟨hc.isLive_new (List.mem_map_of_mem hw), _, origin?_of_mem hc hw,
        hlive.2 (Or.inl ⟨x, rfl, hn⟩)⟩
  · rintro ⟨hw, ref, ho, hl⟩
    rcases hc.isLive_iff.1 hw with hw | hw
    · rw [origin?_of_grafted hc hw] at ho
      rcases hlive.1 hl with ⟨x, rfl, hn⟩ | hl
      · have hx : x ∈ v.preorder.map Prod.fst :=
          Arena.map_fst_plant v r.arena none ▸ List.mem_map_of_mem hn
        exact absurd ho (hnew x hx w hw)
      · exact Or.inl ⟨hw, ref, ho, hl⟩
    · obtain ⟨x, hx⟩ := exists_mem_of_snd hw
      rw [origin?_of_mem hc hx] at ho
      obtain rfl := Option.some.inj ho
      rcases hlive.1 hl with ⟨y, he, hn⟩ | hl
      · cases he
        exact Or.inr ⟨x, hx, hn⟩
      · rw [h.live?_of_lacks (hnew x (hmem hx))] at hl
        cases hl

theorem graft (hq : c.StandsFor r p q) (hv : Depicts C dst.arena.data? v) (k : Nat) :
    InStep src dst (c.grafted (v.map fun e => (e.1, e.2.label)) p k) (r.grafted v q k) := by
  have hlq := h.matching.isLive_right hq
  have hc := grafted_spec h.wf hq.1 (hv.map fun _ d => d.label) k
  have hr := Arena.grafted_plant h.sound.wf hlq hv k
  have hfstc : (c.copies (v.map fun e => (e.1, e.2.label))).map Prod.fst =
      v.preorder.map Prod.fst := by
    rw [map_fst_copies, RoseTree.preorder_map, List.map_map]; rfl
  have hfstr : (r.arena.plant none v).2.map Prod.fst = v.preorder.map Prod.fst :=
    Arena.map_fst_plant v r.arena none
  have htop : ∃ x, (x, c.arena.nextId) ∈ c.copies (v.map fun e => (e.1, e.2.label)) ∧
      (x, r.arena.nextId) ∈ (r.arena.plant none v).2 := by
    have htopc := Arena.mem_plant_self (made (v.map fun e => (e.1, e.2.label))) c.arena none
    have htopr := Arena.mem_plant_self v r.arena none
    rw [made, RoseTree.value_map, RoseTree.value_map] at htopc
    exact ⟨_, htopc, htopr⟩
  have hstands := fun {w n : NodeId} =>
    h.standsFor_grafted_iff hnd hnew hq.1 hv (q := q) (w := w) (n := n) k
  refine
    { matching := (h.matching.graft hc hr hq (hfstc.trans hfstr.symm) (hfstc ▸ hnd) htop).congr
        fun _ _ => hstands
      root := h.root.imp fun _ hm => ⟨hm.1, hstands.1 (Or.inl hm.2)⟩
      label := ?_
      wf := hc.wf
      sound := h.sound.grafted hlq v k
      twoWay := h.twoWay_grafted hnd hnew hlq hv k
      reads := h.reads
      kind := ?_ }
  · intro w n hwn
    rcases hstands.2 hwn with hwn | ⟨x, hw, hn⟩
    · rw [label?_of_grafted hc hwn.1, h.label hwn]
      exact congrArg _ (hr.data? (h.matching.isLive_right hwn)).symm
    · rw [label?_of_mem hc hw]
      exact congrArg _ (hr.copied x n hn).1.symm
  · intro ref n hl
    rcases (h.live?_grafted_iff hnd hnew).1 hl with ⟨x, rfl, hn⟩ | hl
    · exact congrArg _ (hr.copied x n hn).1
    · rw [← h.kind hl]
      exact congrArg _ (hr.data? (h.sound.isLive hl))

end Graft

/-! ### Steps -/

/-- **A change that fits the copy is told by an action that the replay accepts, and the two trees
are alike again.** -/
theorem step (hd : dst.WellFormed) (hs : Step dst c change action c') :
    ∃ r', r.step action = .ok r' ∧ InStep src dst c' r' := by
  cases hs with
  | relabel hw ho =>
      obtain ⟨n, hn, hwn⟩ := h.exists_live hw ho
      exact ⟨_, h.sound.step_iff.2 (Replay.Accepts.update hn), h.relabel hw hwn _⟩
  | @insert x p ref k data hp hr hk hx hdata hnew =>
      obtain ⟨q, hq, hpq⟩ := h.exists_live hp hr
      have hv : Depicts (fun _ => []) dst.arena.data? (.node (x, data) []) :=
        Depicts.node hdata rfl nofun
      refine ⟨_, h.sound.step_iff.2 (Replay.Accepts.insert hq ?_ ?_),
        h.graft (by simp [RoseTree.preorder_node]) ?_ hpq hv k⟩
      · rwa [← (h.matching.children hpq).length_eq]
      · rw [h.reads, Tree.data_eq_ok hdata]
      · simpa [RoseTree.preorder_node] using hnew
  | @graft x p ref k v hp hr hk hx hview hnew =>
      obtain ⟨q, hq, hpq⟩ := h.exists_live hp hr
      obtain ⟨hv, hids⟩ := hd.depicts_of_view hx hview
      have hpre : v.preorder.map Prod.fst = dst.arena.preorder x := by
        rw [← RoseTree.preorder_map, hids]; rfl
      refine ⟨_, h.sound.step_iff.2 (Replay.Accepts.treeInsert hq ?_ ?_),
        h.graft (hpre ▸ hd.arena.nodup_preorder hx) ?_ hpq hv k⟩
      · rwa [← (h.matching.children hpq).length_eq]
      · rw [h.reads, hview]
      · rw [hpre]
        intro y hy
        obtain ⟨hly, hb⟩ := (hd.arena.mem_preorder_iff hx).1 hy
        exact hnew y hly hb
  | move hw hp ho hr hb hk =>
      obtain ⟨n, hn, hwn⟩ := h.exists_live hw ho
      obtain ⟨q, hq, hpq⟩ := h.exists_live hp hr
      have hb' := (h.matching.below_iff h.wf h.sound.wf hwn hpq).not.1 hb
      have hlen := (forall₂_erase (h.matching.children hpq) hwn h.matching.left_unique
        h.matching.right_unique).length_eq
      exact ⟨_, h.sound.step_iff.2 (Replay.Accepts.move hn hq hb' (hlen ▸ hk)), h.move hwn hpq hb _⟩
  | removeTree hw ho hroot =>
      obtain ⟨n, hn, hwn⟩ := h.exists_live hw ho
      exact ⟨_, h.sound.step_iff.2 (Replay.Accepts.treeDelete hn), h.remove hwn hroot⟩
  | remove hw ho hroot hc =>
      obtain ⟨n, hn, hwn⟩ := h.exists_live hw ho
      have hch := h.matching.children hwn
      rw [hc, List.forall₂_nil_left_iff] at hch
      exact ⟨_, h.sound.step_iff.2 (Replay.Accepts.delete hn hch), h.remove hwn hroot⟩

omit h in
/-- **A script that tells of all changes is replayed in lockstep with them.** -/
theorem run {I : WorkingCopy → Prop} {c₀ : WorkingCopy} {r₀ : Replay} {edits : List Edit}
    (h : InStep src dst c₀ r₀) (hd : dst.WellFormed) (hrun : Run I dst false c₀ edits c) :
    ∃ r, r₀.run (edits.filterMap Edit.report?) = .ok r ∧ InStep src dst c r := by
  induction hrun with
  | nil => exact ⟨r₀, rfl, h⟩
  | snoc _ hs _ ih =>
      obtain ⟨r, hr, hin⟩ := ih
      obtain ⟨r', hr', hin'⟩ := hin.step hd hs
      refine ⟨r', ?_, hin'⟩
      rw [List.filterMap_append]
      exact Replay.run_append_iff.2 ⟨r, hr, by simp [Replay.run, edit, hr']⟩

omit h in
/-- The changes themselves can be carried out, one after the other. -/
theorem foldlM_apply {I : WorkingCopy → Prop} {c₀ : WorkingCopy} {r₀ : Replay}
    {edits : List Edit} (h : InStep src dst c₀ r₀) (hd : dst.WellFormed)
    (hrun : Run I dst false c₀ edits c) :
    edits.foldlM (fun c e => c.apply e.change) c₀ = .ok c := by
  induction hrun with
  | nil => rfl
  | snoc hrun hs _ ih =>
      obtain ⟨r, -, hin⟩ := h.run hd hrun
      have happly := hs.apply_eq hin.wf
      rw [List.foldlM_append, ih, bind_ok]
      simp [edit, happly]

end InStep

end TreeScript.WorkingCopy
