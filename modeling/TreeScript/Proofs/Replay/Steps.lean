/-
**What an action does.**

As long as the links of the tree in the making are in order, an action is accepted exactly if its
references stand for nodes and its position is there, and then it does one of five things: it
grafts a copy of a part of the destination, makes such a copy the tree, relabels a node, moves a
node, or takes out a subtree.  Whatever script is replayed, the links stay in order.

Main definitions:

* `TreeScript.Replay.grafted`, `TreeScript.Replay.planted`, `TreeScript.Replay.relabeled`,
  `TreeScript.Replay.moved` — what actions come to;
* `TreeScript.Replay.Accepts` — **the actions that are accepted and what they do**;
* `TreeScript.Replay.Sound` — **links and references in order**.

Main results:

* `TreeScript.Replay.Sound.step_iff` — one action;
* `TreeScript.Replay.Sound.step`, `TreeScript.Replay.Sound.run` — **every accepted action, and
  every accepted script, leaves links and references in order**;
* `TreeScript.wellFormed_of_replay` — the tree that a script makes is well formed.
-/

import TreeScript.Proofs.Replay.References
import TreeScript.Proofs.Results

set_option relaxedAutoImplicit false
set_option autoImplicit false

namespace TreeScript

namespace Replay

variable {r r' : Replay} {ref parent : NodeRef} {n m s d p : NodeId} {k : Nat} {label : String}
  {data : NodeData} {v : RoseTree (NodeId × NodeData)} {a : Action}

/-! ### A copy of a part of the destination -/

/-- With a copy of a part of the destination, which hangs nowhere yet. -/
def planted (r : Replay) (v : RoseTree (NodeId × NodeData)) : Replay :=
  { r with
    arena := (r.arena.plant none v).1
    ofDst := r.ofDst.insertAll (r.arena.plant none v).2
    refs := r.refs.insertAll ((r.arena.plant none v).2.map fun e => (e.2, .dst e.1)) }

/-- With a copy of a part of the destination as a child of `p`. -/
def grafted (r : Replay) (v : RoseTree (NodeId × NodeData)) (p : NodeId) (k : Nat) : Replay :=
  { r.planted v with arena := (r.arena.plant none v).1.link p k r.arena.nextId }

/-- With another label at `n`. -/
def relabeled (r : Replay) (n : NodeId) (label : String) : Replay :=
  { r with arena := r.arena.setData n fun data => { data with label } }

/-- With `n` as a child of `p`. -/
def moved (r : Replay) (n p : NodeId) (k : Nat) : Replay :=
  { r with arena := (r.arena.unlink n).link p k n }

@[simp] theorem arena_relabeled (r : Replay) (n : NodeId) (label : String) :
    (r.relabeled n label).arena = r.arena.setData n fun data => { data with label } := rfl

@[simp] theorem arena_moved (r : Replay) (n p : NodeId) (k : Nat) :
    (r.moved n p k).arena = (r.arena.unlink n).link p k n := rfl

theorem foldl_track_dst (l : List (NodeId × NodeId)) (r : Replay) :
    l.foldl (fun r e => r.track (.dst e.1) e.2) r =
      { r with
        ofDst := r.ofDst.insertAll l
        refs := r.refs.insertAll (l.map fun e => (e.2, .dst e.1)) } := by
  induction l generalizing r with
  | nil => rfl
  | cons e l ih => rw [List.foldl_cons, ih]; rfl

theorem foldl_track_planted (r : Replay) (v : RoseTree (NodeId × NodeData)) :
    (r.arena.plant none v).2.foldl (fun r e => r.track (.dst e.1) e.2)
      { r with arena := (r.arena.plant none v).1 } = r.planted v :=
  foldl_track_dst _ _

theorem grown_planted (hw : r.arena.WellFormed) (v : RoseTree (NodeId × NodeData)) :
    Arena.Grown r.arena (r.planted v).arena none [r.arena.nextId]
      ((r.arena.plant none v).2.map Prod.snd) :=
  Arena.grown_plant v hw (by simp)

/-! ### Actions that are accepted -/

/-- **The actions that are accepted and what they do.** -/
inductive Accepts (r : Replay) : Action → Replay → Prop where
  | insert {d p : NodeId} {parent : NodeRef} {k : Nat} {data : NodeData}
      (hp : r.live? parent = some p) (hk : k ≤ (r.arena.children p).length)
      (hd : r.dst.data d = .ok data) :
      Accepts r (.insert d parent k) (r.grafted (.node (d, data) []) p k)
  | treeInsert {d p : NodeId} {parent : NodeRef} {k : Nat} {v : RoseTree (NodeId × NodeData)}
      (hp : r.live? parent = some p) (hk : k ≤ (r.arena.children p).length)
      (hv : r.dst.view d = .ok v) :
      Accepts r (.treeInsert d (some parent) k) (r.grafted v p k)
  | root {d : NodeId} {k : Nat} {v : RoseTree (NodeId × NodeData)} (hr : r.root = none)
      (hv : r.dst.view d = .ok v) :
      Accepts r (.treeInsert d none k) { r.planted v with root := some r.arena.nextId }
  | update {s n : NodeId} {label : String} (hn : r.live? (.src s) = some n) :
      Accepts r (.update s label) (r.relabeled n label)
  | move {s n p : NodeId} {parent : NodeRef} {k : Nat} (hn : r.live? (.src s) = some n)
      (hp : r.live? parent = some p) (hb : ¬ r.arena.Below n p)
      (hk : k ≤ ((r.arena.children p).erase n).length) :
      Accepts r (.move s parent k) (r.moved n p k)
  | treeDelete {s n : NodeId} (hn : r.live? (.src s) = some n) :
      Accepts r (.treeDelete s) (r.remove n)
  | delete {s n : NodeId} (hn : r.live? (.src s) = some n) (hc : r.arena.children n = []) :
      Accepts r (.delete s) (r.remove n)

/-- **Links and references in order**, for a replay that began with the arena `a₀`. -/
structure Sound (a₀ : Arena NodeData) (r : Replay) : Prop where
  wf : r.arena.WellFormed
  rooted : r.arena.Rooted r.root
  later : Arena.Later a₀ r.arena
  isLive : ∀ {ref n}, r.live? ref = some n → r.arena.isLive n
  readable : r.Readable
  /-- Source nodes stand for themselves. -/
  src : ∀ {s n}, r.live? (.src s) = some n → n = s
  /-- The nodes that were brought in are new. -/
  dst : ∀ {d n}, r.live? (.dst d) = some n → ¬ a₀.Issued n

/-! ### Scripts that are accepted -/

variable {script before after : List Action}

theorem run_cons_iff : r.run (a :: script) = .ok r' ↔
    ∃ r₁, r.step a = .ok r₁ ∧ r₁.run script = .ok r' := by
  rw [run, List.foldlM_cons, bind_eq_ok]
  rfl

theorem run_append_iff : r.run (before ++ after) = .ok r' ↔
    ∃ r₁, r.run before = .ok r₁ ∧ r₁.run after = .ok r' := by
  rw [run, List.foldlM_append, bind_eq_ok]
  rfl

namespace Sound

variable {a₀ : Arena NodeData} (h : r.Sound a₀)

/-! ### When an action is accepted -/

theorem resolve_iff : r.resolve ref = .ok n ↔ r.live? ref = some n := by
  unfold resolve
  split
  case h_1 m hm => rw [hm, Except.ok.injEq, Option.some_inj]
  case h_2 hm => simp [hm]

theorem fromDst_iff {β : Type} {e : Except Fault β} {x : β} : fromDst e = .ok x ↔ e = .ok x := by
  cases e <;> simp [fromDst]

theorem checkPosition_iff :
    r.checkPosition p k none = .ok () ↔ k ≤ (r.arena.children p).length := by
  have hall : ((r.arena.children p).filter fun c => some c != none) = r.arena.children p :=
    List.filter_eq_self.2 fun c _ => rfl
  unfold checkPosition
  rw [hall]
  simp

theorem checkPosition_moving_iff (hnd : (r.arena.children p).Nodup) :
    r.checkPosition p k (some n) = .ok () ↔ k ≤ ((r.arena.children p).erase n).length := by
  have hothers :
      ((r.arena.children p).filter fun c => some c != some n) = (r.arena.children p).erase n := by
    rw [hnd.erase_eq_filter]
    refine List.filter_congr fun c _ => ?_
    cases hc : c != n <;> simp_all
  unfold checkPosition
  rw [hothers]
  simp

theorem insertTree_iff : r.insertTree d none k = .ok r' ↔
    ∃ v, r.dst.view d = .ok v ∧ { r.planted v with root := some r.arena.nextId } = r' := by
  unfold insertTree
  rw [bind_eq_ok]
  refine exists_congr fun v => ?_
  rw [fromDst_iff, ← foldl_track_planted]
  exact and_congr_right fun _ => pure_eq_ok

include h

theorem attach_planted (hp : r.arena.isLive p) (v : RoseTree (NodeId × NodeData)) (k : Nat) :
    (r.planted v).attach p k r.arena.nextId = .ok (r.grafted v p k) := by
  have hattach := (grown_planted h.wf v).attach_eq h.wf hp k
  rw [attach, hattach]
  rfl

theorem insert_iff (hp : r.arena.isLive p) : r.insert d p k = .ok r' ↔
    ∃ data, r.dst.data d = .ok data ∧ r.grafted (.node (d, data) []) p k = r' := by
  unfold insert
  rw [bind_eq_ok]
  refine exists_congr fun data => ?_
  rw [fromDst_iff]
  refine and_congr_right fun _ => ?_
  -- one node is planted as a tree without branches is
  have hattach : (r.arena.alloc data).attach p k r.arena.nextId =
      .ok ((r.arena.alloc data).link p k r.arena.nextId) :=
    (grown_planted h.wf (.node (d, data) [])).attach_eq h.wf hp k
  simp only [attach, hattach]
  exact pure_eq_ok

theorem insertTree_some_iff (hp : r.arena.isLive p) : r.insertTree d (some p) k = .ok r' ↔
    ∃ v, r.dst.view d = .ok v ∧ r.grafted v p k = r' := by
  unfold insertTree
  rw [bind_eq_ok]
  refine exists_congr fun v => ?_
  have hattach := h.attach_planted hp v k
  rw [← foldl_track_planted] at hattach
  rw [fromDst_iff]
  refine and_congr_right fun _ => ?_
  simp only [hattach]
  exact pure_eq_ok

theorem attach_unlink (hn : r.arena.isLive n) (hp : r.arena.isLive p)
    (hb : ¬ r.arena.Below n p) :
    { r with arena := r.arena.unlink n }.attach p k n = .ok (r.moved n p k) := by
  simp only [attach, Arena.attach_unlink_eq h.wf hn hp hb k]
  rfl

/-- What an action does if it is accepted. -/
theorem accepts_of_step (hs : r.step a = .ok r') : r.Accepts a r' := by
  cases a with
  | insert d parent k =>
      rw [step, bind_eq_ok] at hs
      obtain ⟨p, hp, hs⟩ := hs
      rw [bind_eq_ok] at hs
      obtain ⟨⟨⟩, hk, hs⟩ := hs
      rw [resolve_iff] at hp
      obtain ⟨data, hd, rfl⟩ := (h.insert_iff (h.isLive hp)).1 hs
      exact Accepts.insert hp (checkPosition_iff.1 hk) hd
  | treeInsert d parent k =>
      cases parent with
      | none =>
          rw [step] at hs
          split at hs
          case isTrue => cases hs
          case isFalse hr =>
            obtain ⟨v, hv, rfl⟩ := insertTree_iff.1 hs
            exact Accepts.root (by simpa using hr) hv
      | some parent =>
          rw [step, bind_eq_ok] at hs
          obtain ⟨p, hp, hs⟩ := hs
          rw [bind_eq_ok] at hs
          obtain ⟨⟨⟩, hk, hs⟩ := hs
          rw [resolve_iff] at hp
          obtain ⟨v, hv, rfl⟩ := (h.insertTree_some_iff (h.isLive hp)).1 hs
          exact Accepts.treeInsert hp (checkPosition_iff.1 hk) hv
  | update s label =>
      rw [step, bind_eq_ok] at hs
      obtain ⟨n, hn, hs⟩ := hs
      cases hs
      exact Accepts.update (resolve_iff.1 hn)
  | move s parent k =>
      rw [step, bind_eq_ok] at hs
      obtain ⟨n, hn, hs⟩ := hs
      rw [bind_eq_ok] at hs
      obtain ⟨p, hp, hs⟩ := hs
      rw [resolve_iff] at hn hp
      split at hs
      case isTrue => cases hs
      case isFalse hb =>
        rw [h.wf.mem_ancestors_iff (h.isLive hp)] at hb
        simp only [bind_eq_ok, h.attach_unlink (h.isLive hn) (h.isLive hp) hb] at hs
        obtain ⟨⟨⟩, hk, hs⟩ := hs
        cases hs
        exact Accepts.move hn hp hb
          ((checkPosition_moving_iff (h.wf.nodup_children (h.isLive hp))).1 hk)
  | treeDelete s =>
      rw [step, bind_eq_ok] at hs
      obtain ⟨n, hn, hs⟩ := hs
      cases hs
      exact Accepts.treeDelete (resolve_iff.1 hn)
  | delete s =>
      rw [step, bind_eq_ok] at hs
      obtain ⟨n, hn, hs⟩ := hs
      split at hs
      case isTrue hc =>
        cases hs
        exact Accepts.delete (resolve_iff.1 hn) (by simpa using hc)
      case isFalse => cases hs

theorem step_of_accepts (ha : r.Accepts a r') : r.step a = .ok r' := by
  cases ha with
  | insert hp hk hd =>
      rw [step, resolve_iff.2 hp, bind_ok, checkPosition_iff.2 hk, bind_ok]
      exact (h.insert_iff (h.isLive hp)).2 ⟨_, hd, rfl⟩
  | treeInsert hp hk hv =>
      rw [step, resolve_iff.2 hp, bind_ok, checkPosition_iff.2 hk, bind_ok]
      exact (h.insertTree_some_iff (h.isLive hp)).2 ⟨_, hv, rfl⟩
  | root hr hv =>
      rw [step, if_neg (by simp [hr])]
      exact insertTree_iff.2 ⟨_, hv, rfl⟩
  | update hn => rw [step, resolve_iff.2 hn, bind_ok]; rfl
  | move hn hp hb hk =>
      have hnot := (h.wf.mem_ancestors_iff (h.isLive hp)).not.2 hb
      have hcheck := (checkPosition_moving_iff (h.wf.nodup_children (h.isLive hp))).2 hk
      rw [step, resolve_iff.2 hn, bind_ok, resolve_iff.2 hp, bind_ok, if_neg hnot]
      simp only [hcheck, bind_ok]
      exact h.attach_unlink (h.isLive hn) (h.isLive hp) hb
  | treeDelete hn => rw [step, resolve_iff.2 hn, bind_ok]; rfl
  | delete hn hc => rw [step, resolve_iff.2 hn, bind_ok, hc]; rfl

/-- **An action is accepted exactly if its nodes and its position are there.** -/
theorem step_iff : r.step a = .ok r' ↔ r.Accepts a r' :=
  ⟨h.accepts_of_step, h.step_of_accepts⟩

/-! ### Links and references stay in order -/

theorem relabeled (n : NodeId) (label : String) : Sound a₀ (r.relabeled n label) where
  wf := by rw [arena_relabeled]; exact h.wf.setData n _
  rooted := by rw [arena_relabeled]; exact h.rooted.setData n _
  later := by rw [arena_relabeled]; exact h.later.trans (Arena.Later.setData _ n _)
  isLive hl := by rw [arena_relabeled, Arena.isLive_setData]; exact h.isLive hl
  readable := h.readable
  src := h.src
  dst := h.dst

theorem moved (hn : r.arena.isLive n) (hp : r.arena.isLive p) (hb : ¬ r.arena.Below n p) (k : Nat) :
    Sound a₀ (r.moved n p k) where
  wf := Arena.wellFormed_move h.wf hn hp hb k
  rooted := h.rooted.move h.wf hn hp hb k
  later := (h.later.trans (Arena.Later.unlink _ n)).trans (Arena.Later.link _ p k n)
  isLive hl := by rw [arena_moved, Arena.isLive_link, Arena.isLive_unlink]; exact h.isLive hl
  readable := h.readable
  src := h.src
  dst := h.dst

theorem remove (hn : r.arena.isLive n) : Sound a₀ (r.remove n) where
  wf := by rw [arena_remove]; exact h.wf.removeSubtree hn
  rooted := by
    rw [arena_remove, root_remove]
    exact h.rooted.removeSubtree h.wf hn
  later := by
    rw [arena_remove]
    exact h.later.trans (Arena.Later.removeSubtree h.wf hn)
  isLive := by
    intro ref m hm
    obtain ⟨hm, hb⟩ := h.readable.live?_remove h.wf hn h.isLive hm
    rw [arena_remove, Arena.isLive_removeSubtree_iff h.wf hn]
    exact ⟨h.isLive hm, hb⟩
  readable := h.readable.remove n
  src hm := h.src (h.readable.live?_remove h.wf hn h.isLive hm).1
  dst hm := h.dst (h.readable.live?_remove h.wf hn h.isLive hm).1

omit h in
/-- What a reference stands for after a copy has been brought in. -/
theorem live?_planted {v : RoseTree (NodeId × NodeData)} (hm : (r.planted v).live? ref = some n) :
    (∃ d, ref = .dst d ∧ (d, n) ∈ (r.arena.plant none v).2) ∨ r.live? ref = some n := by
  cases ref with
  | src s => exact Or.inr hm
  | dst d =>
      rcases NodeMap.mem_or_of_get?_insertAll hm with hm | hm
      · exact Or.inl ⟨d, rfl, hm⟩
      · exact Or.inr hm

omit h in
/-- What references stand for after a copy of different nodes has been brought in. -/
theorem live?_planted_iff (hnd : (v.preorder.map Prod.fst).Nodup) :
    (r.planted v).live? ref = some n ↔ (∃ x, ref = .dst x ∧ (x, n) ∈ (r.arena.plant none v).2) ∨
      (∀ x ∈ v.preorder.map Prod.fst, ref ≠ .dst x) ∧ r.live? ref = some n := by
  rw [← Arena.map_fst_plant v r.arena none] at hnd ⊢
  cases ref with
  | src s => simp [live?, planted]
  | dst d =>
      have hd := NodeMap.get?_insertAll_iff (m := r.ofDst) (n := d) (v := n)
        (snd_unique_of_nodup hnd)
      simp only [live?, planted, hd, NodeRef.dst.injEq, exists_eq_left', ne_eq]
      refine or_congr_right (and_congr_left fun _ => ?_)
      exact ⟨fun h x hx he => h (he ▸ hx), fun h hm => h d hm rfl⟩

theorem isLive_planted (v : RoseTree (NodeId × NodeData))
    (hm : (r.planted v).live? ref = some n) : (r.planted v).arena.isLive n := by
  have hg := grown_planted h.wf v
  rcases live?_planted hm with ⟨d, -, hm⟩ | hm
  · exact hg.isLive_new (List.mem_map_of_mem hm)
  · exact hg.isLive (h.isLive hm)

theorem readable_planted (v : RoseTree (NodeId × NodeData)) : (r.planted v).Readable := by
  have hg := grown_planted h.wf v
  have hfst : ((r.arena.plant none v).2.map fun e => (e.2, NodeRef.dst e.1)).map Prod.fst =
      (r.arena.plant none v).2.map Prod.snd := by
    rw [List.map_map]; rfl
  intro ref n hm
  rcases live?_planted hm with ⟨d, rfl, hnew⟩ | hm
  · exact NodeMap.get?_insertAll_of_mem
      (fun _ hv => snd_unique_of_nodup (hfst ▸ hg.nodup) hv (List.mem_map.2 ⟨(d, n), hnew, rfl⟩))
      (List.mem_map.2 ⟨(d, n), hnew, rfl⟩)
  · refine (NodeMap.get?_insertAll_of_not_mem ?_).trans (h.readable _ _ hm)
    rw [hfst]
    exact fun hnew => hg.not_isLive hnew (h.isLive hm)

theorem dst_planted {v : RoseTree (NodeId × NodeData)}
    (hm : (r.planted v).live? (.dst d) = some n) : ¬ a₀.Issued n := by
  have hg := grown_planted h.wf v
  rcases live?_planted hm with ⟨d, -, hm⟩ | hm
  · exact fun hi => hg.not_issued n (List.mem_map_of_mem hm) (h.later.issued hi)
  · exact h.dst hm

theorem grafted (hp : r.arena.isLive p) (v : RoseTree (NodeId × NodeData)) (k : Nat) :
    Sound a₀ (r.grafted v p k) := by
  have hg := grown_planted h.wf v
  exact
    { wf := hg.wellFormed_link h.wf hp k
      rooted := h.rooted.graft hg hp k
      later := (h.later.trans (Arena.Later.of_grown hg)).trans (Arena.Later.link _ p k _)
      isLive := by
        intro ref n hm
        have hl := h.isLive_planted v hm
        rw [Replay.grafted, Arena.isLive_link]
        exact hl
      readable := h.readable_planted v
      src := h.src
      dst := h.dst_planted (v := v) }

theorem planted_root (hr : r.root = none) (v : RoseTree (NodeId × NodeData)) :
    Sound a₀ { r.planted v with root := some r.arena.nextId } := by
  have hg := grown_planted h.wf v
  exact
    { wf := hg.wf
      rooted := Arena.Rooted.of_grown (hr ▸ h.rooted) h.wf hg
      later := h.later.trans (Arena.Later.of_grown hg)
      isLive := h.isLive_planted v
      readable := h.readable_planted v
      src := h.src
      dst := h.dst_planted (v := v) }

/-- **Every accepted action leaves links and references in order.** -/
theorem accepts (ha : r.Accepts a r') : r'.Sound a₀ := by
  cases ha with
  | insert hp hk hd => exact h.grafted (h.isLive hp) _ _
  | treeInsert hp hk hv => exact h.grafted (h.isLive hp) _ _
  | root hr hv => exact h.planted_root hr _
  | update hn => exact h.relabeled _ _
  | move hn hp hb hk => exact h.moved (h.isLive hn) (h.isLive hp) hb _
  | treeDelete hn => exact h.remove (h.isLive hn)
  | delete hn hc => exact h.remove (h.isLive hn)

/-- What every accepted action keeps is so after every accepted script. -/
theorem run_invariant {P : Replay → Prop}
    (step : ∀ {r r' a}, r.Sound a₀ → r.Accepts a r' → P r → P r') (hs : r.run script = .ok r')
    (hP : P r) : r'.Sound a₀ ∧ P r' := by
  refine foldlM_invariant (fun r : Replay => r.Sound a₀ ∧ P r) ?_ hs ⟨h, hP⟩
  intro r r' a _ hr hstep
  have ha := hr.1.step_iff.1 hstep
  exact ⟨hr.1.accepts ha, step hr.1 ha hr.2⟩

/-- **Every accepted script leaves links and references in order.** -/
theorem run (hs : r.run script = .ok r') : r'.Sound a₀ :=
  (h.run_invariant (P := fun _ => True) (fun _ _ hP => hP) hs trivial).1

end Sound

/-- In the beginning links and references are in order. -/
theorem sound_start {src : Tree} (h : src.WellFormed) (dst : Tree) :
    (start src dst).Sound src.arena where
  wf := by rw [arena_start]; exact h.arena
  rooted := by rw [arena_start, root_start]; exact h.rooted
  later := by rw [arena_start]; exact Arena.Later.refl _
  isLive hl := by rw [arena_start]; exact ((live?_start h).1 hl).2
  readable := (twoWay_start h).readable
  src hl := by
    obtain ⟨hs, -⟩ := (live?_start h).1 hl
    cases hs
    rfl
  dst hl := by
    obtain ⟨hd, -⟩ := (live?_start h).1 hl
    cases hd

theorem finish_eq_ok_iff {types : Registry} {t : Tree} : r.finish types = .ok t ↔
    ∃ root, r.root = some root ∧ t = { types, arena := r.arena, root } := by
  unfold finish
  split
  case h_1 root hr => simp [hr, eq_comm]
  case h_2 hr => simp [hr]

end Replay

variable {src dst t : Tree} {script : List Action}

/-- A script makes a tree if it can be replayed and leaves a root. -/
theorem replay_eq_ok_iff : replay src dst script = .ok t ↔ ∃ r root,
    (Replay.start src dst).run script = .ok r ∧ r.root = some root ∧
      t = { types := src.types, arena := r.arena, root } := by
  rw [replay, bind_eq_ok]
  refine exists_congr fun r => ?_
  rw [Replay.finish_eq_ok_iff]
  exact ⟨fun ⟨hr, root, h⟩ => ⟨root, hr, h⟩, fun ⟨root, hr, h⟩ => ⟨hr, root, h⟩⟩

/-- **The tree that a script makes is well formed.** -/
theorem wellFormed_of_replay (h : src.WellFormed) (hr : replay src dst script = .ok t) :
    t.WellFormed := by
  obtain ⟨r, root, hrun, hroot, rfl⟩ := replay_eq_ok_iff.1 hr
  have hs := (Replay.sound_start h dst).run hrun
  exact ⟨hs.wf, hroot ▸ hs.rooted⟩

end TreeScript
