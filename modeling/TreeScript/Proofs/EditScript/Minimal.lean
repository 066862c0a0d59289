/-
**No script moves or relabels fewer nodes.**

Whatever script makes a mapping come true, the source nodes that it never moves keep their parents
and their order.  So it moves every counterpart that has to go under another parent; and of the
children that two counterparts have in common those that it does not move are a common subsequence
of the two orders, of which there is none longer than the one that stays.  A source node that has
to get another label is relabeled by every script.

Main definitions:

* `TreeScript.Mapping.spared` — the source nodes with counterparts that are not in a list;
* `TreeScript.Mapping.Fulfilled` — **what a script has done that makes the mapping come true**;
* `TreeScript.Mapping.forced` — the destination nodes whose counterparts it moves, as far as the
  plan looks at them.

Main results:

* `TreeScript.Mapping.Fulfilled.mem_of_crosses` — what has to go under another parent is moved;
* `TreeScript.Mapping.Fulfilled.length_unmoved_le` — **what is not moved is a common subsequence**;
* `TreeScript.Mapping.editScript_minimal` — **no script has fewer moves or fewer relabelings**.
-/

import Mathlib.Algebra.Order.BigOperators.Group.List
import Mathlib.Algebra.Order.Ring.Nat
import TreeScript.Proofs.EditScript.Faithful
import TreeScript.Proofs.EditScript.Moves
import TreeScript.Proofs.Tree.Addresses

set_option relaxedAutoImplicit false
set_option autoImplicit false

namespace TreeScript

/-- Of two lists related element by element, the elements of the first that are selected are found
from those of the second. -/
theorem filter_filterMap_of_forall₂ {σ τ : Type} {R : σ → τ → Prop} {f : τ → Option σ}
    {U : σ → Bool} {l : List σ} {l' : List τ} (h : List.Forall₂ R l l')
    (hsome : ∀ {x y}, R x y → U x → f y = some x)
    (hsame : ∀ {x x' y}, R x y → f y = some x' → U x' → x' = x) :
    (l'.filterMap f).filter U = l.filter U := by
  induction h with
  | nil => rfl
  | @cons x y l l' hxy _ ih =>
      by_cases hU : U x
      · rw [List.filterMap_cons_some (hsome hxy hU), List.filter_cons_of_pos hU,
          List.filter_cons_of_pos hU, ih]
      · rw [List.filter_cons_of_neg hU]
        cases hf : f y with
        | none => rw [List.filterMap_cons_none hf, ih]
        | some x' =>
            have hU' : ¬ U x' := fun hx' => hU (hsame hxy hf hx' ▸ hx')
            rw [List.filterMap_cons_some hf, List.filter_cons_of_neg hU', ih]

namespace Mapping

variable {m : Mapping} {src dst t : Tree} {script : List Action} {R : NodeId → NodeId → Prop}
  {s x y b : NodeId} {ns : List NodeId}

/-! ### What a script has done -/

/-- The source nodes that have counterparts and are not in `ns`. -/
def spared (m : Mapping) (ns : List NodeId) (s : NodeId) : Bool :=
  m.src.contains s && m.hasSrc s && !decide (s ∈ ns)

/-- The counterpart of `b` is in `ns`. -/
def isAmong (m : Mapping) (ns : List NodeId) (b : NodeId) : Bool :=
  (m.source? b).any fun s => decide (s ∈ ns)

theorem spared_iff (hm : m.Sound) : m.spared ns s ↔
    m.src.arena.isLive s ∧ (∃ x, m.counterpart? s = some x) ∧ s ∉ ns := by
  rw [spared, Bool.and_eq_true, Bool.and_eq_true, hm.src.contains_iff, hasSrc_iff, and_assoc,
    Bool.not_eq_true', decide_eq_false_iff_not]

/-- **What a script has done that makes the mapping come true**: its tree `t` matches the
destination by `R`. -/
structure Fulfilled (m : Mapping) (script : List Action) (t : Tree)
    (R : NodeId → NodeId → Prop) : Prop where
  wf : t.WellFormed
  matching : Arena.Matching t.arena m.dst.arena R
  /-- A source node with a counterpart is where that is. -/
  lands : ∀ {s x}, m.src.arena.isLive s → m.counterpart? s = some x → R s x
  survives : ∀ {s}, m.src.arena.isLive s → t.arena.isLive s → ∃ x, m.counterpart? s = some x
  label : ∀ {s x}, m.src.arena.isLive s → m.counterpart? s = some x →
    t.label? s = m.dst.label? x
  /-- What is not moved is where it was, and what is not relabeled carries what it carried. -/
  keeps : Arena.Keeps (m.spared (script.filterMap Action.moved?))
    (m.spared (script.filterMap Action.updated?)) m.src.arena t.arena

theorem Realised.exists_fulfilled (h : m.Realised t) (hm : m.Sound)
    (hsize : ∀ n, m.dst.arena.isLive n → (m.dst.arena.children n).length ≤ 2 ^ 32)
    (hrun : replay m.src m.dst script = .ok t) : ∃ R, Fulfilled m script t R := by
  have ht := wellFormed_of_replay hm.src hrun
  obtain ⟨hiso, hall⟩ := (realised_iff hm ht).1 h
  obtain ⟨R, hR, hroot, -⟩ := (Tree.isomorphicTo_iff ht hm.dst).1 hiso
  have hlive : ∀ {s}, m.src.arena.isLive s →
      (t.arena.isLive s ↔ ∃ x, m.counterpart? s = some x) := by
    intro s hs
    rw [← ht.contains_iff, h.survives (hm.src.contains_iff.2 hs), hasSrc_iff]
  refine ⟨R, ht, hR, ?_, fun hs => (hlive hs).1,
    fun hs hx => ((hall _ (hm.src.mem_preorder_iff.2 hs)).2 _ hx).2, ?_⟩
  · -- the node at the place of `s` is at the path of its counterpart
    intro s x hs hx
    obtain ⟨x', hsx'⟩ := hR.exists_right ((hlive hs).2 ⟨x, hx⟩)
    have hroute := ((hall _ (hm.src.mem_preorder_iff.2 hs)).2 _ hx).1
    rw [Tree.route_eq_of_matching ht hm.dst hR hroot hsx'] at hroute
    exact hm.dst.route_inj hsize (hR.isLive_right hsx') (hm.right hs hx).1 hroute ▸ hsx'
  · obtain ⟨r, root, hr, hroot', rfl⟩ := replay_eq_ok_iff.1 hrun
    have hkeeps := (Replay.sound_start hm.src m.dst).keeps_of_run
      (U := m.spared (script.filterMap Action.moved?))
      (V := m.spared (script.filterMap Action.updated?)) hr ?_ ?_ ?_
    · rwa [Replay.arena_start] at hkeeps
    · intro n hn
      have hns : m.src.arena.isLive n ∧ ∃ x, m.counterpart? n = some x := by
        rcases hn with hn | hn
        · exact ⟨((spared_iff hm).1 hn).1, ((spared_iff hm).1 hn).2.1⟩
        · exact ⟨((spared_iff hm).1 hn).1, ((spared_iff hm).1 hn).2.1⟩
      rw [Replay.arena_start]
      exact ⟨hns.1, (hlive hns.1).2 hns.2⟩
    · intro a ha s hs
      refine Bool.eq_false_iff.2 fun hsp => ((spared_iff hm).1 hsp).2.2 ?_
      exact List.mem_filterMap.2 ⟨a, ha, hs⟩
    · intro a ha s hs
      refine Bool.eq_false_iff.2 fun hsp => ((spared_iff hm).1 hsp).2.2 ?_
      exact List.mem_filterMap.2 ⟨a, ha, hs⟩

namespace Fulfilled

variable (h : Fulfilled m script t R) (hm : m.Sound)

include h hm

/-! ### What has to be done -/

/-- **What has to go under another parent is moved.** -/
theorem mem_of_crosses (hx : m.dst.arena.isLive x) (hs : m.source? x = some s)
    (hc : m.crosses x) : s ∈ script.filterMap Action.moved? := by
  obtain ⟨hls, hsx⟩ := hm.left hx hs
  by_contra hnot
  have hkeep := h.keeps.parent? ((spared_iff hm).2 ⟨hls, ⟨x, hsx⟩, hnot⟩)
  cases hp : m.dst.arena.parent? x with
  | none => simp [crosses, hs, hp] at hc
  | some y =>
      -- the parent of `s` is the counterpart of the parent of `x`
      obtain ⟨p, hpt, hpy⟩ :=
        h.matching.symm.parent? hm.dst.arena h.wf.arena (h.lands hls hsx) hp
      rw [hkeep] at hpt
      have hlp := hm.src.arena.isLive_of_parent? hls hpt
      obtain ⟨y', hy'⟩ := h.survives hlp (h.matching.isLive_left hpy)
      obtain rfl := h.matching.right_unique hpy (h.lands hlp hy')
      exact (crosses_iff hs hp).1 hc (hpt.trans (hm.right hlp hy').2.symm)

/-- **What has to get another label is relabeled.** -/
theorem mem_of_relabels (hx : m.dst.arena.isLive x) (hs : m.source? x = some s)
    (hc : m.relabels x) : s ∈ script.filterMap Action.updated? := by
  obtain ⟨hls, hsx⟩ := hm.left hx hs
  by_contra hnot
  have hkeep := h.keeps.data? ((spared_iff hm).2 ⟨hls, ⟨x, hsx⟩, hnot⟩)
  have hlabel := h.label hls hsx
  rw [Tree.label?, hkeep] at hlabel
  exact (relabels_iff hs).1 hc hlabel

/-- **What is not moved keeps its order**: it is found among the children of `x` in the order of
the source. -/
theorem filter_children (hx : m.dst.arena.isLive x) (hs : m.source? x = some s) :
    ((m.dst.arena.children x).filterMap m.source?).filter
        (m.spared (script.filterMap Action.moved?)) =
      (m.src.arena.children s).filter (m.spared (script.filterMap Action.moved?)) := by
  obtain ⟨hls, hsx⟩ := hm.left hx hs
  have hland := h.lands hls hsx
  rw [← h.keeps.children hls (h.matching.isLive_left hland)]
  refine filter_filterMap_of_forall₂ (h.matching.children hland) ?_ ?_
  · intro l b hlb hl
    obtain ⟨hll, ⟨b', hb'⟩, -⟩ := (spared_iff hm).1 hl
    obtain rfl := h.matching.right_unique hlb (h.lands hll hb')
    exact (hm.right hll hb').2
  · intro l l' b hlb hl' hsp
    have hlb' := (hm.left (h.matching.isLive_right hlb) hl').2
    exact h.matching.left_unique (h.lands ((spared_iff hm).1 hsp).1 hlb') hlb

/-- **What is not moved is a common subsequence**, so it is not more than what stays. -/
theorem length_unmoved_le (hx : m.dst.arena.isLive x) (hs : m.source? x = some s) :
    ((m.ownTargets x).filter fun b =>
      !m.isAmong (script.filterMap Action.moved?) b).length ≤ (m.stay x).length := by
  have hsub : ((m.ownTargets x).filter fun b =>
      !m.isAmong (script.filterMap Action.moved?) b).Sublist (m.ownTargets x) :=
    List.filter_sublist
  refine length_le_stay hm hx hs hsub ?_
  -- all of these are spared
  have hspared : ∀ l ∈ ((m.ownTargets x).filter fun b =>
      !m.isAmong (script.filterMap Action.moved?) b).filterMap m.source?,
      m.spared (script.filterMap Action.moved?) l := by
    intro l hl
    obtain ⟨b, hb, hbl⟩ := List.mem_filterMap.1 hl
    rw [List.mem_filter] at hb
    obtain ⟨hll, hlb⟩ :=
      hm.left (hm.dst.arena.isLive_of_mem hx ((ownTargets_sublist x).subset hb.1)) hbl
    refine (spared_iff hm).2 ⟨hll, ⟨b, hlb⟩, ?_⟩
    simpa [isAmong, hbl] using hb.2
  rw [← List.filter_eq_self.2 hspared]
  refine (((hsub.trans (ownTargets_sublist x)).filterMap m.source?).filter _).trans ?_
  rw [h.filter_children hm hx hs]
  exact List.filter_sublist

end Fulfilled

/-! ### Counting -/

/-- The destination nodes at which a script that moves `ns` does what the plan does at `x`. -/
def forced (m : Mapping) (ns : List NodeId) (x : NodeId) : List NodeId :=
  (if m.crosses x then [x] else []) ++ (m.ownTargets x).filter (m.isAmong ns)

theorem mem_forced (hx : m.dst.arena.isLive x) (hd : m.dst.WellFormed) (hb : b ∈ m.forced ns x) :
    m.dst.arena.isLive b ∧ (b = x ∧ m.crosses b ∨
      m.dst.arena.parent? b = some x ∧ m.crosses b = false ∧ m.isAmong ns b) := by
  rcases List.mem_append.1 hb with hb | hb
  · split at hb
    case isTrue hc =>
      obtain rfl := List.mem_singleton.1 hb
      exact ⟨hx, Or.inl ⟨rfl, hc⟩⟩
    case isFalse => cases hb
  · obtain ⟨hown, hamong⟩ := List.mem_filter.1 hb
    obtain ⟨hbx, s, t, hs, ht, hp⟩ := exists_of_mem_ownTargets hown
    obtain ⟨hlb, hpb⟩ := hd.arena.of_mem_children hx hbx
    refine ⟨hlb, Or.inr ⟨hpb, ?_, hamong⟩⟩
    exact Bool.eq_false_iff.2 fun hc => (crosses_iff ht hpb).1 hc (hp.trans hs.symm)

theorem exists_source_of_forced (hx : m.dst.arena.isLive x) (hd : m.dst.WellFormed)
    (hb : b ∈ m.forced ns x) : ∃ s, m.source? b = some s := by
  obtain ⟨-, ⟨-, hc⟩ | ⟨-, -, hamong⟩⟩ := mem_forced hx hd hb
  · cases hs : m.source? b with
    | none => simp [crosses, hs] at hc
    | some s => exact ⟨s, rfl⟩
  · cases hs : m.source? b with
    | none => simp [isAmong, hs] at hamong
    | some s => exact ⟨s, rfl⟩

/-- A node is looked at once: with itself if it goes under another parent, else with its parent. -/
theorem nodup_flatMap_forced (hd : m.dst.WellFormed) (ns : List NodeId) :
    (m.dst.iter.flatMap (m.forced ns)).Nodup := by
  have hlive : ∀ {x}, x ∈ m.dst.iter → m.dst.arena.isLive x := hd.mem_iter_iff.1
  refine List.nodup_flatMap.2 ⟨fun x hx => ?_, ?_⟩
  · refine List.Nodup.append ?_ ?_ ?_
    · split
      · exact List.nodup_singleton x
      · exact List.nodup_nil
    · exact ((hd.arena.nodup_children (hlive hx)).sublist (ownTargets_sublist x)).filter _
    · intro b hb hb'
      split at hb
      case isTrue hc =>
        obtain rfl := List.mem_singleton.1 hb
        have hmem := hd.arena.parent?_of_mem (hlive hx)
          ((ownTargets_sublist b).subset (List.mem_filter.1 hb').1)
        exact hd.arena.not_below_parent (hlive hx) hmem Arena.Below.self
      case isFalse => cases hb
  · refine hd.nodup_iter.imp_of_mem fun {x x'} hx hx' hne => ?_
    intro b hb hb'
    obtain ⟨-, ⟨rfl, hc⟩ | ⟨hp, hc, -⟩⟩ := mem_forced (hlive hx) hd hb
    · obtain ⟨-, ⟨rfl, -⟩ | ⟨-, hc', -⟩⟩ := mem_forced (hlive hx') hd hb'
      · exact hne rfl
      · rw [hc] at hc'
        cases hc'
    · obtain ⟨-, ⟨rfl, hc'⟩ | ⟨hp', -⟩⟩ := mem_forced (hlive hx') hd hb'
      · rw [hc] at hc'
        cases hc'
      · rw [hp] at hp'
        exact hne (Option.some.inj hp')

/-- Different destination nodes have different source nodes. -/
theorem nodup_filterMap_source? (hm : m.Sound) {l : List NodeId} (hl : l.Nodup)
    (hlive : ∀ x ∈ l, m.dst.arena.isLive x) : (l.filterMap m.source?).Nodup := by
  refine nodup_filterMap_of_inj hl fun x hx y hy s hs hs' => ?_
  have h1 := (hm.left (hlive x hx) hs).2
  rw [(hm.left (hlive y hy) hs').2] at h1
  exact (Option.some.inj h1).symm

section Count

variable (h : Fulfilled m script t R) (hm : m.Sound)

include h hm

theorem Fulfilled.length_moving_le (hx : m.dst.arena.isLive x) :
    (m.moving x).length ≤ (m.forced (script.filterMap Action.moved?) x).length := by
  rw [moving, forced, List.length_append, List.length_append]
  refine Nat.add_le_add_left ?_ _
  cases hs : m.source? x with
  | none => rw [reordered, ownTargets_of_unmapped hs]; exact Nat.zero_le _
  | some s =>
      have hnd := (hm.dst.arena.nodup_children hx).sublist (ownTargets_sublist (m := m) x)
      -- what stays and what does not, what is moved and what is not
      have hstay := congrArg List.length (filter_mem_of_sublist (stay_sublist (m := m) x) hnd)
      have hsplit := List.length_eq_length_filter_add (l := m.ownTargets x)
        fun b => decide (b ∈ m.stay x)
      have hsplit' := List.length_eq_length_filter_add (l := m.ownTargets x)
        (m.isAmong (script.filterMap Action.moved?))
      have hle := h.length_unmoved_le hm hx hs
      have hreordered : m.reordered x = (m.ownTargets x).filter fun b =>
          !decide (b ∈ m.stay x) := List.filter_congr fun b _ => by simp
      rw [hreordered]
      omega

/-- **A script that makes the mapping come true moves no fewer nodes than the plan.** -/
theorem Fulfilled.length_moved_le :
    ((m.dst.iter.flatMap m.moving).filterMap m.source?).length ≤
      (script.filterMap Action.moved?).length := by
  have hlive : ∀ {x}, x ∈ m.dst.iter → m.dst.arena.isLive x := hm.dst.mem_iter_iff.1
  have hforced : ∀ b ∈ m.dst.iter.flatMap (m.forced (script.filterMap Action.moved?)),
      ∃ x ∈ m.dst.iter, b ∈ m.forced (script.filterMap Action.moved?) x :=
    fun b hb => List.mem_flatMap.1 hb
  have hle : (m.dst.iter.flatMap m.moving).length ≤
      (m.dst.iter.flatMap (m.forced (script.filterMap Action.moved?))).length := by
    rw [List.length_flatMap, List.length_flatMap]
    exact List.sum_le_sum (fun x hx => h.length_moving_le hm (hlive hx))
  have hall : ((m.dst.iter.flatMap (m.forced (script.filterMap Action.moved?))).filterMap
      m.source?).length =
        (m.dst.iter.flatMap (m.forced (script.filterMap Action.moved?))).length := by
    refine List.filterMap_length_eq_length.2 fun b hb => ?_
    obtain ⟨x, hx, hbx⟩ := hforced b hb
    obtain ⟨s, hs⟩ := exists_source_of_forced (hlive hx) hm.dst hbx
    rw [hs]
    rfl
  have hnd := nodup_filterMap_source? hm
    (nodup_flatMap_forced hm.dst (script.filterMap Action.moved?)) fun b hb => by
      obtain ⟨x, hx, hbx⟩ := hforced b hb
      exact (mem_forced (hlive hx) hm.dst hbx).1
  have hsub : (m.dst.iter.flatMap (m.forced (script.filterMap Action.moved?))).filterMap
      m.source? ⊆ script.filterMap Action.moved? := by
    intro s hs
    obtain ⟨b, hb, hbs⟩ := List.mem_filterMap.1 hs
    obtain ⟨x, hx, hbx⟩ := hforced b hb
    obtain ⟨hlb, ⟨-, hc⟩ | ⟨-, -, hamong⟩⟩ := mem_forced (hlive hx) hm.dst hbx
    · exact h.mem_of_crosses hm hlb hbs hc
    · simpa [isAmong, hbs] using hamong
  calc ((m.dst.iter.flatMap m.moving).filterMap m.source?).length
      ≤ (m.dst.iter.flatMap m.moving).length := List.length_filterMap_le _ _
    _ ≤ (m.dst.iter.flatMap (m.forced (script.filterMap Action.moved?))).length := hle
    _ = ((m.dst.iter.flatMap (m.forced (script.filterMap Action.moved?))).filterMap
          m.source?).length := hall.symm
    _ ≤ (script.filterMap Action.moved?).length := (hnd.subperm hsub).length_le

/-- **Nor does it relabel fewer.** -/
theorem Fulfilled.length_updated_le :
    ((m.dst.iter.filter m.relabels).filterMap m.source?).length ≤
      (script.filterMap Action.updated?).length := by
  have hlive : ∀ x ∈ m.dst.iter.filter m.relabels, m.dst.arena.isLive x := fun x hx =>
    hm.dst.mem_iter_iff.1 (List.mem_filter.1 hx).1
  have hnd := nodup_filterMap_source? hm (hm.dst.nodup_iter.filter m.relabels) hlive
  refine (hnd.subperm fun s hs => ?_).length_le
  obtain ⟨x, hx, hxs⟩ := List.mem_filterMap.1 hs
  exact h.mem_of_relabels hm (hlive x hx) hxs (List.mem_filter.1 hx).2

end Count

/-! ### Main result -/

theorem countP_move (l : List Action) :
    l.countP (fun a => a.kind == .move) = (l.filterMap Action.moved?).length := by
  rw [List.length_filterMap_eq_countP]
  exact List.countP_congr fun a _ => by cases a <;> simp [Action.kind, Action.moved?]

theorem countP_update (l : List Action) :
    l.countP (fun a => a.kind == .update) = (l.filterMap Action.updated?).length := by
  rw [List.length_filterMap_eq_countP]
  exact List.countP_congr fun a _ => by cases a <;> simp [Action.kind, Action.updated?]

/-- **No script that makes the mapping come true has fewer moves or fewer relabelings** than the
one that is found, as long as child indices fit into a path. -/
theorem editScript_minimal (hs : src.Built) (hd : dst.Built) (hm : Filled src dst m)
    (hr : m.has src.root dst.root)
    (hsize : ∀ n, dst.contains n → (dst.arena.children n).length < 2 ^ 32)
    (hrun : replay src dst script = .ok t) (ht : m.Realised t) :
    ∃ found, m.editScript false = .ok found ∧
      found.countP (fun a => a.kind == .move) ≤ script.countP (fun a => a.kind == .move) ∧
      found.countP (fun a => a.kind == .update) ≤ script.countP (fun a => a.kind == .update) := by
  obtain ⟨hsound, rfl, rfl⟩ := hm.sound hs.wellFormed hd.wellFormed
  have hr' := (hsound.right hsound.src.isLive_root (has_iff.1 hr)).2
  obtain ⟨d, -, hscript, hf⟩ := hsound.exists_draft hr'
  obtain ⟨R, h⟩ := ht.exists_fulfilled hsound
    (fun n hn => Nat.le_of_lt (hsize n (hsound.dst.contains_iff.2 hn))) hrun
  refine ⟨d.script, hscript, ?_, ?_⟩
  · rw [countP_move, countP_move, hf.filterMap_moved? hsound hr']
    exact h.length_moved_le hsound
  · rw [countP_update, countP_update, hf.filterMap_updated? hsound hr']
    exact h.length_updated_le hsound

/-- Two leaves change places by another move than the one that is found. -/
theorem editScript_minimal_crossing : ∃ src dst m script t,
    Tree.fan ⟨"item", 0⟩ "old" ["a", "b"] = .ok src ∧
    Tree.fan ⟨"item", 0⟩ "new" ["b", "a"] = .ok dst ∧ pairing src dst crossing = .ok m ∧
    script = [.move ⟨2, 0⟩ (.src ⟨0, 0⟩) 0, .update ⟨0, 0⟩ "new"] ∧
    replay src dst script = .ok t ∧ m.Realised t ∧ ∃ found, m.editScript false = .ok found ∧
      found.countP (fun a => a.kind == .move) ≤ script.countP (fun a => a.kind == .move) ∧
      found.countP (fun a => a.kind == .update) ≤ script.countP (fun a => a.kind == .update) := by
  -- all that has to be computed
  obtain ⟨src, dst, m, t, hsrc, hdst, hm, hrun, hcontains, hroots, hsize, hiso, hall⟩ :
      ∃ src dst m t, Tree.fan ⟨"item", 0⟩ "old" ["a", "b"] = .ok src ∧
        Tree.fan ⟨"item", 0⟩ "new" ["b", "a"] = .ok dst ∧ pairing src dst crossing = .ok m ∧
        replay src dst [.move ⟨2, 0⟩ (.src ⟨0, 0⟩) 0, .update ⟨0, 0⟩ "new"] = .ok t ∧
        (∀ p ∈ crossing, src.contains p.1 ∧ dst.contains p.2) ∧ m.has src.root dst.root ∧
        (∀ n ∈ dst.preorder, (dst.arena.children n).length < 2 ^ 32) ∧
        t.isomorphicTo m.dst = .ok true ∧
        ∀ s ∈ m.src.preorder, t.contains s = m.hasSrc s ∧
          ∀ x ∈ m.counterpart? s, t.route s = m.dst.route x ∧ t.label? s = m.dst.label? x :=
    ⟨_, _, _, _, rfl, rfl, rfl, rfl, by decide, rfl, by decide, rfl, by decide⟩
  have hs := Tree.built_fan _ _ _ hsrc
  have hd := Tree.built_fan _ _ _ hdst
  have hfilled := filled_pairing crossing hcontains hm
  have hreal := (realised_iff (hfilled.sound hs.wellFormed hd.wellFormed).1
    (wellFormed_of_replay hs.wellFormed hrun)).2 ⟨hiso, hall⟩
  exact ⟨src, dst, m, _, t, hsrc, hdst, hm, rfl, hrun, hreal,
    editScript_minimal hs hd hfilled hroots
      (fun n hn => hsize n (hd.wellFormed.mem_preorder_iff.2 (hd.wellFormed.contains_iff.1 hn)))
      hrun hreal⟩

end Mapping

end TreeScript
