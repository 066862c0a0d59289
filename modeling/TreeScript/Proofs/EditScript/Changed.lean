/-
**What a script changes of the nodes that stay.**

Whatever else is moved, brought in and arranged in the meantime, it is the mapping that decides
which source nodes a script relabels and moves.  A node is relabeled if its counterpart has another
label.  It is moved if its counterpart has another parent, and then it goes under what stands for
that; of the children that two counterparts have in common, those that are not moved are a longest
common subsequence of the two orders.  No node is moved or relabeled twice.

Main definitions:

* `TreeScript.Mapping.shared` — the children that two counterparts have in common;
* `TreeScript.Mapping.Changes` — **what a script changes of the nodes that stay**.

Main results:

* `TreeScript.Draft.Finished.mem_moved_iff` — the source nodes that are moved;
* `TreeScript.Draft.Finished.exists_common` — **what is not moved is a longest common
  subsequence**;
* `TreeScript.Mapping.editScript_changes` — **what every script changes**.
-/

import Mathlib.Data.List.Flatten
import TreeScript.Proofs.EditScript.Coverage
import TreeScript.Proofs.EditScript.Minimal
import TreeScript.Proofs.EditScript.Planned
import TreeScript.Proofs.Tree.ChildLists

set_option relaxedAutoImplicit false
set_option autoImplicit false

namespace TreeScript

open CommonSubsequence (Common)

/-! ### How often a node is moved or relabeled -/

namespace Action

theorem occurrences_move (script : List Action) (s : NodeId) :
    occurrences script .move (.src s) = (script.filterMap moved?).count s :=
  occurrences_eq_count (fun a => by cases a <;> simp [kind, node, moved?]) script

theorem occurrences_update (script : List Action) (s : NodeId) :
    occurrences script .update (.src s) = (script.filterMap updated?).count s :=
  occurrences_eq_count (fun a => by cases a <;> simp [kind, node, updated?]) script

end Action

namespace Mapping

variable {m : Mapping} {src dst : Tree} {s x y p b : NodeId}

/-- **The children of `p` whose counterparts are children of `y`**, in the order of the source. -/
def shared (m : Mapping) (p y : NodeId) : List NodeId :=
  (m.src.arena.children p).filter fun s =>
    (m.counterpart? s).any fun x => x ∈ m.dst.arena.children y

theorem mem_shared_iff : s ∈ m.shared p y ↔ s ∈ m.src.arena.children p ∧
    ∃ x, m.counterpart? s = some x ∧ x ∈ m.dst.arena.children y := by
  rw [shared, List.mem_filter, Option.any_eq_true]
  simp only [decide_eq_true_eq]

/-- They are the children in common that the plan looks at. -/
theorem shared_eq_ownSources (hm : m.Sound) (hp : m.src.arena.isLive p)
    (hpy : m.counterpart? p = some y) : m.shared p y = m.ownSources y := by
  obtain ⟨hy, hyp⟩ := hm.right hp hpy
  rw [shared, ownSources, hyp]
  refine List.filter_congr fun s hs => ?_
  cases hx : m.counterpart? s with
  | none => rfl
  | some x =>
      have hlx := (hm.right (hm.src.arena.isLive_of_mem hp hs) hx).1
      rw [Option.any_some, Bool.eq_iff_iff, decide_eq_true_iff, beq_iff_eq,
        hm.dst.arena.mem_children_iff hy hlx]

/-- A common subsequence of the lists of all children is one of the children in common. -/
theorem common_own (hm : m.Sound) (hp : m.src.arena.isLive p) (hpy : m.counterpart? p = some y)
    {pairs : List (NodeId × NodeId)}
    (h : Common m.has (m.src.arena.children p) (m.dst.arena.children y) pairs) :
    Common m.has (m.ownSources y) (m.ownTargets y) pairs := by
  obtain ⟨hy, hyp⟩ := hm.right hp hpy
  have hpair : ∀ e ∈ pairs, e.1 ∈ m.src.arena.children p ∧ e.2 ∈ m.dst.arena.children y ∧
      m.counterpart? e.1 = some e.2 := fun e he =>
    ⟨h.fst.subset (List.mem_map_of_mem he), h.snd.subset (List.mem_map_of_mem he),
      has_iff.1 (h.rel e he)⟩
  have hsource : ∀ s ∈ pairs.map Prod.fst,
      (m.counterpart? s).any (fun x => x ∈ m.dst.arena.children y) = true := by
    intro s hs
    obtain ⟨e, he, rfl⟩ := List.mem_map.1 hs
    obtain ⟨-, hey, hex⟩ := hpair e he
    simp [hex, hey]
  have htarget : ∀ x ∈ pairs.map Prod.snd, x ∈ m.ownTargets y := by
    intro x hx
    obtain ⟨e, he, rfl⟩ := List.mem_map.1 hx
    obtain ⟨hep, hey, hex⟩ := hpair e he
    obtain ⟨hle, hpe⟩ := hm.src.arena.of_mem_children hp hep
    exact (mem_ownTargets_iff hyp).2 ⟨hey, e.1, (hm.right hle hex).2, hpe⟩
  refine ⟨?_, ?_, h.rel⟩
  · rw [← shared_eq_ownSources hm hp hpy, shared, ← List.filter_eq_self.2 hsource]
    exact h.fst.filter _
  · rw [ownTargets, hyp] at htarget ⊢
    refine List.Sublist.trans ?_ (h.snd.filter _)
    rw [List.filter_eq_self.2 fun x hx => (List.mem_filter.1 (htarget x hx)).2]

/-- **A longest common subsequence of the children of two counterparts.** -/
theorem exists_longest (hm : m.Sound) (hp : m.src.arena.isLive p)
    (hpy : m.counterpart? p = some y) :
    ∃ pairs, Common m.has (m.src.arena.children p) (m.dst.arena.children y) pairs ∧
      (∀ other, Common m.has (m.src.arena.children p) (m.dst.arena.children y) other →
        other.length ≤ pairs.length) ∧
      (pairs.map Prod.fst).Sublist (m.shared p y) ∧ pairs.map Prod.snd = m.stay y := by
  have hcommon := common_stay m y
  have hown := shared_eq_ownSources hm hp hpy
  refine ⟨_, ⟨?_, hcommon.snd.trans (ownTargets_sublist y), hcommon.rel⟩,
    fun other h => length_le_longestCommon (common_own hm hp hpy h), hown ▸ hcommon.fst, rfl⟩
  refine hcommon.fst.trans ?_
  rw [← hown]
  exact List.filter_sublist

/-- If the two orders agree, nothing is left out of a longest common subsequence. -/
theorem length_shared_le {pairs : List (NodeId × NodeId)}
    (hlongest : ∀ other, Common m.has (m.src.arena.children p) (m.dst.arena.children y) other →
      other.length ≤ pairs.length)
    (hagree : ((m.shared p y).filterMap m.counterpart?).Sublist (m.dst.arena.children y)) :
    (m.shared p y).length ≤ pairs.length := by
  have hrel : List.Forall₂ (fun s x => m.has s x) (m.shared p y)
      ((m.shared p y).filterMap m.counterpart?) := by
    refine forall₂_filterMap fun s hs => ?_
    obtain ⟨-, x, hx, -⟩ := mem_shared_iff.1 hs
    exact ⟨x, hx, has_iff.2 hx⟩
  have hlen := hrel.length_eq
  have hcommon := hlongest ((m.shared p y).zip ((m.shared p y).filterMap m.counterpart?))
    { fst := by
        rw [List.map_fst_zip hlen.le]
        exact List.filter_sublist
      snd := by rwa [List.map_snd_zip hlen.ge]
      rel := fun e he => List.forall₂_zip hrel he }
  rwa [List.length_zip, ← hlen, Nat.min_self] at hcommon

/-- What a plan moves at a node it looks at there. -/
theorem moving_sublist_forced (hm : m.Sound) (hx : m.dst.arena.isLive x) :
    (m.moving x).Sublist (m.forced m.src.preorder x) := by
  have hall : ∀ b ∈ m.ownTargets x, m.isAmong m.src.preorder b := by
    intro b hb
    obtain ⟨hbx, -, t, -, ht, -⟩ := exists_of_mem_ownTargets hb
    have hlt := (hm.left (hm.dst.arena.isLive_of_mem hx hbx) ht).1
    simp [isAmong, ht, hm.src.mem_preorder_iff.2 hlt]
  rw [moving, forced, List.filter_eq_self.2 hall]
  exact (List.Sublist.refl _).append List.filter_sublist

end Mapping

/-! ### The nodes that are moved and relabeled -/

namespace Draft.Finished

open Mapping

variable {m : Mapping} {d : Draft} {s x y p b : NodeId} {label : String} {parent : NodeRef}
  {k : Nat} (hf : Finished m d) (hm : m.Sound) (hr : m.source? m.dst.root = some m.src.root)

include hf hm hr

/-- No source node is moved twice, -/
theorem nodup_moved : (d.script.filterMap Action.moved?).Nodup := by
  have hlive : ∀ {x}, x ∈ m.dst.iter → m.dst.arena.isLive x := hm.dst.mem_iter_iff.1
  have hsub : (m.dst.iter.flatMap m.moving).Sublist
      (m.dst.iter.flatMap (m.forced m.src.preorder)) :=
    List.Sublist.flatMap_right _ fun x hx => moving_sublist_forced hm (hlive hx)
  rw [hf.filterMap_moved? hm hr]
  refine nodup_filterMap_source? hm ((nodup_flatMap_forced hm.dst _).sublist hsub) fun b hb => ?_
  obtain ⟨x, hx, hbx⟩ := List.mem_flatMap.1 (hsub.subset hb)
  exact (mem_forced (hlive hx) hm.dst hbx).1

/-- and none is relabeled twice. -/
theorem nodup_updated : (d.script.filterMap Action.updated?).Nodup := by
  rw [hf.filterMap_updated? hm hr]
  exact nodup_filterMap_source? hm (hm.dst.nodup_iter.filter m.relabels) fun x hx =>
    hm.dst.mem_iter_iff.1 (List.mem_filter.1 hx).1

/-- **The counterpart of a node is moved** if it is under another parent, or does not stay among
the children of the same one. -/
theorem mem_moved_iff (hx : m.dst.arena.isLive x) (hs : m.source? x = some s) :
    s ∈ d.script.filterMap Action.moved? ↔
      m.crosses x ∨ ∃ y, m.dst.arena.isLive y ∧ x ∈ m.reordered y := by
  rw [hf.filterMap_moved? hm hr, List.mem_filterMap]
  constructor
  · rintro ⟨x', hx', hs'⟩
    obtain ⟨y, hy, hx'⟩ := List.mem_flatMap.1 hx'
    have hy := hm.dst.mem_iter_iff.1 hy
    have hlx' : m.dst.arena.isLive x' :=
      (mem_forced hy hm.dst ((moving_sublist_forced hm hy).subset hx')).1
    -- a node has one counterpart
    obtain rfl := Option.some.inj ((hm.left hlx' hs').2.symm.trans (hm.left hx hs).2)
    rcases List.mem_append.1 hx' with hc | hc
    · split at hc
      case isTrue hc' => exact Or.inl (List.mem_singleton.1 hc ▸ hc')
      case isFalse => cases hc
    · exact Or.inr ⟨y, hy, hc⟩
  · rintro (hc | ⟨y, hy, hc⟩)
    · refine ⟨x, List.mem_flatMap.2 ⟨x, hm.dst.mem_iter_iff.2 hx, ?_⟩, hs⟩
      rw [moving, if_pos hc]
      exact List.mem_cons_self
    · exact ⟨x, List.mem_flatMap.2 ⟨y, hm.dst.mem_iter_iff.2 hy, List.mem_append_right _ hc⟩, hs⟩

/-- A child that two counterparts have in common is moved if it does not stay. -/
theorem mem_moved_iff_of_own (hy : m.dst.arena.isLive y) (hb : b ∈ m.ownTargets y)
    (hs : m.source? b = some s) : s ∈ d.script.filterMap Action.moved? ↔ b ∉ m.stay y := by
  obtain ⟨hby, p, t, hp, ht, htp⟩ := exists_of_mem_ownTargets hb
  obtain ⟨hlb, hpb⟩ := hm.dst.arena.of_mem_children hy hby
  obtain rfl := Option.some.inj (hs.symm.trans ht)
  have hcross : ¬ m.crosses b := fun hc => (crosses_iff hs hpb).1 hc (htp.trans hp.symm)
  rw [hf.mem_moved_iff hm hr hlb hs, or_iff_right hcross]
  constructor
  · rintro ⟨y', hy', hby'⟩
    obtain ⟨hown, hstay⟩ := List.mem_filter.1 hby'
    have hpb' := hm.dst.arena.parent?_of_mem hy' ((ownTargets_sublist y').subset hown)
    obtain rfl := Option.some.inj (hpb.symm.trans hpb')
    simpa using hstay
  · exact fun hstay => ⟨y, hy, List.mem_filter.2 ⟨hb, by simpa using hstay⟩⟩

/-- **What is not moved is a longest common subsequence** of the children of two counterparts. -/
theorem exists_common (hp : m.src.arena.isLive p) (hpy : m.counterpart? p = some y) :
    ∃ pairs, Common m.has (m.src.arena.children p) (m.dst.arena.children y) pairs ∧
      (∀ other, Common m.has (m.src.arena.children p) (m.dst.arena.children y) other →
        other.length ≤ pairs.length) ∧
      pairs.map Prod.fst = (m.shared p y).filter
        fun s => Action.occurrences d.script .move (.src s) = 0 := by
  obtain ⟨hy, hyp⟩ := hm.right hp hpy
  obtain ⟨pairs, hcommon, hlongest, hsub, hsnd⟩ := exists_longest hm hp hpy
  refine ⟨pairs, hcommon, hlongest, ?_⟩
  have hnd : (m.shared p y).Nodup := (hm.src.arena.nodup_children hp).filter _
  rw [← filter_mem_of_sublist hsub hnd]
  refine List.filter_congr fun s hs => ?_
  obtain ⟨hsp, b, hsb, hby⟩ := mem_shared_iff.1 hs
  obtain ⟨hls, hps⟩ := hm.src.arena.of_mem_children hp hsp
  have hbs := (hm.right hls hsb).2
  have hown : b ∈ m.ownTargets y := (mem_ownTargets_iff hyp).2 ⟨hby, s, hbs, hps⟩
  rw [decide_eq_decide, Action.occurrences_move, List.count_eq_zero,
    hf.mem_moved_iff_of_own hm hr hy hown hbs, not_not, ← hsnd]
  constructor
  · intro hmem
    obtain ⟨e, he, rfl⟩ := List.mem_map.1 hmem
    obtain rfl := Option.some.inj ((has_iff.1 (hcommon.rel e he)).symm.trans hsb)
    exact List.mem_map_of_mem he
  · intro hmem
    obtain ⟨e, he, rfl⟩ := List.mem_map.1 hmem
    have hle := hm.src.arena.isLive_of_mem hp (hcommon.fst.subset (List.mem_map_of_mem he))
    obtain rfl := hm.counterpart?_inj hle hls (has_iff.1 (hcommon.rel e he)) hsb
    exact List.mem_map_of_mem he

/-- What is moved has a counterpart with a parent, and goes under what stands for that. -/
theorem of_move_mem (ha : .move s parent k ∈ d.script) : ∃ x y, m.dst.arena.isLive x ∧
    m.source? x = some s ∧ m.dst.arena.parent? x = some y ∧ parent = m.ref y := by
  have hplanned : m.Planned (.move s parent 0) := hf.planned hm.dst hr ha
  cases hplanned with
  | move hx hs hp => exact ⟨_, _, hx, hs, hp, rfl⟩

/-- **A node is relabeled to the label of its counterpart**, if that is another one. -/
theorem update_mem_iff : .update s label ∈ d.script ↔ ∃ x, m.dst.arena.isLive x ∧
    m.source? x = some s ∧ m.dst.label? x = some label ∧ m.src.label? s ≠ some label := by
  have hto : ∀ {label}, .update s label ∈ d.script → ∃ x, m.dst.arena.isLive x ∧
      m.source? x = some s ∧ m.dst.label? x = some label ∧ m.src.label? s ≠ some label := by
    intro label ha
    have hplanned : m.Planned (.update s label) := hf.planned hm.dst hr ha
    cases hplanned with
    | update hx hs hl hne => exact ⟨_, hx, hs, hl, hne⟩
  refine ⟨hto, ?_⟩
  rintro ⟨x, hx, hs, hl, hne⟩
  have hmem : s ∈ d.script.filterMap Action.updated? := by
    rw [hf.filterMap_updated? hm hr]
    refine List.mem_filterMap.2 ⟨x, List.mem_filter.2 ⟨hm.dst.mem_iter_iff.2 hx, ?_⟩, hs⟩
    exact (relabels_iff hs).2 (hl ▸ hne)
  obtain ⟨a, ha, hup⟩ := List.mem_filterMap.1 hmem
  cases a with
  | update s' label' =>
      obtain rfl := Option.some.inj hup
      obtain ⟨x', hx', hs', hl', -⟩ := hto ha
      obtain rfl := Option.some.inj ((hm.left hx' hs').2.symm.trans (hm.left hx hs).2)
      obtain rfl := Option.some.inj (hl'.symm.trans hl)
      exact ha
  | _ => cases hup

end Draft.Finished

/-! ### Main result -/

namespace Mapping

variable {m : Mapping} {src dst : Tree}

/-- **What a script changes of the nodes that stay.** -/
structure Changes (m : Mapping) (script : List Action) : Prop where
  /-- A node is relabeled if its counterpart has another label, to that label, and once. -/
  update_mem_iff : ∀ s label, .update s label ∈ script ↔ m.src.contains s ∧
    ∃ x, m.counterpart? s = some x ∧ m.dst.label x = .ok label ∧ m.src.label s ≠ .ok label
  update_once : ∀ s, Action.occurrences script .update (.src s) ≤ 1
  /-- Nodes with counterparts are moved, but not the root, and each at most once. -/
  of_move_mem : ∀ s parent k, .move s parent k ∈ script →
    m.src.contains s ∧ m.hasSrc s ∧ s ≠ m.src.root
  move_once : ∀ s, Action.occurrences script .move (.src s) ≤ 1
  /-- A node is moved if its parent is not the counterpart of that of its counterpart, and it is
  moved under what stands for the parent of its counterpart. -/
  crossing : ∀ s x y q, m.src.contains s → m.counterpart? s = some x →
    m.dst.parent? x = .ok (some y) → m.src.parent? s = .ok q → q ≠ m.source? y →
      Action.occurrences script .move (.src s) = 1 ∧
        ∀ parent k, .move s parent k ∈ script → parent = m.ref y
  /-- The children that two counterparts have in common and that are not moved are a longest
  common subsequence of the lists of their children, -/
  exists_common : ∀ p y, m.src.contains p → m.counterpart? p = some y →
    ∃ pairs, Common m.has (m.src.arena.children p) (m.dst.arena.children y) pairs ∧
      (∀ other, Common m.has (m.src.arena.children p) (m.dst.arena.children y) other →
        other.length ≤ pairs.length) ∧
      pairs.map Prod.fst = (m.shared p y).filter
        fun s => Action.occurrences script .move (.src s) = 0
  /-- so that none is moved when the two orders agree. -/
  agreeing : ∀ p y, m.src.contains p → m.counterpart? p = some y →
    ((m.shared p y).filterMap m.counterpart?).Sublist (m.dst.arena.children y) →
      ∀ s ∈ m.shared p y, Action.occurrences script .move (.src s) = 0

theorem label_eq_ok_iff {t : Tree} {n : NodeId} {label : String} (hn : t.arena.isLive n) :
    t.label n = .ok label ↔ t.label? n = some label := by
  obtain ⟨l, hl⟩ := Tree.exists_label? hn
  rw [Tree.label_eq_ok_of_label? hl, hl, Except.ok.injEq, Option.some_inj]

/-- **A finished draft changes what it should.** -/
theorem changes_of_finished {d : Draft} (hf : Draft.Finished m d) (hm : m.Sound)
    (hr : m.source? m.dst.root = some m.src.root) : m.Changes d.script where
  update_mem_iff := by
    intro s label
    rw [hf.update_mem_iff hm hr]
    constructor
    · rintro ⟨x, hx, hs, hl, hne⟩
      obtain ⟨hls, hsx⟩ := hm.left hx hs
      exact ⟨hm.src.contains_iff.2 hls, x, hsx, (label_eq_ok_iff hx).2 hl,
        (label_eq_ok_iff hls).not.2 hne⟩
    · rintro ⟨hs, x, hsx, hl, hne⟩
      have hs := hm.src.contains_iff.1 hs
      obtain ⟨hx, hxs⟩ := hm.right hs hsx
      exact ⟨x, hx, hxs, (label_eq_ok_iff hx).1 hl, (label_eq_ok_iff hs).not.1 hne⟩
  update_once := by
    intro s
    rw [Action.occurrences_update]
    exact List.nodup_iff_count_le_one.1 (hf.nodup_updated hm hr) s
  of_move_mem := by
    intro s parent k ha
    obtain ⟨x, y, hx, hs, hp, -⟩ := hf.of_move_mem hm hr ha
    obtain ⟨hls, hsx⟩ := hm.left hx hs
    refine ⟨hm.src.contains_iff.2 hls, hasSrc_iff.2 ⟨x, hsx⟩, ?_⟩
    -- the counterpart of the root has no parent
    rintro rfl
    obtain ⟨-, hroot⟩ := hm.left hm.dst.isLive_root hr
    obtain rfl := Option.some.inj (hsx.symm.trans hroot)
    exact hm.dst.ne_root_of_parent? hp rfl
  move_once := by
    intro s
    rw [Action.occurrences_move]
    exact List.nodup_iff_count_le_one.1 (hf.nodup_moved hm hr) s
  crossing := by
    intro s x y q hs hsx hy hq hne
    have hs := hm.src.contains_iff.1 hs
    obtain ⟨hx, hxs⟩ := hm.right hs hsx
    have hy := Except.ok.inj ((Tree.parent?_eq_ok hx).symm.trans hy)
    have hq := Except.ok.inj ((Tree.parent?_eq_ok hs).symm.trans hq)
    have hmoved := (hf.mem_moved_iff hm hr hx hxs).2 (Or.inl ((crosses_iff hxs hy).2 (hq ▸ hne)))
    rw [Action.occurrences_move]
    refine ⟨List.count_eq_one_of_mem (hf.nodup_moved hm hr) hmoved, fun parent k ha => ?_⟩
    obtain ⟨x', y', hx', hs', hp', rfl⟩ := hf.of_move_mem hm hr ha
    obtain rfl := Option.some.inj ((hm.left hx' hs').2.symm.trans hsx)
    obtain rfl := Option.some.inj (hp'.symm.trans hy)
    rfl
  exists_common := fun p y hp hpy => hf.exists_common hm hr (hm.src.contains_iff.1 hp) hpy
  agreeing := by
    intro p y hp hpy hagree s hs
    obtain ⟨pairs, -, hlongest, hfst⟩ := hf.exists_common hm hr (hm.src.contains_iff.1 hp) hpy
    have hle := length_shared_le hlongest hagree
    rw [← List.length_map Prod.fst, hfst] at hle
    have hall := List.filter_eq_self.1 (List.filter_sublist.eq_of_length_le hle)
    exact of_decide_eq_true (hall s hs)

/-- **What every script changes of the nodes that stay**, if the roots are counterparts. -/
theorem editScript_changes (hs : src.Built) (hd : dst.Built) (hm : Filled src dst m)
    (hr : m.has src.root dst.root) :
    ∃ script, m.editScript false = .ok script ∧ m.Changes script := by
  obtain ⟨hsound, rfl, rfl⟩ := hm.sound hs.wellFormed hd.wellFormed
  have hr' := (hsound.right hsound.src.isLive_root (has_iff.1 hr)).2
  obtain ⟨d, -, hscript, hf⟩ := hsound.exists_draft hr'
  exact ⟨d.script, hscript, changes_of_finished hf hsound hr'⟩

/-- Of two leaves that change places one is moved, and the root gets another label. -/
theorem editScript_changes_crossing : ∃ src dst m,
    Tree.fan ⟨"item", 0⟩ "old" ["a", "b"] = .ok src ∧
    Tree.fan ⟨"item", 0⟩ "new" ["b", "a"] = .ok dst ∧ pairing src dst crossing = .ok m ∧
    m.has src.root dst.root ∧ ∃ script, m.editScript false = .ok script ∧ m.Changes script :=
  ⟨_, _, _, rfl, rfl, rfl, rfl, editScript_changes
    (Tree.built_fan ⟨"item", 0⟩ "old" ["a", "b"] rfl)
    (Tree.built_fan ⟨"item", 0⟩ "new" ["b", "a"] rfl)
    (filled_pairing crossing (by decide) rfl) rfl⟩

end Mapping

end TreeScript
