/-
**Why an action stands in a script.**

Every action of a script that keeps the root has its reason in the mapping and the two trees.  A
node is brought in because it has no counterpart, and under what stands for its parent; a source
node is relabeled or moved because its counterpart is labeled otherwise or has a parent; and what
is taken out has no counterpart, alone or with all that is below it.

Main definitions:

* `TreeScript.Mapping.Planned` — **the actions that a mapping gives a reason for**.

Main results:

* `TreeScript.Mapping.planned_of_mem_aligning`, `TreeScript.Mapping.planned_of_mem_removing` —
  plans consist of such actions;
* `TreeScript.Draft.Finished.planned` — **and so do scripts**, up to positions.
-/

import TreeScript.Proofs.EditScript.Moves

set_option relaxedAutoImplicit false
set_option autoImplicit false

namespace TreeScript

theorem Action.node_unplaced (a : Action) : a.unplaced.node = a.node := by cases a <;> rfl

namespace Mapping

variable {m : Mapping} {a : Action} {x y s : NodeId} {l : List NodeId}

/-- **The actions that a mapping gives a reason for**, at position 0. -/
inductive Planned (m : Mapping) : Action → Prop where
  /-- A node without counterpart comes under what stands for its parent. -/
  | insert {x y : NodeId} (hx : m.dst.arena.isLive x) (hs : m.source? x = none)
      (hp : m.dst.arena.parent? x = some y) : Planned m (.insert x (m.ref y) 0)
  | treeInsert {x y : NodeId} (hx : m.dst.arena.isLive x) (hc : m.dstClean x)
      (hp : m.dst.arena.parent? x = some y) : Planned m (.treeInsert x (some (m.ref y)) 0)
  /-- A source node gets the label of its counterpart if it has another one. -/
  | update {s x : NodeId} {label : String} (hx : m.dst.arena.isLive x) (hs : m.source? x = some s)
      (hl : m.dst.label? x = some label) (hne : m.src.label? s ≠ some label) :
      Planned m (.update s label)
  /-- A source node goes under what stands for the parent of its counterpart. -/
  | move {s x y : NodeId} (hx : m.dst.arena.isLive x) (hs : m.source? x = some s)
      (hp : m.dst.arena.parent? x = some y) : Planned m (.move s (m.ref y) 0)
  /-- What goes has no counterpart, nor has what goes with it. -/
  | treeDelete {s : NodeId} (hs : m.src.arena.isLive s) (hc : m.srcClean s) :
      Planned m (.treeDelete s)
  | delete {s : NodeId} (hs : m.src.arena.isLive s) (hn : m.counterpart? s = none) :
      Planned m (.delete s)

/-- The destination nodes that such actions name are there. -/
theorem Planned.contains (ha : m.Planned a) (hd : m.dst.WellFormed) (hx : a.node = .dst x) :
    m.dst.contains x := by
  rw [hd.contains_iff]
  cases ha with
  | insert hlx => exact NodeRef.dst.inj hx ▸ hlx
  | treeInsert hlx => exact NodeRef.dst.inj hx ▸ hlx
  | _ => cases hx

theorem planned_of_mem_relabeling (hx : m.dst.arena.isLive x) (hs : m.source? x = some s)
    (ha : a ∈ m.relabeling s x) : m.Planned a := by
  unfold relabeling at ha
  split at ha
  case h_1 label hlabel =>
    split at ha
    case isTrue => cases ha
    case isFalse hne =>
      obtain rfl := List.mem_singleton.1 ha
      exact .update hx hs hlabel hne
  case h_2 => cases ha

theorem planned_of_mem_bringing (hx : m.dst.arena.isLive x) (hs : m.source? x = some s)
    (hp : m.dst.arena.parent? x = some y) (ha : a ∈ m.bringing s y) : m.Planned a := by
  unfold bringing at ha
  split at ha
  case isTrue => cases ha
  case isFalse =>
    obtain rfl := List.mem_singleton.1 ha
    exact .move hx hs hp

theorem planned_of_mem_arranging (hd : m.dst.WellFormed) (hx : m.dst.arena.isLive x)
    (ha : a ∈ m.arranging x) : m.Planned a := by
  obtain ⟨b, hb, ha⟩ := List.mem_flatMap.1 ha
  obtain ⟨hbx, -, t, -, ht, -⟩ := exists_of_mem_ownTargets hb
  obtain ⟨hlb, hpb⟩ := hd.arena.of_mem_children hx hbx
  unfold arrangingOne at ha
  split at ha
  case isTrue => cases ha
  case isFalse =>
    rw [ht] at ha
    obtain rfl := List.mem_singleton.1 ha
    exact .move hlb ht hpb

theorem planned_of_mem_introducing (hx : m.dst.arena.isLive x) (hs : m.source? x = none)
    (hp : m.dst.arena.parent? x = some y) (ha : a ∈ m.introducing x y) : m.Planned a := by
  unfold introducing at ha
  split at ha
  case isTrue =>
    obtain rfl := List.mem_singleton.1 ha
    exact .insert hx hs hp
  case isFalse hc =>
    obtain rfl := List.mem_singleton.1 ha
    simp only [Bool.or_eq_true, not_or, Bool.not_eq_true', Bool.not_eq_false] at hc
    exact .treeInsert hx hc.2 hp

theorem planned_of_mem_visiting (hd : m.dst.WellFormed) (hx : m.dst.arena.isLive x)
    (ha : a ∈ m.visiting x) : m.Planned a := by
  unfold visiting at ha
  split at ha
  case isTrue => cases ha
  case isFalse =>
    split at ha
    case h_1 => cases ha
    case h_2 y hp =>
      split at ha
      case h_1 s hs =>
        rcases List.mem_append.1 ha with ha | ha
        · rcases List.mem_append.1 ha with ha | ha
          · exact planned_of_mem_relabeling hx hs ha
          · exact planned_of_mem_bringing hx hs hp ha
        · exact planned_of_mem_arranging hd hx ha
      case h_2 hs => exact planned_of_mem_introducing hx hs hp ha

/-- **What all visits come to has its reasons**, -/
theorem planned_of_mem_aligning (hd : m.dst.WellFormed)
    (hr : m.source? m.dst.root = some m.src.root) (ha : a ∈ m.aligning) : m.Planned a := by
  rcases List.mem_append.1 ha with ha | ha
  · rcases List.mem_append.1 ha with ha | ha
    · exact planned_of_mem_relabeling hd.isLive_root hr ha
    · exact planned_of_mem_arranging hd hd.isLive_root ha
  · obtain ⟨x, hx, ha⟩ := List.mem_flatMap.1 ha
    exact planned_of_mem_visiting hd (hd.mem_iter_iff.1 hx) ha

/-- and so has taking out what is left over. -/
theorem planned_of_mem_removing (hs : m.src.arena.isLive s) (hn : m.counterpart? s = none)
    (ha : a ∈ m.removing s) : m.Planned a := by
  unfold removing at ha
  split at ha
  case isTrue => cases ha
  case isFalse =>
    split at ha
    case isTrue hc =>
      obtain rfl := List.mem_singleton.1 ha
      exact .treeDelete hs (Bool.and_eq_true_iff.1 hc).1
    case isFalse =>
      obtain rfl := List.mem_singleton.1 ha
      exact .delete hs hn

end Mapping

/-- **The mapping gives a reason for every action of a script**, up to positions. -/
theorem Draft.Finished.planned {m : Mapping} {d : Draft} {a : Action} (hf : Finished m d)
    (hd : m.dst.WellFormed) (hr : m.source? m.dst.root = some m.src.root) (ha : a ∈ d.script) :
    m.Planned a.unplaced := by
  obtain ⟨l, -, hmem, htold⟩ := hf.told
  have hplan : a.unplaced ∈ m.aligning ++ l.flatMap m.removing := by
    rw [← htold]
    exact List.mem_map_of_mem ha
  rcases List.mem_append.1 hplan with hplan | hplan
  · exact Mapping.planned_of_mem_aligning hd hr hplan
  · obtain ⟨s, hs, hplan⟩ := List.mem_flatMap.1 hplan
    obtain ⟨hl, hn⟩ := (hmem s).1 hs
    exact Mapping.planned_of_mem_removing hl hn hplan

end TreeScript
