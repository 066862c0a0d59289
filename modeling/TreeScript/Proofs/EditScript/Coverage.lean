/-
**What comes and what goes.**

A script brings in the destination nodes without counterparts and takes out the source nodes
without counterparts, each once: a subtree in which no node has a counterpart comes or goes in one
piece, and everything else comes and goes node by node.  Moves and relabelings do not matter here,
so that all of this is true of quiet scripts too.

Main definitions:

* `TreeScript.Action.arrival?`, `TreeScript.Action.departure?` — what an action brings in or takes
  out, and whether alone or not;
* `TreeScript.Action.makes`, `TreeScript.Action.unmakes` — an action brings in or takes out a
  node, be it together with others;
* `TreeScript.Mapping.Covers` — **a script brings in and takes out what it should, each once**.

Main results:

* `TreeScript.Draft.Finished.filterMap_arrival?` — what comes and what goes, in order;
* `TreeScript.Mapping.Covers.of_filterMap` — from this it is counted;
* `TreeScript.Mapping.editScript_covers` — **every script covers what comes and goes**.
-/

import TreeScript.Proofs.EditScript.Moves
import TreeScript.Proofs.EditScript.Quiet
import TreeScript.Proofs.Tree.Pieces

set_option relaxedAutoImplicit false
set_option autoImplicit false

namespace TreeScript

/-! ### What an action brings in or takes out -/

namespace Action

/-- What the action brings in. -/
def arrival? : Action → Option (ActionKind × NodeId)
  | insert x _ _ => some (.insert, x)
  | treeInsert x _ _ => some (.treeInsert, x)
  | _ => none

/-- What the action takes out. -/
def departure? : Action → Option (ActionKind × NodeId)
  | delete s => some (.delete, s)
  | treeDelete s => some (.treeDelete, s)
  | _ => none

/-- The action brings in destination node `x`, alone or with a subtree that it is in. -/
def makes (dst : Tree) (x : NodeId) : Action → Bool
  | insert y _ _ => y = x
  | treeInsert y _ _ => x ∈ dst.arena.preorder y
  | _ => false

/-- The action takes out source node `s`, alone or with a subtree that it is in. -/
def unmakes (src : Tree) (s : NodeId) : Action → Bool
  | delete q => q = s
  | treeDelete q => s ∈ src.arena.preorder q
  | _ => false

/-- How often a script does something to a node. -/
def occurrences (script : List Action) (kind : ActionKind) (ref : NodeRef) : Nat :=
  script.countP fun a => a.kind = kind ∧ a.node = ref

section Counting

variable {l : List Action}

theorem arrival?_eq_some_iff {a : Action} {k : ActionKind} {x : NodeId} :
    a.arrival? = some (k, x) ↔ (k = .insert ∨ k = .treeInsert) ∧ a.kind = k ∧ a.node = .dst x := by
  cases a <;> simp only [arrival?, kind, node, Option.some_inj, Prod.mk.injEq] <;> grind

theorem departure?_eq_some_iff {a : Action} {k : ActionKind} {s : NodeId} :
    a.departure? = some (k, s) ↔
      (k = .delete ∨ k = .treeDelete) ∧ a.kind = k ∧ a.node = .src s := by
  cases a <;> simp only [departure?, kind, node, Option.some_inj, Prod.mk.injEq] <;> grind

/-- What is done to a node is counted in a list that has an entry for each time. -/
theorem occurrences_eq_count {β : Type} [BEq β] [LawfulBEq β] {f : Action → Option β}
    {kind : ActionKind} {ref : NodeRef} {b : β}
    (hf : ∀ a : Action, a.kind = kind ∧ a.node = ref ↔ f a = some b) (script : List Action) :
    occurrences script kind ref = (script.filterMap f).count b := by
  rw [occurrences, List.count, List.countP_filterMap]
  refine List.countP_congr fun a _ => ?_
  rw [decide_eq_true_iff, hf]
  cases f a <;> simp

theorem occurrences_dst {kind : ActionKind} (hk : kind = .insert ∨ kind = .treeInsert)
    (script : List Action) (x : NodeId) :
    occurrences script kind (.dst x) = (script.filterMap arrival?).count (kind, x) :=
  occurrences_eq_count (fun _ => by rw [arrival?_eq_some_iff, and_iff_right hk]) script

theorem occurrences_src {kind : ActionKind} (hk : kind = .delete ∨ kind = .treeDelete)
    (script : List Action) (s : NodeId) :
    occurrences script kind (.src s) = (script.filterMap departure?).count (kind, s) :=
  occurrences_eq_count (fun _ => by rw [departure?_eq_some_iff, and_iff_right hk]) script

theorem countP_makes (dst : Tree) (script : List Action) (x : NodeId) :
    script.countP (makes dst x) =
      (script.filterMap arrival?).countP (dst.reaches .insert .treeInsert x) := by
  rw [List.countP_filterMap]
  exact List.countP_congr fun a _ => by cases a <;> simp [makes, arrival?, Tree.reaches]

theorem countP_unmakes (src : Tree) (script : List Action) (s : NodeId) :
    script.countP (unmakes src s) =
      (script.filterMap departure?).countP (src.reaches .delete .treeDelete s) := by
  rw [List.countP_filterMap]
  exact List.countP_congr fun a _ => by cases a <;> simp [unmakes, departure?, Tree.reaches]

/-- Moves and relabelings bring nothing in and take nothing out. -/
theorem arrival?_of_isMoveOrUpdate {a : Action} (h : a.isMoveOrUpdate) :
    a.arrival? = none ∧ a.departure? = none := by
  cases a with
  | move | update => exact ⟨rfl, rfl⟩
  | _ => cases h

theorem filterMap_of_isMoveOrUpdate (h : ∀ a ∈ l, a.isMoveOrUpdate) :
    l.filterMap arrival? = [] ∧ l.filterMap departure? = [] :=
  ⟨List.filterMap_eq_nil_iff.2 fun a ha => (arrival?_of_isMoveOrUpdate (h a ha)).1,
    List.filterMap_eq_nil_iff.2 fun a ha => (arrival?_of_isMoveOrUpdate (h a ha)).2⟩

/-- So a quiet script brings in and takes out what the full one does. -/
theorem filterMap_quiet (script : List Action) :
    (script.filter fun a => !a.isMoveOrUpdate).filterMap arrival? = script.filterMap arrival? ∧
      (script.filter fun a => !a.isMoveOrUpdate).filterMap departure? =
        script.filterMap departure? := by
  rw [List.filterMap_filter, List.filterMap_filter]
  constructor
  · exact List.filterMap_congr fun a _ => by cases a <;> rfl
  · exact List.filterMap_congr fun a _ => by cases a <;> rfl

end Counting

end Action

/-! ### What comes and goes in a plan -/

namespace Mapping

variable {m : Mapping} {x y s : NodeId} {a : Action}

theorem isMoveOrUpdate_of_mem_relabeling (h : a ∈ m.relabeling s x) : a.isMoveOrUpdate := by
  unfold relabeling at h
  split at h
  · split at h
    · cases h
    · obtain rfl := List.mem_singleton.1 h
      rfl
  · cases h

theorem isMoveOrUpdate_of_mem_bringing (h : a ∈ m.bringing s y) : a.isMoveOrUpdate := by
  unfold bringing at h
  split at h
  · cases h
  · obtain rfl := List.mem_singleton.1 h
    rfl

theorem isMoveOrUpdate_of_mem_arranging (h : a ∈ m.arranging x) : a.isMoveOrUpdate := by
  obtain ⟨b, -, h⟩ := List.mem_flatMap.1 h
  unfold arrangingOne at h
  split at h
  · cases h
  · obtain ⟨t, -, rfl⟩ := List.mem_map.1 h
    rfl

theorem underClean_eq_carried (x : NodeId) : m.dst.underClean m.hasDst x = m.carried x := by
  rw [Tree.underClean, carried]
  cases m.dst.arena.parent? x <;> rfl

/-- What is brought in when a node is visited. -/
theorem filterMap_arrival?_visiting (hd : m.dst.WellFormed) (hl : m.dst.arena.isLive x)
    (hp : m.dst.arena.parent? x = some y) :
    (m.visiting x).filterMap Action.arrival? =
        (m.dst.turn? m.hasDst .insert .treeInsert x).toList ∧
      (m.visiting x).filterMap Action.departure? = [] := by
  have hunder := underClean_eq_carried (m := m) x
  by_cases hc : m.carried x
  · -- it comes with its parent
    rw [hd.turn?_of_underClean hl (hunder.trans hc), visiting, if_pos hc]
    exact ⟨rfl, rfl⟩
  · cases hs : m.source? x with
    | some s =>
        rw [hd.turn?_of_kept hl (by rw [hasDst, hs]; rfl), visiting, if_neg hc, hp, hs]
        refine Action.filterMap_of_isMoveOrUpdate fun a ha => ?_
        rcases List.mem_append.1 ha with ha | ha
        · rcases List.mem_append.1 ha with ha | ha
          · exact isMoveOrUpdate_of_mem_relabeling ha
          · exact isMoveOrUpdate_of_mem_bringing ha
        · exact isMoveOrUpdate_of_mem_arranging ha
    | none =>
        have hvisit : m.visiting x = m.introducing x y := by rw [visiting, if_neg hc, hp, hs]
        rw [Bool.not_eq_true] at hc
        rw [hvisit, Tree.turn?_of_not_kept (hasDst_eq_false_iff.2 hs) (hunder.trans hc), introducing]
        have hclean : m.dst.clean m.hasDst x = m.dstClean x := rfl
        rw [hclean]
        split
        · exact ⟨rfl, rfl⟩
        · exact ⟨rfl, rfl⟩

/-- What all visits bring in. -/
theorem filterMap_arrival?_aligning (hm : m.Sound) (hr : m.source? m.dst.root = some m.src.root) :
    m.aligning.filterMap Action.arrival? =
        m.dst.iter.filterMap (m.dst.turn? m.hasDst .insert .treeInsert) ∧
      m.aligning.filterMap Action.departure? = [] := by
  obtain ⟨l, hiter, hl⟩ := exists_iter_eq_cons hm.dst
  have hroot : m.dst.turn? m.hasDst .insert .treeInsert m.dst.root = none :=
    hm.dst.turn?_of_kept hm.dst.isLive_root (by rw [hasDst, hr]; rfl)
  obtain ⟨hrel, hrel'⟩ := Action.filterMap_of_isMoveOrUpdate
    (l := m.relabeling m.src.root m.dst.root) fun a => isMoveOrUpdate_of_mem_relabeling
  obtain ⟨har, har'⟩ := Action.filterMap_of_isMoveOrUpdate
    (l := m.arranging m.dst.root) fun a => isMoveOrUpdate_of_mem_arranging
  have hvisit : (l.flatMap m.visiting).filterMap Action.arrival? =
      l.filterMap (m.dst.turn? m.hasDst .insert .treeInsert) := by
    rw [List.filterMap_flatMap, List.filterMap_eq_flatMap_toList]
    refine List.flatMap_congr fun x hx => ?_
    obtain ⟨hlx, y, hp⟩ := hl x hx
    exact (filterMap_arrival?_visiting hm.dst hlx hp).1
  have hvisit' : (l.flatMap m.visiting).filterMap Action.departure? = [] := by
    rw [List.filterMap_flatMap, List.flatMap_eq_nil_iff]
    intro x hx
    obtain ⟨hlx, y, hp⟩ := hl x hx
    exact (filterMap_arrival?_visiting hm.dst hlx hp).2
  simp only [aligning, hiter, List.flatMap_cons, Draft.visiting_root hm, List.nil_append,
    List.filterMap_append, List.filterMap_cons, hrel, hrel', har, har', hvisit, hvisit', hroot,
    and_self]

/-- Whether a node goes away with its parent: the parent of a node is no leaf. -/
theorem any_collapsing_eq_underClean (hs : m.src.WellFormed) (hl : m.src.arena.isLive s) :
    (m.src.arena.parent? s).any m.collapsing = m.src.underClean m.hasSrc s := by
  rw [Tree.underClean]
  cases hp : m.src.arena.parent? s with
  | none => rfl
  | some q =>
      have hmem := (hs.arena.of_parent? hl hp).2
      have hne : (m.src.arena.children q).isEmpty = false := by
        rw [List.isEmpty_eq_false_iff]
        exact List.ne_nil_of_mem hmem
      rw [Option.any_some, Option.any_some, collapsing, hne, Bool.not_false, Bool.and_true]
      rfl

/-- What is taken out with a source node that has no counterpart. -/
theorem filterMap_departure?_removing (hs : m.src.WellFormed) (hl : m.src.arena.isLive s)
    (hn : m.counterpart? s = none) :
    (m.removing s).filterMap Action.arrival? = [] ∧
      (m.removing s).filterMap Action.departure? =
        (m.src.turn? m.hasSrc .delete .treeDelete s).toList := by
  rw [removing, any_collapsing_eq_underClean hs hl]
  by_cases hu : m.src.underClean m.hasSrc s
  · rw [if_pos hu, hs.turn?_of_underClean hl hu]
    exact ⟨rfl, rfl⟩
  · rw [if_neg hu]
    rw [Bool.not_eq_true] at hu
    rw [Tree.turn?_of_not_kept (hasSrc_eq_false_iff.2 hn) hu, collapsing]
    have hclean : m.src.clean m.hasSrc s = m.srcClean s := rfl
    rw [hclean]
    cases m.srcClean s <;> cases (m.src.arena.children s).isEmpty <;> exact ⟨rfl, rfl⟩

end Mapping

/-! ### What comes and goes in a script -/

namespace Draft.Finished

variable {m : Mapping} {d : Draft}

/-- **What a script brings in and takes out**, in order. -/
theorem filterMap_arrival? (hf : Finished m d) (hm : m.Sound)
    (hr : m.source? m.dst.root = some m.src.root) :
    d.script.filterMap Action.arrival? =
        m.dst.iter.filterMap (m.dst.turn? m.hasDst .insert .treeInsert) ∧
      ∃ l : List NodeId, l.Nodup ∧
        (∀ s, s ∈ l ↔ m.src.arena.isLive s ∧ m.counterpart? s = none) ∧
        d.script.filterMap Action.departure? =
          l.filterMap (m.src.turn? m.hasSrc .delete .treeDelete) := by
  obtain ⟨l, hnd, hmem, htold⟩ := hf.told
  obtain ⟨har, har'⟩ := Mapping.filterMap_arrival?_aligning hm hr
  have hremove : (l.flatMap m.removing).filterMap Action.arrival? = [] := by
    rw [List.filterMap_flatMap, List.flatMap_eq_nil_iff]
    intro s hs
    obtain ⟨hl, hn⟩ := (hmem s).1 hs
    exact (Mapping.filterMap_departure?_removing hm.src hl hn).1
  have hremove' : (l.flatMap m.removing).filterMap Action.departure? =
      l.filterMap (m.src.turn? m.hasSrc .delete .treeDelete) := by
    rw [List.filterMap_flatMap, List.filterMap_eq_flatMap_toList]
    refine List.flatMap_congr fun s hs => ?_
    obtain ⟨hl, hn⟩ := (hmem s).1 hs
    exact (Mapping.filterMap_departure?_removing hm.src hl hn).2
  have hun : ∀ a : Action, a.unplaced.arrival? = a.arrival? := fun a => by cases a <;> rfl
  have hun' : ∀ a : Action, a.unplaced.departure? = a.departure? := fun a => by cases a <;> rfl
  refine ⟨?_, l, hnd, hmem, ?_⟩
  · rw [← Action.filterMap_unplaced hun, htold, List.filterMap_append, har, hremove,
      List.append_nil]
  · rw [← Action.filterMap_unplaced hun', htold, List.filterMap_append, har', hremove',
      List.nil_append]

end Draft.Finished

namespace Mapping

variable {m : Mapping} {src dst : Tree} {script : List Action}

/-- **A script brings in and takes out what it should, each once**, and subtrees that come or go
as a whole in the largest pieces there are. -/
structure Covers (m : Mapping) (script : List Action) : Prop where
  /-- A destination node is brought in alone if it has no counterpart, and either something below
  it has one, or it is a leaf that does not come with its parent; -/
  insert : ∀ x, Action.occurrences script .insert (.dst x) =
    if m.dst.contains x ∧ m.dst.alone m.hasDst x then 1 else 0
  /-- and with all that is below it if nothing there has a counterpart, and it is no leaf and does
  not come with its parent. -/
  treeInsert : ∀ x, Action.occurrences script .treeInsert (.dst x) =
    if m.dst.contains x ∧ m.dst.whole m.hasDst x then 1 else 0
  /-- Source nodes are taken out by the same rule. -/
  delete : ∀ s, Action.occurrences script .delete (.src s) =
    if m.src.contains s ∧ m.src.alone m.hasSrc s then 1 else 0
  treeDelete : ∀ s, Action.occurrences script .treeDelete (.src s) =
    if m.src.contains s ∧ m.src.whole m.hasSrc s then 1 else 0
  /-- A destination node is brought in once, alone or with others, if it has no counterpart; -/
  makes : ∀ x, m.dst.contains x →
    script.countP (Action.makes m.dst x) = if m.hasDst x then 0 else 1
  /-- and a source node is taken out once, if it has none. -/
  unmakes : ∀ s, m.src.contains s →
    script.countP (Action.unmakes m.src s) = if m.hasSrc s then 0 else 1

/-- Whether a script covers what it should is a matter of what it brings in and takes out. -/
theorem Covers.of_filterMap (hm : m.Sound) {l l' : List NodeId} (hl : l.Nodup) (hl' : l'.Nodup)
    (hmem : ∀ x, x ∈ l ↔ m.dst.arena.isLive x)
    (hmem' : ∀ s, s ∈ l' ↔ m.src.arena.isLive s ∧ m.counterpart? s = none)
    (harrive : script.filterMap Action.arrival? =
      l.filterMap (m.dst.turn? m.hasDst .insert .treeInsert))
    (hdepart : script.filterMap Action.departure? =
      l'.filterMap (m.src.turn? m.hasSrc .delete .treeDelete)) : m.Covers script := by
  have hlive : ∀ x ∈ l, m.dst.arena.isLive x := fun x => (hmem x).1
  have hall : ∀ x, m.dst.arena.isLive x → m.hasDst x = false → x ∈ l := fun x hx _ => (hmem x).2 hx
  have hlive' : ∀ s ∈ l', m.src.arena.isLive s := fun s hs => ((hmem' s).1 hs).1
  have hall' : ∀ s, m.src.arena.isLive s → m.hasSrc s = false → s ∈ l' := by
    intro s hs hn
    exact (hmem' s).2 ⟨hs, hasSrc_eq_false_iff.1 hn⟩
  have hne : ActionKind.insert ≠ .treeInsert := by decide
  have hne' : ActionKind.delete ≠ .treeDelete := by decide
  exact
    { insert := fun x => by
        rw [Action.occurrences_dst (Or.inl rfl), harrive]
        exact (hm.dst.count_turns hlive hall hl hne x).1
      treeInsert := fun x => by
        rw [Action.occurrences_dst (Or.inr rfl), harrive]
        exact (hm.dst.count_turns hlive hall hl hne x).2
      delete := fun s => by
        rw [Action.occurrences_src (Or.inl rfl), hdepart]
        exact (hm.src.count_turns hlive' hall' hl' hne' s).1
      treeDelete := fun s => by
        rw [Action.occurrences_src (Or.inr rfl), hdepart]
        exact (hm.src.count_turns hlive' hall' hl' hne' s).2
      makes := fun x hx => by
        rw [Action.countP_makes, harrive]
        exact hm.dst.countP_reaches hlive hall hl hne (hm.dst.contains_iff.1 hx)
      unmakes := fun s hs => by
        rw [Action.countP_unmakes, hdepart]
        exact hm.src.countP_reaches hlive' hall' hl' hne' (hm.src.contains_iff.1 hs) }

/-- **Every script for counterparts at the roots covers what it should**, quiet or not. -/
theorem Sound.exists_covering (hm : m.Sound) (hr : m.source? m.dst.root = some m.src.root)
    (quiet : Bool) : ∃ script, m.editScript quiet = .ok script ∧ m.Covers script := by
  obtain ⟨d, -, hscript, hf⟩ := hm.exists_draft hr
  obtain ⟨harrive, l, hl, hmem, hdepart⟩ := hf.filterMap_arrival? hm hr
  have hcovers : ∀ {script : List Action},
      script.filterMap Action.arrival? = d.script.filterMap Action.arrival? →
      script.filterMap Action.departure? = d.script.filterMap Action.departure? →
      m.Covers script := fun h h' =>
    Covers.of_filterMap hm hm.dst.nodup_iter hl (fun _ => hm.dst.mem_iter_iff) hmem
      (h.trans harrive) (h'.trans hdepart)
  cases quiet with
  | false => exact ⟨d.script, hscript, hcovers rfl rfl⟩
  | true =>
      obtain ⟨hq, hq'⟩ := Action.filterMap_quiet d.script
      exact ⟨_, by rw [editScript_hushed, hscript]; rfl, hcovers hq hq'⟩

/-! ### Main result -/

/-- **Every script covers what comes and goes**, if the roots are counterparts. -/
theorem editScript_covers (hs : src.Built) (hd : dst.Built) (hm : Filled src dst m)
    (hr : m.has src.root dst.root) (quiet : Bool) :
    ∃ script, m.editScript quiet = .ok script ∧ m.Covers script := by
  obtain ⟨hsound, rfl, rfl⟩ := hm.sound hs.wellFormed hd.wellFormed
  exact hsound.exists_covering (hsound.right hsound.src.isLive_root (has_iff.1 hr)).2 quiet

/-- Two leaves change places, a leaf goes and a leaf comes. -/
theorem editScript_covers_crossing : ∃ src dst m,
    Tree.fan ⟨"item", 0⟩ "old" ["a", "b", "c"] = .ok src ∧
    Tree.fan ⟨"item", 0⟩ "new" ["b", "a", "d"] = .ok dst ∧ pairing src dst crossing = .ok m ∧
    m.has src.root dst.root ∧ ∃ script, m.editScript false = .ok script ∧ m.Covers script :=
  ⟨_, _, _, rfl, rfl, rfl, rfl, editScript_covers
    (Tree.built_fan ⟨"item", 0⟩ "old" ["a", "b", "c"] rfl)
    (Tree.built_fan ⟨"item", 0⟩ "new" ["b", "a", "d"] rfl)
    (filled_pairing crossing (by decide) rfl) rfl false⟩

end Mapping

end TreeScript
