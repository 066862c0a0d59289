/-
**What a script has to say.**

Which nodes a script brings in, relabels and moves, and under which parent, can be read off the
mapping and the two trees as they are at the beginning; only positions depend on the changes made
so far.  The plan of a script is the script with its positions left out.

Main definitions:

* `TreeScript.Action.unplaced` — an action without its position;
* `TreeScript.Mapping.dstClean`, `TreeScript.Mapping.srcClean` — nothing below a destination node,
  or below a source node, has a counterpart;
* `TreeScript.Mapping.ownSources`, `TreeScript.Mapping.ownTargets`, `TreeScript.Mapping.stay` —
  the children that two counterparts have in common, and those that stay where they are;
* `TreeScript.Mapping.visiting`, `TreeScript.Mapping.aligning` — **the actions that a visit of a
  destination node, and all visits, come to**;
* `TreeScript.Mapping.removing` — what taking out a source node comes to.
-/

import TreeScript.Draft
import TreeScript.Proofs.CommonSubsequence
import TreeScript.Proofs.Mapping
import TreeScript.Proofs.Tree.Pieces

set_option relaxedAutoImplicit false
set_option autoImplicit false

namespace TreeScript

/-- The label of `n`. -/
def Tree.label? (t : Tree) (n : NodeId) : Option String := (t.arena.data? n).map NodeData.label

theorem Tree.label_eq_ok_of_label? {t : Tree} {n : NodeId} {label : String}
    (h : t.label? n = some label) : t.label n = .ok label := by
  obtain ⟨d, hd, rfl⟩ := Option.map_eq_some_iff.1 h
  exact Tree.label_eq_ok hd

theorem Tree.exists_label? {t : Tree} {n : NodeId} (h : t.arena.isLive n) :
    ∃ label, t.label? n = some label := by
  obtain ⟨d, hd⟩ := Arena.exists_data?_of_isLive h
  exact ⟨d.label, by rw [label?, hd]; rfl⟩

/-- The action without its position. -/
def Action.unplaced : Action → Action
  | .insert x p _ => .insert x p 0
  | .treeInsert x p _ => .treeInsert x p 0
  | .move s p _ => .move s p 0
  | a => a

namespace Mapping

variable (m : Mapping)

/-! ### Static notions -/

/-- Nothing below destination node `x`, and not `x` itself, has a counterpart. -/
def dstClean (x : NodeId) : Bool := (m.dst.arena.preorder x).all fun n => !m.hasDst n

/-- Nothing below source node `s`, and not `s` itself, has a counterpart. -/
def srcClean (s : NodeId) : Bool := (m.src.arena.preorder s).all fun n => !m.hasSrc n

/-- Source node `s` goes away in one piece with what is below it. -/
def collapsing (s : NodeId) : Bool := m.srcClean s && !(m.src.arena.children s).isEmpty

/-- Destination node `x` comes with its parent. -/
def carried (x : NodeId) : Bool :=
  match m.dst.arena.parent? x with
  | some y => m.dstClean y
  | none => false

/-- How a script names the counterpart of destination node `x`. -/
def ref (x : NodeId) : NodeRef :=
  match m.source? x with
  | some s => .src s
  | none => .dst x

/-- The children of the counterpart of `x` whose counterparts are children of `x`, in the order
of the source. -/
def ownSources (x : NodeId) : List NodeId :=
  match m.source? x with
  | some s =>
    (m.src.arena.children s).filter fun t =>
      match m.counterpart? t with
      | some b => m.dst.arena.parent? b == some x
      | none => false
  | none => []

/-- The children of `x` whose counterparts are children of the counterpart of `x`, in the order of
the destination. -/
def ownTargets (x : NodeId) : List NodeId :=
  match m.source? x with
  | some s =>
    (m.dst.arena.children x).filter fun b =>
      match m.source? b with
      | some t => m.src.arena.parent? t == some s
      | none => false
  | none => []

/-- The children of `x` whose counterparts stay where they are. -/
def stay (x : NodeId) : List NodeId :=
  (longestCommon (fun t b => m.counterpart? t == some b) (m.ownSources x) (m.ownTargets x)).map
    Prod.snd

/-! ### Plans -/

/-- The counterpart `s` of `x` gets the label of `x`. -/
def relabeling (s x : NodeId) : List Action :=
  match m.dst.label? x with
  | some label => if m.src.label? s = some label then [] else [.update s label]
  | none => []

/-- The counterpart `s` of `x` goes under the counterpart of `y`, the parent of `x`. -/
def bringing (s y : NodeId) : List Action :=
  if m.src.arena.parent? s = m.source? y then [] else [.move s (m.ref y) 0]

/-- A child `b` of `x` goes to its place. -/
def arrangingOne (x b : NodeId) : List Action :=
  if b ∈ m.stay x then [] else (m.source? b).toList.map fun t => .move t (m.ref x) 0

/-- The children of the counterpart of `x` are put in order. -/
def arranging (x : NodeId) : List Action := (m.ownTargets x).flatMap (m.arrangingOne x)

/-- `x`, a child of `y` without counterpart, is brought in. -/
def introducing (x y : NodeId) : List Action :=
  if (m.dst.arena.children x).isEmpty || !m.dstClean x then [.insert x (m.ref y) 0]
  else [.treeInsert x (some (m.ref y)) 0]

/-- **What a visit of `x` comes to.** -/
def visiting (x : NodeId) : List Action :=
  if m.carried x then []
  else
    match m.dst.arena.parent? x with
    | none => []
    | some y =>
      match m.source? x with
      | some s => m.relabeling s x ++ m.bringing s y ++ m.arranging x
      | none => m.introducing x y

/-- **What all visits come to**, after the root has been seen to. -/
def aligning : List Action :=
  m.relabeling m.src.root m.dst.root ++ m.arranging m.dst.root ++ m.dst.iter.flatMap m.visiting

/-- **What taking out source node `s` comes to**, which has no counterpart. -/
def removing (s : NodeId) : List Action :=
  if (m.src.arena.parent? s).any m.collapsing then []
  else if m.collapsing s then [.treeDelete s] else [.delete s]

variable {m} {x y b n s : NodeId}

/-! ### Clean subtrees -/

theorem isDstClean_eq_ok (hx : m.dst.arena.isLive x) : m.isDstClean x = .ok (m.dstClean x) := by
  rw [isDstClean, Tree.descendants_eq_ok hx]
  rfl

theorem dstClean_iff (hd : m.dst.WellFormed) (hx : m.dst.arena.isLive x) :
    m.dstClean x ↔ ∀ n, m.dst.arena.isLive n → m.dst.arena.Below x n → m.source? n = none := by
  rw [dstClean, List.all_eq_true]
  constructor
  · intro h n hn hb
    simpa [hasDst] using h n ((hd.arena.mem_preorder_iff hx).2 ⟨hn, hb⟩)
  · intro h n hn
    obtain ⟨hl, hb⟩ := (hd.arena.mem_preorder_iff hx).1 hn
    simpa [hasDst] using h n hl hb

theorem source?_of_dstClean (hd : m.dst.WellFormed) (hx : m.dst.arena.isLive x)
    (h : m.dstClean x) : m.source? x = none := by
  have hkept : m.hasDst x = false := hd.kept_of_clean hx h
  simpa [hasDst] using hkept

/-- A clean subtree has clean branches. -/
theorem dstClean_of_source? (hd : m.dst.WellFormed) (hx : m.dst.arena.isLive x)
    (hs : m.source? x = some s) : m.dstClean x = false := by
  refine Bool.eq_false_iff.2 fun hc => ?_
  rw [source?_of_dstClean hd hx hc] at hs
  cases hs

theorem dstClean_of_below (hd : m.dst.WellFormed) (hn : m.dst.arena.isLive n)
    (hb : m.dst.arena.Below x n) (h : m.dstClean x) : m.dstClean n :=
  hd.clean_of_below hn hb h

/-- A source node is clean if it has no counterpart and its children are clean. -/
theorem srcClean_eq (hs : m.src.WellFormed) (hl : m.src.arena.isLive s) :
    m.srcClean s = (!m.hasSrc s && (m.src.arena.children s).all m.srcClean) := by
  rw [srcClean, hs.arena.preorder_eq hl, List.all_cons, List.all_flatMap]
  rfl

theorem counterpart?_of_srcClean (hs : m.src.WellFormed) (hl : m.src.arena.isLive s)
    (h : m.srcClean s) : m.counterpart? s = none := by
  have hkept : m.hasSrc s = false := hs.kept_of_clean hl h
  simpa [hasSrc] using hkept

theorem counterpart?_of_collapsing (hs : m.src.WellFormed) (hl : m.src.arena.isLive s)
    (h : m.collapsing s) : m.counterpart? s = none :=
  counterpart?_of_srcClean hs hl (Bool.and_eq_true_iff.1 h).1

theorem carried_of_parent? (hp : m.dst.arena.parent? x = some y) : m.carried x = m.dstClean y := by
  rw [carried, hp]

/-! ### Children in common -/

theorem mem_ownTargets_iff {s : NodeId} (hs : m.source? x = some s) :
    b ∈ m.ownTargets x ↔ b ∈ m.dst.arena.children x ∧
      ∃ t, m.source? b = some t ∧ m.src.arena.parent? t = some s := by
  rw [ownTargets, hs]
  simp only [List.mem_filter]
  refine and_congr_right fun _ => ?_
  cases m.source? b <;> simp

theorem ownTargets_of_unmapped (hs : m.source? x = none) : m.ownTargets x = [] := by
  rw [ownTargets, hs]

/-- A child in common and its parent come from a node and its parent. -/
theorem exists_of_mem_ownTargets (hb : b ∈ m.ownTargets x) :
    b ∈ m.dst.arena.children x ∧
      ∃ s t, m.source? x = some s ∧ m.source? b = some t ∧ m.src.arena.parent? t = some s := by
  cases hs : m.source? x with
  | none => rw [ownTargets_of_unmapped hs] at hb; cases hb
  | some s =>
      obtain ⟨hbx, t, ht, hp⟩ := (mem_ownTargets_iff hs).1 hb
      exact ⟨hbx, s, t, rfl, ht, hp⟩

theorem mem_ownSources_iff {s t : NodeId} (hs : m.source? x = some s) :
    t ∈ m.ownSources x ↔ t ∈ m.src.arena.children s ∧
      ∃ b, m.counterpart? t = some b ∧ m.dst.arena.parent? b = some x := by
  rw [ownSources, hs]
  simp only [List.mem_filter]
  refine and_congr_right fun _ => ?_
  cases m.counterpart? t <;> simp

theorem ownTargets_sublist (x : NodeId) : (m.ownTargets x).Sublist (m.dst.arena.children x) := by
  unfold ownTargets
  split
  · exact List.filter_sublist
  · exact List.nil_sublist _

theorem common_stay (m : Mapping) (x : NodeId) :
    CommonSubsequence.Common (fun t b => m.counterpart? t == some b) (m.ownSources x)
      (m.ownTargets x) (longestCommon (fun t b => m.counterpart? t == some b) (m.ownSources x)
        (m.ownTargets x)) :=
  common_longestCommon _ _ _

theorem stay_sublist (x : NodeId) : (m.stay x).Sublist (m.ownTargets x) := (common_stay m x).snd

/-- **No more children could stay**: those whose counterparts are in order already are not more
than those that stay. -/
theorem length_le_stay (hm : m.Sound) (hx : m.dst.arena.isLive x) (hs : m.source? x = some s)
    {l : List NodeId} (hl : l.Sublist (m.ownTargets x))
    (hsrc : (l.filterMap m.source?).Sublist (m.src.arena.children s)) :
    l.length ≤ (m.stay x).length := by
  have hsome : ∀ b ∈ l, ∃ t, m.source? b = some t ∧ m.counterpart? t = some b ∧
      m.dst.arena.parent? b = some x := by
    intro b hb
    obtain ⟨hbx, t, ht, -⟩ := (mem_ownTargets_iff hs).1 (hl.subset hb)
    obtain ⟨hlb, hpb⟩ := hm.dst.arena.of_mem_children hx hbx
    exact ⟨t, ht, (hm.left hlb ht).2, hpb⟩
  let pairs := l.filterMap fun b => (m.source? b).map fun t => (t, b)
  have hfst : pairs.map Prod.fst = l.filterMap m.source? := by
    rw [List.map_filterMap]
    refine List.filterMap_congr fun b _ => ?_
    cases m.source? b <;> rfl
  have hsnd : pairs.map Prod.snd = l := by
    rw [List.map_filterMap]
    refine (List.filterMap_congr fun b hb => ?_).trans List.filterMap_some
    obtain ⟨t, ht, -⟩ := hsome b hb
    rw [ht]
    rfl
  have hcommon : CommonSubsequence.Common (fun t b => m.counterpart? t == some b)
      (m.ownSources x) (m.ownTargets x) pairs := by
    refine ⟨?_, hsnd ▸ hl, ?_⟩
    · -- they are among the children in common
      rw [hfst, ownSources, hs]
      have hall : ∀ t ∈ l.filterMap m.source?, (match m.counterpart? t with
          | some b => m.dst.arena.parent? b == some x
          | none => false) = true := by
        intro t ht
        obtain ⟨b, hb, hbt⟩ := List.mem_filterMap.1 ht
        obtain ⟨t', ht', htb, hpb⟩ := hsome b hb
        rw [hbt] at ht'
        obtain rfl := Option.some.inj ht'
        simp [htb, hpb]
      rw [← List.filter_eq_self.2 hall]
      exact hsrc.filter _
    · intro p hp
      obtain ⟨b, hb, hbp⟩ := List.mem_filterMap.1 hp
      obtain ⟨t, ht, htb, -⟩ := hsome b hb
      rw [ht] at hbp
      obtain rfl := Option.some.inj hbp
      rw [beq_iff_eq]
      exact htb
  have hle := length_le_longestCommon hcommon
  rwa [← List.length_map Prod.snd, hsnd, ← List.length_map Prod.snd] at hle

end Mapping

end TreeScript
