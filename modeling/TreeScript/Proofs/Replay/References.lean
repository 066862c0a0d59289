/-
**References of a script and the nodes they stand for.**

Replaying a script keeps two tables: the nodes that references stand for, and, turned round, the
references of the nodes.  The second one is what lets the references of a subtree be forgotten
when the subtree is taken out.

Main definitions:

* `TreeScript.Replay.Readable` — every node that a reference stands for knows its reference;
* `TreeScript.Replay.TwoWay` — and no other node has one.

Main results:

* `TreeScript.Replay.live?_start` — **in the beginning every source node stands for itself**;
* `TreeScript.Replay.Readable.live?_remove`, `TreeScript.Replay.TwoWay.live?_remove_iff` — **which
  references are left when a subtree is taken out**.
-/

import TreeScript.Proofs.NodeMap
import TreeScript.Proofs.Tree.WellFormed
import TreeScript.Replay

set_option relaxedAutoImplicit false
set_option autoImplicit false

namespace TreeScript.Replay

variable {r : Replay} {ref : NodeRef} {n m s d : NodeId} {ns : List NodeId}

/-! ### One reference -/

@[simp] theorem arena_forget (r : Replay) (n : NodeId) : (r.forget n).arena = r.arena := by
  unfold forget
  split
  case h_1 ref _ => cases ref <;> rfl
  case h_2 => rfl

@[simp] theorem root_forget (r : Replay) (n : NodeId) : (r.forget n).root = r.root := by
  unfold forget
  split
  case h_1 ref _ => cases ref <;> rfl
  case h_2 => rfl

@[simp] theorem dst_forget (r : Replay) (n : NodeId) : (r.forget n).dst = r.dst := by
  unfold forget
  split
  case h_1 ref _ => cases ref <;> rfl
  case h_2 => rfl

/-- With a node goes the reference that it knows. -/
theorem live?_forget (r : Replay) (n : NodeId) (ref : NodeRef) :
    (r.forget n).live? ref = if r.refs.get? n = some ref then none else r.live? ref := by
  unfold forget
  split
  case h_1 other h =>
    rw [live?_drop, h]
    simp only [Option.some_inj]
    cases ref <;> rfl
  case h_2 h => rw [h, if_neg (by simp)]

theorem refs_forget (r : Replay) (n m : NodeId) :
    (r.forget n).refs.get? m = if n = m then none else r.refs.get? m := by
  unfold forget
  split
  case h_1 ref h =>
    have herase : (({ r with refs := r.refs.erase n }).drop ref).refs = r.refs.erase n := by
      cases ref <;> rfl
    rw [herase, NodeMap.get?_erase]
  case h_2 h =>
    split
    case isTrue he => rw [← he, h]
    case isFalse => rfl

/-! ### Tables that fit together -/

/-- Every node that a reference stands for knows its reference. -/
def Readable (r : Replay) : Prop := ∀ ref n, r.live? ref = some n → r.refs.get? n = some ref

/-- The nodes that references stand for know their references, and no other node has one. -/
def TwoWay (r : Replay) : Prop := ∀ ref n, r.refs.get? n = some ref ↔ r.live? ref = some n

theorem TwoWay.readable (h : r.TwoWay) : r.Readable := fun ref n => (h ref n).2

/-- A node is what at most one reference stands for. -/
theorem Readable.inj {ref ref' : NodeRef} (h : r.Readable) (hr : r.live? ref = some n)
    (hr' : r.live? ref' = some n) : ref = ref' := by
  have := h _ _ hr
  rw [h _ _ hr'] at this
  exact (Option.some.inj this).symm

theorem Readable.forget (h : r.Readable) (n : NodeId) : (r.forget n).Readable := by
  intro ref m hm
  rw [live?_forget] at hm
  split at hm
  case isTrue => cases hm
  case isFalse hne =>
    rw [refs_forget, if_neg, h _ _ hm]
    rintro rfl
    exact hne (h _ _ hm)

theorem Readable.live?_forget (h : r.Readable) (hm : (r.forget n).live? ref = some m) :
    r.live? ref = some m ∧ m ≠ n := by
  rw [Replay.live?_forget] at hm
  split at hm
  case isTrue => cases hm
  case isFalse hne =>
    refine ⟨hm, ?_⟩
    rintro rfl
    exact hne (h _ _ hm)

theorem TwoWay.live?_forget_iff (h : r.TwoWay) :
    (r.forget n).live? ref = some m ↔ r.live? ref = some m ∧ m ≠ n := by
  refine ⟨h.readable.live?_forget, fun ⟨hm, hne⟩ => ?_⟩
  rw [Replay.live?_forget, if_neg, hm]
  intro hn
  rw [h, hm] at hn
  exact hne (Option.some.inj hn)

theorem TwoWay.forget (h : r.TwoWay) (n : NodeId) : (r.forget n).TwoWay := by
  intro ref m
  rw [h.live?_forget_iff, refs_forget, ← h]
  by_cases he : n = m
  · simp [he]
  · simp [he, eq_comm]

/-! ### Forgetting a list -/

@[simp] theorem arena_foldl_forget (r : Replay) (ns : List NodeId) :
    (ns.foldl forget r).arena = r.arena := by
  induction ns generalizing r with
  | nil => rfl
  | cons n ns ih => rw [List.foldl_cons, ih, arena_forget]

@[simp] theorem root_foldl_forget (r : Replay) (ns : List NodeId) :
    (ns.foldl forget r).root = r.root := by
  induction ns generalizing r with
  | nil => rfl
  | cons n ns ih => rw [List.foldl_cons, ih, root_forget]

@[simp] theorem dst_foldl_forget (r : Replay) (ns : List NodeId) :
    (ns.foldl forget r).dst = r.dst := by
  induction ns generalizing r with
  | nil => rfl
  | cons n ns ih => rw [List.foldl_cons, ih, dst_forget]

theorem Readable.foldl_forget (h : r.Readable) (ns : List NodeId) :
    (ns.foldl Replay.forget r).Readable := by
  induction ns generalizing r with
  | nil => exact h
  | cons n ns ih => exact ih (h.forget n)

theorem Readable.live?_foldl_forget (h : r.Readable)
    (hm : (ns.foldl Replay.forget r).live? ref = some m) : r.live? ref = some m ∧ m ∉ ns := by
  induction ns generalizing r with
  | nil => exact ⟨hm, List.not_mem_nil⟩
  | cons n ns ih =>
      obtain ⟨hm, hns⟩ := ih (h.forget n) hm
      obtain ⟨hm, hne⟩ := h.live?_forget hm
      exact ⟨hm, List.mem_cons.not.2 (not_or.2 ⟨hne, hns⟩)⟩

theorem TwoWay.foldl_forget (h : r.TwoWay) (ns : List NodeId) :
    (ns.foldl Replay.forget r).TwoWay := by
  induction ns generalizing r with
  | nil => exact h
  | cons n ns ih => exact ih (h.forget n)

theorem TwoWay.live?_foldl_forget_iff (h : r.TwoWay) :
    (ns.foldl Replay.forget r).live? ref = some m ↔ r.live? ref = some m ∧ m ∉ ns := by
  induction ns generalizing r with
  | nil => simp
  | cons n ns ih =>
      rw [List.foldl_cons, ih (h.forget n), h.live?_forget_iff, List.mem_cons, not_or, and_assoc]

/-! ### Taking out a subtree -/

theorem arena_remove (r : Replay) (n : NodeId) : (r.remove n).arena = r.arena.removeSubtree n := by
  simp [remove]

theorem root_remove (r : Replay) (n : NodeId) :
    (r.remove n).root = if r.root = some n then none else r.root := by
  simp [remove]

theorem dst_remove (r : Replay) (n : NodeId) : (r.remove n).dst = r.dst := by
  simp [remove]

theorem live?_remove_eq (r : Replay) (n : NodeId) (ref : NodeRef) :
    (r.remove n).live? ref = ((r.arena.preorder n).foldl forget r).live? ref := by
  cases ref <;> rfl

theorem Readable.remove (h : r.Readable) (n : NodeId) : (r.remove n).Readable := by
  intro ref m hm
  rw [live?_remove_eq] at hm
  exact h.foldl_forget _ _ _ hm

theorem TwoWay.remove (h : r.TwoWay) (n : NodeId) : (r.remove n).TwoWay := by
  intro ref m
  rw [live?_remove_eq]
  exact h.foldl_forget _ _ _

/-- What a reference stands for when a subtree has been taken out is not below the top of it. -/
theorem Readable.live?_remove (h : r.Readable) (hw : r.arena.WellFormed) (hn : r.arena.isLive n)
    (hl : ∀ {ref n}, r.live? ref = some n → r.arena.isLive n)
    (hm : (r.remove n).live? ref = some m) : r.live? ref = some m ∧ ¬ r.arena.Below n m := by
  rw [live?_remove_eq] at hm
  obtain ⟨hm, hnot⟩ := h.live?_foldl_forget hm
  exact ⟨hm, fun hb => hnot ((hw.mem_preorder_iff hn).2 ⟨hl hm, hb⟩)⟩

theorem TwoWay.live?_remove_iff (h : r.TwoWay) (hw : r.arena.WellFormed) (hn : r.arena.isLive n)
    (hl : ∀ {ref n}, r.live? ref = some n → r.arena.isLive n) :
    (r.remove n).live? ref = some m ↔ r.live? ref = some m ∧ ¬ r.arena.Below n m := by
  rw [live?_remove_eq, h.live?_foldl_forget_iff]
  refine and_congr_right fun hm => not_congr ?_
  rw [hw.mem_preorder_iff hn]
  exact and_iff_right (hl hm)

/-! ### The beginning -/

private theorem foldl_track_src (l : List NodeId) (r : Replay) :
    l.foldl (fun r n => r.track (.src n) n) r =
      { r with
        ofSrc := r.ofSrc.insertAll (l.map fun n => (n, n))
        refs := r.refs.insertAll (l.map fun n => (n, .src n)) } := by
  induction l generalizing r with
  | nil => rfl
  | cons n l ih => rw [List.foldl_cons, ih]; rfl

theorem arena_start (src dst : Tree) : (start src dst).arena = src.arena := by
  rw [start, foldl_track_src]

theorem root_start (src dst : Tree) : (start src dst).root = some src.root := by
  rw [start, foldl_track_src]

theorem dst_start (src dst : Tree) : (start src dst).dst = dst := by
  rw [start, foldl_track_src]

section Start

variable {src dst : Tree} (h : src.WellFormed)

include h

/-- **In the beginning every source node stands for itself.** -/
theorem live?_start : (start src dst).live? ref = some n ↔ ref = .src n ∧ src.arena.isLive n := by
  have hnd : ((src.preorder.map fun n => (n, n)).map Prod.fst).Nodup := by
    simpa [Function.comp_def, Tree.preorder] using h.arena.nodup_preorder h.isLive_root
  rw [start, foldl_track_src]
  cases ref with
  | src s =>
      have : (NodeMap.ofList (src.preorder.map fun n => (n, n))).get? s = some n ↔
          NodeRef.src s = .src n ∧ src.arena.isLive n := by
        rw [NodeMap.get?_ofList_iff (snd_unique_of_nodup hnd), ← h.mem_preorder_iff]
        simp only [List.mem_map, Prod.mk.injEq, NodeRef.src.injEq]
        constructor
        · rintro ⟨k, hk, rfl, rfl⟩
          exact ⟨rfl, hk⟩
        · rintro ⟨rfl, hk⟩
          exact ⟨s, hk, rfl, rfl⟩
      exact this
  | dst d => simp [live?]

theorem twoWay_start : (start src dst).TwoWay := by
  intro ref n
  have hnd : ((src.preorder.map fun n => (n, NodeRef.src n)).map Prod.fst).Nodup := by
    simpa [Function.comp_def, Tree.preorder] using h.arena.nodup_preorder h.isLive_root
  have hrefs : (start src dst).refs =
      NodeMap.ofList (src.preorder.map fun n => (n, NodeRef.src n)) := by
    rw [start, foldl_track_src]; rfl
  rw [live?_start h, hrefs, NodeMap.get?_ofList_iff (snd_unique_of_nodup hnd), ← h.mem_preorder_iff]
  simp only [List.mem_map, Prod.mk.injEq]
  constructor
  · rintro ⟨k, hk, rfl, rfl⟩
    exact ⟨rfl, hk⟩
  · rintro ⟨rfl, hk⟩
    exact ⟨n, hk, rfl, rfl⟩

end Start

end TreeScript.Replay
