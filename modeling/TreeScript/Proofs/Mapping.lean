/-
**Mappings are one to one.**

A mapping that has been filled by adding pairs of nodes and pairs of subtrees pairs each node of
one tree with at most one node of the other, and only with a node of the same type.

Main definitions:

* `TreeScript.Mapping.Filled` — **a mapping filled by adding pairs and subtrees**;
* `TreeScript.Mapping.Sound` — a partial one-to-one correspondence of nodes of the same type;
* `TreeScript.Mapping.pairing` — a mapping filled from a list of pairs.

Main results:

* `TreeScript.Mapping.Filled.sound` — **a filled mapping is such a correspondence**.
-/

import TreeScript.Mapping
import TreeScript.Proofs.Results
import TreeScript.Proofs.Tree.WellFormed

set_option relaxedAutoImplicit false
set_option autoImplicit false

namespace TreeScript.Mapping

variable {m m' : Mapping} {src dst : Tree} {s d x : NodeId}

theorem has_iff : m.has s x ↔ m.counterpart? s = some x := by
  rw [has, beq_iff_eq]

theorem hasSrc_iff : m.hasSrc s ↔ ∃ x, m.counterpart? s = some x := by
  rw [hasSrc, Option.isSome_iff_exists]

theorem hasDst_iff : m.hasDst x ↔ ∃ s, m.source? x = some s := by
  rw [hasDst, Option.isSome_iff_exists]

theorem hasSrc_eq_false_iff : m.hasSrc s = false ↔ m.counterpart? s = none := by
  rw [hasSrc, Option.isSome_eq_false_iff, Option.isNone_iff_eq_none]

theorem hasDst_eq_false_iff : m.hasDst x = false ↔ m.source? x = none := by
  rw [hasDst, Option.isSome_eq_false_iff, Option.isNone_iff_eq_none]

/-- A partial one-to-one correspondence between the nodes of two well-formed trees, which respects
types. -/
structure Sound (m : Mapping) : Prop where
  src : m.src.WellFormed
  dst : m.dst.WellFormed
  /-- The counterpart of a source node is a destination node, which has it as its counterpart; -/
  right : ∀ {s d}, m.src.arena.isLive s → m.counterpart? s = some d →
    m.dst.arena.isLive d ∧ m.source? d = some s
  /-- and the other way round. -/
  left : ∀ {s d}, m.dst.arena.isLive d → m.source? d = some s →
    m.src.arena.isLive s ∧ m.counterpart? s = some d
  /-- Counterparts have the same type. -/
  kind : ∀ {s d}, m.src.arena.isLive s → m.counterpart? s = some d →
    (m.src.arena.data? s).map NodeData.kind = (m.dst.arena.data? d).map NodeData.kind

namespace Sound

/-- Two nodes with one counterpart are one. -/
theorem counterpart?_inj (h : m.Sound) (hs : m.src.arena.isLive s) (hx : m.src.arena.isLive x)
    (he : m.counterpart? s = some d) (he' : m.counterpart? x = some d) : s = x := by
  have h1 := (h.right hs he).2
  rw [(h.right hx he').2] at h1
  exact (Option.some.inj h1).symm

/-! ### Adding pairs keeps it one to one -/

theorem empty (hs : src.WellFormed) (hd : dst.WellFormed) : (empty src dst).Sound where
  src := hs
  dst := hd
  right _ he := by simp [Mapping.empty, counterpart?] at he
  left _ he := by simp [Mapping.empty, source?] at he
  kind _ he := by simp [Mapping.empty, counterpart?] at he

/-- A pair of nodes of the same type that have no counterparts. -/
theorem push (h : m.Sound) (hs : m.src.arena.isLive s) (hd : m.dst.arena.isLive d)
    (hkind : (m.src.arena.data? s).map NodeData.kind = (m.dst.arena.data? d).map NodeData.kind)
    (hns : m.counterpart? s = none) (hnd : m.source? d = none) : (m.push s d).Sound where
  src := h.src
  dst := h.dst
  right := by
    intro k e hk he
    rw [counterpart?_push, if_congr (Arena.slot_eq_iff hs hk) rfl rfl] at he
    rw [source?_push]
    split at he
    case isTrue hsk =>
      obtain rfl := Option.some.inj he
      exact ⟨hd, by rw [if_pos rfl, hsk]⟩
    case isFalse =>
      obtain ⟨hle, hek⟩ := h.right hk he
      refine ⟨hle, ?_⟩
      rw [if_neg, hek]
      intro hslot
      obtain rfl := Arena.eq_of_slot_eq hd hle hslot
      rw [hnd] at hek
      cases hek
  left := by
    intro k e he hk
    rw [source?_push, if_congr (Arena.slot_eq_iff hd he) rfl rfl] at hk
    rw [counterpart?_push]
    split at hk
    case isTrue hde =>
      obtain rfl := Option.some.inj hk
      exact ⟨hs, by rw [if_pos rfl, hde]⟩
    case isFalse =>
      obtain ⟨hlk, hke⟩ := h.left he hk
      refine ⟨hlk, ?_⟩
      rw [if_neg, hke]
      intro hslot
      obtain rfl := Arena.eq_of_slot_eq hs hlk hslot
      rw [hns] at hke
      cases hke
  kind := by
    intro k e hk he
    rw [counterpart?_push, if_congr (Arena.slot_eq_iff hs hk) rfl rfl] at he
    split at he
    case isTrue hsk =>
      obtain rfl := Option.some.inj he
      rw [← hsk]
      exact hkind
    case isFalse => exact h.kind hk he

theorem add (h : m.Sound) (hs : m.src.arena.isLive s) (hd : m.dst.arena.isLive d)
    (ha : m.add s d = .ok m') : m'.Sound ∧ m'.src = m.src ∧ m'.dst = m.dst := by
  obtain ⟨ds, hds⟩ := Arena.exists_data?_of_isLive hs
  obtain ⟨dd, hdd⟩ := Arena.exists_data?_of_isLive hd
  rw [Mapping.add, isAllowed, Tree.kind_eq_ok hds, Tree.kind_eq_ok hdd] at ha
  obtain rfl := pure_eq_ok.1 ha
  split
  case isTrue hok =>
    simp only [Bool.and_eq_true, Bool.not_eq_true', beq_iff_eq, hasSrc, hasDst,
      Option.isSome_eq_false_iff, Option.isNone_iff_eq_none] at hok
    obtain ⟨⟨hkind, hns⟩, hnd⟩ := hok
    exact ⟨h.push hs hd (by rw [hds, hdd, Option.map_some, Option.map_some, hkind]) hns hnd,
      rfl, rfl⟩
  case isFalse => exact ⟨h, rfl, rfl⟩

theorem addSubtrees (h : m.Sound) (hs : m.src.arena.isLive s) (hd : m.dst.arena.isLive d)
    (ha : m.addSubtrees s d = .ok m') : m'.Sound ∧ m'.src = m.src ∧ m'.dst = m.dst := by
  rw [Mapping.addSubtrees, inStep, Tree.descendants_eq_ok hs, Tree.descendants_eq_ok hd] at ha
  refine foldlM_invariant
    (fun m' : Mapping => m'.Sound ∧ m'.src = m.src ∧ m'.dst = m.dst) ?_ ha ⟨h, rfl, rfl⟩
  rintro m₁ m₂ ⟨x, y⟩ hmem ⟨hm, hsrc, hdst⟩ hadd
  obtain ⟨hx, hy⟩ := List.of_mem_zip hmem
  have hlx := ((h.src.arena.mem_preorder_iff hs).1 hx).1
  have hly := ((h.dst.arena.mem_preorder_iff hd).1 hy).1
  obtain ⟨hm', hsrc', hdst'⟩ := hm.add (hsrc ▸ hlx) (hdst ▸ hly) hadd
  exact ⟨hm', hsrc'.trans hsrc, hdst'.trans hdst⟩

end Sound

/-- **A mapping filled by adding pairs of nodes and pairs of subtrees**, in any order.  What does
not fit is passed over. -/
inductive Filled (src dst : Tree) : Mapping → Prop where
  | empty : Filled src dst (empty src dst)
  | add {m m' : Mapping} {s d : NodeId} (hm : Filled src dst m) (hs : src.contains s)
      (hd : dst.contains d) (h : m.add s d = .ok m') : Filled src dst m'
  | addSubtrees {m m' : Mapping} {s d : NodeId} (hm : Filled src dst m) (hs : src.contains s)
      (hd : dst.contains d) (h : m.addSubtrees s d = .ok m') : Filled src dst m'

/-- **A filled mapping is a partial one-to-one correspondence of nodes of the same type.** -/
theorem Filled.sound (h : Filled src dst m) (hs : src.WellFormed) (hd : dst.WellFormed) :
    m.Sound ∧ m.src = src ∧ m.dst = dst := by
  induction h with
  | empty => exact ⟨Sound.empty hs hd, rfl, rfl⟩
  | add _ hls hld h ih =>
      obtain ⟨hm, rfl, rfl⟩ := ih
      exact hm.add (hs.contains_iff.1 hls) (hd.contains_iff.1 hld) h
  | addSubtrees _ hls hld h ih =>
      obtain ⟨hm, rfl, rfl⟩ := ih
      exact hm.addSubtrees (hs.contains_iff.1 hls) (hd.contains_iff.1 hld) h

/-- The mapping filled by adding the given pairs. -/
def pairing (src dst : Tree) (pairs : List (NodeId × NodeId)) : Except Fault Mapping :=
  pairs.foldlM (fun m p => m.add p.1 p.2) (empty src dst)

theorem filled_pairing (pairs : List (NodeId × NodeId))
    (hp : ∀ p ∈ pairs, src.contains p.1 ∧ dst.contains p.2)
    (h : pairing src dst pairs = .ok m) : Filled src dst m :=
  foldlM_invariant (Filled src dst)
    (fun _ _ p hmem hm hadd => Filled.add hm (hp p hmem).1 (hp p hmem).2 hadd) h Filled.empty

end TreeScript.Mapping
