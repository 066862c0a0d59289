/-
**Mappings as lists of pairs.**

The pairs of a mapping are kept as a list, besides the tables that answer for slots.  Pushing the
pairs of a list one after the other, each of nodes that are in no pair yet, gives a mapping in
which a node has the counterpart that the list says.

Main definitions:

* `TreeScript.Mapping.Pairs` — **the mapping that pairs just the nodes of a list**.

Main results:

* `TreeScript.Mapping.add_eq_push` — a pair that fits is added;
* `TreeScript.Mapping.Pairs.snoc` — **one more pair**.
-/

import TreeScript.Proofs.Mapping

set_option relaxedAutoImplicit false
set_option autoImplicit false

namespace TreeScript.Mapping

variable {m : Mapping} {src dst : Tree} {s x : NodeId}

/-- A pair that fits is added, whether it has to fit or not. -/
theorem add_eq_push (hs : m.src.arena.isLive s) (hx : m.dst.arena.isLive x)
    (hkind : (m.src.arena.data? s).map NodeData.kind = (m.dst.arena.data? x).map NodeData.kind)
    (hns : m.counterpart? s = none) (hnx : m.source? x = none) :
    m.add s x = .ok (m.push s x) ∧ m.addChecked s x = .ok (m.push s x) := by
  obtain ⟨e, he⟩ := Arena.exists_data?_of_isLive hs
  obtain ⟨e', he'⟩ := Arena.exists_data?_of_isLive hx
  rw [he, he', Option.map_some, Option.map_some, Option.some_inj] at hkind
  have hsrc : m.hasSrc s = false := hasSrc_eq_false_iff.2 hns
  have hdst : m.hasDst x = false := hasDst_eq_false_iff.2 hnx
  constructor
  · rw [add, isAllowed, Tree.kind_eq_ok he, Tree.kind_eq_ok he', hsrc, hdst, hkind, bind_ok, bind_ok,
      beq_self_eq_true]
    rfl
  · rw [addChecked, hsrc, hdst, Tree.kind_eq_ok he, Tree.kind_eq_ok he', hkind]
    exact if_pos (beq_self_eq_true _)

/-- The mapping between two trees that pairs just the nodes of a list. -/
structure Pairs (src dst : Tree) (l : List (NodeId × NodeId)) (m : Mapping) : Prop where
  eq : m = l.foldl (fun m p => m.push p.1 p.2) (empty src dst)
  sound : m.Sound
  src_eq : m.src = src
  dst_eq : m.dst = dst
  counterpart?_iff : ∀ {s x}, src.arena.isLive s → (m.counterpart? s = some x ↔ (s, x) ∈ l)

namespace Pairs

variable {l : List (NodeId × NodeId)}

theorem nil (hs : src.WellFormed) (hd : dst.WellFormed) : Pairs src dst [] (empty src dst) where
  eq := rfl
  sound := Sound.empty hs hd
  src_eq := rfl
  dst_eq := rfl
  counterpart?_iff _ := by simp [empty, counterpart?]

/-- **One more pair**, of nodes that are in no pair yet. -/
theorem snoc (h : Pairs src dst l m) (hs : src.arena.isLive s) (hx : dst.arena.isLive x)
    (hkind : (src.arena.data? s).map NodeData.kind = (dst.arena.data? x).map NodeData.kind)
    (hns : s ∉ l.map Prod.fst) (hnx : x ∉ l.map Prod.snd) :
    ∃ m', m.add s x = .ok m' ∧ m.addChecked s x = .ok m' ∧ Pairs src dst (l ++ [(s, x)]) m' := by
  obtain ⟨heq, hm, rfl, rfl, hiff⟩ := h
  have hs' : m.counterpart? s = none := by
    refine Option.eq_none_iff_forall_ne_some.2 fun y hy => hns ?_
    exact List.mem_map_of_mem ((hiff hs).1 hy)
  have hx' : m.source? x = none := by
    refine Option.eq_none_iff_forall_ne_some.2 fun t ht => hnx ?_
    obtain ⟨hlt, htx⟩ := hm.left hx ht
    exact List.mem_map_of_mem ((hiff hlt).1 htx)
  obtain ⟨hadd, hchecked⟩ := add_eq_push hs hx hkind hs' hx'
  refine ⟨_, hadd, hchecked, ?_, hm.push hs hx hkind hs' hx', rfl, rfl, ?_⟩
  · rw [List.foldl_append, ← heq]
    rfl
  · intro t y ht
    rw [counterpart?_push, if_congr (Arena.slot_eq_iff hs ht) rfl rfl, List.mem_append,
      List.mem_singleton, ← hiff ht, Prod.mk.injEq]
    split
    case isTrue hst =>
      subst hst
      simp [hs', eq_comm]
    case isFalse hst => simp [Ne.symm hst]

end Pairs

end TreeScript.Mapping
