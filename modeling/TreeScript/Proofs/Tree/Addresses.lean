/-
**Paths as addresses.**

A path goes down from the root by child indices.  The path of a node is found the other way round:
by climbing to the root and writing down at each step the place among the siblings, in the width of
a segment.  The two ways agree, so that in a tree whose child indices fit into a segment a node has
one path and a path has at most one node.

Main definitions:

* `TreeScript.Tree.Addressed` — **paths address the nodes of a tree one to one**.

Main results:

* `TreeScript.Tree.childAt_eq_ok` — following a path is going down by its indices;
* `TreeScript.Arena.descend_eq_none_iff` — a path leads nowhere only where an index is too big;
* `TreeScript.Tree.WellFormed.descend_route`, `TreeScript.Tree.WellFormed.route_of_descend` —
  **going down the path of a node, and the path of what is reached**;
* `TreeScript.Tree.WellFormed.route_inj` — nodes with the same path are one;
* `TreeScript.Tree.Built.addressed` — **a tree made by the operations is addressed by paths**.
-/

import Mathlib.Algebra.Group.Nat.Defs
import Mathlib.Data.List.Induction
import TreeScript.Proofs.Arena.Correspondence
import TreeScript.Proofs.Tree.Built
import TreeScript.Proofs.Tree.ChildLists

set_option relaxedAutoImplicit false
set_option autoImplicit false

namespace TreeScript

/-! ### Going down -/

namespace Arena

variable {α : Type} {a : Arena α} {n m : NodeId} {path : List Nat}

/-- What a path leads to is up to date. -/
theorem WellFormed.isLive_of_descend (hw : a.WellFormed) (hn : a.isLive n)
    (h : a.descend n path = some m) : a.isLive m := by
  induction path generalizing n with
  | nil =>
      obtain rfl := Option.some.inj h
      exact hn
  | cons i path ih =>
      obtain ⟨c, hc, h⟩ := Option.bind_eq_some_iff.1 h
      exact ih (hw.isLive_of_mem hn (List.mem_of_getElem? hc)) h

/-- **A path leads nowhere if and only if an index on it is not below the number of children** of
the node that has been reached. -/
theorem descend_eq_none_iff : a.descend n path = none ↔ ∃ before i after m,
    path = before ++ i :: after ∧ a.descend n before = some m ∧ (a.children m).length ≤ i := by
  induction path generalizing n with
  | nil => simp
  | cons i path ih =>
      rw [descend_cons]
      cases hc : (a.children n)[i]? with
      | none =>
          have hle := List.getElem?_eq_none_iff.1 hc
          exact iff_of_true rfl ⟨[], i, path, n, rfl, rfl, hle⟩
      | some c =>
          rw [Option.bind_some, ih]
          constructor
          · rintro ⟨before, j, after, m, rfl, hm, hle⟩
            exact ⟨i :: before, j, after, m, rfl, by rw [descend_cons, hc, Option.bind_some, hm], hle⟩
          · rintro ⟨before, j, after, m, hsplit, hm, hle⟩
            cases before with
            | nil =>
                -- the first index is not too big
                obtain ⟨rfl, rfl⟩ := List.cons.inj hsplit
                obtain rfl := Option.some.inj hm
                rw [List.getElem?_eq_none_iff.2 hle] at hc
                cases hc
            | cons k before =>
                obtain ⟨rfl, rfl⟩ := List.cons.inj hsplit
                rw [descend_cons, hc, Option.bind_some] at hm
                exact ⟨before, j, after, m, rfl, hm, hle⟩

end Arena

namespace Tree

variable {t : Tree} {n m p : NodeId} {path : List UInt32}

namespace WellFormed

variable (ht : t.WellFormed)

include ht

/-- **Following a path is going down by its indices.** -/
theorem childAt_eq_ok (hn : t.arena.isLive n) :
    t.childAt n path = .ok (t.arena.descend n (path.map UInt32.toNat)) := by
  induction path generalizing n with
  | nil => rfl
  | cons i path ih =>
      rw [childAt, child?_eq_ok hn, bind_ok, List.map_cons, Arena.descend_cons]
      cases hc : (t.arena.children n)[i.toNat]? with
      | none => rfl
      | some c => exact ih (ht.arena.isLive_of_mem hn (List.mem_of_getElem? hc))

theorem resolve_eq_ok (path : List UInt32) :
    t.resolve ⟨path⟩ = .ok (t.arena.descend t.root (path.map UInt32.toNat)) :=
  ht.childAt_eq_ok ht.isLive_root

/-! ### Climbing and going down again -/

/-- The path of a node has a segment for each ancestor. -/
theorem length_route (hn : t.arena.isLive n) :
    (t.route n).length + 1 = (t.arena.ancestors n).length := by
  refine ht.induction_from_root
    (P := fun n => (t.route n).length + 1 = (t.arena.ancestors n).length) ?_ ?_ hn
  · rw [ht.route_root, ht.arena.ancestors_of_none ht.isLive_root ht.parent?_root]
    rfl
  · intro p c _ hc hp ih
    rw [ht.route_of_parent? hc hp, List.length_append, List.length_singleton, ih,
      ht.arena.ancestors_of_some hc hp, List.length_cons]

/-- A position among at most 2³² siblings fits into a segment. -/
theorem toNat_position (hp : t.arena.isLive p) (hn : n ∈ t.arena.children p)
    (hsize : (t.arena.children p).length ≤ 2 ^ 32) :
    (t.position n).toUInt32.toNat = t.position n := by
  obtain ⟨hln, hpn⟩ := ht.arena.of_mem_children hp hn
  have hlt := (List.getElem?_eq_some_iff.1 (ht.arena.getElem?_position hln hpn)).1
  rw [Nat.toUInt32_eq, UInt32.toNat_ofNat']
  exact Nat.mod_eq_of_lt (Nat.lt_of_lt_of_le hlt hsize)

/-- **Going down the path of a node leads to the node**, as long as child indices fit into a
segment. -/
theorem descend_route (hsize : ∀ n, t.arena.isLive n → (t.arena.children n).length ≤ 2 ^ 32)
    (hn : t.arena.isLive n) :
    t.arena.descend t.root ((t.route n).map UInt32.toNat) = some n := by
  refine ht.induction_from_root
    (P := fun n => t.arena.descend t.root ((t.route n).map UInt32.toNat) = some n) ?_ ?_ hn
  · rw [ht.route_root]
    rfl
  · intro p c hlp hc hp ih
    have hmem := (ht.arena.of_parent? hc hp).2
    rw [ht.route_of_parent? hc hp, List.map_append, List.map_singleton,
      ht.toNat_position hlp hmem (hsize p hlp)]
    exact Arena.descend_concat ih (ht.arena.getElem?_position hc hp)

/-- **Nodes with the same path are one**, since the path leads to both. -/
theorem route_inj (hsize : ∀ n, t.arena.isLive n → (t.arena.children n).length ≤ 2 ^ 32)
    (hn : t.arena.isLive n) (hm : t.arena.isLive m) (h : t.route n = t.route m) : n = m := by
  have hdown := ht.descend_route hsize hn
  rw [h, ht.descend_route hsize hm] at hdown
  exact (Option.some.inj hdown).symm

/-- **What a path leads to has this very path.** -/
theorem route_of_descend (h : t.arena.descend t.root (path.map UInt32.toNat) = some n) :
    t.route n = path := by
  -- the last segment is the place of the node among its siblings
  induction path using List.reverseRecOn generalizing n with
  | nil =>
      obtain rfl := Option.some.inj h
      exact ht.route_root
  | append_singleton path i ih =>
      rw [List.map_append, List.map_singleton, Arena.descend_append] at h
      obtain ⟨p, hp, h⟩ := Option.bind_eq_some_iff.1 h
      obtain ⟨c, hc, h⟩ := Option.bind_eq_some_iff.1 h
      obtain rfl := Option.some.inj h
      have hlp := ht.arena.isLive_of_descend ht.isLive_root hp
      obtain ⟨hlc, hpc⟩ := ht.arena.of_mem_children hlp (List.mem_of_getElem? hc)
      rw [ht.route_of_parent? hlc hpc, ih hp, ← ht.eq_position hlp hc, Nat.toUInt32_eq,
        UInt32.ofNat_toNat]

end WellFormed

/-! ### Addresses -/

/-- **Paths address the nodes of the tree one to one.** -/
structure Addressed (t : Tree) : Prop where
  /-- Every node has a path, with a segment for each of its ancestors, and the path leads to the
  node. -/
  exists_path : ∀ n, t.contains n → ∃ p, t.pathOf n = .ok p ∧ t.resolve p = .ok (some n) ∧
    t.depth n = .ok p.segments.length
  /-- Different nodes have different paths. -/
  pathOf_inj : ∀ n m, t.contains n → t.contains m → t.pathOf n = t.pathOf m → n = m
  /-- Every path leads to a node, of which it is the path, or nowhere: -/
  exists_resolve : ∀ p, ∃ answer, t.resolve p = .ok answer ∧
    ∀ n, answer = some n → t.contains n ∧ t.pathOf n = .ok p
  /-- where a node has been reached and the next segment is not below its number of children. -/
  resolve_eq_none_iff : ∀ p, t.resolve p = .ok none ↔ ∃ before i after m count,
    p.segments = before ++ i :: after ∧ t.resolve ⟨before⟩ = .ok (some m) ∧
    t.childCount m = .ok count ∧ count ≤ i.toNat

theorem WellFormed.resolve_eq_none_iff (ht : t.WellFormed) (p : NodePath) :
    t.resolve p = .ok none ↔ ∃ before i after m count,
      p.segments = before ++ i :: after ∧ t.resolve ⟨before⟩ = .ok (some m) ∧
      t.childCount m = .ok count ∧ count ≤ i.toNat := by
  obtain ⟨path⟩ := p
  rw [ht.resolve_eq_ok, Except.ok.injEq, Arena.descend_eq_none_iff]
  constructor
  · rintro ⟨before, j, after, m, hsplit, hm, hle⟩
    obtain ⟨before, rest, rfl, rfl, hrest⟩ := List.map_eq_append_iff.1 hsplit
    obtain ⟨i, after, rfl, rfl, rfl⟩ := List.map_eq_cons_iff.1 hrest
    have hlm := ht.arena.isLive_of_descend ht.isLive_root hm
    exact ⟨before, i, after, m, _, rfl, by rw [ht.resolve_eq_ok, hm], childCount_eq_ok hlm, hle⟩
  · rintro ⟨before, i, after, m, count, rfl, hm, hcount, hle⟩
    rw [ht.resolve_eq_ok, Except.ok.injEq] at hm
    have hlm := ht.arena.isLive_of_descend ht.isLive_root hm
    obtain rfl := Except.ok.inj ((childCount_eq_ok hlm).symm.trans hcount)
    exact ⟨_, i.toNat, after.map UInt32.toNat, m, by simp, hm, hle⟩

/-- **A tree made by the operations is addressed by paths**, if no node has more children than there
are values of a segment. -/
theorem Built.addressed (ht : t.Built)
    (hsize : ∀ n count, t.contains n → t.childCount n = .ok count → count ≤ 2 ^ 32) :
    t.Addressed := by
  have hw := ht.wellFormed
  have hsize' : ∀ n, t.arena.isLive n → (t.arena.children n).length ≤ 2 ^ 32 :=
    fun n hn => hsize n _ (hw.contains_iff.2 hn) (childCount_eq_ok hn)
  refine ⟨fun n hn => ?_, fun n m hn hm h => ?_, fun p => ?_, hw.resolve_eq_none_iff⟩
  · have hn := hw.contains_iff.1 hn
    refine ⟨⟨t.route n⟩, pathOf_eq_ok hn, ?_, ?_⟩
    · rw [hw.resolve_eq_ok, hw.descend_route hsize' hn]
    · rw [depth_eq_ok hn, ← hw.length_route hn, Nat.add_sub_cancel]
  · have hn := hw.contains_iff.1 hn
    have hm := hw.contains_iff.1 hm
    rw [pathOf_eq_ok hn, pathOf_eq_ok hm, Except.ok.injEq, NodePath.mk.injEq] at h
    exact hw.route_inj hsize' hn hm h
  · refine ⟨_, hw.resolve_eq_ok p.segments, fun n h => ?_⟩
    have hn := hw.arena.isLive_of_descend hw.isLive_root h
    exact ⟨hw.contains_iff.2 hn, by rw [pathOf_eq_ok hn, hw.route_of_descend h]⟩

/-- A leaf is taken out, and the child that gets its slot hangs below another leaf. -/
theorem Built.addressed_reused : ∃ t u w a b c, fan ⟨"item", 0⟩ "top" ["a", "b"] = .ok t ∧
    t.removeChild t.root 0 = .ok (some a, u) ∧ u.child? u.root 0 = .ok (some b) ∧
    u.addChild b ⟨"item", 0⟩ "c" = .ok (c, w) ∧ a.slot = c.slot ∧
    (∀ n count, w.contains n → w.childCount n = .ok count → count ≤ 2 ^ 32) ∧ w.Addressed ∧
    w.pathOf c = .ok ⟨[0, 0]⟩ := by
  obtain ⟨t, u, w, a, b, c, ht, hu, hb, hw, hslot, hsize, hpath⟩ : ∃ t u w a b c,
      fan ⟨"item", 0⟩ "top" ["a", "b"] = .ok t ∧ t.removeChild t.root 0 = .ok (some a, u) ∧
      u.child? u.root 0 = .ok (some b) ∧ u.addChild b ⟨"item", 0⟩ "c" = .ok (c, w) ∧
      a.slot = c.slot ∧ (∀ n ∈ w.preorder, (w.arena.children n).length ≤ 2 ^ 32) ∧
      w.pathOf c = .ok ⟨[0, 0]⟩ :=
    ⟨_, _, _, _, _, _, rfl, rfl, rfl, rfl, rfl, by decide, rfl⟩
  have hbuilt : w.Built := ((built_fan _ _ _ ht).removeChild hu).addChild hw
  have hsize' : ∀ n count, w.contains n → w.childCount n = .ok count → count ≤ 2 ^ 32 := by
    intro n count hn hcount
    have hn := hbuilt.wellFormed.contains_iff.1 hn
    obtain rfl := Except.ok.inj ((childCount_eq_ok hn).symm.trans hcount)
    exact hsize n (hbuilt.wellFormed.mem_preorder_iff.2 hn)
  exact ⟨t, u, w, a, b, c, ht, hu, hb, hw, hslot, hsize', Built.addressed hbuilt hsize', hpath⟩

end Tree

end TreeScript
