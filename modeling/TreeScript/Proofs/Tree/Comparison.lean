/-
**Comparing two subtrees decides whether they are equal.**

What is compared of a subtree is its shape, an ordered rose tree of types and labels: the view of
its top without the identities.  Two subtrees, of one tree or of two, are found to be isomorphic if
and only if they have the same shape.

The comparison can be made without going down both subtrees in step.  Pairs of nodes that are still
to be compared wait in a list; a pair is taken from its front, and if the two nodes carry the same
data and have equally many children, the pairs of their children go onto it.  Since every node of
the first subtree waits at most once, the list runs out after as many turns as there are nodes, and
since the children are counted before they are paired, none of them is forgotten.

Main definitions:

* `TreeScript.Tree.shape` — **a subtree as a rose tree of types and labels**;
* `TreeScript.Tree.compareF` — comparing with a list of pairs;
* `TreeScript.Tree.Compared` — what a comparison finds out.

Main results:

* `TreeScript.RoseTree.agrees_iff_map_eq` — trees agree in step if they are equal once relabelled;
* `TreeScript.Tree.exists_compareF` — **the list of pairs runs out, and the answer is right**;
* `TreeScript.Tree.Built.isIsomorphic_decides` — **comparing decides equality of shapes**, which makes it
  an equivalence.
-/

import TreeScript.Proofs.Tree.Built
import TreeScript.Proofs.Tree.ChildLists
import TreeScript.Proofs.Tree.Isomorphic

set_option relaxedAutoImplicit false
set_option autoImplicit false

namespace TreeScript

namespace RoseTree

variable {α β γ : Type} [DecidableEq γ] {f : α → γ} {g : β → γ}

mutual
/-- **Trees agree in step if and only if they are equal once relabelled.** -/
theorem agrees_iff_map_eq : ∀ (t : RoseTree α) (u : RoseTree β),
    t.agrees (fun v w => f v == g w) u ↔ t.map f = u.map g
  | node v ts, node w us => by
    rw [agrees, Bool.and_eq_true, Bool.and_eq_true, and_assoc, beq_iff_eq, beq_iff_eq, map, map,
      node.injEq, agreesForest_iff_mapForest_eq ts us]

theorem agreesForest_iff_mapForest_eq : ∀ (ts : List (RoseTree α)) (us : List (RoseTree β)),
    ts.length = us.length ∧ agreesForest (fun v w => f v == g w) ts us ↔
      mapForest f ts = mapForest g us
  | [], [] => by simp [agreesForest, mapForest]
  | [], _ :: _ => by simp [mapForest]
  | _ :: _, [] => by simp [mapForest]
  | t :: ts, u :: us => by
    rw [agreesForest, mapForest, mapForest, List.cons.injEq, ← agrees_iff_map_eq t u,
      ← agreesForest_iff_mapForest_eq ts us, Bool.and_eq_true, List.length_cons, List.length_cons,
      Nat.add_right_cancel_iff]
    tauto
end

end RoseTree

namespace Tree

variable {t u s : Tree} {x y z : NodeId} {v w : RoseTree NodeData} {answer : Bool}
  {work : List (NodeId × NodeId)} {fuel : Nat}

/-! ### Shapes -/

/-- **The subtree at `n` as an ordered rose tree of types and labels.** -/
def shape (t : Tree) (n : NodeId) : Except Fault (RoseTree NodeData) :=
  return (← t.view n).map Prod.snd

theorem shape_eq_ok {v : RoseTree (NodeId × NodeData)} (hv : t.view x = .ok v) :
    t.shape x = .ok (v.map Prod.snd) := by
  rw [shape, hv]
  rfl

theorem WellFormed.exists_shape (ht : t.WellFormed) (hx : t.arena.isLive x) :
    ∃ v, t.shape x = .ok v := by
  obtain ⟨v, hv, -⟩ := ht.exists_view hx
  exact ⟨_, shape_eq_ok hv⟩

/-- Comparing two nodes of which the shapes are known. -/
theorem isIsomorphic_of_shape (hv : t.shape x = .ok v) (hw : u.shape y = .ok w) :
    ∃ answer, t.isIsomorphic x u y = .ok answer ∧ (answer = true ↔ v = w) := by
  obtain ⟨v', hv', hv⟩ := bind_eq_ok.1 hv
  obtain ⟨w', hw', hw⟩ := bind_eq_ok.1 hw
  obtain rfl := pure_eq_ok.1 hv
  obtain rfl := pure_eq_ok.1 hw
  refine ⟨_, by rw [isIsomorphic, hv', hw']; rfl, ?_⟩
  exact RoseTree.agrees_iff_map_eq v' w'

/-- **Subtrees are isomorphic if and only if they have the same shape.** -/
theorem alike_iff_shape_eq (hv : t.shape x = .ok v) (hw : u.shape y = .ok w) :
    t.Alike u x y ↔ v = w := by
  obtain ⟨answer, heq, hiff⟩ := isIsomorphic_of_shape hv hw
  rw [Alike, heq, Except.ok.injEq, hiff]

/-! ### Comparing with a list of pairs -/

/-- Whether the pairs of a list are pairs of isomorphic subtrees, found out in at most `fuel` turns;
no answer if that is not enough.  The first pair that differs ends the comparison. -/
def compareF (t u : Tree) : Nat → List (NodeId × NodeId) → Except Fault (Option Bool)
  | _, [] => return some true
  | 0, _ :: _ => return none
  | fuel + 1, (x, y) :: rest => do
    if (← t.sameData x u y) && (← t.childCount x) == (← u.childCount y) then
      t.compareF u fuel (((← t.children x).zip (← u.children y)).reverse ++ rest)
    else return some false

theorem sameData_eq_ok (hx : t.arena.isLive x) (hy : u.arena.isLive y) :
    t.sameData x u y = .ok (t.arena.data? x == u.arena.data? y) := by
  obtain ⟨d, hd⟩ := Arena.exists_data?_of_isLive hx
  obtain ⟨e, he⟩ := Arena.exists_data?_of_isLive hy
  rw [sameData, data_eq_ok hd, data_eq_ok he, hd, he]
  simp [bind, Except.bind, pure, Except.pure]

/-- One turn. -/
theorem compareF_cons (hx : t.arena.isLive x) (hy : u.arena.isLive y) :
    t.compareF u (fuel + 1) ((x, y) :: work) =
      if t.arena.data? x = u.arena.data? y ∧
          (t.arena.children x).length = (u.arena.children y).length then
        t.compareF u fuel (((t.arena.children x).zip (u.arena.children y)).reverse ++ work)
      else .ok (some false) := by
  rw [compareF, sameData_eq_ok hx hy, childCount_eq_ok hx, childCount_eq_ok hy,
    children_eq_ok hx, children_eq_ok hy]
  simp only [bind_ok, Bool.and_eq_true, beq_iff_eq]
  rfl

/-- One turn of the comparison, for subtrees: they are isomorphic if the data at their tops is the
same and the pairs of their children, of which there are equally many, are isomorphic. -/
theorem alike_iff_zip (ht : t.WellFormed) (hu : u.WellFormed) (hx : t.arena.isLive x)
    (hy : u.arena.isLive y) : t.Alike u x y ↔
      (t.arena.data? x = u.arena.data? y ∧
        (t.arena.children x).length = (u.arena.children y).length) ∧
      ∀ p ∈ (t.arena.children x).zip (u.arena.children y), t.Alike u p.1 p.2 := by
  rw [alike_iff ht hu hx hy, List.forall₂_iff_zip, and_assoc]
  simp only [Prod.forall]

/-- **The list of pairs runs out**, after at most as many turns as there are nodes in the subtrees
of its first nodes, **and the answer is whether all its pairs are isomorphic**. -/
theorem exists_compareF (ht : t.WellFormed) (hu : u.WellFormed)
    (hlive : ∀ p ∈ work, t.arena.isLive p.1 ∧ u.arena.isLive p.2)
    (hfuel : t.arena.pending (work.map Prod.fst) ≤ fuel) :
    ∃ answer, t.compareF u fuel work = .ok (some answer) ∧
      (answer = true ↔ ∀ p ∈ work, t.Alike u p.1 p.2) := by
  induction fuel generalizing work with
  | zero =>
      cases work with
      | nil => exact ⟨true, by simp [compareF, pure, Except.pure], by simp⟩
      | cons p rest =>
          -- a waiting node is a visit that is left
          obtain ⟨⟨hx, -⟩, -⟩ := List.forall_mem_cons.1 hlive
          rw [List.map_cons, ht.arena.pending_cons hx] at hfuel
          omega
  | succ fuel ih =>
      cases work with
      | nil => exact ⟨true, by simp [compareF, pure, Except.pure], by simp⟩
      | cons p rest =>
          obtain ⟨x, y⟩ := p
          obtain ⟨⟨hx, hy⟩, hrest⟩ := List.forall_mem_cons.1 hlive
          rw [compareF_cons hx hy, List.forall_mem_cons, alike_iff_zip ht hu hx hy]
          by_cases hsame : t.arena.data? x = u.arena.data? y ∧
              (t.arena.children x).length = (u.arena.children y).length
          · -- the pairs of the children take the place of the pair
            rw [if_pos hsame]
            have hmap := List.map_fst_zip hsame.2.le
            have hlive' : ∀ p ∈ ((t.arena.children x).zip (u.arena.children y)).reverse ++ rest,
                t.arena.isLive p.1 ∧ u.arena.isLive p.2 := by
              intro p hp
              rw [List.mem_append, List.mem_reverse] at hp
              rcases hp with hp | hp
              · obtain ⟨hpx, hpy⟩ := List.of_mem_zip hp
                exact ⟨ht.arena.isLive_of_mem hx hpx, hu.arena.isLive_of_mem hy hpy⟩
              · exact hrest p hp
            have hfuel' : t.arena.pending
                ((((t.arena.children x).zip (u.arena.children y)).reverse ++ rest).map Prod.fst) ≤
                  fuel := by
              simp only [List.map_cons, ht.arena.pending_cons hx] at hfuel
              rw [List.map_append, List.map_reverse, hmap, Arena.pending_append,
                Arena.pending_reverse]
              omega
            obtain ⟨answer, heq, hiff⟩ := ih hlive' hfuel'
            refine ⟨answer, heq, hiff.trans ?_⟩
            simp only [List.mem_append, List.mem_reverse, or_imp, forall_and, hsame, true_and,
              and_self]
          · rw [if_neg hsame]
            exact ⟨false, rfl, by simp [hsame]⟩

/-! ### What a comparison finds out -/

/-- What it means that comparing the subtree at `x` with the subtree of `u` at `y` answers
`answer`. -/
structure Compared (t u : Tree) (x y : NodeId) (answer : Bool) : Prop where
  /-- This is the answer, -/
  eq_ok : t.isIsomorphic x u y = .ok answer
  /-- also when a list of pairs is worked off, with a turn for each node of the first subtree. -/
  compareF_eq : ∀ size fuel, t.size x = .ok size → size ≤ fuel →
    t.compareF u fuel [(x, y)] = .ok (some answer)
  /-- It says whether the subtrees are equal as rose trees of types and labels, -/
  shape : ∃ v w, t.shape x = .ok v ∧ u.shape y = .ok w ∧ (answer = true ↔ v = w)
  /-- which is whether the nodes carry the same data and have equally many children, isomorphic
  one by one. -/
  children : ∃ d e ns ms, t.data x = .ok d ∧ u.data y = .ok e ∧ t.children x = .ok ns ∧
    u.children y = .ok ms ∧ (answer = true ↔ d = e ∧ ns.length = ms.length ∧
      ∀ (i : Nat) c k, ns[i]? = some c → ms[i]? = some k → t.isIsomorphic c u k = .ok true)

theorem WellFormed.exists_compared (ht : t.WellFormed) (hu : u.WellFormed)
    (hx : t.arena.isLive x) (hy : u.arena.isLive y) : ∃ answer, t.Compared u x y answer := by
  obtain ⟨v, hv⟩ := ht.exists_shape hx
  obtain ⟨w, hw⟩ := hu.exists_shape hy
  obtain ⟨answer, heq, hiff⟩ := isIsomorphic_of_shape hv hw
  have halike : answer = true ↔ t.Alike u x y := by rw [Alike, heq, Except.ok.injEq]
  obtain ⟨d, hd⟩ := Arena.exists_data?_of_isLive hx
  obtain ⟨e, he⟩ := Arena.exists_data?_of_isLive hy
  refine ⟨answer, heq, ?_, ⟨v, w, hv, hw, hiff⟩,
    ⟨d, e, _, _, data_eq_ok hd, data_eq_ok he, children_eq_ok hx, children_eq_ok hy, ?_⟩⟩
  · intro size fuel hsize hfuel
    obtain rfl := Except.ok.inj ((size_eq_ok hx).symm.trans hsize)
    have hlive : ∀ p ∈ [(x, y)], t.arena.isLive p.1 ∧ u.arena.isLive p.2 := by simp [hx, hy]
    obtain ⟨answer', heq', hiff'⟩ :=
      exists_compareF ht hu hlive (by simpa [Arena.pending] using hfuel)
    rw [heq', Bool.eq_iff_iff.2 (hiff'.trans (by simpa using halike.symm))]
  · rw [halike, alike_iff ht hu hx hy, hd, he, Option.some_inj]
    refine and_congr_right fun _ => ⟨fun h => ?_, fun h => ?_⟩
    · refine ⟨h.length_eq, fun i c k hc hk => ?_⟩
      have hck : t.Alike u c k := forall₂_getElem? h hc hk
      exact hck
    · exact forall₂_of_getElem? h.1 h.2

/-- **Comparing subtrees decides whether they are equal as rose trees**, whichever way the two are
gone through.  So it tells a subtree from no copy of it, does not depend on which of two is the
first, and goes from one tree to the next. -/
theorem Built.isIsomorphic_decides (ht : t.Built) (hu : u.Built) (hx : t.contains x)
    (hy : u.contains y) :
    (∃ answer, t.Compared u x y answer) ∧ t.isIsomorphic x t x = .ok true ∧
    u.isIsomorphic y t x = t.isIsomorphic x u y ∧
    ∀ s z, s.Built → s.contains z → t.isIsomorphic x u y = .ok true →
      u.isIsomorphic y s z = .ok true → t.isIsomorphic x s z = .ok true := by
  have hlx := ht.wellFormed.contains_iff.1 hx
  have hly := hu.wellFormed.contains_iff.1 hy
  obtain ⟨v, hv⟩ := ht.wellFormed.exists_shape hlx
  obtain ⟨w, hw⟩ := hu.wellFormed.exists_shape hly
  refine ⟨ht.wellFormed.exists_compared hu.wellFormed hlx hly, (alike_iff_shape_eq hv hv).2 rfl,
    ?_, ?_⟩
  · obtain ⟨answer, heq, hiff⟩ := isIsomorphic_of_shape hv hw
    obtain ⟨answer', heq', hiff'⟩ := isIsomorphic_of_shape hw hv
    rw [heq, heq', Bool.eq_iff_iff.2 (hiff'.trans (eq_comm.trans hiff.symm))]
  · intro s z hs hz hxy hyz
    obtain ⟨k, hk⟩ := hs.wellFormed.exists_shape (hs.wellFormed.contains_iff.1 hz)
    exact (alike_iff_shape_eq hv hk).2
      (((alike_iff_shape_eq hv hw).1 hxy).trans ((alike_iff_shape_eq hw hk).1 hyz))

/-- A tree of which a pairing of children would forget a child of the other. -/
theorem Built.isIsomorphic_decides_fans : ∃ t u, fan ⟨"item", 0⟩ "top" ["a"] = .ok t ∧
    fan ⟨"item", 0⟩ "top" ["a", "b"] = .ok u ∧ t.contains t.root ∧ u.contains u.root ∧
    t.Compared u t.root u.root false := by
  obtain ⟨t, u, ht, hu, hx, hy, heq⟩ : ∃ t u, fan ⟨"item", 0⟩ "top" ["a"] = .ok t ∧
      fan ⟨"item", 0⟩ "top" ["a", "b"] = .ok u ∧ t.contains t.root ∧ u.contains u.root ∧
      t.isIsomorphic t.root u u.root = .ok false :=
    ⟨_, _, rfl, rfl, rfl, rfl, rfl⟩
  obtain ⟨answer, h⟩ :=
    (Built.isIsomorphic_decides (built_fan _ _ _ ht) (built_fan _ _ _ hu) hx hy).1
  obtain rfl := Except.ok.inj (h.eq_ok.symm.trans heq)
  exact ⟨t, u, ht, hu, hx, hy, h⟩

end Tree

end TreeScript
