/-
**Isomorphic trees.**

Comparing two subtrees in step answers whether they have the same data at their roots and
isomorphic children, one by one.  Two trees are isomorphic if and only if their nodes can be
matched, root to root, so that matched nodes carry the same data; matched nodes then have the same
paths.

Main definitions:

* `TreeScript.Tree.Alike` — isomorphic subtrees;
* `TreeScript.Tree.SamePlace` — nodes to which the same child indices lead.

Main results:

* `TreeScript.Tree.alike_iff` — **one step of the comparison**;
* `TreeScript.Tree.isomorphicTo_iff` — **isomorphic trees are those that can be matched**;
* `TreeScript.Tree.route_eq_of_matching`, `TreeScript.Tree.samePlace_of_matching` — matched nodes
  have the same path, and are at the same place.
-/

import TreeScript.Proofs.Tree.WellFormed

set_option relaxedAutoImplicit false
set_option autoImplicit false

namespace TreeScript

namespace RoseTree

variable {α β : Type} {r : α → β → Bool}

theorem agreesForest_iff {ts : List (RoseTree α)} {us : List (RoseTree β)} :
    ts.length = us.length ∧ agreesForest r ts us ↔
      List.Forall₂ (fun t u => t.agrees r u) ts us := by
  induction ts generalizing us with
  | nil =>
      cases us with
      | nil => simp [agreesForest]
      | cons u us => simp
  | cons t ts ih =>
      cases us with
      | nil => simp
      | cons u us =>
          rw [List.forall₂_cons, ← ih, agreesForest, Bool.and_eq_true, List.length_cons,
            List.length_cons, Nat.add_right_cancel_iff]
          tauto

/-- Trees agree if their roots do and their children do. -/
theorem agrees_node_iff {v : α} {w : β} {ts : List (RoseTree α)} {us : List (RoseTree β)} :
    (node v ts).agrees r (node w us) ↔ r v w ∧ List.Forall₂ (fun t u => t.agrees r u) ts us := by
  rw [agrees, Bool.and_eq_true, Bool.and_eq_true, beq_iff_eq, and_assoc, agreesForest_iff]

end RoseTree

namespace Tree

variable {t u : Tree} {n m p q c d x y : NodeId} {R : NodeId → NodeId → Prop}

/-! ### One step of the comparison -/

/-- The subtree at `n` and the subtree of `u` at `m` are found to be isomorphic. -/
def Alike (t u : Tree) (n m : NodeId) : Prop := t.isIsomorphic n u m = .ok true

theorem alike_iff_of_view {v w : RoseTree (NodeId × NodeData)} (hv : t.view n = .ok v)
    (hw : u.view m = .ok w) : t.Alike u n m ↔ v.agrees (fun a b => a.2 == b.2) w := by
  unfold Alike isIsomorphic
  rw [hv, hw]
  exact ⟨fun h => Except.ok.inj h, fun h => congrArg Except.ok h⟩

/-- **Subtrees are isomorphic if the data at their roots is the same and their children are
isomorphic, one by one.** -/
theorem alike_iff (ht : t.WellFormed) (hu : u.WellFormed) (hn : t.arena.isLive n)
    (hm : u.arena.isLive m) : t.Alike u n m ↔ t.arena.data? n = u.arena.data? m ∧
      List.Forall₂ (t.Alike u) (t.arena.children n) (u.arena.children m) := by
  have views : ∀ {t : Tree} (_ : t.WellFormed) {n : NodeId}, t.arena.isLive n →
      ∃ vs, List.Forall₂ (fun c v => t.view c = .ok v) (t.arena.children n) vs :=
    fun ht n hn => exists_forall₂ fun c hc => by
      obtain ⟨v, hv, -⟩ := ht.exists_view (ht.arena.isLive_of_mem hn hc)
      exact ⟨v, hv⟩
  obtain ⟨d, hd⟩ := Arena.exists_data?_of_isLive hn
  obtain ⟨e, he⟩ := Arena.exists_data?_of_isLive hm
  obtain ⟨vs, hvs⟩ := views ht hn
  obtain ⟨ws, hws⟩ := views hu hm
  rw [alike_iff_of_view (ht.view_eq hn hd hvs) (hu.view_eq hm he hws), RoseTree.agrees_node_iff,
    beq_iff_eq, hd, he, Option.some_inj]
  refine and_congr_right fun _ => ?_
  -- the children and their views agree element by element
  constructor
  · intro h
    refine (forall₂_trans hvs (forall₂_trans h hws.flip)).imp ?_
    rintro c k ⟨v, hv, w, hvw, hw⟩
    exact (alike_iff_of_view hv hw).2 hvw
  · intro h
    refine (forall₂_trans hvs.flip (forall₂_trans h hws)).imp ?_
    rintro v w ⟨c, hv, k, hck, hw⟩
    exact (alike_iff_of_view hv hw).1 hck

/-! ### Matched trees are isomorphic -/

theorem alike_of_matching (ht : t.WellFormed) (hu : u.WellFormed)
    (h : Arena.Matching t.arena u.arena R)
    (hdata : ∀ {x y}, R x y → t.arena.data? x = u.arena.data? y) (hxy : R x y) :
    t.Alike u x y := by
  have hx := h.isLive_left hxy
  revert y
  refine ht.arena.children_induction (P := fun x => ∀ {y}, R x y → t.Alike u x y) ?_ x hx
  intro x hx ih y hxy
  refine (alike_iff ht hu hx (h.isLive_right hxy)).2 ⟨hdata hxy, ?_⟩
  exact (forall₂_and_mem (h.children hxy) ih).imp fun c k hck => hck.2 hck.1

/-! ### Isomorphic trees are matched -/

/-- The same child indices lead to both nodes. -/
inductive SamePlace (t u : Tree) : NodeId → NodeId → Prop where
  | root : SamePlace t u t.root u.root
  | child {p q c d : NodeId} {i : Nat} (h : SamePlace t u p q)
      (hc : (t.arena.children p)[i]? = some c) (hd : (u.arena.children q)[i]? = some d) :
      SamePlace t u c d

theorem SamePlace.symm (h : t.SamePlace u x y) : u.SamePlace t y x := by
  induction h with
  | root => exact SamePlace.root
  | child _ hc hd ih => exact SamePlace.child ih hd hc

theorem Alike.symm (ht : t.WellFormed) (hu : u.WellFormed) (hx : t.arena.isLive x)
    (hy : u.arena.isLive y) (h : t.Alike u x y) : u.Alike t y x := by
  revert y
  refine ht.arena.children_induction
    (P := fun x => ∀ {y}, u.arena.isLive y → t.Alike u x y → u.Alike t y x) ?_ x hx
  intro x hx ih y hy h
  rw [alike_iff ht hu hx hy] at h
  rw [alike_iff hu ht hy hx]
  refine ⟨h.1.symm, List.Forall₂.flip ?_⟩
  refine (forall₂_and_mem (forall₂_and_mem h.2 ih).flip fun d hd =>
    hu.arena.isLive_of_mem hy hd).flip.imp fun c d hcd => ?_
  exact hcd.1.2 hcd.2 hcd.1.1

/-- Below isomorphic roots there are isomorphic subtrees at the same places. -/
theorem SamePlace.alike (ht : t.WellFormed) (hu : u.WellFormed)
    (hr : t.Alike u t.root u.root) (h : t.SamePlace u x y) :
    t.arena.isLive x ∧ u.arena.isLive y ∧ t.Alike u x y := by
  induction h with
  | root => exact ⟨ht.isLive_root, hu.isLive_root, hr⟩
  | child _ hc hd ih =>
      obtain ⟨hx, hy, ha⟩ := ih
      have hch := ((alike_iff ht hu hx hy).1 ha).2
      exact ⟨ht.arena.isLive_of_mem hx (List.mem_of_getElem? hc),
        hu.arena.isLive_of_mem hy (List.mem_of_getElem? hd), forall₂_getElem? hch hc hd⟩

theorem SamePlace.children (ht : t.WellFormed) (hu : u.WellFormed)
    (hr : t.Alike u t.root u.root) (h : t.SamePlace u x y) :
    List.Forall₂ (t.SamePlace u) (t.arena.children x) (u.arena.children y) := by
  obtain ⟨hx, hy, ha⟩ := h.alike ht hu hr
  exact forall₂_of_getElem? ((alike_iff ht hu hx hy).1 ha).2.length_eq
    fun i c d hc hd => SamePlace.child h hc hd

theorem SamePlace.exists_right (ht : t.WellFormed) (hu : u.WellFormed)
    (hr : t.Alike u t.root u.root) (hx : t.arena.isLive x) : ∃ y, t.SamePlace u x y := by
  refine ht.induction_from_root (P := fun x => ∃ y, t.SamePlace u x y) ⟨_, SamePlace.root⟩ ?_ hx
  rintro p c hlp hc hp ⟨q, hpq⟩
  obtain ⟨d, -, hcd⟩ :=
    exists_right_of_forall₂ (hpq.children ht hu hr) (ht.arena.of_parent? hc hp).2
  exact ⟨d, hcd⟩

theorem SamePlace.right_unique (ht : t.WellFormed) (hu : u.WellFormed)
    (hr : t.Alike u t.root u.root) (h : t.SamePlace u x y) (h' : t.SamePlace u x m) : y = m := by
  induction h generalizing m with
  | root =>
      generalize hx : t.root = x at h'
      cases h' with
      | root => rfl
      | child h' hc hd =>
          have hlp := (h'.alike ht hu hr).1
          have hp := ht.arena.parent?_of_mem hlp (List.mem_of_getElem? hc)
          rw [← hx, ht.parent?_root] at hp
          cases hp
  | @child p q c d i hpq hc hd ih =>
      have hlp := (hpq.alike ht hu hr).1
      have hp := ht.arena.parent?_of_mem hlp (List.mem_of_getElem? hc)
      cases h' with
      | root => rw [ht.parent?_root] at hp; cases hp
      | @child p' q' _ _ j h' hc' hd' =>
          have hlp' := (h'.alike ht hu hr).1
          have hp' := ht.arena.parent?_of_mem hlp' (List.mem_of_getElem? hc')
          rw [hp] at hp'
          obtain rfl := Option.some.inj hp'
          obtain rfl := ih h'
          -- a node stands only once among its siblings
          obtain ⟨hi, hic⟩ := List.getElem?_eq_some_iff.1 hc
          obtain ⟨hj, hjc⟩ := List.getElem?_eq_some_iff.1 hc'
          have hij : i = j :=
            (ht.arena.nodup_children hlp).getElem_inj_iff.1 (hic.trans hjc.symm)
          subst hij
          rw [hd] at hd'
          exact Option.some.inj hd'

theorem matching_samePlace (ht : t.WellFormed) (hu : u.WellFormed)
    (hr : t.Alike u t.root u.root) : Arena.Matching t.arena u.arena (t.SamePlace u) := by
  have hr' := hr.symm ht hu ht.isLive_root hu.isLive_root
  exact
    { isLive_left := fun h => (h.alike ht hu hr).1
      isLive_right := fun h => (h.alike ht hu hr).2.1
      exists_right := fun hx => SamePlace.exists_right ht hu hr hx
      exists_left := fun hy => (SamePlace.exists_right hu ht hr' hy).imp fun _ h => h.symm
      left_unique := fun h h' => h.symm.right_unique hu ht hr' h'.symm
      right_unique := fun h h' => h.right_unique ht hu hr h'
      children := fun h => h.children ht hu hr }

/-- Nodes at the same place carry the same data. -/
theorem SamePlace.data? (ht : t.WellFormed) (hu : u.WellFormed) (hr : t.Alike u t.root u.root)
    (h : t.SamePlace u x y) : t.arena.data? x = u.arena.data? y := by
  obtain ⟨hx, hy, ha⟩ := h.alike ht hu hr
  exact ((alike_iff ht hu hx hy).1 ha).1

/-- **Isomorphic trees are those that can be matched.** -/
theorem isomorphicTo_iff (ht : t.WellFormed) (hu : u.WellFormed) :
    t.isomorphicTo u = .ok true ↔ ∃ R, Arena.Matching t.arena u.arena R ∧ R t.root u.root ∧
      ∀ x y, R x y → t.arena.data? x = u.arena.data? y := by
  constructor
  · intro h
    exact ⟨t.SamePlace u, matching_samePlace ht hu h, SamePlace.root,
      fun _ _ hxy => hxy.data? ht hu h⟩
  · rintro ⟨R, hR, hroot, hdata⟩
    exact alike_of_matching ht hu hR (hdata _ _) hroot

/-! ### Paths -/

/-- **Matched nodes have the same path.** -/
theorem route_eq_of_matching (ht : t.WellFormed) (hu : u.WellFormed)
    (h : Arena.Matching t.arena u.arena R) (hroot : R t.root u.root) (hxy : R x y) :
    t.route x = u.route y := by
  have hx := h.isLive_left hxy
  revert y
  refine ht.induction_from_root (P := fun x => ∀ {y}, R x y → t.route x = u.route y) ?_ ?_ hx
  · intro y hy
    rw [ht.route_root, h.right_unique hy hroot, hu.route_root]
  · intro p c _ hc hp ih y hcy
    obtain ⟨q, hq, hpq⟩ := h.parent? ht.arena hu.arena hcy hp
    rw [ht.route_of_parent? hc hp, hu.route_of_parent? (h.isLive_right hcy) hq, ih hpq]
    exact congrArg (fun i : Nat => u.route q ++ [i.toUInt32])
      (h.position_eq ht.arena hu.arena hcy)

/-- **Matched nodes are at the same place.** -/
theorem samePlace_of_matching (ht : t.WellFormed) (hu : u.WellFormed)
    (h : Arena.Matching t.arena u.arena R) (hroot : R t.root u.root) (hxy : R x y) :
    t.SamePlace u x y := by
  have hx := h.isLive_left hxy
  revert y
  refine ht.induction_from_root (P := fun x => ∀ {y}, R x y → t.SamePlace u x y) ?_ ?_ hx
  · intro y hy
    obtain rfl := h.right_unique hroot hy
    exact SamePlace.root
  · intro p c _ hc hp ih y hcy
    obtain ⟨q, hq, hpq⟩ := h.parent? ht.arena hu.arena hcy hp
    have hpos := hu.arena.getElem?_position (h.isLive_right hcy) hq
    rw [← h.position_eq ht.arena hu.arena hcy] at hpos
    exact SamePlace.child (ih hpq) (ht.arena.getElem?_position hc hp) hpos

end Tree

end TreeScript
