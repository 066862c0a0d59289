/-
**Coming and going in pieces.**

Some nodes of a tree are kept, and all others come or go.  A subtree in which nothing is kept
comes or goes in one piece, so that one action does for all of it, and the largest such subtrees
are the pieces; but a piece that is a single leaf, and a node with something below it that is kept,
come or go alone.  In this way every node that is not kept is seen to once.

Main definitions:

* `TreeScript.Tree.clean`, `TreeScript.Tree.underClean` — nothing is kept below a node, or below
  its parent;
* `TreeScript.Tree.alone`, `TreeScript.Tree.whole` — the nodes that come or go alone, and those
  that do so with all that is below them;
* `TreeScript.Tree.turn?` — what is done about a node.

Main results:

* `TreeScript.Tree.WellFormed.exists_top`, `TreeScript.Tree.WellFormed.top_unique` — a node of a
  clean subtree is in one largest clean subtree;
* `TreeScript.Tree.WellFormed.count_turns` — **how often something is done about a node**;
* `TreeScript.Tree.WellFormed.countP_reaches` — **every node that is not kept is reached once**.
-/

import TreeScript.Action
import TreeScript.Proofs.Tree.WellFormed

set_option relaxedAutoImplicit false
set_option autoImplicit false

namespace TreeScript.Tree

section Definitions

variable (t : Tree) (kept : NodeId → Bool)

/-- Nothing below `n`, and not `n` itself, is kept. -/
def clean (n : NodeId) : Bool := (t.arena.preorder n).all fun k => !kept k

/-- Nothing below the parent of `n`, and not the parent, is kept. -/
def underClean (n : NodeId) : Bool := (t.arena.parent? n).any (t.clean kept)

/-- **Node `n` comes or goes alone**: it is not kept, and either something below it is kept, or it
is a leaf that does not come or go with its parent. -/
def alone (n : NodeId) : Bool :=
  !kept n && (!t.clean kept n || (t.arena.children n).isEmpty && !t.underClean kept n)

/-- **Node `n` comes or goes with all that is below it**, and not with its parent. -/
def whole (n : NodeId) : Bool :=
  t.clean kept n && !(t.arena.children n).isEmpty && !t.underClean kept n

/-- What is done about `n`, if anything: `one` is done to nodes alone, and `all` to subtrees. -/
def turn? (one all : ActionKind) (n : NodeId) : Option (ActionKind × NodeId) :=
  if t.alone kept n then some (one, n) else if t.whole kept n then some (all, n) else none

/-- What is done about a node does something to `n` too. -/
def reaches (one all : ActionKind) (n : NodeId) (e : ActionKind × NodeId) : Bool :=
  e = (one, n) || e.1 = all && n ∈ t.arena.preorder e.2

end Definitions

variable {t : Tree} {kept : NodeId → Bool} {one all kind : ActionKind} {n p k y : NodeId}

theorem not_alone_of_whole (h : t.whole kept n) : t.alone kept n = false := by
  simp only [whole, Bool.and_eq_true, Bool.not_eq_true'] at h
  simp [alone, h.1.1, h.1.2]

theorem turn?_eq_some_iff {e : ActionKind × NodeId} : t.turn? kept one all n = some e ↔
    e.2 = n ∧ (e.1 = one ∧ t.alone kept n ∨ e.1 = all ∧ t.whole kept n) := by
  obtain ⟨kind, k⟩ := e
  unfold turn?
  by_cases hw : t.whole kept n
  · simp [hw, not_alone_of_whole hw, eq_comm, and_comm]
  · by_cases ha : t.alone kept n <;> simp [hw, ha, eq_comm, and_comm]

theorem underClean_of_parent? (hp : t.arena.parent? n = some p) :
    t.underClean kept n = t.clean kept p := by
  rw [underClean, hp]
  rfl

/-- What is done about a node that is not kept and does not come or go with its parent. -/
theorem turn?_of_not_kept (hk : kept n = false) (hu : t.underClean kept n = false) :
    t.turn? kept one all n =
      some (if (t.arena.children n).isEmpty || !t.clean kept n then one else all, n) := by
  simp only [turn?, alone, whole, hk, hu]
  cases t.clean kept n <;> cases (t.arena.children n).isEmpty <;> rfl

namespace WellFormed

variable (ht : t.WellFormed)

include ht

/-! ### Clean subtrees -/

theorem kept_of_clean (hn : t.arena.isLive n) (h : t.clean kept n) : kept n = false := by
  have hself := List.all_eq_true.1 h n (ht.arena.mem_preorder_self hn)
  simpa using hself

/-- A clean subtree has clean branches. -/
theorem clean_of_below (hn : t.arena.isLive n) (hb : t.arena.Below k n) (h : t.clean kept k) :
    t.clean kept n := by
  have hk := ht.arena.isLive_of_below hn hb
  refine List.all_eq_true.2 fun j hj => List.all_eq_true.1 h j ?_
  obtain ⟨hlj, hbj⟩ := (ht.arena.mem_preorder_iff hn).1 hj
  exact (ht.arena.mem_preorder_iff hk).2 ⟨hlj, hb.trans hbj⟩

theorem clean_of_kept (hn : t.arena.isLive n) (h : kept n) : t.clean kept n = false := by
  rw [← Bool.not_eq_true]
  intro hc
  rw [ht.kept_of_clean hn hc] at h
  cases h

/-- Nothing is done about a node that is kept. -/
theorem turn?_of_kept (hn : t.arena.isLive n) (h : kept n) : t.turn? kept one all n = none := by
  simp [turn?, alone, whole, h, ht.clean_of_kept hn h]

/-- Nothing is done about a node that comes or goes with its parent. -/
theorem turn?_of_underClean (hn : t.arena.isLive n) (h : t.underClean kept n) :
    t.turn? kept one all n = none := by
  obtain ⟨p, hp, hclean⟩ := (Option.any_eq_true ..).1 h
  have hc := ht.clean_of_below hn (Arena.Below.of_parent hp) hclean
  simp [turn?, alone, whole, h, hc]

/-- **A node of a clean subtree is in a largest one.** -/
theorem exists_top (hn : t.arena.isLive n) (h : t.clean kept n) : ∃ y, t.arena.isLive y ∧
    t.arena.Below y n ∧ t.clean kept y ∧ t.underClean kept y = false := by
  revert h
  refine ht.induction_from_root (P := fun n => t.clean kept n → ∃ y, t.arena.isLive y ∧
    t.arena.Below y n ∧ t.clean kept y ∧ t.underClean kept y = false) ?_ ?_ hn
  · intro h
    exact ⟨t.root, ht.isLive_root, Arena.Below.self, h, by rw [underClean, ht.parent?_root]; rfl⟩
  · intro p c _ hc hp ih h
    by_cases hclean : t.clean kept p
    · obtain ⟨y, hy, hb, htop⟩ := ih hclean
      exact ⟨y, hy, hb.trans (Arena.Below.of_parent hp), htop⟩
    · exact ⟨c, hc, Arena.Below.self, h, by rwa [underClean_of_parent? hp, ← Bool.not_eq_true]⟩

/-- **And only in one.** -/
theorem top_unique (hn : t.arena.isLive n) (hy : t.arena.Below y n) (hk : t.arena.Below k n)
    (hcy : t.clean kept y) (hck : t.clean kept k) (huy : t.underClean kept y = false)
    (huk : t.underClean kept k = false) : y = k := by
  -- what is strictly below a clean node has a clean parent
  have key : ∀ {x z : NodeId}, t.arena.isLive z → t.arena.Below x z → t.clean kept x →
      t.underClean kept z = false → x = z := by
    intro x z hz hb hx hu
    cases hb with
    | self => rfl
    | step hp hb =>
        rw [underClean_of_parent? hp,
          ht.clean_of_below (ht.arena.isLive_of_parent? hz hp) hb hx] at hu
        cases hu
  rcases hy.total hk with hb | hb
  · exact key (ht.arena.isLive_of_below hn hk) hb hcy huk
  · exact (key (ht.arena.isLive_of_below hn hy) hb hck huy).symm

/-- Nothing but a leaf is below it. -/
theorem eq_of_below_leaf (hn : t.arena.isLive n) (hb : t.arena.Below y n)
    (hleaf : (t.arena.children y).isEmpty) : n = y := by
  have hy := ht.arena.isLive_of_below hn hb
  have hmem := (ht.arena.mem_preorder_iff hy).2 ⟨hn, hb⟩
  rw [ht.arena.preorder_eq hy, List.isEmpty_iff.1 hleaf] at hmem
  exact List.mem_singleton.1 hmem

/-! ### What is done about all nodes -/

section Turns

variable {l : List NodeId} (hlive : ∀ n ∈ l, t.arena.isLive n)
  (hall : ∀ n, t.arena.isLive n → kept n = false → n ∈ l)

include hlive hall

theorem mem_turns_iff {e : ActionKind × NodeId} : e ∈ l.filterMap (t.turn? kept one all) ↔
    t.arena.isLive e.2 ∧ (e.1 = one ∧ t.alone kept e.2 ∨ e.1 = all ∧ t.whole kept e.2) := by
  simp only [List.mem_filterMap, turn?_eq_some_iff]
  constructor
  · rintro ⟨n, hn, rfl, h⟩
    exact ⟨hlive _ hn, h⟩
  · rintro ⟨hn, h⟩
    refine ⟨e.2, hall _ hn ?_, rfl, h⟩
    rcases h with ⟨-, ha⟩ | ⟨-, hw⟩
    · rw [alone, Bool.and_eq_true, Bool.not_eq_true'] at ha
      exact ha.1
    · rw [whole, Bool.and_eq_true, Bool.and_eq_true] at hw
      exact ht.kept_of_clean hn hw.1.1

/-- What reaches a node that is kept, or has something below it that is: only what is done about
the node itself, and that only if it is not kept. -/
theorem mem_turns_and_reaches_iff_of_not_clean (hne : one ≠ all) (hn : t.arena.isLive n)
    (hclean : t.clean kept n = false) {e : ActionKind × NodeId} :
    e ∈ l.filterMap (t.turn? kept one all) ∧ t.reaches one all n e ↔
      e = (one, n) ∧ kept n = false := by
  rw [ht.mem_turns_iff hlive hall, reaches, Bool.or_eq_true, Bool.and_eq_true, decide_eq_true_iff,
    decide_eq_true_iff, decide_eq_true_iff]
  constructor
  · rintro ⟨⟨he, h⟩, rfl | ⟨hkind, hmem⟩⟩
    · refine ⟨rfl, ?_⟩
      rcases h with ⟨-, ha⟩ | ⟨hone, -⟩
      · rw [alone, Bool.and_eq_true, Bool.not_eq_true'] at ha
        exact ha.1
      · exact absurd hone hne
    · rcases h with ⟨hone, -⟩ | ⟨-, hw⟩
      · exact absurd (hone.symm.trans hkind) hne
      · rw [whole, Bool.and_eq_true, Bool.and_eq_true] at hw
        rw [ht.clean_of_below hn ((ht.arena.mem_preorder_iff he).1 hmem).2 hw.1.1] at hclean
        cases hclean
  · rintro ⟨rfl, hkept⟩
    exact ⟨⟨hn, Or.inl ⟨rfl, by simp [alone, hkept, hclean]⟩⟩, Or.inl rfl⟩

/-- What reaches a node below which nothing is kept. -/
theorem mem_turns_and_reaches_iff_of_clean (hne : one ≠ all) (hn : t.arena.isLive n)
    (hy : t.arena.isLive y) (hb : t.arena.Below y n) (hclean : t.clean kept y)
    (hunder : t.underClean kept y = false) {e : ActionKind × NodeId} :
    e ∈ l.filterMap (t.turn? kept one all) ∧ t.reaches one all n e ↔
      e = (if (t.arena.children y).isEmpty then one else all, y) := by
  have hcn := ht.clean_of_below hn hb hclean
  rw [ht.mem_turns_iff hlive hall, reaches, Bool.or_eq_true, Bool.and_eq_true, decide_eq_true_iff,
    decide_eq_true_iff, decide_eq_true_iff]
  constructor
  · rintro ⟨⟨he, h⟩, rfl | ⟨hkind, hmem⟩⟩
    · rcases h with ⟨-, ha⟩ | ⟨hall', -⟩
      · simp only [alone, hcn, Bool.not_true, Bool.false_or, Bool.and_eq_true,
          Bool.not_eq_true'] at ha
        obtain rfl := ht.top_unique hn hb Arena.Below.self hclean hcn hunder ha.2.2
        rw [if_pos ha.2.1]
      · exact absurd hall' hne
    · rcases h with ⟨hone, -⟩ | ⟨-, hw⟩
      · exact absurd (hone.symm.trans hkind) hne
      · simp only [whole, Bool.and_eq_true, Bool.not_eq_true'] at hw
        obtain rfl := ht.top_unique hn hb ((ht.arena.mem_preorder_iff he).1 hmem).2 hclean hw.1.1
          hunder hw.2
        rw [hw.1.2, if_neg Bool.false_ne_true, ← hkind]
  · rintro rfl
    by_cases hleaf : (t.arena.children y).isEmpty
    · -- a piece that is a leaf
      obtain rfl := ht.eq_of_below_leaf hn hb hleaf
      rw [if_pos hleaf]
      exact ⟨⟨hy, Or.inl ⟨rfl, by simp [alone, ht.kept_of_clean hn hcn, hleaf, hunder]⟩⟩,
        Or.inl rfl⟩
    · rw [if_neg hleaf]
      exact ⟨⟨hy, Or.inr ⟨rfl, by simp [whole, hclean, hleaf, hunder]⟩⟩,
        Or.inr ⟨rfl, (ht.arena.mem_preorder_iff hy).2 ⟨hn, hb⟩⟩⟩

variable (hl : l.Nodup)

include hl

omit ht hlive hall in
theorem nodup_turns : (l.filterMap (t.turn? kept one all)).Nodup :=
  hl.filterMap fun _ _ _ hn hk =>
    (turn?_eq_some_iff.1 hn).1.symm.trans (turn?_eq_some_iff.1 hk).1

/-- **How often something is done about a node**: once, or not at all. -/
theorem count_turns (hne : one ≠ all) (n : NodeId) :
    ((l.filterMap (t.turn? kept one all)).count (one, n) =
        if t.contains n ∧ t.alone kept n then 1 else 0) ∧
      (l.filterMap (t.turn? kept one all)).count (all, n) =
        if t.contains n ∧ t.whole kept n then 1 else 0 := by
  rw [(nodup_turns hl).count, (nodup_turns hl).count]
  constructor
  · refine if_congr ?_ rfl rfl
    rw [ht.mem_turns_iff hlive hall, ht.contains_iff]
    simp [hne]
  · refine if_congr ?_ rfl rfl
    rw [ht.mem_turns_iff hlive hall, ht.contains_iff]
    simp [hne.symm]

/-- **Every node that is not kept is reached once**, and a node that is kept is not reached. -/
theorem countP_reaches (hne : one ≠ all) (hn : t.arena.isLive n) :
    (l.filterMap (t.turn? kept one all)).countP (t.reaches one all n) =
      if kept n then 0 else 1 := by
  by_cases hkept : kept n
  · rw [if_pos hkept, List.countP_eq_zero]
    intro e he hreach
    have hnot := ((ht.mem_turns_and_reaches_iff_of_not_clean hlive hall hne hn
      (ht.clean_of_kept hn hkept)).1 ⟨he, hreach⟩).2
    rw [hkept] at hnot
    cases hnot
  · rw [Bool.not_eq_true] at hkept
    obtain ⟨e₀, he₀⟩ : ∃ e₀, ∀ e, e ∈ l.filterMap (t.turn? kept one all) ∧
        t.reaches one all n e ↔ e = e₀ := by
      by_cases hclean : t.clean kept n
      · obtain ⟨y, hy, hb, hcy, huy⟩ := ht.exists_top hn hclean
        exact ⟨_, fun _ => ht.mem_turns_and_reaches_iff_of_clean hlive hall hne hn hy hb hcy huy⟩
      · rw [Bool.not_eq_true] at hclean
        exact ⟨(one, n), fun _ =>
          (ht.mem_turns_and_reaches_iff_of_not_clean hlive hall hne hn hclean).trans
            (and_iff_left hkept)⟩
    have hcongr : (l.filterMap (t.turn? kept one all)).countP (t.reaches one all n) =
        (l.filterMap (t.turn? kept one all)).count e₀ :=
      List.countP_congr fun e he => by
        rw [beq_iff_eq, ← he₀, and_iff_right he]
    rw [hcongr, (nodup_turns hl).count, if_pos ((he₀ e₀).2 rfl).1, if_neg (by simp [hkept])]

end Turns

end WellFormed

end TreeScript.Tree
