/-
**Arenas with one root.**

The arena of a tree has a single node without parent, its root, and everything in it is below the
root.  This is so after every change that puts a node under another one or takes out a subtree;
when the root itself is taken out nothing is left.  Nodes that have left do not come back.

Main definitions:

* `TreeScript.Arena.Later` — an arena at a later time: what has left stays away.

Main results:

* `TreeScript.Arena.Rooted.below` — **everything is below the root**;
* `TreeScript.Arena.Rooted.move`, `TreeScript.Arena.Rooted.graft`,
  `TreeScript.Arena.Rooted.removeSubtree` — what keeps the root.
-/

import TreeScript.Proofs.Arena.Planting

set_option relaxedAutoImplicit false
set_option autoImplicit false

namespace TreeScript.Arena

variable {α : Type} {a b c e : Arena α} {n m k p t : NodeId} {r : Option NodeId} {i : Nat}
  {tops new : List NodeId}

/-! ### Later -/

/-- `b` is `a` at a later time: no identity is issued twice, and what has left stays away. -/
structure Later (a b : Arena α) : Prop where
  issued : ∀ {n}, a.Issued n → b.Issued n
  isLive : ∀ {n}, a.Issued n → b.isLive n → a.isLive n

namespace Later

theorem refl (a : Arena α) : Later a a := ⟨id, fun _ => id⟩

theorem trans (h : Later a b) (h' : Later b c) : Later a c :=
  ⟨fun hi => h'.issued (h.issued hi), fun hi hl => h.isLive hi (h'.isLive (h.issued hi) hl)⟩

theorem setData (a : Arena α) (n : NodeId) (f : α → α) : Later a (a.setData n f) :=
  ⟨issued_setData_iff.2, fun _ hl => by simpa using hl⟩

theorem unlink (a : Arena α) (n : NodeId) : Later a (a.unlink n) :=
  ⟨issued_unlink_iff.2, fun _ hl => by simpa using hl⟩

theorem link (a : Arena α) (p : NodeId) (i : Nat) (n : NodeId) : Later a (a.link p i n) :=
  ⟨issued_link_iff.2, fun _ hl => by simpa using hl⟩

theorem of_grown {under : Option NodeId} (h : Grown a e under tops new) : Later a e :=
  ⟨h.issued, fun hi hl => (h.isLive_iff.1 hl).resolve_right fun hm => h.not_issued _ hm hi⟩

theorem removeSubtree (hw : a.WellFormed) (hn : a.isLive n) : Later a (a.removeSubtree n) :=
  ⟨issued_removeSubtree, fun _ hl => ((isLive_removeSubtree_iff hw hn).1 hl).1⟩

end Later

/-! ### Where a node may be put -/

/-- What has grown is not above what was there. -/
theorem Grown.not_below (h : Grown a e none tops new) (hw : a.WellFormed) (hp : a.isLive p)
    (hn : n ∈ new) : ¬ e.Below n p := by
  intro hb
  induction hb with
  | self => exact h.not_isLive hn hp
  | step hq _ ih =>
      rw [h.parent? hp] at hq
      exact ih (hw.isLive_of_parent? hp hq)

/-- What has grown can be put anywhere among what was there. -/
theorem Grown.attach_eq (h : Grown a e none [t] new) (hw : a.WellFormed) (hp : a.isLive p)
    (i : Nat) : e.attach p i t = .ok (e.link p i t) := by
  have ht : t ∈ new := h.subset t (List.mem_singleton_self t)
  refine attach_of_isLive i (h.isLive hp) fun hm => ?_
  exact h.not_below hw hp ht ((h.wf.mem_ancestors_iff (h.isLive hp)).1 hm)

theorem Grown.wellFormed_link (h : Grown a e none [t] new) (hw : a.WellFormed) (hp : a.isLive p)
    (i : Nat) : (e.link p i t).WellFormed := by
  have ht : t ∈ new := h.subset t (List.mem_singleton_self t)
  exact h.wf.link (h.isLive hp) (h.isLive_new ht) (h.parent?_tops t (List.mem_singleton_self t))
    (h.not_below hw hp ht)

/-- What was there keeps its parent when what has grown is put under a node, -/
theorem Grown.parent?_graft (h : Grown a e none [t] new) (hp : a.isLive p) (hn : a.isLive n)
    (i : Nat) : (e.link p i t).parent? n = a.parent? n := by
  have ht : t ∈ new := h.subset t (List.mem_singleton_self t)
  rw [parent?_link h.wf (h.isLive hp) (h.isLive_new ht) (h.isLive hn), if_neg, h.parent? hn]
  rintro rfl
  exact h.not_isLive ht hn

/-- and its children, apart from what is put there. -/
theorem Grown.children_graft (h : Grown a e none [t] new) (hp : a.isLive p) (hn : a.isLive n)
    (i : Nat) : (e.link p i t).children n =
      if n = p then (a.children p).insertIdx (min i (a.children p).length) t
      else a.children n := by
  rw [children_link (h.isLive hp) (h.isLive hn), h.children hp, h.children hn]
  simp

section Move

variable (hw : a.WellFormed) (hn : a.isLive n) (hp : a.isLive p)

include hw hn hp

theorem parent?_move (i : Nat) (hk : a.isLive k) :
    ((a.unlink n).link p i n).parent? k = if k = n then some p else a.parent? k := by
  rw [parent?_link (hw.unlink hn) (by simpa using hp) (by simpa using hn) (by simpa using hk),
    parent?_unlink hn hk]
  by_cases h : k = n <;> simp [h]

theorem children_move (i : Nat) (hk : a.isLive k) :
    ((a.unlink n).link p i n).children k =
      if k = p then
        ((a.children p).erase n).insertIdx (min i ((a.children p).erase n).length) n
      else (a.children k).erase n := by
  rw [children_link (by simpa using hp) (by simpa using hk), children_unlink hw hn hp,
    children_unlink hw hn hk]

/-- A node that has been taken from its siblings can be put wherever it is not above. -/
theorem attach_unlink_eq (hb : ¬ a.Below n p) (i : Nat) :
    (a.unlink n).attach p i n = .ok ((a.unlink n).link p i n) := by
  refine attach_of_isLive i (by simpa using hp) fun hm => ?_
  exact not_below_unlink hw hn hp hb
    (((hw.unlink hn).mem_ancestors_iff (by simpa using hp)).1 hm)

theorem wellFormed_move (hb : ¬ a.Below n p) (i : Nat) :
    ((a.unlink n).link p i n).WellFormed :=
  (hw.unlink hn).link (by simpa using hp) (by simpa using hn)
    (by rw [parent?_unlink hn hn, if_pos rfl]) (not_below_unlink hw hn hp hb)

end Move

/-! ### One root -/

namespace Rooted

theorem exists_below (h : a.Rooted r) (hw : a.WellFormed) (hm : a.isLive m) :
    ∃ n, r = some n ∧ a.Below n m := by
  have hg := hw.grounded hm
  induction hg with
  | top ht => exact ⟨_, (h.parent?_eq_none_iff hm).1 ht, Below.self⟩
  | step hp _ ih =>
      obtain ⟨n, hn, hb⟩ := ih (hw.isLive_of_parent? hm hp)
      exact ⟨n, hn, Below.step hp hb⟩

/-- **Everything is below the root.** -/
theorem below (h : a.Rooted (some n)) (hw : a.WellFormed) (hm : a.isLive m) : a.Below n m := by
  obtain ⟨k, hk, hb⟩ := h.exists_below hw hm
  exact Option.some.inj hk ▸ hb

/-- Without a root there are no nodes. -/
theorem not_isLive (h : a.Rooted none) (hw : a.WellFormed) : ¬ a.isLive n := by
  intro hn
  obtain ⟨root, hroot, -⟩ := h.exists_below hw hn
  cases hroot

theorem setData (h : a.Rooted r) (n : NodeId) (f : α → α) : (a.setData n f).Rooted r :=
  ⟨fun hr => by simpa using h.isLive hr, fun hl => by
    simpa using h.parent?_eq_none_iff (by simpa using hl)⟩

theorem move (h : a.Rooted r) (hw : a.WellFormed) (hn : a.isLive n) (hp : a.isLive p)
    (hb : ¬ a.Below n p) (i : Nat) : ((a.unlink n).link p i n).Rooted r where
  isLive hr := by simpa using h.isLive hr
  parent?_eq_none_iff := by
    intro k hk
    have hk : a.isLive k := by simpa using hk
    rw [parent?_move hw hn hp i hk]
    by_cases he : k = n
    · -- the root is above everything and cannot have been moved
      have hne : r ≠ some k := by
        rintro rfl
        exact hb (he ▸ h.below hw hp)
      simp [he, he ▸ hne]
    · rw [if_neg he]
      exact h.parent?_eq_none_iff hk

/-- What has grown is put under a node that was there. -/
theorem graft (h : a.Rooted r) (hg : Grown a e none [t] new)
    (hp : a.isLive p) (i : Nat) : (e.link p i t).Rooted r where
  isLive hr := by simpa using hg.isLive (h.isLive hr)
  parent?_eq_none_iff := by
    intro k hk
    have hk : e.isLive k := by simpa using hk
    have ht : t ∈ new := hg.subset t (List.mem_singleton_self t)
    rw [parent?_link hg.wf (hg.isLive hp) (hg.isLive_new ht) hk]
    rcases hg.isLive_iff.1 hk with hl | hl
    · have hne : k ≠ t := by
        rintro rfl
        exact hg.not_isLive ht hl
      rw [if_neg hne, hg.parent? hl]
      exact h.parent?_eq_none_iff hl
    · have hr : r ≠ some k := fun hr => hg.not_isLive hl (h.isLive hr)
      by_cases he : k = t
      · simp [he, he ▸ hr]
      · obtain ⟨q, -, hq⟩ := hg.parent?_new k hl (by simpa using he)
        simp [he, hr, hq]

/-- Where nothing was, what has grown has a root. -/
theorem of_grown (h : a.Rooted none) (hw : a.WellFormed) (hg : Grown a e none [t] new) :
    e.Rooted (some t) where
  isLive := by
    rintro n ⟨⟩
    exact hg.isLive_new (hg.subset t (List.mem_singleton_self t))
  parent?_eq_none_iff := by
    intro k hk
    rcases hg.isLive_iff.1 hk with hl | hl
    · obtain ⟨n, hn, -⟩ := h.exists_below hw hl
      cases hn
    · by_cases he : k = t
      · subst he
        simpa using hg.parent?_tops k (List.mem_singleton_self k)
      · obtain ⟨q, -, hq⟩ := hg.parent?_new k hl (by simpa using he)
        have hne : t ≠ k := fun e => he e.symm
        simp [hq, hne]

theorem removeSubtree (h : a.Rooted r) (hw : a.WellFormed) (hn : a.isLive n) :
    (a.removeSubtree n).Rooted (if r = some n then none else r) where
  isLive := by
    intro m hm
    split at hm
    · cases hm
    · rename_i hne
      have hl := h.isLive hm
      refine (isLive_removeSubtree_iff hw hn).2 ⟨hl, fun hb => hne ?_⟩
      rw [hm, hb.eq_of_parent?_eq_none ((h.parent?_eq_none_iff hl).2 hm)]
  parent?_eq_none_iff := by
    intro k hk
    obtain ⟨hk, hb⟩ := (isLive_removeSubtree_iff hw hn).1 hk
    rw [parent?_removeSubtree hw hn hk hb, h.parent?_eq_none_iff hk]
    split
    case isTrue hr =>
      subst hr
      exact absurd (h.below hw hk) hb
    case isFalse => exact Iff.rfl

end Rooted

end TreeScript.Arena
