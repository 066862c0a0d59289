/-
**Trees that get new leaves and lose subtrees.**

A copy of a tree is edited: leaves are added, at the end of a list of children or somewhere in it,
and children are taken out with all that is below them, in any order.  A slot that has become vacant
may have a new tenant soon, but the tenant has an identity of its own.  So a node of the original
that the edited tree contains has been there all the time, and nothing has moved it: it is under the
parent that it was under, in the same order among the siblings that are left, and it carries what it
carried.

Main definitions:

* `TreeScript.Tree.Edited` — **a copy with new leaves and without some subtrees**;
* `TreeScript.Tree.common` — the nodes of two trees;
* `TreeScript.Tree.Unmoved` — what two trees have in common is in both at the same place.

Main results:

* `TreeScript.Tree.Unmoved.trans` — one edit after the other;
* `TreeScript.Tree.WellFormed.unmoved_place`, `TreeScript.Tree.WellFormed.unmoved_removeChild` — one
  edit;
* `TreeScript.Tree.Edited.unmoved` — **editing moves nothing**.
-/

import TreeScript.Proofs.Replay.Untouched
import TreeScript.Proofs.Tree.Built
import TreeScript.Proofs.Tree.ChildLists

set_option relaxedAutoImplicit false
set_option autoImplicit false

namespace TreeScript.Tree

variable {src t u w : Tree} {p n : NodeId} {i : Nat} {d : NodeData}

/-! ### Edits -/

/-- **`t` is made of a copy of `src` by adding leaves and taking out children with what is below
them**, in any order.  The registry may be exchanged at any time, so that there can be new types. -/
inductive Edited (src : Tree) : Tree → Prop where
  | copy : Edited src src
  | withTypes {t : Tree} (ht : Edited src t) (types : Registry) : Edited src { t with types }
  | addChild {t u : Tree} {p n : NodeId} {kind : NodeType} {label : String} (ht : Edited src t)
      (hp : t.contains p) (h : t.addChild p kind label = .ok (n, u)) : Edited src u
  | insertChild {t u : Tree} {p n : NodeId} {i : Nat} {kind : NodeType} {label : String}
      (ht : Edited src t) (hp : t.contains p) (h : t.insertChild p i kind label = .ok (n, u)) :
      Edited src u
  | removeChild {t u : Tree} {p : NodeId} {i : Nat} {removed : Option NodeId} (ht : Edited src t)
      (hp : t.contains p) (h : t.removeChild p i = .ok (removed, u)) : Edited src u

theorem Edited.built (hs : src.Built) (h : src.Edited t) : t.Built := by
  induction h with
  | copy => exact hs
  | withTypes _ types ih => exact ih.withTypes types
  | addChild _ _ h ih => exact ih.addChild h
  | insertChild _ _ h ih => exact ih.insertChild h
  | removeChild _ _ h ih => exact ih.removeChild h

/-! ### Nothing is moved -/

/-- **What two trees have in common is in both at the same place**: `u` is a later state of `t`, and
any nodes that are in both are under the same parents and in the same order among each other, and
carry the same data. -/
structure Unmoved (t u : Tree) : Prop where
  root : u.root = t.root
  later : Arena.Later t.arena u.arena
  keeps : ∀ U : NodeId → Bool, (∀ n, U n → t.arena.isLive n ∧ u.arena.isLive n) →
    Arena.Keeps U U t.arena u.arena

/-- Whether `n` is a node of both trees. -/
def common (t u : Tree) (n : NodeId) : Bool := t.arena.isLive n && u.arena.isLive n

theorem common_iff : t.common u n ↔ t.arena.isLive n ∧ u.arena.isLive n := by
  rw [common, Bool.and_eq_true]

theorem Unmoved.keeps_common (h : t.Unmoved u) :
    Arena.Keeps (t.common u) (t.common u) t.arena u.arena :=
  h.keeps _ fun _ => common_iff.1

theorem Unmoved.refl (t : Tree) : t.Unmoved t where
  root := rfl
  later := Arena.Later.refl t.arena
  keeps U _ := Arena.Keeps.refl U U t.arena

/-- One edit after the other. -/
theorem Unmoved.trans (h : t.Unmoved u) (h' : u.Unmoved w) : t.Unmoved w where
  root := h'.root.trans h.root
  later := h.later.trans h'.later
  keeps := by
    intro U hU
    -- an identity that is there before and after is there in between
    have hmid : ∀ n, U n → u.arena.isLive n := fun n hn =>
      h'.later.isLive (h.later.issued (Arena.issued_of_isLive (hU n hn).1)) (hU n hn).2
    have hfirst := h.keeps U fun n hn => ⟨(hU n hn).1, hmid n hn⟩
    have hsecond := h'.keeps U fun n hn => ⟨hmid n hn, (hU n hn).2⟩
    exact hfirst.trans hsecond h.later h'.later

namespace WellFormed

variable (ht : t.WellFormed) (hp : t.arena.isLive p)

include ht hp

/-- A new leaf moves nothing. -/
theorem unmoved_place (h : t.place p i d = .ok (n, u)) : t.Unmoved u := by
  have hunder : ∀ q, (none : Option NodeId) = some q → t.arena.isLive q := by simp
  have hg : Arena.Grown t.arena (t.arena.alloc d) none [t.arena.nextId] [t.arena.nextId] :=
    Arena.grown_sprout ht.arena hunder d
  rw [Tree.place, hg.attach_eq ht.arena hp i] at h
  obtain ⟨-, rfl⟩ := Prod.mk.inj (Except.ok.inj h)
  exact
    { root := rfl
      later := (Arena.Later.of_grown hg).trans (Arena.Later.link _ p i _)
      keeps := fun U hU => hg.keeps_graft (fun n hn => (hU n (or_self_iff.1 hn)).1) hp i }

/-- A child that is taken out moves nothing. -/
theorem unmoved_removeChild {removed : Option NodeId}
    (h : t.removeChild p i = .ok (removed, u)) : t.Unmoved u := by
  rw [Tree.removeChild, child?_eq_ok hp, bind_ok] at h
  cases hc : (t.arena.children p)[i]? with
  | none =>
      rw [hc] at h
      obtain ⟨-, rfl⟩ := Prod.mk.inj (Except.ok.inj h)
      exact Unmoved.refl t
  | some c =>
      rw [hc] at h
      obtain ⟨-, rfl⟩ := Prod.mk.inj (Except.ok.inj h)
      have hlc := ht.arena.isLive_of_mem hp (List.mem_of_getElem? hc)
      exact
        { root := rfl
          later := Arena.Later.removeSubtree ht.arena hlc
          keeps := fun U hU =>
            Arena.keeps_removeSubtree ht.arena hlc fun m hm => hU m (or_self_iff.1 hm) }

end WellFormed

/-- **Editing moves nothing**, in whatever order leaves come and subtrees go. -/
theorem Edited.unmoved (hs : src.Built) (h : src.Edited t) : src.Unmoved t := by
  induction h with
  | copy => exact Unmoved.refl src
  | withTypes _ types ih => exact ⟨ih.root, ih.later, ih.keeps⟩
  | addChild ht hp h ih =>
      have hw := (ht.built hs).wellFormed
      exact ih.trans (hw.unmoved_place (hw.contains_iff.1 hp) h)
  | @insertChild t u p n i kind label ht hp h ih =>
      have hw := (ht.built hs).wellFormed
      have hlp := hw.contains_iff.1 hp
      rw [Tree.insertChild, childCount_eq_ok hlp, bind_ok] at h
      split at h
      · exact ih.trans (hw.unmoved_place hlp h)
      · cases h
  | removeChild ht hp h ih =>
      have hw := (ht.built hs).wellFormed
      exact ih.trans (hw.unmoved_removeChild (hw.contains_iff.1 hp) h)

end TreeScript.Tree
