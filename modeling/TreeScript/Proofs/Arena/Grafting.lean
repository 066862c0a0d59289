/-
**Grafting: planting a copy and putting it under a node.**

Main definitions:

* `TreeScript.Arena.Grafted` — an arena with a copy of something among the children of a node.

Main results:

* `TreeScript.Arena.grafted_plant` — **planting and linking grafts a copy**;
* `TreeScript.Arena.Matching.graft` — copies of the same nodes, grafted at matched places, match;
* `TreeScript.Arena.matching_of_copiedBy` — **a copy of everything matches it**;
* `TreeScript.Arena.CopiedBy.preorder_eq` — copies are walked in the order in which they are made.
-/

import TreeScript.Proofs.Arena.Matching
import TreeScript.Proofs.Arena.Rooted
import TreeScript.Proofs.NodeMap

set_option relaxedAutoImplicit false
set_option autoImplicit false

namespace TreeScript.Arena

variable {α κ : Type} {a e : Arena α} {n p t : NodeId} {k : Nat} {C : κ → List κ}
  {D : κ → Option α} {pairs : List (κ × NodeId)} {v : RoseTree (κ × α)}

/-- **`e` is `a` with copies of some nodes**, which are paired with their copies in `pairs`; the
topmost copy `t` is child `k` of `p`. -/
structure Grafted (a e : Arena α) (C : κ → List κ) (D : κ → Option α)
    (pairs : List (κ × NodeId)) (p : NodeId) (k : Nat) (t : NodeId) : Prop where
  wf : e.WellFormed
  isLive_iff : ∀ {n}, e.isLive n ↔ a.isLive n ∨ n ∈ pairs.map Prod.snd
  not_isLive : ∀ {n}, n ∈ pairs.map Prod.snd → ¬ a.isLive n
  nodup : (pairs.map Prod.snd).Nodup
  mem_top : t ∈ pairs.map Prod.snd
  data? : ∀ {n}, a.isLive n → e.data? n = a.data? n
  parent? : ∀ {n}, a.isLive n → e.parent? n = a.parent? n
  parent?_top : e.parent? t = some p
  parent?_new : ∀ {n}, n ∈ pairs.map Prod.snd → n ≠ t →
    ∃ q ∈ pairs.map Prod.snd, e.parent? n = some q
  children : ∀ {n}, a.isLive n → e.children n =
    if n = p then (a.children p).insertIdx (min k (a.children p).length) t else a.children n
  copied : CopiedBy C D pairs e

namespace Grafted

variable (h : Grafted a e C D pairs p k t)

include h

theorem isLive (hn : a.isLive n) : e.isLive n := h.isLive_iff.2 (Or.inl hn)

theorem isLive_new (hn : n ∈ pairs.map Prod.snd) : e.isLive n := h.isLive_iff.2 (Or.inr hn)

end Grafted

theorem grafted_plant (hw : a.WellFormed) (hp : a.isLive p) (hv : Depicts C D v) (k : Nat) :
    Grafted a ((a.plant none v).1.link p k a.nextId) C D (a.plant none v).2 p k a.nextId := by
  have hg : Grown a (a.plant none v).1 none [a.nextId] ((a.plant none v).2.map Prod.snd) :=
    grown_plant v hw (by simp)
  have htop : a.nextId ∈ (a.plant none v).2.map Prod.snd := hg.subset _ (List.mem_singleton_self _)
  have hlp := hg.isLive hp
  have hlt := hg.isLive_new htop
  exact
    { wf := hg.wellFormed_link hw hp k
      isLive_iff := by intro n; rw [isLive_link]; exact hg.isLive_iff
      not_isLive := hg.not_isLive
      nodup := hg.nodup
      mem_top := htop
      data? := by intro n hn; rw [data?_link]; exact hg.data? hn
      parent? := fun hn => hg.parent?_graft hp hn k
      parent?_top := by rw [parent?_link hg.wf hlp hlt hlt, if_pos rfl]
      parent?_new := by
        intro n hn hne
        obtain ⟨q, hq, hnq⟩ := hg.parent?_new n hn (by simpa using hne)
        exact ⟨q, hq, by rw [parent?_link hg.wf hlp hlt (hg.isLive_new hn), if_neg hne, hnq]⟩
      children := fun hn => hg.children_graft hp hn k
      copied := by
        intro x n hm
        have hn : n ∈ (a.plant none v).2.map Prod.snd := List.mem_map_of_mem hm
        obtain ⟨hd, hc⟩ := copiedBy_plant v hv hw (by simp) x n hm
        refine ⟨by rw [data?_link, hd], ?_⟩
        rwa [children_link hlp (hg.isLive_new hn), if_neg]
        rintro rfl
        exact hg.not_isLive hn hp }

/-! ### Copies match -/

variable {β : Type} {a' : Arena α} {b b' o : Arena β} {D' : κ → Option β} {q t' : NodeId}
  {pairs' : List (κ × NodeId)} {R : NodeId → NodeId → Prop}

/-- **Copies of the same nodes, grafted at matched places, match.** -/
theorem Matching.graft (h : Matching a b R) (ha : Grafted a a' C D pairs p k t)
    (hb : Grafted b b' C D' pairs' q k t') (hpq : R p q)
    (hfst : pairs.map Prod.fst = pairs'.map Prod.fst) (hnd : (pairs.map Prod.fst).Nodup)
    (htop : ∃ x, (x, t) ∈ pairs ∧ (x, t') ∈ pairs') :
    Matching a' b' fun m n => R m n ∨ ∃ x, (x, m) ∈ pairs ∧ (x, n) ∈ pairs' where
  isLive_left := by
    rintro m n (hmn | ⟨x, hm, -⟩)
    · exact ha.isLive (h.isLive_left hmn)
    · exact ha.isLive_new (List.mem_map_of_mem hm)
  isLive_right := by
    rintro m n (hmn | ⟨x, -, hn⟩)
    · exact hb.isLive (h.isLive_right hmn)
    · exact hb.isLive_new (List.mem_map_of_mem hn)
  exists_right := by
    intro m hm
    rcases ha.isLive_iff.1 hm with hm | hm
    · obtain ⟨n, hmn⟩ := h.exists_right hm
      exact ⟨n, Or.inl hmn⟩
    · obtain ⟨x, hx⟩ := exists_mem_of_snd hm
      obtain ⟨n, hn⟩ := exists_mem_of_fst (hfst ▸ List.mem_map_of_mem hx)
      exact ⟨n, Or.inr ⟨x, hx, hn⟩⟩
  exists_left := by
    intro n hn
    rcases hb.isLive_iff.1 hn with hn | hn
    · obtain ⟨m, hmn⟩ := h.exists_left hn
      exact ⟨m, Or.inl hmn⟩
    · obtain ⟨x, hx⟩ := exists_mem_of_snd hn
      obtain ⟨m, hm⟩ := exists_mem_of_fst (hfst.symm ▸ List.mem_map_of_mem hx)
      exact ⟨m, Or.inr ⟨x, hm, hx⟩⟩
  left_unique := by
    rintro m m' n (hm | ⟨x, hm, hn⟩) (hm' | ⟨x', hm', hn'⟩)
    · exact h.left_unique hm hm'
    · exact absurd (h.isLive_right hm) (hb.not_isLive (List.mem_map_of_mem hn'))
    · exact absurd (h.isLive_right hm') (hb.not_isLive (List.mem_map_of_mem hn))
    · obtain rfl := fst_unique_of_nodup hb.nodup hn hn'
      exact snd_unique_of_nodup hnd hm hm'
  right_unique := by
    rintro m n n' (hn | ⟨x, hm, hn⟩) (hn' | ⟨x', hm', hn'⟩)
    · exact h.right_unique hn hn'
    · exact absurd (h.isLive_left hn) (ha.not_isLive (List.mem_map_of_mem hm'))
    · exact absurd (h.isLive_left hn') (ha.not_isLive (List.mem_map_of_mem hm))
    · obtain rfl := fst_unique_of_nodup ha.nodup hm hm'
      exact snd_unique_of_nodup (hfst ▸ hnd) hn hn'
  children := by
    rintro m n (hmn | ⟨x, hm, hn⟩)
    · have hiff : m = p ↔ n = q := by
        constructor
        · rintro rfl; exact h.right_unique hmn hpq
        · rintro rfl; exact h.left_unique hmn hpq
      rw [ha.children (h.isLive_left hmn), hb.children (h.isLive_right hmn)]
      by_cases he : m = p
      · rw [if_pos he, if_pos (hiff.1 he), (h.children hpq).length_eq]
        have hlist := (h.children hpq).imp
          (S := fun m n => R m n ∨ ∃ x, (x, m) ∈ pairs ∧ (x, n) ∈ pairs') fun _ _ => Or.inl
        exact forall₂_insertIdx hlist (Or.inr htop) _
      · rw [if_neg he, if_neg fun e => he (hiff.2 e)]
        exact (h.children hmn).imp fun _ _ => Or.inl
    · have hcm := (ha.copied x m hm).2
      have hcn := (hb.copied x n hn).2
      refine (forall₂_trans hcm.flip hcn).imp ?_
      rintro m' n' ⟨x', hm', hn'⟩
      exact Or.inr ⟨x', hm', hn'⟩

/-- **A copy of everything matches it.** -/
theorem matching_of_copiedBy {pairs : List (NodeId × NodeId)} {D : NodeId → Option α}
    (h : CopiedBy o.children D pairs e) (hfst : (pairs.map Prod.fst).Nodup)
    (hsnd : (pairs.map Prod.snd).Nodup) (ho : ∀ {x}, o.isLive x ↔ x ∈ pairs.map Prod.fst)
    (he : ∀ {n}, e.isLive n ↔ n ∈ pairs.map Prod.snd) :
    Matching o e fun x n => (x, n) ∈ pairs where
  isLive_left hm := ho.2 (List.mem_map_of_mem hm)
  isLive_right hm := he.2 (List.mem_map_of_mem hm)
  exists_right hx := exists_mem_of_fst (ho.1 hx)
  exists_left hn := exists_mem_of_snd (he.1 hn)
  left_unique := fst_unique_of_nodup hsnd
  right_unique := snd_unique_of_nodup hfst
  children hm := (h _ _ hm).2

/-! ### Copies are walked in step -/

section Walk

variable {pairs : List (NodeId × NodeId)} {D : NodeId → Option α} {x : NodeId}
  (h : CopiedBy o.children D pairs e) (ho : o.WellFormed) (he : e.WellFormed)
  (hlive : ∀ n ∈ pairs.map Prod.snd, e.isLive n) (hx : o.isLive x)

include h ho he hlive hx

/-- The walk below a copy meets the copies of what the walk below the original meets, -/
theorem CopiedBy.preorder (hxn : (x, n) ∈ pairs) :
    List.Forall₂ (fun x n => (x, n) ∈ pairs) (o.preorder x) (e.preorder n) := by
  revert n
  refine ho.children_induction (P := fun x => ∀ {n}, (x, n) ∈ pairs →
    List.Forall₂ (fun x n => (x, n) ∈ pairs) (o.preorder x) (e.preorder n)) ?_ x hx
  intro x hx ih n hxn
  rw [ho.preorder_eq hx, he.preorder_eq (hlive n (List.mem_map_of_mem hxn))]
  exact List.Forall₂.cons hxn
    (List.rel_flatMap (forall₂_and_mem (h x n hxn).2 ih) fun _ _ hcd => hcd.2 hcd.1)

/-- and in the order in which they were made. -/
theorem CopiedBy.preorder_eq (hfst : pairs.map Prod.fst = o.preorder x) (hxn : (x, n) ∈ pairs) :
    e.preorder n = pairs.map Prod.snd := by
  have hwalk := h.preorder ho he hlive hx hxn
  rw [← hfst, List.forall₂_map_left_iff] at hwalk
  have hnd : (pairs.map Prod.fst).Nodup := hfst ▸ ho.nodup_preorder hx
  -- a node is made for one place only
  have heq : List.Forall₂ (fun (p : NodeId × NodeId) n => p.2 = n) pairs (e.preorder n) :=
    (forall₂_and_mem hwalk fun p hp => hp).imp fun p n hpn => snd_unique_of_nodup hnd hpn.2 hpn.1
  rw [← List.forall₂_map_left_iff (f := Prod.snd), List.forall₂_eq_eq_eq] at heq
  exact heq.symm

end Walk

end TreeScript.Arena
