/-
**Two arenas with the same links.**

Nodes of two arenas can be matched one to one so that children match in order.  Then every
question about links alone has the same answer in both, and an arena that is changed in the same
way as its match keeps matching it.

Main definitions:

* `TreeScript.Arena.Matching` — **a one-to-one matching of all nodes that keeps the links**.

Main results:

* `TreeScript.Arena.Matching.parent?`, `TreeScript.Arena.Matching.below_iff`,
  `TreeScript.Arena.Matching.position_eq` — matched nodes answer alike;
* `TreeScript.Arena.Matching.symm`, `TreeScript.Arena.Matching.trans` — matchings turned round
  and put together;
* `TreeScript.Arena.Matching.unlink`, `TreeScript.Arena.Matching.link`,
  `TreeScript.Arena.Matching.removeSubtree` — **changes keep the matching**.
-/

import TreeScript.Proofs.Arena.Planting

set_option relaxedAutoImplicit false
set_option autoImplicit false

namespace TreeScript

/-! ### Lists related element by element -/

section Forall₂

variable {σ τ : Type} {R : σ → τ → Prop} {l : List σ} {l' : List τ} {x : σ} {y : τ}

theorem exists_right_of_forall₂ (h : List.Forall₂ R l l') (hx : x ∈ l) : ∃ y ∈ l', R x y := by
  induction h with
  | nil => cases hx
  | cons hxy _ ih =>
      rcases List.mem_cons.1 hx with rfl | hx
      · exact ⟨_, List.mem_cons_self, hxy⟩
      · obtain ⟨y, hy, hxy⟩ := ih hx
        exact ⟨y, List.mem_cons_of_mem _ hy, hxy⟩

theorem exists_left_of_forall₂ (h : List.Forall₂ R l l') (hy : y ∈ l') : ∃ x ∈ l, R x y :=
  exists_right_of_forall₂ h.flip hy

theorem forall₂_trans {υ : Type} {S : τ → υ → Prop} {l'' : List υ} (h : List.Forall₂ R l l')
    (h' : List.Forall₂ S l' l'') : List.Forall₂ (fun x z => ∃ y, R x y ∧ S y z) l l'' := by
  induction h generalizing l'' with
  | nil => cases h'; exact List.Forall₂.nil
  | cons hxy _ ih =>
      cases h' with
      | cons hyz h' => exact List.Forall₂.cons ⟨_, hxy, hyz⟩ (ih h')

theorem forall₂_and_mem {P : σ → Prop} (h : List.Forall₂ R l l') (hP : ∀ x ∈ l, P x) :
    List.Forall₂ (fun x y => R x y ∧ P x) l l' := by
  induction h with
  | nil => exact List.Forall₂.nil
  | cons hxy _ ih =>
      obtain ⟨hx, hP⟩ := List.forall_mem_cons.1 hP
      exact List.Forall₂.cons ⟨hxy, hx⟩ (ih hP)

/-- Related elements inserted at one position. -/
theorem forall₂_insertIdx (h : List.Forall₂ R l l') (hxy : R x y) (i : Nat) :
    List.Forall₂ R (l.insertIdx i x) (l'.insertIdx i y) := by
  induction i generalizing l l' with
  | zero => exact List.Forall₂.cons hxy h
  | succ i ih =>
      cases h with
      | nil => exact List.Forall₂.nil
      | cons hab h => exact List.Forall₂.cons hab (ih h)

/-- Related elements left out at one position. -/
theorem forall₂_eraseIdx (h : List.Forall₂ R l l') (i : Nat) :
    List.Forall₂ R (l.eraseIdx i) (l'.eraseIdx i) := by
  rw [List.eraseIdx_eq_take_drop_succ, List.eraseIdx_eq_take_drop_succ]
  exact List.rel_append (List.forall₂_take i h) (List.forall₂_drop (i + 1) h)

theorem forall₂_getElem? {i : Nat} (h : List.Forall₂ R l l') (hx : l[i]? = some x)
    (hy : l'[i]? = some y) : R x y := by
  obtain ⟨hi, rfl⟩ := List.getElem?_eq_some_iff.1 hx
  obtain ⟨hi', rfl⟩ := List.getElem?_eq_some_iff.1 hy
  exact h.get hi hi'

theorem forall₂_of_getElem? (hlen : l.length = l'.length)
    (h : ∀ (i : Nat) x y, l[i]? = some x → l'[i]? = some y → R x y) : List.Forall₂ R l l' :=
  List.forall₂_iff_get.2
    ⟨hlen, fun i hi hi' => h i _ _ (List.getElem?_eq_getElem hi) (List.getElem?_eq_getElem hi')⟩

variable [DecidableEq σ] [DecidableEq τ]

/-- Related elements erased, where each is related to one element only. -/
theorem forall₂_erase (h : List.Forall₂ R l l') (hxy : R x y)
    (hl : ∀ {x x' y}, R x y → R x' y → x = x') (hr : ∀ {x y y'}, R x y → R x y' → y = y') :
    List.Forall₂ R (l.erase x) (l'.erase y) := by
  induction h with
  | nil => exact List.Forall₂.nil
  | @cons s t l l' hst h ih =>
      by_cases hs : s = x
      · subst hs
        obtain rfl := hr hst hxy
        simpa using h
      · have ht : t ≠ y := by
          rintro rfl
          exact hs (hl hst hxy)
        rw [List.erase_cons_tail (by simpa using hs), List.erase_cons_tail (by simpa using ht)]
        exact List.Forall₂.cons hst ih

/-- Related elements stand at the same index. -/
theorem idxOf?_eq_of_forall₂ (h : List.Forall₂ R l l') (hxy : R x y)
    (hl : ∀ {x x' y}, R x y → R x' y → x = x') (hr : ∀ {x y y'}, R x y → R x y' → y = y') :
    l.idxOf? x = l'.idxOf? y := by
  induction h with
  | nil => rfl
  | @cons s t l l' hst h ih =>
      have hiff : s = x ↔ t = y := by
        constructor
        · rintro rfl; exact hr hst hxy
        · rintro rfl; exact hl hst hxy
      rw [List.idxOf?_cons, List.idxOf?_cons, ih]
      by_cases hs : s = x
      · simp [hs, hiff.1 hs]
      · have ht : t ≠ y := fun e => hs (hiff.2 e)
        simp [hs, ht]

end Forall₂

namespace Arena

variable {α β γ : Type} {a a' : Arena α} {b b' : Arena β} {c : Arena γ}
  {R S : NodeId → NodeId → Prop} {x x' y y' p q : NodeId}

/-- **`R` matches the nodes of two arenas one to one**, so that children match in order. -/
structure Matching (a : Arena α) (b : Arena β) (R : NodeId → NodeId → Prop) : Prop where
  isLive_left : ∀ {x y}, R x y → a.isLive x
  isLive_right : ∀ {x y}, R x y → b.isLive y
  exists_right : ∀ {x}, a.isLive x → ∃ y, R x y
  exists_left : ∀ {y}, b.isLive y → ∃ x, R x y
  left_unique : ∀ {x x' y}, R x y → R x' y → x = x'
  right_unique : ∀ {x y y'}, R x y → R x y' → y = y'
  children : ∀ {x y}, R x y → List.Forall₂ R (a.children x) (b.children y)

namespace Matching

theorem congr (h : Matching a b R) (hRS : ∀ x y, R x y ↔ S x y) : Matching a b S := by
  have : R = S := by
    funext x y
    exact propext (hRS x y)
  exact this ▸ h

theorem symm (h : Matching a b R) : Matching b a fun y x => R x y where
  isLive_left := h.isLive_right
  isLive_right := h.isLive_left
  exists_right := h.exists_left
  exists_left := h.exists_right
  left_unique := h.right_unique
  right_unique := h.left_unique
  children hxy := (h.children hxy).flip

theorem trans (h : Matching a b R) (h' : Matching b c S) :
    Matching a c fun x z => ∃ y, R x y ∧ S y z where
  isLive_left := by rintro x z ⟨y, hxy, -⟩; exact h.isLive_left hxy
  isLive_right := by rintro x z ⟨y, -, hyz⟩; exact h'.isLive_right hyz
  exists_right := by
    intro x hx
    obtain ⟨y, hxy⟩ := h.exists_right hx
    obtain ⟨z, hyz⟩ := h'.exists_right (h.isLive_right hxy)
    exact ⟨z, y, hxy, hyz⟩
  exists_left := by
    intro z hz
    obtain ⟨y, hyz⟩ := h'.exists_left hz
    obtain ⟨x, hxy⟩ := h.exists_left (h'.isLive_left hyz)
    exact ⟨x, y, hxy, hyz⟩
  left_unique := by
    rintro x x' z ⟨y, hxy, hyz⟩ ⟨y', hxy', hyz'⟩
    obtain rfl := h'.left_unique hyz hyz'
    exact h.left_unique hxy hxy'
  right_unique := by
    rintro x z z' ⟨y, hxy, hyz⟩ ⟨y', hxy', hyz'⟩
    obtain rfl := h.right_unique hxy hxy'
    exact h'.right_unique hyz hyz'
  children := by
    rintro x z ⟨y, hxy, hyz⟩
    exact forall₂_trans (h.children hxy) (h'.children hyz)

/-! ### Matched nodes answer alike -/

section Answers

variable (h : Matching a b R) (ha : a.WellFormed) (hb : b.WellFormed)

include h ha hb

theorem parent? (hxy : R x y) (hp : a.parent? x = some p) :
    ∃ q, b.parent? y = some q ∧ R p q := by
  obtain ⟨hl, hmem⟩ := ha.of_parent? (h.isLive_left hxy) hp
  obtain ⟨q, hpq⟩ := h.exists_right hl
  obtain ⟨y', hy', hxy'⟩ := exists_right_of_forall₂ (h.children hpq) hmem
  obtain rfl := h.right_unique hxy hxy'
  exact ⟨q, hb.parent?_of_mem (h.isLive_right hpq) hy', hpq⟩

theorem parent?_eq_none_iff (hxy : R x y) : a.parent? x = none ↔ b.parent? y = none := by
  constructor
  · intro hx
    refine Option.eq_none_iff_forall_ne_some.2 fun q hq => ?_
    obtain ⟨p, hp, -⟩ := h.symm.parent? hb ha hxy hq
    rw [hx] at hp
    cases hp
  · intro hy
    refine Option.eq_none_iff_forall_ne_some.2 fun p hp => ?_
    obtain ⟨q, hq, -⟩ := h.parent? ha hb hxy hp
    rw [hy] at hq
    cases hq

theorem below (hxy : R x y) (hxy' : R x' y') (hx : a.Below x x') : b.Below y y' := by
  induction hx generalizing y' with
  | self =>
      obtain rfl := h.right_unique hxy hxy'
      exact Below.self
  | step hp _ ih =>
      obtain ⟨q, hq, hpq⟩ := h.parent? ha hb hxy' hp
      exact Below.step hq (ih hpq)

theorem below_iff (hxy : R x y) (hxy' : R x' y') : a.Below x x' ↔ b.Below y y' :=
  ⟨h.below ha hb hxy hxy', h.symm.below hb ha hxy hxy'⟩

/-- Walks over matched subtrees match. -/
theorem preorder (hxy : R x y) : List.Forall₂ R (a.preorder x) (b.preorder y) := by
  have hx := h.isLive_left hxy
  revert y
  refine ha.children_induction
    (P := fun x => ∀ {y}, R x y → List.Forall₂ R (a.preorder x) (b.preorder y)) ?_ x hx
  intro x hx ih y hxy
  rw [ha.preorder_eq hx, hb.preorder_eq (h.isLive_right hxy)]
  exact List.Forall₂.cons hxy
    (List.rel_flatMap (forall₂_and_mem (h.children hxy) ih) fun _ _ hcd => hcd.2 hcd.1)

theorem position_eq (hxy : R x y) : a.position x = b.position y := by
  have hx := h.isLive_left hxy
  have hy := h.isLive_right hxy
  unfold position
  rw [if_pos hx, if_pos hy]
  cases hp : a.parent? x with
  | none => rw [(h.parent?_eq_none_iff ha hb hxy).1 hp]
  | some p =>
      obtain ⟨q, hq, hpq⟩ := h.parent? ha hb hxy hp
      rw [hq]
      exact congrArg (Option.getD · 0)
        (idxOf?_eq_of_forall₂ (h.children hpq) hxy h.left_unique h.right_unique)

end Answers

/-! ### Changes keep the matching -/

theorem setData (h : Matching a b R) (x y : NodeId) (f : α → α) (g : β → β) :
    Matching (a.setData x f) (b.setData y g) R where
  isLive_left hxy := by simpa using h.isLive_left hxy
  isLive_right hxy := by simpa using h.isLive_right hxy
  exists_right hx := h.exists_right (by simpa using hx)
  exists_left hy := h.exists_left (by simpa using hy)
  left_unique := h.left_unique
  right_unique := h.right_unique
  children hxy := by simpa using h.children hxy

theorem unlink (h : Matching a b R) (ha : a.WellFormed) (hb : b.WellFormed) (hxy : R x y) :
    Matching (a.unlink x) (b.unlink y) R where
  isLive_left hxy := by simpa using h.isLive_left hxy
  isLive_right hxy := by simpa using h.isLive_right hxy
  exists_right hx := h.exists_right (by simpa using hx)
  exists_left hy := h.exists_left (by simpa using hy)
  left_unique := h.left_unique
  right_unique := h.right_unique
  children := by
    intro k l hkl
    rw [children_unlink ha (h.isLive_left hxy) (h.isLive_left hkl),
      children_unlink hb (h.isLive_right hxy) (h.isLive_right hkl)]
    exact forall₂_erase (h.children hkl) hxy h.left_unique h.right_unique

theorem link (h : Matching a b R) (hpq : R p q) (hxy : R x y) (i : Nat) :
    Matching (a.link p i x) (b.link q i y) R where
  isLive_left hxy := by simpa using h.isLive_left hxy
  isLive_right hxy := by simpa using h.isLive_right hxy
  exists_right hx := h.exists_right (by simpa using hx)
  exists_left hy := h.exists_left (by simpa using hy)
  left_unique := h.left_unique
  right_unique := h.right_unique
  children := by
    intro k l hkl
    rw [children_link (h.isLive_left hpq) (h.isLive_left hkl),
      children_link (h.isLive_right hpq) (h.isLive_right hkl)]
    have hiff : k = p ↔ l = q := by
      constructor
      · rintro rfl; exact h.right_unique hkl hpq
      · rintro rfl; exact h.left_unique hkl hpq
    by_cases hk : k = p
    · rw [if_pos hk, if_pos (hiff.1 hk), (h.children hpq).length_eq]
      exact forall₂_insertIdx (h.children hpq) hxy _
    · rw [if_neg hk, if_neg fun e => hk (hiff.2 e)]
      exact h.children hkl

/-- Matched nodes go on both sides, with what is below them. -/
theorem removeSubtree (h : Matching a b R) (ha : a.WellFormed) (hb : b.WellFormed)
    (hxy : R x y) :
    Matching (a.removeSubtree x) (b.removeSubtree y) fun k l => R k l ∧ ¬ a.Below x k := by
  have hx := h.isLive_left hxy
  have hy := h.isLive_right hxy
  have hiff : ∀ {k l}, R k l → (a.Below x k ↔ b.Below y l) := h.below_iff ha hb hxy
  exact
    { isLive_left := by
        rintro k l ⟨hkl, hk⟩
        exact (isLive_removeSubtree_iff ha hx).2 ⟨h.isLive_left hkl, hk⟩
      isLive_right := by
        rintro k l ⟨hkl, hk⟩
        exact (isLive_removeSubtree_iff hb hy).2 ⟨h.isLive_right hkl, fun e => hk ((hiff hkl).2 e)⟩
      exists_right := by
        intro k hk
        obtain ⟨hk, hbk⟩ := (isLive_removeSubtree_iff ha hx).1 hk
        obtain ⟨l, hkl⟩ := h.exists_right hk
        exact ⟨l, hkl, hbk⟩
      exists_left := by
        intro l hl
        obtain ⟨hl, hbl⟩ := (isLive_removeSubtree_iff hb hy).1 hl
        obtain ⟨k, hkl⟩ := h.exists_left hl
        exact ⟨k, hkl, fun e => hbl ((hiff hkl).1 e)⟩
      left_unique := fun h1 h2 => h.left_unique h1.1 h2.1
      right_unique := fun h1 h2 => h.right_unique h1.1 h2.1
      children := by
        rintro k l ⟨hkl, hk⟩
        have hlk := h.isLive_left hkl
        have hch := forall₂_erase (h.children hkl) hxy h.left_unique h.right_unique
        rw [children_removeSubtree ha hx hlk hk,
          children_removeSubtree hb hy (h.isLive_right hkl) fun e => hk ((hiff hkl).2 e)]
        refine forall₂_and_mem hch fun c hc => ?_
        obtain ⟨hne, hc⟩ := ((ha.nodup_children hlk).mem_erase_iff).1 hc
        exact fun e => (e.parent_or_eq (ha.parent?_of_mem hlk hc)).elim hne hk }

end Matching

end Arena

end TreeScript
