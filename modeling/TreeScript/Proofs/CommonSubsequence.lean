/-
**The table finds a longest common subsequence.**

Main definitions:

* `TreeScript.CommonSubsequence.Common` — pairs of related elements that go forward in both lists;
* `TreeScript.CommonSubsequence.best` — the recursion that the table unrolls.

Main results:

* `TreeScript.CommonSubsequence.rows_eq` — **the table holds the values of the recursion**;
* `TreeScript.common_longestCommon`, `TreeScript.length_le_longestCommon` — **what is found is a
  common subsequence, and no common subsequence is longer**, whatever the relation;
* `TreeScript.longestCommon_map` — it does not matter by what names the elements go.
-/

import Mathlib.Data.List.Infix
import TreeScript.CommonSubsequence

set_option relaxedAutoImplicit false
set_option autoImplicit false

namespace TreeScript

namespace CommonSubsequence

variable {α β γ : Type} {r : α → β → Bool} {a : α} {b : β} {as : List α} {bs : List β}
  {l : List (α × β)}

/-- **A common subsequence**: pairs of related elements that go forward in both lists. -/
structure Common (r : α → β → Bool) (as : List α) (bs : List β) (l : List (α × β)) : Prop where
  fst : (l.map Prod.fst).Sublist as
  snd : (l.map Prod.snd).Sublist bs
  rel : ∀ p ∈ l, r p.1 p.2

namespace Common

theorem nil (r : α → β → Bool) (as : List α) (bs : List β) : Common r as bs [] :=
  ⟨List.nil_sublist _, List.nil_sublist _, nofun⟩

theorem cons (h : Common r as bs l) (hab : r a b) : Common r (a :: as) (b :: bs) ((a, b) :: l) where
  fst := h.fst.cons_cons a
  snd := h.snd.cons_cons b
  rel := by
    intro p hp
    rcases List.mem_cons.1 hp with rfl | hp
    · exact hab
    · exact h.rel p hp

theorem cons_left (a : α) (h : Common r as bs l) : Common r (a :: as) bs l :=
  ⟨h.fst.cons a, h.snd, h.rel⟩

theorem cons_right (b : β) (h : Common r as bs l) : Common r as (b :: bs) l :=
  ⟨h.fst, h.snd.cons b, h.rel⟩

/-- Without its first pair a common subsequence needs neither head. -/
theorem tail {p : α × β} (h : Common r (a :: as) (b :: bs) (p :: l)) : Common r as bs l where
  fst := h.fst.tail
  snd := h.snd.tail
  rel q hq := h.rel q (List.mem_cons_of_mem p hq)

/-- One of two heads that are not related is not needed. -/
theorem left_or_right (h : Common r (a :: as) (b :: bs) l) (hab : r a b = false) :
    Common r as (b :: bs) l ∨ Common r (a :: as) bs l := by
  cases l with
  | nil => exact Or.inl (nil r as (b :: bs))
  | cons p l =>
      rcases List.sublist_cons_iff.1 h.fst with hfst | ⟨as', hfst, -⟩
      · exact Or.inl ⟨hfst, h.snd, h.rel⟩
      · rcases List.sublist_cons_iff.1 h.snd with hsnd | ⟨bs', hsnd, -⟩
        · exact Or.inr ⟨h.fst, hsnd, h.rel⟩
        · -- the first pair would be that of the heads
          have hp := h.rel p List.mem_cons_self
          rw [(List.cons.inj hfst).1, (List.cons.inj hsnd).1, hab] at hp
          cases hp

end Common

/-! ### The recursion -/

/-- A longest common subsequence by recursion over both lists. -/
def best (r : α → β → Bool) : List α → List β → Cell α β
  | [], _ => .nil
  | _ :: _, [] => .nil
  | a :: as, b :: bs =>
    if r a b then .cons (a, b) (best r as bs)
    else if (best r (a :: as) bs).length ≤ (best r as (b :: bs)).length then best r as (b :: bs)
    else best r (a :: as) bs
termination_by as bs => as.length + bs.length

theorem best_nil_left (r : α → β → Bool) (bs : List β) : best r [] bs = .nil := by rw [best]

theorem best_nil_right (r : α → β → Bool) (as : List α) : best r as [] = .nil := by
  cases as <;> rw [best]

theorem best_cons_cons (r : α → β → Bool) (a : α) (as : List α) (b : β) (bs : List β) :
    best r (a :: as) (b :: bs) =
      if r a b then .cons (a, b) (best r as bs)
      else if (best r (a :: as) bs).length ≤ (best r as (b :: bs)).length then
        best r as (b :: bs)
      else best r (a :: as) bs := by
  rw [best]

/-- A cell knows the number of its pairs. -/
theorem length_best (r : α → β → Bool) (as : List α) (bs : List β) :
    (best r as bs).length = (best r as bs).pairs.length := by
  induction as, bs using best.induct r with
  | case1 bs => rw [best_nil_left]; rfl
  | case2 a as => rw [best_nil_right]; rfl
  | case3 a as b bs hab ih =>
      rw [best_cons_cons, if_pos hab]
      simp only [Cell.cons, List.length_cons, ih]
  | case4 a as b bs hab hle ihr ihl => rw [best_cons_cons, if_neg hab, if_pos hle]; exact ihl
  | case5 a as b bs hab hle ihl ihr => rw [best_cons_cons, if_neg hab, if_neg hle]; exact ihl

theorem common_best (r : α → β → Bool) (as : List α) (bs : List β) :
    Common r as bs (best r as bs).pairs := by
  induction as, bs using best.induct r with
  | case1 bs => rw [best_nil_left]; exact Common.nil r [] bs
  | case2 a as => rw [best_nil_right]; exact Common.nil r (a :: as) []
  | case3 a as b bs hab ih => rw [best_cons_cons, if_pos hab]; exact ih.cons hab
  | case4 a as b bs hab hle ihr ihl =>
      rw [best_cons_cons, if_neg hab, if_pos hle]
      exact ihl.cons_left a
  | case5 a as b bs hab hle ihl ihr =>
      rw [best_cons_cons, if_neg hab, if_neg hle]
      exact ihl.cons_right b

/-- **No common subsequence is longer.**  Related heads can be paired, since without its first
pair a common subsequence is one of the tails; of heads that are not related one is not needed. -/
theorem length_le_best (h : Common r as bs l) : l.length ≤ (best r as bs).length := by
  induction as, bs using best.induct r generalizing l with
  | case1 bs =>
      obtain rfl := List.map_eq_nil_iff.1 (List.sublist_nil.1 h.fst)
      exact Nat.zero_le _
  | case2 a as =>
      obtain rfl := List.map_eq_nil_iff.1 (List.sublist_nil.1 h.snd)
      exact Nat.zero_le _
  | case3 a as b bs hab ih =>
      rw [best_cons_cons, if_pos hab]
      cases l with
      | nil => exact Nat.zero_le _
      | cons p l =>
          have := ih h.tail
          simp only [Cell.cons, List.length_cons]
          omega
  | case4 a as b bs hab hle ihr ihl =>
      rw [best_cons_cons, if_neg hab, if_pos hle]
      rcases h.left_or_right (by simpa using hab) with h | h
      · exact ihl h
      · exact Nat.le_trans (ihr h) hle
  | case5 a as b bs hab hle ihl ihr =>
      rw [best_cons_cons, if_neg hab, if_neg hle]
      rcases h.left_or_right (by simpa using hab) with h | h
      · have := ihr h
        omega
      · exact ihl h

/-! ### The table -/

theorem row_eq (r : α → β → Bool) (a : α) (as : List α) (bs : List β) :
    row r a bs (bs.tails.map (best r as)) = bs.tails.map (best r (a :: as)) := by
  have first_tails : ∀ (as : List α) (bs : List β),
      first (bs.tails.map (best r as)) = best r as bs := by
    intro as bs
    cases bs <;> rfl
  induction bs with
  | nil => simp [row, best_nil_right]
  | cons b bs ih =>
      simp only [List.tails_cons, List.map_cons]
      rw [row, List.tail_cons, ih, first_tails, first_tails, best_cons_cons]
      rfl

/-- **The table holds the values of the recursion.** -/
theorem rows_eq (r : α → β → Bool) (bs : List β) (as : List α) :
    rows r bs as = bs.tails.map (best r as) := by
  induction as with
  | nil =>
      have hnil : best r ([] : List α) = fun _ => Cell.nil := funext (best_nil_left r)
      rw [rows, hnil, List.map_const', List.length_tails]
  | cons a as ih => rw [rows, ih, row_eq]

end CommonSubsequence

/-! ### What is found -/

section LongestCommon

open CommonSubsequence

variable {α β γ δ : Type} {r : α → β → Bool} {as : List α} {bs : List β}

theorem longestCommon_eq (r : α → β → Bool) (as : List α) (bs : List β) :
    longestCommon r as bs = (best r as bs).pairs := by
  rw [longestCommon, rows_eq]
  cases bs <;> rfl

/-- **What is found is a common subsequence.** -/
theorem common_longestCommon (r : α → β → Bool) (as : List α) (bs : List β) :
    Common r as bs (longestCommon r as bs) := by
  rw [longestCommon_eq]
  exact common_best r as bs

/-- **No common subsequence is longer than what is found.** -/
theorem length_le_longestCommon {l : List (α × β)} (h : Common r as bs l) :
    l.length ≤ (longestCommon r as bs).length := by
  rw [longestCommon_eq, ← length_best]
  exact length_le_best h

theorem best_map {q : γ → δ → Bool} (f : γ → α) (g : δ → β) {as : List γ} {bs : List δ}
    (h : ∀ c ∈ as, ∀ d ∈ bs, r (f c) (g d) = q c d) :
    (best r (as.map f) (bs.map g)).length = (best q as bs).length ∧
      (best r (as.map f) (bs.map g)).pairs = (best q as bs).pairs.map (Prod.map f g) := by
  induction as, bs using best.induct q with
  | case1 bs => rw [List.map_nil, best_nil_left, best_nil_left]; exact ⟨rfl, rfl⟩
  | case2 c as => rw [List.map_nil, best_nil_right, best_nil_right]; exact ⟨rfl, rfl⟩
  | case3 c as d bs hcd ih =>
      have htails := ih fun c hc d hd => h c (List.mem_cons_of_mem _ hc) d
        (List.mem_cons_of_mem _ hd)
      rw [List.map_cons, List.map_cons, best_cons_cons, best_cons_cons,
        h c List.mem_cons_self d List.mem_cons_self, if_pos hcd, if_pos hcd]
      simp only [Cell.cons, List.map_cons, htails, Prod.map_apply, and_self]
  | case4 c as d bs hcd hle ihr ihl =>
      have hr := ihr fun c hc d hd => h c hc d (List.mem_cons_of_mem _ hd)
      have hl := ihl fun c hc d hd => h c (List.mem_cons_of_mem _ hc) d hd
      rw [List.map_cons, List.map_cons] at *
      rw [best_cons_cons, best_cons_cons, h c List.mem_cons_self d List.mem_cons_self, if_neg hcd,
        if_neg hcd, hr.1, hl.1, if_pos hle, if_pos hle]
      exact hl
  | case5 c as d bs hcd hle ihl ihr =>
      have hl := ihl fun c hc d hd => h c hc d (List.mem_cons_of_mem _ hd)
      have hr := ihr fun c hc d hd => h c (List.mem_cons_of_mem _ hc) d hd
      rw [List.map_cons, List.map_cons] at *
      rw [best_cons_cons, best_cons_cons, h c List.mem_cons_self d List.mem_cons_self, if_neg hcd,
        if_neg hcd, hr.1, hl.1, if_neg hle, if_neg hle]
      exact hl

/-- **Elements may go by other names.** -/
theorem longestCommon_map {q : γ → δ → Bool} (f : γ → α) (g : δ → β) {as : List γ} {bs : List δ}
    (h : ∀ c ∈ as, ∀ d ∈ bs, r (f c) (g d) = q c d) :
    longestCommon r (as.map f) (bs.map g) = (longestCommon q as bs).map (Prod.map f g) := by
  rw [longestCommon_eq, longestCommon_eq]
  exact (best_map f g h).2

/-- Elements of the first list may. -/
theorem longestCommon_map_left {q : γ → β → Bool} (f : γ → α) {as : List γ} {bs : List β}
    (h : ∀ c ∈ as, ∀ b ∈ bs, r (f c) b = q c b) :
    longestCommon r (as.map f) bs = (longestCommon q as bs).map (Prod.map f id) := by
  have hmap := longestCommon_map f id h
  rwa [List.map_id] at hmap

end LongestCommon

end TreeScript
