/-
**The table of lengths, and the walk through it.**

A longest common subsequence can be found in two passes.  The first fills a table with a cell for
every pair of suffixes, which holds the length of the longest common subsequence of the two, from
the last row and column back to the first.  The second walks through the table from its first
cell, one step for each element that is left behind.  Cells are words of 32 bits, and both passes
stop with an error as soon as they need a cell that is not in the table, or a length that has no
room in a cell.  Neither happens: the two passes find what `TreeScript.longestCommon` finds with
the subsequences themselves in the cells.

Main definitions:

* `TreeScript.CommonSubsequence.fill`, `TreeScript.CommonSubsequence.walk`,
  `TreeScript.CommonSubsequence.collect` — **the two passes**;
* `TreeScript.CommonSubsequence.Holds` — a table with the right lengths in some of its cells;
* `TreeScript.CommonSubsequence.Forward` — **pairs of indices that go forward in both lists** and
  lead to related elements.

Main results:

* `TreeScript.CommonSubsequence.fillCell_ok`, `TreeScript.CommonSubsequence.fill_ok` — one cell,
  and the whole table;
* `TreeScript.CommonSubsequence.walk_ok` — the walk keeps to the table;
* `TreeScript.CommonSubsequence.common_iff_forward` — common subsequences by their indices;
* `TreeScript.longestCommon_longest` — **the two passes find a longest common subsequence**,
  whatever the relation.
-/

import Mathlib.Data.List.Forall2
import TreeScript.Proofs.CommonSubsequence
import TreeScript.Proofs.Results
import TreeScript.Proofs.Tree.WellFormed

set_option relaxedAutoImplicit false
set_option autoImplicit false

namespace TreeScript

namespace CommonSubsequence

variable {α β : Type}

/-! ### Cells -/

/-- Rows of cells. -/
abbrev Lengths := Array (Array UInt32)

/-- The number in a cell; the error names a cell that is not there. -/
def readCell (t : Lengths) (i j : Nat) : Except (Nat × Nat) UInt32 :=
  match t[i]?.bind (·[j]?) with
  | some v => .ok v
  | none => .error (i, j)

/-- The table with another number in a cell, which has to be there. -/
def writeCell (t : Lengths) (i j : Nat) (v : UInt32) : Except (Nat × Nat) Lengths := do
  let _ ← readCell t i j
  return t.modify i (·.setIfInBounds j v)

/-- One more than the number for cell `(i, j)`, which has to have room for it. -/
def increase (i j : Nat) (v : UInt32) : Except (Nat × Nat) UInt32 :=
  if v.toNat + 1 < UInt32.size then .ok (v + 1) else .error (i, j)

theorem readCell_eq_ok_iff {t : Lengths} {i j : Nat} {v : UInt32} :
    readCell t i j = .ok v ↔ t[i]?.bind (·[j]?) = some v := by
  unfold readCell
  cases t[i]?.bind (·[j]?) <;> simp

/-- Writing a cell changes what is read there and nowhere else. -/
theorem exists_writeCell {t : Lengths} {i j : Nat} {u : UInt32} (h : readCell t i j = .ok u)
    (v : UInt32) : ∃ t', writeCell t i j v = .ok t' ∧
      ∀ k l, readCell t' k l = if k = i ∧ l = j then .ok v else readCell t k l := by
  refine ⟨t.modify i (·.setIfInBounds j v), by rw [writeCell, h]; rfl, fun k l => ?_⟩
  obtain ⟨row, hrow, hu⟩ := Option.bind_eq_some_iff.1 (readCell_eq_ok_iff.1 h)
  have hj : j < row.size := (Array.getElem?_eq_some_iff.1 hu).1
  unfold readCell
  by_cases hk : k = i
  · subst hk
    by_cases hl : l = j
    · subst hl
      simp [Array.getElem?_modify, hrow, hj]
    · have hl' : j ≠ l := fun e => hl e.symm
      simp [Array.getElem?_modify, hrow, hl, hl']
  · have hk' : i ≠ k := fun e => hk e.symm
    simp [Array.getElem?_modify, hk, hk']

theorem increase_ok {i j : Nat} {v : UInt32} (h : v.toNat + 1 < UInt32.size) :
    ∃ u, increase i j v = .ok u ∧ u.toNat = v.toNat + 1 := by
  refine ⟨v + 1, by rw [increase, if_pos h], ?_⟩
  rw [UInt32.toNat_add, Nat.mod_eq_of_lt (by simpa using h)]
  rfl

/-! ### The two passes -/

section Passes

variable (r : α → β → Bool) (as : List α) (bs : List β)

/-- The number for cell `(i, j)`, by the cells behind it. -/
def lengthAt (t : Lengths) (i j : Nat) : Except (Nat × Nat) UInt32 :=
  match as[i]?, bs[j]? with
  | some a, some b =>
    if r a b then do increase i j (← readCell t (i + 1) (j + 1))
    else return max (← readCell t (i + 1) j) (← readCell t i (j + 1))
  | _, _ => .error (i, j)

/-- Fills cell `(i, j)`. -/
def fillCell (t : Lengths) (i j : Nat) : Except (Nat × Nat) Lengths := do
  writeCell t i j (← lengthAt r as bs t i j)

/-- Fills the cells of row `i` before column `j`, the last one first. -/
def fillRow (i : Nat) : Nat → Lengths → Except (Nat × Nat) Lengths
  | 0, t => .ok t
  | j + 1, t => do fillRow i j (← fillCell r as bs t i j)

/-- Fills the rows before row `i`, the last one first. -/
def fillRows : Nat → Lengths → Except (Nat × Nat) Lengths
  | 0, t => .ok t
  | i + 1, t => do fillRows i (← fillRow r as bs i bs.length t)

/-- **The first pass**: a table with a cell for every pair of suffixes is filled. -/
def fill : Except (Nat × Nat) Lengths :=
  fillRows r as bs as.length (Array.replicate (as.length + 1) (Array.replicate (bs.length + 1) 0))

/-- **The second pass**, from cell `(i, j)` on: related elements are paired at once; otherwise the
first list gives way, unless the second loses less by it. -/
def walk (t : Lengths) (i j : Nat) : Except (Nat × Nat) (List (α × β)) :=
  if _ : i < as.length then
    if _ : j < bs.length then
      if r as[i] bs[j] then do return (as[i], bs[j]) :: (← walk t (i + 1) (j + 1))
      else do
        let down ← readCell t (i + 1) j
        let right ← readCell t i (j + 1)
        if right ≤ down then walk t (i + 1) j else walk t i (j + 1)
    else return []
  else return []
termination_by as.length - i + (bs.length - j)

/-- **Both passes.** -/
def collect : Except (Nat × Nat) (List (α × β)) := do
  let t ← fill r as bs
  walk r as bs t 0 0

end Passes

/-! ### Filling the table -/

variable {r : α → β → Bool} {as : List α} {bs : List β} {t : Lengths} {S S' : Nat → Nat → Prop}
  {i j : Nat}

/-- A longest common subsequence is not longer than the first list. -/
theorem length_best_le (r : α → β → Bool) (as : List α) (bs : List β) :
    (best r as bs).length ≤ as.length := by
  have h := (common_best r as bs).fst.length_le
  rwa [List.length_map, ← length_best] at h

/-- The lengths of the recursion. -/
theorem length_best_cons_cons (r : α → β → Bool) (a : α) (as : List α) (b : β) (bs : List β) :
    (best r (a :: as) (b :: bs)).length =
      if r a b then (best r as bs).length + 1
      else max (best r as (b :: bs)).length (best r (a :: as) bs).length := by
  rw [best_cons_cons]
  split
  · rfl
  · split <;> omega

/-- **The table has all its cells, and those in `S` hold the right lengths.** -/
def Holds (r : α → β → Bool) (as : List α) (bs : List β) (t : Lengths) (S : Nat → Nat → Prop) :
    Prop :=
  ∀ i j, i ≤ as.length → j ≤ bs.length → ∃ v, readCell t i j = .ok v ∧
    (S i j → v.toNat = (best r (as.drop i) (bs.drop j)).length)

namespace Holds

theorem mono (h : Holds r as bs t S)
    (hS : ∀ i j, i ≤ as.length → j ≤ bs.length → S' i j → S i j) : Holds r as bs t S' := by
  intro i j hi hj
  obtain ⟨v, hv, hS'⟩ := h i j hi hj
  exact ⟨v, hv, fun hs => hS' (hS i j hi hj hs)⟩

/-- A cell in `S` holds the right length. -/
theorem exists_cell (h : Holds r as bs t S) (hi : i ≤ as.length) (hj : j ≤ bs.length)
    (hS : S i j) : ∃ v, readCell t i j = .ok v ∧
      v.toNat = (best r (as.drop i) (bs.drop j)).length := by
  obtain ⟨v, hv, hlength⟩ := h i j hi hj
  exact ⟨v, hv, hlength hS⟩

end Holds

/-- At the beginning all numbers are zero, which is right where one of the suffixes is empty. -/
theorem holds_zero (r : α → β → Bool) (as : List α) (bs : List β) :
    Holds r as bs (Array.replicate (as.length + 1) (Array.replicate (bs.length + 1) 0))
      fun i j => as.length ≤ i ∨ bs.length ≤ j := by
  intro i j hi hj
  refine ⟨0, ?_, fun h => ?_⟩
  · rw [readCell_eq_ok_iff]
    have hi' : i < as.length + 1 := by omega
    have hj' : j < bs.length + 1 := by omega
    simp [hi', hj']
  · rcases h with h | h
    · rw [List.drop_of_length_le h, best_nil_left]
      rfl
    · rw [List.drop_of_length_le h, best_nil_right]
      rfl

/-- **One cell is filled** by the three cells behind it. -/
theorem fillCell_ok (h : Holds r as bs t S) (has : as.length < UInt32.size) (hi : i < as.length)
    (hj : j < bs.length) (hdown : S (i + 1) j) (hright : S i (j + 1))
    (hnext : S (i + 1) (j + 1)) : ∃ t', fillCell r as bs t i j = .ok t' ∧
      Holds r as bs t' fun k l => k = i ∧ l = j ∨ S k l := by
  obtain ⟨down, hd, hdl⟩ := h.exists_cell (i := i + 1) hi (Nat.le_of_lt hj) hdown
  obtain ⟨right, hr, hrl⟩ := h.exists_cell (j := j + 1) (Nat.le_of_lt hi) hj hright
  obtain ⟨next, hn, hnl⟩ := h.exists_cell (i := i + 1) (j := j + 1) hi hj hnext
  have hbest := length_best_cons_cons r as[i] (as.drop (i + 1)) bs[j] (bs.drop (j + 1))
  rw [← List.drop_eq_getElem_cons hi, ← List.drop_eq_getElem_cons hj] at hbest
  obtain ⟨v, hv, hvl⟩ : ∃ v, lengthAt r as bs t i j = .ok v ∧
      v.toNat = (best r (as.drop i) (bs.drop j)).length := by
    rw [hbest]
    simp only [lengthAt, List.getElem?_eq_getElem hi, List.getElem?_eq_getElem hj]
    split
    · -- a subsequence of what is behind has one element less than a list that is short enough
      have hle := length_best_le r (as.drop (i + 1)) (bs.drop (j + 1))
      rw [List.length_drop] at hle
      obtain ⟨u, hu, hul⟩ := increase_ok (i := i) (j := j) (v := next) (by omega)
      exact ⟨u, by rw [hn, bind_ok, hu], by omega⟩
    · refine ⟨max down right, by rw [hd, bind_ok, hr]; rfl, ?_⟩
      rw [UInt32.toNat_max, hdl, hrl]
  obtain ⟨old, hold, -⟩ := h i j (Nat.le_of_lt hi) (Nat.le_of_lt hj)
  obtain ⟨t', ht', hread⟩ := exists_writeCell hold v
  refine ⟨t', by rw [fillCell, hv, bind_ok, ht'], fun k l hk hl => ?_⟩
  rw [hread]
  by_cases hkl : k = i ∧ l = j
  · obtain ⟨rfl, rfl⟩ := hkl
    exact ⟨v, if_pos ⟨rfl, rfl⟩, fun _ => hvl⟩
  · rw [if_neg hkl]
    obtain ⟨u, hu, hul⟩ := h k l hk hl
    exact ⟨u, hu, fun hS => hul (hS.resolve_left hkl)⟩

/-- A row is filled from column `j` back. -/
theorem fillRow_ok (has : as.length < UInt32.size) (hi : i < as.length) (hj : j ≤ bs.length)
    (h : Holds r as bs t fun k l => i < k ∨ bs.length ≤ l ∨ k = i ∧ j ≤ l) :
    ∃ t', fillRow r as bs i j t = .ok t' ∧
      Holds r as bs t' fun k l => i ≤ k ∨ bs.length ≤ l := by
  induction j generalizing t with
  | zero => exact ⟨t, rfl, h.mono fun k l _ _ hkl => by omega⟩
  | succ j ih =>
      obtain ⟨t₁, ht₁, h₁⟩ := fillCell_ok h has hi hj (Or.inl (by omega)) (by omega)
        (Or.inl (by omega))
      obtain ⟨t', ht', h'⟩ := ih (by omega) (h₁.mono fun k l _ _ hkl => by omega)
      exact ⟨t', by rw [fillRow, ht₁, bind_ok, ht'], h'⟩

/-- The rows before row `i` are filled. -/
theorem fillRows_ok (has : as.length < UInt32.size) (hi : i ≤ as.length)
    (h : Holds r as bs t fun k l => i ≤ k ∨ bs.length ≤ l) :
    ∃ t', fillRows r as bs i t = .ok t' ∧ Holds r as bs t' fun _ _ => True := by
  induction i generalizing t with
  | zero => exact ⟨t, rfl, h.mono fun k l _ _ _ => Or.inl (Nat.zero_le k)⟩
  | succ i ih =>
      obtain ⟨t₁, ht₁, h₁⟩ := fillRow_ok has hi (Nat.le_refl _) (h.mono fun k l _ _ hkl => by omega)
      obtain ⟨t', ht', h'⟩ := ih (by omega) h₁
      exact ⟨t', by rw [fillRows, ht₁, bind_ok, ht'], h'⟩

/-- **The table is filled**, and every cell holds the right length. -/
theorem fill_ok (r : α → β → Bool) {as : List α} (has : as.length < UInt32.size) (bs : List β) :
    ∃ t, fill r as bs = .ok t ∧ Holds r as bs t fun _ _ => True :=
  fillRows_ok has (Nat.le_refl _) (holds_zero r as bs)

/-! ### Walking through it -/

/-- **The walk keeps to the table** and collects what the recursion does. -/
theorem walk_ok (h : Holds r as bs t fun _ _ => True) (i j : Nat) :
    walk r as bs t i j = .ok (best r (as.drop i) (bs.drop j)).pairs := by
  induction hk : as.length - i + (bs.length - j) using Nat.strong_induction_on
    generalizing i j with
  | _ k ih =>
      rw [walk]
      by_cases hi : i < as.length
      · by_cases hj : j < bs.length
        · rw [dif_pos hi, dif_pos hj, List.drop_eq_getElem_cons hi, List.drop_eq_getElem_cons hj,
            best_cons_cons, ← List.drop_eq_getElem_cons hi, ← List.drop_eq_getElem_cons hj]
          by_cases hr : r as[i] bs[j]
          · rw [if_pos hr, if_pos hr, ih _ (by omega) (i + 1) (j + 1) rfl]
            rfl
          · obtain ⟨down, hd, hdl⟩ := h.exists_cell (i := i + 1) hi (Nat.le_of_lt hj) trivial
            obtain ⟨right, hr', hrl⟩ := h.exists_cell (j := j + 1) (Nat.le_of_lt hi) hj trivial
            simp only [if_neg hr, hd, hr', bind_ok, UInt32.le_iff_toNat_le, hdl, hrl]
            split
            · exact ih _ (by omega) (i + 1) j rfl
            · exact ih _ (by omega) i (j + 1) rfl
        · rw [dif_pos hi, dif_neg hj, List.drop_of_length_le (Nat.le_of_not_lt hj),
            best_nil_right]
          rfl
      · rw [dif_neg hi, List.drop_of_length_le (Nat.le_of_not_lt hi), best_nil_left]
        rfl

/-- **The two passes find what the recursion finds.** -/
theorem collect_eq (r : α → β → Bool) {as : List α} (has : as.length < UInt32.size) (bs : List β) :
    collect r as bs = .ok (longestCommon r as bs) := by
  obtain ⟨t, ht, h⟩ := fill_ok r has bs
  rw [collect, ht, bind_ok, walk_ok h, longestCommon_eq, List.drop_zero, List.drop_zero]

/-! ### Indices -/

/-- **Pairs of indices that go forward in both lists** and lead to related elements. -/
structure Forward (r : α → β → Bool) (as : List α) (bs : List β) (l : List (Nat × Nat)) :
    Prop where
  increasing : l.Pairwise fun p q => p.1 < q.1 ∧ p.2 < q.2
  related : ∀ p ∈ l, ∃ a b, as[p.1]? = some a ∧ bs[p.2]? = some b ∧ r a b

/-- The elements that pairs of indices lead to. -/
def LeadTo (as : List α) (bs : List β) (l : List (Nat × Nat)) (pairs : List (α × β)) : Prop :=
  List.Forall₂ (fun p e => as[p.1]? = some e.1 ∧ bs[p.2]? = some e.2) l pairs

theorem LeadTo.fst {l : List (Nat × Nat)} {pairs : List (α × β)} (h : LeadTo as bs l pairs) :
    List.Forall₂ (fun i a => as[i]? = some a) (l.map Prod.fst) (pairs.map Prod.fst) := by
  rw [List.forall₂_map_left_iff, List.forall₂_map_right_iff]
  exact h.imp fun _ _ h => h.1

theorem LeadTo.snd {l : List (Nat × Nat)} {pairs : List (α × β)} (h : LeadTo as bs l pairs) :
    List.Forall₂ (fun j b => bs[j]? = some b) (l.map Prod.snd) (pairs.map Prod.snd) := by
  rw [List.forall₂_map_left_iff, List.forall₂_map_right_iff]
  exact h.imp fun _ _ h => h.2

/-- Elements at increasing indices are a part of the list. -/
theorem sublist_drop_of_indices {l l' : List α} {is : List Nat}
    (h : List.Forall₂ (fun i a => l'[i]? = some a) is l) (hlt : is.Pairwise (· < ·)) {k : Nat}
    (hk : ∀ i ∈ is, k ≤ i) : l.Sublist (l'.drop k) := by
  induction h generalizing k with
  | nil => exact List.nil_sublist _
  | @cons i a is l hia h ih =>
      obtain ⟨hi, rfl⟩ := List.getElem?_eq_some_iff.1 hia
      obtain ⟨hfirst, hlt⟩ := List.pairwise_cons.1 hlt
      have hrest := ih hlt (k := i + 1) hfirst
      have hcons : (l'[i] :: l).Sublist (l'.drop i) := by
        rw [List.drop_eq_getElem_cons hi]
        exact hrest.cons_cons _
      exact hcons.trans (List.drop_sublist_drop_left l' (hk i List.mem_cons_self))

/-- A part of a list has its elements at increasing indices. -/
theorem exists_indices_of_sublist {l l' : List α} (h : l.Sublist l') :
    ∃ is : List Nat, is.Pairwise (· < ·) ∧ List.Forall₂ (fun i a => l'[i]? = some a) is l := by
  obtain ⟨is, rfl, hlt⟩ := List.sublist_eq_map_getElem h
  refine ⟨is.map Fin.val, List.pairwise_map.2 hlt, ?_⟩
  rw [List.forall₂_map_left_iff, List.forall₂_map_right_iff, List.forall₂_same]
  exact fun i _ => List.getElem?_eq_getElem i.isLt

/-- Indices of the two halves of pairs are put together. -/
theorem leadTo_zip {is js : List Nat} {pairs : List (α × β)}
    (hi : List.Forall₂ (fun i a => as[i]? = some a) is (pairs.map Prod.fst))
    (hj : List.Forall₂ (fun j b => bs[j]? = some b) js (pairs.map Prod.snd)) :
    LeadTo as bs (is.zip js) pairs := by
  induction pairs generalizing is js with
  | nil =>
      obtain rfl := List.forall₂_nil_right_iff.1 hi
      exact List.Forall₂.nil
  | cons e pairs ih =>
      obtain ⟨i, is, hia, his, rfl⟩ := List.forall₂_cons_right_iff.1 hi
      obtain ⟨j, js, hjb, hjs, rfl⟩ := List.forall₂_cons_right_iff.1 hj
      exact List.Forall₂.cons ⟨hia, hjb⟩ (ih his hjs)

/-- **A common subsequence is what indices that go forward lead to.** -/
theorem common_iff_forward {pairs : List (α × β)} :
    Common r as bs pairs ↔ ∃ l, Forward r as bs l ∧ LeadTo as bs l pairs := by
  constructor
  · intro h
    obtain ⟨is, hislt, his⟩ := exists_indices_of_sublist h.fst
    obtain ⟨js, hjslt, hjs⟩ := exists_indices_of_sublist h.snd
    have hlead := leadTo_zip his hjs
    have hlength : is.length = js.length := by
      have hi := his.length_eq
      have hj := hjs.length_eq
      rw [List.length_map] at hi hj
      omega
    refine ⟨is.zip js, ⟨List.Pairwise.and ?_ ?_, ?_⟩, hlead⟩
    · rw [← List.pairwise_map (f := Prod.fst), List.map_fst_zip (Nat.le_of_eq hlength)]
      exact hislt
    · rw [← List.pairwise_map (f := Prod.snd), List.map_snd_zip (Nat.le_of_eq hlength.symm)]
      exact hjslt
    · intro p hp
      obtain ⟨e, he, hpa, hpb⟩ := exists_right_of_forall₂ hlead hp
      exact ⟨e.1, e.2, hpa, hpb, h.rel e he⟩
  · rintro ⟨l, hl, hlead⟩
    have hilt : (l.map Prod.fst).Pairwise (· < ·) :=
      List.pairwise_map.2 (hl.increasing.imp fun h => h.1)
    have hjlt : (l.map Prod.snd).Pairwise (· < ·) :=
      List.pairwise_map.2 (hl.increasing.imp fun h => h.2)
    refine ⟨sublist_drop_of_indices hlead.fst hilt fun i _ => Nat.zero_le i,
      sublist_drop_of_indices hlead.snd hjlt fun j _ => Nat.zero_le j, fun e he => ?_⟩
    obtain ⟨p, hp, hpa, hpb⟩ := exists_left_of_forall₂ hlead he
    obtain ⟨a, b, ha, hb, hab⟩ := hl.related p hp
    obtain rfl := Option.some.inj (ha.symm.trans hpa)
    obtain rfl := Option.some.inj (hb.symm.trans hpb)
    exact hab

/-- Indices that go forward lead somewhere. -/
theorem Forward.exists_pairs {l : List (Nat × Nat)} (h : Forward r as bs l) :
    ∃ pairs, LeadTo as bs l pairs := by
  refine exists_forall₂ fun p hp => ?_
  obtain ⟨a, b, ha, hb, -⟩ := h.related p hp
  exact ⟨(a, b), ha, hb⟩

end CommonSubsequence

/-! ### Main result -/

section Longest

open CommonSubsequence

variable {α β : Type} {r : α → β → Bool} {as : List α} {bs : List β}

/-- **The two passes find a longest common subsequence**, whatever the relation: they never need a
cell that is not in the table, nor a length that does not fit into a cell; what is found are
related elements at indices that go forward in both lists; and no other such indices are more.
It is enough that the first list is short. -/
theorem longestCommon_longest (r : α → β → Bool) (has : as.length < UInt32.size) (bs : List β) :
    collect r as bs = .ok (longestCommon r as bs) ∧
      ∃ l, Forward r as bs l ∧ LeadTo as bs l (longestCommon r as bs) ∧
        ∀ l', Forward r as bs l' → l'.length ≤ l.length := by
  obtain ⟨l, hl, hlead⟩ := common_iff_forward.1 (common_longestCommon r as bs)
  refine ⟨collect_eq r has bs, l, hl, hlead, fun l' hl' => ?_⟩
  obtain ⟨pairs, hpairs⟩ := hl'.exists_pairs
  have hle := length_le_longestCommon (common_iff_forward.2 ⟨l', hl', hpairs⟩)
  rwa [← hpairs.length_eq, ← hlead.length_eq] at hle

/-- Numbers are related to their multiples, which is no equivalence. -/
theorem longestCommon_longest_multiples :
    [2, 3, 4].length < UInt32.size ∧
    collect (fun a b : Nat => b % a == 0) [2, 3, 4] [9, 4, 6, 8] =
      .ok (longestCommon (fun a b : Nat => b % a == 0) [2, 3, 4] [9, 4, 6, 8]) ∧
    ∃ l, Forward (fun a b : Nat => b % a == 0) [2, 3, 4] [9, 4, 6, 8] l ∧
      LeadTo [2, 3, 4] [9, 4, 6, 8] l
        (longestCommon (fun a b : Nat => b % a == 0) [2, 3, 4] [9, 4, 6, 8]) ∧
      ∀ l', Forward (fun a b : Nat => b % a == 0) [2, 3, 4] [9, 4, 6, 8] l' →
        l'.length ≤ l.length :=
  ⟨by decide, longestCommon_longest _ (by decide) _⟩

end Longest

end TreeScript
