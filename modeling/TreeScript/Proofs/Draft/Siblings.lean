/-
**Siblings in line with other siblings.**

The children of a node of the working copy are compared with the children of its counterpart in
the destination: some of the children there are in order already, and their counterparts stand in
the same order here, among other nodes.  A further child comes in line by putting its counterpart
right after that of the last child before it that is in order.

Main definitions:

* `TreeScript.InLine` — **the values that a predicate selects are those of one list, in the order
  of the other**;
* `TreeScript.Gap` — a gap between the elements of a list that the predicate selects.

Main results:

* `TreeScript.InLine.gap_first`, `TreeScript.InLine.gap_after` — where the gap for a further
  value is;
* `TreeScript.Gap.inLine` — **what is put into the gap is in line**;
* `TreeScript.InLine.of_sublist` — a common subsequence is in line where nothing was before.
-/

import Mathlib.Data.List.Basic
import Mathlib.Data.List.Forall2
import Mathlib.Data.List.Nodup
import Mathlib.Data.List.Perm.Subperm

set_option relaxedAutoImplicit false
set_option autoImplicit false

namespace TreeScript

/-! ### Sublists without repetition -/

section Sublist

variable {σ τ : Type} {l l' : List σ} {f : σ → Option τ}

/-- A sublist that has all elements of some kind has them as the list does. -/
theorem filter_eq_of_sublist (h : l.Sublist l') (hnd : l'.Nodup) {P : σ → Bool}
    (hP : ∀ x ∈ l', P x → x ∈ l) : l.filter P = l'.filter P := by
  refine (h.filter P).eq_of_length_le ((hnd.filter P).subperm fun x hx => ?_).length_le
  obtain ⟨hx, hPx⟩ := List.mem_filter.1 hx
  exact List.mem_filter.2 ⟨hP x hx hPx, hPx⟩

/-- What is left of a list when it is filtered by a sublist is that sublist. -/
theorem filter_mem_of_sublist [DecidableEq σ] (h : l.Sublist l') (hnd : l'.Nodup) :
    l'.filter (· ∈ l) = l := by
  rw [← filter_eq_of_sublist h hnd fun x _ hx => by simpa using hx]
  exact List.filter_eq_self.2 fun x hx => by simpa using hx

/-- An element of a list without repetition is neither before nor after itself. -/
theorem not_mem_of_nodup_middle {x : σ} (h : (l ++ x :: l').Nodup) : x ∉ l ∧ x ∉ l' := by
  rw [List.nodup_middle, List.nodup_cons, List.mem_append, not_or] at h
  exact h.1

/-- Different elements have different values. -/
theorem nodup_filterMap_of_inj (hnd : l.Nodup)
    (hinj : ∀ x ∈ l, ∀ y ∈ l, ∀ v, f x = some v → f y = some v → x = y) :
    (l.filterMap f).Nodup := by
  refine List.pairwise_filterMap.2 (List.Pairwise.imp_of_mem ?_ hnd)
  rintro x y hx hy hne v hv v' hv' rfl
  exact hne (hinj x hx y hy v hv hv')

/-- The values of a list whose elements all have one. -/
theorem filterMap_eq_of_forall₂ {vs : List τ} (h : List.Forall₂ (fun x v => f x = some v) l vs) :
    l.filterMap f = vs := by
  induction h with
  | nil => rfl
  | cons h _ ih => rw [List.filterMap_cons_some h, ih]

/-- Elements that all have a value are related to their values. -/
theorem forall₂_filterMap {R : σ → τ → Prop} (h : ∀ x ∈ l, ∃ v, f x = some v ∧ R x v) :
    List.Forall₂ R l (l.filterMap f) := by
  induction l with
  | nil => exact List.Forall₂.nil
  | cons x l ih =>
      obtain ⟨⟨v, hv, hR⟩, hl⟩ := List.forall_mem_cons.1 h
      rw [List.filterMap_cons_some hv]
      exact List.Forall₂.cons hR (ih hl)

/-- Values are selected as the elements are that have them. -/
theorem filter_filterMap_eq_map {P : τ → Bool} {Q : σ → Bool} {i : σ → τ}
    (h : ∀ x ∈ l, ∃ v, f x = some v ∧ P v = Q x ∧ i x = v) :
    (l.filterMap f).filter P = (l.filter Q).map i := by
  induction l with
  | nil => rfl
  | cons x l ih =>
      obtain ⟨⟨v, hv, hPQ, rfl⟩, hl⟩ := List.forall_mem_cons.1 h
      rw [List.filterMap_cons_some hv, List.filter_cons, List.filter_cons, ih hl, hPQ]
      cases Q x <;> rfl

/-- What has no value leaves no trace, and what has one is mapped as the value is. -/
theorem map_filter_eq_map_of_filterMap {υ : Type} {vs : List τ} (h : l.filterMap f = vs)
    {g : σ → υ} {g' : τ → υ} (hg : ∀ x ∈ l, ∀ v, f x = some v → g x = g' v) :
    (l.filter fun x => (f x).isSome).map g = vs.map g' := by
  subst h
  induction l with
  | nil => rfl
  | cons x l ih =>
      obtain ⟨hx, hl⟩ := List.forall_mem_cons.1 hg
      cases hv : f x with
      | none => simpa [List.filterMap_cons_none hv, hv] using ih hl
      | some v => simpa [List.filterMap_cons_some hv, hv, hx v hv] using ih hl

theorem insertIdx_append_length (l l' : List σ) (x : σ) :
    (l ++ l').insertIdx l.length x = l ++ x :: l' := by
  induction l with
  | nil => rfl
  | cons y l ih => simpa using ih

/-- Values that are not selected leave no trace. -/
theorem filter_filterMap_erase [DecidableEq σ] {w : σ} {S : τ → Bool}
    (hw : ∀ v, f w = some v → S v = false) (l : List σ) :
    ((l.erase w).filterMap f).filter S = (l.filterMap f).filter S := by
  by_cases hm : w ∈ l
  · obtain ⟨l₁, l₂, -, hl, he⟩ := List.exists_erase_eq hm
    have hnil : ([w].filterMap f).filter S = [] := by
      cases hv : f w with
      | none => simp [hv]
      | some v => simp [hv, hw v hv]
    rw [he, hl, List.append_cons, List.filterMap_append, List.filterMap_append,
      List.filterMap_append, List.filter_append, List.filter_append, List.filter_append, hnil,
      List.append_nil]
  · rw [List.erase_of_not_mem hm]

/-- What has no value leaves no trace. -/
theorem filterMap_erase_of_none [DecidableEq σ] {w : σ} (hw : f w = none) (l : List σ) :
    (l.erase w).filterMap f = l.filterMap f := by
  have h := filter_filterMap_erase (S := fun _ => true) (f := f) (w := w)
    (fun v hv => by rw [hw] at hv; cases hv) l
  simpa using h

end Sublist

variable {σ τ : Type} {f g : σ → Option τ} {S T : τ → Bool} {L L₁ L₂ : List σ}
  {K K₁ K₂ : List τ} {u w : σ} {v x : τ} {i k : Nat}

/-- **The values in `S` of the elements of `L` are the elements in `S` of `K`**, in that order. -/
def InLine (f : σ → Option τ) (S : τ → Bool) (L : List σ) (K : List τ) : Prop :=
  (L.filterMap f).filter S = K.filter S

namespace InLine

theorem mem_iff (h : InLine f S L K) (hv : S v) : v ∈ K ↔ ∃ u ∈ L, f u = some v := by
  have hmem : v ∈ (L.filterMap f).filter S ↔ v ∈ K.filter S := by rw [h]
  rw [List.mem_filter, List.mem_filter, and_iff_left hv, and_iff_left hv,
    List.mem_filterMap] at hmem
  exact hmem.symm

/-- What is in line is a part of the list, if values lead back to their elements. -/
theorem exists_sublist (h : InLine f S L K) {e : τ → Option σ}
    (he : ∀ u ∈ L, ∀ v, f u = some v → e v = some u) :
    ∃ us, List.Forall₂ (fun v u => e v = some u) (K.filter S) us ∧ us.Sublist L := by
  rw [← show (L.filterMap f).filter S = K.filter S from h]
  clear h
  induction L with
  | nil => exact ⟨[], List.Forall₂.nil, List.Sublist.refl _⟩
  | cons u L ih =>
      obtain ⟨hu, hL⟩ := List.forall_mem_cons.1 he
      obtain ⟨us, hus, hsub⟩ := ih hL
      cases hv : f u with
      | none =>
          rw [List.filterMap_cons_none hv]
          exact ⟨us, hus, hsub.cons u⟩
      | some v =>
          rw [List.filterMap_cons_some hv, List.filter_cons]
          split
          · exact ⟨u :: us, List.Forall₂.cons (hu v hv) hus, hsub.cons_cons u⟩
          · exact ⟨us, hus, hsub.cons u⟩

/-- With fewer values there is less to be said. -/
theorem mono (h : InLine f S L K) (hT : ∀ v, T v → S v) : InLine f T L K := by
  have hfilter : ∀ l : List τ, (l.filter S).filter T = l.filter T := by
    intro l
    rw [List.filter_filter]
    refine List.filter_congr fun v _ => ?_
    cases hv : T v with
    | false => rfl
    | true => simp [hT v hv]
  rw [InLine, ← hfilter, ← hfilter K, h]

theorem congr (h : InLine f S L K) (hf : ∀ u ∈ L, g u = f u)
    (hS : ∀ v, (∃ u ∈ L, f u = some v) ∨ v ∈ K → T v = S v) : InLine g T L K := by
  have hL : (L.filterMap f).filter T = (L.filterMap f).filter S :=
    List.filter_congr fun v hv => hS v (Or.inl (List.mem_filterMap.1 hv))
  rw [InLine, List.filterMap_congr hf, hL, h]
  exact (List.filter_congr fun v hv => hS v (Or.inr hv)).symm

theorem erase [DecidableEq σ] (h : InLine f S L K) (hw : ∀ v, f w = some v → S v = false) :
    InLine f S (L.erase w) K :=
  (filter_filterMap_erase hw L).trans h

/-- Where all values are in `S` they are all there is. -/
theorem filterMap_eq (h : InLine f S L K) (hL : ∀ u ∈ L, ∀ v, f u = some v → S v)
    (hK : ∀ v ∈ K, S v) : L.filterMap f = K := by
  rw [InLine, List.filter_eq_self.2 hK, List.filter_eq_self.2 fun v hv => ?_] at h
  · exact h
  · obtain ⟨u, hu, huv⟩ := List.mem_filterMap.1 hv
    exact hL u hu v huv

/-- **A common subsequence is in line where nothing was before.** -/
theorem of_sublist [DecidableEq τ] (h : InLine f S L K) (hS : ∀ v ∈ K, S v = false)
    {l : List τ} (hl : l.Sublist (L.filterMap f)) (hlK : l.Sublist K)
    (hnd : (L.filterMap f).Nodup) (hndK : K.Nodup) (hT : ∀ v, T v = (decide (v ∈ l) || S v)) :
    InLine f T L K := by
  have hSL : ∀ v ∈ L.filterMap f, S v = false := by
    intro v hv
    refine Bool.eq_false_iff.2 fun hSv => ?_
    rw [hS v ((h.mem_iff hSv).2 (List.mem_filterMap.1 hv))] at hSv
    cases hSv
  have hTl : ∀ l' : List τ, (∀ v ∈ l', S v = false) → l'.filter T = l'.filter (· ∈ l) := by
    intro l' hl'
    exact List.filter_congr fun v hv => by rw [hT, hl' v hv, Bool.or_false]
  rw [InLine, hTl _ hSL, hTl _ hS, filter_mem_of_sublist hl hnd, filter_mem_of_sublist hlK hndK]

end InLine

/-! ### Gaps -/

/-- **The gap for `x`**: before place `k` of the list stand the values that come before `x`, and
from there on those that come after it. -/
def Gap (f : σ → Option τ) (S : τ → Bool) (L : List σ) (K₁ K₂ : List τ) (k : Nat) : Prop :=
  ∃ L₁ L₂, L = L₁ ++ L₂ ∧ k = L₁.length ∧
    (L₁.filterMap f).filter S = K₁.filter S ∧ (L₂.filterMap f).filter S = K₂.filter S

theorem Gap.le_length (h : Gap f S L K₁ K₂ k) : k ≤ L.length := by
  obtain ⟨L₁, L₂, rfl, rfl, -, -⟩ := h
  rw [List.length_append]
  omega

namespace InLine

variable (h : InLine f S L (K₁ ++ x :: K₂)) (hx : S x = false)

include h hx

/-- If nothing before `x` is in order, `x` comes first. -/
theorem gap_first (hK : K₁.filter S = []) : Gap f S L K₁ K₂ 0 := by
  refine ⟨[], L, rfl, rfl, hK.symm, ?_⟩
  rw [InLine, List.filter_append, hK, List.filter_cons_of_neg (by simp [hx])] at h
  exact h

/-- **Otherwise it comes after the last that is.** -/
theorem gap_after (hnd : (K₁ ++ x :: K₂).Nodup) (hv : (K₁.filter S).getLast? = some v)
    (hi : L[i]? = some u) (hu : f u = some v) : Gap f S L K₁ K₂ (i + 1) := by
  obtain ⟨M, hM⟩ := List.getLast?_eq_some_iff.1 hv
  obtain ⟨hlt, hiu⟩ := List.getElem?_eq_some_iff.1 hi
  have hSv : S v := by
    have : v ∈ K₁.filter S := by rw [hM]; simp
    exact (List.mem_filter.1 this).2
  have hL : L = L.take i ++ u :: L.drop (i + 1) := by
    rw [← hiu, List.getElem_cons_drop, List.take_append_drop]
  have hcut : ((L.take i).filterMap f).filter S ++ v :: ((L.drop (i + 1)).filterMap f).filter S =
      M ++ v :: K₂.filter S := by
    have hall := h
    rw [hL, InLine, List.filterMap_append, List.filterMap_cons_some hu, List.filter_append,
      List.filter_cons_of_pos hSv, List.filter_append, List.filter_cons_of_neg (by simp [hx]),
      hM] at hall
    rw [hall, List.append_assoc]
    rfl
  -- the value `v` stands at one place only, on either side
  have hndM : (M ++ v :: K₂.filter S).Nodup := by
    have hall := hnd.filter S
    rw [List.filter_append, List.filter_cons_of_neg (by simp [hx]), hM, List.append_assoc] at hall
    exact hall
  have hnot := not_mem_of_nodup_middle hndM
  obtain ⟨h₁, -, h₂⟩ := (List.append_cons_inj_of_notMem hnot.1 hnot.2).1 hcut.symm
  refine ⟨L.take i ++ [u], L.drop (i + 1), ?_, ?_, ?_, h₂.symm⟩
  · rw [List.append_assoc]
    exact hL
  · rw [List.length_append, List.length_take_of_le (Nat.le_of_lt hlt)]
    rfl
  · rw [List.filterMap_append, List.filter_append, ← h₁, hM]
    simp [hu, hSv]

end InLine

/-- **What is put into the gap is in line.** -/
theorem Gap.inLine [DecidableEq τ] (h : Gap f S L K₁ K₂ k) (hw : f w = some x)
    (hL : ∀ u ∈ L, f u ≠ some x) (hK₁ : x ∉ K₁) (hK₂ : x ∉ K₂)
    (hT : ∀ v, T v = (decide (x = v) || S v)) :
    InLine f T (L.insertIdx k w) (K₁ ++ x :: K₂) := by
  obtain ⟨L₁, L₂, rfl, rfl, h₁, h₂⟩ := h
  have hTS : ∀ l : List τ, x ∉ l → l.filter T = l.filter S := by
    intro l hxl
    refine List.filter_congr fun v hv => ?_
    have hne : x ≠ v := fun e => hxl (e ▸ hv)
    rw [hT, decide_eq_false hne, Bool.false_or]
  have hval : ∀ l : List σ, (∀ u ∈ l, f u ≠ some x) → x ∉ l.filterMap f := by
    intro l hl hm
    obtain ⟨u, hu, hux⟩ := List.mem_filterMap.1 hm
    exact hl u hu hux
  have hTx : T x := by simp [hT]
  rw [insertIdx_append_length, InLine, List.filterMap_append, List.filterMap_cons_some hw,
    List.filter_append, List.filter_append, List.filter_cons_of_pos hTx,
    List.filter_cons_of_pos hTx, hTS _ hK₁, hTS _ hK₂,
    hTS _ (hval L₁ fun u hu => hL u (List.mem_append_left _ hu)),
    hTS _ (hval L₂ fun u hu => hL u (List.mem_append_right _ hu)), h₁, h₂]

end TreeScript
