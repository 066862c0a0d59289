/-
**Tables filled from lists.**

Main definitions:

* `TreeScript.NodeMap.insertAll` — a map with the entries of a list stored in it, one after the
  other;
* `TreeScript.NodeMap.Renamed`, `TreeScript.NodeSet.Renamed` — the same map, or set, for nodes
  that go by other names.

Main results:

* `TreeScript.NodeMap.get?_insertAll_iff` — **a list with one value for each key is found again,
  and nothing else changes**;
* `TreeScript.NodeSet.contains_eraseAll` — what is left of a set;
* `TreeScript.NodeMap.Renamed.insert`, `TreeScript.NodeSet.Renamed.addAll` — **changes keep it
  so**.
-/

import Mathlib.Data.List.Nodup
import Mathlib.Data.Set.Function
import TreeScript.NodeMap

set_option relaxedAutoImplicit false
set_option autoImplicit false

namespace TreeScript

/-! ### Lists of pairs -/

section Pairs

variable {σ τ : Type} {l : List (σ × τ)} {x x' : σ} {y y' : τ}

theorem fst_unique_of_nodup (h : (l.map Prod.snd).Nodup) (hx : (x, y) ∈ l) (hx' : (x', y) ∈ l) :
    x = x' :=
  congrArg Prod.fst (List.inj_on_of_nodup_map h hx hx' rfl)

theorem snd_unique_of_nodup (h : (l.map Prod.fst).Nodup) (hy : (x, y) ∈ l) (hy' : (x, y') ∈ l) :
    y = y' :=
  congrArg Prod.snd (List.inj_on_of_nodup_map h hy hy' rfl)

theorem exists_mem_of_fst {x : σ} (h : x ∈ l.map Prod.fst) : ∃ y, (x, y) ∈ l := by
  obtain ⟨⟨x', y⟩, hm, rfl⟩ := List.mem_map.1 h
  exact ⟨y, hm⟩

theorem exists_mem_of_snd {y : τ} (h : y ∈ l.map Prod.snd) : ∃ x, (x, y) ∈ l := by
  obtain ⟨⟨x, y'⟩, hm, rfl⟩ := List.mem_map.1 h
  exact ⟨x, hm⟩

theorem mem_map_swap : (y, x) ∈ l.map Prod.swap ↔ (x, y) ∈ l := by
  rw [List.mem_map]
  constructor
  · rintro ⟨⟨x', y'⟩, hm, he⟩
    obtain ⟨rfl, rfl⟩ := Prod.mk.inj he
    exact hm
  · intro h
    exact ⟨(x, y), h, rfl⟩

end Pairs

namespace NodeMap

variable {β : Type} {m : NodeMap β} {l : List (NodeId × β)} {n : NodeId} {v : β}

theorem contains_iff : m.contains n ↔ ∃ v, m.get? n = some v := by
  rw [contains, Option.isSome_iff_exists]

/-- The map that also stores the entries of a list, a later one in place of an earlier one. -/
def insertAll (m : NodeMap β) (l : List (NodeId × β)) : NodeMap β :=
  l.foldl (fun m e => m.insert e.1 e.2) m

theorem get?_insertAll_of_not_mem (h : n ∉ l.map Prod.fst) :
    (m.insertAll l).get? n = m.get? n := by
  induction l generalizing m with
  | nil => rfl
  | cons e l ih =>
      rw [List.map_cons, List.mem_cons, not_or] at h
      refine (ih (m := m.insert e.1 e.2) h.2).trans ?_
      rw [get?_insert, if_neg fun he => h.1 he.symm]

/-- What is found was there before or comes from the list. -/
theorem mem_or_of_get?_insertAll (h : (m.insertAll l).get? n = some v) :
    (n, v) ∈ l ∨ m.get? n = some v := by
  induction l generalizing m with
  | nil => exact Or.inr h
  | cons e l ih =>
      rcases ih (m := m.insert e.1 e.2) h with hl | hm
      · exact Or.inl (List.mem_cons_of_mem e hl)
      · rw [get?_insert] at hm
        split at hm
        case isTrue he =>
          obtain rfl := Option.some.inj hm
          subst he
          exact Or.inl List.mem_cons_self
        case isFalse => exact Or.inr hm

theorem get?_insertAll_of_mem (hl : ∀ v', (n, v') ∈ l → v' = v) (h : (n, v) ∈ l) :
    (m.insertAll l).get? n = some v := by
  induction l generalizing m with
  | nil => cases h
  | cons e l ih =>
      have hl' : ∀ v', (n, v') ∈ l → v' = v := fun v' hv => hl v' (List.mem_cons_of_mem e hv)
      by_cases hn : n ∈ l.map Prod.fst
      · obtain ⟨v', hv'⟩ := exists_mem_of_fst hn
        obtain rfl := hl' v' hv'
        exact ih (m := m.insert e.1 e.2) hl' hv'
      · have he : (n, v) = e := (List.mem_cons.1 h).resolve_right fun hm =>
          hn (List.mem_map_of_mem hm)
        subst he
        refine (get?_insertAll_of_not_mem (m := m.insert n v) hn).trans ?_
        rw [get?_insert, if_pos rfl]

/-- Something is found for every key of the list. -/
theorem exists_get?_insertAll (h : n ∈ l.map Prod.fst) : ∃ v, (m.insertAll l).get? n = some v := by
  induction l generalizing m with
  | nil => cases h
  | cons e l ih =>
      by_cases hn : n ∈ l.map Prod.fst
      · exact ih (m := m.insert e.1 e.2) hn
      · obtain rfl := (List.mem_cons.1 h).resolve_right hn
        refine ⟨e.2, (get?_insertAll_of_not_mem (m := m.insert e.1 e.2) hn).trans ?_⟩
        rw [get?_insert, if_pos rfl]

/-- **A list with one value for each key is found again, and nothing else changes.** -/
theorem get?_insertAll_iff (hl : ∀ {n v v'}, (n, v) ∈ l → (n, v') ∈ l → v = v') :
    (m.insertAll l).get? n = some v ↔ (n, v) ∈ l ∨ n ∉ l.map Prod.fst ∧ m.get? n = some v := by
  constructor
  · intro h
    by_cases hn : n ∈ l.map Prod.fst
    · obtain ⟨v', hv'⟩ := exists_mem_of_fst hn
      rw [get?_insertAll_of_mem (fun _ hv => hl hv hv') hv'] at h
      obtain rfl := Option.some.inj h
      exact Or.inl hv'
    · rw [get?_insertAll_of_not_mem hn] at h
      exact Or.inr ⟨hn, h⟩
  · rintro (h | ⟨hn, h⟩)
    · exact get?_insertAll_of_mem (fun _ hv => hl hv h) h
    · rw [get?_insertAll_of_not_mem hn, h]

/-- The map of a list with one value for each key finds what the list says. -/
theorem get?_ofList_iff (hl : ∀ {n v v'}, (n, v) ∈ l → (n, v') ∈ l → v = v') :
    (ofList l).get? n = some v ↔ (n, v) ∈ l := by
  refine (get?_insertAll_iff hl).trans (or_iff_left_of_imp fun h => ?_)
  rw [get?_empty] at h
  cases h.2

end NodeMap

namespace NodeSet

/-- The members after taking out a list are the members before that are not in the list. -/
theorem contains_eraseAll (s : NodeSet) (ns : List NodeId) (k : NodeId) :
    (s.eraseAll ns).contains k = (!decide (k ∈ ns) && s.contains k) := by
  unfold eraseAll
  induction ns generalizing s with
  | nil => simp
  | cons n ns ih =>
      rw [List.foldl_cons, ih, contains_erase]
      by_cases h : n = k
      · simp [h]
      · have : ¬ k = n := fun e => h e.symm
        simp [h, this]

end NodeSet

/-! ### Other names -/

/-- A list and one of its elements, under other names. -/
theorem mem_map_iff_of_injOn {σ τ : Type} {S : Set σ} {f : σ → τ} {l : List σ} {x : σ}
    (hf : S.InjOn f) (hl : ∀ y ∈ l, y ∈ S) (hx : x ∈ S) : f x ∈ l.map f ↔ x ∈ l := by
  rw [List.mem_map]
  constructor
  · rintro ⟨y, hy, he⟩
    exact hf (hl y hy) hx he ▸ hy
  · exact fun h => ⟨x, h, rfl⟩

/-- **The same map for nodes that go by other names**: what is found for a node of `S` under its
new name is what was found for it, changed by `g`. -/
def NodeMap.Renamed {β γ : Type} (S : Set NodeId) (f : NodeId → NodeId) (g : β → γ) (m : NodeMap β)
    (m' : NodeMap γ) : Prop :=
  ∀ n ∈ S, m'.get? (f n) = (m.get? n).map g

namespace NodeMap.Renamed

variable {β γ : Type} {S : Set NodeId} {f : NodeId → NodeId} {g : β → γ} {m : NodeMap β}
  {m' : NodeMap γ} {n : NodeId}

theorem empty : (NodeMap.empty : NodeMap β).Renamed S f g NodeMap.empty := by
  intro n _
  rw [get?_empty, get?_empty]
  rfl

theorem insert (h : m.Renamed S f g m') (hf : S.InjOn f) (hn : n ∈ S) (v : β) :
    (m.insert n v).Renamed S f g (m'.insert (f n) (g v)) := by
  intro k hk
  rw [get?_insert, get?_insert, if_congr (hf.eq_iff hn hk) rfl rfl]
  split
  · rfl
  · exact h k hk

theorem contains (h : m.Renamed S f g m') (hn : n ∈ S) : m'.contains (f n) = m.contains n := by
  rw [NodeMap.contains, h n hn, Option.isSome_map, NodeMap.contains]

/-- The entries of a list, stored under other names. -/
theorem ofList (hf : S.InjOn f) {l : List (NodeId × β)} (hl : ∀ e ∈ l, e.1 ∈ S) :
    (NodeMap.ofList l).Renamed S f g (.ofList (l.map (Prod.map f g))) := by
  have go : ∀ (l : List (NodeId × β)) (m : NodeMap β) (m' : NodeMap γ), (∀ e ∈ l, e.1 ∈ S) →
      m.Renamed S f g m' →
      (m.insertAll l).Renamed S f g (m'.insertAll (l.map (Prod.map f g))) := by
    intro l
    induction l with
    | nil => exact fun _ _ _ h => h
    | cons e l ih =>
        intro m m' hl h
        obtain ⟨he, hl⟩ := List.forall_mem_cons.1 hl
        exact ih _ _ hl (h.insert hf he e.2)
  exact go l _ _ hl empty

end NodeMap.Renamed

/-- **The same set for nodes that go by other names.** -/
def NodeSet.Renamed (S : Set NodeId) (f : NodeId → NodeId) (s s' : NodeSet) : Prop :=
  ∀ n ∈ S, s'.contains (f n) = s.contains n

namespace NodeSet.Renamed

variable {S : Set NodeId} {f : NodeId → NodeId} {s s' : NodeSet} {n : NodeId} {ns : List NodeId}

theorem empty : NodeSet.empty.Renamed S f NodeSet.empty := by
  intro n _
  rw [contains_empty, contains_empty]

theorem add (h : s.Renamed S f s') (hf : S.InjOn f) (hn : n ∈ S) :
    (s.add n).Renamed S f (s'.add (f n)) := by
  intro k hk
  simp only [contains_add, h k hk, hf.eq_iff hn hk]

theorem addAll (h : s.Renamed S f s') (hf : S.InjOn f) (hns : ∀ k ∈ ns, k ∈ S) :
    (s.addAll ns).Renamed S f (s'.addAll (ns.map f)) := by
  intro k hk
  simp only [contains_addAll, h k hk, mem_map_iff_of_injOn hf hns hk]

theorem eraseAll (h : s.Renamed S f s') (hf : S.InjOn f) (hns : ∀ k ∈ ns, k ∈ S) :
    (s.eraseAll ns).Renamed S f (s'.eraseAll (ns.map f)) := by
  intro k hk
  simp only [contains_eraseAll, h k hk, mem_map_iff_of_injOn hf hns hk]

end NodeSet.Renamed

end TreeScript
