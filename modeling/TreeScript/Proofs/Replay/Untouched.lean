/-
**What a script does not touch.**

An action moves or relabels only the node that it names.  Others come and go around it, but the
nodes that are there all the time and are never moved stay under the same parents and in the same
order among each other, and those that are never relabeled keep their labels.

Main definitions:

* `TreeScript.Arena.Keeps` — **some nodes are where they were, and some carry what they carried**;
* `TreeScript.Action.moved?`, `TreeScript.Action.updated?` — the source node that an action moves
  or relabels.

Main results:

* `TreeScript.Arena.Grown.keeps_graft`, `TreeScript.Arena.keeps_removeSubtree` — what is kept when
  nodes come and go;
* `TreeScript.Replay.Sound.keeps_of_accepts` — what one action keeps;
* `TreeScript.Replay.Sound.keeps_of_run` — **what a script keeps**: what it never moves is where it
  was, and what it never relabels carries what it carried.
-/

import TreeScript.Proofs.Replay.Steps

set_option relaxedAutoImplicit false
set_option autoImplicit false

namespace TreeScript

/-! ### Elements that are not selected -/

section Filter

variable {σ : Type} {U : σ → Bool} {x : σ}

theorem filter_insertIdx_of_neg (hx : U x = false) (l : List σ) (i : Nat) :
    (l.insertIdx i x).filter U = l.filter U := by
  induction l generalizing i with
  | nil => cases i <;> simp [hx]
  | cons y l ih =>
      cases i with
      | zero => simp [hx]
      | succ i => rw [List.insertIdx_succ_cons, List.filter_cons, List.filter_cons, ih]

theorem filter_erase_of_neg [DecidableEq σ] (hx : U x = false) (l : List σ) :
    (l.erase x).filter U = l.filter U := by
  induction l with
  | nil => rfl
  | cons y l ih =>
      by_cases h : y = x
      · subst h
        simp [hx]
      · rw [List.erase_cons_tail (by simpa using h), List.filter_cons, List.filter_cons, ih]

end Filter

/-! ### Nodes that stay -/

namespace Arena

variable {α : Type} {a b c e : Arena α} {U V : NodeId → Bool} {n p t : NodeId}
  {new : List NodeId}

/-- **The nodes in `U` are where they were**, under the same parents and in the same order among
each other, and those in `V` carry what they carried. -/
structure Keeps (U V : NodeId → Bool) (a b : Arena α) : Prop where
  parent? : ∀ {n}, U n → b.parent? n = a.parent? n
  children : ∀ {p}, a.isLive p → b.isLive p → (b.children p).filter U = (a.children p).filter U
  data? : ∀ {n}, V n → b.data? n = a.data? n

theorem Keeps.refl (U V : NodeId → Bool) (a : Arena α) : Keeps U V a a where
  parent? _ := rfl
  children _ _ := rfl
  data? _ := rfl

theorem Keeps.trans (h : Keeps U V a b) (h' : Keeps U V b c) (hab : Later a b)
    (hbc : Later b c) : Keeps U V a c where
  parent? hn := (h'.parent? hn).trans (h.parent? hn)
  data? hn := (h'.data? hn).trans (h.data? hn)
  children hp hp' := by
    -- what is there at both ends is there in between
    have hpb := hbc.isLive (hab.issued (issued_of_isLive hp)) hp'
    exact (h'.children hpb hp').trans (h.children hp hpb)

/-- **New nodes put under a node keep what was there.** -/
theorem Grown.keeps_graft (h : Grown a e none [t] new) (hU : ∀ n, U n ∨ V n → a.isLive n)
    (hp : a.isLive p) (i : Nat) : Keeps U V a (e.link p i t) where
  parent? hn := h.parent?_graft hp (hU _ (Or.inl hn)) i
  children := by
    intro q hq _
    have hnew : U t = false := by
      refine Bool.eq_false_iff.2 fun ht => ?_
      exact h.not_isLive (h.subset t (List.mem_singleton_self t)) (hU t (Or.inl ht))
    rw [h.children_graft hp hq]
    split
    case isTrue he => rw [filter_insertIdx_of_neg hnew, he]
    case isFalse => rfl
  data? hn := (data?_link ..).trans (h.data? (hU _ (Or.inr hn)))

/-- **Taking out a subtree keeps what is not below its top.** -/
theorem keeps_removeSubtree (hw : a.WellFormed) (hn : a.isLive n)
    (hU : ∀ m, U m ∨ V m → a.isLive m ∧ (a.removeSubtree n).isLive m) :
    Keeps U V a (a.removeSubtree n) := by
  have hlive : ∀ {m}, (a.removeSubtree n).isLive m ↔ a.isLive m ∧ ¬ a.Below n m :=
    isLive_removeSubtree_iff hw hn
  have hUn : U n = false := by
    refine Bool.eq_false_iff.2 fun ht => ?_
    exact (hlive.1 (hU n (Or.inl ht)).2).2 Below.self
  exact
    { parent? := by
        intro m hm
        obtain ⟨hlm, hb⟩ := hlive.1 (hU m (Or.inl hm)).2
        exact parent?_removeSubtree hw hn hlm hb
      children := by
        intro q _ hq
        obtain ⟨hlq, hb⟩ := hlive.1 hq
        rw [children_removeSubtree hw hn hlq hb]
        exact filter_erase_of_neg hUn _
      data? := by
        intro m hm
        obtain ⟨hlm, hb⟩ := hlive.1 (hU m (Or.inr hm)).2
        exact data?_removeSubtree hw hn hlm hb }

end Arena

/-! ### Actions -/

namespace Action

/-- The source node that an action moves. -/
def moved? : Action → Option NodeId
  | .move s _ _ => some s
  | _ => none

/-- The source node that an action relabels. -/
def updated? : Action → Option NodeId
  | .update s _ => some s
  | _ => none

end Action

namespace Replay

variable {r r' : Replay} {a : Action} {a₀ : Arena NodeData} {n p q : NodeId} {k : Nat}
  {U V : NodeId → Bool} {script : List Action} {v : RoseTree (NodeId × NodeData)}

namespace Sound

variable (h : r.Sound a₀)

include h

/-- Time goes by. -/
theorem later_of_accepts (ha : r.Accepts a r') : Arena.Later r.arena r'.arena := by
  cases ha with
  | @insert d p _ k data hp =>
      exact (Arena.Later.of_grown (grown_planted h.wf (.node (d, data) []))).trans
        (Arena.Later.link _ p k _)
  | @treeInsert _ p _ k v hp =>
      exact (Arena.Later.of_grown (grown_planted h.wf v)).trans (Arena.Later.link _ p k _)
  | @root _ _ v => exact Arena.Later.of_grown (grown_planted h.wf v)
  | update =>
      rw [arena_relabeled]
      exact Arena.Later.setData _ _ _
  | @move _ n p _ k =>
      exact (Arena.Later.unlink r.arena n).trans (Arena.Later.link _ p k n)
  | @treeDelete _ n hn =>
      rw [arena_remove]
      exact Arena.Later.removeSubtree h.wf (h.isLive hn)
  | @delete _ n hn =>
      rw [arena_remove]
      exact Arena.Later.removeSubtree h.wf (h.isLive hn)

theorem later_of_run (hr : r.run script = .ok r') : Arena.Later r.arena r'.arena :=
  (h.run_invariant (P := fun s => Arena.Later r.arena s.arena)
    (fun hs ha hlater => hlater.trans (hs.later_of_accepts ha)) hr (Arena.Later.refl _)).2

/-! ### One action -/

theorem keeps_grafted (hU : ∀ n, U n ∨ V n → r.arena.isLive n) (hp : r.arena.isLive p)
    (v : RoseTree (NodeId × NodeData)) (k : Nat) :
    Arena.Keeps U V r.arena (r.grafted v p k).arena :=
  (grown_planted h.wf v).keeps_graft hU hp k

theorem keeps_moved (hU : ∀ n, U n ∨ V n → r.arena.isLive n) (hn : r.arena.isLive n)
    (hp : r.arena.isLive p) (hUn : U n = false) (k : Nat) :
    Arena.Keeps U V r.arena (r.moved n p k).arena where
  parent? := by
    intro m hm
    rw [arena_moved, Arena.parent?_move h.wf hn hp k (hU _ (Or.inl hm)), if_neg]
    rintro rfl
    rw [hUn] at hm
    cases hm
  children := by
    intro q hq _
    rw [arena_moved, Arena.children_move h.wf hn hp k hq]
    split
    case isTrue he => rw [filter_insertIdx_of_neg hUn, filter_erase_of_neg hUn, he]
    case isFalse => exact filter_erase_of_neg hUn _
  data? _ := by simp

theorem keeps_remove (hU : ∀ m, U m ∨ V m → r.arena.isLive m ∧ (r.remove n).arena.isLive m)
    (hn : r.arena.isLive n) : Arena.Keeps U V r.arena (r.remove n).arena := by
  simp only [arena_remove] at hU ⊢
  exact Arena.keeps_removeSubtree h.wf hn hU

/-- **An action keeps all nodes that stay, apart from the one that it names.** -/
theorem keeps_of_accepts (ha : r.Accepts a r')
    (hU : ∀ n, U n ∨ V n → r.arena.isLive n ∧ r'.arena.isLive n)
    (hmoved : ∀ s, a.moved? = some s → U s = false)
    (hupdated : ∀ s, a.updated? = some s → V s = false) : Arena.Keeps U V r.arena r'.arena := by
  cases ha with
  | insert hp => exact h.keeps_grafted (fun n hn => (hU n hn).1) (h.isLive hp) _ _
  | treeInsert hp => exact h.keeps_grafted (fun n hn => (hU n hn).1) (h.isLive hp) _ _
  | root hr =>
      -- there was nothing to keep
      have hempty : ∀ {n}, ¬ r.arena.isLive n := Arena.Rooted.not_isLive (hr ▸ h.rooted) h.wf
      exact
        { parent? := fun hn => absurd (hU _ (Or.inl hn)).1 hempty
          children := fun hp _ => absurd hp hempty
          data? := fun hn => absurd (hU _ (Or.inr hn)).1 hempty }
  | @update s n label hn =>
      obtain rfl := h.src hn
      exact
        { parent? := by simp
          children := by simp
          data? := by
            intro m hm
            have hne : m ≠ n := by
              rintro rfl
              rw [hupdated m rfl] at hm
              cases hm
            rw [arena_relabeled, Arena.data?_setData (h.isLive hn) (hU m (Or.inr hm)).1,
              if_neg hne] }
  | @move s n p _ k hn hp =>
      obtain rfl := h.src hn
      exact h.keeps_moved (fun m hm => (hU m hm).1) (h.isLive hn) (h.isLive hp) (hmoved n rfl) k
  | treeDelete hn => exact h.keeps_remove hU (h.isLive hn)
  | delete hn => exact h.keeps_remove hU (h.isLive hn)

/-! ### A script -/

omit h in
/-- **A script keeps all nodes that stay, apart from those that its actions name.** -/
theorem keeps_of_run (h : r.Sound a₀) (hr : r.run script = .ok r')
    (hU : ∀ n, U n ∨ V n → r.arena.isLive n ∧ r'.arena.isLive n)
    (hmoved : ∀ a ∈ script, ∀ s, a.moved? = some s → U s = false)
    (hupdated : ∀ a ∈ script, ∀ s, a.updated? = some s → V s = false) :
    Arena.Keeps U V r.arena r'.arena := by
  induction script generalizing r with
  | nil =>
      obtain rfl := pure_eq_ok.1 hr
      exact Arena.Keeps.refl U V _
  | cons a script ih =>
      obtain ⟨r₁, hstep, hr₁⟩ := run_cons_iff.1 hr
      have ha := h.step_iff.1 hstep
      have h₁ := h.accepts ha
      have hlater := h.later_of_accepts ha
      have hlater₁ := h₁.later_of_run hr₁
      -- what is there at both ends is there in between
      have hmid : ∀ n, U n ∨ V n → r₁.arena.isLive n := fun n hn =>
        hlater₁.isLive (hlater.issued (Arena.issued_of_isLive (hU n hn).1)) (hU n hn).2
      have hfirst := h.keeps_of_accepts ha (fun n hn => ⟨(hU n hn).1, hmid n hn⟩)
        (hmoved a List.mem_cons_self) (hupdated a List.mem_cons_self)
      have hrest := ih h₁ hr₁ (fun n hn => ⟨hmid n hn, (hU n hn).2⟩)
        (fun b hb => hmoved b (List.mem_cons_of_mem a hb))
        (fun b hb => hupdated b (List.mem_cons_of_mem a hb))
      exact hfirst.trans hrest hlater hlater₁

end Sound

end Replay

end TreeScript
