/-
**Planting: a rose tree becomes part of an arena.**

Planting adds nodes and touches none of those that were there, except that the node it plants
under gets new last children.  What is planted is a copy: if the rose tree depicts some links,
each new node has the payload and, up to the change of names, the children of what it is the copy
of.

Main definitions:

* `TreeScript.Arena.Grown` — an arena that has got new nodes;
* `TreeScript.Depicts` — a rose tree that shows given links and payloads;
* `TreeScript.Arena.CopiedBy` — nodes that are the copies of others.

Main results:

* `TreeScript.Arena.grown_plant` — **planting only adds**;
* `TreeScript.Arena.copiedBy_plant` — **what is planted is a copy**.
-/

import Mathlib.Data.List.Forall2
import TreeScript.Proofs.Arena.Editing

set_option relaxedAutoImplicit false
set_option autoImplicit false

namespace TreeScript

/-- **The rose tree shows the links `C` and the payloads `D`** of the nodes that stand in it. -/
inductive Depicts {κ δ : Type} (C : κ → List κ) (D : κ → Option δ) : RoseTree (κ × δ) → Prop where
  | node {k : κ} {d : δ} {ts : List (RoseTree (κ × δ))} (data : D k = some d)
      (children : C k = ts.map fun t => t.value.1) (below : ∀ t ∈ ts, Depicts C D t) :
      Depicts C D (.node (k, d) ts)

/-- A depiction with other payloads. -/
theorem Depicts.map {κ δ ε : Type} {C : κ → List κ} {D : κ → Option δ} {t : RoseTree (κ × δ)}
    (h : Depicts C D t) (f : κ → δ → ε) :
    Depicts C (fun k => (D k).map (f k)) (t.map fun e => (e.1, f e.1 e.2)) := by
  induction h with
  | @node k d ts data children below ih =>
      rw [RoseTree.map_node]
      refine Depicts.node (by simp [data]) ?_ fun t ht => ?_
      · rw [children, List.map_map]
        refine List.map_congr_left fun t _ => ?_
        cases t
        simp
      · obtain ⟨u, hu, rfl⟩ := List.mem_map.1 ht
        exact ih u hu

namespace Arena

variable {α κ : Type} {a b e : Arena α} {n m k p : NodeId} {under : Option NodeId}
  {tops tops' new new' : List NodeId} {d : α}

/-! ### Arenas that have got new nodes -/

/-- **`e` is `a` with new nodes.**  Those of them in `tops` are put under `under`, at its end; the
others are somewhere below these. -/
structure Grown (a e : Arena α) (under : Option NodeId) (tops new : List NodeId) : Prop where
  wf : e.WellFormed
  isLive_iff : ∀ {k}, e.isLive k ↔ a.isLive k ∨ k ∈ new
  not_issued : ∀ n ∈ new, ¬ a.Issued n
  issued : ∀ {k}, a.Issued k → e.Issued k
  nodup : new.Nodup
  subset : ∀ n ∈ tops, n ∈ new
  data? : ∀ {k}, a.isLive k → e.data? k = a.data? k
  parent? : ∀ {k}, a.isLive k → e.parent? k = a.parent? k
  children : ∀ {k}, a.isLive k →
    e.children k = if under = some k then a.children k ++ tops else a.children k
  parent?_tops : ∀ n ∈ tops, e.parent? n = under
  parent?_new : ∀ n ∈ new, n ∉ tops → ∃ q ∈ new, e.parent? n = some q

namespace Grown

theorem isLive (h : Grown a e under tops new) (hk : a.isLive k) : e.isLive k :=
  h.isLive_iff.2 (Or.inl hk)

theorem isLive_new (h : Grown a e under tops new) (hk : k ∈ new) : e.isLive k :=
  h.isLive_iff.2 (Or.inr hk)

theorem not_isLive (h : Grown a e under tops new) (hn : n ∈ new) : ¬ a.isLive n :=
  fun hl => h.not_issued n hn (issued_of_isLive hl)

theorem refl (hw : a.WellFormed) (under : Option NodeId) : Grown a a under [] [] where
  wf := hw
  isLive_iff := by simp
  not_issued := by simp
  issued := id
  nodup := List.nodup_nil
  subset := by simp
  data? _ := rfl
  parent? _ := rfl
  children _ := by simp
  parent?_tops := by simp
  parent?_new := by simp

/-- New nodes after new nodes, under one parent. -/
theorem trans (h : Grown a b under tops new) (h' : Grown b e under tops' new') :
    Grown a e under (tops ++ tops') (new ++ new') where
  wf := h'.wf
  isLive_iff := by
    intro k
    rw [h'.isLive_iff, h.isLive_iff, List.mem_append, or_assoc]
  not_issued := by
    intro n hn
    rcases List.mem_append.1 hn with hn | hn
    · exact h.not_issued n hn
    · exact fun hi => h'.not_issued n hn (h.issued hi)
  issued hi := h'.issued (h.issued hi)
  nodup := by
    refine List.nodup_append.2 ⟨h.nodup, h'.nodup, ?_⟩
    rintro x hx y hy rfl
    exact h'.not_isLive hy (h.isLive_new hx)
  subset := by
    intro n hn
    rcases List.mem_append.1 hn with hn | hn
    · exact List.mem_append_left _ (h.subset n hn)
    · exact List.mem_append_right _ (h'.subset n hn)
  data? hk := (h'.data? (h.isLive hk)).trans (h.data? hk)
  parent? hk := (h'.parent? (h.isLive hk)).trans (h.parent? hk)
  children := by
    intro k hk
    rw [h'.children (h.isLive hk), h.children hk]
    split <;> simp
  parent?_tops := by
    intro n hn
    rcases List.mem_append.1 hn with hn | hn
    · rw [h'.parent? (h.isLive_new (h.subset n hn)), h.parent?_tops n hn]
    · exact h'.parent?_tops n hn
  parent?_new := by
    intro n hn hnt
    rw [List.mem_append, not_or] at hnt
    rcases List.mem_append.1 hn with hn | hn
    · obtain ⟨q, hq, hp⟩ := h.parent?_new n hn hnt.1
      exact ⟨q, List.mem_append_left _ hq, (h'.parent? (h.isLive_new hn)).trans hp⟩
    · obtain ⟨q, hq, hp⟩ := h'.parent?_new n hn hnt.2
      exact ⟨q, List.mem_append_right _ hq, hp⟩

/-- One new node, and then new nodes under it. -/
theorem cons (h : Grown a b under [n] [n]) (h' : Grown b e (some n) tops new) :
    Grown a e under [n] (n :: new) where
  wf := h'.wf
  isLive_iff := by
    intro k
    rw [h'.isLive_iff, h.isLive_iff, List.mem_singleton, List.mem_cons, or_assoc]
  not_issued := by
    intro m hm
    rcases List.mem_cons.1 hm with rfl | hm
    · exact h.not_issued m (List.mem_singleton_self m)
    · exact fun hi => h'.not_issued m hm (h.issued hi)
  issued hi := h'.issued (h.issued hi)
  nodup := List.nodup_cons.2
    ⟨fun hn => h'.not_isLive hn (h.isLive_new (List.mem_singleton_self n)), h'.nodup⟩
  subset := by simp
  data? hk := (h'.data? (h.isLive hk)).trans (h.data? hk)
  parent? hk := (h'.parent? (h.isLive hk)).trans (h.parent? hk)
  children := by
    intro k hk
    have hne : some n ≠ some k := by
      rintro ⟨⟩
      exact h.not_isLive (List.mem_singleton_self n) hk
    rw [h'.children (h.isLive hk), if_neg hne, h.children hk]
  parent?_tops := by
    intro m hm
    have hl : b.isLive m := h.isLive_new hm
    rw [h'.parent? hl, h.parent?_tops m hm]
  parent?_new := by
    intro m hm hmn
    rcases List.mem_cons.1 hm with rfl | hm
    · exact absurd (List.mem_singleton_self m) hmn
    · by_cases ht : m ∈ tops
      · exact ⟨n, List.mem_cons_self, h'.parent?_tops m ht⟩
      · obtain ⟨q, hq, hp⟩ := h'.parent?_new m hm ht
        exact ⟨q, List.mem_cons_of_mem _ hq, hp⟩

end Grown

/-! ### Planting only adds -/

theorem not_below_nextId (hw : a.WellFormed) (hp : a.isLive p) : ¬ a.Below a.nextId p :=
  fun h => not_isLive_nextId hw (hw.isLive_of_below hp h)

/-- A node that sprouts is the last child of the node it sprouts under. -/
theorem grown_sprout (hw : a.WellFormed) (hu : ∀ p, under = some p → a.isLive p) (d : α) :
    Grown a (a.sprout under d) under [a.nextId] [a.nextId] := by
  have hwb := hw.alloc d
  have hlive : ∀ {k}, (a.alloc d).isLive k ↔ k = a.nextId ∨ a.isLive k := isLive_alloc_iff hw
  have hn : (a.alloc d).isLive a.nextId := hlive.2 (Or.inl rfl)
  have hne : ∀ {k}, a.isLive k → k ≠ a.nextId := fun hk e => not_isLive_nextId hw (e ▸ hk)
  cases under with
  | none =>
      exact
        { wf := hwb
          isLive_iff := by intro k; simpa [sprout, or_comm] using hlive
          not_issued := by simpa using not_issued_nextId hw
          issued := issued_alloc
          nodup := List.nodup_singleton _
          subset := by simp
          data? := data?_alloc hw
          parent? := parent?_alloc hw
          children := by intro k hk; simpa [sprout] using children_alloc hw hk
          parent?_tops := by simpa [sprout] using parent?_alloc_nextId hw
          parent?_new := by simp }
  | some p =>
      have hp : a.isLive p := hu p rfl
      have hpb : (a.alloc d).isLive p := hlive.2 (Or.inr hp)
      have hb : ¬ (a.alloc d).Below a.nextId p := fun h =>
        not_below_nextId hw hp (h.imp hwb hpb fun c q hc hq => by
          rcases hlive.1 hc with rfl | hc
          · rw [parent?_alloc_nextId hw] at hq; cases hq
          · rwa [parent?_alloc hw hc] at hq)
      exact
        { wf := hwb.link hpb hn (parent?_alloc_nextId hw) hb
          isLive_iff := by intro k; simpa [sprout, or_comm] using hlive
          not_issued := by simpa using not_issued_nextId hw
          issued := fun hi => issued_link_iff.2 (issued_alloc hi)
          nodup := List.nodup_singleton _
          subset := by simp
          data? := by intro k hk; simpa [sprout] using data?_alloc hw hk
          parent? := by
            intro k hk
            rw [sprout, parent?_link hwb hpb hn (hlive.2 (Or.inr hk)), if_neg (hne hk),
              parent?_alloc hw hk]
          children := by
            intro k hk
            rw [sprout, children_link hpb (hlive.2 (Or.inr hk)), Nat.min_self,
              List.insertIdx_length_self, children_alloc hw hk, children_alloc hw hp]
            by_cases he : k = p
            · simp [he]
            · rw [if_neg he, if_neg fun h => he (Option.some.inj h).symm]
          parent?_tops := by
            simpa [sprout] using parent?_link hwb hpb hn hn
          parent?_new := by simp }

/-- The root of what is planted is copied first. -/
theorem mem_plant_self (t : RoseTree (κ × α)) (a : Arena α) (under : Option NodeId) :
    (t.value.1, a.nextId) ∈ (a.plant under t).2 := by
  cases t with
  | node e ts => exact List.mem_cons_self

mutual
/-- **Planting a tree adds one node for each of its nodes**, one of them under `under`. -/
theorem grown_plant (t : RoseTree (κ × α)) {a : Arena α} {under : Option NodeId}
    (hw : a.WellFormed) (hu : ∀ p, under = some p → a.isLive p) :
    Grown a (a.plant under t).1 under [a.nextId] ((a.plant under t).2.map Prod.snd) := by
  match t with
  | .node (key, d) ts =>
    have hs := grown_sprout hw hu d
    obtain ⟨tops, h, -⟩ := grown_plantForest ts hs.wf (hs.isLive_new (List.mem_singleton_self _))
    exact hs.cons h

/-- Planting a forest adds its roots at the end of the list of children, in order. -/
theorem grown_plantForest (ts : List (RoseTree (κ × α))) {a : Arena α} {p : NodeId}
    (hw : a.WellFormed) (hp : a.isLive p) : ∃ tops,
    Grown a (a.plantForest p ts).1 (some p) tops ((a.plantForest p ts).2.map Prod.snd) ∧
      List.Forall₂ (fun t n => (t.value.1, n) ∈ (a.plantForest p ts).2) ts tops := by
  match ts with
  | [] => exact ⟨[], Grown.refl hw _, List.Forall₂.nil⟩
  | t :: ts =>
    have hu : ∀ q, some p = some q → a.isLive q := by rintro _ ⟨⟩; exact hp
    have h := grown_plant t hw hu
    obtain ⟨tops, h', hts⟩ := grown_plantForest ts h.wf (h.isLive hp)
    refine ⟨_, by simpa [plantForest] using h.trans h', List.Forall₂.cons ?_ ?_⟩
    · exact List.mem_append_left _ (mem_plant_self t a (some p))
    · exact hts.imp fun _ _ hm => List.mem_append_right _ hm
end

mutual
/-- The copies are made in pre-order. -/
theorem map_fst_plant (t : RoseTree (κ × α)) (a : Arena α) (under : Option NodeId) :
    (a.plant under t).2.map Prod.fst = t.preorder.map Prod.fst := by
  match t with
  | .node (key, d) ts =>
    simp only [plant, RoseTree.preorder, List.map_cons, map_fst_plantForest ts]

theorem map_fst_plantForest (ts : List (RoseTree (κ × α))) (a : Arena α) (p : NodeId) :
    (a.plantForest p ts).2.map Prod.fst = (RoseTree.preorderForest ts).map Prod.fst := by
  match ts with
  | [] => rfl
  | t :: ts =>
    simp only [plantForest, RoseTree.preorderForest, List.map_append, map_fst_plant t,
      map_fst_plantForest ts]
end

section Subtree

variable {β : Type} {o : Arena β} {t : RoseTree (NodeId × α)}
  (h : t.map Prod.fst = o.subtree m)

include h

/-- Of a part of an arena all nodes are copied, in pre-order, -/
theorem map_fst_plant_subtree (a : Arena α) (under : Option NodeId) :
    (a.plant under t).2.map Prod.fst = o.preorder m := by
  rw [map_fst_plant, ← RoseTree.preorder_map, h]
  rfl

/-- and its root first. -/
theorem mem_plant_subtree (a : Arena α) (under : Option NodeId) :
    (m, a.nextId) ∈ (a.plant under t).2 := by
  have hroot : t.value.1 = m := by
    cases t
    simpa using congrArg RoseTree.value h
  exact hroot ▸ mem_plant_self t a under

end Subtree

/-! ### What is planted is a copy -/

/-- **The second node of each pair is the copy of the first**: it has the payload, and its
children are the copies of the children, in order. -/
def CopiedBy (C : κ → List κ) (D : κ → Option α) (pairs : List (κ × NodeId)) (e : Arena α) :
    Prop :=
  ∀ k n, (k, n) ∈ pairs →
    e.data? n = D k ∧ List.Forall₂ (fun k n => (k, n) ∈ pairs) (C k) (e.children n)

variable {C : κ → List κ} {D : κ → Option α} {pairs pairs' : List (κ × NodeId)}

/-- Copies stay copies when new nodes come that are not put under them. -/
theorem CopiedBy.grow (h : CopiedBy C D pairs b) (hg : Grown b e under tops new)
    (hl : ∀ x ∈ pairs, b.isLive x.2 ∧ under ≠ some x.2) : CopiedBy C D pairs e := by
  intro k n hm
  obtain ⟨hn, hne⟩ := hl _ hm
  obtain ⟨hd, hc⟩ := h k n hm
  exact ⟨(hg.data? hn).trans hd, by rwa [hg.children hn, if_neg hne]⟩

theorem CopiedBy.append (h : CopiedBy C D pairs e) (h' : CopiedBy C D pairs' e) :
    CopiedBy C D (pairs ++ pairs') e := by
  intro k n hm
  rcases List.mem_append.1 hm with hm | hm
  · obtain ⟨hd, hc⟩ := h k n hm
    exact ⟨hd, hc.imp fun _ _ => List.mem_append_left _⟩
  · obtain ⟨hd, hc⟩ := h' k n hm
    exact ⟨hd, hc.imp fun _ _ => List.mem_append_right _⟩

mutual
/-- **What is planted is a copy** of what the tree depicts. -/
theorem copiedBy_plant (t : RoseTree (κ × α)) (ht : Depicts C D t) {a : Arena α}
    {under : Option NodeId} (hw : a.WellFormed) (hu : ∀ p, under = some p → a.isLive p) :
    CopiedBy C D (a.plant under t).2 (a.plant under t).1 := by
  match t, ht with
  | .node (key, d) ts, .node data children below =>
    have hs := grown_sprout hw hu d
    have hn := hs.isLive_new (List.mem_singleton_self _)
    obtain ⟨tops, h, hts⟩ := grown_plantForest ts hs.wf hn
    have ih := copiedBy_plantForest ts below hs.wf hn
    intro k n hm
    rcases List.mem_cons.1 hm with he | hm
    · -- the root of the copy: its children are what the forest has put under it
      obtain ⟨rfl, rfl⟩ := Prod.mk.inj he
      have hdata : (a.sprout under d).data? a.nextId = some d := by
        cases under <;> simp [sprout, data?_alloc_nextId hw]
      have hchildren : (a.sprout under d).children a.nextId = [] := by
        cases under with
        | none => exact children_alloc_nextId hw
        | some p =>
            have hp : a.isLive p := hu p rfl
            rw [sprout, children_link ((isLive_alloc_iff hw).2 (Or.inr hp))
              ((isLive_alloc_iff hw).2 (Or.inl rfl)), children_alloc_nextId hw, if_neg]
            rintro rfl
            exact not_isLive_nextId hw hp
      have htops : (a.plant under (.node (k, d) ts)).1.children a.nextId = tops := by
        rw [← List.nil_append tops, ← hchildren]
        exact (h.children hn).trans (if_pos rfl)
      refine ⟨(h.data? hn).trans (hdata.trans data.symm), ?_⟩
      rw [htops, children, List.forall₂_map_left_iff]
      exact hts.imp fun _ _ => List.mem_cons_of_mem _
    · obtain ⟨hd, hc⟩ := ih k n hm
      exact ⟨hd, hc.imp fun _ _ => List.mem_cons_of_mem _⟩

theorem copiedBy_plantForest (ts : List (RoseTree (κ × α))) (hts : ∀ t ∈ ts, Depicts C D t)
    {a : Arena α} {p : NodeId} (hw : a.WellFormed) (hp : a.isLive p) :
    CopiedBy C D (a.plantForest p ts).2 (a.plantForest p ts).1 := by
  match ts with
  | [] => exact nofun
  | t :: ts =>
    have hu : ∀ q, some p = some q → a.isLive q := by rintro _ ⟨⟩; exact hp
    have h := grown_plant t hw hu
    obtain ⟨tops, h', -⟩ := grown_plantForest ts h.wf (h.isLive hp)
    have first := copiedBy_plant t (hts t List.mem_cons_self) hw hu
    have rest := copiedBy_plantForest ts (fun u hm => hts u (List.mem_cons_of_mem _ hm)) h.wf
      (h.isLive hp)
    refine (first.grow h' fun x hx => ?_).append rest
    have hx' : x.2 ∈ (a.plant (some p) t).2.map Prod.snd := List.mem_map_of_mem hx
    refine ⟨h.isLive_new hx', ?_⟩
    rintro ⟨⟩
    exact h.not_isLive hx' hp
end

end Arena

end TreeScript
