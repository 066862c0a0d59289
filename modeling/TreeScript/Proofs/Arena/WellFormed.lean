/-
**Well-formed arenas.**

The links of an arena are stored twice, upwards and downwards, and nothing in the type of an arena
makes them agree.  Here it is said what it means that they do: a node is a child of exactly the
node that it names as its parent, once, and climbing from a node comes to an end.  In such an
arena the walks of the library do what they are meant to do: no walk runs out of fuel, and each
meets what it has to meet, once.

Main definitions:

* `TreeScript.Arena.Issued` — the identities that have been given to a node so far;
* `TreeScript.Arena.Grounded`, `TreeScript.Arena.Climb` — the way up from a node, which ends;
* `TreeScript.Arena.Below` — a node and the nodes below it;
* `TreeScript.Arena.WellFormed` — **the links agree**;
* `TreeScript.Arena.Rooted` — only the root has no parent.

Main results:

* `TreeScript.Arena.WellFormed.ancestors_of_some`, `TreeScript.Arena.WellFormed.subtree_eq` — the
  walks unfold one step at a time, whatever their fuel;
* `TreeScript.Arena.WellFormed.children_induction` — **induction from the leaves upwards**;
* `TreeScript.Arena.WellFormed.mem_preorder_iff`, `TreeScript.Arena.WellFormed.nodup_preorder` —
  a walk below a node meets each node below it once.
-/

import Mathlib.Data.List.Nodup
import Mathlib.Data.List.Perm.Subperm
import Mathlib.Data.Nat.Basic
import TreeScript.Arena.Edit

set_option relaxedAutoImplicit false
set_option autoImplicit false

namespace TreeScript.Arena

variable {α : Type} {a : Arena α} {n m k p c r : NodeId}

/-! ### Identities that are up to date -/

theorem isLive_iff : a.isLive n ↔
    ∃ s, a.slots[n.slot]? = some s ∧ s.generation = n.generation ∧ s.node?.isSome := by
  unfold isLive
  split
  · next s hs => simp [hs]
  · next hs => simp [hs]

/-- A slot has room for one node at a time. -/
theorem eq_of_slot_eq (hn : a.isLive n) (hk : a.isLive k) (h : n.slot = k.slot) : n = k := by
  obtain ⟨s, hs, hg, -⟩ := isLive_iff.1 hn
  obtain ⟨s', hs', hg', -⟩ := isLive_iff.1 hk
  rw [h, hs'] at hs
  obtain rfl := Option.some.inj hs
  exact NodeId.ext_iff.2 ⟨h, hg.symm.trans hg'⟩

theorem exists_node?_of_isLive (h : a.isLive n) : ∃ node, a.node? n = some node := by
  obtain ⟨s, hs, -, hn⟩ := isLive_iff.1 h
  obtain ⟨node, hnode⟩ := Option.isSome_iff_exists.1 hn
  exact ⟨node, by simp [node?, hs, hnode]⟩

/-- A node that is up to date has a payload. -/
theorem exists_data?_of_isLive (h : a.isLive n) : ∃ d, a.data? n = some d := by
  obtain ⟨node, hnode⟩ := exists_node?_of_isLive h
  exact ⟨node.data, by simp [data?, hnode]⟩

theorem slot_lt_of_isLive (h : a.isLive n) : n.slot < a.slots.size := by
  obtain ⟨s, hs, -⟩ := isLive_iff.1 h
  exact (Array.getElem?_eq_some_iff.1 hs).1

/-- The identities that have been given to a node: those of nodes that are there, and those of
nodes that have left. -/
def Issued (a : Arena α) (n : NodeId) : Prop :=
  ∃ s, a.slots[n.slot]? = some s ∧
    (n.generation < s.generation ∨ n.generation = s.generation ∧ s.node?.isSome)

theorem issued_of_isLive (h : a.isLive n) : a.Issued n := by
  obtain ⟨s, hs, hg, hn⟩ := isLive_iff.1 h
  exact ⟨s, hs, Or.inr ⟨hg.symm, hn⟩⟩

/-! ### The way up -/

/-- The way up from a node comes to an end. -/
inductive Grounded (a : Arena α) : NodeId → Prop where
  | top {n : NodeId} (h : a.parent? n = none) : Grounded a n
  | step {n p : NodeId} (h : a.parent? n = some p) (hp : Grounded a p) : Grounded a n

/-- The nodes on the way up from a node, nearest first. -/
inductive Climb (a : Arena α) : NodeId → List NodeId → Prop where
  | top {n : NodeId} (h : a.parent? n = none) : Climb a n [n]
  | step {n p : NodeId} {l : List NodeId} (h : a.parent? n = some p) (hp : Climb a p l) :
      Climb a n (n :: l)

/-- `a.Below n m`: the way up from `m` leads to `n`; `m` is `n` itself or somewhere below it. -/
inductive Below (a : Arena α) (n : NodeId) : NodeId → Prop where
  | self : Below a n n
  | step {m p : NodeId} (h : a.parent? m = some p) (hp : Below a n p) : Below a n m

theorem Grounded.exists_climb (h : a.Grounded n) : ∃ l, a.Climb n l := by
  induction h with
  | top h => exact ⟨_, Climb.top h⟩
  | step h _ ih =>
      obtain ⟨l, hl⟩ := ih
      exact ⟨_, Climb.step h hl⟩

theorem Climb.unique {l l' : List NodeId} (h : a.Climb n l) (h' : a.Climb n l') : l = l' := by
  induction h generalizing l' with
  | top h =>
      cases h' with
      | top => rfl
      | step h' => rw [h] at h'; cases h'
  | step h _ ih =>
      cases h' with
      | top h' => rw [h] at h'; cases h'
      | step h' hp =>
          rw [h] at h'
          obtain rfl := Option.some.inj h'
          rw [ih hp]

/-- What is met on the way up has a way up that is no longer. -/
theorem Climb.of_mem {l : List NodeId} (h : a.Climb n l) (hm : m ∈ l) :
    ∃ l', a.Climb m l' ∧ l'.length ≤ l.length := by
  induction h with
  | top h =>
      obtain rfl := List.mem_singleton.1 hm
      exact ⟨_, Climb.top h, le_rfl⟩
  | step h hp ih =>
      rcases List.mem_cons.1 hm with rfl | hm
      · exact ⟨_, Climb.step h hp, le_rfl⟩
      · obtain ⟨l', hl', hlen⟩ := ih hm
        exact ⟨l', hl', Nat.le_succ_of_le hlen⟩

/-- No node is met twice on the way up: its own way up would be longer than itself. -/
theorem Climb.nodup {l : List NodeId} (h : a.Climb n l) : l.Nodup := by
  induction h with
  | top => exact List.nodup_singleton _
  | @step n p l h hp ih =>
      refine List.nodup_cons.2 ⟨fun hm => ?_, ih⟩
      obtain ⟨l', hl', hlen⟩ := hp.of_mem hm
      rw [hl'.unique (Climb.step h hp), List.length_cons] at hlen
      omega

theorem Climb.ancestorsF_eq {l : List NodeId} {fuel : Nat} (h : a.Climb n l)
    (hf : l.length ≤ fuel) : a.ancestorsF fuel n = l := by
  induction h generalizing fuel with
  | top h =>
      obtain ⟨f, rfl⟩ : ∃ f, fuel = f + 1 := ⟨fuel - 1, by simp at hf; omega⟩
      exact ancestorsF_succ_none h
  | step h _ ih =>
      obtain ⟨f, rfl⟩ : ∃ f, fuel = f + 1 := ⟨fuel - 1, by simp at hf; omega⟩
      rw [ancestorsF_succ_some h, ih (by simpa using hf)]

theorem Below.trans (h : a.Below n m) (h' : a.Below m k) : a.Below n k := by
  induction h' with
  | self => exact h
  | step hp _ ih => exact Below.step hp ih

theorem Below.of_parent (h : a.parent? m = some n) : a.Below n m := Below.step h Below.self

/-- A node below a node without a parent above it is that node. -/
theorem Below.eq_of_parent?_eq_none (h : a.Below n m) (hm : a.parent? m = none) : m = n := by
  cases h with
  | self => rfl
  | step hp => rw [hm] at hp; cases hp

/-- Below a node is the node itself, or what is below the parent. -/
theorem Below.parent_or_eq (h : a.Below n m) (hp : a.parent? m = some p) :
    m = n ∨ a.Below n p := by
  cases h with
  | self => exact Or.inl rfl
  | step hq hb =>
      rw [hp] at hq
      obtain rfl := Option.some.inj hq
      exact Or.inr hb

/-- Two nodes above one node are above each other one way or the other. -/
theorem Below.total (h : a.Below n m) (h' : a.Below k m) : a.Below n k ∨ a.Below k n := by
  induction h with
  | self => exact Or.inr h'
  | step hp hb ih =>
      rcases h'.parent_or_eq hp with rfl | hk
      · exact Or.inl (Below.step hp hb)
      · exact ih hk

/-! ### Well-formed arenas -/

/-- **The links of the arena agree.** -/
structure WellFormed (a : Arena α) : Prop where
  /-- What waits for a tenant is a slot, -/
  free_lt : ∀ s ∈ a.free, s < a.slots.size
  /-- which is vacant, -/
  free_vacant : ∀ s ∈ a.free, ∀ g, ¬ a.isLive ⟨s, g⟩
  /-- and waits once. -/
  free_nodup : a.free.Nodup
  /-- A child names its parent. -/
  of_mem_children : ∀ {p c}, a.isLive p → c ∈ a.children p → a.isLive c ∧ a.parent? c = some p
  /-- A node is a child of the node that it names as its parent. -/
  of_parent? : ∀ {c p}, a.isLive c → a.parent? c = some p → a.isLive p ∧ c ∈ a.children p
  /-- No node is a child twice. -/
  nodup_children : ∀ {p}, a.isLive p → (a.children p).Nodup
  /-- The way up from a node comes to an end. -/
  grounded : ∀ {n}, a.isLive n → a.Grounded n

/-- The only node without a parent is the root `r`, so that every way up ends there. -/
structure Rooted (a : Arena α) (r : Option NodeId) : Prop where
  isLive : ∀ {n}, r = some n → a.isLive n
  parent?_eq_none_iff : ∀ {n}, a.isLive n → (a.parent? n = none ↔ r = some n)

theorem Rooted.parent?_root (h : a.Rooted (some r)) : a.parent? r = none :=
  (h.parent?_eq_none_iff (h.isLive rfl)).2 rfl

namespace WellFormed

variable (hw : a.WellFormed)

include hw

theorem mem_children_iff (hp : a.isLive p) (hc : a.isLive c) :
    c ∈ a.children p ↔ a.parent? c = some p :=
  ⟨fun h => (hw.of_mem_children hp h).2, fun h => (hw.of_parent? hc h).2⟩

theorem isLive_of_mem (hp : a.isLive p) (hc : c ∈ a.children p) : a.isLive c :=
  (hw.of_mem_children hp hc).1

theorem parent?_of_mem (hp : a.isLive p) (hc : c ∈ a.children p) : a.parent? c = some p :=
  (hw.of_mem_children hp hc).2

theorem isLive_of_parent? (hc : a.isLive c) (h : a.parent? c = some p) : a.isLive p :=
  (hw.of_parent? hc h).1

theorem isLive_of_climb {l : List NodeId} (hn : a.isLive n) (h : a.Climb n l) :
    ∀ m ∈ l, a.isLive m := by
  induction h with
  | top => intro m hm; rwa [List.mem_singleton.1 hm]
  | step h _ ih =>
      intro m hm
      rcases List.mem_cons.1 hm with rfl | hm
      · exact hn
      · exact ih (hw.isLive_of_parent? hn h) m hm

/-- No way up is longer than the number of slots. -/
theorem length_climb_le {l : List NodeId} (hn : a.isLive n) (h : a.Climb n l) :
    l.length ≤ a.slots.size := by
  have hlive := hw.isLive_of_climb hn h
  have hinj : (l.map NodeId.slot).Nodup :=
    h.nodup.map_on fun x hx y hy he => eq_of_slot_eq (hlive x hx) (hlive y hy) he
  have hsub : l.map NodeId.slot ⊆ List.range a.slots.size := by
    intro s hs
    obtain ⟨m, hm, rfl⟩ := List.mem_map.1 hs
    exact List.mem_range.2 (slot_lt_of_isLive (hlive m hm))
  simpa using (hinj.subperm hsub).length_le

/-- The walk upwards has enough fuel. -/
theorem climb_ancestors (hn : a.isLive n) : a.Climb n (a.ancestors n) := by
  obtain ⟨l, hl⟩ := (hw.grounded hn).exists_climb
  have hlen := hw.length_climb_le hn hl
  rw [ancestors, hl.ancestorsF_eq (by omega)]
  exact hl

theorem length_ancestors_le (hn : a.isLive n) : (a.ancestors n).length ≤ a.slots.size :=
  hw.length_climb_le hn (hw.climb_ancestors hn)

theorem ancestors_of_none (hn : a.isLive n) (h : a.parent? n = none) : a.ancestors n = [n] :=
  (hw.climb_ancestors hn).unique (Climb.top h)

/-- One step of the walk upwards. -/
theorem ancestors_of_some (hn : a.isLive n) (h : a.parent? n = some p) :
    a.ancestors n = n :: a.ancestors p :=
  (hw.climb_ancestors hn).unique
    (Climb.step h (hw.climb_ancestors (hw.isLive_of_parent? hn h)))

/-- The walk upwards meets what the node is below. -/
theorem mem_ancestors_iff (hn : a.isLive n) : m ∈ a.ancestors n ↔ a.Below m n := by
  constructor
  · intro h
    have hg := hw.grounded hn
    induction hg with
    | top ht =>
        rw [hw.ancestors_of_none hn ht] at h
        obtain rfl := List.mem_singleton.1 h
        exact Below.self
    | step hp _ ih =>
        rw [hw.ancestors_of_some hn hp] at h
        rcases List.mem_cons.1 h with rfl | h
        · exact Below.self
        · exact Below.step hp (ih (hw.isLive_of_parent? hn hp) h)
  · intro h
    induction h with
    | self =>
        cases hp : a.parent? m with
        | none => simp [hw.ancestors_of_none hn hp]
        | some p => simp [hw.ancestors_of_some hn hp]
    | step hp _ ih =>
        rw [hw.ancestors_of_some hn hp]
        exact List.mem_cons_of_mem _ (ih (hw.isLive_of_parent? hn hp))

theorem isLive_of_below (hm : a.isLive m) (h : a.Below n m) : a.isLive n :=
  hw.isLive_of_climb hm (hw.climb_ancestors hm) n ((hw.mem_ancestors_iff hm).2 h)

/-- The number of nodes on the way up grows by one from a node to its children. -/
theorem length_ancestors_of_mem (hp : a.isLive p) (hc : c ∈ a.children p) :
    (a.ancestors c).length = (a.ancestors p).length + 1 := by
  obtain ⟨hlc, hpc⟩ := hw.of_mem_children hp hc
  rw [hw.ancestors_of_some hlc hpc, List.length_cons]

theorem length_ancestors_le_of_below (hm : a.isLive m) (h : a.Below n m) :
    (a.ancestors n).length ≤ (a.ancestors m).length := by
  induction h with
  | self => exact le_rfl
  | step hp _ ih =>
      rw [hw.ancestors_of_some hm hp, List.length_cons]
      exact Nat.le_succ_of_le (ih (hw.isLive_of_parent? hm hp))

/-- No node is below one of its children. -/
theorem not_below_parent (hc : a.isLive c) (hp : a.parent? c = some p) : ¬ a.Below c p := by
  intro h
  have h1 := hw.length_ancestors_le_of_below (hw.isLive_of_parent? hc hp) h
  rw [hw.ancestors_of_some hc hp, List.length_cons] at h1
  omega

/-! ### Walks downwards -/

theorem subtreeF_eq_of_le : ∀ (f g : Nat) {n : NodeId}, a.isLive n →
    a.slots.size ≤ f + (a.ancestors n).length → a.slots.size ≤ g + (a.ancestors n).length →
    a.subtreeF f n = a.subtreeF g n := by
  -- at the bottom of the fuel the node is as far down as can be, so it has no children
  have leaf : ∀ {n : NodeId}, a.isLive n → a.slots.size ≤ (a.ancestors n).length →
      a.children n = [] := by
    intro n hn hle
    refine List.eq_nil_iff_forall_not_mem.2 fun c hc => ?_
    have h1 := hw.length_ancestors_of_mem hn hc
    have h2 := hw.length_ancestors_le (hw.isLive_of_mem hn hc)
    omega
  intro f
  induction f with
  | zero =>
      intro g n hn hf _
      have hl : a.children n = [] := leaf hn (by omega)
      cases g with
      | zero => rfl
      | succ g => simp [subtreeF, hl]
  | succ f ih =>
      intro g n hn hf hg
      cases g with
      | zero =>
          have hl : a.children n = [] := leaf hn (by omega)
          simp [subtreeF, hl]
      | succ g =>
          rw [subtreeF_succ, subtreeF_succ]
          congr 1
          refine List.map_congr_left fun c hc => ?_
          have hlen := hw.length_ancestors_of_mem hn hc
          exact ih g (hw.isLive_of_mem hn hc) (by omega) (by omega)

/-- **One step of the walk downwards.** -/
theorem subtree_eq (hn : a.isLive n) :
    a.subtree n = .node n ((a.children n).map a.subtree) := by
  obtain ⟨f, hf⟩ : ∃ f, a.slots.size = f + 1 :=
    ⟨a.slots.size - 1, by have := slot_lt_of_isLive hn; omega⟩
  rw [subtree, hf, subtreeF_succ]
  congr 1
  refine List.map_congr_left fun c hc => ?_
  have hlen := hw.length_ancestors_of_mem hn hc
  have hpos : 0 < (a.ancestors n).length := by
    rw [List.length_pos_iff_exists_mem]
    exact ⟨n, (hw.mem_ancestors_iff hn).2 Below.self⟩
  exact hw.subtreeF_eq_of_le f a.slots.size (hw.isLive_of_mem hn hc) (by omega) (by omega)

/-- **Induction from the leaves upwards.** -/
theorem children_induction {P : NodeId → Prop}
    (step : ∀ n, a.isLive n → (∀ c ∈ a.children n, P c) → P n) : ∀ n, a.isLive n → P n := by
  -- induction on how far from the greatest possible depth the node is
  have key : ∀ (gap : Nat) (n : NodeId), a.isLive n →
      a.slots.size ≤ gap + (a.ancestors n).length → P n := by
    intro gap
    induction gap with
    | zero =>
        intro n hn hle
        refine step n hn fun c hc => ?_
        have h1 := hw.length_ancestors_of_mem hn hc
        have h2 := hw.length_ancestors_le (hw.isLive_of_mem hn hc)
        omega
    | succ gap ih =>
        intro n hn hle
        refine step n hn fun c hc => ih c (hw.isLive_of_mem hn hc) ?_
        have h1 := hw.length_ancestors_of_mem hn hc
        omega
  exact fun n hn => key a.slots.size n hn (by omega)

theorem preorder_eq (hn : a.isLive n) :
    a.preorder n = n :: (a.children n).flatMap a.preorder := by
  rw [preorder, hw.subtree_eq hn, RoseTree.preorder_node, List.flatMap_map]
  rfl

theorem postorder_eq (hn : a.isLive n) :
    a.postorder n = (a.children n).flatMap a.postorder ++ [n] := by
  rw [postorder, hw.subtree_eq hn, RoseTree.postorder_node, List.flatMap_map]
  rfl

theorem mem_preorder_self (hn : a.isLive n) : n ∈ a.preorder n := by
  rw [hw.preorder_eq hn]; exact List.mem_cons_self

/-- With a node the walk meets its children. -/
theorem mem_preorder_of_mem_children (hn : a.isLive n) (hp : p ∈ a.preorder n)
    (hc : c ∈ a.children p) : c ∈ a.preorder n := by
  revert hp
  refine hw.children_induction (P := fun n => p ∈ a.preorder n → c ∈ a.preorder n) ?_ n hn
  intro n hn ih hp
  rw [hw.preorder_eq hn] at hp ⊢
  rcases List.mem_cons.1 hp with rfl | hp
  · exact List.mem_cons_of_mem _
      (List.mem_flatMap.2 ⟨c, hc, hw.mem_preorder_self (hw.isLive_of_mem hn hc)⟩)
  · obtain ⟨b, hb, hpb⟩ := List.mem_flatMap.1 hp
    exact List.mem_cons_of_mem _ (List.mem_flatMap.2 ⟨b, hb, ih b hb hpb⟩)

/-- **The walk below a node meets the nodes below it.** -/
theorem mem_preorder_iff (hn : a.isLive n) :
    m ∈ a.preorder n ↔ a.isLive m ∧ a.Below n m := by
  constructor
  · refine hw.children_induction
      (P := fun n => m ∈ a.preorder n → a.isLive m ∧ a.Below n m) ?_ n hn
    intro n hn ih hm
    rw [hw.preorder_eq hn] at hm
    rcases List.mem_cons.1 hm with rfl | hm
    · exact ⟨hn, Below.self⟩
    · obtain ⟨c, hc, hmc⟩ := List.mem_flatMap.1 hm
      obtain ⟨hl, hb⟩ := ih c hc hmc
      exact ⟨hl, (Below.of_parent (hw.parent?_of_mem hn hc)).trans hb⟩
  · rintro ⟨hm, hb⟩
    induction hb with
    | self => exact hw.mem_preorder_self hn
    | step hp _ ih =>
        obtain ⟨hlp, hmem⟩ := hw.of_parent? hm hp
        exact hw.mem_preorder_of_mem_children hn (ih hlp) hmem

/-- Nothing is below two children of one node. -/
theorem child_unique_of_below {c' : NodeId} (hn : a.isLive n) (hc : c ∈ a.children n)
    (hc' : c' ∈ a.children n) (h : a.Below c m) (h' : a.Below c' m) : c = c' := by
  have key : ∀ {x y : NodeId}, x ∈ a.children n → y ∈ a.children n → a.Below x y → x = y := by
    intro x y hx hy hb
    rcases hb.parent_or_eq (hw.parent?_of_mem hn hy) with he | hb
    · exact he.symm
    · exact absurd hb
        (hw.not_below_parent (hw.isLive_of_mem hn hx) (hw.parent?_of_mem hn hx))
  rcases h.total h' with hb | hb
  · exact key hc hc' hb
  · exact (key hc' hc hb).symm

/-- **The walk below a node meets each node once.** -/
theorem nodup_preorder (hn : a.isLive n) : (a.preorder n).Nodup := by
  refine hw.children_induction (P := fun n => (a.preorder n).Nodup) ?_ n hn
  intro n hn ih
  rw [hw.preorder_eq hn]
  refine List.nodup_cons.2 ⟨fun hm => ?_, List.nodup_flatMap.2 ⟨ih, ?_⟩⟩
  · obtain ⟨c, hc, hmc⟩ := List.mem_flatMap.1 hm
    have hlc := hw.isLive_of_mem hn hc
    exact hw.not_below_parent hlc (hw.parent?_of_mem hn hc) ((hw.mem_preorder_iff hlc).1 hmc).2
  · refine (hw.nodup_children hn).imp_of_mem fun {c c'} hc hc' hne => ?_
    intro m hm hm'
    exact hne (hw.child_unique_of_below hn hc hc'
      ((hw.mem_preorder_iff (hw.isLive_of_mem hn hc)).1 hm).2
      ((hw.mem_preorder_iff (hw.isLive_of_mem hn hc')).1 hm').2)

/-- A node stands at its position among the children of its parent. -/
theorem getElem?_position (hc : a.isLive c) (hp : a.parent? c = some p) :
    (a.children p)[a.position c]? = some c := by
  have hmem : c ∈ a.children p := (hw.of_parent? hc hp).2
  obtain ⟨i, hi⟩ := Option.isSome_iff_exists.1 (List.isSome_idxOf?.2 hmem)
  rw [position, if_pos hc, hp]
  simp only [hi, Option.getD_some]
  obtain ⟨hlt, he, -⟩ := List.idxOf?_eq_some_iff.1 hi
  rw [List.getElem?_eq_getElem hlt, he]

end WellFormed

end TreeScript.Arena
