/-
**The types of the nodes that a script leaves.**

Nodes keep the types that they were made with.  A script changes labels only, and what it brings in
has the types of the destination.  The registry of the new tree is that of the source, so a type
that only the destination knows comes in with its nodes and is unknown to the tree that has them.

Main definitions:

* `TreeScript.Tree.Typed` — **the registry of a tree knows the types of its nodes**;
* `TreeScript.Registry.Agree` — two registries have the same type for a name, if both have one.

Main results:

* `TreeScript.Arena.exists_mem_of_mem_plant` — what is planted carries what stood in the rose tree;
* `TreeScript.Replay.Drawn.accepts` — each action keeps the types, or takes them from the
  destination;
* `TreeScript.kind_of_replay` — **a node has the type it had in the source, or one of the
  destination**;
* `TreeScript.replay_types` — **the registry knows the types that both sides know, and no others**;
* `TreeScript.not_typed_noting` — a node whose type is unknown to its tree.
-/

import TreeScript.Proofs.Replay.History
import TreeScript.Proofs.Tree.Built

set_option relaxedAutoImplicit false
set_option autoImplicit false

namespace TreeScript

/-! ### Registries and the types of nodes -/

/-- Two registries have the same type for a name, if both have one. -/
def Registry.Agree (r r' : Registry) : Prop :=
  ∀ name ty ty', r.get? name = some ty → r'.get? name = some ty' → ty = ty'

/-- **The registry of a tree knows the types of its nodes.** -/
def Tree.Typed (t : Tree) : Prop :=
  ∀ n kind, t.contains n → t.kind n = .ok kind → t.types.get? kind.name = some kind

/-- Registries in order of growth agree. -/
theorem Registry.Agree.of_prefix {r r' : Registry} (h : r.types <+: r'.types) : r.Agree r' := by
  obtain ⟨l, hl⟩ := h
  intro name ty ty' hty hty'
  rw [Registry.get?, ← hl, List.find?_append, ← Registry.get?, hty] at hty'
  exact Option.some.inj hty'

/-! ### What is planted -/

namespace Arena

variable {α κ : Type}

mutual
/-- **What is planted carries what stood in the rose tree.** -/
theorem exists_mem_of_mem_plant (t : RoseTree (κ × α)) {a : Arena α} {under : Option NodeId}
    (hw : a.WellFormed) (hu : ∀ p, under = some p → a.isLive p) :
    ∀ x ∈ (a.plant under t).2, ∃ e ∈ t.preorder, (a.plant under t).1.data? x.2 = some e.2 := by
  match t with
  | .node (key, d) ts =>
    have hs := grown_sprout hw hu d
    have hn := hs.isLive_new (List.mem_singleton_self _)
    obtain ⟨tops, h, -⟩ := grown_plantForest ts hs.wf hn
    intro x hx
    rcases List.mem_cons.1 hx with rfl | hx
    · have hdata : (a.sprout under d).data? a.nextId = some d := by
        cases under <;> simp [sprout, data?_alloc_nextId hw]
      exact ⟨(key, d), List.mem_cons_self, (h.data? hn).trans hdata⟩
    · obtain ⟨e, he, hd⟩ := exists_mem_of_mem_plantForest ts hs.wf hn x hx
      exact ⟨e, List.mem_cons_of_mem _ he, hd⟩

theorem exists_mem_of_mem_plantForest (ts : List (RoseTree (κ × α))) {a : Arena α} {p : NodeId}
    (hw : a.WellFormed) (hp : a.isLive p) : ∀ x ∈ (a.plantForest p ts).2,
      ∃ e ∈ RoseTree.preorderForest ts, (a.plantForest p ts).1.data? x.2 = some e.2 := by
  match ts with
  | [] => exact nofun
  | t :: ts =>
    have hu : ∀ q, some p = some q → a.isLive q := by rintro _ ⟨⟩; exact hp
    have h := grown_plant t hw hu
    obtain ⟨tops, h', -⟩ := grown_plantForest ts h.wf (h.isLive hp)
    intro x hx
    rcases List.mem_append.1 hx with hx | hx
    · obtain ⟨e, he, hd⟩ := exists_mem_of_mem_plant t hw hu x hx
      have hlive := h.isLive_new (List.mem_map_of_mem hx)
      exact ⟨e, List.mem_append_left _ he, (h'.data? hlive).trans hd⟩
    · obtain ⟨e, he, hd⟩ := exists_mem_of_mem_plantForest ts h.wf (h.isLive hp) x hx
      exact ⟨e, List.mem_append_right _ he, hd⟩
end

end Arena

/-! ### Trees whose registry knows the types -/

namespace Tree

variable {t u : Tree} {n p : NodeId} {i : Nat} {d : NodeData} {kind : NodeType}

theorem kind_eq_ok_iff : t.kind n = .ok kind ↔ ∃ d, t.arena.data? n = some d ∧ d.kind = kind := by
  unfold Tree.kind Tree.data
  rw [bind_eq_ok]
  cases hd : t.arena.data? n with
  | none => simp
  | some d => simpa using pure_eq_ok

theorem typed_single {types : Registry} (h : types.get? kind.name = some kind) (label : String) :
    (single types kind label).Typed := by
  intro n kind' hn hk
  rw [(wellFormed_single types kind label).contains_iff] at hn
  rcases (Arena.isLive_alloc_iff Arena.wellFormed_empty).1 hn with rfl | hn
  · obtain ⟨d, hd, rfl⟩ := kind_eq_ok_iff.1 hk
    obtain rfl := Option.some.inj
      ((Arena.data?_alloc_nextId Arena.wellFormed_empty).symm.trans hd)
    exact h
  · simp [Arena.isLive, Arena.empty] at hn

/-- A tree that knows its types still does with a new node of a type that it knows. -/
theorem Typed.place (h : t.Typed) (ht : t.WellFormed) (hd : t.types.get? d.kind.name = some d.kind)
    (hu : t.place p i d = .ok (n, u)) : u.Typed := by
  have hwf : u.WellFormed := ht.place hu
  rw [Tree.place, bind_eq_ok] at hu
  obtain ⟨e, he, hu⟩ := hu
  obtain ⟨rfl, rfl⟩ := Prod.mk.inj (pure_eq_ok.1 hu)
  have hnone : ∀ p, (none : Option NodeId) = some p → t.arena.isLive p := by
    intro q hq
    cases hq
  obtain ⟨q, -, rfl⟩ := Arena.exists_link_of_attach (Arena.grown_sprout ht.arena hnone d)
    (Arena.children_alloc_nextId ht.arena) he
  intro m kind hm hk
  rw [hwf.contains_iff, Arena.isLive_link] at hm
  obtain ⟨data, hdata, rfl⟩ := kind_eq_ok_iff.1 hk
  rw [Arena.data?_link] at hdata
  rcases (Arena.isLive_alloc_iff ht.arena).1 hm with rfl | hm
  · obtain rfl := Option.some.inj ((Arena.data?_alloc_nextId ht.arena).symm.trans hdata)
    exact hd
  · have hdata := (Arena.data?_alloc ht.arena hm).symm.trans hdata
    exact h m _ (ht.contains_iff.2 hm) (kind_eq_ok_iff.2 ⟨data, hdata, rfl⟩)

end Tree

/-! ### Types of nodes during a replay -/

namespace Replay

variable {a₀ : Arena NodeData} {r r' : Replay} {a : Action} {n p : NodeId} {k : Nat}
  {v : RoseTree (NodeId × NodeData)}

/-- The type of some node of the destination. -/
def Foreign (dst : Tree) (kind : NodeType) : Prop :=
  ∃ d data, dst.arena.isLive d ∧ dst.arena.data? d = some data ∧ data.kind = kind

/-- **Nodes have the types that they had in the source**, and what has been brought in has types of
the destination. -/
structure Drawn (a₀ : Arena NodeData) (r : Replay) : Prop where
  src : ∀ {n d}, r.arena.isLive n → a₀.isLive n → r.arena.data? n = some d →
    ∃ d₀, a₀.data? n = some d₀ ∧ d₀.kind = d.kind
  dst : ∀ {n d}, r.arena.isLive n → ¬ a₀.isLive n → r.arena.data? n = some d →
    Foreign r.dst d.kind

theorem foreign_of_data? {dst : Tree} {d : NodeId} {data : NodeData}
    (h : dst.arena.data? d = some data) : Foreign dst data.kind := by
  obtain ⟨node, hnode, rfl⟩ := Option.map_eq_some_iff.1 h
  -- an identity that is out of date reads the node that has its slot
  obtain ⟨q, hslot, hq⟩ := Arena.exists_isLive_of_node? hnode
  refine ⟨q, node.data, hq, ?_, rfl⟩
  rw [Arena.data?, Arena.node?, hslot]
  exact h

/-- Whoever has the nodes and what they carry from another replay has their types from it. -/
theorem Drawn.of_data? (h : Drawn a₀ r) (hlive : ∀ {n}, r'.arena.isLive n → r.arena.isLive n)
    (hdata : ∀ {n d}, r'.arena.isLive n → r'.arena.data? n = some d →
      ∃ d', r.arena.data? n = some d' ∧ d'.kind = d.kind)
    (hdst : r'.dst = r.dst) : Drawn a₀ r' where
  src := by
    intro n d hn h₀ hd
    obtain ⟨d', hd', hkind⟩ := hdata hn hd
    obtain ⟨d₀, hd₀, hkind₀⟩ := h.src (hlive hn) h₀ hd'
    exact ⟨d₀, hd₀, hkind₀.trans hkind⟩
  dst := by
    intro n d hn h₀ hd
    obtain ⟨d', hd', hkind⟩ := hdata hn hd
    rw [hdst, ← hkind]
    exact h.dst (hlive hn) h₀ hd'

section Steps

variable (h : Drawn a₀ r) (hs : r.Sound a₀)

include h hs

theorem Drawn.planted (hv : ∀ e ∈ v.preorder, Foreign r.dst e.2.kind) :
    Drawn a₀ (r.planted v) := by
  have hg := grown_planted hs.wf v
  exact
    { src := by
        intro n d hn h₀ hd
        rcases hg.isLive_iff.1 hn with hn | hn
        · exact h.src hn h₀ ((hg.data? hn).symm.trans hd)
        · exact absurd (hs.later.issued (Arena.issued_of_isLive h₀)) (hg.not_issued n hn)
      dst := by
        intro n d hn h₀ hd
        rcases hg.isLive_iff.1 hn with hn | hn
        · exact h.dst hn h₀ ((hg.data? hn).symm.trans hd)
        · obtain ⟨x, hx, rfl⟩ := List.mem_map.1 hn
          obtain ⟨e, he, hde⟩ := Arena.exists_mem_of_mem_plant v hs.wf (by simp) x hx
          obtain rfl := Option.some.inj (hd.symm.trans hde)
          exact hv e he }

theorem Drawn.grafted (hv : ∀ e ∈ v.preorder, Foreign r.dst e.2.kind) (p : NodeId) (k : Nat) :
    Drawn a₀ (r.grafted v p k) :=
  (h.planted hs hv).of_data? (fun hn => (Arena.isLive_link ..).symm.trans hn)
    (fun _ hd => ⟨_, (Arena.data?_link ..).symm.trans hd, rfl⟩) rfl

theorem Drawn.remove (hn : r.arena.isLive n) : Drawn a₀ (r.remove n) := by
  have hlive : ∀ {m}, (r.remove n).arena.isLive m ↔ r.arena.isLive m ∧ ¬ r.arena.Below n m := by
    intro m
    rw [arena_remove]
    exact Arena.isLive_removeSubtree_iff hs.wf hn
  refine h.of_data? (fun hm => (hlive.1 hm).1) (fun {m d} hm hd => ⟨d, ?_, rfl⟩) (dst_remove r n)
  rw [arena_remove, Arena.data?_removeSubtree hs.wf hn (hlive.1 hm).1 (hlive.1 hm).2] at hd
  exact hd

/-- **Each action keeps the types, or takes them from the destination.** -/
theorem Drawn.accepts (ha : r.Accepts a r') : Drawn a₀ r' := by
  cases ha with
  | @insert d p _ k data hp hk hd =>
      refine h.grafted hs (fun e he => ?_) p k
      obtain rfl := List.mem_singleton.1 he
      unfold Tree.data at hd
      split at hd
      case h_1 d' hd' => exact Except.ok.inj hd ▸ foreign_of_data? hd'
      case h_2 => cases hd
  | treeInsert hp hk hv =>
      exact h.grafted hs (fun e he => foreign_of_data? (Tree.data?_of_mem_view hv he)) _ _
  | root hr hv =>
      have hp := h.planted hs fun e he => foreign_of_data? (Tree.data?_of_mem_view hv he)
      exact ⟨hp.src, hp.dst⟩
  | @update s n label hn =>
      refine h.of_data? (fun hm => by simpa using hm) (fun {m d} hm hd => ?_) rfl
      rw [arena_relabeled, Arena.isLive_setData] at hm
      rw [arena_relabeled, Arena.data?_setData (hs.isLive hn) hm] at hd
      split at hd
      · obtain ⟨d', hd', rfl⟩ := Option.map_eq_some_iff.1 hd
        exact ⟨d', hd', rfl⟩
      · exact ⟨d, hd, rfl⟩
  | move hn hp hb hk =>
      exact h.of_data? (fun hm => by simpa using hm)
        (fun {m d} _ hd => ⟨d, by simpa using hd, rfl⟩) rfl
  | treeDelete hn => exact h.remove hs (hs.isLive hn)
  | delete hn hc => exact h.remove hs (hs.isLive hn)

end Steps

end Replay

/-! ### The tree that a script makes -/

variable {src dst t : Tree} {script : List Action} {n : NodeId} {kind : NodeType}

/-- **A node has the type it had in the source, or one of the destination.** -/
theorem kind_of_replay (hs : src.WellFormed) (hd : dst.WellFormed)
    (hr : replay src dst script = .ok t) (hn : t.contains n) (hk : t.kind n = .ok kind) :
    (src.contains n → src.kind n = .ok kind) ∧
    (¬ src.contains n → ∃ d, dst.contains d ∧ dst.kind d = .ok kind) := by
  have ht := wellFormed_of_replay hs hr
  rw [ht.contains_iff] at hn
  rw [hs.contains_iff]
  obtain ⟨r, root, hrun, -, rfl⟩ := replay_eq_ok_iff.1 hr
  have hstart : Replay.Drawn src.arena (Replay.start src dst) := by
    constructor
    · intro n d _ _ hd
      rw [Replay.arena_start] at hd
      exact ⟨d, hd, rfl⟩
    · intro n d hn h₀ _
      rw [Replay.arena_start] at hn
      exact absurd hn h₀
  have hdrawn := (Replay.sound_start hs dst).run_invariant
    (P := fun r => r.Drawn src.arena ∧ r.dst = dst)
    (fun hs ha h => ⟨h.1.accepts hs ha, ha.dst_eq.trans h.2⟩) hrun
    ⟨hstart, Replay.dst_start src dst⟩
  obtain ⟨-, hdrawn, rfl⟩ := hdrawn
  obtain ⟨data, hdata, rfl⟩ := Tree.kind_eq_ok_iff.1 hk
  constructor
  · intro h₀
    exact Tree.kind_eq_ok_iff.2 (hdrawn.src hn h₀ hdata)
  · intro h₀
    obtain ⟨d, data', hlive, hdata', hkind⟩ := hdrawn.dst hn h₀ hdata
    exact ⟨d, hd.contains_iff.2 hlive, Tree.kind_eq_ok_iff.2 ⟨data', hdata', hkind⟩⟩

/-- **The registry of the new tree is that of the source, and knows the types that both sides
know.**  It knows the types of all nodes that stay; the type of a node that was brought in it knows
too, or it has none of that name and only the destination has.  So the new tree knows all its types
if the source knows every name that the destination knows. -/
theorem replay_types (hs : src.Built) (hd : dst.Built) (htyped : src.Typed) (htyped' : dst.Typed)
    (hagree : src.types.Agree dst.types) (hr : replay src dst script = .ok t) :
    t.types = src.types ∧
    (∀ n kind, t.contains n → t.kind n = .ok kind →
      (src.contains n → t.types.get? kind.name = some kind) ∧
      (t.types.get? kind.name = some kind ∨
        t.types.get? kind.name = none ∧ dst.types.get? kind.name = some kind)) ∧
    ((∀ name ty, dst.types.get? name = some ty → ∃ ty', src.types.get? name = some ty') →
      t.Typed) := by
  have htypes : t.types = src.types := by
    obtain ⟨r, root, -, -, rfl⟩ := replay_eq_ok_iff.1 hr
    rfl
  have hkinds : ∀ n kind, t.contains n → t.kind n = .ok kind →
      (src.contains n → src.types.get? kind.name = some kind) ∧
      (src.types.get? kind.name = some kind ∨
        src.types.get? kind.name = none ∧ dst.types.get? kind.name = some kind) := by
    intro n kind hn hk
    obtain ⟨hold, hnew⟩ := kind_of_replay hs.wellFormed hd.wellFormed hr hn hk
    have hsrc : src.contains n → src.types.get? kind.name = some kind := fun h₀ =>
      htyped n kind h₀ (hold h₀)
    refine ⟨hsrc, ?_⟩
    by_cases h₀ : src.contains n
    · exact Or.inl (hsrc h₀)
    · obtain ⟨d, hdn, hdk⟩ := hnew h₀
      have hty := htyped' d kind hdn hdk
      cases hget : src.types.get? kind.name with
      | none => exact Or.inr ⟨rfl, hty⟩
      | some ty => exact Or.inl (congrArg some (hagree _ _ _ hget hty))
  rw [htypes]
  refine ⟨rfl, hkinds, fun hknown n kind hn hk => ?_⟩
  rw [htypes]
  rcases (hkinds n kind hn hk).2 with hty | ⟨hnone, hty⟩
  · exact hty
  · obtain ⟨ty, hty'⟩ := hknown _ _ hty
    rw [hnone] at hty'
    cases hty'

/-- A type that both sides know. -/
def itemType : NodeType := ⟨"item", 0⟩

/-- A type that only the destination knows. -/
def noteType : NodeType := ⟨"note", 1⟩

/-- A note is brought in. -/
def noting : List Action := [.insert ⟨1, 0⟩ (.src ⟨0, 0⟩) 0]

/-- A source without notes, and a destination with one. -/
theorem exists_noted : ∃ src dst, src.Built ∧ dst.Built ∧ src.Typed ∧ dst.Typed ∧
    src.types.Agree dst.types ∧ ∃ t, replay src dst noting = .ok t ∧ t.contains ⟨0, 0⟩ ∧
      t.contains ⟨1, 0⟩ ∧ t.kind ⟨0, 0⟩ = .ok itemType ∧ t.kind ⟨1, 0⟩ = .ok noteType ∧
      src.contains ⟨0, 0⟩ ∧ t.types.get? noteType.name = none := by
  let blank := Tree.single ⟨[itemType, noteType]⟩ itemType "new"
  have hblank : blank.Built := Tree.Built.single _ _ _
  obtain ⟨dst, hadd⟩ : ∃ dst, blank.addChild ⟨0, 0⟩ noteType "x" = .ok (⟨1, 0⟩, dst) := ⟨_, rfl⟩
  have hdst : dst.Typed := Tree.Typed.place (Tree.typed_single rfl _) hblank.wellFormed rfl hadd
  refine ⟨Tree.single ⟨[itemType]⟩ itemType "old", dst, Tree.Built.single _ _ _,
    hblank.addChild hadd, Tree.typed_single rfl _, hdst, ?_, ?_⟩
  · obtain rfl := (Prod.mk.inj (Except.ok.inj hadd)).2
    exact Registry.Agree.of_prefix ⟨[noteType], rfl⟩
  · obtain rfl := (Prod.mk.inj (Except.ok.inj hadd)).2
    exact ⟨_, rfl, by decide +kernel, by decide +kernel, rfl, rfl, by decide +kernel, rfl⟩

/-- The new tree knows the type of the root that stays, and not that of the note. -/
theorem replay_types_noting : ∃ src dst t, replay src dst noting = .ok t ∧
    t.types.get? itemType.name = some itemType ∧ dst.types.get? noteType.name = some noteType := by
  obtain ⟨src, dst, hs, hd, htyped, htyped', hagree, t, hr, h₀, h₁, hk₀, hk₁, hsrc, hnone⟩ :=
    exists_noted
  obtain ⟨-, hkinds, -⟩ := replay_types hs hd htyped htyped' hagree hr
  refine ⟨src, dst, t, hr, (hkinds _ _ h₀ hk₀).1 hsrc, ?_⟩
  rcases (hkinds _ _ h₁ hk₁).2 with hty | ⟨-, hty⟩
  · rw [hnone] at hty
    cases hty
  · exact hty

/-- **The note is in the new tree, which does not know its type.** -/
theorem not_typed_noting : ∃ src dst t, src.Built ∧ dst.Built ∧ src.Typed ∧ dst.Typed ∧
    src.types.Agree dst.types ∧ replay src dst noting = .ok t ∧ ¬ t.Typed := by
  obtain ⟨src, dst, hs, hd, htyped, htyped', hagree, t, hr, -, h₁, -, hk₁, -, hnone⟩ :=
    exists_noted
  refine ⟨src, dst, t, hs, hd, htyped, htyped', hagree, hr, fun ht => ?_⟩
  rw [ht _ _ h₁ hk₁] at hnone
  cases hnone

end TreeScript
