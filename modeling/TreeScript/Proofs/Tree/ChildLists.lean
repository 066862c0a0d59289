/-
**Trees by their child lists.**

A well-formed tree is an ordered tree: every node but the root stands in exactly one child list,
once, and every walk over the tree meets every node once.  An operation on a node of the tree
succeeds and changes one thing only: a child list that gets a new leaf, a child that goes with all
that is below it, or a label.

Main definitions:

* `TreeScript.Tree.Ordered` — **the child lists make an ordered tree**;
* `TreeScript.Tree.Inserts`, `TreeScript.Tree.Removes`, `TreeScript.Tree.Relabels` — what one
  operation changes, and that it changes nothing else.

Main results:

* `TreeScript.Tree.WellFormed.ordered` — **well-formed trees are ordered trees**;
* `TreeScript.Tree.WellFormed.exists_addChild`, `TreeScript.Tree.WellFormed.exists_insertChild`,
  `TreeScript.Tree.WellFormed.exists_removeChild`, `TreeScript.Tree.WellFormed.exists_setLabel` —
  **what the operations do**.
-/

import TreeScript.Proofs.Arena.Grafting
import TreeScript.Proofs.Results
import TreeScript.Proofs.Tree.WellFormed
import TreeScript.Tree.Edit

set_option relaxedAutoImplicit false
set_option autoImplicit false

namespace TreeScript.Tree

variable {t u : Tree} {n m p c k : NodeId} {i : Nat} {kind : NodeType} {label : String}
  {d : NodeData} {ns : List NodeId}

/-! ### Reading the links of a node -/

theorem parent?_eq_ok (hn : t.arena.isLive n) : t.parent? n = .ok (t.arena.parent? n) :=
  reading_eq_ok hn _

theorem children_eq_ok (hn : t.arena.isLive n) : t.children n = .ok (t.arena.children n) :=
  reading_eq_ok hn _

theorem children_eq_of_children_eq_ok (hn : t.arena.isLive n) (h : t.children n = .ok ns) :
    t.arena.children n = ns :=
  Except.ok.inj ((children_eq_ok hn).symm.trans h)

theorem childCount_eq_ok (hn : t.arena.isLive n) :
    t.childCount n = .ok (t.arena.children n).length := by
  rw [childCount, children_eq_ok hn]; rfl

theorem child?_eq_ok (hn : t.arena.isLive n) (i : Nat) :
    t.child? n i = .ok (t.arena.children n)[i]? := by
  rw [child?, children_eq_ok hn]; rfl

theorem data_congr (hn : t.arena.isLive n) (h : u.arena.data? n = t.arena.data? n) :
    u.data n = t.data n := by
  obtain ⟨d, hd⟩ := Arena.exists_data?_of_isLive hn
  rw [data_eq_ok hd, data_eq_ok (h.trans hd)]

theorem parent?_congr (hn : t.arena.isLive n) (hu : u.arena.isLive n)
    (h : u.arena.parent? n = t.arena.parent? n) : u.parent? n = t.parent? n := by
  rw [parent?_eq_ok hn, parent?_eq_ok hu, h]

theorem children_congr (hn : t.arena.isLive n) (hu : u.arena.isLive n)
    (h : u.arena.children n = t.arena.children n) : u.children n = t.children n := by
  rw [children_eq_ok hn, children_eq_ok hu, h]

/-! ### Ordered trees -/

/-- **The child lists make an ordered tree.** -/
structure Ordered (t : Tree) : Prop where
  /-- The root is a node of the tree, without a parent. -/
  contains_root : t.contains t.root
  parent?_root : t.parent? t.root = .ok none
  /-- What is up to date is a node of the tree. -/
  contains_of_isLive : ∀ n, t.arena.isLive n → t.contains n
  /-- Child lists are lists of nodes of the tree. -/
  contains_of_mem : ∀ p ns, t.contains p → t.children p = .ok ns → ∀ c ∈ ns, t.contains c
  /-- A node other than the root stands in the child list of its parent, at its position, -/
  exists_parent : ∀ n, t.contains n → n ≠ t.root → ∃ p ns, t.contains p ∧
    t.parent? n = .ok (some p) ∧ t.children p = .ok ns ∧ ns[t.position n]? = some n
  /-- and nowhere else. -/
  unique : ∀ p ns i n, t.contains p → t.children p = .ok ns → ns[i]? = some n →
    n ≠ t.root ∧ t.parent? n = .ok (some p) ∧ i = t.position n
  /-- The walks from the root meet every node of the tree once, and nothing else. -/
  count_preorder : ∀ n, t.preorder.count n = if t.contains n then 1 else 0
  count_postorder : ∀ n, t.postorder.count n = if t.contains n then 1 else 0
  /-- The number of nodes is the length of any list of all nodes. -/
  nodeCount_eq : ∀ l : List NodeId, l.Nodup → (∀ n, n ∈ l ↔ t.contains n) →
    t.nodeCount = l.length

namespace WellFormed

variable (ht : t.WellFormed)

include ht

theorem nodup_preorder : t.preorder.Nodup := ht.arena.nodup_preorder ht.isLive_root

theorem nodup_postorder : t.postorder.Nodup := ht.arena.nodup_postorder ht.isLive_root

/-- The walk back up to the root meets the nodes that are up to date, too. -/
theorem mem_postorder_iff : n ∈ t.postorder ↔ t.arena.isLive n := by
  rw [Tree.postorder, ht.arena.mem_postorder_iff ht.isLive_root]
  exact and_iff_left_of_imp fun hn => ht.rooted.below ht.arena hn

theorem exists_parent?_of_ne_root (hn : t.arena.isLive n) (hne : n ≠ t.root) :
    ∃ p, t.arena.parent? n = some p := by
  rw [← Option.ne_none_iff_exists']
  exact fun h => hne (Option.some.inj ((ht.rooted.parent?_eq_none_iff hn).1 h)).symm

/-- A child stands where its position says. -/
theorem eq_position (hp : t.arena.isLive p) (hi : (t.arena.children p)[i]? = some n) :
    i = t.position n := by
  obtain ⟨hn, hpn⟩ := ht.arena.of_mem_children hp (List.mem_of_getElem? hi)
  have hpos := ht.arena.getElem?_position hn hpn
  obtain ⟨hlt, he⟩ := List.getElem?_eq_some_iff.1 hi
  exact (List.getElem?_inj hlt (ht.arena.nodup_children hp)).1 (hi.trans hpos.symm)

/-- **Well-formed trees are ordered trees.** -/
theorem ordered : t.Ordered where
  contains_root := ht.contains_iff.2 ht.isLive_root
  parent?_root := by rw [parent?_eq_ok ht.isLive_root, ht.parent?_root]
  contains_of_isLive _ hn := ht.contains_iff.2 hn
  contains_of_mem := by
    intro p ns hp hns c hc
    have hp := ht.contains_iff.1 hp
    obtain rfl := children_eq_of_children_eq_ok hp hns
    exact ht.contains_iff.2 (ht.arena.isLive_of_mem hp hc)
  exists_parent := by
    intro n hn hne
    have hn := ht.contains_iff.1 hn
    obtain ⟨p, hp⟩ := ht.exists_parent?_of_ne_root hn hne
    have hlp := ht.arena.isLive_of_parent? hn hp
    exact ⟨p, _, ht.contains_iff.2 hlp, by rw [parent?_eq_ok hn, hp], children_eq_ok hlp,
      ht.arena.getElem?_position hn hp⟩
  unique := by
    intro p ns i n hp hns hi
    have hp := ht.contains_iff.1 hp
    obtain rfl := children_eq_of_children_eq_ok hp hns
    obtain ⟨hn, hpn⟩ := ht.arena.of_mem_children hp (List.mem_of_getElem? hi)
    exact ⟨ht.ne_root_of_parent? hpn, by rw [parent?_eq_ok hn, hpn], ht.eq_position hp hi⟩
  count_preorder n := by
    rw [ht.nodup_preorder.count, if_congr (ht.mem_preorder_iff.trans ht.contains_iff.symm) rfl rfl]
  count_postorder n := by
    rw [ht.nodup_postorder.count,
      if_congr (ht.mem_postorder_iff.trans ht.contains_iff.symm) rfl rfl]
  nodeCount_eq := by
    intro l hl hmem
    refine ((List.perm_ext_iff_of_nodup ht.nodup_preorder hl).2 fun n => ?_).length_eq
    rw [ht.mem_preorder_iff, hmem, ht.contains_iff]

end WellFormed

/-! ### What an operation changes -/

/-- **`u` is `t` with a new leaf `n` as child `i` of `p`**, and nothing else is changed. -/
structure Inserts (t u : Tree) (p : NodeId) (i : Nat) (d : NodeData) (n : NodeId) : Prop where
  root : u.root = t.root
  types : u.types = t.types
  contains_iff : ∀ k, u.contains k ↔ t.contains k ∨ k = n
  not_contains : ¬ t.contains n
  data : u.data n = .ok d
  parent? : u.parent? n = .ok (some p)
  leaf : u.children n = .ok []
  /-- The new node is child `i` of `p`, and the children from there on come one place later. -/
  children : ∃ ns, t.children p = .ok ns ∧ i ≤ ns.length ∧ u.children p = .ok (ns.insertIdx i n)
  /-- The others are as they were. -/
  data_eq : ∀ k, t.contains k → u.data k = t.data k
  parent?_eq : ∀ k, t.contains k → u.parent? k = t.parent? k
  children_eq : ∀ k, t.contains k → k ≠ p → u.children k = t.children k

/-- **`u` is `t` without child `i` of `p`, which was `c`, and what is below it**; nothing else is
changed. -/
structure Removes (t u : Tree) (p : NodeId) (i : Nat) (c : NodeId) : Prop where
  root : u.root = t.root
  types : u.types = t.types
  /-- What goes is `c` and what is below it. -/
  subtree : ∃ below, t.descendants c = .ok below ∧
    ∀ k, u.contains k ↔ t.contains k ∧ k ∉ below
  contains_parent : u.contains p
  children : ∃ ns, t.children p = .ok ns ∧ ns[i]? = some c ∧ u.children p = .ok (ns.eraseIdx i)
  /-- The others are as they were. -/
  data_eq : ∀ k, u.contains k → u.data k = t.data k
  parent?_eq : ∀ k, u.contains k → u.parent? k = t.parent? k
  children_eq : ∀ k, u.contains k → k ≠ p → u.children k = t.children k

/-- **`u` is `t` with another label at `n`**, and nothing else is changed. -/
structure Relabels (t u : Tree) (n : NodeId) (label : String) : Prop where
  root : u.root = t.root
  types : u.types = t.types
  contains_iff : ∀ k, u.contains k ↔ t.contains k
  data : ∃ d, t.data n = .ok d ∧ u.data n = .ok { d with label }
  /-- The others are as they were. -/
  data_eq : ∀ k, t.contains k → k ≠ n → u.data k = t.data k
  parent?_eq : ∀ k, t.contains k → u.parent? k = t.parent? k
  children_eq : ∀ k, t.contains k → u.children k = t.children k

namespace WellFormed

variable (ht : t.WellFormed)

include ht

/-! ### A new leaf -/

/-- **A new leaf changes one child list.**  It is grafted like the copy of a leaf. -/
theorem inserts_of_grafted {e : Arena NodeData} (hp : t.arena.isLive p)
    (hi : i ≤ (t.arena.children p).length) (hr : e.Rooted (some t.root))
    (hg : Arena.Grafted t.arena e (fun _ : Unit => []) (fun _ => some d) [((), n)] p i n) :
    t.Inserts { t with arena := e } p i d n := by
  have hu : WellFormed { t with arena := e } := ⟨hg.wf, hr⟩
  have hn : e.isLive n := hg.isLive_new (List.mem_singleton_self _)
  have hlive : ∀ {k}, t.contains k → t.arena.isLive k ∧ e.isLive k := fun hk =>
    ⟨ht.contains_iff.1 hk, hg.isLive (ht.contains_iff.1 hk)⟩
  obtain ⟨hdata, hchildren⟩ := hg.copied () n (List.mem_singleton_self _)
  exact
    { root := rfl
      types := rfl
      contains_iff := by
        intro k
        rw [hu.contains_iff, ht.contains_iff, hg.isLive_iff]
        simp
      not_contains := by
        rw [ht.contains_iff]
        exact hg.not_isLive (List.mem_singleton_self _)
      data := data_eq_ok hdata
      parent? := by rw [parent?_eq_ok hn, hg.parent?_top]
      leaf := by rw [children_eq_ok hn, List.forall₂_nil_left_iff.1 hchildren]
      children := by
        refine ⟨_, children_eq_ok hp, hi, ?_⟩
        rw [children_eq_ok (hg.isLive hp), hg.children hp, if_pos rfl, Nat.min_eq_left hi]
      data_eq := fun k hk => data_congr (hlive hk).1 (hg.data? (hlive hk).1)
      parent?_eq := fun k hk =>
        parent?_congr (hlive hk).1 (hlive hk).2 (hg.parent? (hlive hk).1)
      children_eq := fun k hk hne =>
        children_congr (hlive hk).1 (hlive hk).2 ((hg.children (hlive hk).1).trans (if_neg hne)) }

theorem exists_place (hp : t.arena.isLive p) (hi : i ≤ (t.arena.children p).length)
    (d : NodeData) : ∃ n u, t.place p i d = .ok (n, u) ∧ t.Inserts u p i d n := by
  have hg : Arena.Grown t.arena (t.arena.alloc d) none [t.arena.nextId] [t.arena.nextId] := by
    have hunder : ∀ q, none = some q → t.arena.isLive q := by simp
    exact Arena.grown_sprout ht.arena hunder d
  refine ⟨_, { t with arena := (t.arena.alloc d).link p i t.arena.nextId }, ?_,
    ht.inserts_of_grafted hp hi (ht.rooted.graft hg hp i)
      (Arena.grafted_plant (v := .node ((), d) []) ht.arena hp
        (Depicts.node rfl rfl (by simp)) i)⟩
  rw [Tree.place, hg.attach_eq ht.arena hp i]
  rfl

/-- A new last child can be put under every node. -/
theorem exists_addChild (hp : t.contains p) (kind : NodeType) (label : String) :
    ∃ n u ns, t.addChild p kind label = .ok (n, u) ∧ t.children p = .ok ns ∧
      t.Inserts u p ns.length ⟨kind, label⟩ n := by
  have hp := ht.contains_iff.1 hp
  obtain ⟨n, u, hplace, hins⟩ := ht.exists_place hp le_rfl ⟨kind, label⟩
  exact ⟨n, u, _, hplace, children_eq_ok hp, hins⟩

/-- A new child can be put under every node at every index up to the number of children. -/
theorem exists_insertChild (hp : t.contains p) (hns : t.children p = .ok ns)
    (hi : i ≤ ns.length) (kind : NodeType) (label : String) :
    ∃ n u, t.insertChild p i kind label = .ok (n, u) ∧ t.Inserts u p i ⟨kind, label⟩ n := by
  have hp := ht.contains_iff.1 hp
  obtain rfl := children_eq_of_children_eq_ok hp hns
  obtain ⟨n, u, hplace, hins⟩ := ht.exists_place hp hi ⟨kind, label⟩
  refine ⟨n, u, ?_, hins⟩
  rw [Tree.insertChild, childCount_eq_ok hp, bind_ok, if_pos hi, hplace]

/-! ### A child that goes -/

/-- **A child that goes takes along what is below it.** -/
theorem removes (hp : t.arena.isLive p) (hi : (t.arena.children p)[i]? = some c) :
    t.Removes { t with arena := t.arena.removeSubtree c } p i c := by
  obtain ⟨hlt, hget⟩ := List.getElem?_eq_some_iff.1 hi
  obtain ⟨hc, hpc⟩ := ht.arena.of_mem_children hp (List.mem_of_getElem? hi)
  have hlive := fun k => Arena.isLive_removeSubtree_iff (k := k) ht.arena hc
  have hrooted := ht.rooted.removeSubtree ht.arena hc
  rw [if_neg fun he => ht.ne_root_of_parent? hpc (Option.some.inj he).symm] at hrooted
  have hu : WellFormed { t with arena := t.arena.removeSubtree c } :=
    ⟨ht.arena.removeSubtree hc, hrooted⟩
  have hpu : (t.arena.removeSubtree c).isLive p :=
    (hlive p).2 ⟨hp, ht.arena.not_below_parent hc hpc⟩
  exact
    { root := rfl
      types := rfl
      subtree := by
        refine ⟨_, descendants_eq_ok hc, fun k => ?_⟩
        rw [hu.contains_iff, ht.contains_iff, hlive, ht.arena.mem_preorder_iff hc]
        exact and_congr_right fun hk => not_congr (and_iff_right hk).symm
      contains_parent := hu.contains_iff.2 hpu
      children := by
        refine ⟨_, children_eq_ok hp, hi, ?_⟩
        rw [children_eq_ok hpu, Arena.children_removeSubtree ht.arena hc hp
          ((hlive p).1 hpu).2, ← hget, (ht.arena.nodup_children hp).erase_getElem i hlt]
      data_eq := by
        intro k hk
        obtain ⟨hk, hb⟩ := (hlive k).1 (hu.contains_iff.1 hk)
        exact data_congr hk (Arena.data?_removeSubtree ht.arena hc hk hb)
      parent?_eq := by
        intro k hk
        have hku := hu.contains_iff.1 hk
        obtain ⟨hk, hb⟩ := (hlive k).1 hku
        exact parent?_congr hk hku (Arena.parent?_removeSubtree ht.arena hc hk hb)
      children_eq := by
        intro k hk hne
        have hku := hu.contains_iff.1 hk
        obtain ⟨hk, hb⟩ := (hlive k).1 hku
        refine children_congr hk hku
          ((Arena.children_removeSubtree ht.arena hc hk hb).trans (List.erase_of_not_mem ?_))
        -- the child stands in the child list of `p` only
        intro hmem
        rw [ht.arena.parent?_of_mem hk hmem] at hpc
        exact hne (Option.some.inj hpc) }

/-- A child that is there can be taken out, and nothing happens if there is none. -/
theorem exists_removeChild (hp : t.contains p) (hns : t.children p = .ok ns) (i : Nat) :
    (∀ c, ns[i]? = some c →
      ∃ u, t.removeChild p i = .ok (some c, u) ∧ t.Removes u p i c) ∧
    (ns[i]? = none → t.removeChild p i = .ok (none, t)) := by
  have hp := ht.contains_iff.1 hp
  obtain rfl := children_eq_of_children_eq_ok hp hns
  constructor
  · intro c hc
    refine ⟨_, ?_, ht.removes hp hc⟩
    rw [Tree.removeChild, child?_eq_ok hp, bind_ok, hc]
    rfl
  · intro hc
    rw [Tree.removeChild, child?_eq_ok hp, bind_ok, hc]
    rfl

/-! ### A new label -/

/-- **A new label changes nothing else.** -/
theorem exists_setLabel (hn : t.contains n) (label : String) :
    ∃ u, t.setLabel n label = .ok u ∧ t.Relabels u n label := by
  have hn := ht.contains_iff.1 hn
  obtain ⟨d, hd⟩ := Arena.exists_data?_of_isLive hn
  let relabel : NodeData → NodeData := fun d => { d with label }
  have hu : WellFormed { t with arena := t.arena.setData n relabel } :=
    ⟨ht.arena.setData n _, ht.rooted.setData n _⟩
  have hlive : ∀ {k}, t.contains k → (t.arena.setData n relabel).isLive k := fun hk => by
    rw [Arena.isLive_setData]; exact ht.contains_iff.1 hk
  have hdata : ∀ {k}, t.contains k → (t.arena.setData n relabel).data? k =
      if k = n then (t.arena.data? k).map relabel else t.arena.data? k :=
    fun hk => Arena.data?_setData hn (ht.contains_iff.1 hk)
  refine ⟨{ t with arena := t.arena.setData n relabel }, ?_, ?_⟩
  · rw [Tree.setLabel, data_eq_ok hd]; rfl
  exact
    { root := rfl
      types := rfl
      contains_iff := by
        intro k
        rw [hu.contains_iff, ht.contains_iff, Arena.isLive_setData]
      data := by
        refine ⟨d, data_eq_ok hd, data_eq_ok ?_⟩
        exact (hdata (ht.contains_iff.2 hn)).trans (by rw [if_pos rfl, hd]; rfl)
      data_eq := by
        intro k hk hne
        exact data_congr (ht.contains_iff.1 hk) ((hdata hk).trans (if_neg hne))
      parent?_eq := by
        intro k hk
        exact parent?_congr (ht.contains_iff.1 hk) (hlive hk) (Arena.parent?_setData _ _ _ _)
      children_eq := by
        intro k hk
        exact children_congr (ht.contains_iff.1 hk) (hlive hk) (Arena.children_setData _ _ _ _) }

end WellFormed

end TreeScript.Tree
