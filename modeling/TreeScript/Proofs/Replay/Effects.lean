/-
**What an action does to the tree in the making.**

Every action that is accepted makes one edit, at the nodes that it names: it puts a new leaf or a
copy of a subtree among the children of a node, makes such a copy the whole tree, gives a node
another label, puts a subtree among the children of another node, or takes one out.  What is
there before and after the edit is otherwise as it was: every node keeps its identity, its parent,
what it carries, and the order of its children.

Main definitions:

* `TreeScript.Replay.Others` — **what an edit does not name is as it was**;
* `TreeScript.Replay.Gains`, `TreeScript.Replay.Relabels`, `TreeScript.Replay.Shifts`,
  `TreeScript.Replay.Loses` — what the edits change;
* `TreeScript.Replay.Performs` — **the edit that an action stands for**.

Main results:

* `TreeScript.Tree.alike_of_copiedBy` — a copy of a subtree is isomorphic to it;
* `TreeScript.Replay.Sound.performs` — an action that is accepted makes its edit;
* `TreeScript.Replay.step_performs` — **so it is in every state that a script leads to**.
-/

import TreeScript.Proofs.Replay.Integrity
import TreeScript.Proofs.Tree.Isomorphic

set_option relaxedAutoImplicit false
set_option autoImplicit false

namespace TreeScript

/-! ### Subtrees -/

/-- **A node below which no list of children is changed keeps its subtree.** -/
theorem Arena.subtree_congr {α β : Type} {a : Arena α} {b : Arena β} {n : NodeId}
    (ha : a.WellFormed) (hb : b.WellFormed) (hn : a.isLive n)
    (h : ∀ m, a.isLive m → a.Below n m → b.isLive m ∧ b.children m = a.children m) :
    b.subtree n = a.subtree n := by
  refine ha.children_induction (P := fun m => a.Below n m → b.subtree m = a.subtree m) ?_ n hn
    Below.self
  intro m hm ih hbelow
  obtain ⟨hlive, hchildren⟩ := h m hm hbelow
  rw [hb.subtree_eq hlive, ha.subtree_eq hm, hchildren]
  refine congrArg (RoseTree.node m) (List.map_congr_left fun c hc => ih c hc ?_)
  exact Below.step (ha.parent?_of_mem hm hc) hbelow

/-- **A copy of a subtree is isomorphic to it.** -/
theorem Tree.alike_of_copiedBy {t u : Tree} {pairs : List (NodeId × NodeId)} {x n : NodeId}
    (ht : t.WellFormed) (hu : u.WellFormed)
    (h : Arena.CopiedBy u.arena.children u.arena.data? pairs t.arena)
    (hlive : ∀ n ∈ pairs.map Prod.snd, t.arena.isLive n) (hx : u.arena.isLive x)
    (hxn : (x, n) ∈ pairs) : t.Alike u n x := by
  revert n
  refine hu.arena.children_induction
    (P := fun x => ∀ {n}, (x, n) ∈ pairs → t.Alike u n x) ?_ x hx
  intro x hx ih n hxn
  obtain ⟨hdata, hchildren⟩ := h x n hxn
  refine (alike_iff ht hu (hlive n (List.mem_map_of_mem hxn)) hx).2 ⟨hdata, List.Forall₂.flip ?_⟩
  exact (forall₂_and_mem hchildren ih).imp fun _ _ hc => hc.2 hc.1

namespace Replay

variable {r r' : Replay} {a : Action} {a₀ : Arena NodeData} {src dst : Tree} {n p s d : NodeId}
  {k : Nat} {label : String} {before : List Action}

/-! ### Edits -/

/-- **What an edit does not name is as it was**: what is there before and after it has the parent
that it had, apart from `shifted`, carries what it carried, apart from `relabeled`, and has the
children that it had, in the same order, unless it is in `parents`. -/
structure Others (r r' : Replay) (shifted relabeled : Option NodeId) (parents : List NodeId) :
    Prop where
  parent? : ∀ m ∈ r.nodes, m ∈ r'.nodes → some m ≠ shifted →
    r'.arena.parent? m = r.arena.parent? m
  data? : ∀ m ∈ r.nodes, m ∈ r'.nodes → some m ≠ relabeled →
    r'.arena.data? m = r.arena.data? m
  children : ∀ m ∈ r.nodes, m ∈ r'.nodes → m ∉ parents →
    r'.arena.children m = r.arena.children m

/-- **`r'` is `r` with the new nodes `ns`**, a subtree whose topmost node `n` is child `k` of
`p`. -/
structure Gains (r r' : Replay) (p : NodeId) (k : Nat) (n : NodeId) (ns : List NodeId) :
    Prop where
  root : r'.root = r.root
  /-- The new nodes have never been there. -/
  not_issued : ∀ m ∈ ns, ¬ r.arena.Issued m
  mem_nodes_iff : ∀ m, m ∈ r'.nodes ↔ m ∈ r.nodes ∨ m ∈ ns
  preorder : r'.arena.preorder n = ns
  parent? : r'.arena.parent? n = some p
  position_le : k ≤ (r.arena.children p).length
  children : r'.arena.children p = (r.arena.children p).insertIdx k n
  others : Others r r' none none [p]

/-- The topmost of the new nodes is one of them. -/
theorem Gains.mem {ns : List NodeId} (h : Gains r r' p k n ns) : n ∈ ns := by
  have hvalue : ∀ t : RoseTree NodeId, t.value ∈ t.preorder := by
    rintro ⟨v, ts⟩
    rw [RoseTree.preorder_node]
    exact List.mem_cons_self
  have hmem := hvalue (r'.arena.subtree n)
  rw [Arena.value_subtree] at hmem
  rw [← h.preorder]
  exact hmem

/-- **`r'` is `r` with another label at `n`.** -/
structure Relabels (r r' : Replay) (n : NodeId) (label : String) : Prop where
  root : r'.root = r.root
  mem_nodes_iff : ∀ m, m ∈ r'.nodes ↔ m ∈ r.nodes
  data? : ∃ data, r.arena.data? n = some data ∧ r'.arena.data? n = some { data with label }
  others : Others r r' none (some n) []

/-- **`r'` is `r` with `n`, which was a child of `q`, as child `k` of `p`**; `p` and `q` may be the
same node, and `k` counts the children that are there when `n` has been taken away. -/
structure Shifts (r r' : Replay) (n q p : NodeId) (k : Nat) : Prop where
  root : r'.root = r.root
  mem_nodes_iff : ∀ m, m ∈ r'.nodes ↔ m ∈ r.nodes
  parent?_before : r.arena.parent? n = some q
  parent? : r'.arena.parent? n = some p
  position_le : k ≤ ((r.arena.children p).erase n).length
  children : r'.arena.children p = ((r.arena.children p).erase n).insertIdx k n
  children_before : q ≠ p → r'.arena.children q = (r.arena.children q).erase n
  /-- What is below `n` is as it was. -/
  subtree : r'.arena.subtree n = r.arena.subtree n
  others : Others r r' (some n) none [p, q]

/-- **`r'` is `r` without `n` and what is below it.** -/
structure Loses (r r' : Replay) (n : NodeId) : Prop where
  root : r'.root = if r.root = some n then none else r.root
  mem_nodes_iff : ∀ m, m ∈ r'.nodes ↔ m ∈ r.nodes ∧ m ∉ r.arena.preorder n
  children : ∀ q, r.arena.parent? n = some q →
    q ∈ r'.nodes ∧ r'.arena.children q = (r.arena.children q).erase n
  others : Others r r' none none (r.arena.parent? n).toList

/-- In the tree as it is, the subtree at `n` is isomorphic to the one of `dst` at `d`. -/
def Mirrors (r : Replay) (dst : Tree) (n d : NodeId) : Prop :=
  ∀ types, ∃ t, r.finish types = .ok t ∧ t.isIsomorphic n dst d = .ok true

/-- **The edit that an action stands for**, when new nodes are read from `dst`. -/
inductive Performs (dst : Tree) (r : Replay) : Action → Replay → Prop where
  | insert {d p n : NodeId} {parent : NodeRef} {k : Nat} {data : NodeData} {r' : Replay}
      (hp : r.resolve parent = .ok p) (hgain : Gains r r' p k n [n])
      (hread : dst.data d = .ok data) (hdata : r'.arena.data? n = some data)
      (hleaf : r'.arena.children n = []) : Performs dst r (.insert d parent k) r'
  | treeInsert {d p n : NodeId} {parent : NodeRef} {k : Nat} {ns : List NodeId} {r' : Replay}
      (hp : r.resolve parent = .ok p) (hgain : Gains r r' p k n ns)
      (hcopy : r'.Mirrors dst n d) : Performs dst r (.treeInsert d (some parent) k) r'
  | root {d n : NodeId} {k : Nat} {r' : Replay} (hroot : r.root = none) (hnone : r.nodes = [])
      (hroot' : r'.root = some n) (hnodes : r'.nodes = r'.arena.preorder n)
      (hparent : r'.arena.parent? n = none) (hcopy : r'.Mirrors dst n d) :
      Performs dst r (.treeInsert d none k) r'
  | update {s n : NodeId} {label : String} {r' : Replay} (hn : r.resolve (.src s) = .ok n)
      (hlabel : Relabels r r' n label) : Performs dst r (.update s label) r'
  | move {s n q p : NodeId} {parent : NodeRef} {k : Nat} {r' : Replay}
      (hn : r.resolve (.src s) = .ok n) (hp : r.resolve parent = .ok p)
      (hshift : Shifts r r' n q p k) : Performs dst r (.move s parent k) r'
  | treeDelete {s n : NodeId} {r' : Replay} (hn : r.resolve (.src s) = .ok n)
      (hloss : Loses r r' n) : Performs dst r (.treeDelete s) r'
  | delete {s n : NodeId} {r' : Replay} (hn : r.resolve (.src s) = .ok n)
      (hleaf : r.arena.preorder n = [n]) (hloss : Loses r r' n) : Performs dst r (.delete s) r'

namespace Sound

variable (h : r.Sound a₀)

include h

/-! ### What comes -/

/-- The tree in the making has a root as long as there is a node. -/
theorem exists_finish_eq (hn : r.arena.isLive n) (types : Registry) :
    ∃ t, r.finish types = .ok t ∧ t.WellFormed ∧ t.arena = r.arena := by
  obtain ⟨root, hroot, -⟩ := h.rooted.exists_below h.wf hn
  exact ⟨_, finish_eq_ok_iff.2 ⟨root, hroot, rfl⟩, ⟨h.wf, hroot ▸ h.rooted⟩, rfl⟩

/-- **What is a copy mirrors its original.** -/
theorem mirrors {pairs : List (NodeId × NodeId)} (hd : dst.WellFormed)
    (hc : Arena.CopiedBy dst.arena.children dst.arena.data? pairs r.arena)
    (hlive : ∀ n ∈ pairs.map Prod.snd, r.arena.isLive n) (hdl : dst.arena.isLive d)
    (hdn : (d, n) ∈ pairs) : r.Mirrors dst n d := by
  intro types
  obtain ⟨t, hfinish, ht, harena⟩ :=
    h.exists_finish_eq (hlive n (List.mem_map_of_mem hdn)) types
  exact ⟨t, hfinish, Tree.alike_of_copiedBy ht hd (harena ▸ hc) (harena ▸ hlive) hdl hdn⟩

/-- **What is grafted is new, and nothing else changes.** -/
theorem gains_grafted {C : NodeId → List NodeId} {D : NodeId → Option NodeData}
    {v : RoseTree (NodeId × NodeData)} (hv : Depicts C D v) (hp : r.arena.isLive p)
    (hk : k ≤ (r.arena.children p).length)
    (hpre : (r.grafted v p k).arena.preorder r.arena.nextId =
      (r.arena.plant none v).2.map Prod.snd) :
    Gains r (r.grafted v p k) p k r.arena.nextId ((r.arena.plant none v).2.map Prod.snd) := by
  have hg := Arena.grafted_plant h.wf hp hv k
  have h' := h.grafted hp v k
  have hlive : ∀ {m}, m ∈ r.nodes → r.arena.isLive m := h.mem_nodes_iff.1
  exact
    { root := rfl
      not_issued := (grown_planted h.wf v).not_issued
      mem_nodes_iff := by
        intro m
        rw [h'.mem_nodes_iff, h.mem_nodes_iff]
        exact hg.isLive_iff
      preorder := hpre
      parent? := hg.parent?_top
      position_le := hk
      children := by
        refine (hg.children hp).trans ?_
        rw [if_pos rfl, Nat.min_eq_left hk]
      others :=
        { parent? := fun m hm _ _ => hg.parent? (hlive hm)
          data? := fun m hm _ _ => hg.data? (hlive hm)
          children := fun m hm _ hne =>
            (hg.children (hlive hm)).trans (if_neg fun he => hne (List.mem_singleton.2 he)) } }

theorem performs_insert {data : NodeData} {parent : NodeRef} (hp : r.live? parent = some p)
    (hk : k ≤ (r.arena.children p).length) (hd : r.dst.data d = .ok data) :
    Performs r.dst r (.insert d parent k) (r.grafted (.node (d, data) []) p k) := by
  have hlp := h.isLive hp
  have hv : Depicts (fun _ : NodeId => []) (fun _ => some data) (.node (d, data) []) :=
    Depicts.node rfl rfl (by simp)
  have hg := Arena.grafted_plant h.wf hlp hv k
  obtain ⟨hdata, hchildren⟩ := hg.copied d r.arena.nextId (List.mem_singleton_self _)
  have hleaf := List.forall₂_nil_left_iff.1 hchildren
  have hpre : (r.grafted (.node (d, data) []) p k).arena.preorder r.arena.nextId =
      [r.arena.nextId] := by
    have h' := h.grafted hlp (.node (d, data) []) k
    refine (h'.wf.preorder_eq (hg.isLive_new hg.mem_top)).trans ?_
    exact congrArg (r.arena.nextId :: List.flatMap _ ·) hleaf
  exact .insert (resolve_iff.2 hp) (h.gains_grafted hv hlp hk hpre) hd hdata hleaf

section Subtree

variable (hd : r.dst.WellFormed) (hdl : r.dst.arena.isLive d) {v : RoseTree (NodeId × NodeData)}
  (hv : r.dst.view d = .ok v)

include hd hdl hv

theorem performs_treeInsert {parent : NodeRef} (hp : r.live? parent = some p)
    (hk : k ≤ (r.arena.children p).length) :
    Performs r.dst r (.treeInsert d (some parent) k) (r.grafted v p k) := by
  have hlp := h.isLive hp
  obtain ⟨hdepicts, hids⟩ := hd.depicts_of_view hdl hv
  have hg := Arena.grafted_plant h.wf hlp hdepicts k
  have htop := Arena.mem_plant_subtree hids r.arena none
  have hpre := hg.copied.preorder_eq hd.arena hg.wf (fun n hn => hg.isLive_new hn) hdl
    (Arena.map_fst_plant_subtree hids r.arena none) htop
  exact .treeInsert (resolve_iff.2 hp) (h.gains_grafted hdepicts hlp hk hpre)
    ((h.grafted hlp v k).mirrors hd hg.copied (fun n hn => hg.isLive_new hn) hdl htop)

theorem performs_root (hr : r.root = none) :
    Performs r.dst r (.treeInsert d none k) { r.planted v with root := some r.arena.nextId } := by
  obtain ⟨hdepicts, hids⟩ := hd.depicts_of_view hdl hv
  have hg := grown_planted h.wf v
  have hc : Arena.CopiedBy r.dst.arena.children r.dst.arena.data? (r.arena.plant none v).2
      (r.planted v).arena := Arena.copiedBy_plant v hdepicts h.wf (by simp)
  refine .root hr ?_ rfl rfl (hg.parent?_tops _ (List.mem_singleton_self _))
    ((h.planted_root hr v).mirrors hd hc (fun n hn => hg.isLive_new hn) hdl
      (Arena.mem_plant_subtree hids r.arena none))
  rw [nodes, hr]

end Subtree

/-! ### What stays -/

theorem relabels (hn : r.arena.isLive n) (label : String) :
    Relabels r (r.relabeled n label) n label where
  root := rfl
  mem_nodes_iff m := by
    rw [(h.relabeled n label).mem_nodes_iff, h.mem_nodes_iff, arena_relabeled,
      Arena.isLive_setData]
  data? := by
    obtain ⟨data, hdata⟩ := Arena.exists_data?_of_isLive hn
    refine ⟨data, hdata, ?_⟩
    rw [arena_relabeled, Arena.data?_setData hn hn, if_pos rfl, hdata]
    rfl
  others :=
    { parent? := fun m _ _ _ => Arena.parent?_setData ..
      data? := by
        intro m hm _ hne
        rw [arena_relabeled, Arena.data?_setData hn (h.mem_nodes_iff.1 hm),
          if_neg fun he => hne (congrArg some he)]
      children := fun m _ _ _ => Arena.children_setData .. }

/-- A node that something is not below is not the root. -/
theorem exists_parent?_of_not_below (hn : r.arena.isLive n) (hp : r.arena.isLive p)
    (hb : ¬ r.arena.Below n p) : ∃ q, r.arena.parent? n = some q := by
  rw [← Option.ne_none_iff_exists']
  intro hnone
  have hroot := (h.rooted.parent?_eq_none_iff hn).1 hnone
  exact hb ((hroot ▸ h.rooted).below h.wf hp)

/-- **A subtree that is moved leaves one list of children and comes into another.** -/
theorem shifts (hn : r.arena.isLive n) (hp : r.arena.isLive p) (hb : ¬ r.arena.Below n p)
    (hk : k ≤ ((r.arena.children p).erase n).length) :
    ∃ q, Shifts r (r.moved n p k) n q p k := by
  obtain ⟨q, hq⟩ := h.exists_parent?_of_not_below hn hp hb
  have hlq := h.wf.isLive_of_parent? hn hq
  have h' := h.moved hn hp hb k
  have hparent : ∀ {m}, r.arena.isLive m →
      (r.moved n p k).arena.parent? m = if m = n then some p else r.arena.parent? m :=
    Arena.parent?_move h.wf hn hp k
  have hchildren : ∀ {m}, r.arena.isLive m → m ≠ p →
      (r.moved n p k).arena.children m = (r.arena.children m).erase n :=
    fun hm hne => (Arena.children_move h.wf hn hp k hm).trans (if_neg hne)
  -- `n` stands among the children of `q` only
  have hsame : ∀ {m}, r.arena.isLive m → m ≠ p → m ≠ q →
      (r.moved n p k).arena.children m = r.arena.children m := by
    intro m hm hmp hmq
    rw [hchildren hm hmp, List.erase_of_not_mem]
    intro hmem
    exact hmq (Option.some.inj ((h.wf.parent?_of_mem hm hmem).symm.trans hq))
  have hlive : ∀ m, (r.moved n p k).arena.isLive m ↔ r.arena.isLive m := fun m => by
    rw [arena_moved, Arena.isLive_link, Arena.isLive_unlink]
  exact ⟨q,
    { root := rfl
      mem_nodes_iff := fun m => by rw [h'.mem_nodes_iff, h.mem_nodes_iff, hlive]
      parent?_before := hq
      parent? := (hparent hn).trans (if_pos rfl)
      position_le := hk
      children := by
        refine (Arena.children_move h.wf hn hp k hp).trans ?_
        rw [if_pos rfl, Nat.min_eq_left hk]
      children_before := hchildren hlq
      subtree := by
        refine Arena.subtree_congr h.wf h'.wf hn fun m hm hbelow => ⟨(hlive m).2 hm, ?_⟩
        refine hsame hm ?_ ?_
        · rintro rfl
          exact hb hbelow
        · rintro rfl
          exact h.wf.not_below_parent hn hq hbelow
      others :=
        { parent? := fun m hm _ hne => (hparent (h.mem_nodes_iff.1 hm)).trans
            (if_neg fun he => hne (congrArg some he))
          data? := fun m _ _ _ => by simp
          children := by
            intro m hm _ hne
            rw [List.mem_pair, not_or] at hne
            exact hsame (h.mem_nodes_iff.1 hm) hne.1 hne.2 } }⟩

/-! ### What goes -/

/-- **A subtree that is taken out leaves one list of children.** -/
theorem loses (hn : r.arena.isLive n) : Loses r (r.remove n) n := by
  have h' := h.remove hn
  have hlive : ∀ {m}, m ∈ (r.remove n).nodes ↔ r.arena.isLive m ∧ ¬ r.arena.Below n m := by
    intro m
    rw [h'.mem_nodes_iff, arena_remove]
    exact Arena.isLive_removeSubtree_iff h.wf hn
  have hchildren : ∀ {m}, m ∈ (r.remove n).nodes →
      (r.remove n).arena.children m = (r.arena.children m).erase n := by
    intro m hm
    rw [arena_remove, Arena.children_removeSubtree h.wf hn (hlive.1 hm).1 (hlive.1 hm).2]
  exact
    { root := root_remove r n
      mem_nodes_iff := by
        intro m
        rw [hlive, h.mem_nodes_iff, h.wf.mem_preorder_iff hn]
        exact and_congr_right fun hm => not_congr (and_iff_right hm).symm
      children := by
        intro q hq
        have hmem := hlive.2 ⟨h.wf.isLive_of_parent? hn hq, h.wf.not_below_parent hn hq⟩
        exact ⟨hmem, hchildren hmem⟩
      others :=
        { parent? := by
            intro m _ hm _
            rw [arena_remove, Arena.parent?_removeSubtree h.wf hn (hlive.1 hm).1 (hlive.1 hm).2]
          data? := by
            intro m _ hm _
            rw [arena_remove, Arena.data?_removeSubtree h.wf hn (hlive.1 hm).1 (hlive.1 hm).2]
          children := by
            intro m _ hm hne
            rw [hchildren hm, List.erase_of_not_mem]
            intro hmem
            exact hne (Option.mem_toList.2 (h.wf.parent?_of_mem (hlive.1 hm).1 hmem)) } }

/-! ### Actions -/

/-- **An action that is accepted makes its edit.** -/
theorem performs (hd : r.dst.WellFormed) (hnames : ∀ d, a.node = .dst d → r.dst.contains d)
    (ha : r.Accepts a r') : Performs r.dst r a r' := by
  cases ha with
  | insert hp hk hdata => exact h.performs_insert hp hk hdata
  | @treeInsert d p parent k v hp hk hv =>
      exact h.performs_treeInsert hd (hd.contains_iff.1 (hnames d rfl)) hv hp hk
  | @root d k v hr hv =>
      exact h.performs_root hd (hd.contains_iff.1 (hnames d rfl)) hv hr
  | update hn => exact .update (resolve_iff.2 hn) (h.relabels (h.isLive hn) _)
  | move hn hp hb hk =>
      obtain ⟨q, hshift⟩ := h.shifts (h.isLive hn) (h.isLive hp) hb hk
      exact .move (resolve_iff.2 hn) (resolve_iff.2 hp) hshift
  | treeDelete hn => exact .treeDelete (resolve_iff.2 hn) (h.loses (h.isLive hn))
  | delete hn hc =>
      refine .delete (resolve_iff.2 hn) ?_ (h.loses (h.isLive hn))
      rw [h.wf.preorder_eq (h.isLive hn), hc]
      rfl

end Sound

/-- **Every action that is accepted makes its edit, and changes nothing else**, in every state
that a script leads to. -/
theorem step_performs (hs : src.Built) (hd : dst.Built)
    (hr : (start src dst).run before = .ok r) (hnames : ∀ d, a.node = .dst d → dst.contains d)
    (ha : r.step a = .ok r') : Performs dst r a r' := by
  have hs := hs.wellFormed
  have hdst := run_dst_eq hs hr
  have hsound := (sound_start hs dst).run hr
  have hperforms := hsound.performs (hdst ▸ hd.wellFormed) (hdst ▸ hnames)
    (hsound.step_iff.1 ha)
  rwa [hdst] at hperforms

/-- A leaf has gone, a subtree comes into the slot that it has left, and the first child changes
places with that: its new place is counted when it has been taken away. -/
theorem step_performs_fan : ∃ src dst r₀ r r',
    Tree.fan ⟨"item", 0⟩ "old" ["a", "b", "c"] = .ok src ∧
    Tree.fan ⟨"item", 0⟩ "new" [] = .ok dst ∧
    (start src dst).run [.delete ⟨1, 0⟩] = .ok r₀ ∧
    r₀.step (.treeInsert ⟨0, 0⟩ (some (.src ⟨0, 0⟩)) 1) = .ok r ∧
    Performs dst r₀ (.treeInsert ⟨0, 0⟩ (some (.src ⟨0, 0⟩)) 1) r ∧
    r.arena.children ⟨0, 0⟩ = [⟨2, 0⟩, ⟨1, 1⟩, ⟨3, 0⟩] ∧
    r.step (.move ⟨2, 0⟩ (.src ⟨0, 0⟩) 1) = .ok r' ∧
    Performs dst r (.move ⟨2, 0⟩ (.src ⟨0, 0⟩) 1) r' ∧
    r'.arena.children ⟨0, 0⟩ = [⟨1, 1⟩, ⟨2, 0⟩, ⟨3, 0⟩] := by
  obtain ⟨src, dst, r₀, r, r', hsrc, hdst, hcontains, hr₀, hfirst, hbefore, hsecond, hafter⟩ :
      ∃ src dst r₀ r r', Tree.fan ⟨"item", 0⟩ "old" ["a", "b", "c"] = .ok src ∧
      Tree.fan ⟨"item", 0⟩ "new" [] = .ok dst ∧ dst.contains ⟨0, 0⟩ ∧
      (start src dst).run [.delete ⟨1, 0⟩] = .ok r₀ ∧
      r₀.step (.treeInsert ⟨0, 0⟩ (some (.src ⟨0, 0⟩)) 1) = .ok r ∧
      r.arena.children ⟨0, 0⟩ = [⟨2, 0⟩, ⟨1, 1⟩, ⟨3, 0⟩] ∧
      r.step (.move ⟨2, 0⟩ (.src ⟨0, 0⟩) 1) = .ok r' ∧
      r'.arena.children ⟨0, 0⟩ = [⟨1, 1⟩, ⟨2, 0⟩, ⟨3, 0⟩] :=
    ⟨_, _, _, _, _, rfl, rfl, by decide +kernel, rfl, rfl, by decide +kernel, rfl,
      by decide +kernel⟩
  have hs := Tree.built_fan _ _ _ hsrc
  have hd := Tree.built_fan _ _ _ hdst
  have hr : (start src dst).run ([.delete ⟨1, 0⟩] ++
      [.treeInsert ⟨0, 0⟩ (some (.src ⟨0, 0⟩)) 1]) = .ok r :=
    run_append_iff.2 ⟨r₀, hr₀, run_cons_iff.2 ⟨r, hfirst, rfl⟩⟩
  refine ⟨src, dst, r₀, r, r', hsrc, hdst, hr₀, hfirst, step_performs hs hd hr₀ ?_ hfirst, hbefore,
    hsecond, step_performs hs hd hr ?_ hsecond, hafter⟩
  · rintro d ⟨⟩
    exact hcontains
  · rintro d ⟨⟩

end Replay

end TreeScript
