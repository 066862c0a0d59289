/-
**Copying a subtree.**

A subtree is copied into an arena in which there may be other nodes: the copies are new nodes, with
the shape of the subtree and with payloads made from those of the originals.  A tree of its own, the
working copy, and what an action brings in whole are all made in this way.

The copies can be made one at a time.  A node waits on a stack together with the copy of its parent;
when its turn comes it is copied, the copy becomes the last child of that of the parent, and its
children go onto the stack, the first of them on top.  Nodes of many levels wait there at one time,
but what comes of a stack is simple: the subtrees at the nodes that wait are planted one after the
other, each under its own parent.

Main definitions:

* `TreeScript.Tree.copyInto` — **copying a subtree into an arena**;
* `TreeScript.Tree.copyF` — copying with a stack;
* `TreeScript.Arena.plantAll` — planting trees one after the other, each under its own parent;
* `TreeScript.Tree.Copied` — what a copy is.

Main results:

* `TreeScript.Tree.deepCopy_eq`, `TreeScript.WorkingCopy.start_eq`,
  `TreeScript.WorkingCopy.apply_graft_eq`, `TreeScript.Replay.insertTree_eq` — the copies that are
  made;
* `TreeScript.Tree.WellFormed.copyF_eq` — **the stack plants what waits on it**;
* `TreeScript.Arena.map_snd_plant` — where no slot is vacant, new nodes are numbered in pre-order;
* `TreeScript.Tree.Built.copyInto_faithful` — **a copy is faithful and touches nothing else**.
-/

import TreeScript.Proofs.Arena.Correspondence
import TreeScript.Proofs.Arena.Payload
import TreeScript.Proofs.Replay.Effects
import TreeScript.Proofs.Tree.Built
import TreeScript.Proofs.Tree.ChildLists
import TreeScript.Proofs.Tree.Refinement
import TreeScript.WorkingCopy

set_option relaxedAutoImplicit false
set_option autoImplicit false

namespace TreeScript

namespace RoseTree

variable {α : Type}

mutual
@[simp] theorem map_id' : ∀ t : RoseTree α, t.map (fun v => v) = t
  | node v ts => by rw [map, mapForest_id' ts]

theorem mapForest_id' : ∀ ts : List (RoseTree α), mapForest (fun v => v) ts = ts
  | [] => rfl
  | t :: ts => by rw [mapForest, map_id' t, mapForest_id' ts]
end

end RoseTree

/-! ### Planting trees under parents of their own -/

namespace Arena

variable {α κ : Type} {a : Arena α} {under : Option NodeId} {p : NodeId} {d : α} {k : κ}

/-- Plants trees one after the other, each under a parent of its own. -/
def plantAll (a : Arena α) :
    List (Option NodeId × RoseTree (κ × α)) → Arena α × List (κ × NodeId)
  | [] => (a, [])
  | (under, t) :: rest =>
    let (b, first) := a.plant under t
    let (c, more) := b.plantAll rest
    (c, first ++ more)

theorem plantForest_eq_plantAll (ts : List (RoseTree (κ × α))) :
    a.plantForest p ts = a.plantAll (ts.map fun t => (some p, t)) := by
  induction ts generalizing a with
  | nil => rfl
  | cons t ts ih => simp only [plantForest, List.map_cons, plantAll, ih]

theorem plantAll_append (l l' : List (Option NodeId × RoseTree (κ × α))) :
    a.plantAll (l ++ l') =
      (((a.plantAll l).1.plantAll l').1, (a.plantAll l).2 ++ ((a.plantAll l).1.plantAll l').2) := by
  induction l generalizing a with
  | nil => rfl
  | cons g l ih =>
      obtain ⟨under, t⟩ := g
      simp only [List.cons_append, plantAll, ih, List.append_assoc]

/-- **The root of the first tree is planted, and then its branches**, before the other trees. -/
theorem plantAll_cons_node (ts : List (RoseTree (κ × α)))
    (rest : List (Option NodeId × RoseTree (κ × α))) :
    a.plantAll ((under, .node (k, d) ts) :: rest) =
      (((a.sprout under d).plantAll (ts.map (fun t => (some a.nextId, t)) ++ rest)).1,
        (k, a.nextId) ::
          ((a.sprout under d).plantAll (ts.map (fun t => (some a.nextId, t)) ++ rest)).2) := by
  simp only [plantAll, plant, plantAll_append, plantForest_eq_plantAll, List.cons_append]

/-- A new node can be put under every node, as its last child. -/
theorem attach_alloc_eq (hw : a.WellFormed) (hp : a.isLive p) (d : α) :
    (a.alloc d).attach p ((a.alloc d).children p).length a.nextId = .ok (a.sprout (some p) d) := by
  have hg : Grown a (a.sprout none d) none [a.nextId] [a.nextId] := grown_sprout hw (by simp) d
  exact hg.attach_eq hw hp _

/-! ### The numbers of new nodes -/

theorem free_sprout (under : Option NodeId) (d : α) (h : a.free = []) : (a.sprout under d).free = [] := by
  cases under <;> simp [sprout, alloc, h]

theorem size_slots_sprout (under : Option NodeId) (d : α) (h : a.free = []) :
    (a.sprout under d).slots.size = a.slots.size + 1 := by
  cases under <;> simp [sprout, alloc, h]

mutual
/-- **Where no slot is vacant, new nodes are numbered in pre-order**, from the first slot that there
is not. -/
theorem map_snd_plant (t : RoseTree (κ × α)) {a : Arena α} (under : Option NodeId)
    (h : a.free = []) : (a.plant under t).1.free = [] ∧
      (a.plant under t).1.slots.size = a.slots.size + (a.plant under t).2.length ∧
      (a.plant under t).2.map Prod.snd =
        (List.range' a.slots.size (a.plant under t).2.length).map fun i => ⟨i, 0⟩ := by
  match t with
  | .node (key, d) ts =>
    obtain ⟨hfree, hsize, hmap⟩ :=
      map_snd_plantForest ts a.nextId (free_sprout under d h)
    have hnext : a.nextId = ⟨a.slots.size, 0⟩ := by simp [nextId, h]
    rw [size_slots_sprout under d h] at hsize hmap
    refine ⟨hfree, ?_, ?_⟩
    · rw [plant, hsize, List.length_cons]
      omega
    · rw [plant, List.map_cons, hmap, List.length_cons, List.range'_succ, List.map_cons, hnext]

theorem map_snd_plantForest (ts : List (RoseTree (κ × α))) {a : Arena α} (p : NodeId)
    (h : a.free = []) : (a.plantForest p ts).1.free = [] ∧
      (a.plantForest p ts).1.slots.size = a.slots.size + (a.plantForest p ts).2.length ∧
      (a.plantForest p ts).2.map Prod.snd =
        (List.range' a.slots.size (a.plantForest p ts).2.length).map fun i => ⟨i, 0⟩ := by
  match ts with
  | [] => exact ⟨h, rfl, rfl⟩
  | t :: ts =>
    obtain ⟨hfree, hsize, hmap⟩ := map_snd_plant t (some p) h
    obtain ⟨hfree', hsize', hmap'⟩ := map_snd_plantForest ts p hfree
    rw [hsize] at hsize' hmap'
    refine ⟨hfree', ?_, ?_⟩
    · rw [plantForest, hsize', List.length_append]
      omega
    · rw [plantForest, List.map_append, hmap, hmap', List.length_append, ← List.map_append,
        List.range'_append_1]
end

end Arena

namespace Tree

variable {α : Type} {t u : Tree} {n : NodeId} {a e : Arena α} {make : NodeId → NodeData → α}
  {copies : List (NodeId × NodeId)} {fuel : Nat}

/-! ### Copying -/

/-- **Copies the subtree at `n` into an arena**; `make` says what a copy carries.  The answer is the
arena with the copies in it, and the pairs of the originals and their copies. -/
def copyInto (t : Tree) (n : NodeId) (a : Arena α) (make : NodeId → NodeData → α) :
    Except Fault (Arena α × List (NodeId × NodeId)) :=
  return a.plant none ((← t.view n).map fun e => (e.1, make e.1 e.2))

/-- If the data stay as they are, the view is planted. -/
theorem copyInto_data (t : Tree) (n : NodeId) (a : Arena NodeData) :
    t.copyInto n a (fun _ d => d) = do return a.plant none (← t.view n) := by
  simp only [copyInto, RoseTree.map_id']

/-- A tree of its own is a copy in an arena without slots. -/
theorem deepCopy_eq : t.deepCopy n = do
    let (arena, _) ← t.copyInto n Arena.empty fun _ d => d
    return { types := t.types, arena, root := (Arena.empty : Arena NodeData).nextId } := by
  rw [deepCopy, copyInto_data]
  cases t.view n <;> rfl

end Tree

/-- The working copy begins as a copy of the source. -/
theorem WorkingCopy.start_eq (m : Mapping) : WorkingCopy.start m = do
    let (arena, copies) ← m.src.copyInto m.src.root Arena.empty fun n d => ⟨d.label, .src n⟩
    return copies.foldl
      (fun c e =>
        match m.counterpart? e.1 with
        | some d => c.pair e.2 d
        | none => c)
      { arena, root := (Arena.empty : Arena WorkNode).nextId, ofSrc := .ofList copies,
        toDst := .empty, ofDst := .empty } := by
  rw [start, Tree.copyInto]
  cases m.src.view m.src.root <;> rfl

/-- What is brought in whole is put into the working copy as a copy of a subtree of the
destination. -/
theorem WorkingCopy.apply_graft_eq (c : WorkingCopy) (dst : Tree) (x parent : NodeId)
    (position : Nat) : (dst.view x >>= fun subtree =>
      c.apply (.graft (subtree.map fun e => (e.1, e.2.label)) parent position)) = do
    let (arena, copies) ← dst.copyInto x c.arena fun n d => ⟨d.label, .dst n⟩
    let arena ← arena.attach parent position c.arena.nextId
    return copies.foldl (fun c e => c.pair e.2 e.1) { c with arena } := by
  rw [Tree.copyInto]
  cases dst.view x with
  | error f => rfl
  | ok v =>
      simp only [bind_ok, apply, RoseTree.map_map]
      rfl

/-- In a replay, too, it is put into the tree as a copy. -/
theorem Replay.insertTree_eq (r : Replay) (d : NodeId) (p : Option NodeId) (position : Nat) :
    r.insertTree d p position = do
      let (arena, copies) ← fromDst (r.dst.copyInto d r.arena fun _ data => data)
      let r' := copies.foldl (fun r e => r.track (.dst e.1) e.2) { r with arena }
      match p with
      | some p => r'.attach p position r.arena.nextId
      | none => return { r' with root := some r.arena.nextId } := by
  rw [insertTree, Tree.copyInto_data]
  cases r.dst.view d <;> rfl

namespace Tree

variable {α : Type} {t u : Tree} {n : NodeId} {a e : Arena α} {make : NodeId → NodeData → α}
  {copies : List (NodeId × NodeId)} {fuel : Nat}

/-! ### Copying with a stack -/

/-- Copies the subtrees at the nodes of a stack, each under the copy of its parent, in at most
`fuel` turns; no answer if that is not enough.  `copies` is what has been copied before. -/
def copyF (t : Tree) (make : NodeId → NodeData → α) :
    Nat → List (NodeId × Option NodeId) → Arena α → List (NodeId × NodeId) →
      Except Fault (Option (Arena α × List (NodeId × NodeId)))
  | _, [], a, copies => return some (a, copies)
  | 0, _ :: _, _, _ => return none
  | fuel + 1, (n, under) :: rest, a, copies => do
    let d ← t.data n
    let copy := a.nextId
    let b := a.alloc (make n d)
    let b ← match under with
      | some p => b.attach p (b.children p).length copy
      | none => pure b
    let ns ← t.children n
    t.copyF make fuel (ns.map (fun c => (c, some copy)) ++ rest) b (copies ++ [(n, copy)])

/-- One turn. -/
theorem copyF_cons {d : NodeData} {under : Option NodeId} {rest : List (NodeId × Option NodeId)}
    (hn : t.arena.isLive n) (hd : t.arena.data? n = some d) (ha : a.WellFormed)
    (hunder : ∀ p, under = some p → a.isLive p) :
    t.copyF make (fuel + 1) ((n, under) :: rest) a copies =
      t.copyF make fuel ((t.arena.children n).map (fun c => (c, some a.nextId)) ++ rest)
        (a.sprout under (make n d)) (copies ++ [(n, a.nextId)]) := by
  rw [copyF, data_eq_ok hd, children_eq_ok hn]
  cases under with
  | none => rfl
  | some p =>
      simp only [bind_ok, Arena.attach_alloc_eq ha (hunder p rfl)]

/-- What is to be planted for a node on the stack: the subtree at it, with the new payloads, under
the same parent. -/
def PlantedFor (t : Tree) (make : NodeId → NodeData → α) (w : NodeId × Option NodeId)
    (g : Option NodeId × RoseTree (NodeId × α)) : Prop :=
  t.arena.isLive w.1 ∧
    ∃ v, t.view w.1 = .ok v ∧ g = (w.2, v.map fun e => (e.1, make e.1 e.2))

/-- **The stack plants what waits on it**, one subtree after the other, after as many turns as there
are nodes in these subtrees. -/
theorem WellFormed.copyF_eq (ht : t.WellFormed) {work : List (NodeId × Option NodeId)}
    {forest : List (Option NodeId × RoseTree (NodeId × α))}
    (hwork : List.Forall₂ (t.PlantedFor make) work forest) (ha : a.WellFormed)
    (hunder : ∀ w ∈ work, ∀ p, w.2 = some p → a.isLive p)
    (hfuel : t.arena.pending (work.map Prod.fst) ≤ fuel) :
    t.copyF make fuel work a copies =
      .ok (some ((a.plantAll forest).1, copies ++ (a.plantAll forest).2)) := by
  induction fuel generalizing work forest a copies with
  | zero =>
      cases hwork with
      | nil => simp [copyF, Arena.plantAll, pure, Except.pure]
      | cons hw hrest =>
          -- a node that waits is a visit that is left
          rw [List.map_cons, ht.arena.pending_cons hw.1] at hfuel
          omega
  | succ fuel ih =>
      cases hwork with
      | nil => simp [copyF, Arena.plantAll, pure, Except.pure]
      | @cons w g work forest hw hrest =>
          obtain ⟨n, under⟩ := w
          obtain ⟨hn, v, hv, rfl⟩ := hw
          obtain ⟨d, vs, hd, rfl, hvs⟩ := ht.view_eq_ok hn hv
          obtain ⟨hunderTop, hunderRest⟩ := List.forall_mem_cons.1 hunder
          have hg := Arena.grown_sprout ha hunderTop (make n d)
          -- the children wait with the copy, and before the rest
          have hwork' : List.Forall₂ (t.PlantedFor make)
              ((t.arena.children n).map (fun c => (c, some a.nextId)) ++ work)
              ((vs.map (RoseTree.map fun e => (e.1, make e.1 e.2))).map
                (fun v => (some a.nextId, v)) ++ forest) := by
            refine List.rel_append ?_ hrest
            rw [List.map_map, List.forall₂_map_left_iff, List.forall₂_map_right_iff]
            refine (forall₂_and_mem hvs fun c hc => ht.arena.isLive_of_mem hn hc).imp ?_
            intro c v hcv
            exact ⟨hcv.2, v, hcv.1, rfl⟩
          have hunder' : ∀ w ∈ (t.arena.children n).map (fun c => (c, some a.nextId)) ++ work,
              ∀ p, w.2 = some p → (a.sprout under (make n d)).isLive p := by
            intro w hw p hp
            rcases List.mem_append.1 hw with hw | hw
            · obtain ⟨c, -, rfl⟩ := List.mem_map.1 hw
              obtain rfl := Option.some.inj hp
              exact hg.isLive_new (List.mem_singleton_self _)
            · exact hg.isLive (hunderRest w hw p hp)
          have hfuel' : t.arena.pending
              (((t.arena.children n).map (fun c => (c, some a.nextId)) ++ work).map Prod.fst) ≤
                fuel := by
            have hfst : ((t.arena.children n).map fun c => (c, some a.nextId)).map Prod.fst =
                t.arena.children n := by simp [Function.comp_def]
            simp only [List.map_cons, ht.arena.pending_cons hn] at hfuel
            rw [List.map_append, hfst, Arena.pending_append]
            omega
          rw [copyF_cons hn hd ha hunderTop, ih hwork' hg.wf hunder' hfuel', RoseTree.map_node,
            Arena.plantAll_cons_node, List.append_assoc, List.singleton_append]

/-! ### What a copy is -/

/-- **The arena `e` is `a` with a copy of the subtree at `n`**; `copies` are the originals and their
copies. -/
structure Copied (t : Tree) (n : NodeId) (a : Arena α) (make : NodeId → NodeData → α) (e : Arena α)
    (copies : List (NodeId × NodeId)) : Prop where
  /-- The arena is in order. -/
  wellFormed : e.WellFormed
  /-- The nodes of the subtree are copied in pre-order, -/
  descendants_eq : t.descendants n = .ok (copies.map Prod.fst)
  /-- each once, -/
  nodup_fst : (copies.map Prod.fst).Nodup
  /-- to different nodes, -/
  nodup_snd : (copies.map Prod.snd).Nodup
  /-- which have never been in the arena before. -/
  not_issued : ∀ c ∈ copies.map Prod.snd, ¬ a.Issued c
  /-- The first copy is that of `n`, and it has no parent. -/
  top : ∃ c rest, copies = (n, c) :: rest ∧ e.parent? c = none
  /-- A copy carries what is made from the data of the original. -/
  data : ∀ x c, (x, c) ∈ copies → ∃ d, t.data x = .ok d ∧ e.data? c = some (make x d)
  /-- Every copy but the first has the copy of the parent as its parent, and the same index as the
  original. -/
  parent : ∀ x c, (x, c) ∈ copies → x ≠ n → ∃ p q, ∃ i : Nat, t.parent? x = .ok (some p) ∧
    (p, q) ∈ copies ∧ e.parent? c = some q ∧ t.child? p i = .ok (some x) ∧
    (e.children q)[i]? = some c
  /-- The children of a copy are the copies of the children. -/
  children : ∀ x c, (x, c) ∈ copies → ∃ ns, t.children x = .ok ns ∧
    List.Forall₂ (fun x c => (x, c) ∈ copies) ns (e.children c)
  /-- What there was in the arena is there, -/
  isLive_iff : ∀ k, e.isLive k ↔ a.isLive k ∨ k ∈ copies.map Prod.snd
  /-- with the links and the payload that it had. -/
  keeps : ∀ k, a.isLive k →
    e.data? k = a.data? k ∧ e.parent? k = a.parent? k ∧ e.children k = a.children k

namespace WellFormed

variable (ht : t.WellFormed)

include ht

/-- What is copied, as nodes that are the copies of others. -/
theorem copiedBy_copyInto (hn : t.arena.isLive n) (ha : a.WellFormed)
    (h : t.copyInto n a make = .ok (e, copies)) :
    Arena.Grown a e none [a.nextId] (copies.map Prod.snd) ∧
      Arena.CopiedBy t.arena.children (fun k => (t.arena.data? k).map (make k)) copies e ∧
      copies.map Prod.fst = t.arena.preorder n ∧ (n, a.nextId) ∈ copies := by
  obtain ⟨v, hv, h⟩ := bind_eq_ok.1 h
  obtain ⟨hdepicts, hids⟩ := ht.depicts_of_view hn hv
  have hplant := pure_eq_ok.1 h
  have hunder : ∀ p, (none : Option NodeId) = some p → a.isLive p := by simp
  have hgrown := Arena.grown_plant (v.map fun e => (e.1, make e.1 e.2)) ha hunder
  have hcopied := Arena.copiedBy_plant _ (hdepicts.map make) ha hunder
  -- the payloads are made anew, the identities are those of the original
  have hids' : (v.map fun e => (e.1, make e.1 e.2)).map Prod.fst = t.arena.subtree n :=
    (RoseTree.map_map _ _ v).trans hids
  have hfst := Arena.map_fst_plant_subtree hids' a none
  have htop := Arena.mem_plant_subtree hids' a none
  rw [hplant] at hgrown hcopied hfst htop
  exact ⟨hgrown, hcopied, hfst, htop⟩

theorem copied_copyInto (hn : t.arena.isLive n) (ha : a.WellFormed)
    (h : t.copyInto n a make = .ok (e, copies)) : t.Copied n a make e copies := by
  obtain ⟨hg, hc, hfst, htop⟩ := ht.copiedBy_copyInto hn ha h
  have hlive : ∀ m ∈ copies.map Prod.snd, e.isLive m := fun m hm => hg.isLive_new hm
  have hmem : ∀ {x c}, (x, c) ∈ copies → t.arena.isLive x := by
    intro x c hxc
    have hx : x ∈ t.arena.preorder n := hfst ▸ List.mem_map_of_mem hxc
    exact ((ht.arena.mem_preorder_iff hn).1 hx).1
  have hnodup : (copies.map Prod.fst).Nodup := hfst ▸ ht.arena.nodup_preorder hn
  exact
    { wellFormed := hg.wf
      descendants_eq := by rw [descendants_eq_ok hn, hfst]
      nodup_fst := hnodup
      nodup_snd := hg.nodup
      not_issued := hg.not_issued
      top := by
        cases copies with
        | nil => cases htop
        | cons first rest =>
            obtain ⟨x, c⟩ := first
            obtain ⟨rfl, -⟩ := List.cons.inj (hfst.trans (ht.arena.preorder_eq hn))
            obtain rfl := snd_unique_of_nodup hnodup htop List.mem_cons_self
            exact ⟨_, rest, rfl, hg.parent?_tops _ (List.mem_singleton_self _)⟩
      data := by
        intro x c hxc
        obtain ⟨d, hd⟩ := Arena.exists_data?_of_isLive (hmem hxc)
        exact ⟨d, data_eq_ok hd, by simp [(hc x c hxc).1, hd]⟩
      parent := by
        intro x c hxc hne
        obtain ⟨p, q, i, hp, hpq, hq, hi, hj⟩ :=
          hc.exists_parent ht.arena hg.wf hlive hn hfst hxc hne
        exact ⟨p, q, i, by rw [parent?_eq_ok (hmem hxc), hp], hpq, hq,
          by rw [child?_eq_ok (hmem hpq), hi], hj⟩
      children := fun x c hxc => ⟨_, children_eq_ok (hmem hxc), (hc x c hxc).2⟩
      isLive_iff := fun k => hg.isLive_iff
      keeps := fun k hk => ⟨hg.data? hk, hg.parent? hk, by simpa using hg.children hk⟩ }

/-- A subtree can be copied, and the stack makes the same copy. -/
theorem exists_copyInto (hn : t.arena.isLive n) (ha : a.WellFormed)
    (make : NodeId → NodeData → α) : ∃ e copies, t.copyInto n a make = .ok (e, copies) ∧
      ∀ size fuel, t.size n = .ok size → size ≤ fuel →
        t.copyF make fuel [(n, none)] a [] = .ok (some (e, copies)) := by
  obtain ⟨v, hv, -⟩ := ht.exists_view hn
  refine ⟨_, _, by rw [copyInto, hv]; rfl, fun size fuel hsize hfuel => ?_⟩
  obtain rfl := Except.ok.inj ((size_eq_ok hn).symm.trans hsize)
  have hwork : List.Forall₂ (t.PlantedFor make) [(n, none)]
      [(none, v.map fun e => (e.1, make e.1 e.2))] :=
    List.Forall₂.cons ⟨hn, v, hv, rfl⟩ List.Forall₂.nil
  rw [ht.copyF_eq hwork ha (by simp) (by simpa [Arena.pending] using hfuel)]
  simp [Arena.plantAll]

/-- **A copy that is a tree of its own is isomorphic to the subtree**, and its nodes are numbered in
pre-order. -/
theorem exists_deepCopy (hn : t.arena.isLive n) : ∃ u copies, t.deepCopy n = .ok u ∧
    t.copyInto n Arena.empty (fun _ d => d) = .ok (u.arena, copies) ∧ u.types = t.types ∧
    t.Alike u n u.root ∧ u.preorder = copies.map Prod.snd ∧
    copies.map (NodeId.number ∘ Prod.snd) = List.range' 1 copies.length := by
  obtain ⟨e, copies, hcopy, -⟩ :=
    ht.exists_copyInto hn Arena.wellFormed_empty (a := Arena.empty) (fun _ (d : NodeData) => d)
  have hdeep : t.deepCopy n = .ok ⟨t.types, e, (Arena.empty : Arena NodeData).nextId⟩ := by
    rw [deepCopy_eq, hcopy]
    rfl
  obtain ⟨hg, hc, hfst, htop⟩ := ht.copiedBy_copyInto hn Arena.wellFormed_empty hcopy
  have hu := WellFormed.deepCopy hdeep
  have hlive : ∀ m ∈ copies.map Prod.snd, e.isLive m := fun m hm => hg.isLive_new hm
  simp only [Option.map_id'] at hc
  refine ⟨_, copies, hdeep, hcopy, rfl, ?_, ?_, ?_⟩
  · exact (alike_of_copiedBy hu ht hc hlive hn htop).symm hu ht (hlive _ (List.mem_map_of_mem htop)) hn
  · exact hc.preorder_eq ht.arena hu.arena hlive hn hfst htop
  · obtain ⟨v, -, hplant⟩ := bind_eq_ok.1 hcopy
    obtain ⟨-, -, hsnd⟩ := Arena.map_snd_plant (v.map fun e => (e.1, e.2)) none
      (rfl : (Arena.empty : Arena NodeData).free = [])
    rw [pure_eq_ok.1 hplant] at hsnd
    have hnumber : (NodeId.number ∘ fun i => ⟨i, 0⟩) = (1 + ·) := funext fun i => Nat.add_comm i 1
    rw [← List.map_map, hsnd, List.map_map, hnumber]
    exact List.map_add_range' 0 copies.length 1

end WellFormed

/-- **A copy is faithful and touches nothing else**, whatever the arena that it is made in, and the
stack makes it in one turn for each node.  A copy that is a tree of its own is isomorphic to the
subtree, and its nodes have the numbers 1, 2 and so on in pre-order. -/
theorem Built.copyInto_faithful (ht : t.Built) (hn : t.contains n) :
    (∀ (a : Arena α) (make : NodeId → NodeData → α), a.WellFormed →
      ∃ e copies, t.copyInto n a make = .ok (e, copies) ∧ t.Copied n a make e copies ∧
        ∀ size fuel, t.size n = .ok size → size ≤ fuel →
          t.copyF make fuel [(n, none)] a [] = .ok (some (e, copies))) ∧
    ∃ u copies size, t.deepCopy n = .ok u ∧ u.types = t.types ∧
      t.copyInto n Arena.empty (fun _ d => d) = .ok (u.arena, copies) ∧
      u.preorder = copies.map Prod.snd ∧ t.isIsomorphic n u u.root = .ok true ∧
      t.size n = .ok size ∧ u.preorder.map NodeId.number = List.range' 1 size := by
  have hl := ht.wellFormed.contains_iff.1 hn
  refine ⟨fun a make ha => ?_, ?_⟩
  · obtain ⟨e, copies, hcopy, hstack⟩ := ht.wellFormed.exists_copyInto hl ha make
    exact ⟨e, copies, hcopy, ht.wellFormed.copied_copyInto hl ha hcopy, hstack⟩
  · obtain ⟨u, copies, hdeep, hcopy, htypes, halike, hpre, hnumbers⟩ :=
      ht.wellFormed.exists_deepCopy hl
    have hfst := (ht.wellFormed.copiedBy_copyInto hl Arena.wellFormed_empty hcopy).2.2.1
    have hsize : t.size n = .ok copies.length := by
      rw [size_eq_ok hl, ← hfst, List.length_map]
    exact ⟨u, copies, copies.length, hdeep, htypes, hcopy, hpre, halike, hsize,
      by rw [hpre, List.map_map, hnumbers]⟩

/-- A root with two leaves is copied into the arena of another tree. -/
theorem Built.copyInto_faithful_fans : ∃ t u e copies, fan ⟨"item", 0⟩ "top" ["a", "b"] = .ok t ∧
    fan ⟨"item", 0⟩ "old" ["c"] = .ok u ∧ t.contains t.root ∧ u.arena.WellFormed ∧
    t.Copied t.root u.arena (fun _ d => d) e copies ∧
    copies = [(⟨0, 0⟩, ⟨2, 0⟩), (⟨1, 0⟩, ⟨3, 0⟩), (⟨2, 0⟩, ⟨4, 0⟩)] := by
  obtain ⟨t, u, e, ht, hu, hn, hcopy⟩ : ∃ t u e, fan ⟨"item", 0⟩ "top" ["a", "b"] = .ok t ∧
      fan ⟨"item", 0⟩ "old" ["c"] = .ok u ∧ t.contains t.root ∧
      t.copyInto t.root u.arena (fun _ d => d) =
        .ok (e, [(⟨0, 0⟩, ⟨2, 0⟩), (⟨1, 0⟩, ⟨3, 0⟩), (⟨2, 0⟩, ⟨4, 0⟩)]) :=
    ⟨_, _, _, rfl, rfl, rfl, rfl⟩
  have hw := (built_fan _ _ _ hu).wellFormed.arena
  obtain ⟨e', copies, hcopy', h, -⟩ :=
    (Built.copyInto_faithful (built_fan _ _ _ ht) hn).1 u.arena (fun _ d => d) hw
  obtain ⟨-, hcopies⟩ := Prod.mk.inj (Except.ok.inj (hcopy'.symm.trans hcopy))
  exact ⟨t, u, e', copies, ht, hu, hn, hw, h, hcopies⟩

end Tree

end TreeScript
