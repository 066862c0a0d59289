/-
**What a change does to the working copy.**

A change that fits the working copy as it is can be carried out, and there is an action that tells
of it.  Bringing in one node is grafting a part of the destination that has no branches.

Main definitions:

* `TreeScript.WorkingCopy.grafted`, `TreeScript.WorkingCopy.relabeled`,
  `TreeScript.WorkingCopy.moved`, `TreeScript.WorkingCopy.pruned` — what changes come to;
* `TreeScript.WorkingCopy.Step` — **the changes that fit, the actions that tell of them and what
  they do**;
* `TreeScript.WorkingCopy.Run` — changes one after the other, which keep to an invariant.

Main results:

* `TreeScript.WorkingCopy.Step.apply_eq`, `TreeScript.WorkingCopy.Step.report?_eq` — a step is
  what the two views of a change say.
-/

import TreeScript.Draft
import TreeScript.Proofs.Arena.Grafting
import TreeScript.Proofs.NodeMap
import TreeScript.Proofs.Results
import TreeScript.Proofs.Tree.WellFormed

set_option relaxedAutoImplicit false
set_option autoImplicit false

namespace TreeScript.WorkingCopy

variable {c c' : WorkingCopy} {dst : Tree} {w n p x : NodeId} {k : Nat} {ref : NodeRef}
  {v : RoseTree (NodeId × String)} {change : Change} {action : Action}

/-! ### Looking up -/

theorem counterpart_eq_ok (h : c.ofDst.get? x = some w) : c.counterpart x = .ok w := by
  simp only [counterpart, h]

theorem copyOf_eq_ok {s : NodeId} (h : c.ofSrc.get? s = some w) : c.copyOf s = .ok w := by
  simp only [copyOf, h]

/-! ### A part of the destination -/

/-- New nodes for the nodes of a part of the destination. -/
def made (v : RoseTree (NodeId × String)) : RoseTree (NodeId × WorkNode) :=
  v.map fun e => (e.1, ⟨e.2, .dst e.1⟩)

/-- The destination nodes and the nodes of the copy that are made for them. -/
def copies (c : WorkingCopy) (v : RoseTree (NodeId × String)) : List (NodeId × NodeId) :=
  (c.arena.plant none (made v)).2

/-- The working copy with a part of the destination as a child of `p`. -/
def grafted (c : WorkingCopy) (v : RoseTree (NodeId × String)) (p : NodeId) (k : Nat) :
    WorkingCopy :=
  { c with
    arena := (c.arena.plant none (made v)).1.link p k c.arena.nextId
    toDst := c.toDst.insertAll ((c.copies v).map Prod.swap)
    ofDst := c.ofDst.insertAll (c.copies v) }

/-- Pairing one after the other fills the two tables. -/
theorem foldl_pair (l : List (NodeId × NodeId)) (c : WorkingCopy) :
    l.foldl (fun c e => c.pair e.2 e.1) c =
      { c with toDst := c.toDst.insertAll (l.map Prod.swap), ofDst := c.ofDst.insertAll l } := by
  induction l generalizing c with
  | nil => rfl
  | cons e l ih => rw [List.foldl_cons, ih]; rfl

/-- The nodes of a part of the destination, in pre-order. -/
theorem map_fst_copies (c : WorkingCopy) (v : RoseTree (NodeId × String)) :
    (c.copies v).map Prod.fst = v.preorder.map Prod.fst := by
  rw [copies, Arena.map_fst_plant, made, RoseTree.preorder_map, List.map_map]
  rfl

theorem depicts_made {C : NodeId → List NodeId} {D : NodeId → Option String}
    (hv : Depicts C D v) :
    Depicts C (fun x => (D x).map fun label => (⟨label, .dst x⟩ : WorkNode)) (made v) :=
  hv.map fun x label => (⟨label, .dst x⟩ : WorkNode)

/-- **A part of the destination becomes a part of the copy.** -/
theorem grafted_spec {C : NodeId → List NodeId} {D : NodeId → Option String}
    (hw : c.arena.WellFormed) (hp : c.arena.isLive p) (hv : Depicts C D v) (k : Nat) :
    Arena.Grafted c.arena (c.grafted v p k).arena C
      (fun x => (D x).map fun label => (⟨label, .dst x⟩ : WorkNode)) (c.copies v) p k
      c.arena.nextId :=
  Arena.grafted_plant hw hp (depicts_made hv) k

/-! ### Carrying out a change -/

/-- The working copy with another label at `w`. -/
def relabeled (c : WorkingCopy) (w : NodeId) (label : String) : WorkingCopy :=
  { c with arena := c.arena.setData w fun node => { node with label } }

/-- The working copy with `w` as a child of `p`. -/
def moved (c : WorkingCopy) (w p : NodeId) (k : Nat) : WorkingCopy :=
  { c with arena := (c.arena.unlink w).link p k w }

/-- The working copy without `w` and what is below it. -/
def pruned (c : WorkingCopy) (w : NodeId) : WorkingCopy :=
  { c with arena := c.arena.removeSubtree w }

@[simp] theorem arena_relabeled (c : WorkingCopy) (w : NodeId) (label : String) :
    (c.relabeled w label).arena = c.arena.setData w fun node => { node with label } := rfl

@[simp] theorem arena_moved (c : WorkingCopy) (w p : NodeId) (k : Nat) :
    (c.moved w p k).arena = (c.arena.unlink w).link p k w := rfl

@[simp] theorem arena_pruned (c : WorkingCopy) (w : NodeId) :
    (c.pruned w).arena = c.arena.removeSubtree w := rfl

section Tables

variable (c : WorkingCopy) (w p : NodeId) (k : Nat) (label : String)

@[simp] theorem ofSrc_relabeled : (c.relabeled w label).ofSrc = c.ofSrc := rfl

@[simp] theorem toDst_relabeled : (c.relabeled w label).toDst = c.toDst := rfl

@[simp] theorem ofDst_relabeled : (c.relabeled w label).ofDst = c.ofDst := rfl

@[simp] theorem root_relabeled : (c.relabeled w label).root = c.root := rfl

@[simp] theorem ofSrc_moved : (c.moved w p k).ofSrc = c.ofSrc := rfl

@[simp] theorem toDst_moved : (c.moved w p k).toDst = c.toDst := rfl

@[simp] theorem ofDst_moved : (c.moved w p k).ofDst = c.ofDst := rfl

@[simp] theorem root_moved : (c.moved w p k).root = c.root := rfl

@[simp] theorem ofSrc_pruned : (c.pruned w).ofSrc = c.ofSrc := rfl

@[simp] theorem toDst_pruned : (c.pruned w).toDst = c.toDst := rfl

@[simp] theorem ofDst_pruned : (c.pruned w).ofDst = c.ofDst := rfl

@[simp] theorem root_pruned : (c.pruned w).root = c.root := rfl

@[simp] theorem ofSrc_grafted (v : RoseTree (NodeId × String)) :
    (c.grafted v p k).ofSrc = c.ofSrc := rfl

@[simp] theorem root_grafted (v : RoseTree (NodeId × String)) :
    (c.grafted v p k).root = c.root := rfl

end Tables

@[simp] theorem isLive_relabeled (c : WorkingCopy) (w : NodeId) (label : String) (n : NodeId) :
    (c.relabeled w label).arena.isLive n = c.arena.isLive n := by
  rw [arena_relabeled, Arena.isLive_setData]

@[simp] theorem isLive_moved (c : WorkingCopy) (w p : NodeId) (k : Nat) (n : NodeId) :
    (c.moved w p k).arena.isLive n = c.arena.isLive n := by
  rw [arena_moved, Arena.isLive_link, Arena.isLive_unlink]

theorem grown_made (hw : c.arena.WellFormed) (v : RoseTree (NodeId × String)) :
    Arena.Grown c.arena (c.arena.plant none (made v)).1 none [c.arena.nextId]
      ((c.copies v).map Prod.snd) :=
  Arena.grown_plant _ hw (by simp)

theorem apply_graft (hw : c.arena.WellFormed) (hp : c.arena.isLive p) :
    c.apply (.graft v p k) = .ok (c.grafted v p k) := by
  have hattach := (grown_made hw v).attach_eq hw hp k
  rw [made] at hattach
  simp only [apply, hattach, foldl_pair]
  rfl

theorem apply_insert (hw : c.arena.WellFormed) (hp : c.arena.isLive p) (label : String) :
    c.apply (.insert x label p k) = .ok (c.grafted (.node (x, label) []) p k) := by
  -- one node is planted as a tree without branches is
  have hattach : (c.arena.alloc ⟨label, .dst x⟩).attach p k c.arena.nextId =
      .ok ((c.arena.alloc ⟨label, .dst x⟩).link p k c.arena.nextId) :=
    (grown_made hw (.node (x, label) [])).attach_eq hw hp k
  simp only [apply, hattach]
  rfl

theorem apply_move (hw : c.arena.WellFormed) (hlw : c.arena.isLive w) (hp : c.arena.isLive p)
    (hb : ¬ c.arena.Below w p) :
    c.apply (.move w p k) = .ok (c.moved w p k) := by
  simp only [apply, Arena.attach_unlink_eq hw hlw hp hb k]
  rfl

theorem apply_remove (hw : c.arena.WellFormed) (hlw : c.arena.isLive w)
    (hc : c.arena.children w = []) :
    c.apply (.remove w) = .ok (c.pruned w) := by
  rw [apply, Arena.removeAlone_eq_removeSubtree hw hlw hc]
  rfl

/-! ### Labels and origins -/

/-- Every node stands in for something. -/
theorem exists_origin (hw : c.arena.isLive w) : ∃ ref, c.origin? w = some ref := by
  obtain ⟨d, hd⟩ := Arena.exists_data?_of_isLive hw
  exact ⟨d.origin, by rw [origin?, hd]; rfl⟩

section Frame

variable (hw : c.arena.WellFormed) (hlw : c.arena.isLive w)

@[simp] theorem origin?_moved (c : WorkingCopy) (w p : NodeId) (k : Nat) (n : NodeId) :
    (c.moved w p k).origin? n = c.origin? n := by
  simp [origin?]

@[simp] theorem label?_moved (c : WorkingCopy) (w p : NodeId) (k : Nat) (n : NodeId) :
    (c.moved w p k).label? n = c.label? n := by
  simp [label?]

include hlw

theorem origin?_relabeled (label : String) (hn : c.arena.isLive n) :
    (c.relabeled w label).origin? n = c.origin? n := by
  rw [origin?, origin?, arena_relabeled, Arena.data?_setData hlw hn]
  split
  · cases c.arena.data? n <;> rfl
  · rfl

theorem label?_relabeled (label : String) (hn : c.arena.isLive n) :
    (c.relabeled w label).label? n = if n = w then some label else c.label? n := by
  rw [label?, label?, arena_relabeled, Arena.data?_setData hlw hn]
  split
  · obtain ⟨d, hd⟩ := Arena.exists_data?_of_isLive hn
    rw [hd]; rfl
  · rfl

include hw

theorem origin?_pruned (hn : c.arena.isLive n) (hb : ¬ c.arena.Below w n) :
    (c.pruned w).origin? n = c.origin? n := by
  rw [origin?, origin?, arena_pruned, Arena.data?_removeSubtree hw hlw hn hb]

theorem label?_pruned (hn : c.arena.isLive n) (hb : ¬ c.arena.Below w n) :
    (c.pruned w).label? n = c.label? n := by
  rw [label?, label?, arena_pruned, Arena.data?_removeSubtree hw hlw hn hb]

end Frame

section Grafted

variable {C : NodeId → List NodeId} {D : NodeId → Option String} {pairs : List (NodeId × NodeId)}
  {t : NodeId}
  (h : Arena.Grafted c.arena c'.arena C
    (fun x => (D x).map fun label => (⟨label, .dst x⟩ : WorkNode)) pairs p k t)

include h

theorem origin?_of_grafted (hn : c.arena.isLive n) : c'.origin? n = c.origin? n := by
  rw [origin?, origin?, h.data? hn]

theorem label?_of_grafted (hn : c.arena.isLive n) : c'.label? n = c.label? n := by
  rw [label?, label?, h.data? hn]

theorem origin?_of_mem (hm : (x, n) ∈ pairs) : c'.origin? n = some (.dst x) := by
  obtain ⟨e, he⟩ := Arena.exists_data?_of_isLive (h.isLive_new (List.mem_map_of_mem hm))
  have hd := (h.copied x n hm).1
  rw [origin?, he]
  rw [he] at hd
  obtain ⟨label, -, rfl⟩ := Option.map_eq_some_iff.1 hd.symm
  rfl

theorem label?_of_mem (hm : (x, n) ∈ pairs) : c'.label? n = D x := by
  rw [label?, (h.copied x n hm).1]
  cases D x <;> rfl

end Grafted

/-! ### Changes that fit -/

/-- No node of the copy has been made for `x`. -/
def Lacks (c : WorkingCopy) (x : NodeId) : Prop :=
  ∀ w, c.arena.isLive w → c.origin? w ≠ some (.dst x)

/-- **The changes that fit the working copy, the actions that tell of them and what they do.** -/
inductive Step (dst : Tree) (c : WorkingCopy) : Change → Action → WorkingCopy → Prop where
  | relabel {w s : NodeId} {label : String} (hw : c.arena.isLive w)
      (ho : c.origin? w = some (.src s)) :
      Step dst c (.relabel w label) (.update s label) (c.relabeled w label)
  | insert {x p : NodeId} {ref : NodeRef} {k : Nat} {data : NodeData} (hp : c.arena.isLive p)
      (hr : c.origin? p = some ref) (hk : k ≤ (c.arena.children p).length)
      (hx : dst.arena.isLive x) (hd : dst.arena.data? x = some data) (hnew : c.Lacks x) :
      Step dst c (.insert x data.label p k) (.insert x ref k)
        (c.grafted (.node (x, data.label) []) p k)
  | graft {x p : NodeId} {ref : NodeRef} {k : Nat} {v : RoseTree (NodeId × NodeData)}
      (hp : c.arena.isLive p) (hr : c.origin? p = some ref)
      (hk : k ≤ (c.arena.children p).length) (hx : dst.arena.isLive x)
      (hv : dst.view x = .ok v)
      (hnew : ∀ y, dst.arena.isLive y → dst.arena.Below x y → c.Lacks y) :
      Step dst c (.graft (v.map fun e => (e.1, e.2.label)) p k) (.treeInsert x (some ref) k)
        (c.grafted (v.map fun e => (e.1, e.2.label)) p k)
  | move {w p s : NodeId} {ref : NodeRef} {k : Nat} (hw : c.arena.isLive w)
      (hp : c.arena.isLive p) (ho : c.origin? w = some (.src s)) (hr : c.origin? p = some ref)
      (hb : ¬ c.arena.Below w p) (hk : k ≤ ((c.arena.children p).erase w).length) :
      Step dst c (.move w p k) (.move s ref k) (c.moved w p k)
  | removeTree {w s : NodeId} (hw : c.arena.isLive w) (ho : c.origin? w = some (.src s))
      (hroot : w ≠ c.root) :
      Step dst c (.removeTree w) (.treeDelete s) (c.pruned w)
  | remove {w s : NodeId} (hw : c.arena.isLive w) (ho : c.origin? w = some (.src s))
      (hroot : w ≠ c.root) (hc : c.arena.children w = []) :
      Step dst c (.remove w) (.delete s) (c.pruned w)

namespace Step

/-- **A change that fits can be carried out.** -/
theorem apply_eq (h : Step dst c change action c') (hw : c.arena.WellFormed) :
    c.apply change = .ok c' := by
  cases h with
  | relabel => rfl
  | insert hp => exact apply_insert hw hp _
  | graft hp => exact apply_graft hw hp
  | move hlw hp _ _ hb => exact apply_move hw hlw hp hb
  | removeTree => rfl
  | remove hlw _ _ hc => exact apply_remove hw hlw hc

/-- **There is an action that tells of a change that fits.** -/
theorem report?_eq (h : Step dst c change action c') (hd : dst.WellFormed) :
    c.report? change = some action := by
  cases h with
  | relabel _ ho => rw [report?, ho]
  | insert _ hr => rw [report?, hr]; rfl
  | @graft x _ _ _ v _ hr _ hx hv =>
      have htop : v.value.1 = x := by
        simpa using congrArg RoseTree.value (hd.depicts_of_view hx hv).2
      rw [report?, hr, RoseTree.value_map, htop]
      rfl
  | move _ _ ho hr => rw [report?, ho, hr]
  | removeTree _ ho => rw [report?, ho]
  | remove _ ho => rw [report?, ho]

end Step

/-! ### Changes one after the other -/

/-- The change with the action that tells of it, which a quiet script leaves out if the change
keeps all nodes. -/
def edit (quiet : Bool) (change : Change) (action : Action) : Edit :=
  ⟨change, if quiet && change.keepsNodes then none else some action⟩

/-- **Changes one after the other**, each with the action that tells of it.  All copies on the way
keep to the invariant `I`. -/
inductive Run (I : WorkingCopy → Prop) (dst : Tree) (quiet : Bool) (c₀ : WorkingCopy) :
    List Edit → WorkingCopy → Prop where
  | nil (hI : I c₀) : Run I dst quiet c₀ [] c₀
  | snoc {edits : List Edit} {c c' : WorkingCopy} {change : Change} {action : Action}
      (h : Run I dst quiet c₀ edits c) (hs : Step dst c change action c') (hI : I c') :
      Run I dst quiet c₀ (edits ++ [edit quiet change action]) c'

namespace Run

variable {I : WorkingCopy → Prop} {quiet : Bool} {c₀ : WorkingCopy} {edits : List Edit}

theorem invariant (h : Run I dst quiet c₀ edits c) : I c := by
  cases h with
  | nil hI => exact hI
  | snoc _ _ hI => exact hI

/-- The first changes of a run are a run. -/
theorem take (h : Run I dst quiet c₀ edits c) (n : Nat) :
    ∃ c', Run I dst quiet c₀ (edits.take n) c' := by
  induction h with
  | nil hI => exact ⟨c₀, by rw [List.take_nil]; exact Run.nil hI⟩
  | @snoc edits c c' change action h hs hI ih =>
      rcases Nat.lt_or_ge edits.length n with hn | hn
      · have hlen : (edits ++ [edit quiet change action]).length ≤ n := by
          rw [List.length_append, List.length_singleton]
          omega
        exact ⟨c', by rw [List.take_of_length_le hlen]; exact Run.snoc h hs hI⟩
      · rw [List.take_append_of_le_length hn]
        exact ih

/-- **Every change of a run fits the copy as it is then.** -/
theorem exists_step (h : Run I dst quiet c₀ edits c) {n : Nat} {e : Edit}
    (he : edits[n]? = some e) : ∃ c₁ c₂ action, Run I dst quiet c₀ (edits.take n) c₁ ∧
      Step dst c₁ e.change action c₂ := by
  induction h with
  | nil => cases he
  | @snoc edits c c' change action h hs hI ih =>
      rcases Nat.lt_trichotomy n edits.length with hn | hn | hn
      · rw [List.getElem?_append_left hn] at he
        rw [List.take_append_of_le_length (Nat.le_of_lt hn)]
        exact ih he
      · subst hn
        rw [List.getElem?_concat_length] at he
        obtain rfl := Option.some.inj he
        exact ⟨c, c', action, by rwa [List.take_left' rfl], hs⟩
      · have hnone : (edits ++ [edit quiet change action])[n]? = none := by
          rw [List.getElem?_eq_none_iff, List.length_append, List.length_singleton]
          omega
        rw [hnone] at he
        cases he

/-- **A script that is not quiet tells of every change.** -/
theorem map_report? (h : Run I dst false c₀ edits c) :
    edits.map Edit.report? = (edits.filterMap Edit.report?).map some := by
  induction h with
  | nil => rfl
  | snoc _ _ _ ih =>
      rw [List.map_append, List.filterMap_append, List.map_append, ih]
      simp [edit]

end Run

end TreeScript.WorkingCopy
