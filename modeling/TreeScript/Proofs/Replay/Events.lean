/-
**What happens to nodes when a script is replayed.**

Of the nodes of the tree in the making only two things are recorded: that a node is made for a
destination node, and that a node goes.  What the actions of a script have brought about is the
list of these events, in order.  The tables of references follow the events one by one.

Main definitions:

* `TreeScript.Event` — **a node is made, or goes**;
* `TreeScript.Action.brings` — the destination nodes that an action brings in;
* `TreeScript.Replay.events`, `TreeScript.Replay.history` — **what an action, and a script, brings
  about**;
* `TreeScript.Replay.note` — the tables of references after an event;
* `TreeScript.Replay.Happens` — how the nodes and the tables of references follow the events of one
  action.

Main results:

* `TreeScript.Replay.Sound.happens` — **what every accepted action does**: it makes some new nodes,
  or some nodes go, and the tables of references are told;
* `TreeScript.Replay.history_append` — what a script brings about, part by part.
-/

import TreeScript.Proofs.Arena.Grafting
import TreeScript.Proofs.Replay.Untouched
import TreeScript.Proofs.Tree.WellFormed

set_option relaxedAutoImplicit false
set_option autoImplicit false

namespace TreeScript

/-- What happens to a node. -/
inductive Event where
  /-- Node `node` is made for destination node `origin`. -/
  | made (origin node : NodeId)
  /-- Node `node` goes. -/
  | gone (node : NodeId)
deriving DecidableEq, Repr

namespace Event

/-- The node that is made. -/
def made? : Event → Option NodeId
  | made _ n => some n
  | gone _ => none

/-- The destination node that a node is made for. -/
def origin? : Event → Option NodeId
  | made d _ => some d
  | gone _ => none

/-- The node that goes. -/
def gone? : Event → Option NodeId
  | made _ _ => none
  | gone n => some n

theorem mem_filterMap_made? {es : List Event} {n : NodeId} :
    n ∈ es.filterMap made? ↔ ∃ d, made d n ∈ es := by
  rw [List.mem_filterMap]
  constructor
  · rintro ⟨e, he, hn⟩
    cases e with
    | made d k => exact ⟨d, Option.some.inj hn ▸ he⟩
    | gone k => cases hn
  · rintro ⟨d, hd⟩
    exact ⟨_, hd, rfl⟩

theorem mem_filterMap_gone? {es : List Event} {n : NodeId} :
    n ∈ es.filterMap gone? ↔ gone n ∈ es := by
  rw [List.mem_filterMap]
  constructor
  · rintro ⟨e, he, hn⟩
    cases e with
    | made d k => cases hn
    | gone k => exact Option.some.inj hn ▸ he
  · exact fun h => ⟨_, h, rfl⟩

/-- The events that nodes are made for others. -/
def mades (pairs : List (NodeId × NodeId)) : List Event := pairs.map fun p => made p.1 p.2

/-- Each node that is made is made for one. -/
theorem length_filterMap_origin? (es : List Event) :
    (es.filterMap origin?).length = (es.filterMap made?).length := by
  induction es with
  | nil => rfl
  | cons e es ih =>
      cases e with
      | made d n => exact congrArg (· + 1) ih
      | gone n => exact ih

@[simp] theorem made_mem_mades {pairs : List (NodeId × NodeId)} {d n : NodeId} :
    made d n ∈ mades pairs ↔ (d, n) ∈ pairs := by
  simp [mades]

@[simp] theorem gone_not_mem_mades {pairs : List (NodeId × NodeId)} {n : NodeId} :
    gone n ∉ mades pairs := by
  simp [mades]

@[simp] theorem filterMap_made?_mades (pairs : List (NodeId × NodeId)) :
    (mades pairs).filterMap made? = pairs.map Prod.snd := by
  rw [mades, List.filterMap_map, ← List.filterMap_eq_map]
  rfl

@[simp] theorem filterMap_origin?_mades (pairs : List (NodeId × NodeId)) :
    (mades pairs).filterMap origin? = pairs.map Prod.fst := by
  rw [mades, List.filterMap_map, ← List.filterMap_eq_map]
  rfl

@[simp] theorem filterMap_gone?_mades (pairs : List (NodeId × NodeId)) :
    (mades pairs).filterMap gone? = [] := by
  rw [mades, List.filterMap_map]
  exact List.filterMap_eq_nil_iff.2 fun _ _ => rfl

@[simp] theorem filterMap_made?_map_gone (ns : List NodeId) :
    (ns.map gone).filterMap made? = [] := by
  rw [List.filterMap_map]
  exact List.filterMap_eq_nil_iff.2 fun _ _ => rfl

@[simp] theorem filterMap_origin?_map_gone (ns : List NodeId) :
    (ns.map gone).filterMap origin? = [] := by
  rw [List.filterMap_map]
  exact List.filterMap_eq_nil_iff.2 fun _ _ => rfl

@[simp] theorem filterMap_gone?_map_gone (ns : List NodeId) :
    (ns.map gone).filterMap gone? = ns := by
  rw [List.filterMap_map]
  exact List.filterMap_some

end Event

/-- The destination nodes that an action brings in, in the order in which it does. -/
def Action.brings (dst : Tree) : Action → List NodeId
  | .insert d _ _ => [d]
  | .treeInsert d _ _ => dst.arena.preorder d
  | _ => []

namespace Replay

variable {r r' : Replay} {a : Action} {a₀ : Arena NodeData} {n d p : NodeId} {k : Nat}
  {ref : NodeRef} {v : RoseTree (NodeId × NodeData)} {pairs : List (NodeId × NodeId)}
  {ns : List NodeId}

/-! ### Events -/

/-- **What action `a` brings about** when it leads from `r` to `r'`.  The copies of a subtree stand
in the tree as their originals do in the destination. -/
def events (r r' : Replay) : Action → List Event
  | .insert d _ _ => [.made d r.arena.nextId]
  | .treeInsert d _ _ =>
    Event.mades ((r.dst.arena.preorder d).zip (r'.arena.preorder r.arena.nextId))
  | .update _ _ => []
  | .move _ _ _ => []
  | .treeDelete s => (r.arena.preorder s).map .gone
  | .delete s => [.gone s]

/-- **What a script brings about**, up to the first action that is not accepted. -/
def history (r : Replay) : List Action → List Event
  | [] => []
  | a :: script =>
    match r.step a with
    | .ok r' => events r r' a ++ history r' script
    | .error _ => []

theorem history_cons {script : List Action} (h : r.step a = .ok r') :
    r.history (a :: script) = events r r' a ++ r'.history script := by
  rw [history, h]

/-- What a script brings about is what its parts bring about, one after the other. -/
theorem history_append {before after : List Action} (h : r.run before = .ok r') :
    r.history (before ++ after) = r.history before ++ r'.history after := by
  induction before generalizing r with
  | nil =>
      obtain rfl := Except.ok.inj h
      rfl
  | cons a before ih =>
      obtain ⟨r₁, hstep, h⟩ := run_cons_iff.1 h
      rw [List.cons_append, history_cons hstep, history_cons hstep, ih h, List.append_assoc]

/-- The tables of references after an event. -/
def note (r : Replay) : Event → Replay
  | .made d n => r.track (.dst d) n
  | .gone n => r.forget n

/-- The tables of references of `r'` are those of `r`. -/
structure SameTables (r r' : Replay) : Prop where
  live? : ∀ ref, r'.live? ref = r.live? ref
  refs : ∀ n, r'.refs.get? n = r.refs.get? n

/-- **How nodes and tables follow the events of one action.** -/
inductive Happens (r r' : Replay) : List Event → Prop where
  /-- Nodes are made that have never been there. -/
  | made (pairs : List (NodeId × NodeId)) (nodup : (pairs.map Prod.snd).Nodup)
      (not_issued : ∀ n ∈ pairs.map Prod.snd, ¬ r.arena.Issued n)
      (isLive_iff : ∀ n, r'.arena.isLive n ↔ r.arena.isLive n ∨ n ∈ pairs.map Prod.snd)
      (tables : SameTables ((Event.mades pairs).foldl note r) r') :
      Happens r r' (Event.mades pairs)
  /-- Nodes go that have been there. -/
  | gone (ns : List NodeId) (nodup : ns.Nodup) (isLive : ∀ n ∈ ns, r.arena.isLive n)
      (isLive_iff : ∀ n, r'.arena.isLive n ↔ r.arena.isLive n ∧ n ∉ ns)
      (tables : SameTables ((ns.map .gone).foldl note r) r') :
      Happens r r' (ns.map .gone)

/-- Nothing happens to the nodes when links or payloads are changed. -/
theorem Happens.nothing (hlive : ∀ n, r'.arena.isLive n ↔ r.arena.isLive n)
    (ht : SameTables r r') : Happens r r' [] :=
  .made [] List.nodup_nil (by simp) (by simpa using hlive) ht

/-! ### Nodes that are made -/

theorem foldl_note_mades (pairs : List (NodeId × NodeId)) (r : Replay) :
    (Event.mades pairs).foldl note r =
      { r with
        ofDst := r.ofDst.insertAll pairs
        refs := r.refs.insertAll (pairs.map fun e => (e.2, .dst e.1)) } := by
  rw [Event.mades, List.foldl_map]
  exact foldl_track_dst pairs r

/-- With a copy of a part of the destination the tables are told of its nodes. -/
theorem tables_planted (v : RoseTree (NodeId × NodeData)) :
    SameTables ((Event.mades (r.arena.plant none v).2).foldl note r) (r.planted v) := by
  rw [foldl_note_mades]
  exact ⟨fun ref => by cases ref <;> rfl, fun _ => rfl⟩

/-- A copy stands in the tree as its original does in the destination. -/
theorem zip_preorder_eq (hd : r.dst.WellFormed) (hdl : r.dst.arena.isLive d)
    (hids : v.map Prod.fst = r.dst.arena.subtree d) {e : Arena NodeData} (he : e.WellFormed)
    (hlive : ∀ n ∈ (r.arena.plant none v).2.map Prod.snd, e.isLive n)
    (hc : Arena.CopiedBy r.dst.arena.children r.dst.arena.data? (r.arena.plant none v).2 e) :
    (r.dst.arena.preorder d).zip (e.preorder r.arena.nextId) = (r.arena.plant none v).2 := by
  have hfst := Arena.map_fst_plant_subtree hids r.arena none
  rw [hc.preorder_eq hd.arena he hlive hdl hfst (Arena.mem_plant_subtree hids r.arena none), ← hfst]
  exact (List.zip_of_prod rfl rfl).symm

namespace Sound

variable (h : r.Sound a₀)

include h

/-- A copy of a part of the destination is made of new nodes, wherever it is put. -/
theorem happens_planted (v : RoseTree (NodeId × NodeData))
    (hlive : ∀ n, r'.arena.isLive n ↔ (r.planted v).arena.isLive n)
    (ht : SameTables (r.planted v) r') :
    Happens r r' (Event.mades (r.arena.plant none v).2) := by
  have hg := grown_planted h.wf v
  have ht' := tables_planted (r := r) v
  refine .made _ hg.nodup hg.not_issued (fun n => (hlive n).trans hg.isLive_iff) ⟨?_, ?_⟩
  · exact fun ref => (ht.live? ref).trans (ht'.live? ref)
  · exact fun n => (ht.refs n).trans (ht'.refs n)

theorem happens_grafted (v : RoseTree (NodeId × NodeData)) (p : NodeId) (k : Nat) :
    Happens r (r.grafted v p k) (Event.mades (r.arena.plant none v).2) :=
  h.happens_planted v (fun n => by rw [Replay.grafted, Arena.isLive_link]; rfl)
    ⟨fun ref => by cases ref <;> rfl, fun _ => rfl⟩

end Sound

/-! ### Nodes that go -/

theorem tables_remove (r : Replay) (n : NodeId) :
    SameTables (((r.arena.preorder n).map .gone).foldl note r) (r.remove n) := by
  rw [List.foldl_map]
  exact ⟨fun ref => live?_remove_eq r n ref, fun _ => rfl⟩

namespace Sound

variable (h : r.Sound a₀)

include h

/-- With a node goes what is below it. -/
theorem happens_remove (hn : r.arena.isLive n) :
    Happens r (r.remove n) ((r.arena.preorder n).map .gone) := by
  refine .gone _ (h.wf.nodup_preorder hn) ?_ ?_ (tables_remove r n)
  · exact fun m hm => ((h.wf.mem_preorder_iff hn).1 hm).1
  · intro m
    rw [arena_remove, Arena.isLive_removeSubtree_iff h.wf hn, h.wf.mem_preorder_iff hn]
    exact and_congr_right fun hm => not_congr (and_iff_right hm).symm

/-! ### Actions -/

/-- **What every accepted action does to the nodes**, if the destination nodes that it names are
there: the nodes that are made are made for those that it brings in. -/
theorem happens (hd : r.dst.WellFormed) (hnames : ∀ d, a.node = .dst d → r.dst.contains d)
    (ha : r.Accepts a r') : Happens r r' (events r r' a) ∧
      (events r r' a).filterMap Event.origin? = a.brings r.dst := by
  cases ha with
  | @insert d p parent k data hp hk hdata =>
      exact ⟨h.happens_grafted (.node (d, data) []) p k, rfl⟩
  | @treeInsert d p parent k v hp hk hv =>
      have hdl := hd.contains_iff.1 (hnames d rfl)
      obtain ⟨hdepicts, hids⟩ := hd.depicts_of_view hdl hv
      have hg := Arena.grafted_plant h.wf (h.isLive hp) hdepicts k
      have hevents : events r (r.grafted v p k) (.treeInsert d (some parent) k) = Event.mades _ :=
        congrArg _ (zip_preorder_eq hd hdl hids hg.wf (fun n hn => hg.isLive_new hn) hg.copied)
      rw [hevents, Event.filterMap_origin?_mades, Arena.map_fst_plant_subtree hids]
      exact ⟨h.happens_grafted v p k, rfl⟩
  | @root d k v hr hv =>
      have hdl := hd.contains_iff.1 (hnames d rfl)
      obtain ⟨hdepicts, hids⟩ := hd.depicts_of_view hdl hv
      have hg := grown_planted h.wf v
      have hevents : events r { r.planted v with root := some r.arena.nextId }
          (.treeInsert d none k) = Event.mades _ :=
        congrArg _ (zip_preorder_eq hd hdl hids hg.wf (fun n hn => hg.isLive_new hn)
          (Arena.copiedBy_plant v hdepicts h.wf (by simp)))
      rw [hevents, Event.filterMap_origin?_mades, Arena.map_fst_plant_subtree hids]
      exact ⟨h.happens_planted v (fun _ => Iff.rfl)
        ⟨fun ref => by cases ref <;> rfl, fun _ => rfl⟩, rfl⟩
  | update hn => exact ⟨.nothing (by simp) ⟨fun _ => rfl, fun _ => rfl⟩, rfl⟩
  | move hn hp hb hk => exact ⟨.nothing (by simp) ⟨fun _ => rfl, fun _ => rfl⟩, rfl⟩
  | @treeDelete s n hn =>
      obtain rfl := h.src hn
      exact ⟨h.happens_remove (h.isLive hn), Event.filterMap_origin?_map_gone _⟩
  | @delete s n hn hc =>
      obtain rfl := h.src hn
      have hgone := h.happens_remove (h.isLive hn)
      rw [h.wf.preorder_eq (h.isLive hn), hc] at hgone
      exact ⟨hgone, rfl⟩

end Sound

end Replay

end TreeScript
