/-
**What the tables of references remember of the past.**

The tables say which node a reference stands for and which reference a node has.  Here they are
described by what has happened since the beginning.  A source node stands for itself until it goes.
A destination node stands for the node that was made for it last; but when a node goes, it takes
along what the destination node it was made for stands for, even if that is another node by then.

Main definitions:

* `TreeScript.Origin` — where a node comes from;
* `TreeScript.Current` — **the node that a destination node stands for**, in terms of events;
* `TreeScript.Replay.Told` — the tables say what the events say;
* `TreeScript.Replay.Chronicle` — **nodes and tables are what has become of the source**.

Main results:

* `TreeScript.Replay.Told.made`, `TreeScript.Replay.Told.gone` — the tables after one event;
* `TreeScript.Replay.Chronicle.happens` — after an action;
* `TreeScript.Replay.chronicle_run` — **after a script**.
-/

import Mathlib.Data.List.Induction
import TreeScript.Proofs.Replay.Events

set_option relaxedAutoImplicit false
set_option autoImplicit false

namespace TreeScript

/-- Where node `n` comes from: it is a source node, or it was made for a destination node. -/
inductive Origin (src : Tree) (es : List Event) : NodeRef → NodeId → Prop where
  | src {n : NodeId} (h : src.arena.isLive n) : Origin src es (.src n) n
  | dst {d n : NodeId} (h : .made d n ∈ es) : Origin src es (.dst d) n

/-- **Destination node `d` stands for `n`**: `n` was made for it last, and since then no node has
gone that was made for it. -/
def Current (es : List Event) (d n : NodeId) : Prop :=
  ∃ es₁ es₂, es = es₁ ++ .made d n :: es₂ ∧ (∀ m, .made d m ∉ es₂) ∧
    ∀ m, .made d m ∈ es → .gone m ∉ es₂

variable {src dst : Tree} {es es' : List Event} {ref : NodeRef} {n m s d x : NodeId}
  {pairs : List (NodeId × NodeId)} {ns : List NodeId} {e : Event}

namespace Origin

theorem mono (h : Origin src es ref n) : Origin src (es ++ es') ref n := by
  cases h with
  | src h => exact .src h
  | dst h => exact .dst (List.mem_append_left _ h)

theorem src_iff : Origin src es (.src s) n ↔ n = s ∧ src.arena.isLive s := by
  constructor
  · rintro ⟨h⟩
    exact ⟨rfl, h⟩
  · rintro ⟨rfl, h⟩
    exact .src h

theorem dst_iff : Origin src es (.dst d) n ↔ .made d n ∈ es := by
  constructor
  · rintro ⟨h⟩
    assumption
  · exact .dst

theorem snoc_made_iff : Origin src (es ++ [.made d n]) ref m ↔
    Origin src es ref m ∨ ref = .dst d ∧ m = n := by
  cases ref with
  | src s => simp [src_iff]
  | dst x => simp [dst_iff]

theorem snoc_gone_iff : Origin src (es ++ [.gone n]) ref m ↔ Origin src es ref m := by
  cases ref with
  | src s => simp [src_iff]
  | dst x => simp [dst_iff]

end Origin

namespace Origin

theorem nil_iff : Origin src [] ref n ↔ ref = .src n ∧ src.arena.isLive n := by
  cases ref with
  | src s =>
      rw [src_iff, NodeRef.src.injEq]
      constructor
      · rintro ⟨rfl, h⟩
        exact ⟨rfl, h⟩
      · rintro ⟨rfl, h⟩
        exact ⟨rfl, h⟩
  | dst d => simp [dst_iff]

/-- After new nodes have been made, a node comes from where it came from, or is new. -/
theorem exists_append_mades_iff : (∃ ref, Origin src (es ++ Event.mades pairs) ref n) ↔
    (∃ ref, Origin src es ref n) ∨ n ∈ pairs.map Prod.snd := by
  constructor
  · rintro ⟨ref, h | h⟩
    · exact Or.inl ⟨_, .src h⟩
    · rcases List.mem_append.1 h with h | h
      · exact Or.inl ⟨_, .dst h⟩
      · exact Or.inr (List.mem_map_of_mem (Event.made_mem_mades.1 h))
  · rintro (⟨ref, h⟩ | h)
    · exact ⟨ref, h.mono⟩
    · obtain ⟨d, hd⟩ := exists_mem_of_snd h
      exact ⟨.dst d, .dst (List.mem_append_right _ (Event.made_mem_mades.2 hd))⟩

theorem append_map_gone_iff : Origin src (es ++ ns.map .gone) ref n ↔ Origin src es ref n := by
  cases ref with
  | src s => simp [src_iff]
  | dst d => simp [dst_iff]

end Origin

/-- An element stands in front of the last one, or it is the last one. -/
theorem concat_eq_split_iff {σ : Type} {l l₁ l₂ : List σ} {x y : σ} :
    l ++ [y] = l₁ ++ x :: l₂ ↔
      l₂ = [] ∧ l = l₁ ∧ y = x ∨ ∃ l₃, l₂ = l₃ ++ [y] ∧ l = l₁ ++ x :: l₃ := by
  rcases List.eq_nil_or_concat l₂ with rfl | ⟨l₃, z, rfl⟩
  · simp [List.append_singleton_inj]
  · rw [List.concat_eq_append, ← List.cons_append, ← List.append_assoc,
      List.append_singleton_inj]
    simp only [List.append_eq_nil_iff, List.cons_ne_self, and_false, false_and, false_or,
      List.append_singleton_inj]
    constructor
    · rintro ⟨h, rfl⟩
      exact ⟨l₃, ⟨rfl, rfl⟩, h⟩
    · rintro ⟨_, ⟨rfl, rfl⟩, h⟩
      exact ⟨h, rfl⟩

namespace Current

/-- A node that has just been made is the one that is stood for. -/
theorem snoc_made_self : Current (es ++ [.made d n]) d m ↔ m = n := by
  constructor
  · rintro ⟨es₁, es₂, he, hlast, -⟩
    rcases concat_eq_split_iff.1 he with ⟨-, -, he⟩ | ⟨es₃, rfl, -⟩
    · exact (Event.made.inj he).2.symm
    · exact absurd (List.mem_append_right _ (List.mem_singleton_self _)) (hlast n)
  · rintro rfl
    exact ⟨es, [], rfl, by simp, by simp⟩

/-- Any other event counts only if it takes away a node that was made for `d`. -/
theorem snoc_iff (he : ∀ m, e ≠ .made d m) : Current (es ++ [e]) d n ↔
    Current es d n ∧ ∀ m, .made d m ∈ es → e ≠ .gone m := by
  have hmem : ∀ m, .made d m ∈ es ++ [e] ↔ .made d m ∈ es := fun m => by
    rw [List.mem_append, List.mem_singleton]
    exact or_iff_left fun h => he m h.symm
  constructor
  · rintro ⟨es₁, es₂, hes, hlast, hgone⟩
    rcases concat_eq_split_iff.1 hes with ⟨-, -, hn⟩ | ⟨es₃, rfl, rfl⟩
    · exact absurd hn (he n)
    · refine ⟨⟨es₁, es₃, rfl, fun m hm => hlast m (List.mem_append_left _ hm),
        fun m hm hg => hgone m ((hmem m).2 hm) (List.mem_append_left _ hg)⟩, ?_⟩
      rintro m hm rfl
      exact hgone m ((hmem m).2 hm) (List.mem_append_right _ (List.mem_singleton_self _))
  · rintro ⟨⟨es₁, es₂, rfl, hlast, hgone⟩, hother⟩
    refine ⟨es₁, es₂ ++ [e], by simp, fun m hm => ?_, fun m hm hg => ?_⟩
    · rcases List.mem_append.1 hm with hm | hm
      · exact hlast m hm
      · exact he m (List.mem_singleton.1 hm).symm
    · rw [hmem] at hm
      rcases List.mem_append.1 hg with hg | hg
      · exact hgone m hm hg
      · exact hother m hm (List.mem_singleton.1 hg).symm

theorem made (h : Current es d n) : .made d n ∈ es := by
  obtain ⟨es₁, es₂, rfl, -, -⟩ := h
  exact List.mem_append_right _ List.mem_cons_self

/-- **A destination node stands for a node** if one has been made for it and none of those has
gone. -/
theorem exists_of_made (h : .made d n ∈ es)
    (hgone : ∀ k, .made d k ∈ es → .gone k ∉ es) : ∃ k, Current es d k := by
  induction es using List.reverseRecOn generalizing n with
  | nil => cases h
  | append_singleton es e ih =>
      by_cases he : ∃ k, e = .made d k
      · obtain ⟨k, rfl⟩ := he
        exact ⟨k, snoc_made_self.2 rfl⟩
      · have hne : ∀ k, e ≠ .made d k := fun k hk => he ⟨k, hk⟩
        have hmem : .made d n ∈ es := by
          rcases List.mem_append.1 h with h | h
          · exact h
          · exact absurd (List.mem_singleton.1 h).symm (hne n)
        obtain ⟨k, hk⟩ := ih hmem fun k hk hg =>
          hgone k (List.mem_append_left _ hk) (List.mem_append_left _ hg)
        refine ⟨k, (snoc_iff hne).2 ⟨hk, ?_⟩⟩
        rintro k' hk' rfl
        exact hgone k' (List.mem_append_left _ hk')
          (List.mem_append_right _ (List.mem_singleton_self _))

end Current

namespace Replay

variable {r r' : Replay} {a : Action} {script : List Action}

/-! ### The tables follow the events -/

/-- **The tables of references say what the events say.** -/
structure Told (src : Tree) (es : List Event) (r : Replay) : Prop where
  /-- A source node stands for itself until it goes. -/
  live?_src : ∀ {s n}, r.live? (.src s) = some n ↔ Origin src es (.src s) n ∧ .gone n ∉ es
  /-- A destination node stands for what was made for it last. -/
  live?_dst : ∀ {d n}, r.live? (.dst d) = some n ↔ Current es d n
  /-- A node knows where it comes from until it goes. -/
  refs : ∀ {n ref}, r.refs.get? n = some ref ↔ Origin src es ref n ∧ .gone n ∉ es

namespace Told

theorem congr (h : Told src es r) (hrr : SameTables r r') : Told src es r' where
  live?_src := by intro s n; rw [hrr.live?, h.live?_src]
  live?_dst := by intro d n; rw [hrr.live?, h.live?_dst]
  refs := by intro n ref; rw [hrr.refs, h.refs]

/-- **A new node is made.** -/
theorem made (h : Told src es r) (hnew : ∀ ref, ¬ Origin src es ref n) (hgone : .gone n ∉ es) :
    Told src (es ++ [.made d n]) (r.note (.made d n)) where
  live?_src := by
    intro s m
    rw [note, live?_track, if_neg nofun, h.live?_src, Origin.snoc_made_iff]
    simp
  live?_dst := by
    intro x m
    rw [note, live?_track]
    by_cases hdx : d = x
    · subst hdx
      rw [if_pos rfl, Option.some_inj, Current.snoc_made_self, eq_comm]
    · rw [if_neg fun he => hdx (NodeRef.dst.inj he), h.live?_dst,
        Current.snoc_iff fun m he => hdx (Event.made.inj he).1]
      simp
  refs := by
    intro m ref
    have hrefs : (r.note (.made d n)).refs.get? m =
        if n = m then some (.dst d) else r.refs.get? m := NodeMap.get?_insert _ _ _ _
    rw [hrefs, Origin.snoc_made_iff]
    by_cases hnm : n = m
    · subst hnm
      simp [hnew, hgone, eq_comm]
    · rw [if_neg hnm, h.refs]
      simp [Ne.symm hnm]

/-- **A node goes that has not gone before.**  With it goes the meaning of the reference that it
knows, which is the one that it was made for. -/
theorem gone (h : Told src es r) (hgone : .gone n ∉ es) :
    Told src (es ++ [.gone n]) (r.note (.gone n)) where
  live?_src := by
    intro s m
    rw [note, live?_forget, Origin.snoc_gone_iff, Origin.src_iff]
    split
    case isTrue hn =>
      rw [h.refs, Origin.src_iff] at hn
      obtain ⟨⟨rfl, -⟩, -⟩ := hn
      refine ⟨nofun, ?_⟩
      rintro ⟨⟨rfl, -⟩, hm⟩
      exact absurd (List.mem_append_right _ (List.mem_singleton_self _)) hm
    case isFalse hn =>
      rw [h.refs, Origin.src_iff] at hn
      rw [h.live?_src, Origin.src_iff]
      simp only [List.mem_append, List.mem_singleton, Event.gone.injEq, not_or]
      refine and_congr_right fun hm => ⟨fun hgm => ⟨hgm, ?_⟩, And.left⟩
      rintro rfl
      exact hn ⟨hm, hgm⟩
  live?_dst := by
    intro x m
    rw [note, live?_forget, Current.snoc_iff (by simp)]
    split
    case isTrue hn =>
      rw [h.refs, Origin.dst_iff] at hn
      simp [hn.1]
    case isFalse hn =>
      rw [h.refs, Origin.dst_iff] at hn
      rw [h.live?_dst]
      refine (and_iff_left ?_).symm
      rintro k hk he
      exact hn ⟨Event.gone.inj he ▸ hk, hgone⟩
  refs := by
    intro m ref
    rw [note, refs_forget, Origin.snoc_gone_iff]
    by_cases hnm : n = m
    · simp [hnm]
    · rw [if_neg hnm, h.refs]
      simp [Ne.symm hnm]

/-- Many new nodes are made. -/
theorem mades (h : Told src es r) (hnd : (pairs.map Prod.snd).Nodup)
    (hnew : ∀ n ∈ pairs.map Prod.snd, (∀ ref, ¬ Origin src es ref n) ∧ .gone n ∉ es) :
    Told src (es ++ Event.mades pairs) ((Event.mades pairs).foldl note r) := by
  induction pairs generalizing es r with
  | nil => simpa [Event.mades] using h
  | cons p pairs ih =>
      rw [List.map_cons, List.nodup_cons] at hnd
      rw [List.map_cons, List.forall_mem_cons] at hnew
      obtain ⟨⟨hp, hgone⟩, hnew⟩ := hnew
      have h' := ih (h.made (d := p.1) hp hgone) hnd.2 fun n hn => ?_
      · rwa [List.append_assoc] at h'
      · refine ⟨fun ref ho => ?_, by simpa using (hnew n hn).2⟩
        rcases Origin.snoc_made_iff.1 ho with ho | ⟨-, rfl⟩
        · exact (hnew n hn).1 ref ho
        · exact hnd.1 hn

/-- Many nodes go. -/
theorem map_gone (h : Told src es r) (hnd : ns.Nodup) (hgone : ∀ n ∈ ns, .gone n ∉ es) :
    Told src (es ++ ns.map .gone) ((ns.map .gone).foldl note r) := by
  induction ns generalizing es r with
  | nil => simpa using h
  | cons n ns ih =>
      rw [List.nodup_cons] at hnd
      rw [List.forall_mem_cons] at hgone
      have h' := ih (h.gone hgone.1) hnd.2 fun m hm => ?_
      · rwa [List.append_assoc] at h'
      · have hne : m ≠ n := fun he => hnd.1 (he ▸ hm)
        simpa [hne] using hgone.2 m hm

end Told

/-! ### Nodes and tables -/

/-- **Nodes and tables are what has become of the source** by the events `es`. -/
structure Chronicle (src : Tree) (es : List Event) (r : Replay) : Prop where
  told : Told src es r
  /-- What is there has come and not gone. -/
  isLive_iff : ∀ {n}, r.arena.isLive n ↔ (∃ ref, Origin src es ref n) ∧ .gone n ∉ es
  issued : ∀ {ref n}, Origin src es ref n → r.arena.Issued n
  /-- Only what has come goes. -/
  origin_of_gone : ∀ {n}, .gone n ∈ es → ∃ ref, Origin src es ref n
  /-- No node comes twice, -/
  nodup_made : (es.filterMap Event.made?).Nodup
  not_isLive : ∀ {d n}, .made d n ∈ es → ¬ src.arena.isLive n
  /-- and none goes twice. -/
  nodup_gone : (es.filterMap Event.gone?).Nodup

namespace Chronicle

theorem start (h : src.WellFormed) (dst : Tree) : Chronicle src [] (Replay.start src dst) where
  told :=
    { live?_src := by intro s n; rw [live?_start h, Origin.nil_iff]; simp
      live?_dst := by intro d n; rw [live?_start h]; simp [Current]
      refs := by intro n ref; rw [twoWay_start h, live?_start h, Origin.nil_iff]; simp }
  isLive_iff := by intro n; rw [arena_start]; simp [Origin.nil_iff]
  issued := by
    intro ref n ho
    rw [arena_start]
    exact Arena.issued_of_isLive (Origin.nil_iff.1 ho).2
  origin_of_gone := nofun
  nodup_made := List.nodup_nil
  not_isLive := nofun
  nodup_gone := List.nodup_nil

theorem issued_of_gone (h : Chronicle src es r) (hn : .gone n ∈ es) : r.arena.Issued n := by
  obtain ⟨ref, ho⟩ := h.origin_of_gone hn
  exact h.issued ho

/-- **New nodes are made.** -/
theorem mades (h : Chronicle src es r) (hlater : Arena.Later r.arena r'.arena)
    (hnd : (pairs.map Prod.snd).Nodup) (hnew : ∀ n ∈ pairs.map Prod.snd, ¬ r.arena.Issued n)
    (hlive : ∀ n, r'.arena.isLive n ↔ r.arena.isLive n ∨ n ∈ pairs.map Prod.snd)
    (ht : SameTables ((Event.mades pairs).foldl note r) r') :
    Chronicle src (es ++ Event.mades pairs) r' where
  told := by
    refine (h.told.mades hnd fun n hn => ⟨fun ref ho => ?_, fun hg => ?_⟩).congr ht
    · exact hnew n hn (h.issued ho)
    · exact hnew n hn (h.issued_of_gone hg)
  isLive_iff := by
    intro n
    have hgone : n ∈ pairs.map Prod.snd → .gone n ∉ es := fun hn hg =>
      hnew n hn (h.issued_of_gone hg)
    rw [hlive, h.isLive_iff, Origin.exists_append_mades_iff, List.mem_append, or_and_right,
      not_or, and_iff_left Event.gone_not_mem_mades, and_iff_left_of_imp hgone]
  issued := by
    intro ref n ho
    rcases Origin.exists_append_mades_iff.1 ⟨ref, ho⟩ with ⟨ref', ho'⟩ | hn
    · exact hlater.issued (h.issued ho')
    · exact Arena.issued_of_isLive ((hlive n).2 (Or.inr hn))
  origin_of_gone := by
    intro n hn
    obtain ⟨ref, ho⟩ := h.origin_of_gone
      ((List.mem_append.1 hn).resolve_right Event.gone_not_mem_mades)
    exact ⟨ref, ho.mono⟩
  nodup_made := by
    rw [List.filterMap_append, Event.filterMap_made?_mades]
    refine h.nodup_made.append hnd fun n hn hn' => ?_
    obtain ⟨d, hd⟩ := Event.mem_filterMap_made?.1 hn
    exact hnew n hn' (h.issued (.dst hd))
  not_isLive := by
    intro d n hn hl
    rcases List.mem_append.1 hn with hn | hn
    · exact h.not_isLive hn hl
    · exact hnew n (List.mem_map_of_mem (Event.made_mem_mades.1 hn)) (h.issued (.src hl))
  nodup_gone := by
    rw [List.filterMap_append, Event.filterMap_gone?_mades, List.append_nil]
    exact h.nodup_gone

/-- **Nodes go that have been there.** -/
theorem map_gone (h : Chronicle src es r) (hlater : Arena.Later r.arena r'.arena)
    (hnd : ns.Nodup) (hns : ∀ n ∈ ns, r.arena.isLive n)
    (hlive : ∀ n, r'.arena.isLive n ↔ r.arena.isLive n ∧ n ∉ ns)
    (ht : SameTables ((ns.map .gone).foldl note r) r') :
    Chronicle src (es ++ ns.map .gone) r' where
  told := (h.told.map_gone hnd fun n hn => (h.isLive_iff.1 (hns n hn)).2).congr ht
  isLive_iff := by
    intro n
    rw [hlive, h.isLive_iff]
    simp [Origin.append_map_gone_iff, and_assoc]
  issued ho := hlater.issued (h.issued (Origin.append_map_gone_iff.1 ho))
  origin_of_gone := by
    intro n hn
    simp only [Origin.append_map_gone_iff]
    rcases List.mem_append.1 hn with hn | hn
    · exact h.origin_of_gone hn
    · exact (h.isLive_iff.1 (hns n (by simpa using hn))).1
  nodup_made := by
    rw [List.filterMap_append, Event.filterMap_made?_map_gone, List.append_nil]
    exact h.nodup_made
  not_isLive hn := h.not_isLive (by simpa using hn)
  nodup_gone := by
    rw [List.filterMap_append, Event.filterMap_gone?_map_gone]
    refine h.nodup_gone.append hnd fun n hn hn' => ?_
    exact (h.isLive_iff.1 (hns n hn')).2 (Event.mem_filterMap_gone?.1 hn)

/-- **After the events of an action.** -/
theorem happens (h : Chronicle src es r) (hlater : Arena.Later r.arena r'.arena)
    (he : Happens r r' es') : Chronicle src (es ++ es') r' := by
  cases he with
  | made pairs hnd hnew hlive ht => exact h.mades hlater hnd hnew hlive ht
  | gone ns hnd hns hlive ht => exact h.map_gone hlater hnd hns hlive ht

end Chronicle

/-! ### Scripts -/

/-- The destination nodes that a script brings in are nodes of the destination. -/
def Names (dst : Tree) (script : List Action) : Prop :=
  ∀ a ∈ script, ∀ d, a.node = .dst d → dst.contains d

instance (dst : Tree) (script : List Action) : Decidable (Names dst script) :=
  decidable_of_iff (script.all fun a =>
      match a.node with
      | .dst d => dst.contains d
      | .src _ => true) <| by
    rw [List.all_eq_true]
    refine forall₂_congr fun a _ => ?_
    cases a.node <;> simp

theorem Accepts.dst_eq (ha : r.Accepts a r') : r'.dst = r.dst := by
  cases ha with
  | treeDelete => exact dst_remove _ _
  | delete => exact dst_remove _ _
  | _ => rfl

/-- **Nodes and tables after a script, and the nodes that it has brought in.** -/
theorem Chronicle.run (h : Chronicle src es r) (hs : r.Sound src.arena) (hd : r.dst.WellFormed)
    (hnames : Names r.dst script) (hr : r.run script = .ok r') :
    Chronicle src (es ++ r.history script) r' ∧
      (r.history script).filterMap Event.origin? = script.flatMap (Action.brings r.dst) := by
  induction script generalizing r es with
  | nil =>
      obtain rfl := Except.ok.inj hr
      rw [history, List.append_nil]
      exact ⟨h, rfl⟩
  | cons a script ih =>
      obtain ⟨r₁, hstep, hr⟩ := run_cons_iff.1 hr
      have ha := hs.step_iff.1 hstep
      have hdst : r₁.dst = r.dst := ha.dst_eq
      obtain ⟨hhead, horigins⟩ := hs.happens hd (hnames a List.mem_cons_self) ha
      obtain ⟨hrest, horigins'⟩ := ih (h.happens (hs.later_of_accepts ha) hhead) (hs.accepts ha)
        (hdst ▸ hd) (hdst ▸ fun b hb => hnames b (List.mem_cons_of_mem a hb)) hr
      rw [history_cons hstep, ← List.append_assoc, List.filterMap_append, List.flatMap_cons]
      exact ⟨hrest, by rw [horigins, horigins', hdst]⟩

/-- **Nodes and tables after a script are what has become of the source by what the script has
brought about**, and that is what its actions bring in, one after the other. -/
theorem chronicle_run (hs : src.WellFormed) (hd : dst.WellFormed) (hnames : Names dst script)
    (hr : (start src dst).run script = .ok r) :
    Chronicle src ((start src dst).history script) r ∧
      ((start src dst).history script).filterMap Event.origin? =
        script.flatMap (Action.brings dst) := by
  have hdst : (start src dst).dst = dst := dst_start src dst
  have h := (Chronicle.start hs dst).run (sound_start hs dst) (hdst.symm ▸ hd)
    (hdst.symm ▸ hnames) hr
  rwa [hdst] at h

/-! ### The nodes of the tree in the making -/

/-- The nodes of the tree in the making, in pre-order from the root. -/
def nodes (r : Replay) : List NodeId :=
  match r.root with
  | some root => r.arena.preorder root
  | none => []

namespace Sound

variable {a₀ : Arena NodeData} (h : r.Sound a₀)

include h

/-- What is there is reached from the root. -/
theorem mem_nodes_iff : n ∈ r.nodes ↔ r.arena.isLive n := by
  have hrooted := h.rooted
  rw [nodes]
  split
  case h_1 root hroot =>
    rw [hroot] at hrooted
    rw [h.wf.mem_preorder_iff (hrooted.isLive rfl)]
    exact and_iff_left_of_imp fun hn => hrooted.below h.wf hn
  case h_2 hroot =>
    rw [hroot] at hrooted
    simp [hrooted.not_isLive h.wf]

theorem nodup_nodes : r.nodes.Nodup := by
  rw [nodes]
  split
  case h_1 root hroot => exact h.wf.nodup_preorder (h.rooted.isLive hroot)
  case h_2 => exact List.nodup_nil

end Sound

end Replay

end TreeScript
