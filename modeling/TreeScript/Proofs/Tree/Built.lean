/-
**Trees made by the operations.**

Whatever operations a tree has been made by, and whatever identities they were given, it is well
formed.  An identity that is out of date either makes an operation fail or acts like the node
that has its slot by now.

Main definitions:

* `TreeScript.Tree.Built` — **a tree made by the operations of the library**.

Main results:

* `TreeScript.Tree.Built.wellFormed` — **such a tree is well formed**.
-/

import TreeScript.Proofs.Replay.Steps
import TreeScript.Tree.Edit

set_option relaxedAutoImplicit false
set_option autoImplicit false

namespace TreeScript

namespace Arena

variable {α : Type} {a : Arena α} {n p q : NodeId} {i : Nat}

/-! ### Identities that are out of date -/

/-- Who reads the slot of an identity reads the node that is there. -/
theorem exists_isLive_of_node? {node : Node α} (h : a.node? p = some node) :
    ∃ q, q.slot = p.slot ∧ a.isLive q := by
  obtain ⟨s, hs, hn⟩ := Option.bind_eq_some_iff.1 h
  exact ⟨⟨p.slot, s.generation⟩, rfl, isLive_iff.2 ⟨s, hs, rfl, by simp [hn]⟩⟩

theorem children_congr (h : p.slot = q.slot) : a.children p = a.children q := by
  rw [children, node?, h]; rfl

theorem exists_isLive_of_lt (h : i < (a.children p).length) :
    ∃ q, q.slot = p.slot ∧ a.isLive q := by
  cases hn : a.node? p with
  | none => simp [children, hn] at h
  | some node => exact exists_isLive_of_node? hn

/-- A node that takes the place of a child does not depend on the generation of the parent. -/
theorem link_congr (h : p.slot = q.slot) (hi : i < (a.children p).length) (n : NodeId) :
    a.link p i n = a.link q i n := by
  have hq : i < (a.children q).length := children_congr h ▸ hi
  have hunder : a.linkUnder p i = a.linkUnder q i := by
    rw [linkUnder, linkUnder, children_congr h, List.getElem?_eq_getElem hq]
  rw [link, link, hunder, mapChildren, mapChildren, modify, modify, h]

theorem mem_ancestors_self (a : Arena α) (n : NodeId) : n ∈ a.ancestors n := by
  rw [ancestors, ancestorsF]
  split <;> simp

/-- A new node that can be put under `p` is put under a node that is up to date. -/
theorem exists_link_of_attach {b e : Arena α} (hg : Grown a b none [n] [n])
    (hc : b.children n = []) (h : b.attach p i n = .ok e) :
    ∃ q, a.isLive q ∧ e = b.link q i n := by
  unfold attach at h
  split at h
  · cases h
  · split at h
    · cases h
    · next hlive =>
      split at h
      · cases h
      · next hnot =>
        obtain rfl := Except.ok.inj h
        simp only [Bool.not_eq_true', Bool.not_eq_false, Bool.or_eq_true, decide_eq_true_eq]
          at hlive
        rcases hlive with hp | hi
        · refine ⟨p, (hg.isLive_iff.1 hp).resolve_right fun hm => ?_, rfl⟩
          rw [List.mem_singleton.1 hm] at hnot
          exact hnot (mem_ancestors_self b n)
        · obtain ⟨q, hslot, hq⟩ := exists_isLive_of_lt hi
          refine ⟨q, (hg.isLive_iff.1 hq).resolve_right fun hm => ?_,
            link_congr hslot.symm hi n⟩
          rw [children_congr hslot.symm, List.mem_singleton.1 hm, hc] at hi
          simp at hi

/-! ### Nothing -/

theorem wellFormed_empty : (empty : Arena α).WellFormed where
  free_lt := nofun
  free_vacant := nofun
  free_nodup := List.nodup_nil
  of_mem_children hp := by simp [isLive, empty] at hp
  of_parent? hc := by simp [isLive, empty] at hc
  nodup_children hp := by simp [isLive, empty] at hp
  grounded hn := by simp [isLive, empty] at hn

theorem rooted_empty : (empty : Arena α).Rooted none where
  isLive := nofun
  parent?_eq_none_iff hn := by simp [isLive, empty] at hn

end Arena

namespace Tree

variable {t u : Tree} {n p : NodeId} {i : Nat} {d : NodeData}

/-! ### Operations keep a tree well formed -/

/-- What is planted where nothing was is a tree. -/
theorem wellFormed_plant (types : Registry) (v : RoseTree (NodeId × NodeData)) :
    WellFormed
      { types
        arena := ((Arena.empty : Arena NodeData).plant none v).1
        root := (Arena.empty : Arena NodeData).nextId } := by
  have hu : ∀ p, (none : Option NodeId) = some p → (Arena.empty : Arena NodeData).isLive p := nofun
  have hg := Arena.grown_plant v Arena.wellFormed_empty hu
  exact ⟨hg.wf, Arena.rooted_empty.of_grown Arena.wellFormed_empty hg⟩

theorem wellFormed_single (types : Registry) (kind : NodeType) (label : String) :
    (single types kind label).WellFormed :=
  -- one node is planted as a tree without branches is
  wellFormed_plant types (.node (default, ⟨kind, label⟩) [])

namespace WellFormed

variable (ht : t.WellFormed)

include ht

theorem setLabel {label : String} (h : t.setLabel n label = .ok u) : u.WellFormed := by
  rw [Tree.setLabel, bind_eq_ok] at h
  obtain ⟨d, -, h⟩ := h
  obtain rfl := pure_eq_ok.1 h
  exact ⟨ht.arena.setData n fun d => ⟨d.kind, label⟩, ht.rooted.setData n fun d => ⟨d.kind, label⟩⟩

theorem place (h : t.place p i d = .ok (n, u)) : u.WellFormed := by
  rw [Tree.place, bind_eq_ok] at h
  obtain ⟨e, he, h⟩ := h
  obtain ⟨rfl, rfl⟩ := Prod.mk.inj (pure_eq_ok.1 h)
  have hu : ∀ p, (none : Option NodeId) = some p → t.arena.isLive p := nofun
  have hg := Arena.grown_sprout ht.arena hu d
  obtain ⟨q, hq, rfl⟩ :=
    Arena.exists_link_of_attach hg (Arena.children_alloc_nextId ht.arena) he
  exact ⟨hg.wellFormed_link ht.arena hq i, ht.rooted.graft hg hq i⟩

theorem addChild {kind : NodeType} {label : String} (h : t.addChild p kind label = .ok (n, u)) :
    u.WellFormed :=
  ht.place h

theorem insertChild {kind : NodeType} {label : String}
    (h : t.insertChild p i kind label = .ok (n, u)) : u.WellFormed := by
  rw [Tree.insertChild, bind_eq_ok] at h
  obtain ⟨count, -, h⟩ := h
  split at h
  · exact ht.place h
  · cases h

theorem removeChild {removed : Option NodeId} (h : t.removeChild p i = .ok (removed, u)) :
    u.WellFormed := by
  rw [Tree.removeChild, bind_eq_ok] at h
  obtain ⟨child, hchild, h⟩ := h
  cases child with
  | none =>
      obtain ⟨-, rfl⟩ := Prod.mk.inj (pure_eq_ok.1 h)
      exact ht
  | some c =>
      obtain ⟨-, rfl⟩ := Prod.mk.inj (pure_eq_ok.1 h)
      have hc : (t.arena.children p)[i]? = some c := by
        rw [child?, bind_eq_ok, Tree.children] at hchild
        obtain ⟨cs, hcs, hchild⟩ := hchild
        unfold reading at hcs
        split at hcs
        · obtain rfl := Except.ok.inj hcs
          exact pure_eq_ok.1 hchild
        · cases hcs
      -- the child hangs under the node that is in the slot of `p`
      obtain ⟨q, hslot, hq⟩ := Arena.exists_isLive_of_lt (List.getElem?_eq_some_iff.1 hc).1
      rw [Arena.children_congr hslot.symm] at hc
      obtain ⟨hlc, hpc⟩ := ht.arena.of_mem_children hq (List.mem_of_getElem? hc)
      refine ⟨ht.arena.removeSubtree hlc, ?_⟩
      have hr := ht.rooted.removeSubtree ht.arena hlc
      rwa [if_neg fun he => ht.ne_root_of_parent? hpc (Option.some.inj he).symm] at hr

omit ht in
theorem deepCopy (h : t.deepCopy n = .ok u) : u.WellFormed := by
  rw [Tree.deepCopy, bind_eq_ok] at h
  obtain ⟨v, -, h⟩ := h
  obtain rfl := pure_eq_ok.1 h
  exact wellFormed_plant _ v

end WellFormed

/-! ### Trees made by operations -/

/-- **A tree made by the operations of the library**, in any order and with any arguments that
they accept.  The registry of a tree may be exchanged at any time. -/
inductive Built : Tree → Prop where
  | single (types : Registry) (kind : NodeType) (label : String) : Built (single types kind label)
  | withTypes {t : Tree} (ht : Built t) (types : Registry) : Built { t with types }
  | setLabel {t u : Tree} {n : NodeId} {label : String} (ht : Built t)
      (h : t.setLabel n label = .ok u) : Built u
  | addChild {t u : Tree} {p n : NodeId} {kind : NodeType} {label : String} (ht : Built t)
      (h : t.addChild p kind label = .ok (n, u)) : Built u
  | insertChild {t u : Tree} {p n : NodeId} {i : Nat} {kind : NodeType} {label : String}
      (ht : Built t) (h : t.insertChild p i kind label = .ok (n, u)) : Built u
  | removeChild {t u : Tree} {p : NodeId} {i : Nat} {removed : Option NodeId} (ht : Built t)
      (h : t.removeChild p i = .ok (removed, u)) : Built u
  | deepCopy {t u : Tree} {n : NodeId} (ht : Built t) (h : t.deepCopy n = .ok u) : Built u
  | replay {src dst u : Tree} {script : List Action} (hs : Built src) (hd : Built dst)
      (h : replay src dst script = .ok u) : Built u

/-- **A tree made by the operations is well formed.** -/
theorem Built.wellFormed (h : t.Built) : t.WellFormed := by
  induction h with
  | single types kind label => exact wellFormed_single types kind label
  | withTypes _ types ih => exact ⟨ih.arena, ih.rooted⟩
  | setLabel _ h ih => exact ih.setLabel h
  | addChild _ h ih => exact ih.addChild h
  | insertChild _ h ih => exact ih.insertChild h
  | removeChild _ h ih => exact ih.removeChild h
  | deepCopy _ h _ => exact WellFormed.deepCopy h
  | replay _ _ h ih _ => exact wellFormed_of_replay ih h

/-- A root with leaves below it, all of one type. -/
def fan (kind : NodeType) (label : String) (leaves : List String) : Except Fault Tree :=
  leaves.foldlM (fun t leaf => return (← t.addChild t.root kind leaf).2)
    (single Registry.empty kind label)

theorem built_fan (kind : NodeType) (label : String) (leaves : List String) {t : Tree}
    (h : fan kind label leaves = .ok t) : t.Built := by
  refine foldlM_invariant Built ?_ h (Built.single _ _ _)
  intro t u leaf _ ht hu
  rw [bind_eq_ok] at hu
  obtain ⟨⟨n, u'⟩, hadd, hu⟩ := hu
  obtain rfl := pure_eq_ok.1 hu
  exact Built.addChild ht hadd

end Tree

end TreeScript
