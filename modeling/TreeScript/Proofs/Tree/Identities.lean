/-
**Identities through the history of a tree.**

A tree issues an identity for each node that it gets, and the identity may be kept after the node
has gone.  The slot of the node goes to another tenant then, and perhaps to many more, but the
identity does not: it is told from theirs by its generation.  So whether an identity is one of a
node of the tree can be read off the notices that the operations have given so far, what they have
issued and what they have removed, without a look at slots.

Main definitions:

* `TreeScript.Tree.Notice` — what an operation tells about identities;
* `TreeScript.Tree.History` — **operations on the nodes of a tree, with their notices**;
* `TreeScript.Tree.Spared` — a node does not lie in any subtree that has been removed;
* `TreeScript.Tree.InForce` — a node has been issued, and not been removed since;
* `TreeScript.Tree.Accounted` — **the notices account for the nodes of the tree**;
* `TreeScript.Tree.Recorded` — what they tell of the identities.

Main results:

* `TreeScript.Tree.WellFormed.issues_place`, `TreeScript.Tree.WellFormed.withdraws` — an operation
  issues an identity that has not been issued before, or withdraws those of a subtree;
* `TreeScript.Tree.Accounted.issue`, `TreeScript.Tree.Accounted.withdraw` — one more notice;
* `TreeScript.Tree.History.accounted` — **the notices of every history account for the nodes**;
* `TreeScript.Tree.Built.recorded` — **an identity is that of a node if it has been issued and not
  been removed since**.
-/

import TreeScript.Proofs.Replay.History
import TreeScript.Proofs.Tree.Edited

set_option relaxedAutoImplicit false
set_option autoImplicit false

namespace TreeScript.Tree

/-! ### Histories -/

/-- What an operation on a tree tells about identities. -/
inductive Notice where
  /-- A new node was made and got the identity `node`. -/
  | issued (node : NodeId)
  /-- The subtree with the nodes `nodes` was taken out. -/
  | removed (nodes : List NodeId)

/-- **`t` is what has become of `start` by operations on its nodes**, in any order, and `notices` is
what they have told.  The registry may be exchanged at any time, so that there can be new types. -/
inductive History (start : Tree) : List Notice → Tree → Prop where
  | start : History start [] start
  | withTypes {notices : List Notice} {t : Tree} (h : History start notices t)
      (types : Registry) : History start notices { t with types }
  | setLabel {notices : List Notice} {t u : Tree} {n : NodeId} {label : String}
      (h : History start notices t) (hn : t.contains n) (hu : t.setLabel n label = .ok u) :
      History start notices u
  | addChild {notices : List Notice} {t u : Tree} {p n : NodeId} {kind : NodeType}
      {label : String} (h : History start notices t) (hp : t.contains p)
      (hu : t.addChild p kind label = .ok (n, u)) : History start (notices ++ [.issued n]) u
  | insertChild {notices : List Notice} {t u : Tree} {p n : NodeId} {i : Nat} {kind : NodeType}
      {label : String} (h : History start notices t) (hp : t.contains p)
      (hu : t.insertChild p i kind label = .ok (n, u)) : History start (notices ++ [.issued n]) u
  | removeChild {notices : List Notice} {t u : Tree} {p c : NodeId} {i : Nat} {ns : List NodeId}
      (h : History start notices t) (hp : t.contains p)
      (hu : t.removeChild p i = .ok (some c, u)) (hns : t.descendants c = .ok ns) :
      History start (notices ++ [.removed ns]) u
  | removeNone {notices : List Notice} {t u : Tree} {p : NodeId} {i : Nat}
      (h : History start notices t) (hp : t.contains p) (hu : t.removeChild p i = .ok (none, u)) :
      History start notices u

variable {start t u : Tree} {notices after : List Notice} {n m k p c : NodeId} {i : Nat}
  {d : NodeData} {ns : List NodeId} {label : String}

theorem History.built (hs : start.Built) (h : History start notices t) : t.Built := by
  induction h with
  | start => exact hs
  | withTypes _ types ih => exact ih.withTypes types
  | setLabel _ _ hu ih => exact ih.setLabel hu
  | addChild _ _ hu ih => exact ih.addChild hu
  | insertChild _ _ hu ih => exact ih.insertChild hu
  | removeChild _ _ hu _ ih => exact ih.removeChild hu
  | removeNone _ _ hu ih => exact ih.removeChild hu

/-! ### One operation -/

/-- `u` is a later state of `t` with the same nodes. -/
structure Retains (t u : Tree) : Prop where
  root : u.root = t.root
  later : Arena.Later t.arena u.arena
  isLive_iff : ∀ k, u.arena.isLive k ↔ t.arena.isLive k

/-- `u` is a later state of `t` with one more node, `n`, the identity of which is new. -/
structure Issues (t u : Tree) (n : NodeId) : Prop where
  root : u.root = t.root
  later : Arena.Later t.arena u.arena
  not_issued : ¬ t.arena.Issued n
  isLive_iff : ∀ k, u.arena.isLive k ↔ t.arena.isLive k ∨ k = n

/-- `u` is a later state of `t` without the nodes `ns`. -/
structure Withdraws (t u : Tree) (ns : List NodeId) : Prop where
  root : u.root = t.root
  later : Arena.Later t.arena u.arena
  isLive : ∀ n ∈ ns, t.arena.isLive n
  isLive_iff : ∀ k, u.arena.isLive k ↔ t.arena.isLive k ∧ k ∉ ns

theorem retains_setLabel (hu : t.setLabel n label = .ok u) : t.Retains u := by
  obtain ⟨d, -, hu⟩ := bind_eq_ok.1 hu
  obtain rfl := pure_eq_ok.1 hu
  exact ⟨rfl, Arena.Later.setData t.arena n fun d => ⟨d.kind, label⟩, fun k => by
    rw [Arena.isLive_setData]⟩

namespace WellFormed

variable (ht : t.WellFormed) (hp : t.arena.isLive p)

include ht hp

/-- **A new node gets an identity that has not been issued before.** -/
theorem issues_place (hu : t.place p i d = .ok (n, u)) : t.Issues u n := by
  have hmoved := ht.unmoved_place hp hu
  have hunder : ∀ q, (none : Option NodeId) = some q → t.arena.isLive q := by simp
  have hg : Arena.Grown t.arena (t.arena.alloc d) none [t.arena.nextId] [t.arena.nextId] :=
    Arena.grown_sprout ht.arena hunder d
  rw [Tree.place, hg.attach_eq ht.arena hp i] at hu
  obtain ⟨rfl, rfl⟩ := Prod.mk.inj (Except.ok.inj hu)
  refine ⟨rfl, hmoved.later, Arena.not_issued_nextId ht.arena, fun k => ?_⟩
  rw [Arena.isLive_link, hg.isLive_iff, List.mem_singleton]

theorem issues_insertChild {kind : NodeType} (hu : t.insertChild p i kind label = .ok (n, u)) :
    t.Issues u n := by
  rw [Tree.insertChild, childCount_eq_ok hp, bind_ok] at hu
  split at hu
  · exact ht.issues_place hp hu
  · cases hu

/-- **A child that goes takes along the identities of its subtree.** -/
theorem withdraws (hu : t.removeChild p i = .ok (some c, u)) (hns : t.descendants c = .ok ns) :
    t.Withdraws u ns := by
  have hmoved := ht.unmoved_removeChild hp hu
  rw [Tree.removeChild, child?_eq_ok hp, bind_ok] at hu
  cases hc : (t.arena.children p)[i]? with
  | none =>
      rw [hc] at hu
      cases hu
  | some c' =>
      rw [hc] at hu
      obtain ⟨hcc, rfl⟩ := Prod.mk.inj (Except.ok.inj hu)
      obtain rfl := Option.some.inj hcc
      have hlc := ht.arena.isLive_of_mem hp (List.mem_of_getElem? hc)
      obtain rfl := Except.ok.inj ((descendants_eq_ok hlc).symm.trans hns)
      refine ⟨rfl, hmoved.later, fun m hm => ((ht.arena.mem_preorder_iff hlc).1 hm).1, fun k => ?_⟩
      rw [Arena.isLive_removeSubtree_iff ht.arena hlc, ht.arena.mem_preorder_iff hlc]
      exact and_congr_right fun hk => not_congr (and_iff_right hk).symm

omit ht in
/-- Where there is no child nothing happens. -/
theorem retains_removeChild (hu : t.removeChild p i = .ok (none, u)) : t.Retains u := by
  rw [Tree.removeChild, child?_eq_ok hp, bind_ok] at hu
  cases hc : (t.arena.children p)[i]? with
  | none =>
      rw [hc] at hu
      obtain ⟨-, rfl⟩ := Prod.mk.inj (Except.ok.inj hu)
      exact ⟨rfl, Arena.Later.refl _, fun k => Iff.rfl⟩
  | some c =>
      rw [hc] at hu
      cases hu

end WellFormed

/-! ### Notices -/

/-- `n` does not lie in any subtree that has been removed. -/
def Spared (notices : List Notice) (n : NodeId) : Prop := ∀ ns, .removed ns ∈ notices → n ∉ ns

/-- `n` has been issued, and does not lie in any subtree that has been removed since. -/
def InForce (notices : List Notice) (n : NodeId) : Prop :=
  ∃ before after, notices = before ++ .issued n :: after ∧ Spared after n

@[simp] theorem spared_nil : Spared [] n := by simp [Spared]

@[simp] theorem not_inForce_nil : ¬ InForce [] n := by simp [InForce]

theorem spared_concat_issued_iff : Spared (notices ++ [.issued m]) n ↔ Spared notices n := by
  simp [Spared]

theorem spared_concat_removed_iff :
    Spared (notices ++ [.removed ns]) n ↔ Spared notices n ∧ n ∉ ns := by
  simp [Spared, or_imp, forall_and]

theorem inForce_concat_issued_iff :
    InForce (notices ++ [.issued m]) n ↔ InForce notices n ∨ n = m := by
  constructor
  · rintro ⟨before, after, h, hafter⟩
    rcases concat_eq_split_iff.1 h with ⟨-, -, hm⟩ | ⟨after', rfl, rfl⟩
    · exact Or.inr (Notice.issued.inj hm).symm
    · exact Or.inl ⟨before, after', rfl, spared_concat_issued_iff.1 hafter⟩
  · rintro (⟨before, after, rfl, hafter⟩ | rfl)
    · exact ⟨before, after ++ [.issued m], by simp, spared_concat_issued_iff.2 hafter⟩
    · exact ⟨notices, [], rfl, spared_nil⟩

theorem inForce_concat_removed_iff :
    InForce (notices ++ [.removed ns]) n ↔ InForce notices n ∧ n ∉ ns := by
  constructor
  · rintro ⟨before, after, h, hafter⟩
    rcases concat_eq_split_iff.1 h with ⟨-, -, hm⟩ | ⟨after', rfl, rfl⟩
    · cases hm
    · obtain ⟨hafter, hn⟩ := spared_concat_removed_iff.1 hafter
      exact ⟨⟨before, after', rfl, hafter⟩, hn⟩
  · rintro ⟨⟨before, after, rfl, hafter⟩, hn⟩
    exact ⟨before, after ++ [.removed ns], by simp, spared_concat_removed_iff.2 ⟨hafter, hn⟩⟩

/-! ### Accounts -/

/-- **The notices account for the nodes of `t`.** -/
structure Accounted (start : Tree) (notices : List Notice) (t : Tree) : Prop where
  root : t.root = start.root
  later : Arena.Later start.arena t.arena
  /-- A node was there at the start or has been issued, and has not been removed since. -/
  isLive_iff : ∀ n, t.arena.isLive n ↔
    start.arena.isLive n ∧ Spared notices n ∨ InForce notices n
  /-- What has been issued is on the record of the slots. -/
  issued : ∀ n, .issued n ∈ notices → t.arena.Issued n
  /-- What has been removed is on that record, too, and stays away. -/
  removed : ∀ ns, .removed ns ∈ notices → ∀ n ∈ ns, t.arena.Issued n ∧ ¬ t.arena.isLive n
  /-- Nothing is issued twice. -/
  fresh : ∀ before n after, notices = before ++ .issued n :: after →
    ¬ start.arena.isLive n ∧ .issued n ∉ before ∧ Spared before n

namespace Accounted

theorem refl (start : Tree) : Accounted start [] start where
  root := rfl
  later := Arena.Later.refl _
  isLive_iff n := by simp
  issued := by simp
  removed := by simp
  fresh := by simp

theorem retain (h : Accounted start notices t) (hu : t.Retains u) : Accounted start notices u where
  root := hu.root.trans h.root
  later := h.later.trans hu.later
  isLive_iff n := (hu.isLive_iff n).trans (h.isLive_iff n)
  issued n hn := hu.later.issued (h.issued n hn)
  removed ns hns n hn := by
    obtain ⟨hi, hl⟩ := h.removed ns hns n hn
    exact ⟨hu.later.issued hi, fun hl' => hl ((hu.isLive_iff n).1 hl')⟩
  fresh := h.fresh

/-- **One more identity has been issued.** -/
theorem issue (h : Accounted start notices t) (hu : t.Issues u n) :
    Accounted start (notices ++ [.issued n]) u where
  root := hu.root.trans h.root
  later := h.later.trans hu.later
  isLive_iff k := by
    rw [hu.isLive_iff, h.isLive_iff, spared_concat_issued_iff, inForce_concat_issued_iff, or_assoc]
  issued k hk := by
    rcases List.mem_append.1 hk with hk | hk
    · exact hu.later.issued (h.issued k hk)
    · obtain rfl := Notice.issued.inj (List.mem_singleton.1 hk)
      exact Arena.issued_of_isLive ((hu.isLive_iff k).2 (Or.inr rfl))
  removed ns hns k hk := by
    have hns : .removed ns ∈ notices := by simpa using hns
    obtain ⟨hi, hl⟩ := h.removed ns hns k hk
    exact ⟨hu.later.issued hi, fun hl' => hl (hu.later.isLive hi hl')⟩
  fresh before k after hsplit := by
    rcases concat_eq_split_iff.1 hsplit with ⟨-, rfl, hk⟩ | ⟨after', -, hsplit⟩
    · obtain rfl := Notice.issued.inj hk
      exact ⟨fun hl => hu.not_issued (h.later.issued (Arena.issued_of_isLive hl)),
        fun hi => hu.not_issued (h.issued n hi),
        fun ns hns hn => hu.not_issued (h.removed ns hns n hn).1⟩
    · exact h.fresh before k after' hsplit

/-- **A subtree has been removed.** -/
theorem withdraw (h : Accounted start notices t) (hu : t.Withdraws u ns) :
    Accounted start (notices ++ [.removed ns]) u where
  root := hu.root.trans h.root
  later := h.later.trans hu.later
  isLive_iff k := by
    rw [hu.isLive_iff, h.isLive_iff, spared_concat_removed_iff, inForce_concat_removed_iff,
      or_and_right, and_assoc]
  issued k hk := by
    have hk : .issued k ∈ notices := by simpa using hk
    exact hu.later.issued (h.issued k hk)
  removed ms hms k hk := by
    rcases List.mem_append.1 hms with hms | hms
    · obtain ⟨hi, hl⟩ := h.removed ms hms k hk
      exact ⟨hu.later.issued hi, fun hl' => hl ((hu.isLive_iff k).1 hl').1⟩
    · obtain rfl := Notice.removed.inj (List.mem_singleton.1 hms)
      exact ⟨hu.later.issued (Arena.issued_of_isLive (hu.isLive k hk)),
        fun hl => ((hu.isLive_iff k).1 hl).2 hk⟩
  fresh before k after hsplit := by
    rcases concat_eq_split_iff.1 hsplit with ⟨-, -, hk⟩ | ⟨after', -, hsplit⟩
    · cases hk
    · exact h.fresh before k after' hsplit

end Accounted

/-- **Every history is accounted for**, operation by operation. -/
theorem History.accounted (hs : start.Built) (h : History start notices t) :
    Accounted start notices t := by
  induction h with
  | start => exact Accounted.refl start
  | withTypes _ types ih => exact ih.retain ⟨rfl, Arena.Later.refl _, fun _ => Iff.rfl⟩
  | setLabel _ _ hu ih => exact ih.retain (retains_setLabel hu)
  | addChild h hp hu ih =>
      have hw := (h.built hs).wellFormed
      exact ih.issue (hw.issues_place (hw.contains_iff.1 hp) hu)
  | insertChild h hp hu ih =>
      have hw := (h.built hs).wellFormed
      exact ih.issue (hw.issues_insertChild (hw.contains_iff.1 hp) hu)
  | removeChild h hp hu hns ih =>
      have hw := (h.built hs).wellFormed
      exact ih.withdraw (hw.withdraws (hw.contains_iff.1 hp) hu hns)
  | removeNone h hp hu ih =>
      have hw := (h.built hs).wellFormed
      exact ih.retain (WellFormed.retains_removeChild (hw.contains_iff.1 hp) hu)

/-! ### Identities -/

/-- **Which identities are those of nodes of `t` can be told from the notices.** -/
structure Recorded (start : Tree) (notices : List Notice) (t : Tree) : Prop where
  /-- The root stays. -/
  root : t.root = start.root
  contains_root : t.contains t.root
  /-- A node of the tree was there at the start or has been issued, and has not been removed
  since. -/
  contains_iff : ∀ n, t.contains n ↔ start.contains n ∧ Spared notices n ∨ InForce notices n
  /-- What was removed at any time is no node of the tree, whoever has its slot, and has no
  position. -/
  of_removed : ∀ ns, .removed ns ∈ notices → ∀ n ∈ ns, ¬ t.contains n ∧ t.position n = 0
  /-- What is issued is new: it was not there, has not been issued and not been removed before. -/
  fresh : ∀ before n after, notices = before ++ .issued n :: after →
    ¬ start.contains n ∧ .issued n ∉ before ∧ Spared before n

/-- An identity that is out of date has no position. -/
theorem position_eq_zero (hn : ¬ t.arena.isLive n) : t.position n = 0 := by
  rw [position, Arena.position, if_neg hn]

/-- A new tree consists of its root. -/
theorem contains_single_iff (types : Registry) (kind : NodeType) (label : String) :
    (single types kind label).contains n ↔ n = (single types kind label).root := by
  rw [(wellFormed_single types kind label).contains_iff]
  exact (Arena.isLive_alloc_iff Arena.wellFormed_empty).trans
    (or_iff_left (by simp [Arena.isLive, Arena.empty]))

theorem Accounted.toRecorded (hs : start.WellFormed) (ht : t.WellFormed)
    (h : Accounted start notices t) : Recorded start notices t where
  root := h.root
  contains_root := ht.contains_iff.2 ht.isLive_root
  contains_iff n := by rw [ht.contains_iff, hs.contains_iff, h.isLive_iff]
  of_removed ns hns n hn := by
    have hl := (h.removed ns hns n hn).2
    exact ⟨fun hc => hl (ht.contains_iff.1 hc), position_eq_zero hl⟩
  fresh before n after hsplit := by
    rw [hs.contains_iff]
    exact h.fresh before n after hsplit

/-- **An identity is that of a node of the tree if it was there at the start or has been issued, and
has not been removed since**; what has been removed stays away for ever.  In a tree that began as a
root, the nodes are the root and what is in force. -/
theorem Built.recorded (hs : start.Built) (h : History start notices t) :
    Recorded start notices t ∧
      ∀ types kind label, start = Tree.single types kind label →
        ∀ n, t.contains n ↔ n = t.root ∨ InForce notices n := by
  have hrec := (h.accounted hs).toRecorded hs.wellFormed (h.built hs).wellFormed
  refine ⟨hrec, ?_⟩
  rintro types kind label rfl n
  have hroot := hrec.contains_root
  have hiff := hrec.contains_iff n
  rw [contains_single_iff, ← hrec.root] at hiff
  constructor
  · intro hn
    exact (hiff.1 hn).imp And.left id
  · rintro (rfl | hn)
    · exact hroot
    · exact hiff.2 (Or.inr hn)

/-- A subtree of two nodes is removed, and two later nodes have its slots. -/
theorem Built.recorded_reused : ∃ t₀ t a b c d,
    t₀ = Tree.single Registry.empty ⟨"item", 0⟩ "top" ∧
    History t₀ [.issued a, .issued b, .removed [a, b], .issued c, .issued d] t ∧
    c.slot = b.slot ∧ d.slot = a.slot ∧ t.contains c ∧ t.contains d ∧ ¬ t.contains a ∧
    ¬ t.contains b ∧ t.position a = 0 ∧ t.position d = 1 := by
  obtain ⟨t₀, t₁, t₂, t₃, t₄, t₅, a, b, c, d, h₀, h₁, h₂, h₃, h₄, h₅, hr₀, ha₁, hr₂, hr₃, hr₄, hns,
      hc, hd, hpos⟩ : ∃ (t₀ t₁ t₂ t₃ t₄ t₅ : Tree) (a b c d : NodeId),
      t₀ = Tree.single Registry.empty ⟨"item", 0⟩ "top" ∧
      t₀.addChild t₀.root ⟨"item", 0⟩ "a" = .ok (a, t₁) ∧
      t₁.addChild a ⟨"item", 0⟩ "b" = .ok (b, t₂) ∧
      t₂.removeChild t₀.root 0 = .ok (some a, t₃) ∧
      t₃.addChild t₀.root ⟨"item", 0⟩ "c" = .ok (c, t₄) ∧
      t₄.insertChild t₀.root 1 ⟨"item", 0⟩ "d" = .ok (d, t₅) ∧
      t₀.contains t₀.root ∧ t₁.contains a ∧ t₂.contains t₀.root ∧ t₃.contains t₀.root ∧
      t₄.contains t₀.root ∧ t₂.descendants a = .ok [a, b] ∧ c.slot = b.slot ∧ d.slot = a.slot ∧
      t₅.position d = 1 :=
    ⟨_, _, _, _, _, _, _, _, _, _, rfl, rfl, rfl, rfl, rfl, rfl, rfl, rfl, rfl, rfl, rfl, rfl, rfl,
      rfl, rfl⟩
  have h : History t₀ [.issued a, .issued b, .removed [a, b], .issued c, .issued d] t₅ :=
    (((((History.start.addChild hr₀ h₁).addChild ha₁ h₂).removeChild hr₂ h₃ hns).addChild hr₃
      h₄).insertChild hr₄ h₅)
  have hs : t₀.Built := h₀ ▸ Built.single Registry.empty ⟨"item", 0⟩ "top"
  obtain ⟨hrec, hin⟩ := Built.recorded hs h
  obtain ⟨hna, hpa⟩ := hrec.of_removed [a, b] (by simp) a (by simp)
  obtain ⟨hnb, -⟩ := hrec.of_removed [a, b] (by simp) b (by simp)
  have hc' : t₅.contains c := (hin _ _ _ h₀ c).2 (Or.inr
    ⟨[.issued a, .issued b, .removed [a, b]], [.issued d], rfl, by simp [Spared]⟩)
  have hd' : t₅.contains d := (hin _ _ _ h₀ d).2 (Or.inr
    ⟨[.issued a, .issued b, .removed [a, b], .issued c], [], rfl, spared_nil⟩)
  exact ⟨t₀, t₅, a, b, c, d, h₀, h, hc, hd, hc', hd', hna, hnb, hpa, hpos⟩

end TreeScript.Tree
