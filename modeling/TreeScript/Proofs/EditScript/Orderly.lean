/-
**Order is kept while a draft is aligned.**

The root is seen to first and then one destination node after the other, level by level.  After
each of these steps the two tables of counterparts are inverse to each other, every node that has
been visited has its counterpart under that of its parent, and those of its children that count as
being in order have their counterparts under its own, in the order of the destination.  That is
why a place can be looked for next to a sibling: the position that is found is never beyond the
last child, and what is put there is in order.

Main definitions:

* `TreeScript.WorkingCopy.Inverse` — the two tables of counterparts are inverse to each other;
* `TreeScript.Draft.InRow` — the children of a node that are in order stand in that order;
* `TreeScript.Draft.Orderly` — **what holds after each step**;
* `TreeScript.Draft.FindsPlace` — **a node is put where its place is found**;
* `TreeScript.Draft.ArrangesInOrder`, `TreeScript.Draft.VisitsInOrder` — so it is whenever a place
  is looked for;
* `TreeScript.Draft.AlignsInOrder` — all steps, one after the other.

Main results:

* `TreeScript.WorkingCopy.Step.inverse`, `TreeScript.WorkingCopy.Run.inverse` — a change keeps the
  tables inverse to each other, and so does a run of changes;
* `TreeScript.Draft.Aligned.orderly` — the invariant of the visits says what holds after a step;
* `TreeScript.Mapping.align_inOrder` — **a draft is aligned in order**, quiet or not.
-/

import TreeScript.Proofs.EditScript.Quiet

set_option relaxedAutoImplicit false
set_option autoImplicit false

namespace TreeScript

/-! ### The two tables -/

namespace WorkingCopy

variable {m : Mapping} {c c' c₀ : WorkingCopy} {p : NodeId} {k : Nat}
  {v : RoseTree (NodeId × String)} {change : Change} {action : Action} {quiet : Bool}
  {edits : List Edit}

/-- **The two tables of counterparts are inverse to each other.** -/
def Inverse (c : WorkingCopy) : Prop :=
  ∀ w x, c.toDst.get? w = some x ↔ c.ofDst.get? x = some w

theorem Started.inverse (h : Started m c) : c.Inverse := fun _ _ => h.toDst.trans h.ofDst.symm

/-- Bringing in a part of the destination keeps the tables inverse to each other, if the copy is
sound then. -/
theorem Inverse.grafted (hi : c.Inverse) (h : c.Sound m) (h' : (c.grafted v p k).Sound m) :
    (c.grafted v p k).Inverse := by
  have hg := grown_made h.wf v
  intro w x
  constructor
  · intro hw
    have hlive : (c.grafted v p k).arena.isLive w := by
      rw [WorkingCopy.grafted, Arena.isLive_link]
      rcases (toDst_grafted_iff hg.nodup).1 hw with hmem | ⟨-, hold⟩
      · exact hg.isLive_new (List.mem_map_of_mem hmem)
      · exact hg.isLive (h.ofDst ((hi w x).1 hold)).1
    exact (h'.toDst hlive hw).2
  · intro hx
    exact (h'.ofDst hx).2

/-- **A change keeps the tables inverse to each other.** -/
theorem Step.inverse (hs : Step m.dst c change action c') (hi : c.Inverse) (h : c.Sound m)
    (h' : c'.Sound m) : c'.Inverse := by
  cases hs with
  | insert => exact hi.grafted h h'
  | graft => exact hi.grafted h h'
  | relabel => exact hi
  | move => exact hi
  | removeTree => exact hi
  | remove => exact hi

/-- **A run of changes does so too.** -/
theorem Run.inverse (hr : Run (Sound m) m.dst quiet c₀ edits c) (hi : c₀.Inverse) : c.Inverse := by
  induction hr with
  | nil => exact hi
  | snoc hr hs h' ih => exact hs.inverse ih hr.invariant h'

end WorkingCopy

/-! ### After each step -/

namespace Draft

open WorkingCopy

section Definitions

variable (m : Mapping) (quiet : Bool) (d : Draft)

/-- **The children of `y` that are in order** have their counterparts among the children of that of
`y`, in the order of the destination. -/
def InRow (y : NodeId) : Prop :=
  ∃ z ws, d.copy.ofDst.get? y = some z ∧
    List.Forall₂ (fun b w => d.copy.ofDst.get? b = some w)
      ((m.dst.arena.children y).filter d.inOrder.contains) ws ∧
    ws.Sublist (d.copy.arena.children z)

/-- The counterpart of `x` is a child of the counterpart of `y`. -/
def Under (x y : NodeId) : Prop :=
  ∃ w z, d.copy.ofDst.get? x = some w ∧ d.copy.ofDst.get? y = some z ∧
    d.copy.arena.parent? w = some z

/-- **What holds after each step**, when the nodes in `seen` have been seen to. -/
structure Orderly (seen : List NodeId) : Prop where
  inverse : d.copy.Inverse
  under : ∀ x ∈ seen, ∀ y, m.dst.arena.parent? x = some y → d.Under x y
  inRow : ∀ y ∈ seen, InRow m d y
  /-- Every child that is there counts as being in order, unless it came with its parent. -/
  counts : ∀ y ∈ seen, ∀ b, m.dst.arena.parent? b = some y → d.Under b y →
    d.inOrder.contains b ∨ d.grafted.contains b

/-- **A node is put where its place is found**: the place of `x`, a child of `y`, in copy `c` is a
position among the children of `z`, and when the change has been made there, and `x` counts as
being in order, the children of `y` that do are in row. -/
def FindsPlace (c : WorkingCopy) (z y x : NodeId) (change : Nat → Change) : Prop :=
  ∃ k d', c.placeOf m.dst d.inOrder x = .ok k ∧ k ≤ (c.arena.children z).length ∧
    d.perform quiet (change k) = .ok d' ∧ InRow m (d'.mark x) y

/-- **Children are arranged in order**: whenever one of them does not stay, it is put where its
place is found. -/
def ArrangesInOrder (w x : NodeId) : Prop :=
  ∀ l b l', d.ownCounterparts m w x = l ++ b :: l' → b ∉ d.stayers m w x → ∃ d' a,
    l.foldlM (arrangeOne m quiet (d.stayers m w x) w) (d.staying m w x) = .ok d' ∧
    d'.copy.counterpart b = .ok a ∧ FindsPlace m quiet d' (d'.copy.without a) w x b (.move a w)

/-- **A visit of `x`**, a child of `y`, the counterpart of which is `z`, **in order**. -/
structure VisitsInOrder (z y x : NodeId) : Prop where
  /-- The counterpart of `x` comes under `z`, unless it is there, and its children are arranged. -/
  settles : ∀ s, m.source? x = some s → ∃ w d₁ d₂, d.copy.copyOf s = .ok w ∧
    d.rename m quiet w x = .ok d₁ ∧
    (if d₁.copy.arena.parent? w = some z then d₂ = d₁
      else d₁.bring m quiet w z x = .ok d₂ ∧
        FindsPlace m quiet d₁ (d₁.copy.without w) z y x (.move w z)) ∧
    ArrangesInOrder m quiet (d₂.mark x) w x ∧
    visit m quiet d x = (d₂.mark x).arrange m quiet w x
  /-- A new node for `x` comes alone, -/
  inserts : m.source? x = none → m.dst.arena.children x = [] ∨ m.isDstClean x = .ok false →
    ∃ label, m.dst.label x = .ok label ∧ FindsPlace m quiet d d.copy z y x (.insert x label z)
  /-- or together with new nodes for what is below `x`. -/
  grafts : m.source? x = none → m.dst.arena.children x ≠ [] → m.isDstClean x = .ok true →
    ∃ u, m.dst.view x = .ok u ∧
      FindsPlace m quiet d d.copy z y x (.graft (u.map fun e => (e.1, e.2.label)) z)

end Definitions

/-- **A draft is aligned in order**: from the draft `d₀` without changes, by way of `d₁`, where the
root has its label, and `d₂`, where its children have been arranged, to `d₃`, where all nodes have
been visited. -/
structure AlignsInOrder (m : Mapping) (quiet : Bool) (d₀ d₁ d₂ d₃ : Draft) : Prop where
  start : start m = .ok d₀
  rename : d₀.rename m quiet d₀.copy.root m.dst.root = .ok d₁
  arrange : (d₁.mark m.dst.root).arrange m quiet d₀.copy.root m.dst.root = .ok d₂
  arranges : ArrangesInOrder m quiet (d₁.mark m.dst.root) d₀.copy.root m.dst.root
  align : align m quiet = .ok d₃
  /-- After each visit all is in order, and the next visit keeps to that. -/
  visits : ∀ l l', m.dst.iter = l ++ l' → ∃ d, l.foldlM (visit m quiet) d₂ = .ok d ∧
    Orderly m d (m.dst.root :: l) ∧
    ∀ x l'', l' = x :: l'' → ∀ y, m.dst.arena.parent? x = some y →
      d.grafted.contains x = false →
      ∃ z, d.copy.counterpart y = .ok z ∧ VisitsInOrder m quiet d z y x
  /-- Whatever is taken out then, the counterparts of nodes stay under those of their parents. -/
  stays : ∀ l l', d₃.copy.arena.postorder d₃.copy.root = l ++ l' → ∃ d,
    l.foldlM (pruneOne m quiet (cleanSources m)) d₃ = .ok d ∧
    ∀ x y, m.dst.contains x → m.dst.arena.parent? x = some y → d.Under x y

/-! ### From the invariant of the visits -/

variable {m : Mapping} {d d' d₀ d₁ d₂ d₃ : Draft} {c : WorkingCopy} {g : Stage} {w x y z s : NodeId}
  {change : Nat → Change} {seen l : List NodeId}

namespace Aligned

/-- Children that are in order are in row. -/
theorem inRow (h : Aligned m g d) (hz : d.copy.ofDst.get? y = some z) : InRow m d y := by
  have hlz := h.isLive_of_ofDst hz
  have hline := (h.inLine hz).mono (T := d.inOrder.contains) fun v hv => by
    rw [settled, hv, Bool.true_or]
  obtain ⟨ws, hws, hsub⟩ := hline.exists_sublist fun u hu v huv =>
    (h.sound.toDst (h.sound.wf.isLive_of_mem hlz hu) huv).2
  exact ⟨z, ws, hz, hws, hsub⟩

/-- A node that is placed has its counterpart under that of its parent. -/
theorem under (h : Aligned m g d) (hm : m.Sound) (hlx : m.dst.arena.isLive x) (hx : x ∈ g.placed)
    (hp : m.dst.arena.parent? x = some y) : d.Under x y := by
  have hset := h.settled_of_placed hx (hm.dst.ne_root_of_parent? hp)
  obtain ⟨w, hw⟩ := (h.ofDst_iff hlx).2 (Or.inr (Or.inl hx))
  obtain ⟨z, hz⟩ := h.anchored hset hp
  exact ⟨w, z, hw, hz, h.parent?_of_settled hm.dst hlx hset hp hw hz⟩

/-- The two tables are inverse to each other. -/
theorem inverse (h : Aligned m g d) (hm : m.Sound) : d.copy.Inverse := by
  obtain ⟨c₀, hc₀, hstart⟩ := WorkingCopy.exists_start hm
  exact (h.run hc₀).inverse hstart.inverse

/-- **The invariant of the visits says what holds after a step.** -/
theorem orderly {S : Set NodeId} {acts : List Action} (h : Aligned m (Stage.seen S acts) d)
    (hm : m.Sound) (hseen : ∀ x ∈ seen, m.dst.arena.isLive x ∧ x ∈ S) : Orderly m d seen where
  inverse := h.inverse hm
  under := fun x hx _ hp => h.under hm (hseen x hx).1 (hseen x hx).2 hp
  inRow := by
    intro y hy
    obtain ⟨hly, hyS⟩ := hseen y hy
    obtain ⟨z, hz⟩ := (h.ofDst_iff hly).2 (Or.inr (Or.inl hyS))
    exact h.inRow hz
  counts := by
    rintro y hy b hb ⟨w, z, hw, hz, hpw⟩
    have hset : d.settled b := h.settled_of_arranged (hseen y hy).2 hz hb hw hpw
    simpa [settled] using hset

/-- **Children are arranged in order.** -/
theorem arrangesInOrder (h : Aligned m g d) (hm : m.Sound)
    (hr : m.source? m.dst.root = some m.src.root) (hs : m.source? x = some s)
    (hlx : m.dst.arena.isLive x) (hw : d.copy.ofDst.get? x = some w) (hpx : x ∈ g.placed)
    (hx : x ∉ g.opened) : ArrangesInOrder m false d w x := by
  intro l b l' hl hb
  obtain ⟨d', a, t, k, hd', hba, hk, hle, hperform, h', hw'⟩ := h.arrange_turn hm hr hlx hw hpx hx
    (Or.inr (Mapping.dstClean_of_source? hm.dst hlx hs)) (fun e => by rw [hs] at e; cases e) hl hb
  exact ⟨d', a, hd', counterpart_eq_ok hba, k, _, hk, hle, hperform, h'.inRow hw'⟩

/-- **A visit is made in order.** -/
theorem visitsInOrder {S : Set NodeId} {acts : List Action}
    (h : Aligned m (Stage.seen S acts) d) (hm : m.Sound)
    (hr : m.source? m.dst.root = some m.src.root) (hlx : m.dst.arena.isLive x) (hx : x ∉ S)
    (hp : m.dst.arena.parent? x = some y) (hy : y ∈ S) (hg : d.grafted.contains x = false) :
    ∃ z, d.copy.counterpart y = .ok z ∧ VisitsInOrder m false d z y x := by
  obtain ⟨z, hz⟩ := (h.ofDst_iff (hm.dst.arena.isLive_of_parent? hlx hp)).2 (Or.inr (Or.inl hy))
  have hclean : m.dstClean y = false := by
    rw [← Bool.not_eq_true, ← h.grafted_iff_of_parent? hlx hp hz, hg]
    exact Bool.false_ne_true
  have hnew : m.source? x = none → d.copy.ofDst.get? x = none := fun hs =>
    h.ofDst_eq_none hlx hs hx hg
  refine ⟨z, counterpart_eq_ok hz, ?_, fun hs hleaf => ?_, fun hs _ hxc => ?_⟩
  · intro s hs
    obtain ⟨hls, hsx⟩ := hm.left hlx hs
    obtain ⟨w, d₁, d₂, hw, hd₁, hd₂, h₂, hof, hplace⟩ :=
      h.settle_placed hm hr hs hlx hp hz hy hclean hx hx
    have hxw : d₂.copy.ofDst.get? x = some w := hof ▸ h.ofDst_of_counterpart? hls hsx hw
    refine ⟨w, d₁, d₂, copyOf_eq_ok hw, hd₁, ?_,
      h₂.arrangesInOrder hm hr hs hlx hxw (Set.mem_insert _ _) hx, ?_⟩
    · by_cases hpw : d₁.copy.arena.parent? w = some z
      · rw [if_pos hpw] at hd₂ ⊢
        exact (pure_eq_ok.1 hd₂).symm
      · rw [if_neg hpw] at hd₂ ⊢
        obtain ⟨k, hk, hle, hperform⟩ := hplace hpw
        exact ⟨hd₂, k, d₂, hk, hle, hperform, h₂.inRow (hof ▸ hz)⟩
    · simp only [visit, hg, Bool.false_eq_true, if_false, hp, counterpart_eq_ok hz, bind_ok, hs,
        settle, copyOf_eq_ok hw, hd₁]
      by_cases hpw : d₁.copy.arena.parent? w = some z
      · rw [if_pos hpw] at hd₂ ⊢
        rw [hd₂, bind_ok]
      · rw [if_neg hpw] at hd₂ ⊢
        rw [hd₂, bind_ok]
  · obtain ⟨label, hlabel⟩ := Tree.exists_label? hlx
    have hleaf' : m.dst.arena.children x = [] ∨ m.dstClean x = false := by
      rwa [Mapping.isDstClean_eq_ok hlx, Except.ok.injEq] at hleaf
    obtain ⟨k, c, hk, hle, hperform, h₁, -⟩ :=
      h.insert_ok hm hlx hp hz hy hclean (hnew hs) hs hleaf' hlabel
    obtain ⟨-, z', -, hz', -⟩ := h₁.under hm hlx (Set.mem_insert _ _) hp
    exact ⟨label, Tree.label_eq_ok_of_label? hlabel, k, _, hk, hle, hperform, h₁.inRow hz'⟩
  · obtain ⟨u, hu, -⟩ := hm.dst.exists_view hlx
    rw [Mapping.isDstClean_eq_ok hlx, Except.ok.injEq] at hxc
    obtain ⟨k, c, hk, hle, hperform, h₁, -⟩ := h.graft_ok hm hlx hp hz hy hclean (hnew hs) hxc hu
    obtain ⟨-, z', -, hz', -⟩ := h₁.under hm hlx (Set.mem_insert _ _) hp
    exact ⟨u, hu, k, _, hk, hle, hperform, h₁.inRow hz'⟩

end Aligned

/-- **All steps are made in order.** -/
theorem exists_alignsInOrder (hm : m.Sound) (hr : m.source? m.dst.root = some m.src.root) :
    ∃ d₀ d₁ d₂ d₃, AlignsInOrder m false d₀ d₁ d₂ d₃ := by
  have hlr := hm.dst.isLive_root
  obtain ⟨d₀, d₁, d₂, hd₀, hd₁, hd₂, h₁, hroot, h₂⟩ := exists_begun hm hr
  obtain ⟨d₃, hd₃, h₃⟩ := exists_aligned hm hr
  exact ⟨d₀, d₁, d₂, d₃,
    { start := hd₀
      rename := hd₁
      arrange := hd₂
      arranges := h₁.arrangesInOrder hm hr hr hlr hroot rfl (Set.notMem_empty _)
      align := hd₃
      visits := by
        intro l l' hl
        obtain ⟨d, hd, h⟩ := h₂.visits_ok hm hr hl
        refine ⟨d, hd, h.orderly hm fun x hx => ?_, ?_⟩
        · rcases List.mem_cons.1 hx with rfl | hx
          · exact ⟨hlr, Or.inl rfl⟩
          · exact ⟨hm.dst.mem_iter_iff.1 (hl ▸ List.mem_append_left _ hx), Or.inr hx⟩
        · rintro x l'' rfl y hp hg
          have hlx : m.dst.arena.isLive x := hm.dst.mem_iter_iff.1 (by simp [hl])
          have hne := hm.dst.ne_root_of_parent? hp
          have hnot := (not_mem_of_nodup_middle (hl ▸ hm.dst.nodup_iter)).1
          obtain ⟨y', hy, hp'⟩ := hm.dst.arena.parent_mem_of_levelOrder_split hlr hl hne
          obtain rfl := Option.some.inj (hp'.symm.trans hp)
          exact h.visitsInOrder hm hr hlx (fun hx => hx.elim hne hnot) hp (Or.inr hy) hg
      stays := by
        intro l l' hl
        obtain ⟨d, hd, h⟩ := h₃.exists_pruning hm hr hl
        refine ⟨d, hd, fun x y hx hp => ?_⟩
        have hlx := hm.dst.contains_iff.1 hx
        obtain ⟨w, z, hw, hz, hpw⟩ := h₃.under hm hlx hlx hp
        rw [← h.ofDst] at hw hz
        exact ⟨w, z, hw, hz, (h.parent? (h.sound.ofDst hw).1).trans hpw⟩ }⟩

/-! ### Quiet drafts -/

theorem FindsPlace.hushed (h : FindsPlace m false d c z y x change) :
    FindsPlace m true d.hushed c z y x change := by
  obtain ⟨k, d', hk, hle, hperform, hrow⟩ := h
  exact ⟨k, d'.hushed, hk, hle, by rw [perform_hushed, hperform]; rfl, hrow⟩

theorem ArrangesInOrder.hushed (h : ArrangesInOrder m false d w x) :
    ArrangesInOrder m true d.hushed w x := by
  intro l b l' hl hb
  obtain ⟨d', a, hd', ha, hplace⟩ := h l b l' hl hb
  refine ⟨d'.hushed, a, ?_, ha, hplace.hushed⟩
  exact (foldlM_hushed (arrangeOne_hushed _) l (d.staying m w x)).trans (congrArg _ hd')

theorem VisitsInOrder.hushed (h : VisitsInOrder m false d z y x) :
    VisitsInOrder m true d.hushed z y x where
  settles := by
    intro s hs
    obtain ⟨w, d₁, d₂, hw, hd₁, hplace, harrange, hvisit⟩ := h.settles s hs
    refine ⟨w, d₁.hushed, d₂.hushed, hw, by rw [rename_hushed, hd₁]; rfl, ?_,
      harrange.hushed, ?_⟩
    · have hcopy : d₁.hushed.copy = d₁.copy := rfl
      rw [hcopy]
      split at hplace
      case isTrue hpw =>
        rw [if_pos hpw, hplace]
      case isFalse hpw =>
        obtain ⟨hbring, hplace⟩ := hplace
        rw [if_neg hpw]
        exact ⟨by rw [bring_hushed, hbring]; rfl, hplace.hushed⟩
    · rw [visit_hushed, hvisit, mark_hushed, arrange_hushed]
  inserts hs hleaf := by
    obtain ⟨label, hlabel, hplace⟩ := h.inserts hs hleaf
    exact ⟨label, hlabel, hplace.hushed⟩
  grafts hs hne hxc := by
    obtain ⟨u, hu, hplace⟩ := h.grafts hs hne hxc
    exact ⟨u, hu, hplace.hushed⟩

theorem Orderly.hushed (h : Orderly m d seen) : Orderly m d.hushed seen where
  inverse := h.inverse
  under := h.under
  inRow := h.inRow
  counts := h.counts

/-- A draft without changes is hushed already. -/
theorem hushed_of_start (h : start m = .ok d) : d.hushed = d := by
  obtain ⟨c, -, h⟩ := bind_eq_ok.1 h
  obtain rfl := pure_eq_ok.1 h
  rfl

/-- **A quiet draft is aligned in order** if the full one is. -/
theorem AlignsInOrder.hushed (h : AlignsInOrder m false d₀ d₁ d₂ d₃) :
    AlignsInOrder m true d₀ d₁.hushed d₂.hushed d₃.hushed where
  start := h.start
  rename := by
    have hrename := rename_hushed (m := m) (w := d₀.copy.root) (x := m.dst.root) d₀
    rw [hushed_of_start h.start, h.rename] at hrename
    exact hrename
  arrange := by
    rw [mark_hushed, arrange_hushed, h.arrange]
    rfl
  arranges := h.arranges.hushed
  align := by
    rw [align_hushed, h.align]
    rfl
  visits := by
    intro l l' hl
    obtain ⟨d, hd, horderly, hnext⟩ := h.visits l l' hl
    refine ⟨d.hushed, by rw [foldlM_hushed visit_hushed, hd]; rfl, horderly.hushed, ?_⟩
    intro x l'' hl' y hp hg
    obtain ⟨z, hz, hvisit⟩ := hnext x l'' hl' y hp hg
    exact ⟨z, hz, hvisit.hushed⟩
  stays := by
    intro l l' hl
    obtain ⟨d, hd, hunder⟩ := h.stays l l' hl
    exact ⟨d.hushed, by rw [foldlM_hushed (pruneOne_hushed _), hd]; rfl, hunder⟩

end Draft

/-! ### Main result -/

namespace Mapping

open Draft

variable {m : Mapping} {src dst : Tree}

/-- **A draft is aligned in order**, quiet or not, if the roots are counterparts. -/
theorem align_inOrder (hs : src.Built) (hd : dst.Built) (hm : Filled src dst m)
    (hr : m.has src.root dst.root) (quiet : Bool) :
    ∃ d₀ d₁ d₂ d₃, AlignsInOrder m quiet d₀ d₁ d₂ d₃ := by
  obtain ⟨hsound, rfl, rfl⟩ := hm.sound hs.wellFormed hd.wellFormed
  have hroots := (hsound.right hsound.src.isLive_root (has_iff.1 hr)).2
  obtain ⟨d₀, d₁, d₂, d₃, h⟩ := exists_alignsInOrder hsound hroots
  cases quiet with
  | false => exact ⟨d₀, d₁, d₂, d₃, h⟩
  | true => exact ⟨d₀, d₁.hushed, d₂.hushed, d₃.hushed, h.hushed⟩

/-- Two leaves change places, a leaf goes and a leaf comes. -/
theorem align_inOrder_crossing : ∃ src dst m,
    Tree.fan ⟨"item", 0⟩ "old" ["a", "b", "c"] = .ok src ∧
    Tree.fan ⟨"item", 0⟩ "new" ["b", "a", "d"] = .ok dst ∧ pairing src dst crossing = .ok m ∧
    m.has src.root dst.root ∧ ∃ d₀ d₁ d₂ d₃, AlignsInOrder m false d₀ d₁ d₂ d₃ :=
  ⟨_, _, _, rfl, rfl, rfl, rfl, align_inOrder
    (Tree.built_fan ⟨"item", 0⟩ "old" ["a", "b", "c"] rfl)
    (Tree.built_fan ⟨"item", 0⟩ "new" ["b", "a", "d"] rfl)
    (filled_pairing crossing (by decide) rfl) rfl false⟩

end Mapping

end TreeScript
