/-
**Replaying a quiet script.**

The positions of a quiet script are those of the full one, but nothing is moved when it is
replayed, so that it may come to a position that is not there, or to a node that should be a leaf
and is not.  Nothing else goes wrong.  The reason is where things are: source nodes stay under
their old parents, and what is brought in is put under what has been brought in or has a
counterpart.  So below a source node that goes with all that is below it there are only source
nodes that were there before, and nothing is taken out that should stay.

Main definitions:

* `TreeScript.Mapping.Quiet` — an action that is planned, and neither moves nor relabels;
* `TreeScript.Mapping.Sparing` — **where things are, and what has gone**, after a part of a quiet
  script.

Main results:

* `TreeScript.Mapping.Sparing.below` — below a clean source node there is nothing new;
* `TreeScript.Mapping.sparing_run` — every accepted part of a quiet script spares what should
  stay;
* `TreeScript.Mapping.exists_live?_of_split` — what it refers to is there, as far as it is replayed;
* `TreeScript.Mapping.replay_quiet` — **what can go wrong when a quiet script is replayed**.
-/

import Mathlib.Data.List.Induction
import TreeScript.Proofs.EditScript.Coverage
import TreeScript.Proofs.EditScript.Planned
import TreeScript.Proofs.Replay.Effects
import TreeScript.Proofs.Replay.Rejection

set_option relaxedAutoImplicit false
set_option autoImplicit false

namespace TreeScript

namespace Mapping

open Replay

variable {m : Mapping} {src dst : Tree} {script before after : List Action} {a : Action}
  {es es' : List Event} {r r' : Replay} {s x y n p t : NodeId} {k : Nat} {ns : List NodeId}

/-! ### Actions -/

/-- **An action of a quiet script**: the mapping gives a reason for it, and it neither moves nor
relabels. -/
structure Quiet (m : Mapping) (a : Action) : Prop where
  planned : m.Planned a.unplaced
  isMoveOrUpdate : a.isMoveOrUpdate = false

namespace Quiet

/-- The destination nodes that it names are there. -/
theorem contains (ha : m.Quiet a) (hm : m.Sound) (hx : a.node = .dst x) : m.dst.contains x :=
  ha.planned.contains hm.dst (a.node_unplaced.trans hx)

/-- **What it takes out has no counterpart.** -/
theorem of_unmakes (ha : m.Quiet a) (hm : m.Sound) (hn : a.unmakes m.src n) :
    m.src.arena.isLive n ∧ m.counterpart? n = none := by
  have hplanned := ha.planned
  cases a with
  | treeDelete s =>
      cases hplanned with
      | treeDelete hs hc =>
          obtain ⟨hl, hb⟩ := (hm.src.arena.mem_preorder_iff hs).1 (of_decide_eq_true hn)
          exact ⟨hl, counterpart?_of_srcClean hm.src hl (hm.src.clean_of_below hl hb hc)⟩
  | delete s =>
      obtain rfl := of_decide_eq_true hn
      cases hplanned with
      | delete hs hc => exact ⟨hs, hc⟩
  | _ => cases hn

/-- **What may be wrong with it** if its references stand for nodes. -/
theorem of_objection {e : ReplayError} (ha : m.Quiet a)
    (hrefs : ∀ ref ∈ a.refs, r.live? ref ≠ none) (he : r.Objection a e) :
    (∃ k n, e = .positionOutOfBounds k n) ∨ ∃ ref, e = .nodeHasChildren ref := by
  cases he with
  | unknown href hnone => exact absurd hnone (hrefs _ href)
  | descendant => exact nomatch ha.isMoveOrUpdate
  | position => exact Or.inl ⟨_, _, rfl⟩
  | root => exact nomatch ha.planned
  | children => exact Or.inr ⟨_, rfl⟩

end Quiet

/-! ### Where things are -/

/-- **Where things are, and what has gone**, after the actions `before`, which have brought about
the events `es`. -/
structure Sparing (m : Mapping) (before : List Action) (es : List Event) (r : Replay) : Prop where
  sound : r.Sound m.src.arena
  /-- Source nodes are where they were. -/
  parent?_eq : ∀ {n}, m.src.arena.isLive n → r.arena.isLive n →
    r.arena.parent? n = m.src.arena.parent? n
  /-- No other node is under a source node without counterpart. -/
  adopted : ∀ {n p}, ¬ m.src.arena.isLive n → r.arena.isLive n → r.arena.parent? n = some p →
    m.src.arena.isLive p → ∃ x, m.counterpart? p = some x
  /-- What has gone would have gone from the source in the same way. -/
  gone : ∀ {n}, .gone n ∈ es → ∃ a ∈ before, a.unmakes m.src n

namespace Sparing

theorem start (hm : m.Sound) : Sparing m [] [] (Replay.start m.src m.dst) where
  sound := sound_start hm.src m.dst
  parent?_eq _ _ := by rw [arena_start]
  adopted hn hn' := by
    rw [arena_start] at hn'
    exact absurd hn' hn
  gone hn := by cases hn

/-- **Below a clean source node there is nothing new**: what is there was there in the source. -/
theorem below (h : Sparing m before es r) (hm : m.Sound) (hs : m.src.arena.isLive s)
    (hc : m.srcClean s) (hn : r.arena.isLive n) (hb : r.arena.Below s n) :
    m.src.arena.isLive n ∧ m.src.arena.Below s n := by
  induction hb with
  | self => exact ⟨hs, Arena.Below.self⟩
  | @step n p hp hb ih =>
      obtain ⟨hlp, hbp⟩ := ih (h.sound.wf.isLive_of_parent? hn hp)
      by_cases hl : m.src.arena.isLive n
      · exact ⟨hl, Arena.Below.step ((h.parent?_eq hl hn).symm.trans hp) hbp⟩
      · -- what is below a clean node has no counterpart
        obtain ⟨x, hx⟩ := h.adopted hl hn hp hlp
        have hclean : m.srcClean p := hm.src.clean_of_below hlp hbp hc
        exact nomatch (counterpart?_of_srcClean hm.src hlp hclean).symm.trans hx

/-- What stands for a destination node is a source node only if that has a counterpart. -/
theorem exists_counterpart (h : Sparing m before es r) (hm : m.Sound) (hy : m.dst.arena.isLive y)
    (hp : r.resolve (m.ref y) = .ok p) (hl : m.src.arena.isLive p) :
    ∃ x, m.counterpart? p = some x := by
  have hp := Sound.resolve_iff.1 hp
  cases hs : m.source? y with
  | some q =>
      rw [ref, hs] at hp
      obtain rfl := h.sound.src hp
      exact ⟨y, (hm.left hy hs).2⟩
  | none =>
      rw [ref, hs] at hp
      exact absurd (Arena.issued_of_isLive hl) (h.sound.dst hp)

/-- **What is brought in is put under what stands for its parent.** -/
theorem gains (h : Sparing m before es r) (hm : m.Sound) (hr' : r'.Sound m.src.arena)
    (hy : m.dst.arena.isLive y) (hp : r.resolve (m.ref y) = .ok p) (hg : Gains r r' p k t ns)
    (hes : ∀ k, Event.gone k ∉ es') : Sparing m (before ++ [a]) (es ++ es') r' := by
  have hnew : ∀ {k}, k ∈ ns → ¬ m.src.arena.isLive k := fun hk hl =>
    hg.not_issued _ hk (h.sound.later.issued (Arena.issued_of_isLive hl))
  -- what was there is where it was
  have hold : ∀ {k}, k ∉ ns → r'.arena.isLive k →
      r.arena.isLive k ∧ r'.arena.parent? k = r.arena.parent? k := by
    intro k hk hl
    have hmem' := hr'.mem_nodes_iff.2 hl
    have hmem := ((hg.mem_nodes_iff k).1 hmem').resolve_right hk
    exact ⟨h.sound.mem_nodes_iff.1 hmem, hg.others.parent? k hmem hmem' (Option.some_ne_none k)⟩
  exact
    { sound := hr'
      parent?_eq := by
        intro k hl hl'
        obtain ⟨hlr, hpk⟩ := hold (fun hk => hnew hk hl) hl'
        rw [hpk, h.parent?_eq hl hlr]
      adopted := by
        intro k q hl hl' hkq hlq
        by_cases hk : k ∈ ns
        · have hq : q ∉ ns := fun hq => hnew hq hlq
          have htop := hr'.mem_nodes_iff.1 ((hg.mem_nodes_iff t).2 (Or.inr hg.mem))
          rw [← hg.preorder, hr'.wf.mem_preorder_iff htop] at hk hq
          rcases hk.2.parent_or_eq hkq with rfl | hb
          · obtain rfl := Option.some.inj (hg.parent?.symm.trans hkq)
            exact h.exists_counterpart hm hy hp hlq
          · exact absurd ⟨hr'.wf.isLive_of_parent? hl' hkq, hb⟩ hq
        · obtain ⟨hlr, hpk⟩ := hold hk hl'
          exact h.adopted hl hlr (hpk.symm.trans hkq) hlq
      gone := by
        intro k hk
        obtain ⟨b, hb, hbk⟩ := h.gone ((List.mem_append.1 hk).resolve_right (hes k))
        exact ⟨b, List.mem_append_left _ hb, hbk⟩ }

/-- **What is taken out was below the top of it in the source.** -/
theorem loses (h : Sparing m before es r) (hr' : r'.Sound m.src.arena) (hl : Loses r r' s)
    (hes : ∀ n, Event.gone n ∈ es' → a.unmakes m.src n) :
    Sparing m (before ++ [a]) (es ++ es') r' := by
  have hold : ∀ {n}, r'.arena.isLive n →
      r.arena.isLive n ∧ r'.arena.parent? n = r.arena.parent? n := by
    intro n hn
    have hmem' := hr'.mem_nodes_iff.2 hn
    have hmem := ((hl.mem_nodes_iff n).1 hmem').1
    exact ⟨h.sound.mem_nodes_iff.1 hmem, hl.others.parent? n hmem hmem' (Option.some_ne_none n)⟩
  exact
    { sound := hr'
      parent?_eq := by
        intro n hn hn'
        obtain ⟨hlr, hp⟩ := hold hn'
        rw [hp, h.parent?_eq hn hlr]
      adopted := by
        intro n p hn hn' hp hlp
        obtain ⟨hlr, hpn⟩ := hold hn'
        exact h.adopted hn hlr (hpn.symm.trans hp) hlp
      gone := by
        intro n hn
        rcases List.mem_append.1 hn with hn | hn
        · obtain ⟨b, hb, hbn⟩ := h.gone hn
          exact ⟨b, List.mem_append_left _ hb, hbn⟩
        · exact ⟨a, List.mem_append_right _ (List.mem_singleton_self a), hes n hn⟩ }

/-- **An action that is planned and is not left out spares what should stay.** -/
theorem step (h : Sparing m before es r) (hm : m.Sound) (hdst : r.dst = m.dst)
    (ha : m.Quiet a) (hstep : r.step a = .ok r') :
    Sparing m (before ++ [a]) (es ++ events r r' a) r' := by
  have hacc := h.sound.step_iff.1 hstep
  have hr' := h.sound.accepts hacc
  have hplanned := ha.planned
  have hquiet := ha.isMoveOrUpdate
  cases h.sound.performs (hdst ▸ hm.dst) (hdst ▸ fun d => ha.contains hm) hacc with
  | insert hp hgain =>
      cases hplanned with
      | insert hx hs hy =>
          exact h.gains hm hr' (hm.dst.arena.isLive_of_parent? hx hy) hp hgain
            fun k hk => by cases List.mem_singleton.1 hk
  | treeInsert hp hgain =>
      cases hplanned with
      | treeInsert hx hc hy =>
          exact h.gains hm hr' (hm.dst.arena.isLive_of_parent? hx hy) hp hgain
            fun k => Event.gone_not_mem_mades
  | root => cases hplanned
  | update => cases hquiet
  | move => cases hquiet
  | @treeDelete s n _ hn hloss =>
      obtain rfl := h.sound.src (Sound.resolve_iff.1 hn)
      cases hplanned with
      | treeDelete hs hc =>
          have hln := h.sound.isLive (Sound.resolve_iff.1 hn)
          refine h.loses hr' hloss fun k hk => ?_
          obtain ⟨k', hk', he⟩ := List.mem_map.1 hk
          obtain rfl := Event.gone.inj he
          obtain ⟨hlk, hb⟩ := (h.sound.wf.mem_preorder_iff hln).1 hk'
          exact decide_eq_true ((hm.src.arena.mem_preorder_iff hs).2 (h.below hm hs hc hlk hb))
  | @delete s n _ hn hleaf hloss =>
      obtain rfl := h.sound.src (Sound.resolve_iff.1 hn)
      refine h.loses hr' hloss fun k hk => ?_
      obtain rfl := Event.gone.inj (List.mem_singleton.1 hk)
      exact decide_eq_true rfl

end Sparing

/-- **Every accepted part of a quiet script spares what should stay.** -/
theorem sparing_run (hm : m.Sound) (hq : ∀ a ∈ before, m.Quiet a)
    (hr : (start m.src m.dst).run before = .ok r) :
    Sparing m before ((start m.src m.dst).history before) r := by
  induction before using List.reverseRecOn generalizing r with
  | nil =>
      obtain rfl := Except.ok.inj hr
      exact Sparing.start hm
  | append_singleton before a ih =>
      obtain ⟨r₁, hr₁, hra⟩ := run_append_iff.1 hr
      obtain ⟨r₂, hstep, hr₂⟩ := run_cons_iff.1 hra
      obtain rfl := Except.ok.inj hr₂
      rw [history_append hr₁, history_cons hstep, history, List.append_nil]
      exact (ih (fun b hb => hq b (List.mem_append_left _ hb)) hr₁).step hm
        (run_dst_eq hm.src hr₁) (hq a (List.mem_append_right _ (List.mem_singleton_self a))) hstep

/-! ### References -/

section Prefix

variable (hm : m.Sound) (hq : ∀ a ∈ before, m.Quiet a)
  (hr : (start m.src m.dst).run before = .ok r)

include hm hq hr

/-- **What has gone has no counterpart.** -/
theorem of_gone (hn : .gone n ∈ (start m.src m.dst).history before) :
    m.src.arena.isLive n ∧ m.counterpart? n = none := by
  obtain ⟨a, ha, hu⟩ := (sparing_run hm hq hr).gone hn
  exact (hq a ha).of_unmakes hm hu

theorem chronicle_quiet : Chronicle m.src ((start m.src m.dst).history before) r ∧
    ((start m.src m.dst).history before).filterMap Event.origin? =
      before.flatMap (Action.brings m.dst) :=
  chronicle_run hm.src hm.dst (fun a ha _ => (hq a ha).contains hm) hr

/-- A source node stands for itself until it is taken out. -/
theorem live?_src_of_not_unmakes (hs : m.src.arena.isLive s)
    (hn : ∀ a ∈ before, ¬ a.unmakes m.src s) : r.live? (.src s) = some s := by
  refine (chronicle_quiet hm hq hr).1.told.live?_src.2 ⟨.src hs, fun hg => ?_⟩
  obtain ⟨a, ha, hu⟩ := (sparing_run hm hq hr).gone hg
  exact hn a ha hu

/-- So a node with a counterpart always does. -/
theorem live?_src_of_counterpart? (hs : m.src.arena.isLive s) (hx : m.counterpart? s = some x) :
    r.live? (.src s) = some s := by
  refine live?_src_of_not_unmakes hm hq hr hs fun a ha hu => ?_
  exact nomatch ((hq a ha).of_unmakes hm hu).2.symm.trans hx

/-- **What has been brought in stays.** -/
theorem exists_live?_dst (hy : y ∈ before.flatMap (Action.brings m.dst)) :
    ∃ p, r.live? (.dst y) = some p := by
  obtain ⟨hc, horigins⟩ := chronicle_quiet hm hq hr
  rw [← horigins, List.mem_filterMap] at hy
  obtain ⟨e, he, hy⟩ := hy
  cases e with
  | gone => cases hy
  | made d n =>
      obtain rfl := Option.some.inj hy
      obtain ⟨p, hp⟩ := Current.exists_of_made he fun k hk hg =>
        hc.not_isLive hk (of_gone hm hq hr hg).1
      exact ⟨p, hc.told.live?_dst.2 hp⟩

/-- **Nothing goes but what has no counterpart.** -/
theorem mem_nodes_of_run {between : List Action} {r₁ : Replay} (hn : n ∈ r.nodes)
    (hb : ∀ a ∈ between, m.Quiet a) (hr₁ : (start m.src m.dst).run (before ++ between) = .ok r₁)
    (hkeep : m.src.arena.isLive n → ∃ x, m.counterpart? n = some x) : n ∈ r₁.nodes := by
  have hq₁ : ∀ a ∈ before ++ between, m.Quiet a := fun a ha =>
    (List.mem_append.1 ha).elim (hq a) (hb a)
  have hsp := sparing_run hm hq hr
  have hsp₁ := sparing_run hm hq₁ hr₁
  obtain ⟨ref, ho⟩ := ((chronicle_quiet hm hq hr).1.isLive_iff.1 (hsp.sound.mem_nodes_iff.1 hn)).1
  rw [hsp₁.sound.mem_nodes_iff, (chronicle_quiet hm hq₁ hr₁).1.isLive_iff, history_append hr]
  refine ⟨⟨ref, ho.mono⟩, fun hg => ?_⟩
  rw [← history_append hr] at hg
  obtain ⟨hl, hnone⟩ := of_gone hm hq₁ hr₁ hg
  obtain ⟨x, hx⟩ := hkeep hl
  exact nomatch hnone.symm.trans hx

end Prefix

/-! ### The whole script -/

section Script

variable (hm : m.Sound) (hroots : m.source? m.dst.root = some m.src.root)
  (hscript : m.editScript true = .ok script)

include hm hroots hscript

/-- The quiet script is made of the full one, all of which is accepted. -/
theorem exists_full : ∃ full t, TreeScript.replay m.src m.dst full = .ok t ∧
    script = full.filter (fun a => !a.isMoveOrUpdate) ∧ ∀ a ∈ full, m.Planned a.unplaced := by
  obtain ⟨full, t, hfull, ht, -⟩ := hm.exists_realised hroots
  obtain ⟨d, -, hd, hf⟩ := hm.exists_draft hroots
  obtain rfl := Except.ok.inj (hd.symm.trans hfull)
  rw [editScript_hushed, hfull] at hscript
  exact ⟨d.script, t, ht, (Except.ok.inj hscript).symm, fun a => hf.planned hm.dst hroots⟩

theorem quiet_of_mem (ha : a ∈ script) : m.Quiet a := by
  obtain ⟨full, -, -, rfl, hplanned⟩ := exists_full hm hroots hscript
  obtain ⟨ha, hquiet⟩ := List.mem_filter.1 ha
  exact ⟨hplanned a ha, by simpa using hquiet⟩

/-- **What a quiet script refers to it has brought in before**: the full script has, and what it
tells in between brings nothing in. -/
theorem mem_brings_of_split (hsplit : script = before ++ a :: after) (href : .dst y ∈ a.refs) :
    y ∈ before.flatMap (Action.brings m.dst) := by
  obtain ⟨full, t, ht, hquiet, hplanned⟩ := exists_full hm hroots hscript
  obtain ⟨r, -, hrun, -, -⟩ := replay_eq_ok_iff.1 ht
  -- the part of the full script before the action
  obtain ⟨first, rest, rfl, hfirst, hrest⟩ :=
    List.filter_eq_append_iff.1 (hquiet.symm.trans hsplit)
  obtain ⟨skipped, last, rfl, hskipped, -, -⟩ := List.filter_eq_cons_iff.1 hrest
  rw [← List.append_assoc] at hrun
  obtain ⟨r₁, hr₁, hlast⟩ := run_append_iff.1 hrun
  obtain ⟨r₂, hstep, -⟩ := run_cons_iff.1 hlast
  have hsound := (sound_start hm.src m.dst).run hr₁
  obtain ⟨n, hn⟩ := Option.ne_none_iff_exists'.1
    (Sound.live?_of_accepts (hsound.step_iff.1 hstep) href)
  have hnames : Names m.dst (first ++ skipped) := by
    rw [← List.append_assoc] at hplanned
    exact fun b hb x hx => (hplanned b (List.mem_append_left _ hb)).contains hm.dst
      (b.node_unplaced.trans hx)
  obtain ⟨hc, horigins⟩ := chronicle_run hm.src hm.dst hnames hr₁
  have hmade := (hc.told.live?_dst.1 hn).made
  have hy : y ∈ (first ++ skipped).flatMap (Action.brings m.dst) := by
    rw [← horigins]
    exact List.mem_filterMap.2 ⟨_, hmade, rfl⟩
  obtain ⟨b, hb, hby⟩ := List.mem_flatMap.1 hy
  refine List.mem_flatMap.2 ⟨b, ?_, hby⟩
  have hbq : (!b.isMoveOrUpdate) = true := by
    cases b with
    | move | update => cases hby
    | _ => rfl
  rw [← hfirst, List.mem_filter]
  exact ⟨(List.mem_append.1 hb).resolve_right fun hb => hskipped b hb hbq, hbq⟩

/-- What an action takes out has not been taken out before. -/
theorem not_unmakes_of_split (hsplit : script = before ++ a :: after) (hs : m.src.arena.isLive s)
    (ha : a.unmakes m.src s) {b : Action} (hb : b ∈ before) : ¬ b.unmakes m.src s := by
  intro hbs
  obtain ⟨_, hcovering, hcovers⟩ := hm.exists_covering hroots true
  obtain rfl := Except.ok.inj (hscript.symm.trans hcovering)
  have hcount := hcovers.unmakes s (hm.src.contains_iff.2 hs)
  have hbefore : 0 < before.countP (Action.unmakes m.src s) :=
    List.countP_pos_iff.2 ⟨b, hb, hbs⟩
  rw [hsplit, List.countP_append, List.countP_cons_of_pos ha] at hcount
  split at hcount <;> omega

theorem quiet_of_split (hsplit : script = before ++ a :: after) :
    (∀ b ∈ before, m.Quiet b) ∧ m.Quiet a := by
  have hquiet : ∀ b ∈ before ++ a :: after, m.Quiet b := fun b hb =>
    quiet_of_mem hm hroots hscript (hsplit ▸ hb)
  exact ⟨fun b hb => hquiet b (List.mem_append_left _ hb),
    hquiet a (List.mem_append_right _ List.mem_cons_self)⟩

/-- What something is put under is there, -/
theorem exists_live?_ref (hsplit : script = before ++ a :: after)
    (hr : (start m.src m.dst).run before = .ok r) (hy : m.dst.arena.isLive y)
    (href : m.ref y ∈ a.refs) : ∃ p, r.live? (m.ref y) = some p := by
  obtain ⟨hq, -⟩ := quiet_of_split hm hroots hscript hsplit
  unfold Mapping.ref at href ⊢
  split at href
  case h_1 s hs =>
    obtain ⟨hl, hx⟩ := hm.left hy hs
    exact ⟨s, live?_src_of_counterpart? hm hq hr hl hx⟩
  case h_2 => exact exists_live?_dst hm hq hr (mem_brings_of_split hm hroots hscript hsplit href)

/-- and so is what is taken out. -/
theorem exists_live?_of_unmakes (hsplit : script = before ++ a :: after)
    (hr : (start m.src m.dst).run before = .ok r) (hs : m.src.arena.isLive s)
    (ha : a.unmakes m.src s) : ∃ n, r.live? (.src s) = some n :=
  ⟨s, live?_src_of_not_unmakes hm (quiet_of_split hm hroots hscript hsplit).1 hr hs
    fun _ => not_unmakes_of_split hm hroots hscript hsplit hs ha⟩

/-- **The references of a quiet script stand for nodes**, as far as it is replayed. -/
theorem exists_live?_of_split {ref : NodeRef} (hsplit : script = before ++ a :: after)
    (hr : (start m.src m.dst).run before = .ok r) (href : ref ∈ a.refs) :
    ∃ n, r.live? ref = some n := by
  have ha := (quiet_of_split hm hroots hscript hsplit).2
  have hplanned := ha.planned
  cases a with
  | insert x parent k =>
      obtain rfl := List.mem_singleton.1 href
      cases hplanned with
      | insert hx _ hy =>
          exact exists_live?_ref hm hroots hscript hsplit hr
            (hm.dst.arena.isLive_of_parent? hx hy) (List.mem_singleton_self _)
  | treeInsert x parent k =>
      cases hplanned with
      | treeInsert hx _ hy =>
          obtain rfl := List.mem_singleton.1 href
          exact exists_live?_ref hm hroots hscript hsplit hr
            (hm.dst.arena.isLive_of_parent? hx hy) (List.mem_singleton_self _)
  | update | move => cases ha.isMoveOrUpdate
  | treeDelete s =>
      obtain rfl := List.mem_singleton.1 href
      cases hplanned with
      | treeDelete hs =>
          exact exists_live?_of_unmakes hm hroots hscript hsplit hr hs
            (decide_eq_true (hm.src.arena.mem_preorder_self hs))
  | delete s =>
      obtain rfl := List.mem_singleton.1 href
      cases hplanned with
      | delete hs =>
          exact exists_live?_of_unmakes hm hroots hscript hsplit hr hs (decide_eq_true rfl)

/-- **What can go wrong** if the roots are counterparts. -/
theorem of_replay_eq_error {e : ReplayError} (he : TreeScript.replay m.src m.dst script = .error e) :
    (∃ k n, e = .positionOutOfBounds k n) ∨ ∃ ref, e = .nodeHasChildren ref := by
  have hquiet : ∀ b ∈ script, m.Quiet b := fun b => quiet_of_mem hm hroots hscript
  have hnames : Names m.dst script := fun b hb x => (hquiet b hb).contains hm
  cases (replay_eq_error_iff hm.src hm.dst hnames).1 he with
  | @action before after a r _ hr hrefuses =>
      refine (hquiet a (List.mem_append_right _ List.mem_cons_self)).of_objection
        (fun ref href => ?_) hrefuses.objection
      rw [Option.ne_none_iff_exists']
      exact exists_live?_of_split hm hroots hscript rfl hr href
  | noRoot hr hroot =>
      -- the root of the source has a counterpart
      obtain ⟨hl, hx⟩ := hm.left hm.dst.isLive_root hroots
      have hlive := live?_src_of_counterpart? hm hquiet hr hl hx
      have hnone := ((sound_start hm.src m.dst).run hr).live?_of_root_eq_none hroot
      exact nomatch (hnone _).symm.trans hlive

end Script

/-! ### Main result -/

/-- **What can go wrong when a quiet script is replayed**: it may come to a position that is not
there, or to a node with children that is to go alone, and nothing else.  If the roots are
counterparts, no part of it takes out a source node that has a counterpart, or a node that it has
brought in. -/
theorem replay_quiet (hs : src.Built) (hd : dst.Built) (hm : Filled src dst m) :
    ∃ script, m.editScript true = .ok script ∧
      ((∃ t, TreeScript.replay src dst script = .ok t) ∨
        (∃ k n, TreeScript.replay src dst script = .error (.positionOutOfBounds k n)) ∨
          ∃ ref, TreeScript.replay src dst script = .error (.nodeHasChildren ref)) ∧
      (m.has src.root dst.root → ∀ before between after r r', script = before ++ between ++ after →
        (start src dst).run before = .ok r → (start src dst).run (before ++ between) = .ok r' →
          ∀ n ∈ r.nodes, (src.contains n → m.hasSrc n) → n ∈ r'.nodes) := by
  obtain ⟨hsound, rfl, rfl⟩ := hm.sound hs.wellFormed hd.wellFormed
  obtain ⟨full, hfull⟩ := hsound.exists_editScript
  have hscript : m.editScript true = .ok (full.filter fun a => !a.isMoveOrUpdate) := by
    rw [editScript_hushed, hfull]
    rfl
  refine ⟨_, hscript, ?_, ?_⟩
  · by_cases hpaired : m.rootsPaired
    · have hroots := beq_iff_eq.1 hpaired
      cases hreplay : TreeScript.replay m.src m.dst (full.filter fun a => !a.isMoveOrUpdate) with
      | ok t => exact Or.inl ⟨t, rfl⟩
      | error e =>
          rcases of_replay_eq_error hsound hroots hscript hreplay with ⟨k, n, rfl⟩ | ⟨ref, rfl⟩
          · exact Or.inr (Or.inl ⟨k, n, rfl⟩)
          · exact Or.inr (Or.inr ⟨ref, rfl⟩)
    · -- the script makes the destination anew
      rw [editScript, if_neg hpaired] at hfull
      obtain rfl := pure_eq_ok.1 hfull
      obtain ⟨t, ht, -⟩ := hsound.exists_replaced
      exact Or.inl ⟨t, ht⟩
  · intro hr before between after r r' hsplit hrun hrun' n hn hkeep
    have hroots := (hsound.right hsound.src.isLive_root (has_iff.1 hr)).2
    have hquiet : ∀ b ∈ before ++ between, m.Quiet b := fun b hb =>
      quiet_of_mem hsound hroots hscript (hsplit ▸ List.mem_append_left _ hb)
    exact mem_nodes_of_run hsound (fun b hb => hquiet b (List.mem_append_left _ hb)) hrun hn
      (fun b hb => hquiet b (List.mem_append_right _ hb)) hrun'
      fun hl => hasSrc_iff.1 (hkeep (hsound.src.contains_iff.2 hl))

/-- The pairs of the roots and of a leaf that has been two levels below the root. -/
def sheltering : List (NodeId × NodeId) := [(⟨0, 0⟩, ⟨0, 0⟩), (⟨2, 0⟩, ⟨1, 0⟩)]

/-- A leaf that should have come to the root is where it was, below a node that is to go.  A new
leaf has come before that is found out, and no leaf has gone. -/
theorem replay_quiet_sheltering : ∃ t₀ src dst m r,
    Tree.fan ⟨"item", 0⟩ "old" ["a"] = .ok t₀ ∧
    t₀.addChild ⟨1, 0⟩ ⟨"item", 0⟩ "b" = .ok (⟨2, 0⟩, src) ∧
    Tree.fan ⟨"item", 0⟩ "new" ["b", "c"] = .ok dst ∧ pairing src dst sheltering = .ok m ∧
    m.has src.root dst.root ∧
    m.editScript true = .ok [.insert ⟨2, 0⟩ (.src ⟨0, 0⟩) 1, .delete ⟨1, 0⟩] ∧
    TreeScript.replay src dst [.insert ⟨2, 0⟩ (.src ⟨0, 0⟩) 1, .delete ⟨1, 0⟩] =
      .error (.nodeHasChildren (.src ⟨1, 0⟩)) ∧
    (start src dst).run [.insert ⟨2, 0⟩ (.src ⟨0, 0⟩) 1] = .ok r ∧ ⟨2, 0⟩ ∈ r.nodes := by
  obtain ⟨t₀, src, dst, m, r, hfan, hsrc, hdst, hlive, hm, hroots, hpaired, hscript, hreplay, hrun,
      hnodes⟩ : ∃ t₀ src dst m r, Tree.fan ⟨"item", 0⟩ "old" ["a"] = .ok t₀ ∧
      t₀.addChild ⟨1, 0⟩ ⟨"item", 0⟩ "b" = .ok (⟨2, 0⟩, src) ∧
      Tree.fan ⟨"item", 0⟩ "new" ["b", "c"] = .ok dst ∧
      (∀ p ∈ sheltering, src.contains p.1 ∧ dst.contains p.2) ∧
      pairing src dst sheltering = .ok m ∧ m.has src.root dst.root ∧ m.hasSrc ⟨2, 0⟩ ∧
      m.editScript true = .ok [.insert ⟨2, 0⟩ (.src ⟨0, 0⟩) 1, .delete ⟨1, 0⟩] ∧
      TreeScript.replay src dst [.insert ⟨2, 0⟩ (.src ⟨0, 0⟩) 1, .delete ⟨1, 0⟩] =
        .error (.nodeHasChildren (.src ⟨1, 0⟩)) ∧
      (start src dst).run [.insert ⟨2, 0⟩ (.src ⟨0, 0⟩) 1] = .ok r ∧
      ⟨2, 0⟩ ∈ (start src dst).nodes :=
    ⟨_, _, _, _, _, rfl, rfl, rfl, by decide +kernel, rfl, rfl, rfl, by decide +kernel, rfl, rfl,
      by decide +kernel⟩
  obtain ⟨script, hscript', -, hstays⟩ := replay_quiet
    (Tree.Built.addChild (Tree.built_fan _ _ _ hfan) hsrc) (Tree.built_fan _ _ _ hdst)
    (filled_pairing sheltering hlive hm)
  obtain rfl := Except.ok.inj (hscript.symm.trans hscript')
  exact ⟨t₀, src, dst, m, r, hfan, hsrc, hdst, hm, hroots, hscript, hreplay, hrun,
    hstays hroots [] [.insert ⟨2, 0⟩ (.src ⟨0, 0⟩) 1] [.delete ⟨1, 0⟩] _ _ rfl rfl hrun _ hnodes
      fun _ => hpaired⟩

end Mapping

end TreeScript
