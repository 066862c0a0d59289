/-
**Why a script is refused.**

Several things may be wrong with an action at once.  Each of them is a fact about the tree as it
is: a reference that stands for no node, a move into the moved subtree, a position that is not
there, a second root, a node with children that is to go alone.  An action is accepted if nothing
is to be said against it, and otherwise refused for the foremost of the things that are.  So a
script is refused at the first action that something is to be said against, or, if there is no
such action, because there is no root in the end.

Main definitions:

* `TreeScript.Action.refs` — the references that an action has to look up;
* `TreeScript.Replay.Objection` — **what is to be said against an action**, each thing by itself;
* `TreeScript.Action.rank`, `TreeScript.Replay.Refuses` — the foremost objection;
* `TreeScript.Refused` — why a script is refused.

Main results:

* `TreeScript.Replay.Sound.exists_step_iff` — an action is accepted if there is no objection;
* `TreeScript.Replay.Sound.step_eq_error_iff` — **an action is refused for the foremost
  objection**;
* `TreeScript.replay_refused` — **why scripts are refused**, for every script.
-/

import TreeScript.Proofs.Replay.Integrity

set_option relaxedAutoImplicit false
set_option autoImplicit false

namespace TreeScript

/-! ### Objections -/

namespace Action

/-- The references that have to stand for nodes, in the order in which they are looked up. -/
def refs : Action → List NodeRef
  | insert _ p _ => [p]
  | treeInsert _ p _ => p.toList
  | update s _ => [.src s]
  | move s p _ => [.src s, p]
  | treeDelete s => [.src s]
  | delete s => [.src s]

/-- **How late an objection to the action is told of**, if there are others.  References come
first, in the order in which they are looked up. -/
def rank (a : Action) : ReplayError → Nat
  | .unknownNode ref => a.refs.idxOf ref
  | .moveIntoDescendant _ => 2
  | .positionOutOfBounds _ _ => 3
  | .rootAlreadyPresent => 4
  | .nodeHasChildren _ => 5
  | .noRoot => 6
  | .fault _ => 6

theorem length_refs_le (a : Action) : a.refs.length ≤ 2 := by
  cases a with
  | treeInsert _ p _ => cases p <;> simp [refs]
  | _ => simp [refs]

theorem rank_unknownNode_lt {a : Action} {ref : NodeRef} (h : ref ∈ a.refs) :
    a.rank (.unknownNode ref) < 2 :=
  (List.idxOf_lt_length_iff.2 h).trans_le a.length_refs_le

end Action

namespace Replay

variable {r r' : Replay} {a : Action} {e e' : ReplayError} {ref parent : NodeRef}
  {n p s d : NodeId} {k : Nat} {a₀ : Arena NodeData} {script : List Action}

/-- The number of children of `p`, among which the node that `a` moves does not count. -/
def room (r : Replay) (a : Action) (p : NodeId) : Nat :=
  ((r.arena.children p).filter fun c => some c != a.moved?).length

/-- **What is to be said against an action**, each thing by itself. -/
inductive Objection (r : Replay) : Action → ReplayError → Prop where
  /-- A reference stands for no node. -/
  | unknown {a : Action} {ref : NodeRef} (href : ref ∈ a.refs) (hnone : r.live? ref = none) :
      Objection r a (.unknownNode ref)
  /-- A node would come to be below itself. -/
  | descendant {s n p : NodeId} {parent : NodeRef} {k : Nat} (hn : r.live? (.src s) = some n)
      (hp : r.live? parent = some p) (hb : r.arena.Below n p) :
      Objection r (.move s parent k) (.moveIntoDescendant (.src s))
  /-- The position is beyond the end of the list of children. -/
  | position {a : Action} {parent : NodeRef} {p : NodeId} {k : Nat}
      (hparent : a.parent? = some parent) (hposition : a.position? = some k)
      (hp : r.live? parent = some p) (hk : r.room a p < k) :
      Objection r a (.positionOutOfBounds k (r.room a p))
  /-- There is a root. -/
  | root {d root : NodeId} {k : Nat} (hroot : r.root = some root) :
      Objection r (.treeInsert d none k) .rootAlreadyPresent
  /-- The node has children. -/
  | children {s n : NodeId} (hn : r.live? (.src s) = some n) (hc : r.arena.children n ≠ []) :
      Objection r (.delete s) (.nodeHasChildren (.src s))

/-- **The foremost objection** to an action. -/
structure Refuses (r : Replay) (a : Action) (e : ReplayError) : Prop where
  objection : r.Objection a e
  foremost : ∀ e', r.Objection a e' → a.rank e ≤ a.rank e'

namespace Objection

/-- If all references stand for nodes, a move into the moved subtree is the foremost objection. -/
theorem two_le_rank (h : r.Objection a e) (hall : ∀ ref ∈ a.refs, r.live? ref ≠ none) :
    2 ≤ a.rank e := by
  cases h with
  | unknown href hnone => exact absurd hnone (hall _ href)
  | _ => simp [Action.rank]

/-- If it is not that either, it is a position that is not there. -/
theorem three_le_rank (h : r.Objection a e) (hall : ∀ ref ∈ a.refs, r.live? ref ≠ none)
    (hmove : ∀ ref, e ≠ .moveIntoDescendant ref) : 3 ≤ a.rank e := by
  cases h with
  | unknown href hnone => exact absurd hnone (hall _ href)
  | descendant => exact absurd rfl (hmove _)
  | _ => simp [Action.rank]

/-- **No two objections have the same rank.** -/
theorem eq_of_rank_eq (h : r.Objection a e) (h' : r.Objection a e') (he : a.rank e = a.rank e') :
    e = e' := by
  cases h with
  | unknown href hnone =>
      have hlt := Action.rank_unknownNode_lt href
      cases h' with
      | unknown href' => rw [(List.idxOf_inj href).1 he]
      | _ => rw [he] at hlt; simp [Action.rank] at hlt
  | position hparent hposition hp =>
      cases h' with
      | unknown href' =>
          have hlt := Action.rank_unknownNode_lt href'
          rw [← he] at hlt
          simp [Action.rank] at hlt
      | position hparent' hposition' hp' =>
          obtain rfl := Option.some.inj (hparent.symm.trans hparent')
          obtain rfl := Option.some.inj (hposition.symm.trans hposition')
          obtain rfl := Option.some.inj (hp.symm.trans hp')
          rfl
      | _ => simp [Action.rank] at he
  | _ =>
      cases h' with
      | unknown href' =>
          have hlt := Action.rank_unknownNode_lt href'
          rw [← he] at hlt
          simp [Action.rank] at hlt
      | position => simp [Action.rank] at he
      | _ => rfl

end Objection

/-- There is only one foremost objection. -/
theorem Refuses.unique (h : r.Refuses a e) (h' : r.Refuses a e') : e = e' :=
  h.objection.eq_of_rank_eq h'.objection
    (le_antisymm (h.foremost _ h'.objection) (h'.foremost _ h.objection))

/-- The first reference that stands for no node is the foremost objection. -/
theorem refuses_unknown (href : ref ∈ a.refs) (hnone : r.live? ref = none)
    (hfirst : ∀ other ∈ a.refs, r.live? other = none → a.refs.idxOf ref ≤ a.refs.idxOf other) :
    r.Refuses a (.unknownNode ref) where
  objection := .unknown href hnone
  foremost := by
    intro e' h'
    cases h' with
    | unknown href' hnone' => exact hfirst _ href' hnone'
    | _ => exact (Action.rank_unknownNode_lt href).le.trans (by simp [Action.rank])

/-- The first reference is. -/
theorem refuses_unknown_head {refs : List NodeRef} (ha : a.refs = ref :: refs)
    (hnone : r.live? ref = none) : r.Refuses a (.unknownNode ref) :=
  refuses_unknown (ha ▸ List.mem_cons_self) hnone fun _ _ _ => by simp [ha]

/-! ### Where an action stops -/

theorem live?_ne_none_singleton (hn : r.live? ref = some n) :
    ∀ other ∈ [ref], r.live? other ≠ none := by
  intro other hother
  rw [List.mem_singleton.1 hother, hn]
  exact Option.some_ne_none n

theorem live?_ne_none_pair (hn : r.live? ref = some n) (hp : r.live? parent = some p) :
    ∀ other ∈ [ref, parent], r.live? other ≠ none := by
  intro other hother
  rcases List.mem_cons.1 hother with rfl | hother
  · rw [hn]
    exact Option.some_ne_none n
  · exact live?_ne_none_singleton hp other hother

theorem resolve_eq_error (h : r.resolve ref = .error e) :
    r.live? ref = none ∧ e = .unknownNode ref := by
  unfold resolve at h
  split at h
  · cases h
  · cases h
    exact ⟨‹_›, rfl⟩

/-- **An action looks up its first reference first**; `f` is the rest of it. -/
theorem refuses_lookup {refs : List NodeRef} {f : NodeId → Except ReplayError Replay}
    (ha : a.refs = ref :: refs)
    (hf : ∀ n, r.live? ref = some n → f n = .error e → r.Refuses a e)
    (he : (r.resolve ref >>= f) = .error e) : r.Refuses a e := by
  rw [bind_eq_error] at he
  rcases he with he | ⟨n, hn, he⟩
  · obtain ⟨hnone, rfl⟩ := resolve_eq_error he
    exact refuses_unknown_head ha hnone
  · rw [Sound.resolve_iff] at hn
    exact hf n hn he

theorem checkPosition_eq_error {moving : Option NodeId} (hmoving : a.moved? = moving)
    (h : r.checkPosition p k moving = .error e) :
    r.room a p < k ∧ e = .positionOutOfBounds k (r.room a p) := by
  have hcheck : r.checkPosition p k moving =
      if k ≤ r.room a p then .ok () else .error (.positionOutOfBounds k (r.room a p)) := by
    rw [← hmoving]
    rfl
  rw [hcheck] at h
  split at h
  case isTrue => cases h
  case isFalse hk =>
    cases h
    exact ⟨Nat.lt_of_not_le hk, rfl⟩

theorem room_of_not_move (ha : a.moved? = none) : r.room a p = (r.arena.children p).length := by
  rw [room, ha]
  exact congrArg List.length (List.filter_eq_self.2 fun c _ => rfl)

namespace Sound

variable (h : r.Sound a₀)

include h

theorem room_move (hs : r.live? (.src s) = some n) (hp : r.arena.isLive p) :
    r.room (.move s parent k) p = ((r.arena.children p).erase n).length := by
  obtain rfl := h.src hs
  rw [(h.wf.nodup_children hp).erase_eq_filter]
  refine congrArg List.length (List.filter_congr fun c _ => ?_)
  simp only [Action.moved?, bne, beq_eq_decide, Option.some_inj]

/-! ### What is accepted -/

omit h in
theorem live?_of_accepts (ha : r.Accepts a r') (href : ref ∈ a.refs) : r.live? ref ≠ none := by
  cases ha with
  | insert hp => exact live?_ne_none_singleton hp ref href
  | treeInsert hp => exact live?_ne_none_singleton hp ref href
  | root => cases href
  | update hn => exact live?_ne_none_singleton hn ref href
  | move hn hp => exact live?_ne_none_pair hn hp ref href
  | treeDelete hn => exact live?_ne_none_singleton hn ref href
  | delete hn => exact live?_ne_none_singleton hn ref href

theorem le_room_of_accepts (ha : r.Accepts a r') (hparent : a.parent? = some parent)
    (hposition : a.position? = some k) (hp : r.live? parent = some p) : k ≤ r.room a p := by
  cases ha with
  | insert hp' hk =>
      cases hparent
      cases hposition
      obtain rfl := Option.some.inj (hp.symm.trans hp')
      exact hk.trans_eq (room_of_not_move rfl).symm
  | treeInsert hp' hk =>
      cases hparent
      cases hposition
      obtain rfl := Option.some.inj (hp.symm.trans hp')
      exact hk.trans_eq (room_of_not_move rfl).symm
  | move hn hp' _ hk =>
      cases hparent
      cases hposition
      obtain rfl := Option.some.inj (hp.symm.trans hp')
      exact hk.trans_eq (h.room_move hn (h.isLive hp)).symm
  | _ => cases hparent

/-- There is no objection to what is accepted. -/
theorem not_objection (ha : r.Accepts a r') : ¬ r.Objection a e := by
  intro ho
  cases ho with
  | unknown href hnone => exact live?_of_accepts ha href hnone
  | descendant hn hp hb =>
      cases ha with
      | move hn' hp' hb' =>
          obtain rfl := Option.some.inj (hn.symm.trans hn')
          obtain rfl := Option.some.inj (hp.symm.trans hp')
          exact hb' hb
  | position hparent hposition hp hlt =>
      exact hlt.not_ge (h.le_room_of_accepts ha hparent hposition hp)
  | root hroot =>
      cases ha with
      | root hnone => exact nomatch hnone.symm.trans hroot
  | children hn hc =>
      cases ha with
      | delete hn' hc' =>
          obtain rfl := Option.some.inj (hn.symm.trans hn')
          exact hc hc'

/-! ### What is refused -/

section Refused

variable (hd : r.dst.WellFormed) (hnames : ∀ d, a.node = .dst d → r.dst.contains d)

/-- Where a node is brought in, the parent is looked up first, and then the position. -/
theorem refuses_place {f : NodeId → Except ReplayError Replay} (ha : a.moved? = none)
    (hrefs : a.refs = [parent]) (hparent : a.parent? = some parent)
    (hposition : a.position? = some k) (hf : ∀ p, r.arena.isLive p → ∃ r', f p = .ok r')
    (he : (do
      let p ← r.resolve parent
      r.checkPosition p k none
      f p) = .error e) : r.Refuses a e := by
  refine refuses_lookup hrefs (fun p hp he => ?_) he
  rw [bind_eq_error] at he
  rcases he with he | ⟨⟨⟩, -, he⟩
  · obtain ⟨hk, rfl⟩ := checkPosition_eq_error ha he
    refine ⟨.position hparent hposition hp hk, fun e' h' => h'.three_le_rank ?_ ?_⟩
    · rw [hrefs]
      exact live?_ne_none_singleton hp
    · rintro ref rfl
      cases h' with
      | descendant => cases ha
  · obtain ⟨r', hr'⟩ := hf p (h.isLive hp)
    exact nomatch hr'.symm.trans he

/-- For a move both references are looked up first, then comes the moved subtree, and then the
position. -/
theorem refuses_move (he : r.step (.move s parent k) = .error e) :
    r.Refuses (.move s parent k) e := by
  refine refuses_lookup rfl (fun n hn he => ?_) he
  rw [bind_eq_error] at he
  rcases he with he | ⟨p, hp, he⟩
  · obtain ⟨hnone, rfl⟩ := resolve_eq_error he
    -- the node is there, so that the parent comes first
    refine refuses_unknown (List.mem_pair.2 (Or.inr rfl)) hnone fun other href hother => ?_
    rcases List.mem_pair.1 href with rfl | rfl
    · cases hother.symm.trans hn
    · exact le_rfl
  rw [resolve_iff] at hp
  have hall : ∀ ref ∈ (Action.move s parent k).refs, r.live? ref ≠ none :=
    live?_ne_none_pair hn hp
  split at he
  case isTrue hb =>
    cases he
    rw [h.wf.mem_ancestors_iff (h.isLive hp)] at hb
    exact ⟨.descendant hn hp hb, fun e' h' => h'.two_le_rank hall⟩
  case isFalse hb =>
    rw [h.wf.mem_ancestors_iff (h.isLive hp)] at hb
    simp only [bind_eq_error, h.attach_unlink (h.isLive hn) (h.isLive hp) hb, reduceCtorEq,
      and_false, exists_false, or_false] at he
    obtain ⟨hk, rfl⟩ := checkPosition_eq_error (a := .move s parent k)
      (congrArg some (h.src hn).symm) he
    refine ⟨.position rfl rfl hp hk, fun e' h' => h'.three_le_rank hall ?_⟩
    rintro ref rfl
    cases h' with
    | descendant hn' hp' hb' =>
        obtain rfl := Option.some.inj (hn.symm.trans hn')
        obtain rfl := Option.some.inj (hp.symm.trans hp')
        exact hb hb'

omit h in
/-- A node is taken out alone only if it has no children. -/
theorem refuses_delete (he : r.step (.delete s) = .error e) : r.Refuses (.delete s) e := by
  refine refuses_lookup rfl (fun n hn he => ?_) he
  split at he
  case isTrue => cases he
  case isFalse hc =>
    cases he
    refine ⟨.children hn (by simpa using hc), fun e' h' => ?_⟩
    cases h' with
    | unknown href hnone => exact absurd hnone (live?_ne_none_singleton hn _ href)
    | position hparent => cases hparent
    | children => exact le_rfl

include hd hnames

theorem exists_insert (ha : a.node = .dst d) (hp : r.arena.isLive p) (k : Nat) :
    ∃ r', r.insert d p k = .ok r' := by
  obtain ⟨data, hdata⟩ := Arena.exists_data?_of_isLive (hd.contains_iff.1 (hnames d ha))
  exact ⟨_, (h.insert_iff hp).2 ⟨data, Tree.data_eq_ok hdata, rfl⟩⟩

theorem exists_insertTree (ha : a.node = .dst d) (hp : r.arena.isLive p) (k : Nat) :
    ∃ r', r.insertTree d (some p) k = .ok r' := by
  obtain ⟨v, hv, -⟩ := hd.exists_view (hd.contains_iff.1 (hnames d ha))
  exact ⟨_, (h.insertTree_some_iff hp).2 ⟨v, hv, rfl⟩⟩

/-- **What is refused is refused for the foremost objection.** -/
theorem refuses_of_step (he : r.step a = .error e) : r.Refuses a e := by
  cases a with
  | insert d parent k =>
      exact h.refuses_place rfl rfl rfl rfl
        (fun p hp => h.exists_insert hd hnames rfl hp k) he
  | treeInsert d parent k =>
      cases parent with
      | some parent =>
          exact h.refuses_place rfl rfl rfl rfl
            (fun p hp => h.exists_insertTree hd hnames rfl hp k) he
      | none =>
          rw [step] at he
          split at he
          case isTrue hroot =>
            cases he
            obtain ⟨root, hroot⟩ := Option.isSome_iff_exists.1 hroot
            refine ⟨.root hroot, fun e' h' => ?_⟩
            cases h' with
            | unknown href => cases href
            | position hparent => cases hparent
            | root => exact le_rfl
          case isFalse =>
            obtain ⟨v, hv, -⟩ := hd.exists_view (hd.contains_iff.1 (hnames d rfl))
            cases (insertTree_iff.2 ⟨v, hv, rfl⟩).symm.trans he
  | update s label => exact refuses_lookup rfl (fun n _ he => by cases he) he
  | move s parent k => exact h.refuses_move he
  | treeDelete s => exact refuses_lookup rfl (fun n _ he => by cases he) he
  | delete s => exact refuses_delete he

/-- **An action is refused for the foremost objection.** -/
theorem step_eq_error_iff : r.step a = .error e ↔ r.Refuses a e := by
  refine ⟨h.refuses_of_step hd hnames, fun he => ?_⟩
  cases hstep : r.step a with
  | ok r' => exact absurd he.objection (h.not_objection (h.accepts_of_step hstep))
  | error e' => rw [(h.refuses_of_step hd hnames hstep).unique he]

/-- **An action is accepted if and only if nothing is to be said against it.** -/
theorem exists_step_iff : (∃ r', r.step a = .ok r') ↔ ∀ e, ¬ r.Objection a e := by
  constructor
  · rintro ⟨r', hstep⟩ e
    exact h.not_objection (h.accepts_of_step hstep)
  · intro hnone
    cases hstep : r.step a with
    | ok r' => exact ⟨r', rfl⟩
    | error e => exact absurd (h.refuses_of_step hd hnames hstep).objection (hnone e)

end Refused

omit h in
/-- **The root is not moved**: it is above every node. -/
theorem step_move_root {root : NodeId} (h : r.Sound a₀) (hroot : r.root = some root)
    (hs : r.live? (.src s) = some root) :
    r.step (.move s parent k) = .error (.unknownNode parent) ∧ r.live? parent = none ∨
      r.step (.move s parent k) = .error (.moveIntoDescendant (.src s)) := by
  cases hp : r.live? parent with
  | none =>
      refine Or.inl ⟨?_, rfl⟩
      rw [step, resolve_iff.2 hs, bind_ok, resolve_eq_error_iff.2 hp]
      rfl
  | some p =>
      have hb : r.arena.Below root p := (hroot ▸ h.rooted).below h.wf (h.isLive hp)
      have hmem := (h.wf.mem_ancestors_iff (h.isLive hp)).2 hb
      refine Or.inr ?_
      rw [step, resolve_iff.2 hs, bind_ok, resolve_iff.2 hp, bind_ok, if_pos hmem]
      rfl

end Sound

/-- A script stops at the first action that is refused. -/
theorem run_eq_error_iff : r.run script = .error e ↔ ∃ before a after r',
    script = before ++ a :: after ∧ r.run before = .ok r' ∧ r'.step a = .error e :=
  foldlM_eq_error_iff

theorem finish_eq_error_iff {types : Registry} :
    r.finish types = .error e ↔ r.root = none ∧ e = .noRoot := by
  unfold finish
  split
  case h_1 root hroot => simp [hroot]
  case h_2 hroot => simp [hroot, eq_comm]

end Replay

/-! ### Scripts -/

variable {src dst : Tree} {script : List Action} {e : ReplayError}

/-- **Why a script is refused.** -/
inductive Refused (src dst : Tree) : List Action → ReplayError → Prop where
  /-- An action is refused, on what the actions before it have left, which are accepted. -/
  | action {before after : List Action} {a : Action} {r : Replay} {e : ReplayError}
      (hr : (Replay.start src dst).run before = .ok r) (he : r.Refuses a e) :
      Refused src dst (before ++ a :: after) e
  /-- All actions are accepted, and there is no root. -/
  | noRoot {script : List Action} {r : Replay} (hr : (Replay.start src dst).run script = .ok r)
      (hroot : r.root = none) : Refused src dst script .noRoot

open Replay in
theorem replay_eq_error_iff (hs : src.WellFormed) (hd : dst.WellFormed)
    (hnames : Names dst script) :
    replay src dst script = .error e ↔ Refused src dst script e := by
  have hstep : ∀ {before a after r e}, script = before ++ a :: after →
      (start src dst).run before = .ok r → (r.step a = .error e ↔ r.Refuses a e) := by
    rintro before a after r e rfl hr
    have hdst := run_dst_eq hs hr
    exact ((sound_start hs dst).run hr).step_eq_error_iff (hdst ▸ hd)
      (hdst ▸ hnames a (List.mem_append_right _ List.mem_cons_self))
  rw [replay, bind_eq_error]
  simp only [finish_eq_error_iff]
  constructor
  · rintro (h | ⟨r, hr, hroot, rfl⟩)
    · obtain ⟨before, a, after, r, hsplit, hr, he⟩ := run_eq_error_iff.1 h
      have hrefused : Refused src dst (before ++ a :: after) e :=
        .action hr ((hstep hsplit hr).1 he)
      rwa [← hsplit] at hrefused
    · exact .noRoot hr hroot
  · rintro (⟨hr, he⟩ | ⟨hr, hroot⟩)
    · exact Or.inl (run_eq_error_iff.2 ⟨_, _, _, _, rfl, hr, (hstep rfl hr).2 he⟩)
    · exact Or.inr ⟨_, hr, hroot, rfl⟩

open Replay in
/-- **Scripts are refused for what is wrong with them.**  A script is refused for the foremost
objection to the first action that there is one to, or because it leaves no root; no fault of the
destination tree or of the arena comes to light.  On the way every reference that stands for a
node stands for one that is there, an action is accepted if and only if there is no objection, and
the root is never moved. -/
theorem replay_refused (hs : src.Built) (hd : dst.Built) (hnames : Names dst script) :
    (∀ e, replay src dst script = .error e ↔ Refused src dst script e) ∧
    (∀ f, replay src dst script ≠ .error (.fault f)) ∧
    ∀ before a after r, script = before ++ a :: after → (start src dst).run before = .ok r →
      (∀ ref n, r.resolve ref = .ok n → r.arena.isLive n) ∧
      ((∃ r', r.step a = .ok r') ↔ ∀ e, ¬ r.Objection a e) ∧
      ∀ s parent k root, a = .move s parent k → r.root = some root →
        r.resolve (.src s) = .ok root → r.step a = .error (.moveIntoDescendant (.src s)) ∨
          r.step a = .error (.unknownNode parent) ∧
            r.resolve parent = .error (.unknownNode parent) := by
  have hs := hs.wellFormed
  have hd := hd.wellFormed
  refine ⟨fun e => replay_eq_error_iff hs hd hnames, fun f hf => ?_, ?_⟩
  · cases (replay_eq_error_iff hs hd hnames).1 hf with
    | action _ he => cases he.objection
  · rintro before a after r rfl hr
    have hsound := (sound_start hs dst).run hr
    have hdst := run_dst_eq hs hr
    have ha := hnames a (List.mem_append_right _ List.mem_cons_self)
    refine ⟨fun ref n hn => hsound.isLive (Sound.resolve_iff.1 hn),
      hsound.exists_step_iff (hdst ▸ hd) (hdst ▸ ha), ?_⟩
    rintro s parent k root rfl hroot hn
    rw [resolve_eq_error_iff]
    exact (hsound.step_move_root hroot (Sound.resolve_iff.1 hn)).symm

/-- A node is to be moved below itself, to a position that is not there either. -/
def knotted : List Action :=
  [.update ⟨2, 0⟩ "c", .move ⟨1, 0⟩ (.src ⟨1, 0⟩) 9, .treeDelete ⟨0, 0⟩]

open Replay in
/-- Of the two objections the first one is told. -/
theorem replay_refused_knotted : ∃ src dst, Tree.fan ⟨"item", 0⟩ "old" ["a", "b"] = .ok src ∧
    Tree.fan ⟨"item", 0⟩ "new" ["x"] = .ok dst ∧ Names dst knotted ∧
    replay src dst knotted = .error (.moveIntoDescendant (.src ⟨1, 0⟩)) ∧
    Refused src dst knotted (.moveIntoDescendant (.src ⟨1, 0⟩)) := by
  obtain ⟨src, dst, hsrc, hdst, hnames, hreplay⟩ : ∃ src dst,
      Tree.fan ⟨"item", 0⟩ "old" ["a", "b"] = .ok src ∧
      Tree.fan ⟨"item", 0⟩ "new" ["x"] = .ok dst ∧ Names dst knotted ∧
      replay src dst knotted = .error (.moveIntoDescendant (.src ⟨1, 0⟩)) :=
    ⟨_, _, rfl, rfl, by decide +kernel, rfl⟩
  have hrefused := ((replay_refused (Tree.built_fan _ _ _ hsrc) (Tree.built_fan _ _ _ hdst)
    hnames).1 _).1 hreplay
  exact ⟨src, dst, hsrc, hdst, hnames, hreplay, hrefused⟩

end TreeScript
