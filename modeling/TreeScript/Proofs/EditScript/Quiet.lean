/-
**Quiet scripts.**

A quiet script is worked out by the very changes that a full one is worked out by.  Whether it is
quiet matters only when a change is told: what brings nothing in and takes nothing out is left
out.  So to hush a draft and to go on quietly is to go on and to hush what comes of it, and this
passes from one change through every loop to the whole script.

Main definitions:

* `TreeScript.Draft.hushed` — a draft with the moves and relabelings left out of what it tells;
* `TreeScript.Draft.toned` — a draft as a script tells of it that is quiet, or is not.

Main results:

* `TreeScript.WorkingCopy.isMoveOrUpdate_of_report?` — an action moves or relabels if and only if
  the change that it tells of keeps all nodes;
* `TreeScript.Draft.perform_hushed`, `TreeScript.Draft.visit_hushed`,
  `TreeScript.Draft.prune_hushed` — **hushing commutes with the work**;
* `TreeScript.Mapping.editScript_hushed` — for every mapping, also where there is a fault;
* `TreeScript.Mapping.editScript_quiet` — **a quiet script is the full one without its moves and
  relabelings**.
-/

import TreeScript.Proofs.EditScript.Faithful

set_option relaxedAutoImplicit false
set_option autoImplicit false

namespace TreeScript

/-! ### What is told of a change -/

/-- **An action moves or relabels if and only if the change that it tells of keeps all nodes.** -/
theorem WorkingCopy.isMoveOrUpdate_of_report? {c : WorkingCopy} {change : Change} {action : Action}
    (h : c.report? change = some action) : action.isMoveOrUpdate = change.keepsNodes := by
  cases change with
  | insert | graft =>
      rw [report?, Option.map_eq_some_iff] at h
      obtain ⟨ref, -, rfl⟩ := h
      rfl
  | _ =>
      -- either nothing is told, or one action
      rw [report?] at h
      split at h
      · obtain rfl := Option.some.inj h
        rfl
      · cases h

/-- The change, told only if it does not move or relabel. -/
def Edit.hushed (e : Edit) : Edit :=
  { e with report? := e.report?.filter fun a => !a.isMoveOrUpdate }

namespace Draft

variable {m : Mapping} {d : Draft} {x w z s : NodeId}

/-- **The draft with the moves and relabelings left out of what it tells.** -/
def hushed (d : Draft) : Draft := { d with edits := d.edits.map Edit.hushed }

/-- What a hushed draft tells. -/
theorem script_hushed (d : Draft) :
    d.hushed.script = d.script.filter fun a => !a.isMoveOrUpdate := by
  rw [script, script, List.filter_filterMap, hushed, List.filterMap_map]
  rfl

theorem mark_hushed (d : Draft) (x : NodeId) : d.hushed.mark x = (d.mark x).hushed := rfl

/-! ### One change -/

/-- **A change of a hushed draft, made quietly.** -/
theorem perform_hushed (d : Draft) (change : Change) :
    d.hushed.perform true change = (d.perform false change).map hushed := by
  have hreport : (if change.keepsNodes then none else d.copy.report? change) =
      (d.copy.report? change).filter fun a => !a.isMoveOrUpdate := by
    cases h : d.copy.report? change with
    | none => simp
    | some a =>
        have ha := WorkingCopy.isMoveOrUpdate_of_report? h
        cases hk : change.keepsNodes <;> simp [Option.filter_some, ha, hk]
  have hcopy : d.hushed.copy = d.copy := rfl
  simp only [perform, hcopy, Bool.true_and, Bool.false_and, hreport]
  cases d.copy.apply change with
  | error f => rfl
  | ok c =>
      refine congrArg Except.ok ?_
      simp [hushed, Edit.hushed]

/-- What is done with a hushed draft after a first part. -/
theorem map_hushed_bind {x : Except Fault Draft} {f g : Draft → Except Fault Draft}
    (h : ∀ d, g d.hushed = (f d).map hushed) : (x.map hushed >>= g) = (x >>= f).map hushed := by
  cases x with
  | error e => rfl
  | ok d => exact h d

/-- What is read before something is done does not matter. -/
theorem bind_map_hushed {σ : Type} {x : Except Fault σ} {f g : σ → Except Fault Draft}
    (h : ∀ a, g a = (f a).map hushed) : (x >>= g) = (x >>= f).map hushed := by
  cases x with
  | error e => rfl
  | ok a => exact h a

/-- A loop over a list goes on quietly if its steps do. -/
theorem foldlM_hushed {τ : Type} {f g : Draft → τ → Except Fault Draft}
    (h : ∀ d x, g d.hushed x = (f d x).map hushed) (l : List τ) (d : Draft) :
    l.foldlM g d.hushed = (l.foldlM f d).map hushed := by
  induction l generalizing d with
  | nil => rfl
  | cons x l ih =>
      rw [List.foldlM_cons, List.foldlM_cons, h]
      exact map_hushed_bind ih

/-! ### Seeing to a destination node -/

theorem rename_hushed (d : Draft) :
    d.hushed.rename m true w x = (d.rename m false w x).map hushed := by
  refine bind_map_hushed fun label => ?_
  split
  case isTrue h => rw [if_pos (show d.copy.label? w = some label from h)]; rfl
  case isFalse h =>
    rw [if_neg (show ¬ d.copy.label? w = some label from h)]
    exact perform_hushed d _

theorem bring_hushed (d : Draft) :
    d.hushed.bring m true w z x = (d.bring m false w z x).map hushed :=
  bind_map_hushed fun _ => perform_hushed d _

theorem arrangeOne_hushed (stay : List NodeId) (d : Draft) (b : NodeId) :
    arrangeOne m true stay w d.hushed b = (arrangeOne m false stay w d b).map hushed := by
  unfold arrangeOne
  split
  · rfl
  · refine bind_map_hushed fun a => ?_
    rw [bring_hushed]
    exact map_hushed_bind fun _ => rfl

theorem arrange_hushed (d : Draft) :
    d.hushed.arrange m true w x = (d.arrange m false w x).map hushed :=
  foldlM_hushed (arrangeOne_hushed _) _
    { d with inOrder := (d.inOrder.eraseAll (m.dst.arena.children x)).addAll (d.stayers m w x) }

theorem insertAlone_hushed (d : Draft) :
    d.hushed.insertAlone m true z x = (d.insertAlone m false z x).map hushed := by
  refine bind_map_hushed fun label => bind_map_hushed fun k => ?_
  rw [perform_hushed]
  exact map_hushed_bind fun d => arrange_hushed (d.mark x)

theorem insertWhole_hushed (d : Draft) :
    d.hushed.insertWhole m true z x = (d.insertWhole m false z x).map hushed := by
  refine bind_map_hushed fun k => bind_map_hushed fun v => ?_
  rw [perform_hushed]
  exact map_hushed_bind fun _ => rfl

theorem settle_hushed (d : Draft) :
    d.hushed.settle m true z s x = (d.settle m false z s x).map hushed := by
  refine bind_map_hushed fun w => ?_
  rw [rename_hushed]
  refine map_hushed_bind fun d => ?_
  by_cases h : d.copy.arena.parent? w = some z
  · have h' : d.hushed.copy.arena.parent? w = some z := h
    simp only [if_pos h, if_pos h']
    exact arrange_hushed (d.mark x)
  · have h' : ¬ d.hushed.copy.arena.parent? w = some z := h
    simp only [if_neg h, if_neg h', bring_hushed]
    exact map_hushed_bind fun d => arrange_hushed (d.mark x)

/-- **A visit of a destination node, made quietly.** -/
theorem visit_hushed (d : Draft) (x : NodeId) :
    visit m true d.hushed x = (visit m false d x).map hushed := by
  have hgrafted : d.hushed.grafted = d.grafted := rfl
  unfold visit
  rw [hgrafted]
  split
  · rfl
  · split
    · rfl
    · refine bind_map_hushed fun z => ?_
      split
      · exact settle_hushed d
      · refine bind_map_hushed fun clean => ?_
        split
        · exact insertAlone_hushed d
        · exact insertWhole_hushed d

/-- All that is done before nodes are taken out, done quietly. -/
theorem align_hushed (m : Mapping) : align m true = (align m false).map hushed := by
  -- the draft without changes is hushed already
  unfold align start
  cases WorkingCopy.start m with
  | error f => rfl
  | ok c =>
      have hstart : (⟨c, .empty, .empty, []⟩ : Draft).hushed = ⟨c, .empty, .empty, []⟩ := rfl
      simp only [bind_ok, pure_bind]
      rw [← hstart, rename_hushed]
      refine map_hushed_bind fun d => ?_
      simp only [mark_hushed, arrange_hushed]
      exact map_hushed_bind (foldlM_hushed visit_hushed _)

/-! ### Taking out what is left over -/

theorem pruneOne_hushed (clean : NodeSet) (d : Draft) (w : NodeId) :
    pruneOne m true clean d.hushed w = (pruneOne m false clean d w).map hushed := by
  have hcopy : d.hushed.copy = d.copy := rfl
  unfold pruneOne
  rw [hcopy]
  split
  · rfl
  · split
    · split
      · rfl
      · split
        · exact perform_hushed d _
        · exact perform_hushed d _
    · rfl

/-- **Nodes without counterparts, taken out quietly.** -/
theorem prune_hushed (d : Draft) : d.hushed.prune m true = (d.prune m false).map hushed :=
  foldlM_hushed (pruneOne_hushed _) _ d

/-! ### Quiet or not -/

/-- The draft, hushed if it is to be quiet. -/
def toned (quiet : Bool) (d : Draft) : Draft := if quiet then d.hushed else d

@[simp] theorem copy_toned (quiet : Bool) (d : Draft) : (d.toned quiet).copy = d.copy := by
  cases quiet <;> rfl

theorem map_toned_false (x : Except Fault Draft) : x.map (toned false) = x := by
  cases x <;> rfl

/-- A quiet draft makes the same changes. -/
theorem changes_toned (quiet : Bool) (d : Draft) :
    (d.toned quiet).edits.map Edit.change = d.edits.map Edit.change := by
  cases quiet with
  | false => rfl
  | true =>
      refine (List.map_map ..).trans ?_
      rfl

theorem align_toned (m : Mapping) (quiet : Bool) :
    align m quiet = (align m false).map (toned quiet) := by
  cases quiet with
  | false => exact (map_toned_false _).symm
  | true => exact align_hushed m

theorem prune_toned (quiet : Bool) (d : Draft) :
    (d.toned quiet).prune m quiet = (d.prune m false).map (toned quiet) := by
  cases quiet with
  | false => exact (map_toned_false _).symm
  | true => exact prune_hushed d

theorem foldlM_pruneOne_toned (quiet : Bool) (clean : NodeSet) (l : List NodeId) (d : Draft) :
    l.foldlM (pruneOne m quiet clean) (d.toned quiet) =
      (l.foldlM (pruneOne m false clean) d).map (toned quiet) := by
  cases quiet with
  | false => exact (map_toned_false _).symm
  | true => exact foldlM_hushed (pruneOne_hushed clean) l d

end Draft

/-! ### Main results -/

namespace Mapping

variable {m : Mapping} {src dst : Tree}

theorem draft_hushed (m : Mapping) : m.draft true = (m.draft false).map Draft.hushed := by
  rw [Draft.draft_eq, Draft.draft_eq, Draft.align_hushed]
  exact Draft.map_hushed_bind Draft.prune_hushed

/-- **A quiet script, for every mapping**: where the full script meets with a fault, the quiet
one meets with the same. -/
theorem editScript_hushed (m : Mapping) : m.editScript true =
    (m.editScript false).map (List.filter fun a => !a.isMoveOrUpdate) := by
  unfold editScript
  split
  · rw [draft_hushed]
    cases m.draft false with
    | error f => rfl
    | ok d => exact congrArg Except.ok d.script_hushed
  · rfl

/-- A script is found, whether it keeps the root or not. -/
theorem Sound.exists_editScript (hm : m.Sound) : ∃ script, m.editScript false = .ok script := by
  by_cases hr : m.rootsPaired
  · obtain ⟨d, -, hscript, -⟩ := hm.exists_draft (beq_iff_eq.1 hr)
    exact ⟨d.script, hscript⟩
  · exact ⟨m.replacement, by rw [editScript, if_neg hr]; rfl⟩

/-- **A quiet script is the full one without its moves and relabelings**: what it tells of is the
same, in the same order, under the same parents and at the same positions. -/
theorem editScript_quiet (hs : src.Built) (hd : dst.Built) (hm : Filled src dst m) :
    ∃ script, m.editScript false = .ok script ∧
      m.editScript true = .ok (script.filter fun a => !a.isMoveOrUpdate) := by
  obtain ⟨script, hscript⟩ := (hm.sound hs.wellFormed hd.wellFormed).1.exists_editScript
  exact ⟨script, hscript, by rw [editScript_hushed, hscript]; rfl⟩

/-- Two leaves change places, the root gets another label, a leaf goes and a leaf comes. -/
theorem editScript_quiet_crossing : ∃ src dst m,
    Tree.fan ⟨"item", 0⟩ "old" ["a", "b", "c"] = .ok src ∧
    Tree.fan ⟨"item", 0⟩ "new" ["b", "a", "d"] = .ok dst ∧ pairing src dst crossing = .ok m ∧
    ∃ script, m.editScript false = .ok script ∧
      m.editScript true = .ok (script.filter fun a => !a.isMoveOrUpdate) :=
  ⟨_, _, _, rfl, rfl, rfl, editScript_quiet
    (Tree.built_fan ⟨"item", 0⟩ "old" ["a", "b", "c"] rfl)
    (Tree.built_fan ⟨"item", 0⟩ "new" ["b", "a", "d"] rfl)
    (filled_pairing crossing (by decide) rfl)⟩

end Mapping

end TreeScript
