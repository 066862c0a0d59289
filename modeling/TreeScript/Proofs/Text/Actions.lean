/-
**The line of an action tells the action.**

The line begins with the word for what the action does; in parentheses follow the node, where it
goes, and the new label of an update.  Numbers end before what is no digit and the label stands
between quotes, so nothing in a label can be taken for a part of the line.  Two actions have the
same line only if they do the same to the same slots, in the same place, with the same label; of a
subtree that becomes the root no place is written.  Which characters of a label stand for themselves
makes no difference to that.

Main definitions:

* `TreeScript.NodeRef.SameSlot` — references to one slot of one side;
* `TreeScript.Action.textWith` — **the line, whichever characters stand for themselves**;
* `TreeScript.Action.SameLine` — what two actions with the same line have in common.

Main results:

* `TreeScript.NodeRef.text_append_inj` — a reference tells its side and its slot, and where it ends;
* `TreeScript.Action.restWith_eq_iff` — what follows the node tells the place and the label;
* `TreeScript.Action.SameLine.of_textWith_eq`, `TreeScript.Action.SameLine.textWith_eq` — actions
  with the same line have that in common, and those that do have the same line;
* `TreeScript.Action.text_eq_iff_sameLine` — **actions in writing can be told apart**.
-/

import TreeScript.Action
import TreeScript.Proofs.Text.Decoding

set_option relaxedAutoImplicit false
set_option autoImplicit false

namespace TreeScript

/-! ### References -/

namespace NodeRef

/-- The references are to one slot, of one side. -/
inductive SameSlot : NodeRef → NodeRef → Prop where
  | src {n m : NodeId} (h : n.slot = m.slot) : SameSlot (src n) (src m)
  | dst {n m : NodeId} (h : n.slot = m.slot) : SameSlot (dst n) (dst m)

variable {p q : NodeRef} {r s : List Char}

theorem SameSlot.slot_eq (h : p.SameSlot q) : p.id.slot = q.id.slot := by
  cases h with
  | src h => exact h
  | dst h => exact h

theorem SameSlot.text_eq (h : p.SameSlot q) : p.text = q.text := by
  cases h with
  | src h => rw [text, text, NodeId.number, h, NodeId.number]
  | dst h => rw [text, text, NodeId.number, h, NodeId.number]

theorem toList_text_src (n : NodeId) :
    (src n).text.toList = 'a' :: ':' :: n.number.repr.toList := by
  have h : (src n).text = "a:" ++ n.number.repr := rfl
  rw [h, String.toList_append]
  rfl

theorem toList_text_dst (n : NodeId) :
    (dst n).text.toList = 'b' :: ':' :: n.number.repr.toList := by
  have h : (dst n).text = "b:" ++ n.number.repr := rfl
  rw [h, String.toList_append]
  rfl

/-- **A reference tells its side and its slot, and where it ends.** -/
theorem text_append_inj (hr : ∀ c ∈ r.head?, ¬ c.isDigit) (hs : ∀ c ∈ s.head?, ¬ c.isDigit)
    (h : p.text.toList ++ r = q.text.toList ++ s) : p.SameSlot q ∧ r = s := by
  cases p with
  | src n =>
      cases q with
      | src m =>
          rw [toList_text_src, toList_text_src] at h
          obtain ⟨hnm, hrs⟩ := Text.repr_append_inj hr hs (List.cons.inj (List.cons.inj h).2).2
          exact ⟨SameSlot.src (NodeId.number_inj.1 hnm), hrs⟩
      | dst m =>
          rw [toList_text_src, toList_text_dst] at h
          cases h
  | dst n =>
      cases q with
      | src m =>
          rw [toList_text_src, toList_text_dst] at h
          cases h
      | dst m =>
          rw [toList_text_dst, toList_text_dst] at h
          obtain ⟨hnm, hrs⟩ := Text.repr_append_inj hr hs (List.cons.inj (List.cons.inj h).2).2
          exact ⟨SameSlot.dst (NodeId.number_inj.1 hnm), hrs⟩

end NodeRef

/-! ### Words -/

namespace ActionKind

variable {k l : ActionKind}

theorem word_inj (h : k.word = l.word) : k = l := by
  cases k <;> cases l <;> simp [word] at h ⊢

theorem ne_paren_of_mem_word (k : ActionKind) : ∀ c ∈ k.word.toList, ¬ c = '(' := by
  cases k <;> simp [word]

end ActionKind

/-! ### Lines -/

namespace Action

variable {plain : Char → Bool} {a b : Action} {p q : NodeRef} {i j : Nat}

/-- Where a node goes. -/
def placement (p : NodeRef) (i : Nat) : String := " @" ++ i.repr ++ " under " ++ p.text

/-- What follows the node in the line of an action, when the characters for which `plain` holds
stand for themselves. -/
def restWith (plain : Char → Bool) : Action → String
  | insert _ p i => placement p i
  | treeInsert _ (some p) i => placement p i
  | treeInsert _ none _ => " as root"
  | update _ label => " → " ++ Text.quotedWith plain label
  | move _ p i => placement p i
  | treeDelete _ => ""
  | delete _ => ""

/-- **The line of an action**, when the characters for which `plain` holds stand for themselves in
labels. -/
def textWith (plain : Char → Bool) (a : Action) : String :=
  a.kind.word ++ "(" ++ (a.node.text ++ a.restWith plain) ++ ")"

theorem details_eq (a : Action) : a.details = a.node.text ++ a.restWith Text.Quoted.isPlain := by
  have hplacement : ∀ (n p : NodeRef) (i : Nat),
      n.text ++ " @" ++ i.repr ++ " under " ++ p.text = n.text ++ placement p i := by
    intro n p i
    simp only [placement, String.append_assoc]
  cases a with
  | insert d p i => exact hplacement (.dst d) p i
  | treeInsert d p i =>
      cases p with
      | none => rfl
      | some p => exact hplacement (.dst d) p i
  | update s label =>
      have h : (update s label).details = (NodeRef.src s).text ++ " → " ++ Text.quoted label := rfl
      rw [h, Text.quoted_eq_quotedWith, String.append_assoc]
      rfl
  | move s p i => exact hplacement (.src s) p i
  | treeDelete s => exact String.append_empty.symm
  | delete s => exact String.append_empty.symm

/-- The line as it is. -/
theorem text_eq_textWith (a : Action) : a.text = a.textWith Text.Quoted.isPlain := by
  rw [textWith, ← details_eq]
  rfl

/-- **What actions with the same line have in common.**  Of a subtree that becomes the root the
position is not among it. -/
structure SameLine (a b : Action) : Prop where
  kind : a.kind = b.kind
  slot : a.node.id.slot = b.node.id.slot
  parent : Option.Rel NodeRef.SameSlot a.parent? b.parent?
  position : a.parent?.isSome → a.position? = b.position?
  value : a.value? = b.value?

/-- **A place tells the parent and the position.** -/
theorem placement_eq_iff : placement p i = placement q j ↔ p.SameSlot q ∧ i = j := by
  constructor
  · intro h
    have hlist : i.repr.toList ++ (" under ".toList ++ p.text.toList) =
        j.repr.toList ++ (" under ".toList ++ q.text.toList) := by
      have h := congrArg String.toList h
      simpa only [placement, String.toList_append, List.append_assoc,
        List.append_cancel_left_eq] using h
    obtain ⟨hij, hpq⟩ := Text.repr_append_inj (by simp) (by simp) hlist
    have hpq : p.text.toList ++ [] = q.text.toList ++ [] := by
      simpa only [List.append_nil, List.append_cancel_left_eq] using hpq
    exact ⟨(NodeRef.text_append_inj (by simp) (by simp) hpq).1, hij⟩
  · rintro ⟨hpq, rfl⟩
    rw [placement, placement, hpq.text_eq]

theorem placement_ne_root : placement p i ≠ " as root" := by
  intro h
  have h := congrArg String.toList h
  simp [placement] at h

/-- What follows the node does not go on with its number. -/
theorem not_isDigit_of_mem_head?_restWith (plain : Char → Bool) (a : Action) :
    ∀ c ∈ ((a.restWith plain).toList ++ [')']).head?, ¬ c.isDigit := by
  cases a with
  | treeInsert d p i => cases p <;> simp [restWith, placement]
  | _ => simp [restWith, placement]

/-- **What follows the node tells the place and the label**, of actions of one kind. -/
theorem restWith_eq_iff (hkind : a.kind = b.kind) : a.restWith plain = b.restWith plain ↔
    Option.Rel NodeRef.SameSlot a.parent? b.parent? ∧
      (a.parent?.isSome → a.position? = b.position?) ∧ a.value? = b.value? := by
  cases a with
  | insert d p i =>
      cases b with
      | insert e q j => simp [restWith, placement_eq_iff, parent?, position?, value?]
      | _ => cases hkind
  | treeInsert d p i =>
      cases b with
      | treeInsert e q j =>
          -- the position counts under a parent only
          cases p with
          | none =>
              cases q with
              | none => simp [restWith, parent?, value?]
              | some q => simp [restWith, placement_ne_root.symm, parent?]
          | some p =>
              cases q with
              | none => simp [restWith, placement_ne_root, parent?]
              | some q => simp [restWith, placement_eq_iff, parent?, position?, value?]
      | _ => cases hkind
  | update s l =>
      cases b with
      | update s' m => simp [restWith, Text.quotedWith_inj, parent?, value?]
      | _ => cases hkind
  | move s p i =>
      cases b with
      | move s' q j => simp [restWith, placement_eq_iff, parent?, position?, value?]
      | _ => cases hkind
  | treeDelete s =>
      cases b with
      | treeDelete s' => simp [restWith, parent?, value?]
      | _ => cases hkind
  | delete s =>
      cases b with
      | delete s' => simp [restWith, parent?, value?]
      | _ => cases hkind

/-! ### Actions with the same line -/

namespace SameLine

/-- **The line of an action tells the action.** -/
theorem of_textWith_eq (h : a.textWith plain = b.textWith plain) : a.SameLine b := by
  have hlist : ∀ k : Action, (k.textWith plain).toList = k.kind.word.toList ++
      '(' :: (k.node.text.toList ++ ((k.restWith plain).toList ++ [')'])) := by
    intro k
    simp [textWith]
  have h := (hlist a).symm.trans ((congrArg String.toList h).trans (hlist b))
  obtain ⟨hword, h⟩ := Text.append_inj_of_delimited (p := (· = '('))
    a.kind.ne_paren_of_mem_word b.kind.ne_paren_of_mem_word (by simp) (by simp) h
  obtain ⟨hnode, h⟩ := NodeRef.text_append_inj (not_isDigit_of_mem_head?_restWith plain a)
    (not_isDigit_of_mem_head?_restWith plain b) (List.cons.inj h).2
  have hkind := ActionKind.word_inj (String.toList_inj.1 hword)
  obtain ⟨hparent, hposition, hvalue⟩ :=
    (restWith_eq_iff hkind).1 (String.toList_inj.1 (List.append_cancel_right h))
  exact ⟨hkind, hnode.slot_eq, hparent, hposition, hvalue⟩

/-- Actions of one kind are about nodes of one side. -/
theorem node (h : a.SameLine b) : a.node.SameSlot b.node := by
  obtain ⟨hkind, hslot, -, -, -⟩ := h
  cases a <;> cases b <;>
    first
    | exact NodeRef.SameSlot.src hslot
    | exact NodeRef.SameSlot.dst hslot
    | cases hkind

/-- **Actions that have that in common have the same line.** -/
theorem textWith_eq (plain : Char → Bool) (h : a.SameLine b) :
    a.textWith plain = b.textWith plain := by
  rw [textWith, textWith, h.kind, h.node.text_eq,
    (restWith_eq_iff h.kind).2 ⟨h.parent, h.position, h.value⟩]

end SameLine

/-- **Actions in writing can be told apart**: two actions have the same line if and only if they are
of one kind, about one slot, with the same parent, in the same position and with the same label,
where a subtree that becomes the root has no position.  The like holds of the lines that would be
written if other characters stood for themselves in labels. -/
theorem text_eq_iff_sameLine (a b : Action) : (a.text = b.text ↔ a.SameLine b) ∧
    ∀ plain : Char → Bool, a.textWith plain = b.textWith plain ↔ a.SameLine b := by
  have h : ∀ plain : Char → Bool, a.textWith plain = b.textWith plain ↔ a.SameLine b :=
    fun plain => ⟨SameLine.of_textWith_eq, SameLine.textWith_eq plain⟩
  exact ⟨by rw [text_eq_textWith, text_eq_textWith, h], h⟩

end Action

end TreeScript
