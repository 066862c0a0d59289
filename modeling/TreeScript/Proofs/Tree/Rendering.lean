/-
**The text of a subtree tells its outline.**

A subtree is written with parentheses and spaces only: a parenthesis opens a node, its type and its
label follow, then the trees below it, a space before each, and a parenthesis closes it.  If types
and labels have neither, each word ends where the next mark stands, and the marks tell what is
below what.  Then two subtrees, of one tree or of two, have the same text only if they have the same
shape, with the same names of types and the same labels at corresponding nodes.

The text can be written while a walk goes around the subtree, with something to write whenever it
enters or leaves a node.

Main definitions:

* `TreeScript.RoseTree.IsMark` — the characters that mark the shape of a tree;
* `TreeScript.RoseTree.Legible` — **values with texts that can be told apart, without marks**;
* `TreeScript.RoseTree.edges` — a walk around a tree;
* `TreeScript.NodeData.Unmarked` — a type and a label that can be read off the text of a node;
* `TreeScript.Tree.outline` — **a subtree as a rose tree of names of types and labels**.

Main results:

* `TreeScript.RoseTree.render_append_inj` — **the text of a tree tells the tree and where it ends**;
* `TreeScript.NodeData.text_inj` — the text of a node tells the name of its type and its label;
* `TreeScript.Tree.WellFormed.sexpr_eq_foldl` — the text of a subtree is written on the walk around
  it;
* `TreeScript.Tree.WellFormed.sexpr_eq_iff`, `TreeScript.Tree.Built.sexpr_unambiguous` — **subtrees
  have the same text if and only if they have the same outline**.
-/

import TreeScript.Proofs.Text.Decoding
import TreeScript.Proofs.Tree.Built

set_option relaxedAutoImplicit false
set_option autoImplicit false

namespace TreeScript

/-! ### The text of a rose tree -/

namespace RoseTree

variable {α β : Type} {text : α → String} {P : α → Prop} {r s : List Char}

mutual
/-- Writing a relabelled tree. -/
theorem render_map (f : α → β) (text : β → String) : ∀ t : RoseTree α,
    (t.map f).render text = t.render fun v => text (f v)
  | node v ts => by rw [map, render, render, renderForest_map f text ts]

theorem renderForest_map (f : α → β) (text : β → String) : ∀ ts : List (RoseTree α),
    renderForest text (mapForest f ts) = renderForest (fun v => text (f v)) ts
  | [] => rfl
  | t :: ts => by
    rw [mapForest, renderForest, renderForest, render_map f text t, renderForest_map f text ts]
end

/-- The characters that mark the shape of a tree: a space, and an opening and a closing
parenthesis. -/
def IsMark (c : Char) : Prop := c = ' ' ∨ c = '(' ∨ c = ')'

instance (c : Char) : Decidable (IsMark c) :=
  inferInstanceAs (Decidable (c = ' ' ∨ c = '(' ∨ c = ')'))

/-- **The texts of the values for which `P` holds have no marks, and tell the values apart.** -/
structure Legible (text : α → String) (P : α → Prop) : Prop where
  unmarked : ∀ v, P v → ∀ c ∈ (text v).toList, ¬ IsMark c
  inj : ∀ v w, P v → P w → text v = text w → v = w

/-- What follows the text of a value is a mark. -/
theorem isMark_of_mem_head? (ts : List (RoseTree α)) (r : List Char) :
    ∀ c ∈ ((renderForest text ts).toList ++ ')' :: r).head?, IsMark c := by
  cases ts with
  | nil => simp [renderForest, IsMark]
  | cons t ts => simp [renderForest, IsMark]

mutual
/-- **The text of a tree tells the tree and where it ends.** -/
theorem render_append_inj (h : Legible text P) : ∀ (t u : RoseTree α) (r s : List Char),
    (∀ v ∈ t.preorder, P v) → (∀ v ∈ u.preorder, P v) →
      (t.render text).toList ++ r = (u.render text).toList ++ s → t = u ∧ r = s
  | node v ts, node w us, r, s, ht, hu, heq => by
    obtain ⟨hv, hts⟩ := List.forall_mem_cons.1 ht
    obtain ⟨hw, hus⟩ := List.forall_mem_cons.1 hu
    have heq : (text v).toList ++ ((renderForest text ts).toList ++ ')' :: r) =
        (text w).toList ++ ((renderForest text us).toList ++ ')' :: s) := by
      simpa [render] using heq
    obtain ⟨hvw, heq⟩ := Text.append_inj_of_delimited (h.unmarked v hv) (h.unmarked w hw)
      (isMark_of_mem_head? ts r) (isMark_of_mem_head? us s) heq
    obtain ⟨htus, hrs⟩ := renderForest_append_inj h ts us r s hts hus heq
    rw [h.inj v w hv hw (String.toList_inj.1 hvw), htus]
    exact ⟨rfl, hrs⟩

/-- A forest ends at the parenthesis that closes the node above it. -/
theorem renderForest_append_inj (h : Legible text P) :
    ∀ (ts us : List (RoseTree α)) (r s : List Char),
      (∀ v ∈ preorderForest ts, P v) → (∀ v ∈ preorderForest us, P v) →
        (renderForest text ts).toList ++ ')' :: r = (renderForest text us).toList ++ ')' :: s →
          ts = us ∧ r = s
  | [], [], _, _, _, _, heq => ⟨rfl, by simpa [renderForest] using heq⟩
  | [], _ :: _, _, _, _, _, heq => by simp [renderForest] at heq
  | _ :: _, [], _, _, _, _, heq => by simp [renderForest] at heq
  | t :: ts, u :: us, r, s, hts, hus, heq => by
    obtain ⟨ht, hts⟩ := List.forall_mem_append.1 hts
    obtain ⟨hu, hus⟩ := List.forall_mem_append.1 hus
    have heq : (t.render text).toList ++ ((renderForest text ts).toList ++ ')' :: r) =
        (u.render text).toList ++ ((renderForest text us).toList ++ ')' :: s) := by
      simpa [renderForest] using heq
    obtain ⟨htu, heq⟩ := render_append_inj h t u _ _ ht hu heq
    obtain ⟨htus, hrs⟩ := renderForest_append_inj h ts us r s hts hus heq
    rw [htu, htus]
    exact ⟨rfl, hrs⟩
end

/-- **Trees are equal if their texts are.** -/
theorem render_inj (h : Legible text P) {t u : RoseTree α} (ht : ∀ v ∈ t.preorder, P v)
    (hu : ∀ v ∈ u.preorder, P v) : t.render text = u.render text ↔ t = u := by
  refine ⟨fun heq => ?_, fun heq => by rw [heq]⟩
  exact (render_append_inj h t u [] [] ht hu (by rw [heq])).1

/-! ### Walking around a tree -/

/-- A step of a walk around a tree. -/
inductive Edge (α : Type) where
  /-- The walk comes down to a node. -/
  | enter (value : α)
  /-- It has been around all that is below the node, and goes up from it. -/
  | leave (value : α)

mutual
/-- The walk around a tree. -/
def edges : RoseTree α → List (Edge α)
  | node v ts => .enter v :: edgesForest ts ++ [.leave v]

/-- The walks around the trees of a forest, one after the other. -/
def edgesForest : List (RoseTree α) → List (Edge α)
  | [] => []
  | t :: ts => t.edges ++ edgesForest ts
end

/-- What a step adds to the text that has been written so far.  Only the top of the walk is
entered without a space. -/
def Edge.write (text : α → String) (isTop : α → Bool) (out : String) : Edge α → String
  | enter v => (if isTop v then out else out ++ " ") ++ "(" ++ text v
  | leave _ => out ++ ")"

section Walk

variable {isTop : α → Bool}

mutual
theorem foldl_write_edges : ∀ (t : RoseTree α) (out : String), (∀ v ∈ t.preorder, ¬ isTop v) →
    t.edges.foldl (Edge.write text isTop) out = out ++ (" " ++ t.render text)
  | node v ts, out, h => by
    obtain ⟨hv, hts⟩ := List.forall_mem_cons.1 h
    rw [edges, List.foldl_append, List.foldl_cons, List.foldl_nil, List.foldl_cons,
      foldl_write_edgesForest ts _ hts]
    simp only [Edge.write, if_neg hv, render, String.append_assoc]

/-- The walks around the trees below the top write them, a space before each. -/
theorem foldl_write_edgesForest : ∀ (ts : List (RoseTree α)) (out : String),
    (∀ v ∈ preorderForest ts, ¬ isTop v) →
      (edgesForest ts).foldl (Edge.write text isTop) out = out ++ renderForest text ts
  | [], out, _ => by simp [edgesForest, renderForest]
  | t :: ts, out, h => by
    obtain ⟨ht, hts⟩ := List.forall_mem_append.1 h
    rw [edgesForest, List.foldl_append, foldl_write_edges t _ ht, foldl_write_edgesForest ts _ hts,
      renderForest, String.append_assoc]
end

/-- **The walk around a tree writes its text**, if the top is told from all that is below. -/
theorem foldl_write_edges_eq_render {t : RoseTree α} (htop : isTop t.value)
    (hbelow : ∀ v ∈ t.preorder.tail, ¬ isTop v) :
    t.edges.foldl (Edge.write text isTop) "" = t.render text := by
  obtain ⟨v, ts⟩ := t
  have htop : isTop v := htop
  rw [edges, List.foldl_append, List.foldl_cons, List.foldl_nil, List.foldl_cons,
    foldl_write_edgesForest ts _ hbelow]
  simp only [Edge.write, if_pos htop, render, String.append_assoc, String.empty_append]

end Walk

end RoseTree

/-! ### The text of a node -/

namespace NodeData

variable {d e : NodeData}

/-- There is no mark in the label and in the name of the type, and no colon in the latter. -/
def Unmarked (d : NodeData) : Prop :=
  (∀ c ∈ d.kind.name.toList, ¬ RoseTree.IsMark c ∧ c ≠ ':') ∧
    ∀ c ∈ d.label.toList, ¬ RoseTree.IsMark c

/-- The name of the type and the label. -/
def words (d : NodeData) : String × String := (d.kind.name, d.label)

/-- The text of a node that has these words. -/
def wordsText (w : String × String) : String := if w.2.isEmpty then w.1 else w.1 ++ ":" ++ w.2

/-- What a label adds to the text of a node. -/
def labelPart (label : String) : List Char :=
  if label.isEmpty then [] else ':' :: label.toList

theorem toList_text (d : NodeData) : d.text.toList = d.kind.name.toList ++ labelPart d.label := by
  unfold text labelPart
  split <;> simp

theorem eq_colon_of_mem_head?_labelPart {label : String} :
    ∀ c ∈ (labelPart label).head?, c = ':' := by
  unfold labelPart
  split <;> simp

theorem labelPart_inj {l m : String} (h : labelPart l = labelPart m) : l = m := by
  unfold labelPart at h
  split at h <;> split at h
  · simp_all
  · cases h
  · cases h
  · exact String.toList_inj.1 (List.cons.inj h).2

/-- **The text of a node tells the name of its type and its label**, since the name ends at the
first colon. -/
theorem text_inj (hd : d.Unmarked) (he : e.Unmarked) (h : d.text = e.text) :
    d.words = e.words := by
  have h : d.kind.name.toList ++ labelPart d.label = e.kind.name.toList ++ labelPart e.label := by
    rw [← toList_text, ← toList_text, h]
  obtain ⟨hkind, hlabel⟩ := Text.append_inj_of_delimited (p := (· = ':'))
    (fun c hc => (hd.1 c hc).2) (fun c hc => (he.1 c hc).2) eq_colon_of_mem_head?_labelPart
    eq_colon_of_mem_head?_labelPart h
  rw [words, words, String.toList_inj.1 hkind, labelPart_inj hlabel]

/-- The text of a node has no marks. -/
theorem Unmarked.text (hd : d.Unmarked) : ∀ c ∈ d.text.toList, ¬ RoseTree.IsMark c := by
  intro c hc
  rw [toList_text] at hc
  rcases List.mem_append.1 hc with hc | hc
  · exact (hd.1 c hc).1
  · unfold labelPart at hc
    split at hc
    · cases hc
    · rcases List.mem_cons.1 hc with rfl | hc
      · decide
      · exact hd.2 c hc

/-- **Words without marks are legible.** -/
theorem legible_wordsText :
    RoseTree.Legible wordsText fun w => ∃ d : NodeData, d.Unmarked ∧ d.words = w where
  unmarked := by
    rintro _ ⟨d, hd, rfl⟩
    exact hd.text
  inj := by
    rintro _ _ ⟨d, hd, rfl⟩ ⟨e, he, rfl⟩ h
    exact text_inj hd he h

end NodeData

/-! ### The text of a subtree -/

namespace Tree

variable {t u : Tree} {a b n : NodeId} {v w : RoseTree (NodeId × NodeData)}

/-- **The subtree at `n` as an ordered rose tree of names of types and labels.** -/
def outline (t : Tree) (n : NodeId) : Except Fault (RoseTree (String × String)) :=
  return (← t.view n).map fun e => e.2.words

/-- All nodes of the subtree at `n` have types and labels that can be read off their texts. -/
def Unmarked (t : Tree) (n : NodeId) : Prop :=
  ∀ ns m d, t.descendants n = .ok ns → m ∈ ns → t.data m = .ok d → d.Unmarked

theorem outline_eq_ok (hv : t.view n = .ok v) :
    t.outline n = .ok (v.map fun e => e.2.words) := by
  rw [outline, hv]
  rfl

theorem sexpr_eq_ok (hn : t.arena.isLive n) (hv : t.view n = .ok v) :
    t.sexpr n = .ok (v.render fun e => e.2.text) := by
  rw [sexpr, hv, bind_ok, Arena.later_eq_nil hn, laterText, pure_eq_ok.2 rfl, bind_ok,
    String.append_empty]
  rfl

/-- The identities in a view are those of the nodes of the subtree. -/
theorem WellFormed.map_fst_view (ht : t.WellFormed) (hn : t.arena.isLive n)
    (hv : t.view n = .ok v) : v.preorder.map Prod.fst = t.arena.preorder n := by
  rw [← RoseTree.preorder_map, (ht.depicts_of_view hn hv).2, Arena.preorder]

/-- What a step of the walk around the subtree at `n` adds to the text. -/
def writeEdge (n : NodeId) : String → RoseTree.Edge (NodeId × NodeData) → String :=
  RoseTree.Edge.write (fun e => e.2.text) fun e => e.1 == n

/-- **The text of a subtree is written on the walk around it.** -/
theorem WellFormed.sexpr_eq_foldl (ht : t.WellFormed) (hn : t.arena.isLive n)
    (hv : t.view n = .ok v) : t.sexpr n = .ok (v.edges.foldl (writeEdge n) "") := by
  obtain ⟨e, vs⟩ := v
  have hids := ht.map_fst_view hn hv
  have hnodup := ht.arena.nodup_preorder hn
  rw [ht.arena.preorder_eq hn] at hids hnodup
  obtain ⟨htop, hbelow⟩ := List.cons.inj hids
  have hwalk : (RoseTree.node e vs).edges.foldl (writeEdge n) "" =
      (RoseTree.node e vs).render fun e => e.2.text := by
    refine RoseTree.foldl_write_edges_eq_render (beq_iff_eq.2 htop) fun w hw hw' => ?_
    have hmem : w.1 ∈ (t.arena.children n).flatMap t.arena.preorder :=
      hbelow ▸ List.mem_map_of_mem hw
    exact (List.nodup_cons.1 hnodup).1 (beq_iff_eq.1 hw' ▸ hmem)
  rw [sexpr_eq_ok hn hv, hwalk]

/-- The outline of a subtree without marks has words of such nodes. -/
theorem WellFormed.exists_unmarked_of_mem_outline (ht : t.WellFormed) (hn : t.arena.isLive n)
    (hv : t.view n = .ok v) (h : t.Unmarked n) :
    ∀ x ∈ (v.map fun e => e.2.words).preorder, ∃ d : NodeData, d.Unmarked ∧ d.words = x := by
  intro x hx
  rw [RoseTree.preorder_map] at hx
  obtain ⟨e, he, rfl⟩ := List.mem_map.1 hx
  have hmem : e.1 ∈ t.arena.preorder n := ht.map_fst_view hn hv ▸ List.mem_map_of_mem he
  have hd : t.data e.1 = .ok e.2 := data_eq_ok (data?_of_mem_view hv he)
  exact ⟨e.2, h _ e.1 e.2 (descendants_eq_ok hn) hmem hd, rfl⟩

/-- **Subtrees without marks have the same text if and only if they have the same outline.** -/
theorem WellFormed.sexpr_eq_iff (ht : t.WellFormed) (hu : u.WellFormed) (ha : t.arena.isLive a)
    (hb : u.arena.isLive b) (hv : t.view a = .ok v) (hw : u.view b = .ok w) (hta : t.Unmarked a)
    (hub : u.Unmarked b) :
    (v.render (fun e => e.2.text) = w.render fun e => e.2.text) ↔
      (v.map fun e => e.2.words) = w.map fun e => e.2.words := by
  rw [← RoseTree.render_inj NodeData.legible_wordsText
    (ht.exists_unmarked_of_mem_outline ha hv hta) (hu.exists_unmarked_of_mem_outline hb hw hub),
    RoseTree.render_map, RoseTree.render_map]
  -- the text of a node is that of its words
  rfl

/-- **The text of a subtree tells its outline**: two subtrees of any two trees, without marks in the
names of types and in labels and without colons in the former, have the same text if and only if
they have the same shape, with the same names of types and the same labels in the same places. -/
theorem Built.sexpr_unambiguous (ht : t.Built) (hu : u.Built) (ha : t.contains a)
    (hb : u.contains b) (hta : t.Unmarked a) (hub : u.Unmarked b) : ∃ x y v w,
    t.sexpr a = .ok x ∧ u.sexpr b = .ok y ∧ t.outline a = .ok v ∧ u.outline b = .ok w ∧
      (x = y ↔ v = w) := by
  have hla := ht.wellFormed.contains_iff.1 ha
  have hlb := hu.wellFormed.contains_iff.1 hb
  obtain ⟨v, hv, -⟩ := ht.wellFormed.exists_view hla
  obtain ⟨w, hw, -⟩ := hu.wellFormed.exists_view hlb
  exact ⟨_, _, _, _, sexpr_eq_ok hla hv, sexpr_eq_ok hlb hw, outline_eq_ok hv, outline_eq_ok hw,
    ht.wellFormed.sexpr_eq_iff hu.wellFormed hla hlb hv hw hta hub⟩

/-- What has to be checked of what the nodes carry. -/
theorem unmarked_of_map_data? {ds : List NodeData} (hn : t.arena.isLive n)
    (h : (t.arena.preorder n).map t.arena.data? = ds.map some) (hds : ∀ d ∈ ds, d.Unmarked) :
    t.Unmarked n := by
  intro ns m d hns hm hd
  obtain rfl := Except.ok.inj ((descendants_eq_ok hn).symm.trans hns)
  have hmem : t.arena.data? m ∈ ds.map some := h ▸ List.mem_map_of_mem hm
  rw [data_eq_ok_iff.1 hd] at hmem
  obtain ⟨e, he, hde⟩ := List.mem_map.1 hmem
  exact Option.some.inj hde ▸ hds e he

/-- Labels may be empty and have colons, and types of the same name may be two. -/
theorem Built.sexpr_unambiguous_colons : ∃ t u, fan ⟨"item", 0⟩ "a:b" ["", "::"] = .ok t ∧
    fan ⟨"item", 1⟩ "a:b" ["", "::"] = .ok u ∧ t.contains t.root ∧ u.contains u.root ∧
    t.Unmarked t.root ∧ u.Unmarked u.root ∧ t.sexpr t.root = .ok "(item:a:b (item) (item:::))" ∧
    t.outline t.root = u.outline u.root ∧ t.isIsomorphic t.root u u.root = .ok false := by
  have hunmarked : ∀ stamp, ∀ d ∈ [(⟨⟨"item", stamp⟩, "a:b"⟩ : NodeData), ⟨⟨"item", stamp⟩, ""⟩,
      ⟨⟨"item", stamp⟩, "::"⟩], d.Unmarked := by
    simp [NodeData.Unmarked, RoseTree.IsMark]
  obtain ⟨t, u, ht, hu, hx, hy, hdt, hdu, hst, hsu, hiso⟩ : ∃ t u,
      fan ⟨"item", 0⟩ "a:b" ["", "::"] = .ok t ∧ fan ⟨"item", 1⟩ "a:b" ["", "::"] = .ok u ∧
      t.contains t.root ∧ u.contains u.root ∧
      (t.arena.preorder t.root).map t.arena.data? = List.map some
        [⟨⟨"item", 0⟩, "a:b"⟩, ⟨⟨"item", 0⟩, ""⟩, ⟨⟨"item", 0⟩, "::"⟩] ∧
      (u.arena.preorder u.root).map u.arena.data? = List.map some
        [⟨⟨"item", 1⟩, "a:b"⟩, ⟨⟨"item", 1⟩, ""⟩, ⟨⟨"item", 1⟩, "::"⟩] ∧
      t.sexpr t.root = .ok "(item:a:b (item) (item:::))" ∧
      u.sexpr u.root = .ok "(item:a:b (item) (item:::))" ∧
      t.isIsomorphic t.root u u.root = .ok false :=
    ⟨_, _, rfl, rfl, rfl, rfl, rfl, rfl, rfl, rfl, rfl⟩
  have hwt := (built_fan _ _ _ ht).wellFormed
  have hwu := (built_fan _ _ _ hu).wellFormed
  have hmt := unmarked_of_map_data? hwt.isLive_root hdt (hunmarked 0)
  have hmu := unmarked_of_map_data? hwu.isLive_root hdu (hunmarked 1)
  obtain ⟨x, y, v, w, hx', hy', hv, hw, hiff⟩ :=
    Built.sexpr_unambiguous (built_fan _ _ _ ht) (built_fan _ _ _ hu) hx hy hmt hmu
  have hxy : x = y := Except.ok.inj ((hx'.symm.trans hst).trans (hsu.symm.trans hy'))
  exact ⟨t, u, ht, hu, hx, hy, hmt, hmu, hst, by rw [hv, hw, hiff.1 hxy], hiso⟩

end Tree

end TreeScript
