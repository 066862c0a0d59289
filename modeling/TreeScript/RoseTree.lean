/-
**Ordered rose trees.**

A rose tree is a value with a list of rose trees below it.  The nodes of an arena hang together
by links; the rose tree below a node is what those links say, with the identities as values, and
every way of walking, counting or printing the nodes below a node is a function on it.

Main definitions:

* `TreeScript.RoseTree`, with `value`, `children`, `map` and `size`;
* `TreeScript.RoseTree.preorder`, `TreeScript.RoseTree.postorder`,
  `TreeScript.RoseTree.levelOrder` — the three orders of visiting its values;
* `TreeScript.RoseTree.traverse` — relabelling that may fail;
* `TreeScript.RoseTree.agrees` — comparing two trees in step;
* `TreeScript.RoseTree.height` — how deep it goes;
* `TreeScript.RoseTree.render` — its nested text.

Main results:

* `TreeScript.RoseTree.length_preorder`, `TreeScript.RoseTree.length_postorder` — **both orders
  visit each node once**;
* `TreeScript.RoseTree.preorder_map`, `TreeScript.RoseTree.postorder_map` — relabelling a tree
  relabels its orders.
-/

set_option relaxedAutoImplicit false
set_option autoImplicit false

namespace TreeScript

/-- A value with an ordered list of trees below it. -/
inductive RoseTree (α : Type) where
  | node (value : α) (children : List (RoseTree α))

namespace RoseTree

variable {α β : Type}

/-- The value at the root. -/
def value : RoseTree α → α
  | node v _ => v

/-- The trees right below the root. -/
def children : RoseTree α → List (RoseTree α)
  | node _ ts => ts

@[simp] theorem value_node (v : α) (ts : List (RoseTree α)) : (node v ts).value = v := rfl

@[simp] theorem children_node (v : α) (ts : List (RoseTree α)) : (node v ts).children = ts := rfl

/-! ### Relabelling and counting -/

mutual
/-- The tree with every value replaced by its image. -/
def map (f : α → β) : RoseTree α → RoseTree β
  | node v ts => node (f v) (mapForest f ts)

/-- The forest with every value replaced by its image. -/
def mapForest (f : α → β) : List (RoseTree α) → List (RoseTree β)
  | [] => []
  | t :: ts => t.map f :: mapForest f ts
end

mutual
/-- The number of nodes. -/
def size : RoseTree α → Nat
  | node _ ts => 1 + sizeForest ts

/-- The number of nodes of a forest. -/
def sizeForest : List (RoseTree α) → Nat
  | [] => 0
  | t :: ts => t.size + sizeForest ts
end

theorem mapForest_eq (f : α → β) (ts : List (RoseTree α)) : mapForest f ts = ts.map (map f) := by
  induction ts with
  | nil => rfl
  | cons t ts ih => simp [mapForest, ih]

@[simp] theorem map_node (f : α → β) (v : α) (ts : List (RoseTree α)) :
    (node v ts).map f = node (f v) (ts.map (map f)) := by
  simp [map, mapForest_eq]

/-! ### Orders -/

mutual
/-- A node before the nodes below it, those in order. -/
def preorder : RoseTree α → List α
  | node v ts => v :: preorderForest ts

/-- The trees of a forest one after the other, each in pre-order. -/
def preorderForest : List (RoseTree α) → List α
  | [] => []
  | t :: ts => t.preorder ++ preorderForest ts
end

mutual
/-- A node after the nodes below it, those in order. -/
def postorder : RoseTree α → List α
  | node v ts => postorderForest ts ++ [v]

/-- The trees of a forest one after the other, each in post-order. -/
def postorderForest : List (RoseTree α) → List α
  | [] => []
  | t :: ts => t.postorder ++ postorderForest ts
end

theorem preorderForest_eq (ts : List (RoseTree α)) :
    preorderForest ts = ts.flatMap preorder := by
  induction ts with
  | nil => rfl
  | cons t ts ih => simp [preorderForest, ih]

theorem postorderForest_eq (ts : List (RoseTree α)) :
    postorderForest ts = ts.flatMap postorder := by
  induction ts with
  | nil => rfl
  | cons t ts ih => simp [postorderForest, ih]

theorem preorder_node (v : α) (ts : List (RoseTree α)) :
    (node v ts).preorder = v :: ts.flatMap preorder := by
  simp [preorder, preorderForest_eq]

theorem postorder_node (v : α) (ts : List (RoseTree α)) :
    (node v ts).postorder = ts.flatMap postorder ++ [v] := by
  simp [postorder, postorderForest_eq]

mutual
/-- **Pre-order visits each node once.** -/
theorem length_preorder : ∀ t : RoseTree α, t.preorder.length = t.size
  | node _ ts => by
    simp only [preorder, size, List.length_cons, length_preorderForest ts]; omega

theorem length_preorderForest : ∀ ts : List (RoseTree α),
    (preorderForest ts).length = sizeForest ts
  | [] => rfl
  | t :: ts => by
    simp only [preorderForest, sizeForest, List.length_append, length_preorder t,
      length_preorderForest ts]
end

mutual
/-- **Post-order visits each node once.** -/
theorem length_postorder : ∀ t : RoseTree α, t.postorder.length = t.size
  | node _ ts => by
    simp only [postorder, size, List.length_append, List.length_singleton,
      length_postorderForest ts]; omega

theorem length_postorderForest : ∀ ts : List (RoseTree α),
    (postorderForest ts).length = sizeForest ts
  | [] => rfl
  | t :: ts => by
    simp only [postorderForest, sizeForest, List.length_append, length_postorder t,
      length_postorderForest ts]
end

mutual
theorem preorder_map (f : α → β) : ∀ t : RoseTree α, (t.map f).preorder = t.preorder.map f
  | node _ ts => by simp only [map, preorder, List.map_cons, preorderForest_map f ts]

theorem preorderForest_map (f : α → β) : ∀ ts : List (RoseTree α),
    preorderForest (mapForest f ts) = (preorderForest ts).map f
  | [] => rfl
  | t :: ts => by
    simp only [mapForest, preorderForest, List.map_append, preorder_map f t,
      preorderForest_map f ts]
end

mutual
theorem postorder_map (f : α → β) : ∀ t : RoseTree α, (t.map f).postorder = t.postorder.map f
  | node _ ts => by
    simp only [map, postorder, List.map_append, List.map_cons, List.map_nil,
      postorderForest_map f ts]

theorem postorderForest_map (f : α → β) : ∀ ts : List (RoseTree α),
    postorderForest (mapForest f ts) = (postorderForest ts).map f
  | [] => rfl
  | t :: ts => by
    simp only [mapForest, postorderForest, List.map_append, postorder_map f t,
      postorderForest_map f ts]
end

/-! ### Relabelling that may fail -/

section Traverse

variable {ε : Type}

mutual
/-- The tree with every value replaced by its image, or the failure of the first value in
pre-order that has none. -/
def traverse (f : α → Except ε β) : RoseTree α → Except ε (RoseTree β)
  | node v ts => do
    let w ← f v
    let us ← traverseForest f ts
    return node w us

/-- The forest with every value replaced by its image, or the first failure. -/
def traverseForest (f : α → Except ε β) : List (RoseTree α) → Except ε (List (RoseTree β))
  | [] => return []
  | t :: ts => do
    let u ← t.traverse f
    let us ← traverseForest f ts
    return u :: us
end

end Traverse

/-! ### Comparing in step -/

mutual
/-- Whether two trees have related values at their roots, the same number of children, and
children that agree one by one. -/
def agrees (r : α → β → Bool) : RoseTree α → RoseTree β → Bool
  | node v ts, node w us => r v w && ts.length == us.length && agreesForest r ts us

/-- Whether the trees of two forests agree one by one, up to the end of the shorter forest. -/
def agreesForest (r : α → β → Bool) : List (RoseTree α) → List (RoseTree β) → Bool
  | t :: ts, u :: us => t.agrees r u && agreesForest r ts us
  | _, _ => true
end

/-! ### Height -/

mutual
/-- The number of levels. -/
def height : RoseTree α → Nat
  | node _ ts => 1 + heightForest ts

/-- The greatest height among the trees of a forest, 0 if there are none. -/
def heightForest : List (RoseTree α) → Nat
  | [] => 0
  | t :: ts => max t.height (heightForest ts)
end

/-! ### Level order -/

/-- The values of a forest, level by level, for as many levels as `fuel` says. -/
def levelsF : Nat → List (RoseTree α) → List α
  | 0, _ => []
  | fuel + 1, ts => ts.map value ++ levelsF fuel (ts.flatMap children)

/-- The values of a tree level by level, each level in order. -/
def levelOrder (t : RoseTree α) : List α := levelsF t.height [t]

/-! ### Text -/

mutual
/-- The text of a tree: in parentheses, the text of its root and then, after a space each, the
trees below it. -/
def render (text : α → String) : RoseTree α → String
  | node v ts => "(" ++ text v ++ renderForest text ts ++ ")"

/-- The texts of the trees of a forest, each after a space. -/
def renderForest (text : α → String) : List (RoseTree α) → String
  | [] => ""
  | t :: ts => " " ++ t.render text ++ renderForest text ts
end

end RoseTree

end TreeScript
