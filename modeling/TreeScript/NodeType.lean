/-
**Types of nodes and the registries that issue them.**

A type has a name, but it is not its name: two registries that intern the same name on their own
issue two types.  Each type therefore carries a stamp, taken from a supply that never gives one
stamp twice; types are equal only if name and stamp are.  A registry is a value, so a copy of it
keeps the types it has and goes its own way from there.

Main definitions:

* `TreeScript.NodeType`, `TreeScript.TypeSupply`;
* `TreeScript.Registry`, with `get?`, `intern` and `size`.

Main results:

* `TreeScript.Registry.get?_intern` — **what was interned is found from then on**;
* `TreeScript.Registry.intern_of_get?` — a name that is known is not issued again.
-/

set_option relaxedAutoImplicit false
set_option autoImplicit false

namespace TreeScript

/-- The type of a node. -/
structure NodeType where
  /-- The name it was interned under. -/
  name : String
  /-- What tells it from other types of that name. -/
  stamp : Nat
deriving DecidableEq, Repr

/-- The text by which a type shows that it is one. -/
def NodeType.debugText (ty : NodeType) : String := s!"NodeType({ty.name})"

/-- Where new types take their stamps from. -/
structure TypeSupply where
  /-- The first stamp that has not been used. -/
  next : Nat
deriving DecidableEq, Repr

/-- The types issued so far, at most one for each name. -/
structure Registry where
  /-- The types, in the order in which they were issued. -/
  types : List NodeType
deriving DecidableEq, Repr

namespace Registry

/-- The registry without types. -/
def empty : Registry := ⟨[]⟩

/-- The type issued for `name`. -/
def get? (r : Registry) (name : String) : Option NodeType := r.types.find? (·.name == name)

/-- The number of types issued. -/
def size (r : Registry) : Nat := r.types.length

/-- Whether no type has been issued. -/
def isEmpty (r : Registry) : Bool := r.types.isEmpty

/-- The answer to a request for a type. -/
structure Interned where
  /-- The type. -/
  type : NodeType
  /-- The registry, which now has it. -/
  registry : Registry
  /-- The supply of stamps for later types. -/
  supply : TypeSupply

/-- The type for `name`: the one that was issued before, else a new one. -/
def intern (r : Registry) (name : String) (supply : TypeSupply) : Interned :=
  match r.get? name with
  | some ty => ⟨ty, r, supply⟩
  | none => ⟨⟨name, supply.next⟩, ⟨r.types ++ [⟨name, supply.next⟩]⟩, ⟨supply.next + 1⟩⟩

theorem name_of_get? {r : Registry} {name : String} {ty : NodeType} (h : r.get? name = some ty) :
    ty.name = name := by
  simpa using List.find?_some h

theorem intern_of_get? {r : Registry} {name : String} {ty : NodeType} (h : r.get? name = some ty)
    (s : TypeSupply) : r.intern name s = ⟨ty, r, s⟩ := by
  simp [intern, h]

/-- **What was interned is found from then on.** -/
theorem get?_intern (r : Registry) (name : String) (s : TypeSupply) :
    (r.intern name s).registry.get? name = some (r.intern name s).type := by
  unfold intern
  split
  case h_1 ty h => exact h
  case h_2 h =>
    simp only [get?, List.find?_append] at h ⊢
    rw [h]
    simp

/-- Interning one name changes nothing for another. -/
theorem get?_intern_of_ne (r : Registry) {name other : String} (s : TypeSupply)
    (h : name ≠ other) : (r.intern name s).registry.get? other = r.get? other := by
  unfold intern
  split
  · rfl
  · simp [get?, List.find?_append, h]

end Registry

end TreeScript
