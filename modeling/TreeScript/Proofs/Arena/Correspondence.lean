/-
**Nodes at the same relative path.**

A list that pairs the nodes below one node, in pre-order, with copies of them pairs the nodes to
which the same child indices lead: below the one node and below its own copy.  It is the structure
that decides who is paired with whom, not the order in which the pairs are listed.

Main definitions:

* `TreeScript.Arena.descend` — the node to which child indices lead.

Main results:

* `TreeScript.Arena.CopiedBy.exists_parent` — **parents are paired with parents**, and paired
  nodes have the same index among their siblings;
* `TreeScript.Arena.CopiedBy.mem_iff_descend` — **nodes are paired if and only if the same path
  leads to both**.
-/

import TreeScript.Proofs.Arena.Grafting

set_option relaxedAutoImplicit false
set_option autoImplicit false

namespace TreeScript.Arena

variable {α β : Type} {o : Arena α} {e : Arena β} {D : NodeId → Option β} {n m p q x y : NodeId}
  {pairs : List (NodeId × NodeId)}

/-! ### Child indices -/

/-- The node to which child indices lead from `n`. -/
def descend (a : Arena α) (n : NodeId) : List Nat → Option NodeId
  | [] => some n
  | i :: path => (a.children n)[i]?.bind fun c => a.descend c path

@[simp] theorem descend_nil : o.descend n [] = some n := rfl

theorem descend_cons (i : Nat) (path : List Nat) :
    o.descend n (i :: path) = (o.children n)[i]?.bind fun c => o.descend c path := rfl

/-- Going down one path and then another. -/
theorem descend_append (path path' : List Nat) :
    o.descend n (path ++ path') = (o.descend n path).bind fun c => o.descend c path' := by
  induction path generalizing n with
  | nil => rfl
  | cons i path ih =>
      rw [List.cons_append, descend_cons, descend_cons, Option.bind_assoc]
      exact Option.bind_congr fun c _ => ih

/-- Going down a path and to a child from there. -/
theorem descend_concat {path : List Nat} {i : Nat} (hp : o.descend n path = some p)
    (hx : (o.children p)[i]? = some x) : o.descend n (path ++ [i]) = some x := by
  simp [descend_append, hp, descend_cons, hx]

/-! ### Pairs of nodes in pre-order -/

section Pairs

/-- A path leads from a pair to a pair. -/
theorem CopiedBy.mem_of_descend (h : CopiedBy o.children D pairs e) {path : List Nat}
    (hpq : (p, q) ∈ pairs) (hx : o.descend p path = some x) (hy : e.descend q path = some y) :
    (x, y) ∈ pairs := by
  induction path generalizing p q with
  | nil =>
      obtain rfl := Option.some.inj hx
      obtain rfl := Option.some.inj hy
      exact hpq
  | cons i path ih =>
      obtain ⟨c, hc, hx⟩ := Option.bind_eq_some_iff.1 hx
      obtain ⟨d, hd, hy⟩ := Option.bind_eq_some_iff.1 hy
      have hcd := forall₂_getElem? (h p q hpq).2 hc hd
      exact ih hcd hx hy

variable (h : CopiedBy o.children D pairs e) (ho : o.WellFormed) (he : e.WellFormed)
  (hlive : ∀ m ∈ pairs.map Prod.snd, e.isLive m) (hn : o.isLive n)
  (hfst : pairs.map Prod.fst = o.preorder n)

include h ho he hlive hn hfst

/-- **Parents are paired with parents**, and what is paired has the same index among its
siblings. -/
theorem CopiedBy.exists_parent (hxy : (x, y) ∈ pairs) (hne : x ≠ n) :
    ∃ p q, ∃ i : Nat, o.parent? x = some p ∧ (p, q) ∈ pairs ∧ e.parent? y = some q ∧
      (o.children p)[i]? = some x ∧ (e.children q)[i]? = some y := by
  have hmem : x ∈ o.preorder n := hfst ▸ List.mem_map_of_mem hxy
  obtain ⟨hx, hbelow⟩ := (ho.mem_preorder_iff hn).1 hmem
  cases hbelow with
  | self => exact absurd rfl hne
  | @step _ p hp hbelow =>
      -- the parent is listed, as it is below the topmost node
      have hmem : p ∈ pairs.map Prod.fst :=
        hfst ▸ (ho.mem_preorder_iff hn).2 ⟨ho.isLive_of_parent? hx hp, hbelow⟩
      obtain ⟨q, hpq⟩ := exists_mem_of_fst hmem
      have hchildren := (h p q hpq).2
      have hi := ho.getElem?_position hx hp
      have hlt := (List.getElem?_eq_some_iff.1 hi).1
      have hj := List.getElem?_eq_getElem (hchildren.length_eq ▸ hlt)
      have hxj := forall₂_getElem? hchildren hi hj
      -- a node is listed once
      rw [snd_unique_of_nodup (hfst ▸ ho.nodup_preorder hn) hxj hxy] at hj
      refine ⟨p, q, o.position x, hp, hpq, ?_, hi, hj⟩
      exact he.parent?_of_mem (hlive q (List.mem_map_of_mem hpq)) (List.mem_of_getElem? hj)

/-- **Nodes are paired if and only if the same path leads to both**, from the topmost node and from
the one it is paired with. -/
theorem CopiedBy.mem_iff_descend (hnm : (n, m) ∈ pairs) :
    (x, y) ∈ pairs ↔ ∃ path, o.descend n path = some x ∧ e.descend m path = some y := by
  refine ⟨fun hxy => ?_, fun ⟨path, hx, hy⟩ => h.mem_of_descend hnm hx hy⟩
  have hmem : x ∈ o.preorder n := hfst ▸ List.mem_map_of_mem hxy
  -- from the topmost node downwards
  have hbelow := ((ho.mem_preorder_iff hn).1 hmem).2
  induction hbelow generalizing y with
  | self =>
      obtain rfl := snd_unique_of_nodup (hfst ▸ ho.nodup_preorder hn) hnm hxy
      exact ⟨[], rfl, rfl⟩
  | @step x p' hp hb ih =>
      have hne : x ≠ n := by
        rintro rfl
        exact ho.not_below_parent hn hp hb
      obtain ⟨p, q, i, hp', hpq, -, hi, hj⟩ := h.exists_parent ho he hlive hn hfst hxy hne
      obtain rfl := Option.some.inj (hp.symm.trans hp')
      obtain ⟨path, hx, hy⟩ := ih hpq (hfst ▸ List.mem_map_of_mem hpq)
      exact ⟨path ++ [i], descend_concat hx hi, descend_concat hy hj⟩

end Pairs

end TreeScript.Arena
