/-
**Editing keeps arenas well-formed.**

Each way of changing an arena leads from a well-formed arena to a well-formed one, as long as a
node is put only where it may be: it has no parent, and what it is put under is not below it.  The
identities that have been issued stay issued, so that one that is out of date stays so for ever.

Main results:

* `TreeScript.Arena.WellFormed.alloc`, `TreeScript.Arena.WellFormed.unlink`,
  `TreeScript.Arena.WellFormed.link`, `TreeScript.Arena.WellFormed.removeSubtree` — **what each
  change keeps**;
* `TreeScript.Arena.not_below_unlink` — taking a node from its siblings puts nothing below it;
* `TreeScript.Arena.removeAlone_eq_removeSubtree` — a node without children goes the same way
  alone.
-/

import TreeScript.Proofs.Arena.Frame

set_option relaxedAutoImplicit false
set_option autoImplicit false

namespace TreeScript.Arena

variable {α β : Type} {a : Arena α} {b : Arena β} {n m k p c q r : NodeId} {i : Nat} {d : α}

/-! ### Ways up in two arenas -/

/-- Where the links upwards of one arena are links upwards of another, so are the ways up. -/
theorem Below.imp (hw : b.WellFormed) (h : b.Below n m) (hm : b.isLive m)
    (step : ∀ c p, b.isLive c → b.parent? c = some p → a.parent? c = some p) : a.Below n m := by
  induction h with
  | self => exact Below.self
  | step hp _ ih => exact Below.step (step _ _ hm hp) (ih (hw.isLive_of_parent? hm hp))

namespace WellFormed

/-! ### Another payload -/

theorem setData (hw : a.WellFormed) (n : NodeId) (f : α → α) : (a.setData n f).WellFormed where
  free_lt := by
    intro s hs
    have := hw.free_lt s hs
    simpa [Arena.setData, modify] using this
  free_vacant s hs g := by simpa using hw.free_vacant s hs g
  free_nodup := hw.free_nodup
  of_mem_children := by simpa using fun {p c} => hw.of_mem_children (p := p) (c := c)
  of_parent? := by simpa using fun {c p} => hw.of_parent? (c := c) (p := p)
  nodup_children := by simpa using fun {p} => hw.nodup_children (p := p)
  grounded := by
    intro k hk
    have hg := hw.grounded (by simpa using hk)
    clear hk
    induction hg with
    | top h => exact Grounded.top (by simpa using h)
    | step h _ ih => exact Grounded.step (by simpa using h) ih

/-! ### Taking a node from its siblings -/

theorem unlink (hw : a.WellFormed) (hn : a.isLive n) : (a.unlink n).WellFormed := by
  have hpar : ∀ {k q}, a.isLive k → ((a.unlink n).parent? k = some q ↔
      k ≠ n ∧ a.parent? k = some q) := by
    intro k q hk
    rw [parent?_unlink hn hk]
    by_cases h : k = n <;> simp [h]
  exact
    { free_lt := by simpa using hw.free_lt
      free_vacant := by simpa using hw.free_vacant
      free_nodup := by simpa using hw.free_nodup
      of_mem_children := by
        intro p c hp hc
        rw [isLive_unlink] at hp ⊢
        rw [children_unlink hw hn hp, (hw.nodup_children hp).mem_erase_iff] at hc
        obtain ⟨hl, hpc⟩ := hw.of_mem_children hp hc.2
        exact ⟨hl, (hpar hl).2 ⟨hc.1, hpc⟩⟩
      of_parent? := by
        intro c p hc hp
        rw [isLive_unlink] at hc ⊢
        obtain ⟨hne, hp⟩ := (hpar hc).1 hp
        obtain ⟨hlp, hmem⟩ := hw.of_parent? hc hp
        rw [children_unlink hw hn hlp, (hw.nodup_children hlp).mem_erase_iff]
        exact ⟨hlp, hne, hmem⟩
      nodup_children := by
        intro p hp
        rw [isLive_unlink] at hp
        rw [children_unlink hw hn hp]
        exact (hw.nodup_children hp).erase n
      grounded := by
        intro k hk
        rw [isLive_unlink] at hk
        have hg := hw.grounded hk
        induction hg with
        | @top k h =>
            refine Grounded.top ?_
            rw [parent?_unlink hn hk, h]
            simp
        | @step k q h _ ih =>
            by_cases he : k = n
            · exact Grounded.top (by rw [parent?_unlink hn hk, if_pos he])
            · exact Grounded.step ((hpar hk).2 ⟨he, h⟩) (ih (hw.isLive_of_parent? hk h)) }

/-! ### Putting a node among others -/

theorem link (hw : a.WellFormed) (hp : a.isLive p) (hn : a.isLive n) (ht : a.parent? n = none)
    (hb : ¬ a.Below n p) : (a.link p i n).WellFormed := by
  have hmin : min i (a.children p).length ≤ (a.children p).length := Nat.min_le_right _ _
  have hnot : ∀ {q}, a.isLive q → n ∉ a.children q := fun hq hm => by
    have := hw.parent?_of_mem hq hm
    rw [ht] at this
    cases this
  have hmem : ∀ {q c}, a.isLive q → (c ∈ (a.link p i n).children q ↔
      c ∈ a.children q ∨ c = n ∧ q = p) := by
    intro q c hq
    rw [children_link hp hq]
    by_cases h : q = p
    · subst h; simp [List.mem_insertIdx hmin, or_comm]
    · simp [h]
  have hpar : ∀ {k}, a.isLive k → k ≠ n → (a.link p i n).parent? k = a.parent? k :=
    fun hk h => by rw [parent?_link hw hp hn hk, if_neg h]
  have hparn : (a.link p i n).parent? n = some p := by rw [parent?_link hw hp hn hn, if_pos rfl]
  -- the way up from what is not below `n` does not change
  have hup : ∀ {k}, a.Grounded k → a.isLive k → ¬ a.Below n k → (a.link p i n).Grounded k := by
    intro k hg
    induction hg with
    | @top k h =>
        intro hk hnb
        have hne : k ≠ n := fun e => hnb (e ▸ Below.self)
        exact Grounded.top (by rw [hpar hk hne, h])
    | @step k q h _ ih =>
        intro hk hnb
        have hne : k ≠ n := fun e => hnb (e ▸ Below.self)
        exact Grounded.step (by rw [hpar hk hne, h])
          (ih (hw.isLive_of_parent? hk h) fun hq => hnb (Below.step h hq))
  have hgn : (a.link p i n).Grounded n := Grounded.step hparn (hup (hw.grounded hp) hp hb)
  exact
    { free_lt := by simpa using hw.free_lt
      free_vacant := by simpa using hw.free_vacant
      free_nodup := by simpa using hw.free_nodup
      of_mem_children := by
        intro q c hq hc
        rw [isLive_link] at hq ⊢
        rcases (hmem hq).1 hc with hc | ⟨rfl, rfl⟩
        · obtain ⟨hl, hpc⟩ := hw.of_mem_children hq hc
          have hne : c ≠ n := fun e => hnot hq (e ▸ hc)
          exact ⟨hl, by rw [hpar hl hne, hpc]⟩
        · exact ⟨hn, hparn⟩
      of_parent? := by
        intro c q hc hq
        rw [isLive_link] at hc ⊢
        by_cases h : c = n
        · subst h
          rw [hparn] at hq
          obtain rfl := Option.some.inj hq
          exact ⟨hp, (hmem hp).2 (Or.inr ⟨rfl, rfl⟩)⟩
        · rw [hpar hc h] at hq
          obtain ⟨hlq, hcq⟩ := hw.of_parent? hc hq
          exact ⟨hlq, (hmem hlq).2 (Or.inl hcq)⟩
      nodup_children := by
        intro q hq
        rw [isLive_link] at hq
        rw [children_link hp hq]
        split
        · rw [(List.perm_insertIdx n _ hmin).nodup_iff]
          exact List.nodup_cons.2 ⟨hnot hp, hw.nodup_children hp⟩
        · exact hw.nodup_children hq
      grounded := by
        intro k hk
        rw [isLive_link] at hk
        have hg := hw.grounded hk
        induction hg with
        | @top k h =>
            by_cases he : k = n
            · exact he ▸ hgn
            · exact Grounded.top (by rw [hpar hk he, h])
        | @step k q h _ ih =>
            by_cases he : k = n
            · exact he ▸ hgn
            · exact Grounded.step (by rw [hpar hk he, h]) (ih (hw.isLive_of_parent? hk h)) }

/-! ### A new node -/

theorem alloc (hw : a.WellFormed) (d : α) : (a.alloc d).WellFormed := by
  have hlive : ∀ {k}, (a.alloc d).isLive k ↔ k = a.nextId ∨ a.isLive k := isLive_alloc_iff hw
  have hfree : ∀ s ∈ (a.alloc d).free, s ∈ a.free ∧ s ≠ a.nextId.slot := by
    intro s hs
    unfold Arena.alloc at hs
    unfold nextId
    have hnd := hw.free_nodup
    split at hs
    case h_1 h => rw [h] at hs; cases hs
    case h_2 t rest h =>
      rw [h] at hnd ⊢
      refine ⟨List.mem_cons_of_mem _ hs, ?_⟩
      rintro rfl
      exact (List.nodup_cons.1 hnd).1 hs
  have hsize : a.slots.size ≤ (a.alloc d).slots.size := by
    unfold Arena.alloc
    split <;> simp
  exact
    { free_lt := fun s hs => Nat.lt_of_lt_of_le (hw.free_lt s (hfree s hs).1) hsize
      free_vacant := by
        intro s hs g h
        rcases hlive.1 h with h | h
        · exact (hfree s hs).2 (by rw [← h])
        · exact hw.free_vacant s (hfree s hs).1 g h
      free_nodup := by
        have hnd := hw.free_nodup
        unfold Arena.alloc
        split
        case h_1 => exact hnd
        case h_2 t rest h => rw [h] at hnd; exact (List.nodup_cons.1 hnd).2
      of_mem_children := by
        intro p c hp hc
        rcases hlive.1 hp with rfl | hp
        · rw [children_alloc_nextId hw] at hc; cases hc
        · rw [children_alloc hw hp] at hc
          obtain ⟨hl, hpc⟩ := hw.of_mem_children hp hc
          exact ⟨hlive.2 (Or.inr hl), by rw [parent?_alloc hw hl, hpc]⟩
      of_parent? := by
        intro c p hc hp
        rcases hlive.1 hc with rfl | hc
        · rw [parent?_alloc_nextId hw] at hp; cases hp
        · rw [parent?_alloc hw hc] at hp
          obtain ⟨hl, hcp⟩ := hw.of_parent? hc hp
          exact ⟨hlive.2 (Or.inr hl), by rw [children_alloc hw hl]; exact hcp⟩
      nodup_children := by
        intro p hp
        rcases hlive.1 hp with rfl | hp
        · rw [children_alloc_nextId hw]; exact List.nodup_nil
        · rw [children_alloc hw hp]; exact hw.nodup_children hp
      grounded := by
        intro k hk
        rcases hlive.1 hk with rfl | hk
        · exact Grounded.top (parent?_alloc_nextId hw)
        · have hg := hw.grounded hk
          induction hg with
          | top h => exact Grounded.top (by rw [parent?_alloc hw hk, h])
          | step h _ ih =>
              have hlp := hw.isLive_of_parent? hk h
              exact Grounded.step (by rw [parent?_alloc hw hk, h])
                (ih (hlive.2 (Or.inr hlp)) hlp) }

/-! ### Taking out a subtree -/

theorem removeSubtree (hw : a.WellFormed) (hn : a.isLive n) :
    (a.removeSubtree n).WellFormed := by
  have hlive : ∀ {k}, (a.removeSubtree n).isLive k ↔ a.isLive k ∧ ¬ a.Below n k :=
    isLive_removeSubtree_iff hw hn
  have hpost : ∀ m ∈ a.postorder n, a.isLive m := fun m hm =>
    ((hw.mem_postorder_iff hn).1 hm).1
  have hfree : (a.removeSubtree n).free = a.free ++ (a.postorder n).map NodeId.slot := by
    rw [Arena.removeSubtree, free_foldl_vacate, free_unlink]
  have hsize : (a.removeSubtree n).slots.size = a.slots.size := by
    rw [Arena.removeSubtree, size_slots_foldl_vacate, size_slots_unlink]
  exact
    { free_lt := by
        intro s hs
        rw [hfree] at hs
        rw [hsize]
        rcases List.mem_append.1 hs with hs | hs
        · exact hw.free_lt s hs
        · obtain ⟨m, hm, rfl⟩ := List.mem_map.1 hs
          exact slot_lt_of_isLive (hpost m hm)
      free_vacant := by
        intro s hs g h
        rw [hfree] at hs
        obtain ⟨hl, hb⟩ := hlive.1 h
        rcases List.mem_append.1 hs with hs | hs
        · exact hw.free_vacant s hs g hl
        · obtain ⟨m, hm, rfl⟩ := List.mem_map.1 hs
          have he := eq_of_slot_eq hl (hpost m hm) rfl
          rw [he] at hb
          exact hb ((hw.mem_postorder_iff hn).1 hm).2
      free_nodup := by
        rw [hfree, List.nodup_append]
        refine ⟨hw.free_nodup, (hw.nodup_postorder hn).map_on fun x hx y hy he =>
          eq_of_slot_eq (hpost x hx) (hpost y hy) he, ?_⟩
        rintro s hs s' hs' rfl
        obtain ⟨m, hm, rfl⟩ := List.mem_map.1 hs'
        exact hw.free_vacant _ hs m.generation (hpost m hm)
      of_mem_children := by
        intro p c hp hc
        obtain ⟨hp, hb⟩ := hlive.1 hp
        rw [children_removeSubtree hw hn hp hb, (hw.nodup_children hp).mem_erase_iff] at hc
        obtain ⟨hl, hpc⟩ := hw.of_mem_children hp hc.2
        have hbc : ¬ a.Below n c := fun h => (h.parent_or_eq hpc).elim hc.1 hb
        exact ⟨hlive.2 ⟨hl, hbc⟩, by rw [parent?_removeSubtree hw hn hl hbc, hpc]⟩
      of_parent? := by
        intro c p hc hp
        obtain ⟨hc, hb⟩ := hlive.1 hc
        rw [parent?_removeSubtree hw hn hc hb] at hp
        obtain ⟨hl, hmem⟩ := hw.of_parent? hc hp
        have hbp : ¬ a.Below n p := fun h => hb (Below.step hp h)
        refine ⟨hlive.2 ⟨hl, hbp⟩, ?_⟩
        rw [children_removeSubtree hw hn hl hbp, (hw.nodup_children hl).mem_erase_iff]
        exact ⟨fun e => hb (e ▸ Below.self), hmem⟩
      nodup_children := by
        intro p hp
        obtain ⟨hp, hb⟩ := hlive.1 hp
        rw [children_removeSubtree hw hn hp hb]
        exact (hw.nodup_children hp).erase n
      grounded := by
        intro k hk
        obtain ⟨hk, hb⟩ := hlive.1 hk
        have hg := hw.grounded hk
        induction hg with
        | top h => exact Grounded.top (by rw [parent?_removeSubtree hw hn hk hb, h])
        | step h _ ih =>
            have hbp : ¬ a.Below n _ := fun h' => hb (Below.step h h')
            have hlp := hw.isLive_of_parent? hk h
            exact Grounded.step (by rw [parent?_removeSubtree hw hn hk hb, h])
              (ih (hlive.2 ⟨hlp, hbp⟩) hlp hbp) }

end WellFormed

/-- Taking a node from its siblings puts nothing below it. -/
theorem not_below_unlink (hw : a.WellFormed) (hn : a.isLive n) (hm : a.isLive m)
    (h : ¬ a.Below k m) : ¬ (a.unlink n).Below k m := by
  intro hb
  refine h (hb.imp (hw.unlink hn) (by simpa using hm) fun c p hc hp => ?_)
  rw [isLive_unlink] at hc
  rw [parent?_unlink hn hc] at hp
  split at hp
  · cases hp
  · exact hp

/-! ### Taking out a node alone -/

/-- A list of children matters only as it is. -/
theorem mapChildren_congr {f g : List NodeId → List NodeId}
    (h : f (a.children p) = g (a.children p)) : a.mapChildren p f = a.mapChildren p g := by
  unfold mapChildren modify
  congr 1
  refine Array.ext_getElem? fun s => ?_
  rw [Array.getElem?_modify, Array.getElem?_modify]
  by_cases hs : p.slot = s
  · subst hs
    unfold children node? at h
    rw [if_pos rfl, if_pos rfl]
    cases hslot : a.slots[p.slot]? with
    | none => rfl
    | some slot =>
        cases hnode : slot.node? with
        | none => simp [hnode]
        | some node => simpa [hslot, hnode] using h
  · rw [if_neg hs, if_neg hs]

/-- A slot that is emptied forgets where its node was linked. -/
theorem vacate_setParent (a : Arena α) (n : NodeId) (q : Option NodeId) :
    (a.setParent n q).vacate n = a.vacate n := by
  unfold vacate setParent modify
  congr 1
  refine Array.ext_getElem? fun s => ?_
  simp only [Array.getElem?_modify]
  by_cases hs : n.slot = s
  · cases a.slots[s]? <;> simp [hs]
  · simp [hs]

/-- Leaving out the one occurrence of an element. -/
theorem flatMap_ite_eq_erase {l : List NodeId} (h : l.Nodup) (n : NodeId) :
    (l.flatMap fun c => if c = n then [] else [c]) = l.erase n := by
  induction l with
  | nil => rfl
  | cons c l ih =>
      obtain ⟨hc, hl⟩ := List.nodup_cons.1 h
      rw [List.flatMap_cons, ih hl]
      by_cases he : c = n
      · subst he
        simp [List.erase_of_not_mem hc]
      · rw [if_neg he, List.erase_cons_tail (by simpa using he)]
        rfl

/-- **A node without children goes the same way alone** as with what is below it. -/
theorem removeAlone_eq_removeSubtree (hw : a.WellFormed) (hn : a.isLive n)
    (hc : a.children n = []) : a.removeAlone n = a.removeSubtree n := by
  have hpost : a.postorder n = [n] := by rw [hw.postorder_eq hn, hc]; rfl
  unfold removeAlone removeSubtree unlink
  rw [hpost, hc]
  simp only [List.foldl_nil, List.foldl_cons]
  cases hp : a.parent? n with
  | none => rfl
  | some p =>
      have hnd := hw.nodup_children (hw.isLive_of_parent? hn hp)
      have hmap : a.mapChildren p (·.flatMap fun c => if c = n then [] else [c]) =
          a.mapChildren p (·.erase n) := mapChildren_congr (flatMap_ite_eq_erase hnd n)
      simp only [vacate_setParent, hmap]

end TreeScript.Arena
