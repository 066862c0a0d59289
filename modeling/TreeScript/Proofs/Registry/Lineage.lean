/-
**Where registries have their types from.**

Registries are made empty or as copies of others, and each of them interns names on its own.  A
history is a list of such calls; its moments are the places in that list.  Which types are equal
can be read off the history alone: a registry has a name from the moment at which it, or the
registry that it then was a copy of, was first asked for it, and two registries have the same type
if and only if they have it from the same moment.

Main definitions:

* `TreeScript.RegistryCall`, `TreeScript.Registries`, with `run` — **a history of registries**;
* `TreeScript.Descends` — one registry is another, or has been copied from it since some moment;
* `TreeScript.Heard`, `TreeScript.Got` — a registry knows a name from some moment, and the moment
  at which it was first interned.

Main results:

* `TreeScript.exists_got_of_heard` — whoever knows a name has it from a first moment;
* `TreeScript.got_new_iff`, `TreeScript.got_clone_iff`, `TreeScript.got_intern_iff` — what one
  more call changes;
* `TreeScript.Registries.Traced.step`, `TreeScript.Registries.exists_traced` — **registries issue
  types as the history says**, call by call;
* `TreeScript.Registries.run_identity` — **types are the same exactly if they come from the same
  moment**.
-/

import Mathlib.Data.List.Induction
import Mathlib.Data.List.Nodup
import TreeScript.NodeType

set_option relaxedAutoImplicit false
set_option autoImplicit false

namespace TreeScript

/-! ### Histories -/

/-- A call that makes a registry or interns a name.  Registries are numbered in the order in which
they are made. -/
inductive RegistryCall where
  /-- Makes a registry without types. -/
  | new
  /-- Makes a copy of registry `i`. -/
  | clone (i : Nat)
  /-- Asks registry `i` for the type for `name`. -/
  | intern (i : Nat) (name : String)
deriving DecidableEq, Repr

namespace RegistryCall

/-- Whether the call makes a registry. -/
def makes : RegistryCall → Bool
  | intern .. => false
  | _ => true

/-- The registry that the call is made on. -/
def subject? : RegistryCall → Option Nat
  | new => none
  | clone i => some i
  | intern i _ => some i

end RegistryCall

/-- The registries that have been made, and the supply of stamps that they share. -/
structure Registries where
  /-- The registries, in the order in which they were made. -/
  all : List Registry
  /-- The supply. -/
  supply : TypeSupply

namespace Registries

/-- The type that registry `i` has for `name`. -/
def get? (w : Registries) (i : Nat) (name : String) : Option NodeType :=
  w.all[i]?.bind (·.get? name)

/-- The type that a call answers. -/
def answer? (w : Registries) : RegistryCall → Option NodeType
  | .intern i name => w.all[i]?.map fun r => (r.intern name w.supply).type
  | _ => none

/-- The registries after a call, which must be made on one that is there. -/
def step (w : Registries) : RegistryCall → Option Registries
  | .new => some { w with all := w.all ++ [.empty] }
  | .clone i => w.all[i]?.map fun r => { w with all := w.all ++ [r] }
  | .intern i name =>
    w.all[i]?.map fun r =>
      let answer := r.intern name w.supply
      { all := w.all.set i answer.registry, supply := answer.supply }

/-- The registries after a history. -/
def run (calls : List RegistryCall) : Option Registries := calls.foldlM step ⟨[], ⟨0⟩⟩

end Registries

/-- **Registry `i` is registry `j`, or a copy of it, or a copy of a copy of it**, and so on, where
all these copies have been made after moment `t`. -/
inductive Descends (calls : List RegistryCall) (t j : Nat) : Nat → Prop where
  | self : Descends calls t j j
  | clone {u i k : Nat} (hu : t < u) (hcall : calls[u]? = some (.clone k))
      (hi : (calls.take u).countP RegistryCall.makes = i) (h : Descends calls t j k) :
      Descends calls t j i

/-- Registry `i` knows `name` from moment `t`: at that moment a registry was asked for it that `i`
is, or descends from since then. -/
def Heard (calls : List RegistryCall) (i : Nat) (name : String) (t : Nat) : Prop :=
  ∃ j, calls[t]? = some (.intern j name) ∧ Descends calls t j i

/-- **Registry `i` has `name` from the first intern at moment `t`**: the registry that was asked for
it then had not heard of it before. -/
def Got (calls : List RegistryCall) (i : Nat) (name : String) (t : Nat) : Prop :=
  ∃ j, calls[t]? = some (.intern j name) ∧ Descends calls t j i ∧ ∀ u < t, ¬ Heard calls j name u

/-- Calls are made on registries that are there. -/
def Named (calls : List RegistryCall) : Prop :=
  ∀ (t : Nat) c i, calls[t]? = some c → c.subject? = some i →
    i < (calls.take t).countP RegistryCall.makes

variable {calls : List RegistryCall} {c : RegistryCall} {i j k t u : Nat} {name other : String}

/-! ### Descent -/

namespace Descends

theorem mono (h : Descends calls u j i) (htu : t ≤ u) : Descends calls t j i := by
  induction h with
  | self => exact self
  | clone hu hcall hi _ ih => exact clone (by omega) hcall hi ih

theorem trans (h : Descends calls t j k) (h' : Descends calls t k i) : Descends calls t j i := by
  induction h' with
  | self => exact h
  | clone hu hcall hi _ ih => exact clone hu hcall hi ih

/-- Nothing has been copied since the last moment. -/
theorem eq_of_length_le (h : Descends calls t j i) (ht : calls.length ≤ t + 1) : i = j := by
  cases h with
  | self => rfl
  | clone hu hcall _ _ =>
      have := (List.getElem?_eq_some_iff.1 hcall).1
      omega

end Descends

/-- **Whoever knows a name has it from a first moment.**  Where the registry that was asked knew
the name already, it knew it from an earlier moment, and so does every copy of it. -/
theorem exists_got_of_heard (h : Heard calls i name t) : ∃ u ≤ t, Got calls i name u := by
  induction t using Nat.strongRecOn with
  | ind t ih =>
      obtain ⟨j, hcall, hd⟩ := h
      by_cases hfirst : ∀ u < t, ¬ Heard calls j name u
      · exact ⟨t, Nat.le_refl t, j, hcall, hd, hfirst⟩
      · push Not at hfirst
        obtain ⟨u, hut, j', hcall', hd'⟩ := hfirst
        have hheard : Heard calls i name u := ⟨j', hcall', hd'.trans (hd.mono (by omega))⟩
        obtain ⟨v, hvu, hgot⟩ := ih u hut hheard
        exact ⟨v, by omega, hgot⟩

theorem Got.heard (h : Got calls i name t) : Heard calls i name t := by
  obtain ⟨j, hcall, hd, -⟩ := h
  exact ⟨j, hcall, hd⟩

theorem Got.lt_length (h : Got calls i name t) : t < calls.length := by
  obtain ⟨j, hcall, -⟩ := h
  exact (List.getElem?_eq_some_iff.1 hcall).1

/-! ### One more call -/

theorem getElem?_concat_iff {l : List RegistryCall} {b d : RegistryCall} :
    (l ++ [b])[t]? = some d ↔ l[t]? = some d ∨ t = l.length ∧ b = d := by
  rcases Nat.lt_trichotomy t l.length with h | rfl | h
  · rw [List.getElem?_append_left h]
    exact (or_iff_left fun he => by omega).symm
  · simp
  · rw [List.getElem?_eq_none (by simp; omega), List.getElem?_eq_none (by omega)]
    simp
    omega

theorem named_concat_iff : Named (calls ++ [c]) ↔
    Named calls ∧ ∀ i, c.subject? = some i → i < calls.countP RegistryCall.makes := by
  unfold Named
  constructor
  · intro h
    refine ⟨fun t d i hd hi => ?_, fun i hi => ?_⟩
    · have ht := (List.getElem?_eq_some_iff.1 hd).1
      have := h t d i (getElem?_concat_iff.2 (Or.inl hd)) hi
      rwa [List.take_append_of_le_length (by omega)] at this
    · have := h calls.length c i (getElem?_concat_iff.2 (Or.inr ⟨rfl, rfl⟩)) hi
      rwa [List.take_left] at this
  · rintro ⟨h, hlast⟩ t d i hd hi
    rcases getElem?_concat_iff.1 hd with hd | ⟨rfl, rfl⟩
    · have ht := (List.getElem?_eq_some_iff.1 hd).1
      rw [List.take_append_of_le_length (by omega)]
      exact h t d i hd hi
    · rw [List.take_left]
      exact hlast i hi

theorem countP_take_lt (h : calls[u]? = some (.clone k)) :
    (calls.take u).countP RegistryCall.makes < calls.countP RegistryCall.makes := by
  obtain ⟨hu, he⟩ := List.getElem?_eq_some_iff.1 h
  have hsplit := congrArg (List.countP RegistryCall.makes) (List.take_append_drop u calls)
  rw [List.countP_append, List.drop_eq_getElem_cons hu, he, List.countP_cons] at hsplit
  simp only [RegistryCall.makes, if_true] at hsplit
  omega

theorem Named.countP_take_le (hn : Named calls) (h : calls[t]? = some c)
    (hi : c.subject? = some i) : i < calls.countP RegistryCall.makes :=
  Nat.lt_of_lt_of_le (hn t c i h hi) ((List.take_sublist t calls).countP_le)

/-- Whoever descends from a registry that is there is there. -/
theorem Descends.lt (h : Descends calls t j i) (hj : j < calls.countP RegistryCall.makes) :
    i < calls.countP RegistryCall.makes := by
  cases h with
  | self => exact hj
  | clone _ hcall hi _ => exact hi ▸ countP_take_lt hcall

/-- Where a registry that is there descends from does not change. -/
theorem descends_concat_iff (hn : Named calls) (hi : i < calls.countP RegistryCall.makes) :
    Descends (calls ++ [c]) t j i ↔ Descends calls t j i := by
  constructor
  · intro h
    induction h with
    | self => exact Descends.self
    | @clone u i k hu hcall hcount _ ih =>
        rcases getElem?_concat_iff.1 hcall with hcall | ⟨rfl, rfl⟩
        · have hlt := (List.getElem?_eq_some_iff.1 hcall).1
          rw [List.take_append_of_le_length (by omega)] at hcount
          exact Descends.clone hu hcall hcount (ih (hn.countP_take_le hcall rfl))
        · rw [List.take_left] at hcount
          omega
  · intro h
    induction h with
    | self => exact Descends.self
    | @clone u i k hu hcall hcount _ ih =>
        have hlt := (List.getElem?_eq_some_iff.1 hcall).1
        refine Descends.clone hu (getElem?_concat_iff.2 (Or.inl hcall)) ?_
          (ih (hn.countP_take_le hcall rfl))
        rw [List.take_append_of_le_length (by omega), hcount]

theorem heard_concat_iff (hn : Named calls) (hi : i < calls.countP RegistryCall.makes)
    (ht : t < calls.length) : Heard (calls ++ [c]) i name t ↔ Heard calls i name t := by
  unfold Heard
  simp only [List.getElem?_append_left ht, descends_concat_iff hn hi]

/-- What a registry has had up to now does not change. -/
theorem got_concat_iff (hn : Named calls) (hi : i < calls.countP RegistryCall.makes)
    (ht : t < calls.length) : Got (calls ++ [c]) i name t ↔ Got calls i name t := by
  unfold Got
  simp only [List.getElem?_append_left ht, descends_concat_iff hn hi]
  refine exists_congr fun j => and_congr_right fun hcall => and_congr_right fun _ => ?_
  have hj := hn.countP_take_le hcall rfl
  exact forall₂_congr fun u hu => not_congr (heard_concat_iff hn hj (by omega))

theorem Got.lt (hn : Named calls) (h : Got calls i name t) :
    i < calls.countP RegistryCall.makes := by
  obtain ⟨j, hcall, hd, -⟩ := h
  exact hd.lt (hn.countP_take_le hcall rfl)

/-- A registry that was not there before is a copy. -/
theorem Descends.exists_clone (h : Descends (calls ++ [c]) t j i)
    (hj : j < calls.countP RegistryCall.makes) (hi : ¬ i < calls.countP RegistryCall.makes) :
    ∃ k, c = .clone k ∧ Descends (calls ++ [c]) t j k := by
  cases h with
  | self => exact absurd hj hi
  | @clone _ _ k _ hclone hcount hd =>
      rcases getElem?_concat_iff.1 hclone with hclone | ⟨-, he⟩
      · have hlt := (List.getElem?_eq_some_iff.1 hclone).1
        rw [List.take_append_of_le_length (by omega)] at hcount
        exact absurd (hcount ▸ countP_take_lt hclone) hi
      · exact ⟨k, he, hd⟩

/-- A call that interns nothing is no moment at which a name is had from. -/
theorem Got.lt_length_of_makes (h : Got (calls ++ [c]) i name t) (hc : c.makes) :
    t < calls.length := by
  obtain ⟨j, hcall, -⟩ := h
  rcases getElem?_concat_iff.1 hcall with hcall | ⟨-, rfl⟩
  · exact (List.getElem?_eq_some_iff.1 hcall).1
  · cases hc

/-- **A new registry has no names**, and the others have theirs from where they had them. -/
theorem got_new_iff (hn : Named calls) :
    Got (calls ++ [.new]) i name t ↔ Got calls i name t := by
  by_cases hi : i < calls.countP RegistryCall.makes
  · constructor
    · exact fun h => (got_concat_iff hn hi (h.lt_length_of_makes rfl)).1 h
    · exact fun h => (got_concat_iff hn hi h.lt_length).2 h
  · refine iff_of_false ?_ fun h => hi (h.lt hn)
    rintro ⟨j, hcall, hd, -⟩
    rcases getElem?_concat_iff.1 hcall with hcall | ⟨-, he⟩
    · -- no copy has been made by the new call
      obtain ⟨k, he, -⟩ := hd.exists_clone (hn.countP_take_le hcall rfl) hi
      cases he
    · cases he

/-- **A copy has the names of its original, from where that has them.** -/
theorem got_clone_iff (hn : Named calls) (hk : k < calls.countP RegistryCall.makes) :
    Got (calls ++ [.clone k]) i name t ↔
      Got calls i name t ∨ i = calls.countP RegistryCall.makes ∧ Got calls k name t := by
  rcases Nat.lt_trichotomy i (calls.countP RegistryCall.makes) with hi | rfl | hi
  · refine Iff.trans ?_ (or_iff_left fun he => by omega).symm
    constructor
    · exact fun h => (got_concat_iff hn hi (h.lt_length_of_makes rfl)).1 h
    · exact fun h => (got_concat_iff hn hi h.lt_length).2 h
  · have hfirst : ∀ {j}, calls[t]? = some (.intern j name) → t < calls.length →
        ((∀ u < t, ¬ Heard (calls ++ [.clone k]) j name u) ↔ ∀ u < t, ¬ Heard calls j name u) :=
      fun hcall ht => forall₂_congr fun u hu =>
        not_congr (heard_concat_iff hn (hn.countP_take_le hcall rfl) (by omega))
    refine Iff.trans ?_ (or_iff_right fun h => Nat.lt_irrefl _ (h.lt hn)).symm
    rw [and_iff_right rfl]
    constructor
    · intro h
      have ht := h.lt_length_of_makes rfl
      obtain ⟨j, hcall, hd, hbefore⟩ := h
      rw [List.getElem?_append_left ht] at hcall
      refine ⟨j, hcall, ?_, (hfirst hcall ht).1 hbefore⟩
      obtain ⟨k', he, hd⟩ := hd.exists_clone (hn.countP_take_le hcall rfl) (Nat.lt_irrefl _)
      obtain rfl := RegistryCall.clone.inj he
      exact (descends_concat_iff hn hk).1 hd
    · intro h
      have ht := h.lt_length
      obtain ⟨j, hcall, hd, hbefore⟩ := h
      refine ⟨j, getElem?_concat_iff.2 (Or.inl hcall), ?_, (hfirst hcall ht).2 hbefore⟩
      exact Descends.clone ht (getElem?_concat_iff.2 (Or.inr ⟨rfl, rfl⟩)) (by rw [List.take_left])
        ((descends_concat_iff hn hk).2 hd)
  · refine iff_of_false (fun h => ?_) ?_
    · have hn' : Named (calls ++ [.clone k]) :=
        named_concat_iff.2 ⟨hn, fun i hi => by cases hi; exact hk⟩
      have := h.lt hn'
      simp only [List.countP_append, List.countP_singleton, RegistryCall.makes, if_true] at this
      omega
    · rintro (h | ⟨he, -⟩)
      · have := h.lt hn
        omega
      · omega

/-- **A name that a registry has not heard of is had from now on**, and one that it has heard of is
had from where it was had before. -/
theorem got_intern_iff (hn : Named calls) (hk : k < calls.countP RegistryCall.makes) :
    Got (calls ++ [.intern k other]) i name t ↔ Got calls i name t ∨
      t = calls.length ∧ i = k ∧ name = other ∧ ∀ u, ¬ Got calls k other u := by
  have hn' : Named (calls ++ [.intern k other]) :=
    named_concat_iff.2 ⟨hn, fun i hi => by cases hi; exact hk⟩
  have hcount : (calls ++ [RegistryCall.intern k other]).countP RegistryCall.makes =
      calls.countP RegistryCall.makes := by
    simp [List.countP_append, RegistryCall.makes]
  by_cases ht : t < calls.length
  · refine Iff.trans ?_ (or_iff_left fun he => by omega).symm
    by_cases hi : i < calls.countP RegistryCall.makes
    · exact got_concat_iff hn hi ht
    · exact iff_of_false (fun h => hi (hcount ▸ h.lt hn')) fun h => hi (h.lt hn)
  · refine Iff.trans ?_ (or_iff_right fun h => ht h.lt_length).symm
    have hfirst : (∀ u < calls.length, ¬ Heard (calls ++ [.intern k other]) k other u) ↔
        ∀ u, ¬ Got calls k other u := by
      constructor
      · intro h u hu
        exact h u hu.lt_length ((heard_concat_iff hn hk hu.lt_length).2 hu.heard)
      · intro h u hu hheard
        obtain ⟨v, -, hv⟩ := exists_got_of_heard ((heard_concat_iff hn hk hu).1 hheard)
        exact h v hv
    constructor
    · rintro ⟨j, hcall, hd, hbefore⟩
      rcases getElem?_concat_iff.1 hcall with hcall | ⟨rfl, he⟩
      · exact absurd (List.getElem?_eq_some_iff.1 hcall).1 ht
      · cases he
        obtain rfl := hd.eq_of_length_le (by simp)
        exact ⟨rfl, rfl, rfl, hfirst.1 hbefore⟩
    · rintro ⟨rfl, rfl, rfl, h⟩
      exact ⟨i, getElem?_concat_iff.2 (Or.inr ⟨rfl, rfl⟩), Descends.self, hfirst.2 h⟩

/-! ### The types that registries issue -/

namespace Registries

variable {w w' : Registries} {r : Registry} {ty ty' : NodeType} {σ : Nat → Nat}

theorem get?_eq_of_getElem? (h : w.all[i]? = some r) : w.get? i name = r.get? name := by
  rw [get?, h, Option.bind_some]

/-- A registry more. -/
theorem get?_append (w : Registries) (r : Registry) (i : Nat) (name : String) :
    get? { w with all := w.all ++ [r] } i name =
      if i = w.all.length then r.get? name else w.get? i name := by
  rcases Nat.lt_trichotomy i w.all.length with h | rfl | h
  · simp [get?, List.getElem?_append_left h, Nat.ne_of_lt h]
  · simp [get?]
  · rw [if_neg (by omega), get?, get?, List.getElem?_eq_none (by simp; omega),
      List.getElem?_eq_none (by omega)]

/-- A registry in place of another. -/
theorem get?_set (hk : k < w.all.length) (r : Registry) (s : TypeSupply) (i : Nat)
    (name : String) :
    get? ⟨w.all.set k r, s⟩ i name = if i = k then r.get? name else w.get? i name := by
  rw [get?, get?, List.getElem?_set]
  by_cases h : k = i
  · subst h
    simp [hk]
  · rw [if_neg h, if_neg fun e => h e.symm]

theorem step_clone_iff : w.step (.clone k) = some w' ↔
    ∃ r, w.all[k]? = some r ∧ { w with all := w.all ++ [r] } = w' := by
  rw [step, Option.map_eq_some_iff]

theorem step_intern_iff : w.step (.intern k other) = some w' ↔ ∃ r, w.all[k]? = some r ∧
    ⟨w.all.set k (r.intern other w.supply).registry, (r.intern other w.supply).supply⟩ = w' := by
  rw [step, Option.map_eq_some_iff]

/-- A name that a registry does not know is the only one that it gets. -/
theorem get?_set_intern (hr : w.all[k]? = some r) (hnone : r.get? other = none) (s : TypeSupply)
    (i : Nat) (name : String) :
    get? ⟨w.all.set k (r.intern other w.supply).registry, s⟩ i name =
      if i = k ∧ name = other then some ⟨other, w.supply.next⟩ else w.get? i name := by
  rw [get?_set (List.getElem?_eq_some_iff.1 hr).1]
  by_cases hnew : i = k ∧ name = other
  · obtain ⟨rfl, rfl⟩ := hnew
    rw [if_pos rfl, if_pos ⟨rfl, rfl⟩, Registry.get?_intern]
    simp [Registry.intern, hnone]
  · rw [if_neg hnew]
    split
    case isTrue hik =>
      subst hik
      rw [Registry.get?_intern_of_ne _ _ fun he => hnew ⟨rfl, he.symm⟩, get?_eq_of_getElem? hr]
    case isFalse => rfl

/-- Interning keeps the names of a registry apart. -/
theorem nodup_intern (hr : (r.types.map NodeType.name).Nodup) (hnone : r.get? other = none)
    (s : TypeSupply) : ((r.intern other s).registry.types.map NodeType.name).Nodup := by
  have hnames : (r.intern other s).registry.types.map NodeType.name =
      r.types.map NodeType.name ++ [other] := by
    simp [Registry.intern, hnone]
  rw [hnames]
  refine hr.append (List.nodup_singleton _) (List.disjoint_singleton.2 fun hmem => ?_)
  obtain ⟨ty, hty, hname⟩ := List.mem_map.1 hmem
  exact List.find?_eq_none.1 hnone ty hty (by simpa using hname)

/-- **What a registry has it keeps.** -/
theorem get?_of_step (hs : w.step c = some w') (h : w.get? i name = some ty) :
    w'.get? i name = some ty := by
  obtain ⟨r, hr, hty⟩ := Option.bind_eq_some_iff.1 h
  have hi := (List.getElem?_eq_some_iff.1 hr).1
  cases c with
  | new =>
      obtain rfl := Option.some.inj hs
      rwa [get?_append, if_neg (Nat.ne_of_lt hi)]
  | clone k =>
      obtain ⟨r', -, rfl⟩ := step_clone_iff.1 hs
      rwa [get?_append, if_neg (Nat.ne_of_lt hi)]
  | intern k other =>
      obtain ⟨r', hr', rfl⟩ := step_intern_iff.1 hs
      rw [get?_set (List.getElem?_eq_some_iff.1 hr').1]
      split
      case isTrue hik =>
        subst hik
        obtain rfl := Option.some.inj (hr'.symm.trans hr)
        by_cases hname : other = name
        · subst hname
          rw [Registry.intern_of_get? hty]
          exact hty
        · rwa [Registry.get?_intern_of_ne _ _ hname]
      case isFalse => exact h

/-- **Registries issue types as the history says**: what a registry has from moment `t` carries the
stamp `σ t`, and different moments have different stamps. -/
structure Traced (calls : List RegistryCall) (w : Registries) (σ : Nat → Nat) : Prop where
  named : Named calls
  length : w.all.length = calls.countP RegistryCall.makes
  get?_iff : ∀ {i name ty}, w.get? i name = some ty ↔ ∃ t, Got calls i name t ∧ ty = ⟨name, σ t⟩
  lt : ∀ {i name t}, Got calls i name t → σ t < w.supply.next
  inj : ∀ {i j name other t u}, Got calls i name t → Got calls j other u → σ t = σ u → t = u
  nodup : ∀ r ∈ w.all, (r.types.map NodeType.name).Nodup

namespace Traced

theorem nil : Traced [] ⟨[], ⟨0⟩⟩ id where
  named := by simp [Named]
  length := rfl
  get?_iff := by simp [get?, Got]
  lt := by simp [Got]
  inj := by simp [Got]
  nodup := by simp

variable (h : Traced calls w σ)

include h

theorem new : Traced (calls ++ [.new]) { w with all := w.all ++ [.empty] } σ where
  named := named_concat_iff.2 ⟨h.named, fun i hi => by cases hi⟩
  length := by simp [h.length, RegistryCall.makes]
  get?_iff := by
    intro i name ty
    rw [get?_append]
    simp only [got_new_iff h.named]
    split
    case isTrue hi =>
      refine iff_of_false (by simp [Registry.get?, Registry.empty]) ?_
      rintro ⟨t, hgot, -⟩
      have := hgot.lt h.named
      have := h.length
      omega
    case isFalse => exact h.get?_iff
  lt hgot := h.lt ((got_new_iff h.named).1 hgot)
  inj hgot hgot' := h.inj ((got_new_iff h.named).1 hgot) ((got_new_iff h.named).1 hgot')
  nodup := by
    intro r hr
    rcases List.mem_append.1 hr with hr | hr
    · exact h.nodup r hr
    · rw [List.mem_singleton.1 hr]
      exact List.nodup_nil

theorem clone (hr : w.all[k]? = some r) :
    Traced (calls ++ [.clone k]) { w with all := w.all ++ [r] } σ := by
  have hk : k < calls.countP RegistryCall.makes :=
    h.length ▸ (List.getElem?_eq_some_iff.1 hr).1
  have hiff : ∀ {i name t}, Got (calls ++ [.clone k]) i name t ↔
      Got calls i name t ∨ i = calls.countP RegistryCall.makes ∧ Got calls k name t :=
    got_clone_iff h.named hk
  -- a copy has nothing that its original has not
  have hold : ∀ {i name t}, Got (calls ++ [.clone k]) i name t → ∃ j, Got calls j name t := by
    intro i name t hgot
    rcases hiff.1 hgot with hgot | ⟨-, hgot⟩
    · exact ⟨i, hgot⟩
    · exact ⟨k, hgot⟩
  exact
    { named := named_concat_iff.2 ⟨h.named, fun i hi => by cases hi; exact hk⟩
      length := by simp [h.length, RegistryCall.makes]
      get?_iff := by
        intro i name ty
        rw [get?_append]
        simp only [hiff]
        split
        case isTrue hi =>
          have he := hi.trans h.length
          have hnone : ∀ t, ¬ Got calls i name t := fun t hgot =>
            Nat.lt_irrefl _ (he ▸ hgot.lt h.named)
          rw [← get?_eq_of_getElem? hr, h.get?_iff]
          simp only [hnone, false_or, and_iff_right he]
        case isFalse hi =>
          rw [h.get?_iff]
          simp only [← h.length, hi, false_and, or_false]
      lt := by
        intro i name t hgot
        obtain ⟨j, hgot⟩ := hold hgot
        exact h.lt hgot
      inj := by
        intro i j name other t u hgot hgot'
        obtain ⟨i', hgot⟩ := hold hgot
        obtain ⟨j', hgot'⟩ := hold hgot'
        exact h.inj hgot hgot'
      nodup := by
        intro r' hr'
        rcases List.mem_append.1 hr' with hr' | hr'
        · exact h.nodup r' hr'
        · rw [List.mem_singleton.1 hr']
          exact h.nodup r (List.mem_of_getElem? hr) }

/-- A name that is known is not issued again. -/
theorem intern_of_known (hr : w.all[k]? = some r) (hty : r.get? other = some ty) :
    Traced (calls ++ [.intern k other]) w σ := by
  have hk : k < calls.countP RegistryCall.makes :=
    h.length ▸ (List.getElem?_eq_some_iff.1 hr).1
  have hget : w.get? k other = some ty := (get?_eq_of_getElem? hr).trans hty
  obtain ⟨v, hv, -⟩ := h.get?_iff.1 hget
  have hiff : ∀ {i name t}, Got (calls ++ [.intern k other]) i name t ↔ Got calls i name t := by
    intro i name t
    refine (got_intern_iff h.named hk).trans (or_iff_left ?_)
    rintro ⟨-, -, -, hnone⟩
    exact hnone v hv
  exact
    { named := named_concat_iff.2 ⟨h.named, fun i hi => by cases hi; exact hk⟩
      length := by simp [h.length, RegistryCall.makes]
      get?_iff := by simp only [hiff]; exact h.get?_iff
      lt := fun hgot => h.lt (hiff.1 hgot)
      inj := fun hgot hgot' => h.inj (hiff.1 hgot) (hiff.1 hgot')
      nodup := h.nodup }

/-- A name that is not known gets a type that has not been there before. -/
theorem intern_of_unknown (hr : w.all[k]? = some r) (hnone : r.get? other = none) :
    Traced (calls ++ [.intern k other])
      ⟨w.all.set k (r.intern other w.supply).registry, (r.intern other w.supply).supply⟩
      (Function.update σ calls.length w.supply.next) := by
  have hkl := (List.getElem?_eq_some_iff.1 hr).1
  have hk : k < calls.countP RegistryCall.makes := h.length ▸ hkl
  have hfree : ∀ u, ¬ Got calls k other u := by
    intro u hu
    have hget := h.get?_iff.2 ⟨u, hu, rfl⟩
    rw [get?_eq_of_getElem? hr, hnone] at hget
    cases hget
  have hiff : ∀ {i name t}, Got (calls ++ [.intern k other]) i name t ↔ Got calls i name t ∨
      t = calls.length ∧ i = k ∧ name = other := by
    intro i name t
    rw [got_intern_iff h.named hk]
    simp only [hfree, not_false_eq_true, implies_true, and_true]
  have hold : ∀ {i name t}, Got calls i name t →
      Function.update σ calls.length w.supply.next t = σ t := fun hgot =>
    Function.update_of_ne (Nat.ne_of_lt hgot.lt_length) _ _
  have hsupply : (r.intern other w.supply).supply = ⟨w.supply.next + 1⟩ := by
    simp [Registry.intern, hnone]
  exact
    { named := named_concat_iff.2 ⟨h.named, fun i hi => by cases hi; exact hk⟩
      length := by simp [h.length, RegistryCall.makes]
      get?_iff := by
        intro i name ty
        rw [get?_set_intern hr hnone]
        split
        case isTrue hnew =>
          obtain ⟨rfl, rfl⟩ := hnew
          rw [Option.some_inj]
          simp only [hiff, hfree, false_or, and_true, exists_eq_left, Function.update_self]
          exact eq_comm
        case isFalse hnew =>
          rw [h.get?_iff]
          simp only [hiff, hnew, and_false, or_false]
          exact exists_congr fun t => and_congr_right fun hgot => by rw [hold hgot]
      lt := by
        intro i name t hgot
        rw [hsupply]
        rcases hiff.1 hgot with hgot | ⟨rfl, -⟩
        · rw [hold hgot]
          exact Nat.lt_succ_of_lt (h.lt hgot)
        · rw [Function.update_self]
          exact Nat.lt_succ_self _
      inj := by
        intro i j name name' t u hgot hgot' he
        rcases hiff.1 hgot with hgot | ⟨rfl, -⟩ <;> rcases hiff.1 hgot' with hgot' | ⟨rfl, -⟩
        · rw [hold hgot, hold hgot'] at he
          exact h.inj hgot hgot' he
        · rw [hold hgot, Function.update_self] at he
          exact absurd (h.lt hgot) (by omega)
        · rw [hold hgot', Function.update_self] at he
          exact absurd (h.lt hgot') (by omega)
        · rfl
      nodup := by
        intro r' hr'
        rcases List.mem_or_eq_of_mem_set hr' with hr' | rfl
        · exact h.nodup r' hr'
        · exact nodup_intern (h.nodup r (List.mem_of_getElem? hr)) hnone _ }

/-- **One more call.** -/
theorem step (hs : w.step c = some w') : ∃ σ', Traced (calls ++ [c]) w' σ' := by
  cases c with
  | new =>
      obtain rfl := Option.some.inj hs
      exact ⟨σ, h.new⟩
  | clone k =>
      obtain ⟨r, hr, rfl⟩ := step_clone_iff.1 hs
      exact ⟨σ, h.clone hr⟩
  | intern k other =>
      obtain ⟨r, hr, rfl⟩ := step_intern_iff.1 hs
      cases hty : r.get? other with
      | none => exact ⟨_, h.intern_of_unknown hr hty⟩
      | some ty =>
          have hset : w.all.set k r = w.all := by
            obtain ⟨hk, rfl⟩ := List.getElem?_eq_some_iff.1 hr
            exact List.set_getElem_self hk
          rw [Registry.intern_of_get? hty, hset]
          exact ⟨σ, h.intern_of_known hr hty⟩

end Traced

/-! ### Whole histories -/

theorem run_append (before after : List RegistryCall) :
    run (before ++ after) = (run before).bind fun w => after.foldlM step w :=
  List.foldlM_append

/-- A history up to one moment, and one call more. -/
theorem run_concat_iff : run (calls ++ [c]) = some w' ↔ ∃ w, run calls = some w ∧
    w.step c = some w' := by
  rw [run_append, Option.bind_eq_some_iff]
  simp

/-- **Every history is traced.** -/
theorem exists_traced (h : run calls = some w) : ∃ σ, Traced calls w σ := by
  induction calls using List.reverseRecOn generalizing w with
  | nil =>
      obtain rfl := Option.some.inj h
      exact ⟨id, Traced.nil⟩
  | append_singleton calls c ih =>
      obtain ⟨w₀, h₀, hs⟩ := run_concat_iff.1 h
      obtain ⟨σ, hσ⟩ := ih h₀
      exact hσ.step hs

theorem exists_run_take (h : run calls = some w) (t : Nat) :
    ∃ w', run (calls.take t) = some w' := by
  rw [← List.take_append_drop t calls, run_append, Option.bind_eq_some_iff] at h
  obtain ⟨w', h', -⟩ := h
  exact ⟨w', h'⟩

/-- What a registry has at one moment it has at every later one. -/
theorem get?_of_run_append {after : List RegistryCall} (h : run calls = some w)
    (h' : run (calls ++ after) = some w') (hty : w.get? i name = some ty) :
    w'.get? i name = some ty := by
  induction after using List.reverseRecOn generalizing w' with
  | nil =>
      rw [List.append_nil, h] at h'
      exact Option.some.inj h' ▸ hty
  | append_singleton after c ih =>
      rw [← List.append_assoc] at h'
      obtain ⟨w₁, h₁, hs⟩ := run_concat_iff.1 h'
      exact get?_of_step hs (ih h₁)

theorem get?_of_run_take (htu : t ≤ u) (h : run (calls.take t) = some w)
    (h' : run (calls.take u) = some w') (hty : w.get? i name = some ty) :
    w'.get? i name = some ty := by
  rw [← List.take_append_drop t (calls.take u), List.take_take, Nat.min_eq_left htu] at h'
  exact get?_of_run_append h h' hty

/-- **What interning a name answers is found at every later moment**, and interning it again answers
the same. -/
theorem answer_of_intern (h : run calls = some w) (hc : calls[t]? = some (.intern i name)) :
    ∃ w₀ ty, run (calls.take t) = some w₀ ∧ w₀.answer? (.intern i name) = some ty ∧
      ty.name = name ∧ ∀ u > t, ∃ w', run (calls.take u) = some w' ∧ w'.get? i name = some ty ∧
        w'.answer? (.intern i name) = some ty := by
  obtain ⟨w₁, h₁⟩ := exists_run_take h (t + 1)
  have hsplit : calls.take (t + 1) = calls.take t ++ [.intern i name] := by
    rw [List.take_add_one, hc]
    rfl
  obtain ⟨w₀, h₀, hs⟩ := run_concat_iff.1 (hsplit ▸ h₁)
  obtain ⟨r, hr, rfl⟩ := step_intern_iff.1 hs
  have hty := (get?_set (List.getElem?_eq_some_iff.1 hr).1 (r.intern name w₀.supply).registry
    (r.intern name w₀.supply).supply i name).trans (if_pos rfl)
  rw [Registry.get?_intern] at hty
  refine ⟨w₀, (r.intern name w₀.supply).type, h₀, by rw [answer?, hr]; rfl,
    Registry.name_of_get? (Registry.get?_intern r name _), fun u hu => ?_⟩
  obtain ⟨w', h'⟩ := exists_run_take h u
  have hty' := get?_of_run_take hu h₁ h' hty
  obtain ⟨r', hr', hfound⟩ := Option.bind_eq_some_iff.1 hty'
  exact ⟨w', h', hty', by rw [answer?, hr', Option.map_some, Registry.intern_of_get? hfound]⟩

/-- **Types are the same exactly if they come from the same moment.**  In every history, what
interning a name answers has that name, is answered again whenever the registry is asked again,
and is found from then on; a registry has as many types as there are names that it, or a registry
that it is a copy of, was asked for; and types that two registries have, whenever they are asked,
are equal if and only if they have the same name and both registries got it from the same first
intern, made on a registry that each of them is or has been copied from since. -/
theorem run_identity (h : run calls = some w) :
    (∀ (t : Nat) i name, calls[t]? = some (.intern i name) → ∃ w₀ ty,
      run (calls.take t) = some w₀ ∧ w₀.answer? (.intern i name) = some ty ∧ ty.name = name ∧
      ∀ u > t, ∃ w', run (calls.take u) = some w' ∧ w'.get? i name = some ty ∧
        w'.answer? (.intern i name) = some ty) ∧
    (∀ (i : Nat) r, w.all[i]? = some r → ∃ names : List String, names.Nodup ∧
      (∀ name, name ∈ names ↔ ∃ t, Heard calls i name t) ∧ r.size = names.length) ∧
    ∀ t u w₁ w₂ i j name other ty ty', run (calls.take t) = some w₁ →
      run (calls.take u) = some w₂ → w₁.get? i name = some ty → w₂.get? j other = some ty' →
      (ty = ty' ↔ name = other ∧ ∃ v, Got calls i name v ∧ Got calls j name v) := by
  obtain ⟨σ, hσ⟩ := exists_traced h
  refine ⟨fun t i name => answer_of_intern h, fun i r hr => ?_, ?_⟩
  · refine ⟨r.types.map NodeType.name, hσ.nodup r (List.mem_of_getElem? hr), fun name => ?_,
      (List.length_map _).symm⟩
    have hmem : name ∈ r.types.map NodeType.name ↔ ∃ ty, w.get? i name = some ty := by
      rw [get?_eq_of_getElem? hr, Registry.get?, ← Option.isSome_iff_exists, List.find?_isSome]
      simp
    rw [hmem]
    constructor
    · rintro ⟨ty, hty⟩
      obtain ⟨t, hgot, -⟩ := hσ.get?_iff.1 hty
      exact ⟨t, hgot.heard⟩
    · rintro ⟨t, hheard⟩
      obtain ⟨u, -, hgot⟩ := exists_got_of_heard hheard
      exact ⟨_, hσ.get?_iff.2 ⟨u, hgot, rfl⟩⟩
  · intro t u w₁ w₂ i j name other ty ty' h₁ h₂ hty hty'
    -- both types are there in the end
    have hend : ∀ {t w₁ i name ty}, run (calls.take t) = some w₁ → w₁.get? i name = some ty →
        w.get? i name = some ty := fun {t w₁ i name ty} h₁ hty => by
      rw [← List.take_append_drop t calls] at h
      exact get?_of_run_append h₁ h hty
    obtain ⟨v, hgot, rfl⟩ := hσ.get?_iff.1 (hend h₁ hty)
    obtain ⟨v', hgot', rfl⟩ := hσ.get?_iff.1 (hend h₂ hty')
    rw [NodeType.mk.injEq]
    constructor
    · rintro ⟨rfl, he⟩
      obtain rfl := hσ.inj hgot hgot' he
      exact ⟨rfl, v, hgot, hgot'⟩
    · rintro ⟨rfl, v₀, hgot₀, hgot₀'⟩
      have hsame : ∀ {i v}, Got calls i name v → Got calls i name v₀ → σ v = σ v₀ := by
        intro i v hv hv₀
        have h₁ := hσ.get?_iff.2 ⟨v, hv, rfl⟩
        rw [hσ.get?_iff.2 ⟨v₀, hv₀, rfl⟩] at h₁
        exact (NodeType.mk.inj (Option.some.inj h₁)).2.symm
      exact ⟨rfl, (hsame hgot hgot₀).trans (hsame hgot' hgot₀').symm⟩

/-- A name is interned before a registry is copied, another one in both registries after that. -/
def forked : List RegistryCall :=
  [.new, .intern 0 "list", .clone 0, .intern 0 "item", .intern 1 "item", .intern 1 "list"]

/-- The first name is one type in both registries, the second one is not. -/
theorem run_identity_forked : ∃ w list item item', run forked = some w ∧
    w.get? 0 "list" = some list ∧ w.get? 1 "list" = some list ∧
    w.get? 0 "item" = some item ∧ w.get? 1 "item" = some item' ∧
    (∃ v, Got forked 0 "list" v ∧ Got forked 1 "list" v) ∧
    ¬ ∃ v, Got forked 0 "item" v ∧ Got forked 1 "item" v := by
  obtain ⟨w, list, item, item', hrun, hlist, hlist', hitem, hitem', hne⟩ :
      ∃ w list item item', run forked = some w ∧ w.get? 0 "list" = some list ∧
        w.get? 1 "list" = some list ∧ w.get? 0 "item" = some item ∧
        w.get? 1 "item" = some item' ∧ item ≠ item' :=
    ⟨_, _, _, _, rfl, rfl, rfl, rfl, rfl, by decide⟩
  have htypes := (run_identity hrun).2.2 6 6 w w
  refine ⟨w, list, item, item', hrun, hlist, hlist', hitem, hitem', ?_, fun hv => hne ?_⟩
  · exact ((htypes _ _ _ _ _ _ hrun hrun hlist hlist').1 rfl).2
  · exact (htypes _ _ _ _ _ _ hrun hrun hitem hitem').2 ⟨rfl, hv⟩

end Registries

end TreeScript
