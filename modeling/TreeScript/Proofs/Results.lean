/-
**Computations that may fail.**

A loop over a list that may fail at each step is handled by an invariant, which speaks about the
part of the list that is done.  Two computations are compared by a relation between their results.

Main definitions:

* `TreeScript.Follows` — whenever one computation succeeds, so does another, with a related
  result.

Main results:

* `TreeScript.bind_eq_ok`, `TreeScript.bind_eq_error` — two steps, one after the other;
* `TreeScript.map_eq_ok`, `TreeScript.map_eq_error` — a step whose answer is changed;
* `TreeScript.foldlM_ok` — **a loop whose steps succeed under the invariant succeeds**;
* `TreeScript.foldl_invariant` — a loop that cannot fail;
* `TreeScript.foldlM_invariant` — what every step of a loop that succeeds has kept;
* `TreeScript.foldlM_eq_error_iff` — **a loop fails at the first step that does**;
* `TreeScript.Follows.bind`, `TreeScript.Follows.foldlM` — following step by step.
-/

set_option relaxedAutoImplicit false
set_option autoImplicit false

namespace TreeScript

variable {ε σ τ : Type}

/-- A computation succeeds if its first part does, and the rest does with the answer. -/
theorem bind_eq_ok {x : Except ε σ} {f : σ → Except ε τ} {b : τ} :
    (x >>= f) = .ok b ↔ ∃ a, x = .ok a ∧ f a = .ok b := by
  cases x with
  | error e =>
      constructor
      · intro h
        cases h
      · rintro ⟨a, h, -⟩
        cases h
  | ok a =>
      constructor
      · intro h
        exact ⟨a, rfl, h⟩
      · rintro ⟨a', h, hf⟩
        cases h
        exact hf

/-- A computation fails if its first part does, or if the rest does with the answer. -/
theorem bind_eq_error {x : Except ε σ} {f : σ → Except ε τ} {e : ε} :
    (x >>= f) = .error e ↔ x = .error e ∨ ∃ a, x = .ok a ∧ f a = .error e := by
  cases x with
  | error e' =>
      constructor
      · intro h
        cases h
        exact Or.inl rfl
      · rintro (h | ⟨a, h, -⟩)
        · cases h
          rfl
        · cases h
  | ok a =>
      constructor
      · exact fun h => Or.inr ⟨a, rfl, h⟩
      · rintro (h | ⟨a', h, hf⟩)
        · cases h
        · cases h
          exact hf

theorem pure_eq_ok {a b : σ} : (pure a : Except ε σ) = .ok b ↔ a = b :=
  ⟨fun h => Except.ok.inj h, fun h => congrArg Except.ok h⟩

theorem bind_ok (a : σ) (f : σ → Except ε τ) : ((.ok a : Except ε σ) >>= f) = f a := rfl

/-- A computation with a changed answer succeeds if it does itself, -/
theorem map_eq_ok {x : Except ε σ} {f : σ → τ} {b : τ} :
    x.map f = .ok b ↔ ∃ a, x = .ok a ∧ f a = b := by
  cases x <;> simp [Except.map]

/-- and fails as it does itself. -/
theorem map_eq_error {x : Except ε σ} {f : σ → τ} {e : ε} : x.map f = .error e ↔ x = .error e := by
  cases x <;> simp [Except.map]

/-- **A loop whose steps succeed under the invariant succeeds.** -/
theorem foldlM_ok {f : σ → τ → Except ε σ} {l : List τ} {s : σ} (P : List τ → σ → Prop)
    (init : P [] s)
    (step : ∀ l₁ x l₂ s, l = l₁ ++ x :: l₂ → P l₁ s → ∃ s', f s x = .ok s' ∧ P (l₁ ++ [x]) s') :
    ∃ s', l.foldlM f s = .ok s' ∧ P l s' := by
  -- the list is taken apart behind the part that is done
  have go : ∀ l₂ l₁ s, l = l₁ ++ l₂ → P l₁ s → ∃ s', l₂.foldlM f s = .ok s' ∧ P l s' := by
    intro l₂
    induction l₂ with
    | nil =>
        intro l₁ s hl hs
        rw [List.append_nil] at hl
        exact ⟨s, rfl, hl ▸ hs⟩
    | cons x l₂ ih =>
        intro l₁ s hl hs
        obtain ⟨s', hf, hs'⟩ := step l₁ x l₂ s hl hs
        obtain ⟨s'', hl', hs''⟩ := ih (l₁ ++ [x]) s' (by simp [hl]) hs'
        refine ⟨s'', ?_, hs''⟩
        rw [List.foldlM_cons, hf, bind_ok, hl']
  exact go l [] s rfl init

/-- What holds at the beginning and is kept at each element holds in the end. -/
theorem foldl_invariant {f : σ → τ → σ} {l : List τ} {s : σ} (P : List τ → σ → Prop)
    (init : P [] s)
    (step : ∀ l₁ x l₂ s, l = l₁ ++ x :: l₂ → P l₁ s → P (l₁ ++ [x]) (f s x)) :
    P l (l.foldl f s) := by
  obtain ⟨s', hs', h⟩ := foldlM_ok (ε := Empty) (f := fun s x => pure (f s x)) P init
    fun l₁ x l₂ s hl hs => ⟨f s x, rfl, step l₁ x l₂ s hl hs⟩
  rw [List.foldlM_pure] at hs'
  obtain rfl := pure_eq_ok.1 hs'
  exact h

/-- What every step of a loop keeps holds in the end. -/
theorem foldlM_invariant {f : σ → τ → Except ε σ} {l : List τ} {s s' : σ} (P : σ → Prop)
    (step : ∀ s s' x, x ∈ l → P s → f s x = .ok s' → P s') (h : l.foldlM f s = .ok s')
    (hs : P s) : P s' := by
  induction l generalizing s with
  | nil =>
      obtain rfl := Except.ok.inj h
      exact hs
  | cons x l ih =>
      rw [List.foldlM_cons, bind_eq_ok] at h
      obtain ⟨s₁, h₁, h⟩ := h
      exact ih (fun s s' y hy => step s s' y (List.mem_cons_of_mem x hy)) h
        (step s s₁ x List.mem_cons_self hs h₁)

/-- **A loop fails at the first step that does**, and as this one does. -/
theorem foldlM_eq_error_iff {f : σ → τ → Except ε σ} {l : List τ} {s : σ} {e : ε} :
    l.foldlM f s = .error e ↔ ∃ before x after s', l = before ++ x :: after ∧
      before.foldlM f s = .ok s' ∧ f s' x = .error e := by
  constructor
  · intro h
    induction l generalizing s with
    | nil => cases h
    | cons y l ih =>
        rw [List.foldlM_cons] at h
        cases hy : f s y with
        | error e' =>
            rw [hy] at h
            exact ⟨[], y, l, s, rfl, rfl, hy.trans h⟩
        | ok s₁ =>
            rw [hy, bind_ok] at h
            obtain ⟨before, x, after, s', rfl, hbefore, hx⟩ := ih h
            exact ⟨y :: before, x, after, s', rfl, by rw [List.foldlM_cons, hy, bind_ok, hbefore],
              hx⟩
  · rintro ⟨before, x, after, s', rfl, hbefore, hx⟩
    rw [List.foldlM_append, hbefore, bind_ok, List.foldlM_cons, hx]
    rfl

/-! ### Two computations -/

/-- **The second computation follows the first**: whenever the first succeeds, so does the second,
with a related result. -/
def Follows {υ : Type} (R : σ → υ → Prop) (x : Except ε σ) (y : Except ε υ) : Prop :=
  ∀ a, x = .ok a → ∃ b, y = .ok b ∧ R a b

namespace Follows

variable {υ ω : Type} {R : σ → υ → Prop} {S : τ → ω → Prop} {x : Except ε σ} {y : Except ε υ}

theorem ok {a : σ} {b : υ} (h : R a b) : Follows R (.ok a : Except ε σ) (.ok b : Except ε υ) := by
  intro a' ha
  obtain rfl := Except.ok.inj ha
  exact ⟨b, rfl, h⟩

theorem error (e : ε) (y : Except ε υ) : Follows R (.error e : Except ε σ) y := by
  intro a ha
  cases ha

theorem refl (x : Except ε σ) : Follows Eq x x := fun a ha => ⟨a, ha, rfl⟩

/-- What has the image of a result follows it. -/
theorem map (f : σ → υ) (x : Except ε σ) : Follows (fun a b => b = f a) x (x.map f) := by
  rintro a rfl
  exact ⟨f a, rfl, rfl⟩

theorem imp {R' : σ → υ → Prop} (h : Follows R x y) (hR : ∀ a b, R a b → R' a b) :
    Follows R' x y := by
  intro a ha
  obtain ⟨b, hb, hab⟩ := h a ha
  exact ⟨b, hb, hR a b hab⟩

/-- Two steps, one after the other. -/
theorem bind {f : σ → Except ε τ} {g : υ → Except ε ω} (h : Follows R x y)
    (hf : ∀ a b, x = .ok a → R a b → Follows S (f a) (g b)) : Follows S (x >>= f) (y >>= g) := by
  intro a ha
  obtain ⟨a₁, ha₁, ha⟩ := bind_eq_ok.1 ha
  obtain ⟨b₁, hb₁, h₁⟩ := h a₁ ha₁
  obtain ⟨b, hb, hab⟩ := hf a₁ b₁ ha₁ h₁ a ha
  exact ⟨b, by rw [hb₁, bind_ok, hb], hab⟩

/-- **Loops follow each other if their turns do.** -/
theorem foldlM {f : σ → τ → Except ε σ} {g : υ → ω → Except ε υ} (k : τ → ω) {l : List τ} {a : σ}
    {b : υ} (init : R a b)
    (step : ∀ l₁ t l₂ a' b', l = l₁ ++ t :: l₂ → l₁.foldlM f a = .ok a' → R a' b' →
      Follows R (f a' t) (g b' (k t))) : Follows R (l.foldlM f a) ((l.map k).foldlM g b) := by
  -- the list is taken apart behind the part that is done
  have go : ∀ l₂ l₁ a' b', l = l₁ ++ l₂ → l₁.foldlM f a = .ok a' → R a' b' →
      Follows R (l₂.foldlM f a') ((l₂.map k).foldlM g b') := by
    intro l₂
    induction l₂ with
    | nil => exact fun _ _ _ _ _ h => ok h
    | cons t l₂ ih =>
        intro l₁ a' b' hl hrun h
        rw [List.foldlM_cons, List.map_cons, List.foldlM_cons]
        refine (step l₁ t l₂ a' b' hl hrun h).bind fun a'' b'' ht h' => ?_
        refine ih (l₁ ++ [t]) a'' b'' (by simp [hl]) ?_ h'
        rw [List.foldlM_append, hrun, bind_ok, List.foldlM_cons, ht]
        rfl
  exact go l [] a b rfl rfl init

end Follows

end TreeScript
