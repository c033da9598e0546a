import Mathlib

/-!
# Fallible computations

When a computation that may fail succeeds: for a sequence, for a check in front
of the rest, and for a loop; and what a loop that works in place leaves behind
when it fails.

`Agree` compares two computations: they fail with the same error, or succeed with
results that are related.
-/

namespace Fallible

variable {α β ε ε' σ τ : Type}

theorem exists_ok_of_isOk {result : Except ε α} (h : result.isOk = true) :
    ∃ a, result = .ok a := by
  rcases result with e | a
  · cases h
  · exact ⟨a, rfl⟩

theorem mapError_eq_ok_iff {f : ε → ε'} {result : Except ε α} {a : α} :
    result.mapError f = .ok a ↔ result = .ok a := by
  cases result <;> simp [Except.mapError]

theorem map_eq_ok_iff {f : α → β} {result : Except ε α} {b : β} :
    result.map f = .ok b ↔ ∃ a, result = .ok a ∧ f a = b := by
  cases result <;> simp [Except.map]

theorem ok_bind {a : α} {f : α → Except ε β} : ((Except.ok a : Except ε α) >>= f) = f a := rfl

theorem bind_eq_ok_iff {result : Except ε α} {f : α → Except ε β} {b : β} :
    (result >>= f) = .ok b ↔ ∃ a, result = .ok a ∧ f a = .ok b := by
  cases result <;> simp [bind, Except.bind]

/-- A check in front of a computation. -/
theorem check_bind_eq_ok_iff {check : Except ε Unit} {rest : Unit → Except ε α} {a : α} :
    (check >>= rest) = .ok a ↔ check = .ok () ∧ rest () = .ok a := by
  rcases check with e | ⟨⟩ <;> simp [bind, Except.bind]

theorem pure_eq_ok_iff {a b : α} : (pure a : Except ε α) = .ok b ↔ b = a := by
  simp [pure, Except.pure, eq_comm]

/-- A check that throws, in front of the rest. -/
theorem guard_eq_ok_iff {p : Prop} [Decidable p] {e : ε} {dead : β → Except ε α}
    {rest : Except ε α} {a : α} :
    (if p then ((throw e : Except ε β) >>= dead) else rest) = .ok a ↔ ¬ p ∧ rest = .ok a := by
  by_cases h : p
  · simp [h, throw, throwThe, MonadExceptOf.throw, bind, Except.bind]
  · simp [h]

/-- A relation that every successful step respects holds across the loop. -/
theorem foldlM_except_ok {step : σ → τ → Except ε σ} {P : σ → σ → Prop}
    (hrefl : ∀ s, P s s) (htrans : ∀ {a b c}, P a b → P b c → P a c)
    (hstep : ∀ {s s' t}, step s t = .ok s' → P s s') {l : List τ} {s s' : σ}
    (h : l.foldlM step s = .ok s') : P s s' := by
  induction l generalizing s with
  | nil =>
      cases h
      exact hrefl _
  | cons t l ih =>
      rw [List.foldlM_cons, bind_eq_ok_iff] at h
      obtain ⟨s₁, hs, hrest⟩ := h
      exact htrans (hstep hs) (ih hrest)

/-- A loop whose step succeeds on some entries and is a function there. -/
theorem foldlM_eq_ok_iff {step : σ → τ → Except ε σ} {P : τ → Prop} {f : σ → τ → σ}
    (hstep : ∀ acc e acc', step acc e = .ok acc' ↔ P e ∧ acc' = f acc e) (l : List τ)
    (acc result : σ) :
    l.foldlM step acc = .ok result ↔ (∀ e ∈ l, P e) ∧ result = l.foldl f acc := by
  induction l generalizing acc with
  | nil => simp [pure, Except.pure, eq_comm]
  | cons e rest ih =>
      rw [List.foldlM_cons, List.foldl_cons, List.forall_mem_cons]
      rcases hs : step acc e with err | next
      · have hnot : ¬ P e := fun hP => by
          have := (hstep acc e (f acc e)).mpr ⟨hP, rfl⟩
          rw [hs] at this
          cases this
        simp [bind, Except.bind, hnot]
      · obtain ⟨hP, rfl⟩ := (hstep acc e next).mp hs
        simp only [bind, Except.bind, ih, hP, true_and]

/-! ## Loops over a value changed in place -/

/-- Where a step fails the loop ends, with what the steps before it left. -/
def foldlUntil (step : σ → τ → Except ε σ) : σ → List τ → σ × Option ε
  | s, [] => (s, none)
  | s, t :: l =>
      match step s t with
      | .ok s' => foldlUntil step s' l
      | .error e => (s, some e)

theorem foldlM_eq_ok_iff_foldlUntil {step : σ → τ → Except ε σ} {l : List τ} {s s' : σ} :
    l.foldlM step s = .ok s' ↔ foldlUntil step s l = (s', none) := by
  induction l generalizing s with
  | nil => simp [foldlUntil, pure, Except.pure]
  | cons t l ih =>
      rw [List.foldlM_cons, foldlUntil]
      rcases step s t with e | s₁
      · simp [bind, Except.bind]
      · exact ih

theorem foldlM_eq_error_iff_foldlUntil {step : σ → τ → Except ε σ} {l : List τ} {s : σ} {e : ε} :
    l.foldlM step s = .error e ↔ (foldlUntil step s l).2 = some e := by
  induction l generalizing s with
  | nil => simp [foldlUntil, pure, Except.pure]
  | cons t l ih =>
      rw [List.foldlM_cons, foldlUntil]
      rcases step s t with e' | s₁
      · simp [bind, Except.bind]
      · exact ih

theorem foldlUntil_inv {step : σ → τ → Except ε σ} {P : σ → Prop}
    (hstep : ∀ s t s', step s t = .ok s' → P s → P s') {s : σ} (hs : P s) (l : List τ) :
    P (foldlUntil step s l).1 := by
  induction l generalizing s with
  | nil => exact hs
  | cons t l ih =>
      rw [foldlUntil]
      rcases h : step s t with e | s'
      · exact hs
      · exact ih (hstep s t s' h hs)

/-! ## Two computations side by side -/

inductive Agree (R : α → β → Prop) : Except ε α → Except ε β → Prop
  | ok {a : α} {b : β} (h : R a b) : Agree R (.ok a) (.ok b)
  | error (e : ε) : Agree R (.error e) (.error e)

theorem Agree.refl (result : Except ε α) : Agree Eq result result := by
  cases result with
  | ok a => exact .ok rfl
  | error e => exact .error e

theorem Agree.mapError {R : α → β → Prop} {x : Except ε α} {y : Except ε β} (h : Agree R x y)
    (f : ε → ε') : Agree R (x.mapError f) (y.mapError f) := by
  cases h with
  | ok h => exact .ok h
  | error e => exact .error (f e)

theorem Agree.bind {α' β' : Type} {R : α → β → Prop} {S : α' → β' → Prop} {x : Except ε α}
    {y : Except ε β} {f : α → Except ε α'} {g : β → Except ε β'} (h : Agree R x y)
    (hfg : ∀ a b, R a b → Agree S (f a) (g b)) : Agree S (x >>= f) (y >>= g) := by
  cases h with
  | ok h => exact hfg _ _ h
  | error e => exact .error e

theorem Agree.foldlM {R : α → β → Prop} {f : α → τ → Except ε α} {g : β → τ → Except ε β}
    (hstep : ∀ a b t, R a b → Agree R (f a t) (g b t)) (l : List τ) {a : α} {b : β} (h : R a b) :
    Agree R (l.foldlM f a) (l.foldlM g b) := by
  induction l generalizing a b with
  | nil => exact .ok h
  | cons t l ih =>
      rw [List.foldlM_cons, List.foldlM_cons]
      exact (hstep a b t h).bind fun a' b' h' => ih h'

theorem Agree.exists_ok {R : α → β → Prop} {x : Except ε α} {y : Except ε β} (h : Agree R x y)
    {a : α} (hx : x = .ok a) : ∃ b, y = .ok b ∧ R a b := by
  cases h with
  | ok h =>
      cases hx
      exact ⟨_, rfl, h⟩
  | error e => cases hx

end Fallible
