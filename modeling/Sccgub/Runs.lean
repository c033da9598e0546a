import Mathlib

/-!
# Runs

A machine that takes one step for each input, over a list of inputs.  `Along` is
a condition on every step of a run, taken in the state before the step;
`Throughout` is a property of every state of the run, the first and the last
included.
-/

namespace Runs

variable {σ ι : Type} {step : σ → ι → σ} {C : σ → ι → Prop} {I : σ → Prop}

def Along (step : σ → ι → σ) (C : σ → ι → Prop) : σ → List ι → Prop
  | _, [] => True
  | s, op :: ops => C s op ∧ Along step C (step s op) ops

instance decidableAlong [∀ s op, Decidable (C s op)] :
    (s : σ) → (ops : List ι) → Decidable (Along step C s ops)
  | _, [] => .isTrue trivial
  | s, op :: ops =>
      have := decidableAlong (step s op) ops
      inferInstanceAs (Decidable (_ ∧ _))

def Throughout (step : σ → ι → σ) (I : σ → Prop) : σ → List ι → Prop
  | s, [] => I s
  | s, op :: ops => I s ∧ Throughout step I (step s op) ops

instance decidableThroughout [∀ s, Decidable (I s)] :
    (s : σ) → (ops : List ι) → Decidable (Throughout step I s ops)
  | s, [] => inferInstanceAs (Decidable (I s))
  | s, op :: ops =>
      have := decidableThroughout (step s op) ops
      inferInstanceAs (Decidable (_ ∧ _))

theorem along_append {s : σ} {ops ops' : List ι} :
    Along step C s (ops ++ ops') ↔ Along step C s ops ∧ Along step C (ops.foldl step s) ops' := by
  induction ops generalizing s with
  | nil => simp [Along]
  | cons op ops ih =>
      rw [List.cons_append, List.foldl_cons]
      exact ⟨fun h => ⟨⟨h.1, (ih.mp h.2).1⟩, (ih.mp h.2).2⟩,
        fun h => ⟨h.1.1, ih.mpr ⟨h.1.2, h.2⟩⟩⟩

theorem along_of_forall {D : ι → Prop} {s : σ} {ops : List ι} (hD : ∀ op ∈ ops, D op) :
    Along step (fun _ op => D op) s ops := by
  induction ops generalizing s with
  | nil => trivial
  | cons op ops ih =>
      obtain ⟨hop, hrest⟩ := List.forall_mem_cons.mp hD
      exact ⟨hop, ih hrest⟩

theorem Along.and_of_forall {D : ι → Prop} {s : σ} {ops : List ι} (h : Along step C s ops)
    (hD : ∀ op ∈ ops, D op) : Along step (fun s op => C s op ∧ D op) s ops := by
  induction ops generalizing s with
  | nil => trivial
  | cons op ops ih =>
      obtain ⟨hop, hrest⟩ := List.forall_mem_cons.mp hD
      exact ⟨⟨h.1, hop⟩, ih h.2 hrest⟩

theorem Throughout.first {s : σ} {ops : List ι} (h : Throughout step I s ops) : I s := by
  cases ops with
  | nil => exact h
  | cons op ops => exact h.1

theorem Throughout.last {s : σ} {ops : List ι} (h : Throughout step I s ops) :
    I (ops.foldl step s) := by
  induction ops generalizing s with
  | nil => exact h
  | cons op ops ih => exact ih h.2

theorem Throughout.mono {J : σ → Prop} (hIJ : ∀ s, I s → J s) {s : σ} {ops : List ι}
    (h : Throughout step I s ops) : Throughout step J s ops := by
  induction ops generalizing s with
  | nil => exact hIJ s h
  | cons op ops ih => exact ⟨hIJ s h.1, ih h.2⟩

/-- A step that keeps the invariant under its condition keeps it throughout a
run that meets the condition. -/
theorem throughout_of_along (hstep : ∀ s op, I s → C s op → I (step s op)) {s : σ} {ops : List ι}
    (h : I s) (halong : Along step C s ops) : Throughout step I s ops := by
  induction ops generalizing s with
  | nil => exact h
  | cons op ops ih => exact ⟨h, ih (hstep s op h halong.1) halong.2⟩

theorem throughout_of_step (hstep : ∀ s op, I s → I (step s op)) {s : σ} {ops : List ι} (h : I s) :
    Throughout step I s ops := by
  induction ops generalizing s with
  | nil => exact h
  | cons op ops ih => exact ⟨h, ih (hstep s op h)⟩

/-- Where a condition is exact for one step it is exact for a run, under an
invariant that the run keeps. -/
theorem throughout_iff_along_of {J : σ → Prop} {D : σ → ι → Prop}
    (hkeep : ∀ s op, J s → D s op → J (step s op))
    (hstep : ∀ s op, J s → D s op → I s → (I (step s op) ↔ C s op)) {s : σ} {ops : List ι}
    (hJ : J s) (hD : Along step D s ops) (h : I s) :
    Throughout step I s ops ↔ Along step C s ops := by
  induction ops generalizing s with
  | nil => exact ⟨fun _ => trivial, fun _ => h⟩
  | cons op ops ih =>
      have hnextJ := hkeep s op hJ hD.1
      constructor
      · rintro ⟨-, hrest⟩
        have hnext : I (step s op) := hrest.first
        exact ⟨(hstep s op hJ hD.1 h).mp hnext, (ih hnextJ hD.2 hnext).mp hrest⟩
      · rintro ⟨hop, hrest⟩
        have hnext : I (step s op) := (hstep s op hJ hD.1 h).mpr hop
        exact ⟨h, (ih hnextJ hD.2 hnext).mpr hrest⟩

theorem along_true {s : σ} {ops : List ι} : Along step (fun _ _ => True) s ops := by
  induction ops generalizing s with
  | nil => trivial
  | cons op ops ih => exact ⟨trivial, ih⟩

/-- Where the condition is exact for one step it is exact for a run. -/
theorem throughout_iff_along (hstep : ∀ s op, I s → (I (step s op) ↔ C s op)) {s : σ}
    {ops : List ι} (h : I s) : Throughout step I s ops ↔ Along step C s ops :=
  throughout_iff_along_of (J := fun _ => True) (fun _ _ _ _ => trivial)
    (fun s op _ _ => hstep s op) trivial along_true h

/-- An invariant that the steps keep under their conditions, and what each step
does from it. -/
theorem along_of_invariant {J : σ → Prop} {D : σ → ι → Prop}
    (hkeep : ∀ s op, J s → D s op → J (step s op)) (hstep : ∀ s op, J s → D s op → C s op) {s : σ}
    {ops : List ι} (hJ : J s) (hD : Along step D s ops) : Along step C s ops := by
  induction ops generalizing s with
  | nil => trivial
  | cons op ops ih => exact ⟨hstep s op hJ hD.1, ih (hkeep s op hJ hD.1) hD.2⟩

end Runs
