import Mathlib

/-!
# Loops

A turn of a loop goes on with another state, or the loop is over.  `Ends` is the loop
without a bound on its turns; `run` takes as many turns as it is given, which are enough
where each turn lowers a measure.
-/

namespace Loop

variable {σ : Type} {turn : σ → Option σ} {s t u : σ}

inductive Ends (turn : σ → Option σ) : σ → σ → Prop
  | exit {s : σ} : turn s = none → Ends turn s s
  | step {s t u : σ} : turn s = some t → Ends turn t u → Ends turn s u

def run (turn : σ → Option σ) : Nat → σ → σ
  | 0, s => s
  | fuel + 1, s =>
      match turn s with
      | some t => run turn fuel t
      | none => s

theorem Ends.unique (h : Ends turn s t) (h' : Ends turn s u) : t = u := by
  induction h with
  | exit hover =>
      cases h' with
      | exit => rfl
      | step hturn =>
          rw [hover] at hturn
          cases hturn
  | step hturn _ ih =>
      cases h' with
      | exit hover =>
          rw [hover] at hturn
          cases hturn
      | step hturn' hrest =>
          rw [hturn] at hturn'
          cases hturn'
          exact ih hrest

/-- What every turn keeps holds where the loop ends. -/
theorem Ends.keeps {I : σ → Prop} (hturn : ∀ s t, turn s = some t → I s → I t)
    (h : Ends turn s u) (hs : I s) : I u := by
  induction h with
  | exit => exact hs
  | step hnext _ ih => exact ih (hturn _ _ hnext hs)

/-- A loop whose turns lower a measure ends, within as many turns as the measure says. -/
theorem ends_run {I : σ → Prop} {m : σ → Nat}
    (hturn : ∀ s t, turn s = some t → I s → I t ∧ m t < m s) {fuel : Nat} (hs : I s)
    (hfuel : m s ≤ fuel) : Ends turn s (run turn fuel s) := by
  induction fuel generalizing s with
  | zero =>
      rcases hnext : turn s with _ | t
      · exact .exit hnext
      · have := (hturn s t hnext hs).2
        omega
  | succ fuel ih =>
      rw [run]
      rcases hnext : turn s with _ | t
      · exact .exit hnext
      · obtain ⟨ht, hlower⟩ := hturn s t hnext hs
        exact .step hnext (ih ht (by omega))

end Loop
