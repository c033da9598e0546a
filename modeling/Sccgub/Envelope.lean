import Mathlib
import Sccgub.Runs

/-!
# Spending envelopes

A record that lets calls spend from a budget, at most so many of them, until its
counters are reset.  Its sums saturate.

A run keeps, beside the record, the amounts spent since the last reset.  What the
envelope promises is stated of these; where the record admits a call, the promise
holds if the amount is not negative, the sum does not saturate, the record is
alive and the limit is not reached.
-/

/-- A record with its calls, and the laws of the two outcomes of a call. -/
structure Envelope (ρ κ : Type) where
  call : ρ → κ → Except String Unit × ρ
  /-- What a call spends; `none` for a call that resets the counters. -/
  spend : κ → Option Int
  spent : ρ → Int
  budget : ρ → Int
  limit : ρ → Nat
  /-- Where sums saturate. -/
  least : Int
  most : Int
  /-- What the code asks for. -/
  Admits : ρ → κ → Prop
  /-- Neither revoked nor expired when the call is made. -/
  Live : ρ → κ → Prop
  least_neg : least < 0
  budget_le : ∀ r, budget r ≤ most
  most_nonneg : 0 ≤ most
  admits_budget : ∀ r c a, spend c = some a → Admits r c →
    max least (min most (spent r + a)) ≤ budget r
  admitted : ∀ r c a, spend c = some a → Admits r c → (call r c).1 = .ok ()
    ∧ spent (call r c).2 = max least (min most (spent r + a))
    ∧ budget (call r c).2 = budget r ∧ limit (call r c).2 = limit r
  refused : ∀ r c a, spend c = some a → ¬ Admits r c → ∃ e, call r c = (.error e, r)
  reset : ∀ r c, spend c = none → (call r c).1 = .ok () ∧ spent (call r c).2 = 0
    ∧ budget (call r c).2 = budget r ∧ limit (call r c).2 = limit r ∧ Live r c

namespace Envelope

variable {ρ κ : Type}

/-- A record with the amounts of the calls that succeeded since the last reset. -/
structure Run (ρ : Type) where
  record : ρ
  taken : List Int

def positiveSum (amounts : List Int) : Int := (amounts.map (max 0)).sum

def step (E : Envelope ρ κ) (s : Run ρ) (c : κ) : Run ρ where
  record := (E.call s.record c).2
  taken :=
    match E.spend c, (E.call s.record c).1 with
    | none, _ => []
    | some a, .ok () => a :: s.taken
    | some _, .error _ => s.taken

/-- The amounts are within the budget and the limit. -/
structure Within (E : Envelope ρ κ) (s : Run ρ) : Prop where
  budget : positiveSum s.taken ≤ E.budget s.record
  limit : E.limit s.record ≠ 0 → s.taken.length ≤ E.limit s.record

/-- What a call is to leave, and what is to hold where it succeeds or fails. -/
structure Kept (E : Envelope ρ κ) (s : Run ρ) (c : κ) : Prop where
  within : E.Within (E.step s c)
  live : (E.call s.record c).1 = .ok () → E.Live s.record c
  spent_le : E.spend c ≠ none → E.spent s.record ≤ E.spent (E.call s.record c).2
  unchanged : ∀ e, (E.call s.record c).1 = .error e → (E.call s.record c).2 = s.record

/-- The promise of the envelope, across a run. -/
def Holds (E : Envelope ρ κ) (s : Run ρ) (calls : List κ) : Prop :=
  E.Within s ∧ Runs.Along E.step E.Kept s calls

/-- An admitted call spends nothing negative, does not saturate, is made while the
record is alive and stays below the limit. -/
def Sound (E : Envelope ρ κ) (s : Run ρ) (c : κ) : Prop :=
  ∀ a, E.spend c = some a → E.Admits s.record c →
    (0 ≤ a ∧ E.spent s.record + a ≤ E.most) ∧ E.Live s.record c
      ∧ (E.limit s.record ≠ 0 → s.taken.length < E.limit s.record)

/-- The record has summed up what was taken. -/
structure Balanced (E : Envelope ρ κ) (s : Run ρ) : Prop where
  spent_eq : E.spent s.record = positiveSum s.taken
  within : E.Within s

theorem positiveSum_nonneg (amounts : List Int) : 0 ≤ positiveSum amounts := by
  refine List.sum_nonneg fun x hx => ?_
  obtain ⟨a, -, rfl⟩ := List.mem_map.mp hx
  exact le_max_left _ _

theorem positiveSum_cons (a : Int) (amounts : List Int) :
    positiveSum (a :: amounts) = max 0 a + positiveSum amounts := rfl

/-! ## One call -/

theorem step_of_admits (E : Envelope ρ κ) {s : Run ρ} {c : κ} {a : Int} (hspend : E.spend c = some a)
    (hadmits : E.Admits s.record c) : E.step s c = ⟨(E.call s.record c).2, a :: s.taken⟩ := by
  unfold step
  rw [hspend, (E.admitted _ _ _ hspend hadmits).1]

theorem step_of_refused (E : Envelope ρ κ) {s : Run ρ} {c : κ} {a : Int}
    (hspend : E.spend c = some a) (hrefused : ¬ E.Admits s.record c) : E.step s c = s := by
  obtain ⟨e, hcall⟩ := E.refused _ _ _ hspend hrefused
  unfold step
  rw [hspend, hcall]

theorem step_of_reset (E : Envelope ρ κ) {s : Run ρ} {c : κ} (hspend : E.spend c = none) :
    E.step s c = ⟨(E.call s.record c).2, []⟩ := by
  unfold step
  rw [hspend]

theorem spent_of_sound (E : Envelope ρ κ) {r : ρ} {c : κ} {a : Int} (hspend : E.spend c = some a)
    (hadmits : E.Admits r c) (hspent : 0 ≤ E.spent r) (ha : 0 ≤ a)
    (hfits : E.spent r + a ≤ E.most) : E.spent (E.call r c).2 = E.spent r + a := by
  have hleast := E.least_neg
  rw [(E.admitted _ _ _ hspend hadmits).2.1]
  omega

theorem Balanced.step {E : Envelope ρ κ} {s : Run ρ} {c : κ} (h : E.Balanced s)
    (hsound : E.Sound s c) : E.Balanced (E.step s c) := by
  have hspent : 0 ≤ E.spent s.record := h.spent_eq ▸ positiveSum_nonneg _
  cases hspend : E.spend c with
  | none =>
      obtain ⟨-, hzero, hbudget, -⟩ := E.reset s.record c hspend
      have hnonneg : 0 ≤ E.budget s.record := (positiveSum_nonneg _).trans h.within.budget
      rw [E.step_of_reset hspend]
      exact ⟨hzero, hbudget ▸ hnonneg, fun _ => Nat.zero_le _⟩
  | some a =>
      by_cases hadmits : E.Admits s.record c
      · obtain ⟨⟨ha, hfits⟩, -, hlimit⟩ := hsound a hspend hadmits
        obtain ⟨-, hnew, hbudget, hlimitEq⟩ := E.admitted _ _ _ hspend hadmits
        have hsum : positiveSum (a :: s.taken) = E.spent s.record + a := by
          rw [positiveSum_cons, max_eq_right ha, h.spent_eq, Int.add_comm]
        have hwithin := E.admits_budget _ _ _ hspend hadmits
        rw [E.step_of_admits hspend hadmits]
        refine ⟨?_, ?_, ?_⟩
        · rw [E.spent_of_sound hspend hadmits hspent ha hfits, hsum]
        · show positiveSum (a :: s.taken) ≤ E.budget (E.call s.record c).2
          rw [hsum, hbudget]
          omega
        · show E.limit (E.call s.record c).2 ≠ 0 → _ ≤ E.limit (E.call s.record c).2
          rw [hlimitEq]
          exact hlimit
      · rw [E.step_of_refused hspend hadmits]
        exact h

/-- Where the record is balanced, the promise is kept by the calls that are
sound. -/
theorem kept_iff {E : Envelope ρ κ} {s : Run ρ} {c : κ} (h : E.Balanced s) :
    E.Kept s c ↔ E.Sound s c := by
  have hspent : 0 ≤ E.spent s.record := h.spent_eq ▸ positiveSum_nonneg _
  constructor
  · intro hkept a hspend hadmits
    obtain ⟨hok, hnew, hbudget, hlimitEq⟩ := E.admitted _ _ _ hspend hadmits
    have hleast := E.least_neg
    have hmost := E.most_nonneg
    have hmono := hkept.spent_le (by rw [hspend]; exact Option.some_ne_none a)
    have hwithin := hkept.within
    rw [E.step_of_admits hspend hadmits] at hwithin
    have hsum : max 0 a + E.spent s.record ≤ E.budget s.record := by
      rw [h.spent_eq, ← positiveSum_cons, ← hbudget]
      exact hwithin.budget
    have hle := E.budget_le s.record
    rw [hnew] at hmono
    -- a negative amount would lower a sum that is not negative
    have ha : 0 ≤ a := by omega
    refine ⟨⟨ha, by omega⟩, hkept.live hok, fun hne => ?_⟩
    have hlength := hwithin.limit (hlimitEq ▸ hne)
    rw [hlimitEq] at hlength
    exact hlength
  · intro hsound
    have hbalanced := h.step hsound
    cases hspend : E.spend c with
    | none =>
        obtain ⟨hok, -, -, -, hlive⟩ := E.reset s.record c hspend
        refine ⟨hbalanced.within, fun _ => hlive, fun hne => absurd hspend hne, fun e he => ?_⟩
        rw [hok] at he
        cases he
    | some a =>
        by_cases hadmits : E.Admits s.record c
        · obtain ⟨⟨ha, hfits⟩, hlive, -⟩ := hsound a hspend hadmits
          refine ⟨hbalanced.within, fun _ => hlive, fun _ => ?_, fun e he => ?_⟩
          · rw [E.spent_of_sound hspend hadmits hspent ha hfits]
            omega
          · rw [(E.admitted _ _ _ hspend hadmits).1] at he
            cases he
        · obtain ⟨e, hcall⟩ := E.refused _ _ _ hspend hadmits
          refine ⟨hbalanced.within, fun hok => ?_, fun _ => ?_, fun _ _ => ?_⟩
          · rw [hcall] at hok
            cases hok
          · rw [hcall]
          · rw [hcall]

/-! ## Runs -/

/-- From a fresh record the promise holds across a run exactly if the budget is
not negative and every call is sound; `C` is that condition in terms of the
record, and `K` what the record keeps to make it so. -/
theorem holds_iff {E : Envelope ρ κ} {C : Run ρ → κ → Prop} {K : Run ρ → Prop} {r : ρ}
    {calls : List κ} (hfresh : E.spent r = 0) (hK : K ⟨r, []⟩)
    (hkeep : ∀ s c, E.Balanced s → K s → C s c → K (E.step s c))
    (hiff : ∀ s c, K s → (E.Sound s c ↔ C s c)) :
    E.Holds ⟨r, []⟩ calls ↔ 0 ≤ E.budget r ∧ Runs.Along E.step C ⟨r, []⟩ calls := by
  have hwithin : E.Within ⟨r, []⟩ ↔ 0 ≤ E.budget r :=
    ⟨fun h => h.budget, fun h => ⟨h, fun _ => Nat.zero_le _⟩⟩
  unfold Holds
  rw [hwithin]
  refine and_congr_right fun hbudget => ?_
  have hstart : E.Balanced ⟨r, []⟩ ∧ K ⟨r, []⟩ := ⟨⟨hfresh, hwithin.mpr hbudget⟩, hK⟩
  have hnext : ∀ s c, E.Balanced s ∧ K s → C s c → E.Balanced (E.step s c) ∧ K (E.step s c) := by
    rintro s c ⟨hbalanced, hs⟩ hc
    exact ⟨hbalanced.step ((hiff s c hs).mpr hc), hkeep s c hbalanced hs hc⟩
  have hsame : ∀ s c, E.Balanced s ∧ K s → (E.Kept s c ↔ C s c) := by
    rintro s c ⟨hbalanced, hs⟩
    exact (kept_iff hbalanced).trans (hiff s c hs)
  constructor
  · refine Runs.along_of_invariant (fun s c hs hc => hnext s c hs ((hsame s c hs).mp hc)) ?_ hstart
    intro s c hs hc
    exact (hsame s c hs).mp hc
  · refine Runs.along_of_invariant hnext ?_ hstart
    intro s c hs hc
    exact (hsame s c hs).mpr hc

end Envelope
