import Mathlib
import Sccgub.Apportion
import Sccgub.State.World
import Sccgub.Types.Quotient

/-!
# Norms

One epoch of the replicator dynamics: the share of every active norm times its
fitness over the mean, and the shares then divided by their total.  All of it is
in fixed point and rounds down, the last stage too, so the shares add up to the
whole only where that stage has nothing to round.
-/

namespace Sccgub

open FixedWidth

/-! ## The epoch -/

/-- The entries of the map, in the order it hands them out. -/
@[ext]
structure NormRegistry where
  norms : List (NormId × Norm)
  nodup : (norms.map Prod.fst).Nodup
  deriving DecidableEq

def TensionValue.max (self other : TensionValue) : TensionValue :=
  if other.raw ≤ self.raw then self else other

namespace Norm

/-- Clamped to zero. -/
def clampedFitness (norm : Norm) : TensionValue :=
  (norm.fitness - norm.enforcementCost).max .zero

def withShare (norm : Norm) (share : TensionValue) : Norm := { norm with populationShare := share }

@[simp] theorem active_withShare (norm : Norm) (share : TensionValue) :
    (norm.withShare share).active = norm.active := rfl

@[simp] theorem withShare_withShare (norm : Norm) (share share' : TensionValue) :
    (norm.withShare share).withShare share' = norm.withShare share' := rfl

def numerator (norm : Norm) : TensionValue := norm.populationShare.mulFp norm.clampedFitness

end Norm

def meanFitness (active : List Norm) : TensionValue :=
  (active.map Norm.numerator).foldl (fun acc v => acc + v) .zero

/-- The share over the mean, clamped to one unit. -/
def nextShare (numerator mean : TensionValue) : TensionValue :=
  let raw :=
    if mean.raw.val ≠ 0 then
      let a := numerator.raw.val.tdiv mean.raw.val
      let b := (I128.saturate (numerator.raw.val.tmod mean.raw.val * TensionValue.scale)).val.tdiv
        mean.raw.val
      (I128.saturate ((I128.saturate (a * TensionValue.scale)).val + b)).val
    else 0
  ⟨I128.saturate (max 0 (min raw TensionValue.scale))⟩

def renormalized (share : TensionValue) (total : Int) : TensionValue :=
  ⟨I128.saturate (max ((I128.saturate (share.raw.val * TensionValue.scale)).val.tdiv total) 0)⟩

namespace NormRegistry

def active (self : NormRegistry) : List Norm :=
  (self.norms.filter (·.2.active)).map (·.2)

def entryWithShare (share : Norm → TensionValue) (entry : NormId × Norm) : NormId × Norm :=
  if entry.2.active then (entry.1, entry.2.withShare (share entry.2)) else entry

theorem nodup_withShares (self : NormRegistry) (share : Norm → TensionValue) :
    ((self.norms.map (entryWithShare share)).map Prod.fst).Nodup := by
  have hkeys : Prod.fst ∘ entryWithShare share = Prod.fst := by
    funext entry
    show (entryWithShare share entry).1 = entry.1
    unfold entryWithShare
    split_ifs <;> rfl
  rw [List.map_map, hkeys]
  exact self.nodup

/-- New shares for the active norms. -/
def withShares (self : NormRegistry) (share : Norm → TensionValue) : NormRegistry where
  norms := self.norms.map (entryWithShare share)
  nodup := self.nodup_withShares share

def evolveEpoch (self : NormRegistry) : NormRegistry :=
  if self.active.isEmpty then self
  else
    let mean := meanFitness self.active
    if mean.raw.val ≤ 0 then self
    else
      let updated := self.withShares fun norm => nextShare norm.numerator mean
      let total := (updated.active.map (·.populationShare.raw.val)).sum
      if total > 0 then
        updated.withShares fun norm => renormalized norm.populationShare total
      else
        -- all shares collapsed
        updated.withShares fun _ =>
          ⟨I128.saturate (TensionValue.scale.tdiv updated.active.length)⟩

/-! ## One share for every norm -/

theorem active_withShares (self : NormRegistry) (share : Norm → TensionValue) :
    (self.withShares share).active = self.active.map fun norm => norm.withShare (share norm) := by
  unfold active withShares
  simp only
  induction self.norms with
  | nil => rfl
  | cons entry entries ih =>
      rw [List.map_cons, entryWithShare]
      by_cases h : entry.2.active = true
      · rw [if_pos h, List.filter_cons_of_pos (by exact h), List.filter_cons_of_pos (by exact h),
          List.map_cons, List.map_cons, List.map_cons, ih]
      · rw [if_neg h, List.filter_cons_of_neg (by exact h), List.filter_cons_of_neg (by exact h), ih]

theorem withShares_withShares (self : NormRegistry) (share share' : Norm → TensionValue) :
    (self.withShares share).withShares share'
      = self.withShares fun norm => share' (norm.withShare (share norm)) := by
  refine NormRegistry.ext ?_
  show (self.norms.map (entryWithShare share)).map (entryWithShare share')
    = self.norms.map (entryWithShare fun norm => share' (norm.withShare (share norm)))
  rw [List.map_map]
  refine List.map_congr_left fun entry _ => ?_
  by_cases h : entry.2.active = true
  · simp [entryWithShare, h]
  · simp [entryWithShare, h]

/-- The share that stage two gives. -/
def stageTwo (self : NormRegistry) (norm : Norm) : TensionValue :=
  nextShare norm.numerator (meanFitness self.active)

/-- What these shares add up to. -/
def stageTotal (self : NormRegistry) : Int :=
  (self.active.map fun norm => (self.stageTwo norm).raw.val).sum

/-- The share after the epoch, where there is one. -/
def evolvedShare (self : NormRegistry) (norm : Norm) : TensionValue :=
  if self.stageTotal > 0 then renormalized (self.stageTwo norm) self.stageTotal
  else ⟨I128.saturate (TensionValue.scale.tdiv self.active.length)⟩

theorem evolveEpoch_eq {self : NormRegistry} (hmean : 0 < (meanFitness self.active).raw.val) :
    self.evolveEpoch = self.withShares self.evolvedShare := by
  have hne : self.active.isEmpty = false := by
    rw [List.isEmpty_eq_false_iff]
    intro hnil
    rw [hnil] at hmean
    exact absurd hmean (by decide)
  have htotal : ((self.withShares self.stageTwo).active.map (·.populationShare.raw.val)).sum
      = self.stageTotal := by
    rw [active_withShares, List.map_map]
    rfl
  have hlength : (self.withShares self.stageTwo).active.length = self.active.length := by
    rw [active_withShares, List.length_map]
  unfold evolveEpoch
  rw [hne]
  simp only [Bool.false_eq_true, if_false, if_neg (not_le.mpr hmean)]
  change (if ((self.withShares self.stageTwo).active.map (·.populationShare.raw.val)).sum > 0 then
      (self.withShares self.stageTwo).withShares fun norm => renormalized norm.populationShare
        ((self.withShares self.stageTwo).active.map (·.populationShare.raw.val)).sum
    else (self.withShares self.stageTwo).withShares fun _ =>
      ⟨I128.saturate (TensionValue.scale.tdiv (self.withShares self.stageTwo).active.length)⟩) = _
  rw [htotal, hlength, withShares_withShares, withShares_withShares]
  unfold evolvedShare
  split_ifs <;> rfl

/-! ## What every epoch keeps -/

def SharesInRange (self : NormRegistry) : Prop :=
  ∀ norm ∈ self.active, 0 ≤ norm.populationShare.raw.val
    ∧ norm.populationShare.raw.val ≤ TensionValue.scale

/-- Shares in range, nothing else changed, and no order of the entries that
matters. -/
structure Keeps (before after : NormRegistry) : Prop where
  range : after.SharesInRange
  entries : List.Forall₂ (fun entry entry' => entry'.1 = entry.1
    ∧ (∃ share, entry'.2 = entry.2.withShare share) ∧ (entry.2.active = false → entry' = entry))
    before.norms after.norms
  order : ∀ other : NormRegistry, other.norms.Perm before.norms →
    other.evolveEpoch.norms.Perm after.norms

theorem stageTwo_range (self : NormRegistry) (norm : Norm) :
    0 ≤ (self.stageTwo norm).raw.val
      ∧ (self.stageTwo norm).raw.val ≤ TensionValue.scale := by
  have hscale : TensionValue.scale = 1000000000000000000 := rfl
  unfold stageTwo nextShare
  simp only
  generalize (if (meanFitness self.active).raw.val ≠ 0 then _ else (0 : Int)) = raw
  rw [I128.val_saturate, hscale]
  omega

theorem stageTwo_le_stageTotal {self : NormRegistry} {norm : Norm} (h : norm ∈ self.active) :
    (self.stageTwo norm).raw.val ≤ self.stageTotal := by
  refine List.single_le_sum ?_ _ (List.mem_map_of_mem h)
  intro x hx
  obtain ⟨other, -, rfl⟩ := List.mem_map.mp hx
  exact (self.stageTwo_range other).1

/-- A part of the total, of the scale. -/
theorem quota_range {part total : Int} (h0 : 0 ≤ part) (hle : part ≤ total) (htotal : 0 < total) :
    0 ≤ part * TensionValue.scale / total
      ∧ part * TensionValue.scale / total ≤ TensionValue.scale := by
  have hscale : (0 : Int) ≤ TensionValue.scale := by decide
  refine ⟨Int.ediv_nonneg (Int.mul_nonneg h0 hscale) htotal.le, ?_⟩
  refine Int.ediv_le_of_le_mul htotal ?_
  rw [Int.mul_comm TensionValue.scale]
  exact Int.mul_le_mul_of_nonneg_right hle hscale

theorem renormalized_val {share : TensionValue} {total : Int} (h0 : 0 ≤ share.raw.val)
    (h1 : share.raw.val ≤ TensionValue.scale) (hle : share.raw.val ≤ total) (htotal : 0 < total) :
    (renormalized share total).raw.val = share.raw.val * TensionValue.scale / total := by
  have hscale : TensionValue.scale = 1000000000000000000 := rfl
  have hproduct : (I128.saturate (share.raw.val * TensionValue.scale)).val
      = share.raw.val * TensionValue.scale := by
    rw [hscale] at h1 ⊢
    exact I128.val_saturate_of_range (by omega) (by omega)
  have hdiv : (share.raw.val * TensionValue.scale).tdiv total
      = share.raw.val * TensionValue.scale / total :=
    Int.tdiv_eq_ediv_of_nonneg (Int.mul_nonneg h0 (by rw [hscale]; decide))
  obtain ⟨hnonneg, hquotient⟩ := quota_range h0 hle htotal
  have hmax : TensionValue.scale ≤ 2 ^ 127 - 1 := by decide
  unfold renormalized
  rw [hproduct, hdiv, max_eq_left hnonneg]
  exact I128.val_saturate_of_range (by omega) (hquotient.trans hmax)

theorem evolvedShare_range {self : NormRegistry} {norm : Norm} (h : norm ∈ self.active) :
    0 ≤ (self.evolvedShare norm).raw.val
      ∧ (self.evolvedShare norm).raw.val ≤ TensionValue.scale := by
  have hscale : (0 : Int) < TensionValue.scale := by decide
  obtain ⟨h0, h1⟩ := self.stageTwo_range norm
  have hle := stageTwo_le_stageTotal h
  unfold evolvedShare
  split_ifs with htotal
  · rw [renormalized_val h0 h1 hle htotal]
    exact quota_range h0 hle htotal
  · have hdiv : TensionValue.scale.tdiv self.active.length
        = TensionValue.scale / self.active.length := Int.tdiv_eq_ediv_of_nonneg hscale.le
    have hnonneg : 0 ≤ TensionValue.scale / (self.active.length : Int) :=
      Int.ediv_nonneg hscale.le (Int.natCast_nonneg _)
    have hquotient : TensionValue.scale / (self.active.length : Int) ≤ TensionValue.scale :=
      Int.ediv_le_self _ hscale.le
    have hmax : TensionValue.scale ≤ 2 ^ 127 - 1 := by decide
    have hval := I128.val_saturate_of_range
      (show -2 ^ 127 ≤ TensionValue.scale / (self.active.length : Int) by omega)
      (hquotient.trans hmax)
    rw [hdiv, hval]
    exact ⟨hnonneg, hquotient⟩

/-! ## Order -/

theorem clampedFitness_nonneg (norm : Norm) : 0 ≤ norm.clampedFitness.raw.val := by
  have hcmp (a b : I128) : a ≤ b ↔ a.val ≤ b.val := Iff.rfl
  unfold Norm.clampedFitness TensionValue.max
  split_ifs with h
  · exact (hcmp _ _).mp h
  · exact le_rfl

theorem numerator_nonneg {norm : Norm} (h : 0 ≤ norm.populationShare.raw.val) :
    0 ≤ norm.numerator.raw.val := by
  rw [Norm.numerator, TensionValue.mulFp_val, TensionValue.signum_of_nonneg h,
    TensionValue.signum_of_nonneg (clampedFitness_nonneg norm), Int.one_mul, Int.one_mul]
  exact Int.natCast_nonneg _

/-- A saturating sum of what is not negative. -/
theorem foldl_add_nonneg (l : List TensionValue) (acc : TensionValue)
    (hl : ∀ v ∈ l, 0 ≤ v.raw.val) (hacc : 0 ≤ acc.raw.val) :
    (l.foldl (fun acc v => acc + v) acc).raw.val
      = min (acc.raw.val + (l.map (·.raw.val)).sum) (2 ^ 127 - 1) := by
  induction l generalizing acc with
  | nil =>
      have hmax := acc.raw.le_max
      simp only [List.foldl_nil, List.map_nil, List.sum_nil]
      omega
  | cons v rest ih =>
      have hv := hl v List.mem_cons_self
      have hadd : (acc + v).raw.val = min (acc.raw.val + v.raw.val) (2 ^ 127 - 1) := by
        show (I128.saturate (acc.raw.val + v.raw.val)).val = _
        rw [I128.val_saturate]
        omega
      have hrest : 0 ≤ (rest.map (·.raw.val)).sum := by
        refine List.sum_nonneg fun x hx => ?_
        obtain ⟨w, hw, rfl⟩ := List.mem_map.mp hx
        exact hl w (List.mem_cons_of_mem _ hw)
      rw [List.foldl_cons, ih (acc + v) (fun w hw => hl w (List.mem_cons_of_mem _ hw)) (by omega),
        hadd, List.map_cons, List.sum_cons]
      omega

theorem meanFitness_val {active : List Norm}
    (h : ∀ norm ∈ active, 0 ≤ norm.populationShare.raw.val) :
    (meanFitness active).raw.val
      = min ((active.map fun norm => norm.numerator.raw.val).sum) (2 ^ 127 - 1) := by
  have hnonneg : ∀ v ∈ active.map Norm.numerator, 0 ≤ v.raw.val := by
    intro v hv
    obtain ⟨norm, hnorm, rfl⟩ := List.mem_map.mp hv
    exact numerator_nonneg (h norm hnorm)
  rw [meanFitness, foldl_add_nonneg _ _ hnonneg (by decide), List.map_map]
  show min (0 + _) _ = _
  rw [Int.zero_add]
  rfl

theorem active_perm {self other : NormRegistry} (h : other.norms.Perm self.norms) :
    other.active.Perm self.active :=
  (h.filter _).map _

theorem meanFitness_perm {self other : NormRegistry} (hshares : self.SharesInRange)
    (h : other.norms.Perm self.norms) : meanFitness other.active = meanFitness self.active := by
  have hactive := active_perm h
  refine TensionValue.ext_val ?_
  rw [meanFitness_val fun norm hnorm => (hshares norm hnorm).1,
    meanFitness_val fun norm hnorm => (hshares norm (hactive.mem_iff.mp hnorm)).1,
    (hactive.map _).sum_eq]

theorem evolveEpoch_perm {self other : NormRegistry} (hshares : self.SharesInRange)
    (hmean : 0 < (meanFitness self.active).raw.val) (h : other.norms.Perm self.norms) :
    other.evolveEpoch.norms.Perm self.evolveEpoch.norms := by
  have hactive := active_perm h
  have hmeanEq := meanFitness_perm hshares h
  have hstage : other.stageTwo = self.stageTwo := by
    funext norm
    rw [stageTwo, stageTwo, hmeanEq]
  have htotal : other.stageTotal = self.stageTotal := by
    rw [stageTotal, stageTotal, hstage, (hactive.map _).sum_eq]
  have hshare : other.evolvedShare = self.evolvedShare := by
    funext norm
    rw [evolvedShare, evolvedShare, hstage, htotal, hactive.length_eq]
  rw [evolveEpoch_eq hmean, evolveEpoch_eq (hmeanEq ▸ hmean), hshare]
  exact h.map _

/-- Nothing to divide by. -/
theorem evolveEpoch_of_mean_le {self : NormRegistry}
    (hmean : (meanFitness self.active).raw.val ≤ 0) : self.evolveEpoch = self := by
  unfold evolveEpoch
  simp only [if_pos hmean, ite_self]

theorem evolveEpoch_keeps_of_pos {self : NormRegistry} (hshares : self.SharesInRange)
    (hmean : 0 < (meanFitness self.active).raw.val) : Keeps self self.evolveEpoch where
  range := by
    rw [evolveEpoch_eq hmean]
    intro norm hnorm
    rw [active_withShares] at hnorm
    obtain ⟨old, hold, rfl⟩ := List.mem_map.mp hnorm
    exact evolvedShare_range hold
  entries := by
    rw [evolveEpoch_eq hmean]
    refine List.forall₂_map_right_iff.mpr (List.forall₂_same.mpr fun entry _ => ?_)
    unfold entryWithShare
    by_cases h : entry.2.active = true
    · rw [if_pos h]
      exact ⟨rfl, ⟨_, rfl⟩, fun hinactive => absurd h (by simp [hinactive])⟩
    · rw [if_neg h]
      exact ⟨rfl, ⟨entry.2.populationShare, rfl⟩, fun _ => rfl⟩
  order _ h := evolveEpoch_perm hshares hmean h

theorem evolveEpoch_keeps {self : NormRegistry} (hshares : self.SharesInRange) :
    Keeps self self.evolveEpoch := by
  rcases lt_or_ge 0 (meanFitness self.active).raw.val with hmean | hmean
  · exact evolveEpoch_keeps_of_pos hshares hmean
  · rw [evolveEpoch_of_mean_le hmean]
    refine ⟨hshares, List.forall₂_same.mpr fun entry _ => ⟨rfl, ⟨_, rfl⟩, fun _ => rfl⟩, ?_⟩
    intro other h
    rw [evolveEpoch_of_mean_le (meanFitness_perm hshares h ▸ hmean)]
    exact h

end NormRegistry

end Sccgub
