import Mathlib
import Sccgub.Types.Ceilings

/-!
# Fees

The fee of a transition is the base fee scaled by the tension of the prior
block, `base · (1 + α · T / B)`.  From the fourth block version on, `T` is the
median over a window of prior tensions, and a ceiling record sets a floor.
-/

namespace Sccgub

open FixedWidth

structure EconomicState where
  baseFee : TensionValue := .fromInteger 1
  alpha : TensionValue := ⟨I128.saturate (TensionValue.scale / 10)⟩
  feesCollected : TensionValue := .zero
  rewardsDistributed : TensionValue := .zero
  deriving DecidableEq

/-- Sorted, the middle element; of an even number the lower of the two. -/
def medianOfTensions (values : List TensionValue) : TensionValue :=
  let sorted := values.insertionSort (· ≤ ·)
  let mid := sorted.length / 2
  (if sorted.length % 2 = 0 then sorted[mid - 1]? else sorted[mid]?).getD .zero

namespace EconomicState

/-- The scaled fee for a tension, given the weight of the tension term. -/
def scaledFee (self : EconomicState) (alpha tension budget : TensionValue) : TensionValue :=
  let one : TensionValue := ⟨I128.saturate TensionValue.scale⟩
  let ratio : TensionValue :=
    ⟨I128.saturate ((I128.saturate (tension.raw.val * TensionValue.scale)).val.tdiv budget.raw.val)⟩
  self.baseFee.mulFp (one + alpha.mulFp ratio)

/-- A budget that is not positive leaves the base fee. -/
def effectiveFee (self : EconomicState) (priorBlockTension tensionBudget : TensionValue) :
    TensionValue :=
  if tensionBudget.raw.val ≤ 0 then self.baseFee
  else self.scaledFee self.alpha priorBlockTension tensionBudget

def effectiveFeeMedian (self : EconomicState) (priorTensions : List TensionValue)
    (tensionBudget : TensionValue) (params : ConsensusParams) : TensionValue :=
  if tensionBudget.raw.val ≤ 0 then self.baseFee
  else if priorTensions.isEmpty then self.baseFee
  else self.scaledFee ⟨params.feeTensionAlpha⟩ (medianOfTensions priorTensions) tensionBudget

def effectiveFeeMedianFloored (self : EconomicState) (priorTensions : List TensionValue)
    (tensionBudget : TensionValue) (params : ConsensusParams) (ceilings : ConstitutionalCeilings) :
    TensionValue :=
  let computed := self.effectiveFeeMedian priorTensions tensionBudget params
  let floor : TensionValue := ⟨ceilings.minEffectiveFeeFloor⟩
  if computed < floor then floor else computed

def recordFee (self : EconomicState) (amount : TensionValue) : EconomicState :=
  { self with feesCollected := self.feesCollected + amount }

def distributeReward (self : EconomicState) (amount : TensionValue) : EconomicState :=
  { self with rewardsDistributed := self.rewardsDistributed + amount }

def resetEpoch (self : EconomicState) : EconomicState :=
  { self with feesCollected := .zero, rewardsDistributed := .zero }

end EconomicState

end Sccgub
