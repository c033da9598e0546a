import Mathlib
import Sccgub.Node.Linkage
import Sccgub.Node.Produce
import Sccgub.State.EscrowConservation

/-!
# What a penalty takes

A penalty is taken from the account it is called with and burned, by way of the
pending fees.  From the second block version on a validator's funds are not in
the account of its key but in the one derived from it, which no penalty touches.
-/

namespace Sccgub

open FixedWidth

theorem val_add (a b : TensionValue) :
    (a + b).raw.val = max (-2 ^ 127) (min (2 ^ 127 - 1) (a.raw.val + b.raw.val)) := rfl

theorem val_sub (a b : TensionValue) :
    (a - b).raw.val = max (-2 ^ 127) (min (2 ^ 127 - 1) (a.raw.val - b.raw.val)) := rfl

namespace Treasury

/-- Collected and burned at once: what was pending stays, if there is room. -/
theorem burn_collectFee_iff {treasury : Treasury} {amount : TensionValue}
    (hamount : 0 < amount.raw.val) :
    ((orKeep (treasury.collectFee amount)
          ((treasury.collectFee amount).burn amount)).totalBurned.raw.val
        = treasury.totalBurned.raw.val + amount.raw.val
      ∧ (orKeep (treasury.collectFee amount)
          ((treasury.collectFee amount).burn amount)).pendingFees = treasury.pendingFees)
      ↔ 0 ≤ treasury.pendingFees.raw.val
        ∧ treasury.pendingFees.raw.val + amount.raw.val ≤ 2 ^ 127 - 1
        ∧ treasury.totalBurned.raw.val + amount.raw.val ≤ 2 ^ 127 - 1 := by
  have hnonneg : ¬ amount.raw.val < 0 := by omega
  have hlo := treasury.pendingFees.raw.ge_min
  have hhi := treasury.pendingFees.raw.le_max
  have hburnedLo := treasury.totalBurned.raw.ge_min
  have hburnedHi := treasury.totalBurned.raw.le_max
  have hmax := amount.raw.le_max
  have hcollected : (treasury.collectFee amount).pendingFees = treasury.pendingFees + amount := by
    simp [collectFee, clampNonNegative, hnonneg]
  have hburned : (treasury.collectFee amount).totalBurned = treasury.totalBurned := rfl
  have hval := val_add treasury.pendingFees amount
  rw [burn, if_neg hnonneg, hcollected]
  by_cases hshort : (treasury.pendingFees + amount).raw < amount.raw
  · rw [if_pos hshort]
    have hlt : (treasury.pendingFees + amount).raw.val < amount.raw.val := hshort
    simp only [orKeep, hcollected, hburned]
    refine iff_of_false (fun h => ?_) (fun h => ?_) <;> omega
  · rw [if_neg hshort]
    have hle : amount.raw.val ≤ (treasury.pendingFees + amount).raw.val := Int.not_lt.mp hshort
    simp only [orKeep, hburned]
    have hback := val_sub (treasury.pendingFees + amount) amount
    have htotal := val_add treasury.totalBurned amount
    constructor
    · rintro ⟨htaken, hpending⟩
      rw [hpending] at hback
      omega
    · rintro ⟨hpos, hroom, hburnRoom⟩
      refine ⟨by omega, TensionValue.ext_val ?_⟩
      omega

end Treasury

namespace Chain

variable {self : Chain} {key : Hash} {penalty : TensionValue}

/-- No more than what is there. -/
def cappedPenalty (self : Chain) (account : Hash) (penalty : TensionValue) : TensionValue :=
  if (self.balances.balanceOf account).raw < penalty.raw then self.balances.balanceOf account
  else penalty

theorem val_cappedPenalty {account : Hash} :
    (self.cappedPenalty account penalty).raw.val
      = min penalty.raw.val (self.balances.balanceOf account).raw.val := by
  rw [cappedPenalty]
  split
  · rename_i h
    have hlt : (self.balances.balanceOf account).raw.val < penalty.raw.val := h
    omega
  · rename_i h
    have hle : penalty.raw.val ≤ (self.balances.balanceOf account).raw.val := Int.not_lt.mp h
    omega

/-- Nothing is taken from an account that holds nothing. -/
theorem executeSlashingPenalty_of_nonpos (h : (self.cappedPenalty key penalty).raw.val ≤ 0) :
    self.executeSlashingPenalty key penalty = (self.cappedPenalty key penalty, self) := by
  rw [executeSlashingPenalty]
  exact if_neg (not_lt.mpr h)

theorem executeSlashingPenalty_eq :
    self.executeSlashingPenalty key penalty
      = if (self.cappedPenalty key penalty).raw.val > 0 then
          match self.balances.debit key (self.cappedPenalty key penalty) with
          | .error _ => (TensionValue.zero, self)
          | .ok balances =>
              let collected := self.treasury.collectFee (self.cappedPenalty key penalty)
              (self.cappedPenalty key penalty,
                { self with
                  balances
                  treasury := orKeep collected
                    (collected.burn (self.cappedPenalty key penalty)) })
        else (self.cappedPenalty key penalty, self) := rfl

theorem executeSlashingPenalty_of_pos (h : 0 < (self.cappedPenalty key penalty).raw.val) :
    self.executeSlashingPenalty key penalty
      = (self.cappedPenalty key penalty,
        { self with
          balances := self.balances.importBalance key
            (self.balances.balanceOf key - self.cappedPenalty key penalty)
          treasury := orKeep (self.treasury.collectFee (self.cappedPenalty key penalty))
            ((self.treasury.collectFee (self.cappedPenalty key penalty)).burn
              (self.cappedPenalty key penalty)) }) := by
  have hcovered : ¬ (self.balances.balanceOf key).raw < (self.cappedPenalty key penalty).raw := by
    show ¬ (self.balances.balanceOf key).raw.val < (self.cappedPenalty key penalty).raw.val
    rw [val_cappedPenalty]
    omega
  have hdebit : self.balances.debit key (self.cappedPenalty key penalty)
      = .ok (self.balances.importBalance key
        (self.balances.balanceOf key - self.cappedPenalty key penalty)) := by
    rw [BalanceLedger.debit]
    exact if_neg hcovered
  rw [executeSlashingPenalty_eq, if_pos h, hdebit]

section

variable [Crypto] (self : Chain) (key : Hash) (penalty : TensionValue)

/-- The account that a validator's rewards go to. -/
def fundsOf : Hash := validatorSpendAccount self.blockVersion key

/-- What the validator's funds can cover of the penalty. -/
def due : Int := min penalty.raw.val (self.balances.balanceOf (self.fundsOf key)).raw.val

/-- The penalty comes out of the validator's funds, as far as they go, and is burned; nothing
else moves. -/
def FundsSlashed : Prop :=
  let result := self.executeSlashingPenalty key penalty
  result.1.raw.val = self.due key penalty
    ∧ (result.2.balances.balanceOf (self.fundsOf key)).raw.val
      = (self.balances.balanceOf (self.fundsOf key)).raw.val - self.due key penalty
    ∧ result.2.treasury.totalBurned.raw.val
      = self.treasury.totalBurned.raw.val + self.due key penalty
    ∧ (∀ other, other ≠ self.fundsOf key →
      result.2.balances.balanceOf other = self.balances.balanceOf other)
    ∧ result.2.treasury.pendingFees = self.treasury.pendingFees

/-- Either there is nothing to take, neither from the funds nor from the key's own account, or
the funds are in the key's own account and the counters of the treasury have room. -/
def FundsReached : Prop :=
  (self.due key penalty = 0
      ∧ min penalty.raw.val (self.balances.balanceOf key).raw.val = 0)
    ∨ (self.fundsOf key = key ∧ 0 < self.due key penalty
      ∧ 0 ≤ self.treasury.pendingFees.raw.val
      ∧ self.treasury.pendingFees.raw.val + self.due key penalty ≤ 2 ^ 127 - 1
      ∧ self.treasury.totalBurned.raw.val + self.due key penalty ≤ 2 ^ 127 - 1)

/-- A penalty takes what it should if and only if the funds are where it looks for them. -/
theorem fundsSlashed_iff : self.FundsSlashed key penalty ↔ self.FundsReached key penalty := by
  have hcapped := @val_cappedPenalty self penalty key
  by_cases hpos : 0 < (self.cappedPenalty key penalty).raw.val
  · rw [FundsSlashed, executeSlashingPenalty_of_pos hpos]
    simp only [BalanceLedger.balanceOf_importBalance]
    by_cases haccount : self.fundsOf key = key
    · have hdue : self.due key penalty = (self.cappedPenalty key penalty).raw.val := by
        rw [due, haccount, hcapped]
      have hhi := (self.balances.balanceOf key).raw.le_max
      have hleft := val_sub (self.balances.balanceOf key) (self.cappedPenalty key penalty)
      have htreasury := @Treasury.burn_collectFee_iff self.treasury _ hpos
      rw [FundsReached, hdue, haccount, if_pos rfl, ← htreasury, ← hcapped]
      constructor
      · rintro ⟨-, -, hburned, -, hpending⟩
        exact Or.inr ⟨rfl, hpos, hburned, hpending⟩
      · rintro (⟨hzero, -⟩ | ⟨-, -, hburned, hpending⟩)
        · omega
        · refine ⟨rfl, by omega, hburned, fun other hother => ?_, hpending⟩
          rw [if_neg (Ne.symm hother)]
    · refine iff_of_false ?_ ?_
      · rintro ⟨-, -, -, hothers, -⟩
        have hown := congrArg (fun v => v.raw.val) (hothers key (Ne.symm haccount))
        have hhi := (self.balances.balanceOf key).raw.le_max
        simp only [if_true, val_sub] at hown
        omega
      · rintro (⟨-, hzero⟩ | ⟨hown, -⟩)
        · omega
        · exact haccount hown
  · rw [FundsSlashed, executeSlashingPenalty_of_nonpos (not_lt.mp hpos)]
    simp only [hcapped]
    constructor
    · rintro ⟨hpaid, hkept, -⟩
      exact Or.inl ⟨by omega, by omega⟩
    · rintro (⟨hzero, hnone⟩ | ⟨hown, hdue, -⟩)
      · simp [hzero, hnone]
      · rw [due, hown] at hdue
        omega

end

end Chain

theorem genesisChain_penalty :
    (genesisChain.executeSlashingPenalty nodeKey.publicKey (.fromInteger 5)).1.raw.val
      ≠ @Chain.due polyCrypto genesisChain nodeKey.publicKey (.fromInteger 5) := by
  decide +kernel

/-- A penalty of five finds nothing, and takes nothing, from the validator's million. -/
theorem genesisChain_unslashed :
    ¬ @Chain.FundsSlashed polyCrypto genesisChain nodeKey.publicKey (.fromInteger 5) := by
  intro h
  exact genesisChain_penalty h.1

end Sccgub
