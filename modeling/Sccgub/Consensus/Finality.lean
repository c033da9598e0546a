import Mathlib
import Sccgub.Crypto
import Sccgub.FixedWidth

/-!
# Finality by depth

A block is final once enough blocks stand above it.  The tracker moves its
height up one block at a time, as long as the depth allows and the block is
known.
-/

namespace Sccgub

open FixedWidth

structure FinalityConfig where
  confirmationDepth : UInt64 := 2
  maxFinalityMs : UInt64 := 6000
  targetBlockTimeMs : UInt64 := 2000
  deriving DecidableEq

structure FinalityCertificate where
  blockHash : Hash
  height : UInt64
  confirmations : UInt64
  attestations : List Hash
  finalizedAtMs : UInt64
  deriving DecidableEq

structure FinalityTracker where
  finalizedHeight : UInt64 := 0
  tipHeight : UInt64 := 0
  certificates : List FinalityCertificate := []
  deriving DecidableEq

namespace FinalityTracker

def onNewBlock (self : FinalityTracker) (height : UInt64) : FinalityTracker :=
  { self with tipHeight := height }

/-- One turn of the loop, if it is not over. -/
def finalizeNext (config : FinalityConfig) (blockHashAt : UInt64 → Option Hash)
    (self : FinalityTracker) : Option FinalityTracker :=
  if saturatingAdd self.finalizedHeight config.confirmationDepth ≤ self.tipHeight then
    let targetHeight := saturatingAdd self.finalizedHeight 1
    (blockHashAt targetHeight).map fun blockHash =>
      { self with
        finalizedHeight := targetHeight
        certificates := self.certificates ++
          [{ blockHash
             height := targetHeight
             confirmations := saturatingSub self.tipHeight targetHeight
             attestations := []
             finalizedAtMs := 0 }] }
  else none

def finalizeLoop (config : FinalityConfig) (blockHashAt : UInt64 → Option Hash) :
    Nat → FinalityTracker → FinalityTracker
  | 0, self => self
  | fuel + 1, self =>
      match finalizeNext config blockHashAt self with
      | some next => finalizeLoop config blockHashAt fuel next
      | none => self

/-- Every turn moves the height up by one, and none starts above the tip. -/
def checkFinality (self : FinalityTracker) (config : FinalityConfig)
    (blockHashAt : UInt64 → Option Hash) : FinalityTracker :=
  finalizeLoop config blockHashAt (self.tipHeight.toNat - self.finalizedHeight.toNat + 1) self

/-- What a turn of the loop does. -/
theorem finalizeNext_eq_some {config : FinalityConfig} {blockHashAt : UInt64 → Option Hash}
    {self next : FinalityTracker} (h : finalizeNext config blockHashAt self = some next) :
    saturatingAdd self.finalizedHeight config.confirmationDepth ≤ self.tipHeight
      ∧ next.finalizedHeight = saturatingAdd self.finalizedHeight 1
      ∧ next.tipHeight = self.tipHeight := by
  unfold finalizeNext at h
  split at h
  · rename_i hdepth
    dsimp only at h
    obtain ⟨blockHash, -, rfl⟩ := Option.map_eq_some_iff.mp h
    exact ⟨hdepth, rfl, rfl⟩
  · cases h

/-- The fuel is enough: the loop of `checkFinality` has come to its end, unless
the tip is the largest height there is. -/
theorem finalizeNext_checkFinality {self : FinalityTracker} {config : FinalityConfig}
    {blockHashAt : UInt64 → Option Hash} (htip : self.tipHeight.toNat < 2 ^ 64 - 1) :
    finalizeNext config blockHashAt (self.checkFinality config blockHashAt) = none := by
  have hloop : ∀ fuel (t : FinalityTracker), t.tipHeight.toNat < 2 ^ 64 - 1 →
      t.tipHeight.toNat + 1 ≤ t.finalizedHeight.toNat + fuel →
      finalizeNext config blockHashAt (finalizeLoop config blockHashAt fuel t) = none := by
    intro fuel
    induction fuel with
    | zero =>
        intro t hmax hfuel
        rw [finalizeLoop]
        by_contra hne
        obtain ⟨next, hnext⟩ := Option.ne_none_iff_exists'.mp hne
        have hdepth := UInt64.le_iff_toNat_le.mp (finalizeNext_eq_some hnext).1
        rw [toNat_saturatingAdd] at hdepth
        omega
    | succ fuel ih =>
        intro t hmax hfuel
        rw [finalizeLoop]
        rcases hnext : finalizeNext config blockHashAt t with _ | next
        · exact hnext
        · obtain ⟨-, hheight, htip'⟩ := finalizeNext_eq_some hnext
          have hnat := congrArg UInt64.toNat hheight
          rw [toNat_saturatingAdd] at hnat
          have hone : (1 : UInt64).toNat = 1 := rfl
          have hlt := t.finalizedHeight.toNat_lt
          refine ih next (htip' ▸ hmax) ?_
          rw [htip']
          omega
  exact hloop _ self htip (by omega)

/-- What ends the loop: the tip is not far enough, or the next block is not known. -/
theorem finalizeNext_eq_none {config : FinalityConfig} {blockHashAt : UInt64 → Option Hash}
    {self : FinalityTracker} (h : finalizeNext config blockHashAt self = none) :
    ¬ saturatingAdd self.finalizedHeight config.confirmationDepth ≤ self.tipHeight
      ∨ blockHashAt (saturatingAdd self.finalizedHeight 1) = none := by
  unfold finalizeNext at h
  split at h
  · exact Or.inr (Option.map_eq_none_iff.mp h)
  · rename_i hdepth
    exact Or.inl hdepth

/-! ## Where the loop ends -/

section

variable {config : FinalityConfig} {blockHashAt : UInt64 → Option Hash} {known : Nat}

/-- The blocks of the first heights are known, and no other. -/
def KnownBelow (blockHashAt : UInt64 → Option Hash) (known : Nat) : Prop :=
  ∀ height, blockHashAt height = none ↔ known ≤ height.toNat

/-- How far depth and known blocks let the finalized height go. -/
def reach (config : FinalityConfig) (known : Nat) (tipHeight : UInt64) : Nat :=
  min (tipHeight.toNat + 1 - config.confirmationDepth.toNat) (known - 1)

theorem finalizeNext_le_reach {self next : FinalityTracker} (hknown : KnownBelow blockHashAt known)
    (htip : self.tipHeight.toNat < 2 ^ 64 - 1)
    (h : finalizeNext config blockHashAt self = some next) :
    next.finalizedHeight.toNat = self.finalizedHeight.toNat + 1
      ∧ next.finalizedHeight.toNat ≤ reach config known self.tipHeight := by
  obtain ⟨hdepth, hnext, -⟩ := finalizeNext_eq_some h
  have hdepth := UInt64.le_iff_toNat_le.mp hdepth
  have hone : (1 : UInt64).toNat = 1 := rfl
  have hheight := congrArg UInt64.toNat hnext
  rw [toNat_saturatingAdd] at hdepth hheight
  have hthere : ¬ known ≤ (saturatingAdd self.finalizedHeight 1).toNat := by
    intro hbeyond
    unfold finalizeNext at h
    dsimp only at h
    rw [(hknown _).mpr hbeyond] at h
    split at h <;> cases h
  rw [toNat_saturatingAdd] at hthere
  unfold reach
  omega

theorem finalizeLoop_bounds (hknown : KnownBelow blockHashAt known) (fuel : Nat)
    (self : FinalityTracker) (htip : self.tipHeight.toNat < 2 ^ 64 - 1) :
    (finalizeLoop config blockHashAt fuel self).tipHeight = self.tipHeight
      ∧ self.finalizedHeight.toNat
        ≤ (finalizeLoop config blockHashAt fuel self).finalizedHeight.toNat
      ∧ (finalizeLoop config blockHashAt fuel self).finalizedHeight.toNat
        ≤ max self.finalizedHeight.toNat (reach config known self.tipHeight) := by
  induction fuel generalizing self with
  | zero => exact ⟨rfl, le_rfl, le_max_left _ _⟩
  | succ fuel ih =>
      rw [finalizeLoop]
      rcases hnext : finalizeNext config blockHashAt self with _ | next
      · exact ⟨rfl, le_rfl, le_max_left _ _⟩
      · obtain ⟨-, -, htip'⟩ := finalizeNext_eq_some hnext
        obtain ⟨hheight, hreach⟩ := finalizeNext_le_reach hknown htip hnext
        obtain ⟨htips, hlow, hhigh⟩ := ih next (htip' ▸ htip)
        rw [htip'] at hhigh
        dsimp only
        refine ⟨htips.trans htip', ?_, ?_⟩
        · omega
        · omega

/-- The finalized height goes as far as it can. -/
theorem finalizedHeight_checkFinality (hknown : KnownBelow blockHashAt known)
    (self : FinalityTracker) (htip : self.tipHeight.toNat < 2 ^ 64 - 1) :
    (self.checkFinality config blockHashAt).finalizedHeight.toNat
      = max self.finalizedHeight.toNat (reach config known self.tipHeight) := by
  have hone : (1 : UInt64).toNat = 1 := rfl
  obtain ⟨htips, hlow, hhigh⟩ : (self.checkFinality config blockHashAt).tipHeight = self.tipHeight
      ∧ self.finalizedHeight.toNat ≤ (self.checkFinality config blockHashAt).finalizedHeight.toNat
      ∧ (self.checkFinality config blockHashAt).finalizedHeight.toNat
        ≤ max self.finalizedHeight.toNat (reach config known self.tipHeight) :=
    finalizeLoop_bounds hknown _ self htip
  have hover : finalizeNext config blockHashAt (self.checkFinality config blockHashAt) = none :=
    finalizeNext_checkFinality htip
  have hfar : reach config known self.tipHeight
      ≤ (self.checkFinality config blockHashAt).finalizedHeight.toNat := by
    unfold reach
    rcases finalizeNext_eq_none hover with hdepth | hunknown
    · rw [htips, UInt64.le_iff_toNat_le, toNat_saturatingAdd] at hdepth
      omega
    · have hbeyond := (hknown _).mp hunknown
      rw [toNat_saturatingAdd] at hbeyond
      have hlt := (self.checkFinality config blockHashAt).finalizedHeight.toNat_lt
      omega
  omega

end

end FinalityTracker

end Sccgub
