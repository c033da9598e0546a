import Mathlib
import Sccgub.Runs
import Sccgub.Types.FixedPoint

/-!
# Responsibility

The contributions of an agent and their net sum.  A decay lessens every entry,
drops what is left at next to nothing, caps the lists and sums them up again.  A
record adds its value to the sum it finds and then caps the list, so an entry
that the cap drops stays in the sum.
-/

namespace Sccgub

open FixedWidth

/-! ## Decay -/

@[irreducible] def maxContributions : Nat := 1000

theorem maxContributions_pos : 0 < maxContributions := by
  rw [maxContributions]
  decide

def TensionValue.one : TensionValue := ⟨I128.saturate TensionValue.scale⟩

/-- `while e > 0`, halving the exponent; 64 rounds see every bit of it. -/
def expLoop : Nat → TensionValue → TensionValue → Nat → TensionValue
  | 0, result, _, _ => result
  | fuel + 1, result, b, e =>
      if e = 0 then result
      else expLoop fuel (if e % 2 = 1 then result.mulFp b else result) (b.mulFp b) (e / 2)

def expBySquaring (base : TensionValue) (exp : UInt64) : TensionValue :=
  if exp = 0 then .one else expLoop 64 .one base exp.toNat

/-- The age is cut off at two hundred blocks. -/
def decayEntry (factor : TensionValue) (currentHeight : UInt64) (entry : ResponsibilityEntry) :
    ResponsibilityEntry :=
  let age := saturatingSub currentHeight entry.blockHeight
  if age > 0 then
    { entry with
      rValue := entry.rValue.mulFp (expBySquaring factor (min age 200))
      blockHeight := currentHeight }
  else entry

/-- More than one raw unit, of either sign. -/
def isKept (entry : ResponsibilityEntry) : Bool := 1 < entry.rValue.raw.val.natAbs

/-- The oldest entries go first. -/
def capped (entries : List ResponsibilityEntry) : List ResponsibilityEntry :=
  entries.drop (entries.length - maxContributions)

/-- What a decay leaves of a list. -/
def decayed (factor : TensionValue) (currentHeight : UInt64) (entries : List ResponsibilityEntry) :
    List ResponsibilityEntry :=
  capped ((entries.map (decayEntry factor currentHeight)).filter isKept)

def sumOf (entries : List ResponsibilityEntry) : TensionValue :=
  entries.foldl (fun acc e => acc + e.rValue) .zero

namespace ResponsibilityState

def applyDecay (self : ResponsibilityState) (currentHeight : UInt64) : ResponsibilityState :=
  let factor := .one - self.decayFactor
  let positives := decayed factor currentHeight self.positiveContributions
  let negatives := decayed factor currentHeight self.negativeContributions
  { self with
    positiveContributions := positives
    negativeContributions := negatives
    netResponsibility := sumOf positives - sumOf negatives }

def recordPositive (self : ResponsibilityState) (txId : TransitionId) (value : TensionValue)
    (height : UInt64) : ResponsibilityState :=
  { self with
    positiveContributions := capped (self.positiveContributions ++ [⟨txId, value, height⟩])
    netResponsibility := self.netResponsibility + value }

def recordNegative (self : ResponsibilityState) (txId : TransitionId) (value : TensionValue)
    (height : UInt64) : ResponsibilityState :=
  { self with
    negativeContributions := capped (self.negativeContributions ++ [⟨txId, value, height⟩])
    netResponsibility := self.netResponsibility - value }

inductive Call where
  | recordPositive (txId : TransitionId) (value : TensionValue) (height : UInt64)
  | recordNegative (txId : TransitionId) (value : TensionValue) (height : UInt64)
  | applyDecay (currentHeight : UInt64)

def step (self : ResponsibilityState) : Call → ResponsibilityState
  | .recordPositive txId value height => self.recordPositive txId value height
  | .recordNegative txId value height => self.recordNegative txId value height
  | .applyDecay currentHeight => self.applyDecay currentHeight

section

variable (self : ResponsibilityState) (txId : TransitionId) (value : TensionValue)
  (height : UInt64)

@[simp] theorem positiveContributions_recordPositive :
    (self.recordPositive txId value height).positiveContributions
      = capped (self.positiveContributions ++ [⟨txId, value, height⟩]) := rfl

@[simp] theorem negativeContributions_recordPositive :
    (self.recordPositive txId value height).negativeContributions
      = self.negativeContributions := rfl

@[simp] theorem netResponsibility_recordPositive :
    (self.recordPositive txId value height).netResponsibility
      = self.netResponsibility + value := rfl

@[simp] theorem positiveContributions_recordNegative :
    (self.recordNegative txId value height).positiveContributions
      = self.positiveContributions := rfl

@[simp] theorem negativeContributions_recordNegative :
    (self.recordNegative txId value height).negativeContributions
      = capped (self.negativeContributions ++ [⟨txId, value, height⟩]) := rfl

@[simp] theorem netResponsibility_recordNegative :
    (self.recordNegative txId value height).netResponsibility
      = self.netResponsibility - value := rfl

@[simp] theorem positiveContributions_applyDecay :
    (self.applyDecay height).positiveContributions
      = decayed (.one - self.decayFactor) height self.positiveContributions := rfl

@[simp] theorem negativeContributions_applyDecay :
    (self.applyDecay height).negativeContributions
      = decayed (.one - self.decayFactor) height self.negativeContributions := rfl

theorem netResponsibility_applyDecay :
    (self.applyDecay height).netResponsibility
      = sumOf (self.applyDecay height).positiveContributions
        - sumOf (self.applyDecay height).negativeContributions := rfl

end

end ResponsibilityState

/-! ## Sums -/

/-- The sum of the values, over the integers. -/
def total (entries : List ResponsibilityEntry) : Int := (entries.map (·.rValue.raw.val)).sum

def InRange (x : Int) : Prop := -2 ^ 127 ≤ x ∧ x ≤ i128Max

instance (x : Int) : Decidable (InRange x) := inferInstanceAs (Decidable (_ ∧ _))

/-- No partial sum saturates. -/
def SumsExactly (entries : List ResponsibilityEntry) : Prop :=
  ∀ l ∈ entries.inits, InRange (total l)

instance (entries : List ResponsibilityEntry) : Decidable (SumsExactly entries) :=
  inferInstanceAs (Decidable (∀ l ∈ _, _))

theorem total_append (l l' : List ResponsibilityEntry) : total (l ++ l') = total l + total l' := by
  simp [total]

theorem saturate_val_of_inRange {x : Int} (h : InRange x) : (I128.saturate x).val = x :=
  I128.val_saturate_of_range h.1 h.2

theorem add_val_of_inRange {a b : TensionValue} (h : InRange (a.raw.val + b.raw.val)) :
    (a + b).raw.val = a.raw.val + b.raw.val :=
  saturate_val_of_inRange h

theorem sub_val_of_inRange {a b : TensionValue} (h : InRange (a.raw.val - b.raw.val)) :
    (a - b).raw.val = a.raw.val - b.raw.val :=
  saturate_val_of_inRange h

theorem sumOf_val {entries : List ResponsibilityEntry} (h : SumsExactly entries) :
    (sumOf entries).raw.val = total entries := by
  induction entries using List.reverseRecOn with
  | nil => rfl
  | append_singleton entries entry ih =>
      have hprefix : SumsExactly entries := fun l hl =>
        h l (List.mem_inits _ _ |>.mpr ((List.mem_inits _ _ |>.mp hl).trans (List.prefix_append _ _)))
      have hall : InRange (total (entries ++ [entry])) :=
        h _ (List.mem_inits _ _ |>.mpr (List.prefix_refl _))
      have hentry : total [entry] = entry.rValue.raw.val := by simp [total]
      have hfold : sumOf (entries ++ [entry]) = sumOf entries + entry.rValue := by
        simp [sumOf, List.foldl_append]
      rw [total_append, hentry] at hall ⊢
      rw [← ih hprefix] at hall ⊢
      rw [hfold, add_val_of_inRange hall]

theorem length_capped_le (entries : List ResponsibilityEntry) :
    (capped entries).length ≤ maxContributions := by
  rw [capped, List.length_drop]
  omega

/-- A full list makes room by its oldest entry. -/
theorem total_capped_snoc {entries : List ResponsibilityEntry} {entry : ResponsibilityEntry}
    (h : entries.length ≤ maxContributions) :
    total (capped (entries ++ [entry])) = total entries + entry.rValue.raw.val
      - if entries.length = maxContributions then total (entries.take 1) else 0 := by
  have hentry : total [entry] = entry.rValue.raw.val := by simp [total]
  unfold capped
  rw [List.length_append, List.length_singleton]
  split_ifs with hfull
  · have hsplit := total_append (entries.take 1) (entries.drop 1)
    rw [List.take_append_drop] at hsplit
    have hone : entries.length + 1 - maxContributions = 1 := by omega
    have hpos : 1 ≤ entries.length := hfull ▸ maxContributions_pos
    rw [hone, List.drop_append_of_le_length hpos, total_append, hentry, hsplit]
    omega
  · have hnone : entries.length + 1 - maxContributions = 0 := by omega
    rw [hnone, List.drop_zero, total_append, hentry]
    omega

namespace ResponsibilityState

/-! ## The net sum across runs -/

def NetIsSum (self : ResponsibilityState) : Prop :=
  self.netResponsibility.raw.val
    = total self.positiveContributions - total self.negativeContributions

def IsCapped (self : ResponsibilityState) : Prop :=
  self.positiveContributions.length ≤ maxContributions
    ∧ self.negativeContributions.length ≤ maxContributions

/-- No sum of a call saturates. -/
def CallSumsExactly (self : ResponsibilityState) : Call → Prop
  | .recordPositive _ value _ => InRange (self.netResponsibility.raw.val + value.raw.val)
  | .recordNegative _ value _ => InRange (self.netResponsibility.raw.val - value.raw.val)
  | .applyDecay currentHeight =>
      SumsExactly (self.applyDecay currentHeight).positiveContributions
        ∧ SumsExactly (self.applyDecay currentHeight).negativeContributions
        ∧ InRange (total (self.applyDecay currentHeight).positiveContributions
          - total (self.applyDecay currentHeight).negativeContributions)

/-- A record on a full list drops an entry of value zero. -/
def DropsNothing (self : ResponsibilityState) : Call → Prop
  | .recordPositive _ _ _ => self.positiveContributions.length = maxContributions →
      ∀ entry ∈ self.positiveContributions.take 1, entry.rValue.raw.val = 0
  | .recordNegative _ _ _ => self.negativeContributions.length = maxContributions →
      ∀ entry ∈ self.negativeContributions.take 1, entry.rValue.raw.val = 0
  | .applyDecay _ => True

instance (self : ResponsibilityState) : (c : Call) → Decidable (self.CallSumsExactly c)
  | .recordPositive _ _ _ => inferInstanceAs (Decidable (InRange _))
  | .recordNegative _ _ _ => inferInstanceAs (Decidable (InRange _))
  | .applyDecay _ => inferInstanceAs (Decidable (_ ∧ _ ∧ _))

instance (self : ResponsibilityState) : (c : Call) → Decidable (self.DropsNothing c)
  | .recordPositive _ _ _ => inferInstanceAs (Decidable (_ → ∀ entry ∈ _, _))
  | .recordNegative _ _ _ => inferInstanceAs (Decidable (_ → ∀ entry ∈ _, _))
  | .applyDecay _ => .isTrue trivial

theorem isCapped_step {self : ResponsibilityState} {c : Call} (h : self.IsCapped) :
    (self.step c).IsCapped := by
  unfold IsCapped
  cases c with
  | recordPositive txId value height =>
      rw [step, positiveContributions_recordPositive, negativeContributions_recordPositive]
      exact ⟨length_capped_le _, h.2⟩
  | recordNegative txId value height =>
      rw [step, positiveContributions_recordNegative, negativeContributions_recordNegative]
      exact ⟨h.1, length_capped_le _⟩
  | applyDecay currentHeight =>
      rw [step, positiveContributions_applyDecay, negativeContributions_applyDecay, decayed, decayed]
      exact ⟨length_capped_le _, length_capped_le _⟩

/-- The total of what is first in a list is zero exactly if it is. -/
theorem total_take_one_eq_zero_iff {entries : List ResponsibilityEntry} :
    total (entries.take 1) = 0 ↔ ∀ entry ∈ entries.take 1, entry.rValue.raw.val = 0 := by
  cases entries with
  | nil => simp [total]
  | cons entry entries => simp [total]

theorem netIsSum_step_iff {self : ResponsibilityState} {c : Call} (hcapped : self.IsCapped)
    (hexact : self.CallSumsExactly c) (h : self.NetIsSum) :
    (self.step c).NetIsSum ↔ self.DropsNothing c := by
  unfold NetIsSum at *
  cases c with
  | recordPositive txId value height =>
      rw [step, positiveContributions_recordPositive, negativeContributions_recordPositive,
        netResponsibility_recordPositive, add_val_of_inRange hexact, total_capped_snoc hcapped.1,
        DropsNothing, ← total_take_one_eq_zero_iff]
      split_ifs with hfull
      · simp only [hfull, true_imp_iff]
        omega
      · simp only [hfull, false_imp_iff, iff_true]
        omega
  | recordNegative txId value height =>
      rw [step, positiveContributions_recordNegative, negativeContributions_recordNegative,
        netResponsibility_recordNegative, sub_val_of_inRange hexact, total_capped_snoc hcapped.2,
        DropsNothing, ← total_take_one_eq_zero_iff]
      split_ifs with hfull
      · simp only [hfull, true_imp_iff]
        omega
      · simp only [hfull, false_imp_iff, iff_true]
        omega
  | applyDecay currentHeight =>
      obtain ⟨hpositive, hnegative, hnet⟩ := hexact
      rw [← sumOf_val hpositive, ← sumOf_val hnegative] at hnet
      refine iff_of_true ?_ trivial
      rw [step, netResponsibility_applyDecay, sub_val_of_inRange hnet, sumOf_val hpositive,
        sumOf_val hnegative]

/-- The lists never grow past their cap, and the net sum is that of their entries
as long as no record drops an entry that counts. -/
theorem netIsSum_iff (calls : List Call)
    (hexact : Runs.Along step CallSumsExactly default calls) :
    Runs.Throughout step IsCapped default calls
      ∧ (Runs.Throughout step NetIsSum default calls
        ↔ Runs.Along step DropsNothing default calls) := by
  have hstart : IsCapped default := ⟨Nat.zero_le _, Nat.zero_le _⟩
  constructor
  · refine Runs.throughout_of_step ?_ hstart
    intro self c h
    exact isCapped_step h
  · refine Runs.throughout_iff_along_of (J := IsCapped) (D := CallSumsExactly) ?_ ?_ hstart hexact
      rfl
    · intro self c h _
      exact isCapped_step h
    · intro self c hcapped hcall h
      exact netIsSum_step_iff hcapped hcall h

/-- Ten units, less three, and four blocks of decay. -/
def fewCalls : List Call :=
  [.recordPositive zeroHash (.fromInteger 10) 1, .recordNegative zeroHash (.fromInteger 3) 2,
    .applyDecay 5]

theorem fewCalls_netIsSum : Runs.Throughout step NetIsSum default fewCalls :=
  (netIsSum_iff fewCalls (by decide +kernel)).2.mpr (by decide +kernel)

/-! ## A full list -/

/-- One unit at height one, as often as asked. -/
def unitState (n : Nat) : ResponsibilityState :=
  { (default : ResponsibilityState) with
    positiveContributions := List.replicate n ⟨zeroHash, .one, 1⟩
    netResponsibility := .fromInteger n }

def recordUnit : Call := .recordPositive zeroHash .one 1

theorem foldl_recordUnit {n : Nat} (h : n ≤ maxContributions) (hsmall : n ≤ 10000) :
    (List.replicate n recordUnit).foldl step default = unitState n := by
  induction n with
  | zero => decide +kernel
  | succ n ih =>
      have hlist : capped (List.replicate n (⟨zeroHash, .one, 1⟩ : ResponsibilityEntry)
          ++ [⟨zeroHash, .one, 1⟩]) = List.replicate (n + 1) ⟨zeroHash, .one, 1⟩ := by
        rw [capped, ← List.replicate_succ', List.length_replicate, Nat.sub_eq_zero_of_le h,
          List.drop_zero]
      have hone : (TensionValue.one).raw.val = TensionValue.scale := by decide
      have hscale : TensionValue.scale = 1000000000000000000 := rfl
      have hval (m : Nat) (hm : m ≤ 10000) :
          (TensionValue.fromInteger m).raw.val = m * TensionValue.scale :=
        I128.val_saturate_of_range (by rw [hscale]; omega) (by rw [hscale]; omega)
      have hnet : TensionValue.fromInteger n + .one = TensionValue.fromInteger (n + 1 : Nat) := by
        refine TensionValue.ext_val ?_
        rw [add_val_of_inRange, hval n (by omega), hval (n + 1) hsmall, hone]
        · push_cast
          ring
        · rw [hval n (by omega), hone, InRange, i128Max, hscale]
          omega
      rw [List.replicate_succ', List.foldl_append, ih (by omega) (by omega)]
      show ResponsibilityState.recordPositive (unitState n) zeroHash .one 1 = unitState (n + 1)
      unfold ResponsibilityState.recordPositive unitState
      simp only [hlist, hnet]

/-- One record more than the cap: the unit that is dropped stays in the sum. -/
theorem not_netIsSum_recordUnit :
    ¬ Runs.Throughout step NetIsSum default (List.replicate (maxContributions + 1) recordUnit) := by
  intro h
  have hmax : maxContributions = 1000 := by rw [maxContributions]
  have hlast := h.last
  rw [List.replicate_succ', List.foldl_append, foldl_recordUnit le_rfl (by omega)] at hlast
  have htotal : total (unitState maxContributions).positiveContributions
      = maxContributions * TensionValue.scale := by
    simp only [total, unitState, List.map_replicate, List.sum_replicate, nsmul_eq_mul]
    rfl
  have hnet : (unitState maxContributions).netResponsibility.raw.val
      = maxContributions * TensionValue.scale := by
    rw [hmax]
    decide
  have hfull : (unitState maxContributions).positiveContributions.length = maxContributions :=
    List.length_replicate
  have hsum : (unitState maxContributions).NetIsSum := by
    rw [NetIsSum, hnet, htotal]
    exact (Int.sub_zero _).symm
  have hexact : (unitState maxContributions).CallSumsExactly recordUnit := by
    show InRange ((unitState maxContributions).netResponsibility.raw.val + _)
    rw [hnet, hmax]
    decide
  have hdrops := (netIsSum_step_iff ⟨hfull.le, Nat.zero_le _⟩ hexact hsum).mp hlast
  have hzero := hdrops hfull ⟨zeroHash, .one, 1⟩ (by
    rw [unitState, hmax]
    exact List.mem_cons_self)
  exact absurd hzero (by decide)

end ResponsibilityState

end Sccgub
