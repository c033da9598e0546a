import Mathlib
import Sccgub.Node.Penalties
import Sccgub.Runs

/-!
# Stakes

The calls that change the stakes: setting one, the three penalties, and presence
that ends a run of absences.  Penalties are shares of the stake and are written
down as events; a validator is removed for a stake that is gone and for too many
absences in a row.

`Tracked` follows an engine through its calls and keeps what they amount to.
The penalty for absence, alone of the three, does not look at what is left of
the stake (`stakes_accounted_iff`).
-/

namespace Sccgub

open FixedWidth Runs

namespace SlashingEngine

/-! ## Penalties -/

/-- A share of the stake in hundredths, capped by the stake. -/
def penaltyRaw (stake : TensionValue) (pct : UInt32) : Int :=
  let stakeRaw := max stake.raw.val 0
  min ((I128.saturate (stakeRaw * pct.toNat)).val.tdiv 100) stakeRaw

/-- What is left of it. -/
def deducted (stake : TensionValue) (pct : UInt32) : TensionValue :=
  ⟨I128.saturate (max (I128.saturate (stake.raw.val - penaltyRaw stake pct)).val 0)⟩

def penaltyEvent (validator : Hash) (stake : TensionValue) (pct : UInt32)
    (violation : ViolationType) (epoch : UInt64) (evidence : SlashingEvidence) : SlashingEvent where
  validatorId := validator
  violation
  penalty := ⟨I128.saturate (penaltyRaw stake pct)⟩
  epoch
  evidence

/-- The penalty is deducted and written down. -/
def charge (self : SlashingEngine) (stake : TensionValue) (pct : UInt32) (event : SlashingEvent) :
    SlashingEngine :=
  { self with
    stakes := self.stakes.insert event.validatorId (deducted stake pct)
    events := self.events ++ [event] }

def removeIf (self : SlashingEngine) (validator : Hash) (condition : Bool) : SlashingEngine :=
  { self with removed := if condition then self.removed ++ [validator] else self.removed }

def slashDivergence (self : SlashingEngine) (validator validatorLawHash consensusLawHash : Hash)
    (epoch : UInt64) : Except String (SlashingEvent × SlashingEngine) :=
  match self.stakes[validator]? with
  | none => .error "Validator not found"
  | some stake =>
      let pct := self.config.divergencePenaltyPct
      let event := penaltyEvent validator stake pct .lawSetDivergence epoch
        (.lawDivergence validatorLawHash consensusLawHash)
      .ok (event, (self.charge stake pct event).removeIf validator
        ((deducted stake pct).raw.val ≤ 0))

/-- The absence counts without a stake too; only the count decides about removal. -/
def recordAbsence (self : SlashingEngine) (validator : Hash) (epoch : UInt64) :
    Option SlashingEvent × SlashingEngine :=
  let counter :=
    UInt32.ofNat (min ((self.absenceCounter[validator]?.getD 0).toNat + 1) (2 ^ 32 - 1))
  let counted := { self with absenceCounter := self.absenceCounter.insert validator counter }
  match self.stakes[validator]? with
  | none => (none, counted)
  | some stake =>
      let pct := self.config.absencePenaltyPctPerEpoch
      let event := penaltyEvent validator stake pct (.absence counter) epoch
        (.absenceRecord [epoch])
      (some event, (counted.charge stake pct event).removeIf validator
        (self.config.maxAbsenceEpochs ≤ counter))

def isRemoved (self : SlashingEngine) (validator : Hash) : Bool := self.removed.contains validator

/-- The third penalty is of the same form. -/
theorem slashDoubleSign_eq (self : SlashingEngine) (proof : EquivocationProof) (epoch : UInt64) :
    self.slashDoubleSign proof epoch = match self.stakes[proof.validatorId]? with
      | none => .error "Validator not found"
      | some stake =>
          let pct := self.config.doubleSignPenaltyPct
          let event := penaltyEvent proof.validatorId stake pct .doubleSigning epoch
            (.equivocation proof)
          .ok (event, (self.charge stake pct event).removeIf proof.validatorId
            ((deducted stake pct).raw.val ≤ 0)) := by
  rw [slashDoubleSign]
  rcases self.stakes[proof.validatorId]? with _ | stake
  · rfl
  · simp only [removeIf, decide_eq_true_eq]
    rfl

section

variable {stake : TensionValue} {pct : UInt32}

theorem val_penaltyRaw (hstake : 0 ≤ stake.raw.val) :
    penaltyRaw stake pct
      = min (min (stake.raw.val * pct.toNat) (2 ^ 127 - 1) / 100) stake.raw.val := by
  have hprod : 0 ≤ stake.raw.val * pct.toNat := Int.mul_nonneg hstake (Int.natCast_nonneg _)
  have hsat : (I128.saturate (stake.raw.val * pct.toNat)).val
      = min (stake.raw.val * pct.toNat) (2 ^ 127 - 1) := by
    rw [I128.val_saturate]
    omega
  rw [penaltyRaw, max_eq_left hstake, hsat, Int.tdiv_eq_ediv_of_nonneg (by omega)]

theorem penaltyRaw_range (hstake : 0 ≤ stake.raw.val) :
    0 ≤ penaltyRaw stake pct ∧ penaltyRaw stake pct ≤ stake.raw.val := by
  have hprod : 0 ≤ stake.raw.val * pct.toNat := Int.mul_nonneg hstake (Int.natCast_nonneg _)
  rw [val_penaltyRaw hstake]
  omega

theorem val_deducted (hstake : 0 ≤ stake.raw.val) :
    (deducted stake pct).raw.val = stake.raw.val - penaltyRaw stake pct := by
  obtain ⟨hlo, hhi⟩ := @penaltyRaw_range stake pct hstake
  have hmax := stake.raw.le_max
  simp only [deducted, I128.val_saturate]
  omega

/-- A stake goes as a whole if the share is all of it and the product does not saturate. -/
theorem deducted_eq_zero_iff (hstake : 0 < stake.raw.val) :
    (deducted stake pct).raw.val = 0 ↔ 100 ≤ pct.toNat ∧ stake.raw.val ≤ (2 ^ 127 - 1) / 100 := by
  rw [val_deducted hstake.le, val_penaltyRaw hstake.le]
  constructor
  · intro h
    have hshare : stake.raw.val ≤ min (stake.raw.val * pct.toNat) (2 ^ 127 - 1) / 100 := by omega
    have hmul : stake.raw.val * 100 ≤ stake.raw.val * pct.toNat := by omega
    have hpct : (100 : Int) ≤ pct.toNat := Int.le_of_mul_le_mul_left hmul hstake
    exact ⟨by omega, by omega⟩
  · rintro ⟨hpct, hroom⟩
    have hpct : (100 : Int) ≤ pct.toNat := by omega
    have hmul : stake.raw.val * 100 ≤ stake.raw.val * pct.toNat :=
      Int.mul_le_mul_of_nonneg_left hpct hstake.le
    omega

end

end SlashingEngine

/-! ## Calls -/

inductive StakeCall where
  | setStake (validator : Hash) (stake : TensionValue)
  | slashDoubleSign (proof : EquivocationProof) (epoch : UInt64)
  | slashDivergence (validator validatorLawHash consensusLawHash : Hash) (epoch : UInt64)
  | recordAbsence (validator : Hash) (epoch : UInt64)
  | recordPresence (validator : Hash)

namespace StakeCall

def validator : StakeCall → Hash
  | .setStake validator _ | .slashDivergence validator _ _ _ | .recordAbsence validator _
  | .recordPresence validator => validator
  | .slashDoubleSign proof _ => proof.validatorId

/-- Stakes are not set below zero. -/
def NonNegative : StakeCall → Prop
  | .setStake _ stake => 0 ≤ stake.raw.val
  | _ => True

/-- The share that a penalty takes. -/
def pct? (config : SlashingConfig) : StakeCall → Option UInt32
  | .slashDoubleSign _ _ => some config.doubleSignPenaltyPct
  | .slashDivergence _ _ _ _ => some config.divergencePenaltyPct
  | .recordAbsence _ _ => some config.absencePenaltyPctPerEpoch
  | .setStake _ _ | .recordPresence _ => none

end StakeCall

namespace SlashingEngine

def perform (self : SlashingEngine) : StakeCall → SlashingEngine
  | .setStake validator stake => self.setStake validator stake
  | .slashDoubleSign proof epoch =>
      match self.slashDoubleSign proof epoch with
      | .error _ => self
      | .ok (_, engine) => engine
  | .slashDivergence validator validatorLawHash consensusLawHash epoch =>
      match self.slashDivergence validator validatorLawHash consensusLawHash epoch with
      | .error _ => self
      | .ok (_, engine) => engine
  | .recordAbsence validator epoch => (self.recordAbsence validator epoch).2
  | .recordPresence validator => self.recordPresence validator

theorem toNat_ofNat_capped (n : Nat) :
    (UInt32.ofNat (min n (2 ^ 32 - 1))).toNat = min n (2 ^ 32 - 1) := by
  rw [UInt32.toNat_ofNat', Nat.mod_eq_of_lt (by omega)]

def absences (self : SlashingEngine) (validator : Hash) : Nat :=
  (self.absenceCounter[validator]?.getD 0).toNat

/-- Whether the penalty of a call removes its validator. -/
def removes (self : SlashingEngine) (stake : TensionValue) (pct : UInt32) (call : StakeCall) :
    Bool :=
  match call with
  | .recordAbsence validator _ =>
      self.config.maxAbsenceEpochs.toNat ≤ min (self.absences validator + 1) (2 ^ 32 - 1)
  | .slashDoubleSign _ _ | .slashDivergence _ _ _ _ | .setStake _ _ | .recordPresence _ =>
      (deducted stake pct).raw.val ≤ 0

/-- What a penalty does to an engine. -/
structure Charged (before after : SlashingEngine) (call : StakeCall) (stake : TensionValue)
    (pct : UInt32) : Prop where
  stakes : after.stakes = before.stakes.insert call.validator (deducted stake pct)
  events : ∃ event : SlashingEvent, after.events = before.events ++ [event]
    ∧ event.validatorId = call.validator
    ∧ event.penalty = ⟨I128.saturate (penaltyRaw stake pct)⟩
  removed : after.removed
    = if before.removes stake pct call then before.removed ++ [call.validator] else before.removed

variable {self : SlashingEngine} {call : StakeCall} {stake : TensionValue} {pct : UInt32}

theorem perform_charged (hpct : call.pct? self.config = some pct)
    (hstake : self.stakes[call.validator]? = some stake) :
    self.Charged (self.perform call) call stake pct := by
  cases call with
  | setStake | recordPresence => cases hpct
  | slashDoubleSign proof epoch =>
      cases hpct
      have hstake : self.stakes[proof.validatorId]? = some stake := hstake
      rw [perform, slashDoubleSign_eq, hstake]
      exact ⟨rfl, ⟨_, rfl, rfl, rfl⟩, rfl⟩
  | slashDivergence validator validatorLawHash consensusLawHash epoch =>
      cases hpct
      have hstake : self.stakes[validator]? = some stake := hstake
      rw [perform, slashDivergence, hstake]
      exact ⟨rfl, ⟨_, rfl, rfl, rfl⟩, rfl⟩
  | recordAbsence validator epoch =>
      cases hpct
      have hstake : self.stakes[validator]? = some stake := hstake
      have hcounter : ∀ n : Nat, (self.config.maxAbsenceEpochs
          ≤ UInt32.ofNat (min (n + 1) (2 ^ 32 - 1)))
          ↔ self.config.maxAbsenceEpochs.toNat ≤ min (n + 1) (2 ^ 32 - 1) := by
        intro n
        rw [UInt32.le_iff_toNat_le, toNat_ofNat_capped]
      rw [perform, recordAbsence, hstake]
      refine ⟨rfl, ⟨_, rfl, rfl, rfl⟩, ?_⟩
      simp only [removeIf, removes, decide_eq_true_eq, hcounter]
      rfl

/-- Without a stake there is nothing to take. -/
theorem perform_unstaked (hpct : call.pct? self.config = some pct)
    (hstake : self.stakes[call.validator]? = none) :
    (self.perform call).stakes = self.stakes ∧ (self.perform call).events = self.events
      ∧ (self.perform call).removed = self.removed := by
  cases call with
  | setStake | recordPresence => cases hpct
  | slashDoubleSign proof epoch =>
      have hstake : self.stakes[proof.validatorId]? = none := hstake
      rw [perform, slashDoubleSign_eq, hstake]
      exact ⟨rfl, rfl, rfl⟩
  | slashDivergence validator validatorLawHash consensusLawHash epoch =>
      have hstake : self.stakes[validator]? = none := hstake
      rw [perform, slashDivergence, hstake]
      exact ⟨rfl, rfl, rfl⟩
  | recordAbsence validator epoch =>
      have hstake : self.stakes[validator]? = none := hstake
      rw [perform, recordAbsence, hstake]
      exact ⟨rfl, rfl, rfl⟩

/-- A call is about the stake of one validator. -/
theorem stakes_perform_of_ne (self : SlashingEngine) (call : StakeCall) {validator : Hash}
    (h : validator ≠ call.validator) :
    (self.perform call).stakes[validator]? = self.stakes[validator]? := by
  have hinsert : ∀ stake : TensionValue,
      (self.stakes.insert call.validator stake)[validator]? = self.stakes[validator]? := by
    intro stake
    rw [Std.ExtTreeMap.getElem?_insert,
      if_neg fun hc => h (Std.LawfulEqCmp.eq_of_compare hc).symm]
  rcases hpct : call.pct? self.config with _ | pct
  · cases call with
    | setStake validator stake => exact hinsert stake
    | recordPresence => rfl
    | slashDoubleSign | slashDivergence | recordAbsence => cases hpct
  · rcases hstake : self.stakes[call.validator]? with _ | stake
    · rw [(perform_unstaked hpct hstake).1]
    · rw [(perform_charged hpct hstake).stakes, hinsert]

/-- The count of absences, which no other call touches. -/
theorem absences_perform (self : SlashingEngine) (call : StakeCall) (validator : Hash) :
    (self.perform call).absences validator = match call with
      | .recordAbsence v _ => if v = validator then min (self.absences v + 1) (2 ^ 32 - 1)
          else self.absences validator
      | .recordPresence v => if v = validator then 0 else self.absences validator
      | _ => self.absences validator := by
  cases call with
  | setStake => rfl
  | slashDoubleSign proof epoch =>
      rw [perform, slashDoubleSign_eq]
      rcases self.stakes[proof.validatorId]? with _ | stake <;> rfl
  | slashDivergence v validatorLawHash consensusLawHash epoch =>
      rw [perform, slashDivergence]
      rcases self.stakes[v]? with _ | stake <;> rfl
  | recordAbsence v epoch =>
      have hinsert : (self.perform (.recordAbsence v epoch)).absenceCounter
          = self.absenceCounter.insert v
            (UInt32.ofNat (min (self.absences v + 1) (2 ^ 32 - 1))) := by
        rw [perform, recordAbsence]
        rcases self.stakes[v]? with _ | stake <;> rfl
      simp only [absences] at hinsert ⊢
      rw [hinsert, Std.ExtTreeMap.getElem?_insert]
      by_cases hv : v = validator
      · rw [if_pos hv, if_pos (by rw [hv]; exact Std.ReflCmp.compare_self), Option.getD_some,
          toNat_ofNat_capped]
      · rw [if_neg hv, if_neg fun hc => hv (Std.LawfulEqCmp.eq_of_compare hc)]
  | recordPresence v =>
      simp only [absences, perform, recordPresence]
      rw [Std.ExtTreeMap.getElem?_erase]
      by_cases hv : v = validator
      · rw [if_pos hv, if_pos (by rw [hv]; exact Std.ReflCmp.compare_self)]
        rfl
      · rw [if_neg hv, if_neg fun hc => hv (Std.LawfulEqCmp.eq_of_compare hc)]

end SlashingEngine

namespace SlashingEngine

/-! ## Removals -/

def stakeOf (self : SlashingEngine) (validator : Hash) : Int :=
  match self.stakes[validator]? with
  | none => 0
  | some stake => stake.raw.val

/-- A penalty takes what was left of a stake. -/
def empties (self : SlashingEngine) (call : StakeCall) : Bool :=
  (call.pct? self.config).isSome && 0 < self.stakeOf call.validator
    && (self.perform call).stakeOf call.validator = 0

/-- Absence that goes on for long enough, of a validator with a stake, given the
absences before it. -/
def outstays (self : SlashingEngine) (streak : Hash → Nat) : StakeCall → Bool
  | .recordAbsence validator _ => self.stakes.contains validator
      && self.config.maxAbsenceEpochs.toNat ≤ streak validator + 1
  | _ => false

/-- The penalty for an absence that is one of few takes the whole stake: it is
all of the stake, and the product does not saturate. -/
def overlooks (self : SlashingEngine) : StakeCall → Bool
  | .recordAbsence validator _ => !self.isRemoved validator
      && self.absences validator + 1 < self.config.maxAbsenceEpochs.toNat
      && 100 ≤ self.config.absencePenaltyPctPerEpoch.toNat
      && 0 < self.stakeOf validator && self.stakeOf validator ≤ (2 ^ 127 - 1) / 100
  | _ => false

variable {self : SlashingEngine} {call : StakeCall} {stake : TensionValue} {pct : UInt32}

theorem stakeOf_of_some {validator : Hash} (h : self.stakes[validator]? = some stake) :
    self.stakeOf validator = stake.raw.val := by
  rw [stakeOf, h]

theorem stakeOf_of_none {validator : Hash} (h : self.stakes[validator]? = none) :
    self.stakeOf validator = 0 := by
  rw [stakeOf, h]

theorem Charged.stake_after {before after : SlashingEngine}
    (hc : before.Charged after call stake pct) :
    after.stakes[call.validator]? = some (deducted stake pct) := by
  rw [hc.stakes, Std.ExtTreeMap.getElem?_insert_self]

theorem empties_iff (hpct : call.pct? self.config = some pct)
    (hstake : self.stakes[call.validator]? = some stake) :
    self.empties call ↔ 0 < stake.raw.val ∧ (deducted stake pct).raw.val = 0 := by
  have hafter := (perform_charged hpct hstake).stake_after
  simp only [empties, hpct, Option.isSome_some, Bool.true_and, Bool.and_eq_true, decide_eq_true_eq,
    stakeOf_of_some hstake, stakeOf_of_some hafter]

/-- The removals of a call. -/
theorem isRemoved_of_charged {after : SlashingEngine} (hc : self.Charged after call stake pct)
    (validator : Hash) : after.isRemoved validator ↔ self.isRemoved validator
      ∨ (self.removes stake pct call ∧ validator = call.validator) := by
  simp only [isRemoved, hc.removed, List.contains_iff_mem]
  split
  case isTrue h => simp [h]
  case isFalse h => simp [h]

/-- A call without a penalty removes no one, and one about no stake neither. -/
theorem removed_perform (h : call.pct? self.config = none ∨ self.stakes[call.validator]? = none) :
    (self.perform call).removed = self.removed := by
  rcases hpct : call.pct? self.config with _ | pct
  · cases call with
    | setStake | recordPresence => rfl
    | slashDoubleSign | slashDivergence | recordAbsence => cases hpct
  · exact (perform_unstaked hpct (h.resolve_left (by simp [hpct]))).2.2

/-- A removal is for good. -/
theorem isRemoved_perform {validator : Hash} (h : self.isRemoved validator) :
    (self.perform call).isRemoved validator := by
  rcases hpct : call.pct? self.config with _ | pct
  · rw [isRemoved, removed_perform (Or.inl hpct)]
    exact h
  · rcases hstake : self.stakes[call.validator]? with _ | stake
    · rw [isRemoved, removed_perform (Or.inr hstake)]
      exact h
    · exact (isRemoved_of_charged (perform_charged hpct hstake) validator).mpr (Or.inl h)

theorem contains_of_getElem? {validator : Hash} {stake? : Option TensionValue}
    (h : self.stakes[validator]? = stake?) : self.stakes.contains validator = stake?.isSome := by
  rw [← Std.ExtTreeMap.isSome_getElem?_eq_contains, h]

/-- What makes a removal due is followed by one, with one exception. -/
theorem due_iff {streak : Hash → Nat}
    (hstreak : ∀ validator, self.absences validator = min (streak validator) (2 ^ 32 - 1))
    (hstakes : ∀ stake : TensionValue, self.stakes[call.validator]? = some stake →
      0 ≤ stake.raw.val) :
    (self.empties call || self.outstays streak call → (self.perform call).isRemoved call.validator)
      ↔ self.overlooks call = false := by
  rcases hstake : self.stakes[call.validator]? with _ | stake
  · have hnone := stakeOf_of_none hstake
    have hempties : self.empties call = false := by simp [empties, hnone]
    cases call with
    | recordAbsence validator epoch =>
        have hcontains := contains_of_getElem? hstake
        have hzero : self.stakeOf validator = 0 := hnone
        simp only [StakeCall.validator, Option.isSome_none] at hcontains
        simp [hempties, outstays, overlooks, hcontains, hzero]
    | setStake | slashDoubleSign | slashDivergence | recordPresence =>
        simp [hempties, outstays, overlooks]
  have hstake0 := hstakes stake hstake
  cases call with
  | setStake validator stake' => simp [empties, outstays, overlooks, StakeCall.pct?]
  | recordPresence validator => simp [empties, outstays, overlooks, StakeCall.pct?]
  | slashDoubleSign proof epoch =>
      simp only [outstays, overlooks, Bool.or_false, iff_true, empties_iff rfl hstake]
      rintro ⟨-, hzero⟩
      exact (isRemoved_of_charged (perform_charged rfl hstake) _).mpr
        (Or.inr ⟨decide_eq_true hzero.le, rfl⟩)
  | slashDivergence validator validatorLawHash consensusLawHash epoch =>
      simp only [outstays, overlooks, Bool.or_false, iff_true, empties_iff rfl hstake]
      rintro ⟨-, hzero⟩
      exact (isRemoved_of_charged (perform_charged rfl hstake) _).mpr
        (Or.inr ⟨decide_eq_true hzero.le, rfl⟩)
  | recordAbsence validator epoch =>
      have hcontains : self.stakes.contains validator = true := contains_of_getElem? hstake
      have hstakeOf : self.stakeOf validator = stake.raw.val := stakeOf_of_some hstake
      have hmax := self.config.maxAbsenceEpochs.toNat_lt
      have hcount := hstreak validator
      -- the count saturates only where any limit is reached
      have hlong : self.config.maxAbsenceEpochs.toNat ≤ min (self.absences validator + 1) (2 ^ 32 - 1)
          ↔ self.config.maxAbsenceEpochs.toNat ≤ streak validator + 1 := by omega
      have hshort : self.absences validator + 1 < self.config.maxAbsenceEpochs.toNat
          ↔ ¬ self.config.maxAbsenceEpochs.toNat ≤ streak validator + 1 := by omega
      have hoverlooks : self.overlooks (.recordAbsence validator epoch)
          ↔ ¬ self.isRemoved validator ∧ ¬ self.config.maxAbsenceEpochs.toNat ≤ streak validator + 1
            ∧ 0 < stake.raw.val
            ∧ (deducted stake self.config.absencePenaltyPctPerEpoch).raw.val = 0 := by
        simp only [overlooks, hstakeOf, Bool.and_eq_true, Bool.not_eq_true', decide_eq_true_eq,
          hshort, Bool.not_eq_true]
        constructor
        · rintro ⟨⟨⟨⟨hkept, hshort⟩, hpct⟩, hpos⟩, hroom⟩
          exact ⟨hkept, hshort, hpos, (deducted_eq_zero_iff hpos).mpr ⟨hpct, hroom⟩⟩
        · rintro ⟨hkept, hshort, hpos, hzero⟩
          obtain ⟨hpct, hroom⟩ := (deducted_eq_zero_iff hpos).mp hzero
          exact ⟨⟨⟨⟨hkept, hshort⟩, hpct⟩, hpos⟩, hroom⟩
      rw [← Bool.not_eq_true, hoverlooks]
      simp only [StakeCall.validator, Bool.or_eq_true, empties_iff rfl hstake,
        isRemoved_of_charged (perform_charged rfl hstake), removes, outstays, hcontains,
        Bool.true_and, decide_eq_true_eq, hlong, and_true]
      constructor
      · rintro hdue ⟨hkept, hshort, hpos, hzero⟩
        exact (hdue (Or.inl ⟨hpos, hzero⟩)).elim hkept hshort
      · rintro hnot (⟨hpos, hzero⟩ | hlong)
        · by_contra hstays
          exact hnot ⟨fun h => hstays (Or.inl h), fun h => hstays (Or.inr h), hpos, hzero⟩
        · exact Or.inr hlong

end SlashingEngine

/-! ## Runs -/

/-- An engine, and what its calls amount to: the stake set last and the number of
events then, the absences since the last presence, and whose removal is due. -/
structure Tracked where
  engine : SlashingEngine
  lastSet : Hash → Int := fun _ => 0
  setAt : Hash → Nat := fun _ => 0
  streak : Hash → Nat := fun _ => 0
  demanded : List Hash := []

namespace Tracked

def start (config : SlashingConfig) : Tracked := { engine := { config } }

def step (self : Tracked) (call : StakeCall) : Tracked where
  engine := self.engine.perform call
  lastSet := match call with
    | .setStake validator stake => Function.update self.lastSet validator stake.raw.val
    | _ => self.lastSet
  setAt := match call with
    | .setStake validator _ => Function.update self.setAt validator self.engine.events.length
    | _ => self.setAt
  streak := match call with
    | .recordAbsence validator _ =>
        Function.update self.streak validator (self.streak validator + 1)
    | .recordPresence validator => Function.update self.streak validator 0
    | _ => self.streak
  demanded := if self.engine.empties call || self.engine.outstays self.streak call
    then self.demanded ++ [call.validator] else self.demanded

/-- The penalties of a validator's events since its stake was set. -/
def penaltiesSince (self : Tracked) (validator : Hash) : Int :=
  (((self.engine.events.drop (self.setAt validator)).filter fun event =>
    event.validatorId = validator).map fun event => event.penalty.raw.val).sum

/-- Stakes and penalties add up to what was set, and who is to be removed is. -/
structure Sound (log : Tracked) : Prop where
  balanced : ∀ (validator : Hash) (stake : TensionValue),
    log.engine.stakes[validator]? = some stake →
    0 ≤ stake.raw.val ∧ stake.raw.val + log.penaltiesSince validator = log.lastSet validator
  removed : ∀ validator ∈ log.demanded, log.engine.isRemoved validator

/-- The engine counts absences up to saturation. -/
structure Counted (log : Tracked) : Prop where
  absences : ∀ validator, log.engine.absences validator = min (log.streak validator) (2 ^ 32 - 1)
  setAt_le : ∀ validator, log.setAt validator ≤ log.engine.events.length

variable {log : Tracked} {call : StakeCall}

theorem start_counted (config : SlashingConfig) : (start config).Counted where
  absences := by
    intro validator
    simp [SlashingEngine.absences, start]
  setAt_le := fun _ => Nat.zero_le _

theorem start_sound (config : SlashingConfig) : (start config).Sound where
  balanced := by
    intro validator stake h
    simp [start] at h
  removed := by simp [start]

/-- The events of a call are about its validator. -/
theorem events_perform (self : SlashingEngine) (call : StakeCall) :
    ∃ events, (self.perform call).events = self.events ++ events
      ∧ ∀ event ∈ events, event.validatorId = call.validator := by
  rcases hpct : call.pct? self.config with _ | pct
  · refine ⟨[], ?_, by simp⟩
    cases call with
    | setStake | recordPresence => exact (List.append_nil _).symm
    | slashDoubleSign | slashDivergence | recordAbsence => cases hpct
  · rcases hstake : self.stakes[call.validator]? with _ | stake
    · exact ⟨[], by rw [(SlashingEngine.perform_unstaked hpct hstake).2.1, List.append_nil], by simp⟩
    · obtain ⟨event, hevents, hvalidator, -⟩ := (SlashingEngine.perform_charged hpct hstake).events
      exact ⟨[event], hevents, by simpa using hvalidator⟩

theorem Counted.step (hc : log.Counted) : (log.step call).Counted where
  absences := by
    intro validator
    have habsences := hc.absences validator
    have hown := hc.absences call.validator
    cases call with
    | setStake | slashDoubleSign | slashDivergence =>
        simp only [Tracked.step, SlashingEngine.absences_perform]
        exact habsences
    | recordAbsence v epoch =>
        simp only [Tracked.step, SlashingEngine.absences_perform]
        simp only [StakeCall.validator] at hown
        rcases eq_or_ne v validator with rfl | hv
        · rw [if_pos rfl, Function.update_self]
          omega
        · rw [if_neg hv, Function.update_of_ne (Ne.symm hv), habsences]
    | recordPresence v =>
        simp only [Tracked.step, SlashingEngine.absences_perform]
        rcases eq_or_ne v validator with rfl | hv
        · rw [if_pos rfl, Function.update_self]
          rfl
        · rw [if_neg hv, Function.update_of_ne (Ne.symm hv), habsences]
  setAt_le := by
    intro validator
    obtain ⟨events, hevents, -⟩ := events_perform log.engine call
    have hle := hc.setAt_le validator
    cases call with
    | setStake v stake =>
        simp only [Tracked.step, hevents, List.length_append]
        rcases eq_or_ne validator v with rfl | hv
        · rw [Function.update_self]
          omega
        · rw [Function.update_of_ne hv]
          omega
    | slashDoubleSign | slashDivergence | recordAbsence | recordPresence =>
        simp only [Tracked.step, hevents, List.length_append]
        omega

/-- New events count from the point on that the old ones are counted from. -/
theorem penaltiesSince_append (hc : log.Counted) {validator : Hash} {events : List SlashingEvent}
    (hevents : (log.step call).engine.events = log.engine.events ++ events)
    (hset : (log.step call).setAt validator = log.setAt validator) :
    (log.step call).penaltiesSince validator = log.penaltiesSince validator
      + ((events.filter fun event => event.validatorId = validator).map fun event =>
        event.penalty.raw.val).sum := by
  rw [penaltiesSince, penaltiesSince, hevents, hset,
    List.drop_append_of_le_length (hc.setAt_le validator), List.filter_append, List.map_append,
    List.sum_append]

/-- For the other validators nothing changes. -/
theorem Counted.other (hc : log.Counted) {validator : Hash} (hne : validator ≠ call.validator) :
    (log.step call).lastSet validator = log.lastSet validator
      ∧ (log.step call).penaltiesSince validator = log.penaltiesSince validator := by
  have hset : (log.step call).lastSet validator = log.lastSet validator
      ∧ (log.step call).setAt validator = log.setAt validator := by
    cases call with
    | setStake v stake => exact ⟨Function.update_of_ne hne _ _, Function.update_of_ne hne _ _⟩
    | slashDoubleSign | slashDivergence | recordAbsence | recordPresence => exact ⟨rfl, rfl⟩
  obtain ⟨events, hevents, hown⟩ := events_perform log.engine call
  refine ⟨hset.1, ?_⟩
  rw [penaltiesSince_append hc hevents hset.2, List.filter_eq_nil_iff.mpr]
  · simp
  · intro event hevent
    rw [hown event hevent]
    simpa using Ne.symm hne

/-- A penalty is what the stake goes down by. -/
theorem Sound.charged (hs : log.Sound) (hc : log.Counted) {stake : TensionValue} {pct : UInt32}
    (hpct : call.pct? log.engine.config = some pct)
    (hstake : log.engine.stakes[call.validator]? = some stake) :
    0 ≤ (SlashingEngine.deducted stake pct).raw.val
      ∧ (SlashingEngine.deducted stake pct).raw.val + (log.step call).penaltiesSince call.validator
        = (log.step call).lastSet call.validator := by
  obtain ⟨hstake0, hbalance⟩ := hs.balanced _ _ hstake
  obtain ⟨hlo, hhi⟩ := @SlashingEngine.penaltyRaw_range stake pct hstake0
  have hmax := stake.raw.le_max
  obtain ⟨event, hevents, hvalidator, hpenalty⟩ :=
    (SlashingEngine.perform_charged hpct hstake).events
  have hset : (log.step call).lastSet call.validator = log.lastSet call.validator
      ∧ (log.step call).setAt call.validator = log.setAt call.validator := by
    cases call with
    | setStake | recordPresence => cases hpct
    | slashDoubleSign | slashDivergence | recordAbsence => exact ⟨rfl, rfl⟩
  have hraw : event.penalty.raw.val = SlashingEngine.penaltyRaw stake pct := by
    rw [hpenalty, I128.val_saturate_of_range (by omega) (by omega)]
  rw [SlashingEngine.val_deducted hstake0, penaltiesSince_append hc hevents hset.2, hset.1]
  simp only [hvalidator, List.filter_cons, List.filter_nil, decide_true, if_true, List.map_cons,
    List.map_nil, List.sum_cons, List.sum_nil, hraw]
  omega

theorem Sound.balanced_step (hs : log.Sound) (hc : log.Counted) (hcall : call.NonNegative)
    (validator : Hash) (stake : TensionValue)
    (hstake : (log.step call).engine.stakes[validator]? = some stake) :
    0 ≤ stake.raw.val
      ∧ stake.raw.val + (log.step call).penaltiesSince validator
        = (log.step call).lastSet validator := by
  rcases ne_or_eq validator call.validator with hne | rfl
  · obtain ⟨hlast, hpenalties⟩ := @Counted.other log call hc validator hne
    rw [hlast, hpenalties]
    refine hs.balanced validator stake ?_
    rw [← hstake]
    exact (SlashingEngine.stakes_perform_of_ne log.engine call hne).symm
  rcases hpct : call.pct? log.engine.config with _ | pct
  · cases call with
    | setStake v stake' =>
        have hown : (log.engine.stakes.insert v stake')[v]? = some stake := hstake
        rw [Std.ExtTreeMap.getElem?_insert_self] at hown
        cases hown
        refine ⟨hcall, ?_⟩
        -- no event is after the last one
        simp [penaltiesSince, Tracked.step, SlashingEngine.perform, SlashingEngine.setStake,
          StakeCall.validator]
    | recordPresence v => exact hs.balanced v stake hstake
    | slashDoubleSign | slashDivergence | recordAbsence => cases hpct
  · rcases hbefore : log.engine.stakes[call.validator]? with _ | before
    · have hunstaked := (SlashingEngine.perform_unstaked hpct hbefore).1
      have hafter : (log.engine.perform call).stakes[call.validator]? = some stake := hstake
      rw [hunstaked, hbefore] at hafter
      cases hafter
    · have hafter := (SlashingEngine.perform_charged hpct hbefore).stake_after
      cases Option.some.inj (hafter.symm.trans hstake)
      exact hs.charged hc hpct hbefore

theorem mem_demanded_step {validator : Hash} : validator ∈ (log.step call).demanded ↔
    validator ∈ log.demanded
      ∨ (log.engine.empties call || log.engine.outstays log.streak call)
        ∧ validator = call.validator := by
  show validator ∈ (if _ then _ else _) ↔ _
  split
  case isTrue h => simp [h]
  case isFalse h => simp [h]

/-- One step keeps the accounts, unless it overlooks a stake that is gone. -/
theorem Sound.step_iff (hs : log.Sound) (hc : log.Counted) (hcall : call.NonNegative) :
    (log.step call).Sound ↔ log.engine.overlooks call = false := by
  rw [← SlashingEngine.due_iff hc.absences fun stake hstake => (hs.balanced _ _ hstake).1]
  have hkept : ∀ validator ∈ log.demanded, (log.engine.perform call).isRemoved validator :=
    fun validator h => SlashingEngine.isRemoved_perform (hs.removed validator h)
  constructor
  · intro hnext hdue
    exact hnext.removed call.validator (mem_demanded_step.mpr (Or.inr ⟨hdue, rfl⟩))
  · intro hdue
    refine ⟨hs.balanced_step hc hcall, ?_⟩
    intro validator h
    rcases mem_demanded_step.mp h with h | ⟨hcond, rfl⟩
    · exact hkept validator h
    · exact hdue hcond

/-- In every run from a new engine that sets no stake below zero: the stakes are
what was set less the penalties since, and whose stake a penalty took or who was
absent for too long is removed, in every state, exactly if no absence overlooks
a stake that it takes.  A call is about no one else's stake. -/
theorem stakes_accounted_iff (config : SlashingConfig) (calls : List StakeCall)
    (hset : ∀ call ∈ calls, call.NonNegative) :
    (Throughout Tracked.step Sound (start config) calls
        ↔ Along Tracked.step (fun log call => log.engine.overlooks call = false) (start config)
          calls)
      ∧ ∀ (engine : SlashingEngine) (call : StakeCall) (validator : Hash),
        validator ≠ call.validator →
        (engine.perform call).stakes[validator]? = engine.stakes[validator]? := by
  refine ⟨?_, fun engine call _ h => SlashingEngine.stakes_perform_of_ne engine call h⟩
  exact throughout_iff_along_of (fun _ _ hc _ => hc.step)
    (fun _ _ hc hcall hs => hs.step_iff hc hcall) (start_counted config) (along_of_forall hset)
    (start_sound config)

/-! ## An absence that costs the stake -/

def absentee : Hash := Hash.ofByte 1

def absenteeProof : EquivocationProof where
  validatorId := absentee
  height := 10
  round := 0
  voteType := .prevote
  blockHashA := Hash.ofByte 2
  blockHashB := Hash.ofByte 3

/-- Under the shares of a default configuration nothing is overlooked. -/
theorem stakes_accounted_default : Throughout Tracked.step Sound (start {})
    [.setStake absentee (.fromInteger 1000), .slashDoubleSign absenteeProof 1,
      .recordAbsence absentee 2, .recordPresence absentee] :=
  (stakes_accounted_iff {} _ (by simp [StakeCall.NonNegative]; decide)).1.mpr (by decide +kernel)

/-- The first of ten absences takes the whole stake, and the validator stays. -/
theorem absentee_stays :
    ¬ Throughout Tracked.step Sound
      (start { absencePenaltyPctPerEpoch := 100, maxAbsenceEpochs := 10 })
      [.setStake absentee (.fromInteger 100), .recordAbsence absentee 1] := by
  intro h
  have hstays := h.last.removed absentee (by decide +kernel)
  revert hstays
  decide +kernel

end Tracked

end Sccgub
