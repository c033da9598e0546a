import Mathlib
import Sccgub.Execution.Authorization

/-!
# Symbolic causal contracts

A contract is a list of laws.  Executing it evaluates the laws, makes the delta
that the payload asks for, and evaluates the laws once more before it accepts.  The
second evaluation is on the state of the first, without the delta, so it tells
nothing new: what a write does to a law is not looked at.

A write counts as a step, and only a check of a law compares the steps with the
limit, so a contract without laws writes without one.
-/

namespace Sccgub

open Bincode FixedWidth

/-- What execution reads of a contract. -/
structure SymbolicCausalContract where
  contractId : Hash
  laws : List Constraint
  governanceLevel : PrecedenceLevel
  deriving DecidableEq

structure ContractExecutionResult where
  verdict : Verdict
  stateDelta : StateDelta
  stepsUsed : Nat
  tensionDelta : TensionValue
  deriving DecidableEq

namespace ContractExecutionResult

/-- A rejection writes nothing. -/
def reject (steps : Nat) (reason : String) : ContractExecutionResult :=
  ⟨.reject reason, ⟨[], []⟩, steps, .zero⟩

def rejectStepLimit (steps max : Nat) (phase : String) : ContractExecutionResult :=
  reject steps s!"Exceeded max steps ({max}) during {phase}"

end ContractExecutionResult

open ContractExecutionResult

/-- One step more, as far as the counter goes. -/
def tick (steps : Nat) : Nat := min (steps + 1) u64Max

/-- One of the two loops over the laws: a rejection, or the steps so far. -/
def checkLaws (state : ManagedWorldState) (level : UInt8) (maxSteps : Nat)
    (phase condition : String) : Nat → List Constraint → Except ContractExecutionResult Nat
  | steps, [] => .ok steps
  | steps, law :: laws =>
      let steps := tick steps
      if maxSteps < steps then .error (rejectStepLimit steps maxSteps phase)
      else
        let result := evaluate state level (parseConstraintExpression law.expression)
        if result.satisfied then checkLaws state level maxSteps phase condition steps laws
        else .error (.reject steps
          s!"{condition} failed for constraint {hexEncode law.id.toList}: {result.details}")

/-- The delta that the payload asks for. -/
def payloadDelta (contract : SymbolicCausalContract) (state : ManagedWorldState)
    (maxSteps steps : Nat) : OperationPayload → Except ContractExecutionResult (StateDelta × Nat)
  | .invokeContract _ method args =>
      let steps := tick steps
      if maxSteps < steps then .error (rejectStepLimit steps maxSteps "method execution")
      else if method.isEmpty then .error (.reject steps "Empty method name")
      else
        let maxArgSize := state.consensusParams.maxStateEntrySize.toNat
        if maxArgSize < args.length then
          .error (.reject steps s!"Method args exceed {maxArgSize} byte limit")
        else
          let resultKey := s!"contract/{hexEncode contract.contractId.toList}/result/{method}"
          .ok (⟨[⟨utf8 resultKey, args⟩], []⟩, steps)
  | .write key value => .ok (⟨[⟨key, value⟩], []⟩, tick steps)
  | _ => .ok (⟨[], []⟩, steps)

def executeContract (contract : SymbolicCausalContract) (transition : SymbolicTransition)
    (state : ManagedWorldState) (maxSteps : UInt64) : ContractExecutionResult :=
  let actorLevel := transition.actor.governanceLevel.asU8
  if contract.governanceLevel.asU8 < actorLevel then
    .reject 0 s!"Insufficient authority: actor has {transition.actor.governanceLevel.debug}, contract requires {contract.governanceLevel.debug}"
  else
    let result : Except ContractExecutionResult ContractExecutionResult := do
      let steps ← checkLaws state actorLevel maxSteps.toNat "precondition check" "Precondition" 0
        contract.laws
      let (stateDelta, steps) ← payloadDelta contract state maxSteps.toNat steps transition.payload
      let steps ← checkLaws state actorLevel maxSteps.toNat "postcondition check" "Postcondition"
        steps contract.laws
      return ⟨.accept, stateDelta, steps, .zero⟩
    match result with
    | .ok accepted => accepted
    | .error rejected => rejected

/-! ## Steps -/

theorem iterate_tick (n : Nat) {steps : Nat} (h : steps ≤ u64Max) :
    tick^[n] steps = min (steps + n) u64Max := by
  induction n generalizing steps with
  | zero => simp [h]
  | succ n ih =>
      have hle : tick steps ≤ u64Max := min_le_right _ _
      rw [Function.iterate_succ_apply, ih hle, tick]
      omega

theorem le_iterate_tick (n : Nat) {steps : Nat} (h : steps ≤ u64Max) : steps ≤ tick^[n] steps := by
  rw [iterate_tick n h]
  omega

section

variable {state : ManagedWorldState} {level : UInt8} {maxSteps : Nat} {phase condition : String}

/-- The law holds in the state. -/
def Constraint.Holds (state : ManagedWorldState) (level : UInt8) (law : Constraint) : Prop :=
  (evaluate state level (parseConstraintExpression law.expression)).satisfied = true

instance (law : Constraint) : Decidable (law.Holds state level) :=
  inferInstanceAs (Decidable (_ = _))

/-- A loop goes through when all laws hold and the last of its steps is within
the limit. -/
theorem checkLaws_eq_ok_iff {laws : List Constraint} {steps last : Nat} (h : steps ≤ u64Max) :
    checkLaws state level maxSteps phase condition steps laws = .ok last
      ↔ (∀ law ∈ laws, law.Holds state level) ∧ last = tick^[laws.length] steps
        ∧ (laws = [] ∨ last ≤ maxSteps) := by
  induction laws generalizing steps with
  | nil => simp [checkLaws, eq_comm]
  | cons law laws ih =>
      have hle : tick steps ≤ u64Max := min_le_right _ _
      have hmono : tick steps ≤ tick^[laws.length] (tick steps) := le_iterate_tick _ hle
      simp only [checkLaws, List.forall_mem_cons, List.length_cons, Function.iterate_succ_apply,
        reduceCtorEq, false_or]
      split
      · rename_i hlimit
        simp only [reduceCtorEq, false_iff]
        rintro ⟨-, rfl, hlast⟩
        omega
      · rename_i hlimit
        split
        · rename_i hsat
          rw [ih hle]
          constructor
          · rintro ⟨hlaws, rfl, hlast⟩
            refine ⟨⟨hsat, hlaws⟩, rfl, ?_⟩
            rcases hlast with rfl | hlast
            · exact Nat.not_lt.mp hlimit
            · exact hlast
          · rintro ⟨⟨-, hlaws⟩, rfl, hlast⟩
            exact ⟨hlaws, rfl, Or.inr hlast⟩
        · rename_i hsat
          simp only [reduceCtorEq, false_iff]
          exact fun h => hsat h.1.1

theorem checkLaws_error {laws : List Constraint} {steps : Nat} {result : ContractExecutionResult}
    (h : checkLaws state level maxSteps phase condition steps laws = .error result) :
    ∃ steps reason, result = .reject steps reason := by
  induction laws generalizing steps with
  | nil => cases h
  | cons law laws ih =>
      simp only [checkLaws] at h
      split at h
      · exact ⟨_, _, (Except.error.inj h).symm⟩
      · split at h
        · exact ih h
        · exact ⟨_, _, (Except.error.inj h).symm⟩

end

/-! ## Acceptance -/

/-- What the contract writes for a payload. -/
def OperationPayload.written (contract : SymbolicCausalContract) :
    OperationPayload → List StateWrite
  | .invokeContract _ method args =>
      [⟨utf8 s!"contract/{hexEncode contract.contractId.toList}/result/{method}", args⟩]
  | .write key value => [⟨key, value⟩]
  | _ => []

/-- A call has a name and arguments that may be stored. -/
def OperationPayload.Callable (limit : Nat) : OperationPayload → Prop
  | .invokeContract _ method args => method.isEmpty = false ∧ args.length ≤ limit
  | _ => True

def OperationPayload.isInvocation : OperationPayload → Bool
  | .invokeContract .. => true
  | _ => false

theorem payloadDelta_eq_ok_iff {contract : SymbolicCausalContract} {state : ManagedWorldState}
    {maxSteps steps last : Nat} {payload : OperationPayload} {delta : StateDelta} :
    payloadDelta contract state maxSteps steps payload = .ok (delta, last)
      ↔ payload.Callable state.consensusParams.maxStateEntrySize.toNat
        ∧ delta = ⟨payload.written contract, []⟩ ∧ last = tick^[(payload.written contract).length] steps
        ∧ (payload.isInvocation = true → last ≤ maxSteps) := by
  cases payload with
  | invokeContract contractId method args =>
      simp only [payloadDelta, OperationPayload.Callable, OperationPayload.written,
        OperationPayload.isInvocation, forall_const]
      show _ ↔ _ ∧ _ ∧ last = tick steps ∧ _
      split_ifs with hsteps hmethod hargs
      · simp only [false_iff]
        rintro ⟨-, -, rfl, hle⟩
        omega
      · simp [hmethod]
      · simp only [false_iff]
        rintro ⟨⟨-, hle⟩, -⟩
        omega
      · simp only [Except.ok.injEq, Prod.mk.injEq]
        constructor
        · rintro ⟨rfl, rfl⟩
          exact ⟨⟨by simpa using hmethod, Nat.not_lt.mp hargs⟩, rfl, rfl, Nat.not_lt.mp hsteps⟩
        · rintro ⟨-, rfl, rfl, -⟩
          exact ⟨rfl, rfl⟩
  | write key value =>
      simp [payloadDelta, OperationPayload.Callable, OperationPayload.written,
        OperationPayload.isInvocation, eq_comm]
  | _ =>
      simp [payloadDelta, OperationPayload.Callable, OperationPayload.written,
        OperationPayload.isInvocation, eq_comm]

theorem payloadDelta_error {contract : SymbolicCausalContract} {state : ManagedWorldState}
    {maxSteps steps : Nat} {payload : OperationPayload} {result : ContractExecutionResult}
    (h : payloadDelta contract state maxSteps steps payload = .error result) :
    ∃ steps reason, result = .reject steps reason := by
  cases payload with
  | invokeContract contractId method args =>
      simp only [payloadDelta] at h
      split_ifs at h
      · exact ⟨_, _, (Except.error.inj h).symm⟩
      · exact ⟨_, _, (Except.error.inj h).symm⟩
      · exact ⟨_, _, (Except.error.inj h).symm⟩
  | _ => cases h

section

variable (contract : SymbolicCausalContract) (transition : SymbolicTransition)
  (state : ManagedWorldState) (maxSteps : UInt64)

/-- The steps of both loops and of the payload. -/
def contractSteps : Nat :=
  min (2 * contract.laws.length + (transition.payload.written contract).length) u64Max

/-- The grounds on which a contract may be executed. -/
structure Executable : Prop where
  authority : transition.actor.governanceLevel.asU8 ≤ contract.governanceLevel.asU8
  laws : ∀ law ∈ contract.laws, law.Holds state transition.actor.governanceLevel.asU8
  callable : transition.payload.Callable state.consensusParams.maxStateEntrySize.toNat
  steps : (contract.laws = [] ∧ transition.payload.isInvocation = false)
    ∨ contractSteps contract transition ≤ maxSteps.toNat

variable {contract transition state maxSteps}

theorem iterate_tick_contract : tick^[contract.laws.length]
    (tick^[(transition.payload.written contract).length] (tick^[contract.laws.length] 0))
      = contractSteps contract transition := by
  rw [← Function.iterate_add_apply, ← Function.iterate_add_apply, iterate_tick _ (Nat.zero_le _),
    contractSteps]
  omega

theorem executeContract_of_executable
    (h : Executable contract transition state maxSteps) :
    executeContract contract transition state maxSteps
      = ⟨.accept, ⟨transition.payload.written contract, []⟩,
        contractSteps contract transition, .zero⟩ := by
  have hlast := @iterate_tick_contract contract transition
  have hfirst : tick^[contract.laws.length] 0 ≤ u64Max := by
    rw [iterate_tick _ (Nat.zero_le _)]
    exact min_le_right _ _
  have hsecond := le_iterate_tick (transition.payload.written contract).length hfirst
  have hmax : tick^[(transition.payload.written contract).length] (tick^[contract.laws.length] 0)
      ≤ u64Max := by
    rw [iterate_tick _ hfirst]
    exact min_le_right _ _
  have hthird := le_iterate_tick contract.laws.length hmax
  rw [hlast] at hthird
  have hpre : checkLaws state transition.actor.governanceLevel.asU8 maxSteps.toNat
      "precondition check" "Precondition" 0 contract.laws = .ok (tick^[contract.laws.length] 0) := by
    refine (checkLaws_eq_ok_iff (Nat.zero_le _)).mpr ⟨h.laws, rfl, ?_⟩
    rcases h.steps with ⟨hnone, -⟩ | hsteps
    · exact Or.inl hnone
    · exact Or.inr (by omega)
  have hdelta : payloadDelta contract state maxSteps.toNat (tick^[contract.laws.length] 0)
      transition.payload = .ok (⟨transition.payload.written contract, []⟩,
        tick^[(transition.payload.written contract).length] (tick^[contract.laws.length] 0)) := by
    refine payloadDelta_eq_ok_iff.mpr ⟨h.callable, rfl, rfl, fun hinvoked => ?_⟩
    rcases h.steps with ⟨-, hnot⟩ | hsteps
    · rw [hinvoked] at hnot
      cases hnot
    · omega
  have hpost : checkLaws state transition.actor.governanceLevel.asU8 maxSteps.toNat
      "postcondition check" "Postcondition"
      (tick^[(transition.payload.written contract).length] (tick^[contract.laws.length] 0))
      contract.laws = .ok (contractSteps contract transition) := by
    refine (checkLaws_eq_ok_iff hmax).mpr ⟨h.laws, hlast.symm, ?_⟩
    rcases h.steps with ⟨hnone, -⟩ | hsteps
    · exact Or.inl hnone
    · exact Or.inr hsteps
  simp only [executeContract, UInt8.not_lt.mpr h.authority, if_false, hpre, hdelta, hpost, bind,
    Except.bind, pure, Except.pure]

/-- A contract that is not executed rejects. -/
theorem executeContract_cases : Executable contract transition state maxSteps
    ∨ ∃ steps reason, executeContract contract transition state maxSteps = .reject steps reason := by
  unfold executeContract
  simp only
  split
  · exact Or.inr ⟨_, _, rfl⟩
  · rename_i hauthority
    rcases hpre : checkLaws state transition.actor.governanceLevel.asU8 maxSteps.toNat
        "precondition check" "Precondition" 0 contract.laws with rejected | steps
    · exact Or.inr (checkLaws_error hpre)
    · rcases hdelta : payloadDelta contract state maxSteps.toNat steps transition.payload with
        rejected | ⟨delta, steps'⟩
      · obtain ⟨steps', reason, rfl⟩ := payloadDelta_error hdelta
        refine Or.inr ⟨steps', reason, ?_⟩
        simp only [hdelta, bind, Except.bind]
      · rcases hpost : checkLaws state transition.actor.governanceLevel.asU8 maxSteps.toNat
            "postcondition check" "Postcondition" steps' contract.laws with rejected | last
        · obtain ⟨last, reason, rfl⟩ := checkLaws_error hpost
          refine Or.inr ⟨last, reason, ?_⟩
          simp only [hdelta, hpost, bind, Except.bind]
        · obtain ⟨hlaws, rfl, -⟩ := (checkLaws_eq_ok_iff (Nat.zero_le _)).mp hpre
          have hfirst : tick^[contract.laws.length] 0 ≤ u64Max := by
            rw [iterate_tick _ (Nat.zero_le _)]
            exact min_le_right _ _
          obtain ⟨hcallable, -, rfl, hinvoked⟩ := payloadDelta_eq_ok_iff.mp hdelta
          have hmax : tick^[(transition.payload.written contract).length]
              (tick^[contract.laws.length] 0) ≤ u64Max := by
            rw [iterate_tick _ hfirst]
            exact min_le_right _ _
          obtain ⟨-, rfl, hlast⟩ := (checkLaws_eq_ok_iff hmax).mp hpost
          rw [iterate_tick_contract] at hlast
          refine Or.inl ⟨UInt8.not_lt.mp hauthority, hlaws, hcallable, ?_⟩
          rcases hlast with hnone | hlast
          · rcases hkind : transition.payload.isInvocation with _ | _
            · exact Or.inl ⟨hnone, rfl⟩
            · have hsteps := hinvoked hkind
              rw [hnone] at hsteps
              rw [← iterate_tick_contract, hnone]
              exact Or.inr hsteps
          · exact Or.inr hlast

end

/-! ## Laws after the write -/

/-- The law asks for another value where the contract writes. -/
def Constraint.contradicts (law : Constraint) (write : StateWrite) : Bool :=
  match parseConstraintExpression law.expression with
  | .equals key value => key = write.address && value ≠ write.value
  | _ => false

/-- What the text of a law can stand for: one look at the trie at the most. -/
inductive Predicate.Plain : Predicate → Prop
  | true : Plain .true
  | false : Plain .false
  | exists (key) : Plain (.exists key)
  | equals (key value) : Plain (.equals key value)
  | minGovernanceLevel (level) : Plain (.minGovernanceLevel level)
  | invalid (reason) : Plain (.invalid reason)

theorem plain_parseConstraintExpression (expr : String) : (parseConstraintExpression expr).Plain := by
  unfold parseConstraintExpression
  simp only
  split
  · exact .true
  · split
    · exact .false
    · split
      · exact .exists _
      · split
        · exact .equals _ _
        · split
          · exact .minGovernanceLevel _
          · exact .invalid _

/-- A write leaves alone what a law says unless the law is about its value. -/
theorem Constraint.holds_applyDelta_iff {law : Constraint} {state : ManagedWorldState}
    {level : UInt8} {write : StateWrite} (h : law.Holds state level) :
    law.Holds (state.applyDelta ⟨[write], []⟩) level
      ↔ (state.admits write = true → law.contradicts write = false) := by
  have hstate : state.applyDelta ⟨[write], []⟩ = state.applyWrite write := rfl
  rw [hstate, ManagedWorldState.applyWrite]
  by_cases hadmits : state.admits write = true
  · rw [if_pos hadmits]
    simp only [hadmits, forall_const]
    unfold Constraint.Holds Constraint.contradicts at *
    have hplain := plain_parseConstraintExpression law.expression
    generalize parseConstraintExpression law.expression = predicate at *
    cases hplain with
    | true => simp [evaluate]
    | false => simp [evaluate] at h
    | «exists» key =>
        have hmem : key ∈ state.trie.store := by
          by_contra hnot
          simp [evaluate, StateTrie.contains, hnot] at h
        simp [evaluate, StateTrie.contains, StateTrie.insert, hmem]
    | equals key value =>
        have hget : state.trie.store[key]? = some value := by
          by_contra hnot
          have hnone : ¬ state.get key = some value := hnot
          simp [evaluate, hnone] at h
        have hafter : ({ state with trie := state.trie.insert write.address write.value } :
            ManagedWorldState).get key = if write.address = key then some write.value
              else some value := by
          show (state.trie.store.insert write.address write.value)[key]? = _
          simp [Std.ExtTreeMap.getElem?_insert, hget]
        simp only [evaluate, hafter]
        by_cases hkey : write.address = key
        · by_cases hvalue : write.value = value
          · simp [hkey, hvalue]
          · simp [hkey, hvalue, Ne.symm hvalue]
        · simp [hkey, Ne.symm hkey]
    | minGovernanceLevel bound => simpa [evaluate] using h
    | invalid reason => simp [evaluate] at h
  · rw [if_neg hadmits]
    simp [h, hadmits]

section

variable (contract : SymbolicCausalContract) (transition : SymbolicTransition)
  (state : ManagedWorldState) (maxSteps : UInt64)

/-- The laws hold before and after what is accepted, within the steps; what is
rejected writes nothing. -/
def LawsKept : Prop :=
  let result := executeContract contract transition state maxSteps
  (result.verdict = .accept →
    (∀ law ∈ contract.laws, law.Holds state transition.actor.governanceLevel.asU8
      ∧ law.Holds (state.applyDelta result.stateDelta) transition.actor.governanceLevel.asU8)
    ∧ result.stepsUsed ≤ maxSteps.toNat)
  ∧ ((∃ reason, result.verdict = .reject reason) → result.stateDelta = ⟨[], []⟩)

/-- No law asks for another value where an executed contract writes, and a
contract without laws has a step to write in. -/
def Harmless : Prop :=
  Executable contract transition state maxSteps →
    (∀ write ∈ transition.payload.written contract, state.admits write = true →
      ∀ law ∈ contract.laws, law.contradicts write = false)
    ∧ (contract.laws = [] → (transition.payload.written contract).length ≤ maxSteps.toNat)

theorem written_cases (payload : OperationPayload) :
    payload.written contract = [] ∨ ∃ write, payload.written contract = [write] := by
  cases payload with
  | invokeContract contractId method args => exact Or.inr ⟨_, rfl⟩
  | write key value => exact Or.inr ⟨_, rfl⟩
  | _ => exact Or.inl rfl

/-- The second evaluation is no check of what was written. -/
theorem lawsKept_iff : LawsKept contract transition state maxSteps
    ↔ Harmless contract transition state maxSteps := by
  unfold LawsKept Harmless
  rcases @executeContract_cases contract transition state maxSteps with hrun | ⟨steps, reason, hreject⟩
  · rw [executeContract_of_executable hrun]
    have hsteps : (contractSteps contract transition ≤ maxSteps.toNat)
        ↔ (contract.laws = [] → (transition.payload.written contract).length ≤ maxSteps.toNat) := by
      rcases hrun.steps with ⟨hnone, -⟩ | hsteps
      · rcases written_cases contract transition.payload with hw | ⟨write, hw⟩ <;>
          simp [contractSteps, hnone, hw, u64Max]
      · refine iff_of_true hsteps fun hnone => ?_
        rcases written_cases contract transition.payload with hw | ⟨write, hw⟩
        · simp [hw]
        · simpa [contractSteps, hnone, hw, u64Max] using hsteps
    simp only [forall_const, hrun, hsteps, reduceCtorEq, exists_false, false_imp_iff, and_true]
    refine and_congr_left fun _ => ?_
    rcases written_cases contract transition.payload with hw | ⟨write, hw⟩
    · simp only [hw, List.not_mem_nil, false_imp_iff, implies_true, iff_true]
      exact fun law hlaw => ⟨hrun.laws law hlaw, hrun.laws law hlaw⟩
    · simp only [hw, List.mem_singleton, forall_eq]
      constructor
      · intro h hadmits law hlaw
        exact (Constraint.holds_applyDelta_iff (hrun.laws law hlaw)).mp (h law hlaw).2 hadmits
      · intro h law hlaw
        exact ⟨hrun.laws law hlaw, (Constraint.holds_applyDelta_iff (hrun.laws law hlaw)).mpr
          fun hadmits => h hadmits law hlaw⟩
  · have hnot : ¬ Executable contract transition state maxSteps := by
      intro hrun
      rw [executeContract_of_executable hrun] at hreject
      cases hreject
    rw [hreject]
    simp [reject, hnot]

end

/-! ## A law that is written over -/

/-- The contract keeps an entry at its value. -/
def pinningContract : SymbolicCausalContract where
  contractId := Hash.ofByte 1
  laws := [⟨Hash.ofByte 2, "equals:data/a=1"⟩]
  governanceLevel := .optimization

def pinnedState : ManagedWorldState :=
  { trie := StateTrie.new.insert (utf8 "data/a") (utf8 "1") }

def overwriting : SymbolicTransition :=
  plainTransition (plainActor (Hash.ofByte 3) (Hash.ofByte 4)) .stateWrite (utf8 "data/a")
    (.write (utf8 "data/a") (utf8 "2")) []

theorem overwriting_accepted :
    (executeContract pinningContract overwriting pinnedState 10).verdict = .accept
      ∧ ¬ (⟨Hash.ofByte 2, "equals:data/a=1"⟩ : Constraint).Holds (pinnedState.applyDelta
          (executeContract pinningContract overwriting pinnedState 10).stateDelta) 4 := by
  decide +kernel

/-- The entry is written over under a law that keeps its value. -/
theorem overwriting_breaks_law : ¬ LawsKept pinningContract overwriting pinnedState 10 := by
  intro h
  obtain ⟨haccepted, hbroken⟩ := overwriting_accepted
  exact hbroken ((h.1 haccepted).1 _ List.mem_cons_self).2

end Sccgub
