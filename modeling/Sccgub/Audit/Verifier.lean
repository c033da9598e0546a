import Mathlib
import Sccgub.Node.Chain

/-!
# The ceilings since genesis

The auditor compares the ceilings before and after every change of the chain version
with those of genesis, field by field, and stops at the first difference.  Its list of
fields is the whole record.  The gate that refuses a proposal which changes the ceilings
has a list of its own, and six fields are not in it: the four of the fee oracle and the
slashing admission, the fee floor and the forgery vetoes.
-/

namespace Sccgub

open FixedWidth Relation

/-! ## Fields -/

inductive CeilingFieldId where
  | maxProofDepth
  | maxTxGas
  | maxBlockGas
  | maxContractSteps
  | maxAddressLength
  | maxStateEntrySize
  | maxTensionSwing
  | maxBlockBytes
  | maxActiveProposals
  | maxViewChangeBaseTimeoutMs
  | maxViewChangeMaxTimeoutMs
  | maxValidatorSetSize
  | maxValidatorSetChangesPerBlock
  | maxFeeTensionAlpha
  | maxMedianTensionWindow
  | maxConfirmationDepth
  | maxEquivocationEvidencePerBlock
  | minEffectiveFeeFloor
  | maxForgeryVetoesPerBlock
  deriving DecidableEq

namespace CeilingFieldId

/-- `ALL`, in the order of declaration. -/
def all : List CeilingFieldId :=
  [maxProofDepth, maxTxGas, maxBlockGas, maxContractSteps, maxAddressLength, maxStateEntrySize,
    maxTensionSwing, maxBlockBytes, maxActiveProposals, maxViewChangeBaseTimeoutMs,
    maxViewChangeMaxTimeoutMs, maxValidatorSetSize, maxValidatorSetChangesPerBlock,
    maxFeeTensionAlpha, maxMedianTensionWindow, maxConfirmationDepth,
    maxEquivocationEvidencePerBlock, minEffectiveFeeFloor, maxForgeryVetoesPerBlock]

end CeilingFieldId

inductive CeilingValue where
  | u32 (v : UInt32)
  | u64 (v : UInt64)
  | i64 (v : Int64)
  | i128 (v : I128)
  deriving DecidableEq

def fieldValue (ceilings : ConstitutionalCeilings) : CeilingFieldId → CeilingValue
  | .maxProofDepth => .u32 ceilings.maxProofDepthCeiling
  | .maxTxGas => .u64 ceilings.maxTxGasCeiling
  | .maxBlockGas => .u64 ceilings.maxBlockGasCeiling
  | .maxContractSteps => .u64 ceilings.maxContractStepsCeiling
  | .maxAddressLength => .u32 ceilings.maxAddressLengthCeiling
  | .maxStateEntrySize => .u32 ceilings.maxStateEntrySizeCeiling
  | .maxTensionSwing => .i64 ceilings.maxTensionSwingCeiling
  | .maxBlockBytes => .u32 ceilings.maxBlockBytesCeiling
  | .maxActiveProposals => .u32 ceilings.maxActiveProposalsCeiling
  | .maxViewChangeBaseTimeoutMs => .u32 ceilings.maxViewChangeBaseTimeoutMs
  | .maxViewChangeMaxTimeoutMs => .u32 ceilings.maxViewChangeMaxTimeoutMs
  | .maxValidatorSetSize => .u32 ceilings.maxValidatorSetSizeCeiling
  | .maxValidatorSetChangesPerBlock => .u32 ceilings.maxValidatorSetChangesPerBlock
  | .maxFeeTensionAlpha => .i128 ceilings.maxFeeTensionAlphaCeiling
  | .maxMedianTensionWindow => .u32 ceilings.maxMedianTensionWindowCeiling
  | .maxConfirmationDepth => .u64 ceilings.maxConfirmationDepthCeiling
  | .maxEquivocationEvidencePerBlock => .u32 ceilings.maxEquivocationEvidencePerBlock
  | .minEffectiveFeeFloor => .i128 ceilings.minEffectiveFeeFloor
  | .maxForgeryVetoesPerBlock => .u32 ceilings.maxForgeryVetoesPerBlockCeiling

/-- Equal on the fields of a list. -/
def SameOn (fields : List CeilingFieldId) (a b : ConstitutionalCeilings) : Prop :=
  ∀ field ∈ fields, fieldValue a field = fieldValue b field

instance (fields : List CeilingFieldId) (a b : ConstitutionalCeilings) :
    Decidable (SameOn fields a b) :=
  inferInstanceAs (Decidable (∀ field ∈ fields, _))

theorem SameOn.trans {fields : List CeilingFieldId} {a b c : ConstitutionalCeilings}
    (hab : SameOn fields a b) (hbc : SameOn fields b c) : SameOn fields a c := by
  intro field hfield
  exact (hab field hfield).trans (hbc field hfield)

theorem SameOn.symm {fields : List CeilingFieldId} {a b : ConstitutionalCeilings}
    (h : SameOn fields a b) : SameOn fields b a :=
  fun field hfield => (h field hfield).symm

/-- The list is the whole record. -/
theorem sameOn_all_iff {a b : ConstitutionalCeilings} : SameOn CeilingFieldId.all a b ↔ a = b := by
  constructor
  · intro h
    obtain ⟨⟨⟨⟩⟩⟩ := a
    obtain ⟨⟨⟨⟩⟩⟩ := b
    simp only [SameOn, CeilingFieldId.all, List.forall_mem_cons, fieldValue, CeilingValue.u32.injEq,
      CeilingValue.u64.injEq, CeilingValue.i64.injEq, CeilingValue.i128.injEq] at h
    simp only [ConstitutionalCeilings.mk.injEq, LegacyConstitutionalCeilingsV2.mk.injEq,
      LegacyConstitutionalCeilingsV1.mk.injEq]
    tauto
  · rintro rfl field -
    rfl

/-! ## The gate -/

inductive ProposalCeilingRejection where
  | ceilingModification (field : String)
  | ceilingViolation (violation : CeilingViolation)
  deriving DecidableEq

/-- The fields that the gate compares, each under its own name. -/
def gateChecks (current proposed : ConstitutionalCeilings) : List (String × Bool) :=
  [("max_proof_depth_ceiling", current.maxProofDepthCeiling = proposed.maxProofDepthCeiling),
    ("max_tx_gas_ceiling", current.maxTxGasCeiling = proposed.maxTxGasCeiling),
    ("max_block_gas_ceiling", current.maxBlockGasCeiling = proposed.maxBlockGasCeiling),
    ("max_contract_steps_ceiling",
      current.maxContractStepsCeiling = proposed.maxContractStepsCeiling),
    ("max_address_length_ceiling",
      current.maxAddressLengthCeiling = proposed.maxAddressLengthCeiling),
    ("max_state_entry_size_ceiling",
      current.maxStateEntrySizeCeiling = proposed.maxStateEntrySizeCeiling),
    ("max_tension_swing_ceiling",
      current.maxTensionSwingCeiling = proposed.maxTensionSwingCeiling),
    ("max_block_bytes_ceiling", current.maxBlockBytesCeiling = proposed.maxBlockBytesCeiling),
    ("max_active_proposals_ceiling",
      current.maxActiveProposalsCeiling = proposed.maxActiveProposalsCeiling),
    ("max_view_change_base_timeout_ms",
      current.maxViewChangeBaseTimeoutMs = proposed.maxViewChangeBaseTimeoutMs),
    ("max_view_change_max_timeout_ms",
      current.maxViewChangeMaxTimeoutMs = proposed.maxViewChangeMaxTimeoutMs),
    ("max_validator_set_size_ceiling",
      current.maxValidatorSetSizeCeiling = proposed.maxValidatorSetSizeCeiling),
    ("max_validator_set_changes_per_block",
      current.maxValidatorSetChangesPerBlock = proposed.maxValidatorSetChangesPerBlock)]

def validateCeilingsImmutable (current proposed : ConstitutionalCeilings) :
    Except ProposalCeilingRejection Unit :=
  match (gateChecks current proposed).find? (!·.2) with
  | some (field, _) => .error (.ceilingModification field)
  | none => .ok ()

namespace CeilingFieldId

def gated : List CeilingFieldId := all.take 13

def ungated : List CeilingFieldId := all.drop 13

end CeilingFieldId

open CeilingFieldId (gated ungated)

theorem sameOn_gated_ungated_iff {a b : ConstitutionalCeilings} :
    SameOn gated a b ∧ SameOn ungated a b ↔ a = b := by
  rw [← sameOn_all_iff, SameOn, SameOn, SameOn, ← List.forall_mem_append]
  exact Iff.rfl

theorem validateCeilingsImmutable_eq_ok_iff {current proposed : ConstitutionalCeilings} :
    validateCeilingsImmutable current proposed = .ok () ↔ SameOn gated current proposed := by
  have hsame : SameOn gated current proposed
      ↔ ∀ check ∈ gateChecks current proposed, check.2 = true := by
    simp only [SameOn, gated, CeilingFieldId.all, List.take, List.forall_mem_cons, fieldValue,
      CeilingValue.u32.injEq, CeilingValue.u64.injEq, CeilingValue.i64.injEq, gateChecks,
      decide_eq_true_eq, List.not_mem_nil, false_imp_iff, implies_true, and_true]
  rw [hsame]
  unfold validateCeilingsImmutable
  split
  · rename_i field same hfind
    have hmem := List.mem_of_find?_eq_some hfind
    have hdiffers : same = false := by simpa using List.find?_some hfind
    refine iff_of_false (by simp) fun hall => ?_
    rw [hdiffers] at hmem
    cases hall _ hmem
  · rename_i hfind
    have hall := List.find?_eq_none.mp hfind
    exact iff_of_true rfl fun check hcheck => by simpa using hall check hcheck

/-- Changes that pass the gate, one after the other. -/
def GatedChanges : ConstitutionalCeilings → ConstitutionalCeilings → Prop :=
  ReflTransGen fun a b => validateCeilingsImmutable a b = .ok ()

theorem gatedChanges_iff {a b : ConstitutionalCeilings} : GatedChanges a b ↔ SameOn gated a b := by
  constructor
  · intro h
    induction h with
    | refl => exact fun field _ => rfl
    | tail _ hlast ih => exact ih.trans (validateCeilingsImmutable_eq_ok_iff.mp hlast)
  · intro h
    exact .single (validateCeilingsImmutable_eq_ok_iff.mpr h)

/-! ## The verifier -/

namespace Audit

inductive ChainStateError where
  | genesisCeilingsMissing (reason : String)
  | genesisCeilingsMalformed (reason : String)
  | ceilingsMissingAtHeight (height : UInt64) (reason : String)
  | io (reason : String)
  deriving DecidableEq

def ChainStateError.display : ChainStateError → String
  | genesisCeilingsMissing reason => s!"genesis ceilings missing: {reason}"
  | genesisCeilingsMalformed reason => s!"genesis ceilings malformed: {reason}"
  | ceilingsMissingAtHeight height reason => s!"ceilings missing at height {height}: {reason}"
  | io reason => s!"chain state I/O error: {reason}"

/-- What the verifier asks of a chain. -/
structure ChainStateView where
  genesisConstitutionalCeilings : Except ChainStateError ConstitutionalCeilings
  chainVersionHistory : Except ChainStateError (List ChainVersionTransition)
  ceilingsAtHeight : UInt64 → Except ChainStateError ConstitutionalCeilings

/-- A chain state as a file holds it. -/
structure JsonChainStateFixture where
  genesisBlockHash : Hash
  genesisCeilings : ConstitutionalCeilings
  chainVersionHistory : List ChainVersionTransition
  ceilingsByHeight : List (UInt64 × ConstitutionalCeilings)

def JsonChainStateFixture.view (self : JsonChainStateFixture) : ChainStateView where
  genesisConstitutionalCeilings := .ok self.genesisCeilings
  chainVersionHistory := .ok self.chainVersionHistory
  ceilingsAtHeight height :=
    match self.ceilingsByHeight.find? (·.1 = height) with
    | some (_, ceilings) => .ok ceilings
    | none => .error (.ceilingsMissingAtHeight height
        s!"no ceilings record in fixture for height {height}")

inductive CeilingViolation where
  | fieldValueChanged (transitionHeight : UInt64) (ceilingField : CeilingFieldId)
      (beforeValue afterValue : CeilingValue)
  | genesisCeilingsUnreadable (reason : String)
  | ceilingsUnreadableAtTransition (transitionHeight : UInt64) (reason : String)
  | historyStructurallyInvalid (reason : String)
  deriving DecidableEq

/-- The first field that is not what it was at genesis. -/
def checkFields (height : UInt64) (genesis observed : ConstitutionalCeilings) :
    Except CeilingViolation Unit :=
  match CeilingFieldId.all.find? fun field => fieldValue genesis field ≠ fieldValue observed field with
  | some field => .error (.fieldValueChanged height field (fieldValue genesis field)
      (fieldValue observed field))
  | none => .ok ()

def checkHeight (chain : ChainStateView) (genesis : ConstitutionalCeilings)
    (transitionHeight height : UInt64) : Except CeilingViolation Unit := do
  let observed ← (chain.ceilingsAtHeight height).mapError fun e =>
    .ceilingsUnreadableAtTransition transitionHeight e.display
  checkFields transitionHeight genesis observed

/-- The ceilings before a change of the version and after it. -/
def checkTransition (chain : ChainStateView) (genesis : ConstitutionalCeilings)
    (transition : ChainVersionTransition) : Except CeilingViolation Unit := do
  let h := transition.activationHeight
  if 0 < h then checkHeight chain genesis h (h - 1)
  checkHeight chain genesis h h

def checkTransitions (chain : ChainStateView) (genesis : ConstitutionalCeilings) :
    List ChainVersionTransition → Except CeilingViolation Unit
  | [] => .ok ()
  | transition :: rest => do
      checkTransition chain genesis transition
      checkTransitions chain genesis rest

def checkMonotonic : List ChainVersionTransition → Except CeilingViolation Unit
  | a :: b :: rest =>
      if b.activationHeight < a.activationHeight then
        .error (.historyStructurallyInvalid
          s!"transition activation_height {b.activationHeight} precedes preceding transition's {a.activationHeight}")
      else checkMonotonic (b :: rest)
  | _ => .ok ()

def verifyCeilingsUnchangedSinceGenesis (chain : ChainStateView) : Except CeilingViolation Unit := do
  let genesis ← chain.genesisConstitutionalCeilings.mapError fun e =>
    .genesisCeilingsUnreadable e.display
  let history ← chain.chainVersionHistory.mapError fun e => .historyStructurallyInvalid e.display
  checkMonotonic history
  if history.isEmpty then return ()
  checkTransitions chain genesis history

/-! ## What it accepts -/

variable {chain : ChainStateView} {genesis observed : ConstitutionalCeilings} {height h : UInt64}
  {history : List ChainVersionTransition}

theorem checkFields_eq_ok_iff : checkFields height genesis observed = .ok () ↔ genesis = observed := by
  rw [← sameOn_all_iff]
  unfold checkFields
  rcases hfind : CeilingFieldId.all.find? fun field =>
    fieldValue genesis field ≠ fieldValue observed field with _ | field
  · have hall := List.find?_eq_none.mp hfind
    exact iff_of_true rfl fun field hfield => by simpa using hall field hfield
  · have hmem := List.mem_of_find?_eq_some hfind
    have hdiffers := List.find?_some hfind
    refine iff_of_false (fun h => (nomatch h)) fun hall => ?_
    simp [hall field hmem] at hdiffers

theorem checkHeight_eq_ok_iff : checkHeight chain genesis h height = .ok ()
    ↔ chain.ceilingsAtHeight height = .ok genesis := by
  rw [checkHeight, Fallible.bind_eq_ok_iff]
  simp only [Fallible.mapError_eq_ok_iff, checkFields_eq_ok_iff]
  constructor
  · rintro ⟨observed, hread, rfl⟩
    exact hread
  · intro hread
    exact ⟨genesis, hread, rfl⟩

/-- The ceilings of genesis stand on both sides of a change of the version. -/
def KeptAt (chain : ChainStateView) (genesis : ConstitutionalCeilings)
    (transition : ChainVersionTransition) : Prop :=
  (0 < transition.activationHeight →
      chain.ceilingsAtHeight (transition.activationHeight - 1) = .ok genesis)
    ∧ chain.ceilingsAtHeight transition.activationHeight = .ok genesis

theorem checkTransition_eq_ok_iff {transition : ChainVersionTransition} :
    checkTransition chain genesis transition = .ok () ↔ KeptAt chain genesis transition := by
  unfold checkTransition KeptAt
  by_cases h : 0 < transition.activationHeight
  · simp only [h, if_true, forall_const, Fallible.check_bind_eq_ok_iff, checkHeight_eq_ok_iff]
  · simp only [h, if_false, false_imp_iff, true_and]
    exact checkHeight_eq_ok_iff

theorem checkTransitions_eq_ok_iff : checkTransitions chain genesis history = .ok ()
    ↔ ∀ transition ∈ history, KeptAt chain genesis transition := by
  induction history with
  | nil => simp [checkTransitions]
  | cons transition history ih =>
      rw [checkTransitions, Fallible.check_bind_eq_ok_iff, List.forall_mem_cons,
        checkTransition_eq_ok_iff, ih]

theorem checkMonotonic_eq_ok_iff : checkMonotonic history = .ok ()
    ↔ (history.map (·.activationHeight)).IsChain (· ≤ ·) := by
  induction history with
  | nil => simp [checkMonotonic]
  | cons a history ih =>
      rcases history with _ | ⟨b, rest⟩
      · simp [checkMonotonic]
      · rw [checkMonotonic]
        split
        · rename_i hlt
          simp only [reduceCtorEq, List.map_cons, List.isChain_cons_cons, false_iff]
          exact fun hchain => absurd hlt (UInt64.not_lt.mpr hchain.1)
        · rename_i hle
          rw [ih]
          simp [UInt64.not_lt.mp hle]

/-- The record can be read and is in order, and the ceilings are those of genesis
before and after every change of the version. -/
def Unchanged (chain : ChainStateView) : Prop :=
  ∃ genesis history, chain.genesisConstitutionalCeilings = .ok genesis
    ∧ chain.chainVersionHistory = .ok history
    ∧ (history.map (·.activationHeight)).IsChain (· ≤ ·)
    ∧ ∀ transition ∈ history, KeptAt chain genesis transition

theorem verify_eq_ok_iff : verifyCeilingsUnchangedSinceGenesis chain = .ok () ↔ Unchanged chain := by
  have hchecks : ∀ genesis history, (do
      checkMonotonic history
      if history.isEmpty then return ()
      checkTransitions chain genesis history) = .ok ()
      ↔ (history.map (·.activationHeight)).IsChain (· ≤ ·)
        ∧ ∀ transition ∈ history, KeptAt chain genesis transition := by
    intro genesis history
    rw [Fallible.check_bind_eq_ok_iff, checkMonotonic_eq_ok_iff, ← checkTransitions_eq_ok_iff]
    rcases history with _ | ⟨transition, rest⟩
    · simp [checkTransitions, pure, Except.pure]
    · rfl
  unfold verifyCeilingsUnchangedSinceGenesis Unchanged
  simp only [Fallible.bind_eq_ok_iff, Fallible.mapError_eq_ok_iff]
  constructor
  · rintro ⟨genesis, hgenesis, history, hhistory, hrest⟩
    exact ⟨genesis, history, hgenesis, hhistory,
      (hchecks genesis history).mp (Fallible.bind_eq_ok_iff.mpr hrest)⟩
  · rintro ⟨genesis, history, hgenesis, hhistory, hkept⟩
    exact ⟨genesis, hgenesis, history, hhistory,
      Fallible.bind_eq_ok_iff.mp ((hchecks genesis history).mpr hkept)⟩

/-! ## Chains whose ceilings came through the gate -/

/-- From the ceilings that were last seen on, every change has passed the gate. -/
def GatedFrom (chain : ChainStateView) :
    ConstitutionalCeilings → List ChainVersionTransition → Prop
  | _, [] => True
  | last, transition :: rest => ∃ pre post,
      (0 < transition.activationHeight →
        chain.ceilingsAtHeight (transition.activationHeight - 1) = .ok pre)
      ∧ chain.ceilingsAtHeight transition.activationHeight = .ok post
      ∧ GatedChanges last pre ∧ GatedChanges pre post ∧ GatedFrom chain post rest

structure Gated (chain : ChainStateView) (genesis : ConstitutionalCeilings)
    (history : List ChainVersionTransition) : Prop where
  reads : chain.genesisConstitutionalCeilings = .ok genesis
  recorded : chain.chainVersionHistory = .ok history
  monotonic : (history.map (·.activationHeight)).IsChain (· ≤ ·)
  changes : GatedFrom chain genesis history

/-- The six fields outside the gate are those of genesis before and after every
change of the version. -/
def KeepsUngated (chain : ChainStateView) (genesis : ConstitutionalCeilings)
    (history : List ChainVersionTransition) : Prop :=
  ∀ transition ∈ history,
    (0 < transition.activationHeight → ∀ pre,
      chain.ceilingsAtHeight (transition.activationHeight - 1) = .ok pre → SameOn ungated genesis pre)
    ∧ ∀ post, chain.ceilingsAtHeight transition.activationHeight = .ok post →
      SameOn ungated genesis post

theorem GatedFrom.kept_iff {last : ConstitutionalCeilings} (hlast : SameOn gated genesis last)
    (h : GatedFrom chain last history) :
    (∀ transition ∈ history, KeptAt chain genesis transition)
      ↔ KeepsUngated chain genesis history := by
  unfold KeepsUngated
  induction history generalizing last with
  | nil => simp
  | cons transition history ih =>
      obtain ⟨pre, post, hpre, hpost, hbefore, hafter, hrest⟩ := h
      have hgatedPre : SameOn gated genesis pre := hlast.trans (gatedChanges_iff.mp hbefore)
      have hgatedPost : SameOn gated genesis post := hgatedPre.trans (gatedChanges_iff.mp hafter)
      have hsame : ∀ {ceilings}, SameOn gated genesis ceilings →
          (ceilings = genesis ↔ SameOn ungated genesis ceilings) := by
        intro ceilings hgated
        rw [eq_comm, ← sameOn_gated_ungated_iff]
        exact and_iff_right hgated
      rw [List.forall_mem_cons, List.forall_mem_cons, ih hgatedPost hrest]
      refine and_congr_left fun _ => and_congr (forall_congr' fun hpositive => ?_) ?_
      · rw [hpre hpositive, Except.ok.injEq, hsame hgatedPre]
        simp
      · rw [hpost, Except.ok.injEq, hsame hgatedPost]
        simp

/-- The gate is as strict as the auditor on thirteen of the nineteen fields. -/
theorem gate_strict_iff (current proposed : ConstitutionalCeilings) (chain : ChainStateView)
    (genesis : ConstitutionalCeilings) (history : List ChainVersionTransition)
    (hgated : Gated chain genesis history) :
    ((validateCeilingsImmutable current proposed = .ok () ↔ current = proposed)
        ↔ SameOn ungated current proposed ∨ ¬ SameOn gated current proposed)
      ∧ (verifyCeilingsUnchangedSinceGenesis chain = .ok () ↔ KeepsUngated chain genesis history)
      ∧ ∀ other, verifyCeilingsUnchangedSinceGenesis other = .ok () → Unchanged other := by
  refine ⟨?_, ?_, fun other => verify_eq_ok_iff.mp⟩
  · rw [validateCeilingsImmutable_eq_ok_iff, ← sameOn_gated_ungated_iff]
    tauto
  · rw [← hgated.changes.kept_iff (fun _ _ => rfl), verify_eq_ok_iff]
    constructor
    · rintro ⟨genesis', history', hgenesis, hhistory, -, hkept⟩
      rw [hgated.reads] at hgenesis
      rw [hgated.recorded] at hhistory
      obtain rfl := Except.ok.inj hgenesis
      obtain rfl := Except.ok.inj hhistory
      exact hkept
    · intro hkept
      exact ⟨genesis, history, hgated.reads, hgated.recorded, hgated.monotonic, hkept⟩

/-! ## A ceiling raised through the gate -/

/-- More forgery vetoes in a block. -/
def raisedCeilings : ConstitutionalCeilings := { maxForgeryVetoesPerBlockCeiling := 64 }

def upgradeAt (height : UInt64) : ChainVersionTransition where
  activationHeight := height
  fromVersion := 4
  toVersion := 5
  upgradeSpecHash := Hash.ofByte 1
  proposalId := Hash.ofByte 2

/-- The ceilings are raised at the upgrade. -/
def raisedFixture : JsonChainStateFixture where
  genesisBlockHash := Hash.ofByte 3
  genesisCeilings := {}
  chainVersionHistory := [upgradeAt 100]
  ceilingsByHeight := [(99, {}), (100, raisedCeilings)]

def preservedFixture : JsonChainStateFixture where
  genesisBlockHash := Hash.ofByte 3
  genesisCeilings := {}
  chainVersionHistory := [upgradeAt 100]
  ceilingsByHeight := [(99, {}), (100, {})]

theorem validate_raisedCeilings : validateCeilingsImmutable {} raisedCeilings = .ok () := by
  decide +kernel

theorem gated_raisedFixture : Gated raisedFixture.view {} [upgradeAt 100] where
  reads := rfl
  recorded := rfl
  monotonic := List.IsChain.singleton _
  changes := ⟨{}, raisedCeilings, fun _ => rfl, rfl, .refl, .single validate_raisedCeilings, trivial⟩

theorem gated_preservedFixture : Gated preservedFixture.view {} [upgradeAt 100] where
  reads := rfl
  recorded := rfl
  monotonic := List.IsChain.singleton _
  changes := ⟨{}, {}, fun _ => rfl, rfl, .refl, .refl, trivial⟩

/-- The gate lets a raised ceiling through that the auditor reports. -/
theorem raised_through_gate :
    ¬ (validateCeilingsImmutable {} raisedCeilings = .ok () ↔ {} = raisedCeilings)
      ∧ Gated raisedFixture.view {} [upgradeAt 100]
      ∧ verifyCeilingsUnchangedSinceGenesis raisedFixture.view
        = .error (.fieldValueChanged 100 .maxForgeryVetoesPerBlock (.u32 8) (.u32 64)) := by
  have hdiffers : ({} : ConstitutionalCeilings) ≠ raisedCeilings := by decide +kernel
  exact ⟨fun h => hdiffers (h.mp validate_raisedCeilings), gated_raisedFixture, by decide +kernel⟩

theorem gate_strict_iff_preservedFixture :
    ((validateCeilingsImmutable {} raisedCeilings = .ok () ↔ {} = raisedCeilings)
        ↔ SameOn ungated {} raisedCeilings ∨ ¬ SameOn gated {} raisedCeilings)
      ∧ (verifyCeilingsUnchangedSinceGenesis preservedFixture.view = .ok ()
        ↔ KeepsUngated preservedFixture.view {} [upgradeAt 100])
      ∧ ∀ other, verifyCeilingsUnchangedSinceGenesis other = .ok () → Unchanged other :=
  gate_strict_iff {} raisedCeilings preservedFixture.view {} [upgradeAt 100] gated_preservedFixture

end Audit

end Sccgub
