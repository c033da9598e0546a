import Mathlib
import Sccgub.Governance.Proposals

/-!
# Typed parameter proposals

A typed change names one field of the consensus parameters and gives it a value.
Read field by field, the parameters after it differ in that field alone.

A typed proposal is checked when it is submitted, against the parameters of that
time; the registry also takes one that was not checked.
-/

namespace Sccgub

open Bincode FixedWidth

/-! ## Field by field -/

def ConsensusParams.read (self : ConsensusParams) : ConsensusParamField → ConsensusParamValue
  | .maxProofDepth => .u32 self.maxProofDepth
  | .maxConstraintPropagationDepth => .u32 self.maxConstraintPropagationDepth
  | .maxConstraintPropagationSteps => .u64 self.maxConstraintPropagationSteps
  | .maxActivatedSymbols => .u32 self.maxActivatedSymbols
  | .maxScanPerSymbol => .u64 self.maxScanPerSymbol
  | .maxConstraintsPerSymbol => .u64 self.maxConstraintsPerSymbol
  | .defaultMaxSteps => .u64 self.defaultMaxSteps
  | .defaultTxGasLimit => .u64 self.defaultTxGasLimit
  | .defaultBlockGasLimit => .u64 self.defaultBlockGasLimit
  | .gasTxBase => .u64 self.gasTxBase
  | .gasComputeStep => .u64 self.gasComputeStep
  | .gasStateRead => .u64 self.gasStateRead
  | .gasStateWrite => .u64 self.gasStateWrite
  | .gasSigVerify => .u64 self.gasSigVerify
  | .gasHashOp => .u64 self.gasHashOp
  | .gasProofByte => .u64 self.gasProofByte
  | .gasPayloadByte => .u64 self.gasPayloadByte
  | .maxSymbolAddressLen => .u32 self.maxSymbolAddressLen
  | .maxStateEntrySize => .u32 self.maxStateEntrySize
  | .maxTensionSwing => .i64 self.maxTensionSwing
  | .viewChangeBaseTimeoutMs => .u32 self.viewChangeBaseTimeoutMs
  | .viewChangeMaxTimeoutMs => .u32 self.viewChangeMaxTimeoutMs
  | .maxBlockBytes => .u32 self.maxBlockBytes
  | .maxActiveProposals => .u32 self.maxActiveProposals
  | .maxValidatorSetSize => .u32 self.maxValidatorSetSize
  | .maxValidatorSetChangesPerBlockParam => .u32 self.maxValidatorSetChangesPerBlockParam
  | .medianTensionWindow => .u32 self.medianTensionWindow
  | .feeTensionAlpha => .i128 self.feeTensionAlpha
  | .confirmationDepth => .u64 self.confirmationDepth
  | .maxEquivocationEvidencePerBlockParam => .u32 self.maxEquivocationEvidencePerBlockParam
  | .maxForgeryVetoesPerBlockParam => .u32 self.maxForgeryVetoesPerBlockParam

/-- The field that is named takes the value, every other field stays. -/
theorem read_applyTypedParam {field : ConsensusParamField} {newValue : ConsensusParamValue}
    {base params : ConsensusParams} (h : applyTypedParam field newValue base = .ok params)
    (other : ConsensusParamField) :
    params.read other = if other = field then newValue else base.read other := by
  cases field <;> cases newValue <;> cases h <;> cases other <;> rfl

/-! ## Submission -/

inductive TypedParamProposalRejection where
  | typeMismatch (error : TypedParamApplyError)
  | ceilingViolation (violation : CeilingViolation)
  | activationInPast (activation current : UInt64)
  | paramBounds (reason : String)
  | activationTooFarInFuture (activation current maxOffset : UInt64)
  deriving DecidableEq, Inhabited

/-- Ten constitutional timelocks. -/
def maxActivationHeightOffset : UInt64 := 2000

/-- The parameters as they would be after the change. -/
def validateTypedParamProposal (current : ConsensusParams) (ceilings : ConstitutionalCeilings)
    (field : ConsensusParamField) (newValue : ConsensusParamValue)
    (activationHeight currentHeight : UInt64) :
    Except TypedParamProposalRejection ConsensusParams := do
  if activationHeight ≤ currentHeight then
    throw (.activationInPast activationHeight currentHeight)
  if saturatingAdd currentHeight maxActivationHeightOffset < activationHeight then
    throw (.activationTooFarInFuture activationHeight currentHeight maxActivationHeightOffset)
  let hypothetical ← (applyTypedParam field newValue current).mapError .typeMismatch
  (ceilings.validate hypothetical).mapError .ceilingViolation
  hypothetical.validate.mapError .paramBounds
  return hypothetical

/-- The source renders the first as a text. -/
inductive TypedSubmissionError where
  | rejected (rejection : TypedParamProposalRejection)
  | registry (message : String)
  deriving DecidableEq, Inhabited

def ProposalRegistry.submitTypedConsensusParamProposal [Crypto] (self : ProposalRegistry)
    (proposer : AgentId) (proposerLevel : PrecedenceLevel) (currentParams : ConsensusParams)
    (currentCeilings : ConstitutionalCeilings) (field : ConsensusParamField)
    (newValue : ConsensusParamValue) (activationHeight currentHeight votingPeriod : UInt64) :
    Except TypedSubmissionError ((Hash × ConsensusParams) × ProposalRegistry) := do
  let hypothetical ← (validateTypedParamProposal currentParams currentCeilings field newValue
    activationHeight currentHeight).mapError .rejected
  let (id, registry) ← (self.submit proposer proposerLevel
    (.modifyConsensusParam field newValue activationHeight) currentHeight votingPeriod).mapError
      .registry
  return ((id, hypothetical), registry)

end Sccgub
