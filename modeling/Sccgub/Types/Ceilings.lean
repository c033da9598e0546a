import Mathlib
import Sccgub.Types.Params

/-!
# Constitutional ceilings and typed parameter changes

The ceilings are upper bounds on the consensus parameters that no governance
path can raise.  A typed parameter change names one field of the parameters
and a value of that field's width; it is applied to a copy, and the copy is
checked against the ceilings before it takes effect.
-/

namespace Sccgub

open Bincode FixedWidth

/-! ## Ceilings -/

/-- Layout before the fee floor. -/
structure LegacyConstitutionalCeilingsV1 where
  maxProofDepthCeiling : UInt32 := 512
  maxTxGasCeiling : UInt64 := 16000000
  maxBlockGasCeiling : UInt64 := 800000000
  maxContractStepsCeiling : UInt64 := 40000
  maxAddressLengthCeiling : UInt32 := 4096
  maxStateEntrySizeCeiling : UInt32 := 4194304
  maxTensionSwingCeiling : Int64 := 4000000
  maxBlockBytesCeiling : UInt32 := 8388608
  maxActiveProposalsCeiling : UInt32 := 256
  maxViewChangeBaseTimeoutMs : UInt32 := 60000
  maxViewChangeMaxTimeoutMs : UInt32 := 3600000
  maxValidatorSetSizeCeiling : UInt32 := 128
  maxValidatorSetChangesPerBlock : UInt32 := 8
  maxFeeTensionAlphaCeiling : I128 := I128.saturate TensionValue.scale
  maxMedianTensionWindowCeiling : UInt32 := 64
  maxConfirmationDepthCeiling : UInt64 := 8
  maxEquivocationEvidencePerBlock : UInt32 := 16
  deriving DecidableEq, Inhabited

structure LegacyConstitutionalCeilingsV2 extends LegacyConstitutionalCeilingsV1 where
  minEffectiveFeeFloor : I128 := I128.saturate (TensionValue.scale / 100)
  deriving DecidableEq, Inhabited

structure ConstitutionalCeilings extends LegacyConstitutionalCeilingsV2 where
  maxForgeryVetoesPerBlockCeiling : UInt32 := 8
  deriving DecidableEq, Inhabited

def LegacyConstitutionalCeilingsV1.codec : Codec LegacyConstitutionalCeilingsV1 :=
  (Codec.u32.pair <| Codec.u64.pair <| Codec.u64.pair <| Codec.u64.pair <| Codec.u32.pair <|
    Codec.u32.pair <| i64Codec.pair <| Codec.u32.pair <| Codec.u32.pair <| Codec.u32.pair <|
    Codec.u32.pair <| Codec.u32.pair <| Codec.u32.pair <| I128.codec.pair <| Codec.u32.pair <|
    Codec.u64.pair Codec.u32).iso
    (fun ⟨a, b, c, d, e, f, g, h, i, j, k, l, m, n, o, p, q⟩ =>
      ⟨a, b, c, d, e, f, g, h, i, j, k, l, m, n, o, p, q⟩)
    (fun ⟨a, b, c, d, e, f, g, h, i, j, k, l, m, n, o, p, q⟩ =>
      (a, b, c, d, e, f, g, h, i, j, k, l, m, n, o, p, q))
    (fun _ => rfl) (fun _ => rfl)

def LegacyConstitutionalCeilingsV2.codec : Codec LegacyConstitutionalCeilingsV2 :=
  (LegacyConstitutionalCeilingsV1.codec.pair I128.codec).iso (fun ⟨v, a⟩ => ⟨v, a⟩)
    (fun ⟨v, a⟩ => (v, a)) (fun _ => rfl) (fun _ => rfl)

/-- Which companion field of the parameters is above its ceiling. -/
inductive CeilingKind where
  | maxProofDepth
  | maxTxGas
  | maxBlockGas
  | maxContractSteps
  | maxAddressLength
  | maxStateEntrySize
  | maxTensionSwing
  | maxBlockBytes
  | maxActiveProposals
  | viewChangeBaseTimeout
  | viewChangeMaxTimeout
  | maxValidatorSetSize
  | maxValidatorSetChangesPerBlock
  | maxFeeTensionAlpha
  | maxMedianTensionWindow
  | maxConfirmationDepth
  | maxEquivocationEvidencePerBlock
  | maxForgeryVetoesPerBlock
  deriving DecidableEq, Inhabited

structure CeilingViolation where
  kind : CeilingKind
  value : Int
  ceiling : Int
  deriving DecidableEq, Inhabited

/-- The parameter and, where the message names it, the ceiling field. -/
def CeilingKind.fields : CeilingKind → String × String
  | maxProofDepth => ("max_proof_depth", "")
  | maxTxGas => ("default_tx_gas_limit", "max_tx_gas_")
  | maxBlockGas => ("default_block_gas_limit", "max_block_gas_")
  | maxContractSteps => ("default_max_steps", "max_contract_steps_")
  | maxAddressLength => ("max_symbol_address_len", "max_address_length_")
  | maxStateEntrySize => ("max_state_entry_size", "max_state_entry_size_")
  | maxTensionSwing => ("max_tension_swing", "max_tension_swing_")
  | maxBlockBytes => ("max_block_bytes", "max_block_bytes_")
  | maxActiveProposals => ("max_active_proposals", "max_active_proposals_")
  | viewChangeBaseTimeout => ("view_change_base_timeout_ms", "")
  | viewChangeMaxTimeout => ("view_change_max_timeout_ms", "")
  | maxValidatorSetSize => ("max_validator_set_size", "max_validator_set_size_")
  | maxValidatorSetChangesPerBlock =>
      ("max_validator_set_changes_per_block_param", "max_validator_set_changes_per_block")
  | maxFeeTensionAlpha => ("fee_tension_alpha", "max_fee_tension_alpha_")
  | maxMedianTensionWindow => ("median_tension_window", "max_median_tension_window_")
  | maxConfirmationDepth => ("confirmation_depth", "max_confirmation_depth_")
  | maxEquivocationEvidencePerBlock =>
      ("max_equivocation_evidence_per_block_param", "max_equivocation_evidence_per_block")
  | maxForgeryVetoesPerBlock =>
      ("max_forgery_vetoes_per_block_param", "max_forgery_vetoes_per_block_")

/-- The two per-block counts are bounded by a field whose name does not end in
`ceiling`. -/
def CeilingViolation.display (v : CeilingViolation) : String :=
  let suffix := match v.kind with
    | .maxValidatorSetChangesPerBlock | .maxEquivocationEvidencePerBlock => ""
    | _ => "ceiling"
  s!"{v.kind.fields.1} {v.value} exceeds {v.kind.fields.2}{suffix} {v.ceiling}"

namespace ConstitutionalCeilings

def codec : Codec ConstitutionalCeilings :=
  (LegacyConstitutionalCeilingsV2.codec.pair Codec.u32).iso (fun ⟨v, a⟩ => ⟨v, a⟩)
    (fun ⟨v, a⟩ => (v, a)) (fun _ => rfl) (fun _ => rfl)

def trieKey : Bytes := "system/constitutional_ceilings".toUTF8.data.toList

def toCanonicalBytes (c : ConstitutionalCeilings) : Bytes := codec.enc c

def fromCanonicalBytes (bytes : Bytes) : Except String ConstitutionalCeilings :=
  match codec.ofBytes bytes with
  | some current => .ok current
  | none =>
      match LegacyConstitutionalCeilingsV2.codec.ofBytes bytes with
      | some v2 => .ok { toLegacyConstitutionalCeilingsV2 := v2 }
      | none =>
          match LegacyConstitutionalCeilingsV1.codec.ofBytes bytes with
          | some v1 => .ok { toLegacyConstitutionalCeilingsV1 := v1 }
          | none => .error "ConstitutionalCeilings deserialize"

/-- Every bounded parameter beside its ceiling, in declaration order. -/
def companions (c : ConstitutionalCeilings) (p : ConsensusParams) : List CeilingViolation :=
  [⟨.maxProofDepth, p.maxProofDepth.toNat, c.maxProofDepthCeiling.toNat⟩,
    ⟨.maxTxGas, p.defaultTxGasLimit.toNat, c.maxTxGasCeiling.toNat⟩,
    ⟨.maxBlockGas, p.defaultBlockGasLimit.toNat, c.maxBlockGasCeiling.toNat⟩,
    ⟨.maxContractSteps, p.defaultMaxSteps.toNat, c.maxContractStepsCeiling.toNat⟩,
    ⟨.maxAddressLength, p.maxSymbolAddressLen.toNat, c.maxAddressLengthCeiling.toNat⟩,
    ⟨.maxStateEntrySize, p.maxStateEntrySize.toNat, c.maxStateEntrySizeCeiling.toNat⟩,
    ⟨.maxTensionSwing, p.maxTensionSwing.toInt, c.maxTensionSwingCeiling.toInt⟩,
    ⟨.maxBlockBytes, p.maxBlockBytes.toNat, c.maxBlockBytesCeiling.toNat⟩,
    ⟨.maxActiveProposals, p.maxActiveProposals.toNat, c.maxActiveProposalsCeiling.toNat⟩,
    ⟨.viewChangeBaseTimeout, p.viewChangeBaseTimeoutMs.toNat, c.maxViewChangeBaseTimeoutMs.toNat⟩,
    ⟨.viewChangeMaxTimeout, p.viewChangeMaxTimeoutMs.toNat, c.maxViewChangeMaxTimeoutMs.toNat⟩,
    ⟨.maxValidatorSetSize, p.maxValidatorSetSize.toNat, c.maxValidatorSetSizeCeiling.toNat⟩,
    ⟨.maxValidatorSetChangesPerBlock, p.maxValidatorSetChangesPerBlockParam.toNat,
      c.maxValidatorSetChangesPerBlock.toNat⟩,
    ⟨.maxFeeTensionAlpha, p.feeTensionAlpha.val, c.maxFeeTensionAlphaCeiling.val⟩,
    ⟨.maxMedianTensionWindow, p.medianTensionWindow.toNat, c.maxMedianTensionWindowCeiling.toNat⟩,
    ⟨.maxConfirmationDepth, p.confirmationDepth.toNat, c.maxConfirmationDepthCeiling.toNat⟩,
    ⟨.maxEquivocationEvidencePerBlock, p.maxEquivocationEvidencePerBlockParam.toNat,
      c.maxEquivocationEvidencePerBlock.toNat⟩,
    ⟨.maxForgeryVetoesPerBlock, p.maxForgeryVetoesPerBlockParam.toNat,
      c.maxForgeryVetoesPerBlockCeiling.toNat⟩]

/-- The first parameter above its ceiling. -/
def validate (c : ConstitutionalCeilings) (p : ConsensusParams) : Except CeilingViolation Unit :=
  match (c.companions p).find? fun v => v.value > v.ceiling with
  | some violation => .error violation
  | none => .ok ()

/-- A default genesis is within its ceilings. -/
theorem validate_default : validate {} {} = .ok () := by decide +kernel

end ConstitutionalCeilings

/-! ## Typed parameter changes -/

inductive ConsensusParamField where
  | maxProofDepth
  | maxConstraintPropagationDepth
  | maxConstraintPropagationSteps
  | maxActivatedSymbols
  | maxScanPerSymbol
  | maxConstraintsPerSymbol
  | defaultMaxSteps
  | defaultTxGasLimit
  | defaultBlockGasLimit
  | gasTxBase
  | gasComputeStep
  | gasStateRead
  | gasStateWrite
  | gasSigVerify
  | gasHashOp
  | gasProofByte
  | gasPayloadByte
  | maxSymbolAddressLen
  | maxStateEntrySize
  | maxTensionSwing
  | viewChangeBaseTimeoutMs
  | viewChangeMaxTimeoutMs
  | maxBlockBytes
  | maxActiveProposals
  | maxValidatorSetSize
  | maxValidatorSetChangesPerBlockParam
  | medianTensionWindow
  | feeTensionAlpha
  | confirmationDepth
  | maxEquivocationEvidencePerBlockParam
  | maxForgeryVetoesPerBlockParam
  deriving DecidableEq, Inhabited

inductive ConsensusParamValue where
  | u32 (v : UInt32)
  | u64 (v : UInt64)
  | i64 (v : Int64)
  | i128 (v : I128)
  deriving DecidableEq, Inhabited

def ConsensusParamValue.typeName : ConsensusParamValue → String
  | u32 _ => "u32"
  | u64 _ => "u64"
  | i64 _ => "i64"
  | i128 _ => "i128"

/-- The value is not of the field's width. -/
structure TypedParamApplyError where
  field : ConsensusParamField
  expected : String
  actual : String
  deriving DecidableEq, Inhabited

section

variable (field : ConsensusParamField) (newValue : ConsensusParamValue)

def typeMismatch (expected : String) : Except TypedParamApplyError ConsensusParams :=
  .error ⟨field, expected, newValue.typeName⟩

def expectU32 (assign : UInt32 → ConsensusParams) : Except TypedParamApplyError ConsensusParams :=
  match newValue with
  | .u32 v => .ok (assign v)
  | _ => typeMismatch field newValue "u32"

def expectU64 (assign : UInt64 → ConsensusParams) : Except TypedParamApplyError ConsensusParams :=
  match newValue with
  | .u64 v => .ok (assign v)
  | _ => typeMismatch field newValue "u64"

def expectI64 (assign : Int64 → ConsensusParams) : Except TypedParamApplyError ConsensusParams :=
  match newValue with
  | .i64 v => .ok (assign v)
  | _ => typeMismatch field newValue "i64"

def expectI128 (assign : I128 → ConsensusParams) : Except TypedParamApplyError ConsensusParams :=
  match newValue with
  | .i128 v => .ok (assign v)
  | _ => typeMismatch field newValue "i128"

/-- The parameters with one field overwritten. -/
def applyTypedParam (base : ConsensusParams) : Except TypedParamApplyError ConsensusParams :=
  match field with
  | .maxProofDepth => expectU32 field newValue fun v => { base with maxProofDepth := v }
  | .maxConstraintPropagationDepth =>
      expectU32 field newValue fun v => { base with maxConstraintPropagationDepth := v }
  | .maxConstraintPropagationSteps =>
      expectU64 field newValue fun v => { base with maxConstraintPropagationSteps := v }
  | .maxActivatedSymbols => expectU32 field newValue fun v => { base with maxActivatedSymbols := v }
  | .maxScanPerSymbol => expectU64 field newValue fun v => { base with maxScanPerSymbol := v }
  | .maxConstraintsPerSymbol =>
      expectU64 field newValue fun v => { base with maxConstraintsPerSymbol := v }
  | .defaultMaxSteps => expectU64 field newValue fun v => { base with defaultMaxSteps := v }
  | .defaultTxGasLimit => expectU64 field newValue fun v => { base with defaultTxGasLimit := v }
  | .defaultBlockGasLimit =>
      expectU64 field newValue fun v => { base with defaultBlockGasLimit := v }
  | .gasTxBase => expectU64 field newValue fun v => { base with gasTxBase := v }
  | .gasComputeStep => expectU64 field newValue fun v => { base with gasComputeStep := v }
  | .gasStateRead => expectU64 field newValue fun v => { base with gasStateRead := v }
  | .gasStateWrite => expectU64 field newValue fun v => { base with gasStateWrite := v }
  | .gasSigVerify => expectU64 field newValue fun v => { base with gasSigVerify := v }
  | .gasHashOp => expectU64 field newValue fun v => { base with gasHashOp := v }
  | .gasProofByte => expectU64 field newValue fun v => { base with gasProofByte := v }
  | .gasPayloadByte => expectU64 field newValue fun v => { base with gasPayloadByte := v }
  | .maxSymbolAddressLen => expectU32 field newValue fun v => { base with maxSymbolAddressLen := v }
  | .maxStateEntrySize => expectU32 field newValue fun v => { base with maxStateEntrySize := v }
  | .maxTensionSwing => expectI64 field newValue fun v => { base with maxTensionSwing := v }
  | .viewChangeBaseTimeoutMs =>
      expectU32 field newValue fun v => { base with viewChangeBaseTimeoutMs := v }
  | .viewChangeMaxTimeoutMs =>
      expectU32 field newValue fun v => { base with viewChangeMaxTimeoutMs := v }
  | .maxBlockBytes => expectU32 field newValue fun v => { base with maxBlockBytes := v }
  | .maxActiveProposals => expectU32 field newValue fun v => { base with maxActiveProposals := v }
  | .maxValidatorSetSize => expectU32 field newValue fun v => { base with maxValidatorSetSize := v }
  | .maxValidatorSetChangesPerBlockParam =>
      expectU32 field newValue fun v => { base with maxValidatorSetChangesPerBlockParam := v }
  | .medianTensionWindow => expectU32 field newValue fun v => { base with medianTensionWindow := v }
  | .feeTensionAlpha => expectI128 field newValue fun v => { base with feeTensionAlpha := v }
  | .confirmationDepth => expectU64 field newValue fun v => { base with confirmationDepth := v }
  | .maxEquivocationEvidencePerBlockParam =>
      expectU32 field newValue fun v => { base with maxEquivocationEvidencePerBlockParam := v }
  | .maxForgeryVetoesPerBlockParam =>
      expectU32 field newValue fun v => { base with maxForgeryVetoesPerBlockParam := v }

end

end Sccgub
