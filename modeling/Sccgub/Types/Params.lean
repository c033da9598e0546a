import Mathlib
import Sccgub.Types.Agent

/-!
# Consensus parameters and their ceilings

The chain-bound parameters grew by one group of fields at each patch, and
every older layout still decodes, missing fields taking their defaults.  So
the layouts are structures that extend one another, the last one being the
current record.

The ceilings are bound at genesis.  Both records are checked field by field,
in declaration order; the checks are tables, and the first failing row gives
the error.
-/

namespace Sccgub

open Bincode FixedWidth

/-- The first row whose condition holds is the error. -/
def firstError : List (Bool × String) → Except String Unit
  | [] => .ok ()
  | (bad, message) :: rest => if bad then .error message else firstError rest

theorem firstError_eq_ok_iff {rows : List (Bool × String)} :
    firstError rows = .ok () ↔ ∀ row ∈ rows, row.1 = false := by
  induction rows with
  | nil => simp [firstError]
  | cons row rest ih =>
      obtain ⟨bad, message⟩ := row
      cases bad <;> simp [firstError, ih]

/-- All rows whose condition holds, in order. -/
def allErrors (rows : List (Bool × String)) : List String :=
  rows.filterMap fun (bad, message) => if bad then some message else none

theorem allErrors_eq_nil_iff {rows : List (Bool × String)} :
    allErrors rows = [] ↔ ∀ row ∈ rows, row.1 = false := by
  simp [allErrors, List.filterMap_eq_nil_iff]

/-! ## Layouts -/

/-- Layout of the first patch that stored the parameters. -/
structure LegacyConsensusParamsV1 where
  maxProofDepth : UInt32
  maxActivatedSymbols : UInt32
  maxScanPerSymbol : UInt64
  maxConstraintsPerSymbol : UInt64
  defaultMaxSteps : UInt64
  defaultTxGasLimit : UInt64
  defaultBlockGasLimit : UInt64
  gasTxBase : UInt64
  gasComputeStep : UInt64
  gasStateRead : UInt64
  gasStateWrite : UInt64
  gasSigVerify : UInt64
  gasHashOp : UInt64
  gasProofByte : UInt64
  gasPayloadByte : UInt64
  maxSymbolAddressLen : UInt32
  maxStateEntrySize : UInt32
  deriving DecidableEq, Inhabited

structure LegacyConsensusParamsV2 where
  maxProofDepth : UInt32 := 256
  maxConstraintPropagationDepth : UInt32 := 32
  maxConstraintPropagationSteps : UInt64 := 10000
  maxActivatedSymbols : UInt32 := 16
  maxScanPerSymbol : UInt64 := 1000
  maxConstraintsPerSymbol : UInt64 := 64
  defaultMaxSteps : UInt64 := 10000
  defaultTxGasLimit : UInt64 := 1000000
  defaultBlockGasLimit : UInt64 := 50000000
  gasTxBase : UInt64 := 1000
  gasComputeStep : UInt64 := 10
  gasStateRead : UInt64 := 100
  gasStateWrite : UInt64 := 500
  gasSigVerify : UInt64 := 3000
  gasHashOp : UInt64 := 50
  gasProofByte : UInt64 := 5
  gasPayloadByte : UInt64 := 2
  maxSymbolAddressLen : UInt32 := 4096
  maxStateEntrySize : UInt32 := 1048576
  maxTensionSwing : Int64 := 2000000
  deriving DecidableEq, Inhabited

/-- View change, block size and validator set. -/
structure LegacyConsensusParamsV3 extends LegacyConsensusParamsV2 where
  viewChangeBaseTimeoutMs : UInt32 := 1000
  viewChangeMaxTimeoutMs : UInt32 := 60000
  maxBlockBytes : UInt32 := 2097152
  maxActiveProposals : UInt32 := 128
  maxValidatorSetSize : UInt32 := 64
  maxValidatorSetChangesPerBlockParam : UInt32 := 4
  deriving DecidableEq, Inhabited

/-- Fee oracle, confirmation depth and slashing admission. -/
structure LegacyConsensusParamsV4 extends LegacyConsensusParamsV3 where
  medianTensionWindow : UInt32 := 7
  feeTensionAlpha : I128 := I128.saturate (TensionValue.scale / 2)
  confirmationDepth : UInt64 := 2
  maxEquivocationEvidencePerBlockParam : UInt32 := 4
  deriving DecidableEq, Inhabited

structure ConsensusParams extends LegacyConsensusParamsV4 where
  maxForgeryVetoesPerBlockParam : UInt32 := 4
  deriving DecidableEq, Inhabited

namespace LegacyConsensusParamsV1

def codec : Codec LegacyConsensusParamsV1 :=
  (Codec.u32.pair <| Codec.u32.pair <| Codec.u64.pair <| Codec.u64.pair <| Codec.u64.pair <|
    Codec.u64.pair <| Codec.u64.pair <| Codec.u64.pair <| Codec.u64.pair <| Codec.u64.pair <|
    Codec.u64.pair <| Codec.u64.pair <| Codec.u64.pair <| Codec.u64.pair <| Codec.u64.pair <|
    Codec.u32.pair Codec.u32).iso
    (fun ⟨a, b, c, d, e, f, g, h, i, j, k, l, m, n, o, p, q⟩ =>
      ⟨a, b, c, d, e, f, g, h, i, j, k, l, m, n, o, p, q⟩)
    (fun ⟨a, b, c, d, e, f, g, h, i, j, k, l, m, n, o, p, q⟩ =>
      (a, b, c, d, e, f, g, h, i, j, k, l, m, n, o, p, q))
    (fun _ => rfl) (fun _ => rfl)

def toConsensusParams (v : LegacyConsensusParamsV1) : ConsensusParams where
  maxProofDepth := v.maxProofDepth
  maxConstraintPropagationDepth := 32
  maxConstraintPropagationSteps := 10000
  maxActivatedSymbols := v.maxActivatedSymbols
  maxScanPerSymbol := v.maxScanPerSymbol
  maxConstraintsPerSymbol := v.maxConstraintsPerSymbol
  defaultMaxSteps := v.defaultMaxSteps
  defaultTxGasLimit := v.defaultTxGasLimit
  defaultBlockGasLimit := v.defaultBlockGasLimit
  gasTxBase := v.gasTxBase
  gasComputeStep := v.gasComputeStep
  gasStateRead := v.gasStateRead
  gasStateWrite := v.gasStateWrite
  gasSigVerify := v.gasSigVerify
  gasHashOp := v.gasHashOp
  gasProofByte := v.gasProofByte
  gasPayloadByte := v.gasPayloadByte
  maxSymbolAddressLen := v.maxSymbolAddressLen
  maxStateEntrySize := v.maxStateEntrySize
  maxTensionSwing := 2000000

end LegacyConsensusParamsV1

def LegacyConsensusParamsV2.codec : Codec LegacyConsensusParamsV2 :=
  (Codec.u32.pair <| Codec.u32.pair <| Codec.u64.pair <| Codec.u32.pair <| Codec.u64.pair <|
    Codec.u64.pair <| Codec.u64.pair <| Codec.u64.pair <| Codec.u64.pair <| Codec.u64.pair <|
    Codec.u64.pair <| Codec.u64.pair <| Codec.u64.pair <| Codec.u64.pair <| Codec.u64.pair <|
    Codec.u64.pair <| Codec.u64.pair <| Codec.u32.pair <| Codec.u32.pair i64Codec).iso
    (fun ⟨a, b, c, d, e, f, g, h, i, j, k, l, m, n, o, p, q, r, s, t⟩ =>
      ⟨a, b, c, d, e, f, g, h, i, j, k, l, m, n, o, p, q, r, s, t⟩)
    (fun ⟨a, b, c, d, e, f, g, h, i, j, k, l, m, n, o, p, q, r, s, t⟩ =>
      (a, b, c, d, e, f, g, h, i, j, k, l, m, n, o, p, q, r, s, t))
    (fun _ => rfl) (fun _ => rfl)

def LegacyConsensusParamsV3.codec : Codec LegacyConsensusParamsV3 :=
  (LegacyConsensusParamsV2.codec.pair <| Codec.u32.pair <| Codec.u32.pair <| Codec.u32.pair <|
    Codec.u32.pair <| Codec.u32.pair Codec.u32).iso
    (fun ⟨v, a, b, c, d, e, f⟩ => ⟨v, a, b, c, d, e, f⟩)
    (fun ⟨v, a, b, c, d, e, f⟩ => (v, a, b, c, d, e, f)) (fun _ => rfl) (fun _ => rfl)

def LegacyConsensusParamsV4.codec : Codec LegacyConsensusParamsV4 :=
  (LegacyConsensusParamsV3.codec.pair <| Codec.u32.pair <| I128.codec.pair <| Codec.u64.pair
    Codec.u32).iso
    (fun ⟨v, a, b, c, d⟩ => ⟨v, a, b, c, d⟩) (fun ⟨v, a, b, c, d⟩ => (v, a, b, c, d))
    (fun _ => rfl) (fun _ => rfl)

@[simp] theorem LegacyConsensusParamsV2.codec_fits (p : LegacyConsensusParamsV2) :
    codec.Fits p ∧ codec.Complete p := by
  simp [codec]

@[simp] theorem LegacyConsensusParamsV3.codec_fits (p : LegacyConsensusParamsV3) :
    codec.Fits p ∧ codec.Complete p := by
  simp [codec]

@[simp] theorem LegacyConsensusParamsV4.codec_fits (p : LegacyConsensusParamsV4) :
    codec.Fits p ∧ codec.Complete p := by
  simp [codec]

namespace ConsensusParams

def codec : Codec ConsensusParams :=
  (LegacyConsensusParamsV4.codec.pair Codec.u32).iso (fun ⟨v, a⟩ => ⟨v, a⟩) (fun ⟨v, a⟩ => (v, a))
    (fun _ => rfl) (fun _ => rfl)

def trieKey : Bytes := "system/consensus_params".toUTF8.data.toList

def toCanonicalBytes (p : ConsensusParams) : Bytes := codec.enc p

/-- Each gas cost with its name, as the bounds loop goes through them. -/
def gasCosts (p : ConsensusParams) : List (String × UInt64) :=
  [("gas_tx_base", p.gasTxBase), ("gas_compute_step", p.gasComputeStep),
    ("gas_state_read", p.gasStateRead), ("gas_state_write", p.gasStateWrite),
    ("gas_sig_verify", p.gasSigVerify), ("gas_hash_op", p.gasHashOp),
    ("gas_proof_byte", p.gasProofByte), ("gas_payload_byte", p.gasPayloadByte)]

def limitChecks (p : ConsensusParams) : List (Bool × String) :=
  [(p.maxProofDepth = 0 || p.maxProofDepth > 100000,
      s!"max_proof_depth {p.maxProofDepth} out of bounds (1..100000)"),
    (p.defaultTxGasLimit = 0 || p.defaultTxGasLimit > 1000000000,
      s!"default_tx_gas_limit {p.defaultTxGasLimit} out of bounds (1..1000000000)"),
    (p.defaultBlockGasLimit = 0 || p.defaultBlockGasLimit > 10000000000,
      s!"default_block_gas_limit {p.defaultBlockGasLimit} out of bounds (1..10000000000)"),
    (p.defaultBlockGasLimit < p.defaultTxGasLimit,
      s!"default_block_gas_limit {p.defaultBlockGasLimit} < default_tx_gas_limit {p.defaultTxGasLimit}"),
    (p.maxStateEntrySize = 0 || p.maxStateEntrySize > 16777216,
      s!"max_state_entry_size {p.maxStateEntrySize} out of bounds (1..16777216)"),
    (p.maxSymbolAddressLen = 0 || p.maxSymbolAddressLen > 1048576,
      s!"max_symbol_address_len {p.maxSymbolAddressLen} out of bounds (1..1048576)"),
    (p.maxTensionSwing ≤ 0 || p.maxTensionSwing > 1000000000,
      s!"max_tension_swing {p.maxTensionSwing} out of bounds (1..1000000000)"),
    (p.maxConstraintPropagationDepth = 0 || p.maxConstraintPropagationDepth > 1000,
      s!"max_constraint_propagation_depth {p.maxConstraintPropagationDepth} out of bounds (1..1000)"),
    (p.maxConstraintPropagationSteps = 0 || p.maxConstraintPropagationSteps > 10000000,
      s!"max_constraint_propagation_steps {p.maxConstraintPropagationSteps} out of bounds (1..10000000)"),
    (p.maxActivatedSymbols = 0, "max_activated_symbols must be > 0"),
    (p.maxScanPerSymbol = 0, "max_scan_per_symbol must be > 0"),
    (p.maxConstraintsPerSymbol = 0, "max_constraints_per_symbol must be > 0"),
    (p.defaultMaxSteps = 0 || p.defaultMaxSteps > 10000000,
      s!"default_max_steps {p.defaultMaxSteps} out of bounds (1..10000000)")]

def gasChecks (p : ConsensusParams) : List (Bool × String) :=
  p.gasCosts.map fun (label, value) =>
    (value = 0 || value > 1000000, s!"{label} {value} out of bounds (1..1000000)")

/-- Checks of the fields that the later patches added. -/
def patchChecks (p : ConsensusParams) : List (Bool × String) :=
  [(p.viewChangeBaseTimeoutMs = 0, "view_change_base_timeout_ms must be > 0"),
    (p.viewChangeMaxTimeoutMs < p.viewChangeBaseTimeoutMs,
      s!"view_change_max_timeout_ms {p.viewChangeMaxTimeoutMs} < view_change_base_timeout_ms {p.viewChangeBaseTimeoutMs}"),
    (p.maxBlockBytes < 1024, s!"max_block_bytes {p.maxBlockBytes} below sane floor (1024)"),
    (p.maxActiveProposals = 0, "max_active_proposals must be > 0"),
    (p.maxValidatorSetSize = 0, "max_validator_set_size must be > 0"),
    (p.maxValidatorSetChangesPerBlockParam = 0,
      "max_validator_set_changes_per_block_param must be > 0"),
    (p.medianTensionWindow = 0, "median_tension_window must be > 0"),
    (p.medianTensionWindow % 2 = 0,
      s!"median_tension_window {p.medianTensionWindow} must be odd (single-sample median)"),
    (p.feeTensionAlpha.val < 0,
      s!"fee_tension_alpha {p.feeTensionAlpha.val} must be non-negative"),
    (p.confirmationDepth = 0, "confirmation_depth must be > 0"),
    (p.maxEquivocationEvidencePerBlockParam = 0,
      "max_equivocation_evidence_per_block_param must be > 0"),
    (p.maxForgeryVetoesPerBlockParam = 0, "max_forgery_vetoes_per_block_param must be > 0")]

def validate (p : ConsensusParams) : Except String Unit :=
  firstError (p.limitChecks ++ p.gasChecks ++ p.patchChecks)

/-- The layouts are tried from the newest to the oldest. -/
def decode (bytes : Bytes) : Option ConsensusParams :=
  codec.ofBytes bytes
    <|> (LegacyConsensusParamsV4.codec.ofBytes bytes).map (fun v => ⟨v, 4⟩)
    <|> (LegacyConsensusParamsV3.codec.ofBytes bytes).map (fun v =>
        { toLegacyConsensusParamsV3 := v })
    <|> (LegacyConsensusParamsV2.codec.ofBytes bytes).map (fun v =>
        { toLegacyConsensusParamsV2 := v })
    <|> (LegacyConsensusParamsV1.codec.ofBytes bytes).map (·.toConsensusParams)

def fromCanonicalBytes (bytes : Bytes) : Except String ConsensusParams := do
  match decode bytes with
  | none => throw "ConsensusParams deserialization"
  | some params =>
      params.validate
      return params

/-- The defaults pass their own checks. -/
theorem validate_default : validate {} = .ok () := by decide +kernel

/-- What was stored is read back: the newest layout is tried first, and it
leaves nothing out. -/
theorem fromCanonicalBytes_toCanonicalBytes {p : ConsensusParams} (h : p.validate = .ok ()) :
    fromCanonicalBytes p.toCanonicalBytes = .ok p := by
  have hfits : codec.Fits p := by simp [codec]
  have hcomplete : codec.Complete p := by simp [codec]
  have hread : codec.ofBytes (codec.enc p) = some p := (codec.ofBytes_enc_iff hfits).mpr hcomplete
  have hdecode : decode p.toCanonicalBytes = some p := by
    rw [decode, toCanonicalBytes, hread]
    rfl
  rw [fromCanonicalBytes, hdecode]
  show (p.validate >>= fun _ => pure p) = _
  rw [h]
  rfl

end ConsensusParams

end Sccgub
