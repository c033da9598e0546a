import Mathlib
import Sccgub.Execution.Phi

/-!
# Validation of a transition

The producer's side: mempool admission, the full validation of one transition
against a state, and the metered form of it that leaves a receipt either way.

`validateTransition_eq_ok_iff` says everything that a transition which passes
satisfies; the rest of the development uses it and does not unfold the checks.
-/

namespace Sccgub

open Bincode FixedWidth

/-! ## Signed bytes -/

section

variable [Crypto]

/-- How the payload enters the signed bytes: a write by its key and value, no
operation as zeros, anything else by its encoding. -/
def payloadTag : OperationPayload → Hash
  | .write key value => blake3HashConcat [key, value]
  | .noop => zeroHash
  | payload => blake3Hash (canonicalBytes OperationPayload.codec payload)

/-- The tuple that is signed. -/
def signedTupleCodec :
    Codec (Hash × UInt8 × Bytes × BitVec 128 × Hash × Hash × Hash × Hash × Hash) :=
  (Codec.bytes 32).pair <| Codec.u8.pair <| Codec.blob.pair <| Codec.u128.pair <|
    (Codec.bytes 32).pair <| (Codec.bytes 32).pair <| (Codec.bytes 32).pair <|
    (Codec.bytes 32).pair (Codec.bytes 32)

/-- Of the actor, the id alone is in it. -/
def canonicalTxBytes (tx : SymbolicTransition) : Bytes :=
  canonicalBytes signedTupleCodec
    (tx.actor.agentId, UInt8.ofNat tx.intent.kind.index, tx.intent.target, tx.nonce,
      payloadTag tx.payload,
      blake3Hash (canonicalBytes Constraint.codec.list tx.preconditions),
      blake3Hash (canonicalBytes Constraint.codec.list tx.postconditions),
      blake3Hash (canonicalBytes WHBindingIntent.codec tx.whBindingIntent),
      blake3Hash (canonicalBytes (Codec.bytes 32).list tx.causalChain))

/-- Hash of the public key and the seal. -/
def expectedAgentId (publicKey : Hash) (mfidelSeal : MfidelAtomicSeal) : AgentId :=
  blake3HashConcat [publicKey.toList, canonicalBytes MfidelAtomicSeal.codec mfidelSeal]

end

/-! ## Mempool admission -/

def maxFreeformStringLen : Nat := 4096

/-- Payloads whose size is bounded only by the parameters. -/
def payloadSizeRow (maxStateEntrySize : Nat) : OperationPayload → Bool × String
  | .write key value =>
      (decide (maxStateEntrySize < key.length) || decide (maxStateEntrySize < value.length),
        "Payload key or value exceeds 1MB size limit")
  | .deployContract code =>
      (maxStateEntrySize < code.length, s!"Contract code {code.length} bytes exceeds 1MB limit")
  | .invokeContract _ _ args =>
      (maxStateEntrySize < args.length, s!"Contract args {args.length} bytes exceeds 1MB limit")
  | _ => (false, "")

/-- Cheap checks, without the nonce. -/
def admitCheckStructural (tx : SymbolicTransition) (state : ManagedWorldState) :
    Except String Unit :=
  let maxAddress := state.consensusParams.maxSymbolAddressLen.toNat
  let wh := tx.whBindingIntent
  firstError
    [(tx.signature.length < 64,
        s!"Signature too short: {tx.signature.length} bytes, need >= 64"),
      (maxAddress < tx.intent.target.length,
        s!"Target address {tx.intent.target.length} bytes exceeds max {maxAddress}"),
      payloadSizeRow state.consensusParams.maxStateEntrySize.toNat tx.payload,
      (wh.who = zeroHash, "WHBinding: 'who' is zero"),
      (wh.where.isEmpty, "WHBinding: 'where' is empty"),
      (wh.whatDeclared.isEmpty, "WHBinding: 'what_declared' is empty"),
      (maxFreeformStringLen < wh.whatDeclared.utf8ByteSize,
        s!"WHBinding: 'what_declared' {wh.whatDeclared.utf8ByteSize} bytes exceeds max {maxFreeformStringLen}"),
      (maxFreeformStringLen < tx.intent.declaredPurpose.utf8ByteSize,
        s!"Intent: 'declared_purpose' {tx.intent.declaredPurpose.utf8ByteSize} bytes exceeds max {maxFreeformStringLen}")]

/-- The nonce that the state expects next; none after the last one. -/
def expectedNonce (state : ManagedWorldState) (agentId : AgentId) : Option (BitVec 128) :=
  let last := state.agentNonces[agentId]?.getD 0
  if last.toNat + 1 = 2 ^ 128 then none else some (last + 1)

def nonceOverflow (state : ManagedWorldState) (agentId : AgentId) : String :=
  s!"Nonce overflow: last nonce {(state.agentNonces[agentId]?.getD 0).toNat} has no valid successor"

/-! ## Full validation -/

def whErrors (tx : SymbolicTransition) : List String :=
  match checkTransitionWh tx with
  | .ok () => []
  | .error e => [s!"WHBinding: {e}"]

/-- Before the first norm every rule may be invoked. -/
def invokesActiveNorm (tx : SymbolicTransition) (state : ManagedWorldState) : Bool :=
  state.governanceState.activeNorms.isEmpty ||
    decide (tx.whBindingIntent.why.invokingRule ∈ state.governanceState.activeNorms)

/-- A transfer may debit the actor's account or the signer's. -/
def debitsOwnAccount (tx : SymbolicTransition) : Bool :=
  match tx.payload with
  | .assetTransfer source _ _ => source = tx.actor.agentId || source = tx.actor.publicKey
  | _ => true

/-- The source of a transfer, for the message. -/
def transferSource : OperationPayload → Bytes
  | .assetTransfer source _ _ => source.toList
  | _ => []

/-- Only writes are measured here. -/
def writeWithin (maxStateEntrySize : Nat) : OperationPayload → Bool
  | .write key value =>
      decide (key.length ≤ maxStateEntrySize) && decide (value.length ≤ maxStateEntrySize)
  | _ => true

def sourceRow (tx : SymbolicTransition) : Bool × String :=
  (!debitsOwnAccount tx,
    s!"AssetTransfer source {hexEncode (transferSource tx.payload)} is not authorized for actor {hexEncode tx.actor.agentId.toList} / signer {hexEncode tx.actor.publicKey.toList}")

def sizeRows (tx : SymbolicTransition) (state : ManagedWorldState) : List (Bool × String) :=
  let maxAddress := state.consensusParams.maxSymbolAddressLen.toNat
  [(maxAddress < tx.intent.target.length,
      s!"Target address {tx.intent.target.length} bytes exceeds max {maxAddress}"),
    sourceRow tx,
    (!writeWithin state.consensusParams.maxStateEntrySize.toNat tx.payload,
      "Payload key or value exceeds 1MB size limit")]

/-- The phases that look at single transitions, in order. -/
def phiErrors (tx : SymbolicTransition) (state : ManagedWorldState) : List String :=
  ((PhiPhase.all.filter isPerTxPhase).map fun phase => phiCheckSingleTx phase tx state).filterMap
    fun result => if result.passed then none
      else some s!"Phi {result.phase.display}: {result.details}"

theorem whErrors_eq_nil_iff {tx : SymbolicTransition} :
    whErrors tx = [] ↔ checkTransitionWh tx = .ok () := by
  unfold whErrors
  rcases checkTransitionWh tx with e | ⟨⟩ <;> simp

theorem phiErrors_eq_nil_iff {tx : SymbolicTransition} {state : ManagedWorldState} :
    phiErrors tx state = [] ↔
      ∀ phase, isPerTxPhase phase = true → (phiCheckSingleTx phase tx state).passed = true := by
  have hall : ∀ phase, phase ∈ PhiPhase.all := by
    intro phase
    cases phase <;> decide
  simp [phiErrors, List.filterMap_eq_nil_iff, hall]

section

variable [Crypto]

def signatureRow (tx : SymbolicTransition) : Bool × String :=
  (decide (64 ≤ tx.signature.length)
      && !verifyStrict tx.actor.publicKey (canonicalTxBytes tx) tx.signature,
    "Ed25519 signature verification failed")

def agentIdRow (tx : SymbolicTransition) : Bool × String :=
  (tx.actor.agentId ≠ expectedAgentId tx.actor.publicKey tx.actor.mfidelSeal,
    "agent_id does not match Hash(public_key ++ mfidel_seal)")

/-- Norm, signature, agent id and the zero nonce. -/
def identityRows (tx : SymbolicTransition) (state : ManagedWorldState) : List (Bool × String) :=
  [(!invokesActiveNorm tx state,
      s!"WHBinding 'why.invoking_rule' ({hexEncode tx.whBindingIntent.why.invokingRule.toList}) is not an active norm"),
    (tx.signature.length < 64,
      s!"Signature too short: {tx.signature.length} bytes, need >= 64"),
    signatureRow tx,
    agentIdRow tx,
    (tx.nonce = 0, "Nonce must be >= 1")]

/-- All errors are gathered; a nonce without a successor ends the list. -/
def validateTransition (tx : SymbolicTransition) (state : ManagedWorldState) :
    Except (List String) Unit :=
  let early := whErrors tx ++ allErrors (identityRows tx state)
  match expectedNonce state tx.actor.agentId with
  | none => .error (early ++ [nonceOverflow state tx.actor.agentId])
  | some expected =>
      let errors := early
        ++ allErrors ((decide (tx.nonce ≠ expected),
            s!"Nonce must be sequential: expected {expected.toNat}, got {tx.nonce.toNat}")
          :: sizeRows tx state)
        ++ phiErrors tx state
      if errors.isEmpty then .ok () else .error errors

/-- What a validated transition satisfies. -/
structure TransitionValid (tx : SymbolicTransition) (state : ManagedWorldState) : Prop where
  bound : checkTransitionWh tx = .ok ()
  norm : invokesActiveNorm tx state = true
  signed : verifyStrict tx.actor.publicKey (canonicalTxBytes tx) tx.signature = true
  agentId : tx.actor.agentId = expectedAgentId tx.actor.publicKey tx.actor.mfidelSeal
  nonce_ne_zero : tx.nonce ≠ 0
  nonce : expectedNonce state tx.actor.agentId = some tx.nonce
  target : tx.intent.target.length ≤ state.consensusParams.maxSymbolAddressLen.toNat
  source : debitsOwnAccount tx = true
  size : writeWithin state.consensusParams.maxStateEntrySize.toNat tx.payload = true
  phases : ∀ phase, isPerTxPhase phase = true → (phiCheckSingleTx phase tx state).passed = true

theorem identityRows_pass_iff {tx : SymbolicTransition} {state : ManagedWorldState} :
    allErrors (identityRows tx state) = [] ↔
      invokesActiveNorm tx state = true
        ∧ verifyStrict tx.actor.publicKey (canonicalTxBytes tx) tx.signature = true
        ∧ tx.actor.agentId = expectedAgentId tx.actor.publicKey tx.actor.mfidelSeal
        ∧ tx.nonce ≠ 0 := by
  rw [allErrors_eq_nil_iff]
  simp only [identityRows, signatureRow, agentIdRow, List.forall_mem_cons, List.not_mem_nil, false_implies, implies_true,
    and_true, decide_eq_false_iff_not, not_lt, Bool.and_eq_false_iff,
    Bool.not_eq_eq_eq_not, Bool.not_false, not_not, not_le, ne_eq]
  constructor
  · rintro ⟨hnorm, hlen, hsig, hid, hnonce⟩
    exact ⟨hnorm, hsig.resolve_left (by omega), hid, hnonce⟩
  · rintro ⟨hnorm, hsig, hid, hnonce⟩
    exact ⟨hnorm, (length_of_verifyStrict hsig).ge, Or.inr hsig, hid, hnonce⟩

/-- A transition passes exactly when it is valid. -/
theorem validateTransition_eq_ok_iff {tx : SymbolicTransition} {state : ManagedWorldState} :
    validateTransition tx state = .ok () ↔ TransitionValid tx state := by
  unfold validateTransition
  rcases hnonce : expectedNonce state tx.actor.agentId with _ | expected
  · refine ⟨fun h => ?_, fun h => ?_⟩
    · cases h
    · rw [h.nonce] at hnonce
      cases hnonce
  · have hsize : allErrors ((decide (tx.nonce ≠ expected),
          s!"Nonce must be sequential: expected {expected.toNat}, got {tx.nonce.toNat}")
          :: sizeRows tx state) = [] ↔
        tx.nonce = expected
          ∧ tx.intent.target.length ≤ state.consensusParams.maxSymbolAddressLen.toNat
          ∧ debitsOwnAccount tx = true
          ∧ writeWithin state.consensusParams.maxStateEntrySize.toNat tx.payload = true := by
      rw [allErrors_eq_nil_iff]
      simp [sizeRows, sourceRow]
    dsimp only
    rw [show (∀ l : List String, (if l.isEmpty then Except.ok () else .error l : Except _ Unit)
        = .ok () ↔ l = []) from fun l => by cases l <;> simp]
    rw [List.append_eq_nil_iff, List.append_eq_nil_iff, List.append_eq_nil_iff,
      whErrors_eq_nil_iff, identityRows_pass_iff, hsize, phiErrors_eq_nil_iff]
    constructor
    · rintro ⟨⟨⟨hwh, hnorm, hsig, hid, hzero⟩, hseq, htarget, hsource, hwrite⟩, hphi⟩
      exact ⟨hwh, hnorm, hsig, hid, hzero, hseq ▸ hnonce, htarget, hsource, hwrite, hphi⟩
    · intro h
      have hseq : tx.nonce = expected := Option.some_inj.mp (h.nonce.symm.trans hnonce)
      exact ⟨⟨⟨h.bound, h.norm, h.signed, h.agentId, h.nonce_ne_zero⟩, hseq, h.target, h.source,
        h.size⟩, h.phases⟩

end

/-! ## Gas -/

structure GasPricing where
  txBase : UInt64
  computeStep : UInt64
  stateRead : UInt64
  stateWrite : UInt64
  sigVerify : UInt64
  hashOp : UInt64
  proofByte : UInt64
  payloadByte : UInt64
  deriving DecidableEq

def GasPricing.ofParams (params : ConsensusParams) : GasPricing where
  txBase := params.gasTxBase
  computeStep := params.gasComputeStep
  stateRead := params.gasStateRead
  stateWrite := params.gasStateWrite
  sigVerify := params.gasSigVerify
  hashOp := params.gasHashOp
  proofByte := params.gasProofByte
  payloadByte := params.gasPayloadByte

structure GasBreakdown where
  compute : UInt64 := 0
  stateReads : UInt64 := 0
  stateWrites : UInt64 := 0
  sigVerify : UInt64 := 0
  hashing : UInt64 := 0
  proof : UInt64 := 0
  deriving DecidableEq

structure GasMeter where
  limit : UInt64
  pricing : GasPricing
  used : UInt64 := 0
  breakdown : GasBreakdown := {}
  deriving DecidableEq

namespace GasMeter

/-- A failed charge leaves its amount on the meter, so the meter is part of the
error. -/
def charge (self : GasMeter) (amount : UInt64) (operation : String) :
    Except (String × GasMeter) GasMeter :=
  let self := { self with used := saturatingAdd self.used amount }
  if self.limit < self.used then
    .error (s!"Out of gas during {operation}: used {self.used} / limit {self.limit}", self)
  else .ok self

def chargeCompute (self : GasMeter) (steps : UInt64) : Except (String × GasMeter) GasMeter :=
  let cost := saturatingMul steps self.pricing.computeStep
  { self with breakdown.compute := self.breakdown.compute + cost }.charge cost "compute"

def chargeSigVerify (self : GasMeter) : Except (String × GasMeter) GasMeter :=
  { self with breakdown.sigVerify := self.breakdown.sigVerify + self.pricing.sigVerify }.charge
    self.pricing.sigVerify "sig_verify"

def chargeHash (self : GasMeter) : Except (String × GasMeter) GasMeter :=
  { self with breakdown.hashing := self.breakdown.hashing + self.pricing.hashOp }.charge
    self.pricing.hashOp "hash"

def chargeTxBase (self : GasMeter) : Except (String × GasMeter) GasMeter :=
  self.charge self.pricing.txBase "tx_base"

def chargePayload (self : GasMeter) (bytes : UInt64) : Except (String × GasMeter) GasMeter :=
  self.charge (saturatingMul bytes self.pricing.payloadByte) "payload"

end GasMeter

structure BlockGasMeter where
  limit : UInt64
  used : UInt64 := 0
  txCount : UInt32 := 0
  deriving DecidableEq

namespace BlockGasMeter

def canFit (self : BlockGasMeter) (txGas : UInt64) : Bool :=
  saturatingAdd self.used txGas ≤ self.limit

def recordTx (self : BlockGasMeter) (txGas : UInt64) : BlockGasMeter :=
  { self with
    used := saturatingAdd self.used txGas
    txCount := if self.txCount = 0xFFFFFFFF then self.txCount else self.txCount + 1 }

end BlockGasMeter

/-! ## Receipts -/

/-- In the place of a root that is not known yet. -/
def unsealedRoot : Hash := Hash.ofByte 0xFF

def sealReceiptPostState (receipt : CausalReceipt) (postStateRoot : Hash) :
    Except String CausalReceipt :=
  if !receipt.verdict.isAccepted then .error "Cannot seal a rejected receipt"
  else if receipt.postStateRoot ≠ unsealedRoot then .error "Receipt already sealed"
  else .ok { receipt with postStateRoot }

def emptyWhResolved (tx : SymbolicTransition) : WHBindingResolved where
  intent := tx.whBindingIntent
  whatActual := default
  whether := .valid

def makeRejectReceipt (tx : SymbolicTransition) (stateRoot : Hash) (reason : String)
    (gas : GasMeter) : CausalReceipt where
  txId := tx.txId
  verdict := .reject reason
  preStateRoot := stateRoot
  postStateRoot := stateRoot
  readSet := []
  writeSet := []
  causes := []
  resourceUsed := ⟨gas.used, 0, 0, 0⟩
  emittedEvents := []
  whBinding := emptyWhResolved tx
  phiPhaseReached := 0
  tensionDelta := .zero

/-- A count of operations from their total cost, in 32 bits. -/
def operationCount (cost price : UInt64) : UInt32 :=
  UInt32.ofNat (min (cost.toNat / max price.toNat 1) (2 ^ 32 - 1))

section

variable [Crypto]

def extractWriteSet (tx : SymbolicTransition) : List ObjectId :=
  match tx.payload with
  | .write key _ => [blake3Hash key]
  | _ => []

/-- Charges before the verdict; validation itself costs its thirteen phases. -/
def meterTransition (tx : SymbolicTransition) (state : ManagedWorldState) (gasLimit : UInt64) :
    Except (String × GasMeter) GasMeter := do
  let gas : GasMeter := { limit := gasLimit, pricing := .ofParams state.consensusParams }
  let gas ← gas.chargeTxBase
  let gas ← gas.chargePayload
    (UInt64.ofNat (canonicalBytes OperationPayload.codec tx.payload).length)
  let gas ← gas.chargeSigVerify
  let gas ← gas.chargeHash
  gas.chargeCompute 13

def makeAcceptReceipt (tx : SymbolicTransition) (stateRoot : Hash) (gas : GasMeter) :
    CausalReceipt where
  txId := tx.txId
  verdict := .accept
  preStateRoot := stateRoot
  postStateRoot := unsealedRoot
  readSet := []
  writeSet := extractWriteSet tx
  causes := []
  resourceUsed :=
    { computeSteps := gas.used
      stateReads := operationCount gas.breakdown.stateReads gas.pricing.stateRead
      stateWrites := operationCount gas.breakdown.stateWrites gas.pricing.stateWrite
      proofSizeBytes := gas.breakdown.proof }
  emittedEvents := []
  whBinding := emptyWhResolved tx
  phiPhaseReached := 13
  tensionDelta := .zero

/-- A receipt for every transition, with the gas it used. -/
def validateTransitionMetered (tx : SymbolicTransition) (state : ManagedWorldState)
    (gasLimit : UInt64) : CausalReceipt × UInt64 :=
  let stateRootBefore := state.stateRoot
  match meterTransition tx state gasLimit with
  | .error (e, gas) => (makeRejectReceipt tx stateRootBefore e gas, gas.used)
  | .ok gas =>
      match validateTransition tx state with
      | .ok () => (makeAcceptReceipt tx stateRootBefore gas, gas.used)
      | .error errors =>
          (makeRejectReceipt tx stateRootBefore (String.intercalate "; " errors) gas, gas.used)

/-- An accepting receipt is of a transition that passed validation. -/
theorem transitionValid_of_accepted {tx : SymbolicTransition} {state : ManagedWorldState}
    {gasLimit : UInt64}
    (h : (validateTransitionMetered tx state gasLimit).1.verdict.isAccepted = true) :
    TransitionValid tx state := by
  unfold validateTransitionMetered at h
  rcases hm : meterTransition tx state gasLimit with ⟨e, gas⟩ | gas
  · rw [hm] at h
    cases h
  · rw [hm] at h
    rcases hv : validateTransition tx state with errors | ⟨⟩
    · rw [hv] at h
      cases h
    · exact validateTransition_eq_ok_iff.mp hv

end

end Sccgub
