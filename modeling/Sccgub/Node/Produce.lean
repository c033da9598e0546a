import Mathlib
import Sccgub.Node.Chain

/-!
# Block production

A producer drains the mempool, meters every transition against the balances as
they move through the block, applies the accepted ones to a clone of the state,
seals the receipts with the root of that clone, builds the block and puts it
through the gate.  Only a block that passes is committed.
-/

namespace Sccgub

open Bincode FixedWidth

/-! ## Rejections -/

/-- For a transition that is turned away before it is metered. -/
def makePrefilterRejectReceipt (tx : SymbolicTransition) (stateRoot : Hash) (reason : String) :
    CausalReceipt where
  txId := tx.txId
  verdict := .reject reason
  preStateRoot := stateRoot
  postStateRoot := stateRoot
  readSet := []
  writeSet := []
  causes := []
  resourceUsed := ⟨0, 0, 0, 0⟩
  emittedEvents := []
  whBinding :=
    { intent := tx.whBindingIntent
      whatActual := default
      whether := .invalid reason }
  phiPhaseReached := 0
  tensionDelta := .zero

def makeMeteredRejectReceipt (receipt : CausalReceipt) (reason : String) : CausalReceipt :=
  { receipt with
    verdict := .reject reason
    postStateRoot := receipt.preStateRoot
    writeSet := []
    emittedEvents := []
    whBinding := { receipt.whBinding with whatActual := default, whether := .invalid reason } }

/-! ## The gas loop -/

structure GasLoop where
  state : ManagedWorldState
  balances : BalanceLedger
  gas : BlockGasMeter
  accepted : List SymbolicTransition := []
  receipts : List CausalReceipt := []
  rejected : List CausalReceipt := []

namespace GasLoop

def reject (self : GasLoop) (receipt : CausalReceipt) : GasLoop :=
  { self with rejected := self.rejected ++ [receipt] }

end GasLoop

/-- The balances after the fee of a transition and its transfer, if it can pay
for both. -/
def payFor (blockVersion : UInt32) (balances : BalanceLedger) (tx : SymbolicTransition)
    (fee : TensionValue) : Except String BalanceLedger := do
  let payer ← (resolveFeePayer blockVersion balances tx fee).mapError
    ("Fee solvency check failed: " ++ ·)
  let charged ← if fee.raw.val > 0 then
      (balances.debit payer fee).mapError ("Fee debit failed: " ++ ·)
    else .ok balances
  match tx.payload with
  | .assetTransfer source target amount =>
      (charged.transfer source target ⟨amount⟩).mapError ("Transfer solvency check failed: " ++ ·)
  | _ => .ok charged

section

variable [Crypto]

/-- One transition.  Nothing is returned when the block is full.  A nonce that
drifted is noticed only after gas and balances have moved. -/
def meterOne (blockVersion : UInt32) (stateRoot : Hash) (gasPrice : TensionValue) (acc : GasLoop)
    (tx : SymbolicTransition) : Option GasLoop :=
  if tx.nonce = 0 ∨ expectedNonce acc.state tx.actor.agentId ≠ some tx.nonce then
    some (acc.reject (makePrefilterRejectReceipt tx stateRoot
      s!"Nonce sequence violation: got {tx.nonce.toNat} for agent {hexEncode tx.actor.agentId.toList}"))
  else
    let (receipt, gasUsed) := validateTransitionMetered tx acc.state
      acc.state.consensusParams.defaultTxGasLimit
    if !acc.gas.canFit gasUsed then none
    else if receipt.verdict.isAccepted then
      let fee : TensionValue := ⟨I128.saturate (gasUsed.toNat * gasPrice.raw.val)⟩
      match payFor blockVersion acc.balances tx fee with
      | .error e => some (acc.reject (makeMeteredRejectReceipt receipt e))
      | .ok balances =>
          let paid := { acc with gas := acc.gas.recordTx gasUsed, balances }
          match acc.state.checkNonce tx.actor.agentId tx.nonce with
          | .error e =>
              some (paid.reject (makePrefilterRejectReceipt tx stateRoot s!"Nonce drift: {e}"))
          | .ok state =>
              some { paid with
                state
                accepted := acc.accepted ++ [tx]
                receipts := acc.receipts ++ [receipt] }
    else some (acc.reject receipt)

def meterAll (blockVersion : UInt32) (stateRoot : Hash) (gasPrice : TensionValue) :
    GasLoop → List SymbolicTransition → GasLoop
  | acc, [] => acc
  | acc, tx :: rest =>
      match meterOne blockVersion stateRoot gasPrice acc tx with
      | some next => meterAll blockVersion stateRoot gasPrice next rest
      | none => acc

/-! ## Sealing -/

def withActual (receipt : CausalReceipt) (delta : StateDelta) : CausalReceipt :=
  { receipt with whBinding := { receipt.whBinding with whatActual := delta } }

/-- A receipt without a delta beside it stays as it is. -/
def attachDeltas : List CausalReceipt → List StateDelta → List CausalReceipt
  | receipt :: receipts, delta :: deltas => withActual receipt delta :: attachDeltas receipts deltas
  | receipts, _ => receipts

def sealReceipts (postRoot : Hash) (receipts : List CausalReceipt) :
    Except String (List CausalReceipt) :=
  receipts.mapM fun receipt => (sealReceiptPostState receipt postRoot).mapError
    fun e => s!"Invariant: failed to seal receipt {hexEncode receipt.txId.toList}: {e}"

namespace Chain

/-! ## Production -/

/-- The price a producer meters with: it goes by the header of the tip. -/
def producerGasPrice (self : Chain) : TensionValue :=
  self.economics.effectiveFee ((self.blocks.getLast?.map (·.header.tensionAfter)).getD .zero)
    self.state.tensionField.currentBudget

/-- The transitions that make it into the block, with their receipts, and the
mempool they leave. -/
def admission (self : Chain) : GasLoop × Mempool :=
  let (transitions, mempool) := self.mempool.drainValidated self.state
  (meterAll self.blockVersion self.state.stateRoot self.producerGasPrice
    { state := self.state
      balances := self.balances
      gas := { limit := self.state.consensusParams.defaultBlockGasLimit } } transitions, mempool)

/-- The clone with the accepted transitions applied.  Nonces that do not check
out are logged and left. -/
def speculate (self : Chain) (loop : GasLoop) (height : UInt64) : Except String AppliedBlock :=
  (applyBlock (orKeep self.state (self.state.validateNonces loop.accepted)) self.balances
    self.treasury loop.accepted loop.receipts self.blockVersion self.localValidatorId
    self.producerGasPrice height).mapError ("Economics invariant violation: " ++ ·)

/-- The block with sealed receipts. -/
def assemble (self : Chain) (parent : Block) (loop : GasLoop) (applied : AppliedBlock)
    (height wallHint : UInt64) : Except String Block := do
  let speculative := applied.state.setHeight height
  let deltas ← (combineReceiptDeltas applied.outcome.txDeltas applied.deltas).mapError
    ("Receipt delta merge failed: " ++ ·)
  let receipts ← sealReceipts speculative.stateRoot (attachDeltas loop.receipts deltas)
  return buildBlock
    { chainId := self.chainId
      height
      parentId := parent.header.blockId
      parentTimestamp := parent.header.timestamp
      validatorId := self.localValidatorId
      version := self.blockVersion
      validatorKey := self.validatorKey
      transitions := loop.accepted
      receipts
      state := speculative
      balanceRoot := applied.balances.balanceRoot
      governanceLimits := governanceLimitsSnapshotFrom self.governanceLimits
      finalityConfig := finalityConfigSnapshotFrom self.finalityConfig } wallHint

/-- Kinds whose actions count against concentration. -/
def isGovernanceAction : TransitionKind → Bool
  | .governanceUpdate | .normProposal | .constraintAddition => true
  | _ => false

/-- What a block that passed its own gate does to the chain. -/
def commitProduced (self : Chain) (block : Block) (applied : AppliedBlock)
    (rejected : List CausalReceipt) (height : UInt64) : Chain :=
  let confirmed := self.mempool.markConfirmed (block.body.transitions.map (·.txId))
  let economics := (self.economics.recordFee applied.outcome.totalFees).distributeReward
    applied.outcome.actualReward
  let chain : Chain := { self with
    mempool := { confirmed with containment := confirmed.containment.tickBlock }
    powerTracker := self.powerTracker.recordProposal self.localValidatorId
    state := applied.state.setHeight height
    balances := applied.balances
    treasury := applied.treasury
    economics
    blocks := self.blocks ++ [block] }
  let chain := chain.replayGovernanceTransitions block.body.transitions height
  let powerTracker := block.body.transitions.foldl (fun tracker tx =>
    if isGovernanceAction tx.intent.kind then tracker.recordAction tx.actor.agentId else tracker)
    chain.powerTracker
  { chain with
    powerTracker := if height % 100 = 0 then powerTracker.resetEpoch else powerTracker
    economics := if height % 100 = 0 then chain.economics.resetEpoch else chain.economics
    finality := advanceFinality chain.finality chain.state.governanceState.finalityMode
      chain.finalityConfig chain.blocks height
    slashing := chain.slashing.recordPresence self.localValidatorId
    latestRejectedReceipts := rejected }

/-- Everything after the block is known to be this node's to produce. -/
def produceOn (self : Chain) (parent : Block) (height wallHint : UInt64) :
    Except String Block × Chain :=
  let (loop, mempool) := self.admission
  let drained := { self with mempool }
  match self.speculate loop height with
  | .error e => (.error e, drained)
  | .ok applied =>
      let drained := drained.sharing applied.state.trie.durable
      match self.assemble parent loop applied height wallHint with
      | .error e => (.error e, drained)
      | .ok block =>
          let run := runCpog block drained.state parent.header.blockId
          let gated := drained.sharing run.durable
          match cpogResult run.result with
          | .error e => (.error e, gated)
          | .ok () =>
              let applied := { applied with state := applied.state.sharing run.durable }
              (.ok block, gated.commitProduced block applied loop.rejected height)

def produceBlock (self : Chain) (wallHint : UInt64) : Except String Block × Chain :=
  match self.blocks.getLast? with
  | none => (.error "No blocks in chain", self)
  | some parent =>
      let height := saturatingAdd parent.header.height 1
      if !self.isProposerForHeight height then
        (.error s!"Not proposer for height {height} (validator {hexEncode self.localValidatorId.toList})",
          self)
      else
        match self.powerTracker.checkProposal self.localValidatorId self.governanceLimits with
        | .error e => (.error ("Anti-concentration: " ++ e), self)
        | .ok () => self.produceOn parent height wallHint

/-- Production on a clone of the chain; what the clone did to the store stays. -/
def buildCandidateBlock (self : Chain) (wallHint : UInt64) : Except String Block × Chain :=
  let (result, scratch) := self.produceBlock wallHint
  (result, self.sharing scratch.state.trie.durable)

/-! ## Penalties -/

/-- The penalty is capped by what is there.  Ledger and treasury move; the trie
does not. -/
def executeSlashingPenalty (self : Chain) (validatorId : Hash) (penalty : TensionValue) :
    TensionValue × Chain :=
  let available := self.balances.balanceOf validatorId
  let actual := if available.raw < penalty.raw then available else penalty
  if actual.raw.val > 0 then
    match self.balances.debit validatorId actual with
    | .error _ => (.zero, self)
    | .ok balances =>
        let collected := self.treasury.collectFee actual
        (actual, { self with balances, treasury := orKeep collected (collected.burn actual) })
  else (actual, self)

end Chain

end

end Sccgub
