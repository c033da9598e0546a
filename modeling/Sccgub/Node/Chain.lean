import Mathlib
import Sccgub.Consensus.Protocol
import Sccgub.Consensus.Safety
import Sccgub.Execution.Cpog
import Sccgub.Node.Governance
import Sccgub.Node.Mempool

/-!
# The chain

Blocks with the state, the ledger and the treasury behind them, and what else a
node keeps: the mempool, governance, finality, slashing.  This module builds
blocks, checks candidates and imports them.

Keys are generated outside; a chain is given its key.  The wall clock is an
argument.  The event log, the responsibility of agents and the bridge to the
API are written and never read here, and are left out.

The trie of the state may be bound to a store, which validation writes to through
its clones.  What a function returns therefore comes with the chain as it is
afterwards, also when the function fails.
-/

namespace Sccgub

open Bincode FixedWidth

/-! ## Slashing -/

structure EquivocationProof where
  validatorId : Hash
  height : UInt64
  round : UInt32
  voteType : VoteType
  blockHashA : Hash
  blockHashB : Hash

inductive ViolationType where
  | doubleSigning
  | lawSetDivergence
  | absence (epochsMissed : UInt32)

inductive SlashingEvidence where
  | equivocation (proof : EquivocationProof)
  | lawDivergence (validatorLawHash consensusLawHash : Hash)
  | absenceRecord (absentEpochs : List UInt64)

structure SlashingEvent where
  validatorId : Hash
  violation : ViolationType
  penalty : TensionValue
  epoch : UInt64
  evidence : SlashingEvidence

structure SlashingConfig where
  doubleSignPenaltyPct : UInt32 := 32
  divergencePenaltyPct : UInt32 := 10
  absencePenaltyPctPerEpoch : UInt32 := 1
  maxAbsenceEpochs : UInt32 := 10

structure SlashingEngine where
  config : SlashingConfig := {}
  stakes : Std.ExtTreeMap Hash TensionValue := ∅
  events : List SlashingEvent := []
  removed : List Hash := []
  absenceCounter : Std.ExtTreeMap Hash UInt32 := ∅

namespace SlashingEngine

def setStake (self : SlashingEngine) (validator : Hash) (stake : TensionValue) : SlashingEngine :=
  { self with stakes := self.stakes.insert validator stake }

def recordPresence (self : SlashingEngine) (validator : Hash) : SlashingEngine :=
  { self with absenceCounter := self.absenceCounter.erase validator }

end SlashingEngine

/-! ## Limits in blocks -/

def governanceLimitsSnapshotFrom (limits : GovernanceLimits) : GovernanceLimitsSnapshot where
  maxActionsPerAgentPct := limits.maxActionsPerAgentPct
  safetyChangeMinSigners := limits.safetyChangeMinSigners
  genesisChangeMinSigners := limits.genesisChangeMinSigners
  maxConsecutiveProposals := limits.maxConsecutiveProposals
  maxAuthorityTermEpochs := limits.maxAuthorityTermEpochs
  authorityCooldownEpochs := limits.authorityCooldownEpochs

def finalityConfigSnapshotFrom (config : FinalityConfig) : FinalityConfigSnapshot where
  confirmationDepth := config.confirmationDepth
  maxFinalityMs := config.maxFinalityMs
  targetBlockTimeMs := config.targetBlockTimeMs

def governanceLimitsFromSnapshot (snapshot : GovernanceLimitsSnapshot) : GovernanceLimits where
  maxActionsPerAgentPct := snapshot.maxActionsPerAgentPct
  safetyChangeMinSigners := snapshot.safetyChangeMinSigners
  genesisChangeMinSigners := snapshot.genesisChangeMinSigners
  maxConsecutiveProposals := snapshot.maxConsecutiveProposals
  maxAuthorityTermEpochs := snapshot.maxAuthorityTermEpochs
  authorityCooldownEpochs := snapshot.authorityCooldownEpochs

def finalityConfigFromSnapshot (snapshot : FinalityConfigSnapshot) : FinalityConfig where
  confirmationDepth := snapshot.confirmationDepth
  maxFinalityMs := snapshot.maxFinalityMs
  targetBlockTimeMs := snapshot.targetBlockTimeMs

/-! ## Versions in the trie -/

structure ChainVersionTransition where
  activationHeight : UInt64
  fromVersion : UInt32
  toVersion : UInt32
  upgradeSpecHash : Hash
  proposalId : Hash
  deriving DecidableEq

namespace ChainVersionTransition

def trieKey : Bytes := utf8 "system/chain_version_history"

def codec : Codec ChainVersionTransition :=
  (Codec.u64.pair <| Codec.u32.pair <| Codec.u32.pair <| (Codec.bytes 32).pair
    (Codec.bytes 32)).iso
    (fun p => ⟨p.1, p.2.1, p.2.2.1, p.2.2.2.1, p.2.2.2.2⟩)
    (fun t => (t.activationHeight, t.fromVersion, t.toVersion, t.upgradeSpecHash, t.proposalId))
    (fun _ => rfl) (fun _ => rfl)

end ChainVersionTransition

/-- Nothing where there is no record or none that can be read. -/
def chainVersionHistoryFromTrie (state : ManagedWorldState) : List ChainVersionTransition :=
  match state.get ChainVersionTransition.trieKey with
  | some bytes => (ChainVersionTransition.codec.list.ofBytes bytes).getD []
  | none => []

/-- The version in force at a height with the height it came with. -/
def activeVersion (blockHeight : UInt64) (genesisChainVersion : UInt32)
    (transitions : List ChainVersionTransition) : UInt32 × UInt64 :=
  match (transitions.takeWhile fun t => t.activationHeight ≤ blockHeight).getLast? with
  | some t => (t.toVersion, t.activationHeight)
  | none => (genesisChainVersion, 0)

def verifyBlockVersionAlignment (blockHeight : UInt64) (blockVersion genesisChainVersion : UInt32)
    (transitions : List ChainVersionTransition) : Except String Unit :=
  let (active, activationHeight) := activeVersion blockHeight genesisChainVersion transitions
  if active = blockVersion then .ok ()
  else .error s!"block at height {blockHeight} declares version {blockVersion}, but active rule at this height is version {active} (transition at {activationHeight})"

/-! ## Building blocks -/

/-- A key pair, as what it signs with. -/
structure ValidatorKey where
  publicKey : Hash
  sign : Bytes → Bytes

section

variable [Crypto]

def blockSigningPayload (header : BlockHeader) (proof : CausalProof) : Bytes :=
  (blake3Hash ((BlockHeader.codec.pair CausalProof.codec).enc
    (header, { proof with validatorSignature := [] }))).toList

def verifyProducerSignature (block : Block) : Except String Unit :=
  let sig := block.proof.validatorSignature
  if sig.length < 64 then
    .error s!"producer signature missing or too short ({sig.length} bytes)"
  else if block.header.validatorId = zeroHash then .error "validator_id (public key) is zero"
  else if !verify block.header.validatorId (blockSigningPayload block.header block.proof) sig then
    .error "Ed25519 producer signature verification failed"
  else .ok ()

def initializeGenesisState (blockVersion : UInt32) (validatorPublicKey : Hash)
    (consensusParams : ConsensusParams) (finalityMode : FinalityMode) :
    ManagedWorldState × BalanceLedger :=
  let state := ManagedWorldState.withConsensusParams consensusParams
  let state := { state with governanceState := { (default : GovernanceState) with finalityMode } }
  let (state, balances) := applyGenesisMint (commitConsensusParams state) {}
    (validatorSpendAccount blockVersion validatorPublicKey)
  (state.setHeight 0, balances)

def buildGenesisBlock (chainId validatorId : Hash) (version : UInt32) (validatorKey : ValidatorKey)
    (stateRoot balanceRoot : Hash) (genesisConsensusParams : Option Bytes) : Block :=
  let governance : GovernanceSnapshot := ⟨zeroHash, 0, false, .deterministic, {}, {}⟩
  let blockId := canonicalHash (Codec.string.pair (Codec.bytes 32)) ("genesis", chainId)
  let header : BlockHeader :=
    { chainId
      blockId
      parentId := zeroHash
      height := 0
      timestamp := .genesis
      stateRoot
      transitionRoot := zeroHash
      receiptRoot := zeroHash
      causalRoot := zeroHash
      proofRoot := zeroHash
      governanceHash := canonicalHash GovernanceSnapshot.codec governance
      tensionBefore := .zero
      tensionAfter := .zero
      mfidelSeal := .fromHeight 0
      balanceRoot
      validatorId
      version
      roundHistoryRoot := zeroHash }
  let proof : CausalProof :=
    { blockHeight := 0
      transitionsProven := []
      phiTraversalLog := ⟨[], false, 13⟩
      governanceSnapshotHash := header.governanceHash
      tensionBefore := .zero
      tensionAfter := .zero
      constraintResults := []
      recursionDepth := 0
      validatorSignature := []
      causalHash := blake3Hash (utf8 "genesis-proof") }
  { header
    body :=
      { transitions := []
        transitionCount := 0
        totalTensionDelta := .zero
        constraintSatisfaction := []
        genesisConsensusParams
        validatorSetChanges := none
        equivocationEvidence := none }
    receipts := []
    causalDelta := ⟨[], [], zeroHash⟩
    proof := { proof with
      validatorSignature := validatorKey.sign (blockSigningPayload header proof) }
    governance }

/-- The edges of one transition: into the block, to its actor, to its causes. -/
def causalEdgesOf (blockVertex : CausalVertex) (tx : SymbolicTransition) : List CausalEdge :=
  let txVertex : CausalVertex := ⟨.transition, tx.txId⟩
  .plain .containedBy txVertex blockVertex :: .plain .authorizedBy txVertex ⟨.actor, tx.actor.agentId⟩
    :: tx.causalChain.map fun ancestorId => .plain .causedBy txVertex ⟨.transition, ancestorId⟩

structure BlockBuildParams where
  chainId : Hash
  height : UInt64
  parentId : Hash
  parentTimestamp : CausalTimestamp
  validatorId : Hash
  version : UInt32
  validatorKey : ValidatorKey
  transitions : List SymbolicTransition
  receipts : List CausalReceipt
  state : ManagedWorldState
  balanceRoot : Hash
  governanceLimits : GovernanceLimitsSnapshot
  finalityConfig : FinalityConfigSnapshot

/-- What a block says about the state it was built on. -/
def governanceSnapshotOf (params : BlockBuildParams) : GovernanceSnapshot :=
  let g := params.state.governanceState
  { stateHash := blake3Hash g.canonicalBytes
    activeNormCount := clampU32 g.activeNorms.size
    emergencyMode := g.emergencyMode
    finalityMode := g.finalityMode
    governanceLimits := params.governanceLimits
    finalityConfig := params.finalityConfig }

def causalDeltaOf (params : BlockBuildParams) : CausalGraphDelta :=
  let blockVertex : CausalVertex :=
    ⟨.block, canonicalHash ((Codec.bytes 32).pair Codec.u64) (params.chainId, params.height)⟩
  let newEdges := params.transitions.flatMap (causalEdgesOf blockVertex)
  { newVertices := blockVertex :: params.transitions.map fun tx => ⟨.transition, tx.txId⟩
    newEdges
    causalRoot := if newEdges.isEmpty then zeroHash
      else merkleRootOfBytes (newEdges.map (canonicalBytes CausalEdge.codec)) }

/-- The header without its id, which is the hash of the rest. -/
def headerOf (params : BlockBuildParams) (wallHint : UInt64) : BlockHeader where
  chainId := params.chainId
  blockId := zeroHash
  parentId := params.parentId
  height := params.height
  timestamp := params.parentTimestamp.successor params.validatorId
    (canonicalHash CausalTimestamp.codec params.parentTimestamp) wallHint
  stateRoot := params.state.stateRoot
  transitionRoot := merkleRootOfBytes (params.transitions.map (·.txId.toList))
  receiptRoot := merkleRootOfBytes (params.receipts.map (canonicalBytes CausalReceipt.codec))
  causalRoot := (causalDeltaOf params).causalRoot
  proofRoot := zeroHash
  governanceHash := canonicalHash GovernanceSnapshot.codec (governanceSnapshotOf params)
  tensionBefore := params.state.tensionField.total
  tensionAfter := params.state.tensionField.total
  mfidelSeal := .fromHeight params.height
  balanceRoot := params.balanceRoot
  validatorId := params.validatorId
  version := params.version
  roundHistoryRoot := zeroHash

def buildBlock (params : BlockBuildParams) (wallHint : UInt64) : Block :=
  let unnamed := headerOf params wallHint
  let header := { unnamed with blockId := canonicalHash BlockHeader.codec unnamed }
  let proof : CausalProof :=
    { blockHeight := params.height
      transitionsProven := []
      phiTraversalLog := ⟨[], false, 13⟩
      governanceSnapshotHash := header.governanceHash
      tensionBefore := header.tensionBefore
      tensionAfter := header.tensionAfter
      constraintResults := []
      recursionDepth := 0
      validatorSignature := []
      causalHash := blake3HashConcat [params.parentId.toList, header.transitionRoot.toList] }
  { header
    body :=
      { transitions := params.transitions
        transitionCount := clampU32 params.transitions.length
        totalTensionDelta := .zero
        constraintSatisfaction := []
        genesisConsensusParams := none
        validatorSetChanges := none
        equivocationEvidence := none }
    receipts := params.receipts
    causalDelta := causalDeltaOf params
    proof := { proof with
      validatorSignature := params.validatorKey.sign (blockSigningPayload header proof) }
    governance := governanceSnapshotOf params }

end

/-! ## Chains -/

/-- The price that everything but production goes by. -/
def standardGasPrice (state : ManagedWorldState) : TensionValue :=
  EconomicState.effectiveFee {} state.tensionField.total state.tensionField.currentBudget

structure Chain where
  blocks : List Block
  blockVersion : UInt32
  state : ManagedWorldState
  mempool : Mempool := { maxSize := 10000 }
  chainId : Hash
  validatorKey : ValidatorKey
  economics : EconomicState := {}
  balances : BalanceLedger
  treasury : Treasury := {}
  governanceLimits : GovernanceLimits := {}
  powerTracker : GovernancePowerTracker := {}
  proposals : ProposalRegistry := {}
  finality : FinalityTracker := {}
  finalityConfig : FinalityConfig := {}
  slashing : SlashingEngine := {}
  equivocationRecords : List (EquivocationProof × UInt64) := []
  safetyCertificates : List Safety.SafetyCertificate := []
  validatorSet : List ValidatorAuthority := []
  latestRejectedReceipts : List CausalReceipt := []

namespace Chain

/-- The store changed under the state. -/
def sharing (self : Chain) (durable : Option Entries) : Chain :=
  { self with state := self.state.sharing durable }

def isDeterministic : FinalityMode → Bool
  | .deterministic => true
  | .bftCertified _ => false

def blockIdAt (blocks : List Block) (height : UInt64) : Option Hash :=
  (blocks[height.toNat]?).map (·.header.blockId)

def height (self : Chain) : UInt64 := (self.blocks.getLast?.map (·.header.height)).getD 0

def localValidatorId (self : Chain) : Hash := self.validatorKey.publicKey

def isProposerForHeight (self : Chain) (height : UInt64) : Bool :=
  if self.validatorSet.isEmpty then true
  else
    match roundRobinProposer self.validatorSet height with
    | some authority => authority.nodeId = self.localValidatorId
    | none => false

def setValidatorSet (self : Chain) (validators : List ValidatorAuthority) : Chain :=
  { self with validatorSet := sortByHash ValidatorAuthority.nodeId validators }

def submitTransition (self : Chain) (tx : SymbolicTransition) : Except String Chain :=
  (self.mempool.add tx).map fun mempool => { self with mempool }

section

variable [Crypto]

/-- A chain of one block; the version is one of the supported ones. -/
def init (blockVersion : UInt32) (finalityMode : FinalityMode) (validatorKey : ValidatorKey) :
    Chain :=
  let validatorId := validatorKey.publicKey
  let chainId := blake3Hash (utf8 "sccgub-genesis-chain")
  let params : ConsensusParams := {}
  let (state, balances) := initializeGenesisState blockVersion validatorId params finalityMode
  { blocks := [buildGenesisBlock chainId validatorId blockVersion validatorKey state.stateRoot
      balances.balanceRoot (some params.toCanonicalBytes)]
    blockVersion
    state
    chainId
    validatorKey
    balances
    slashing := SlashingEngine.setStake {} validatorId (.fromInteger 100000) }

/-! ### Candidates -/

/-- Who may have produced the block: with a round, the proposer of that round. -/
def checkProposer (self : Chain) (block : Block) (consensusRound : Option UInt32) :
    Except String Unit :=
  if self.validatorSet.isEmpty then .ok ()
  else
    match consensusRound with
    | some round =>
        match roundRobinProposer self.validatorSet
            (saturatingAdd block.header.height (UInt64.ofNat round.toNat)) with
        | none => .error "No active proposer for height"
        | some expected =>
            if expected.nodeId ≠ block.header.validatorId then
              .error s!"Proposer mismatch: expected {hexEncode expected.nodeId.toList}, got {hexEncode block.header.validatorId.toList}"
            else .ok ()
    | none =>
        if !self.validatorSet.any fun authority => authority.nodeId = block.header.validatorId then
          .error s!"Block proposer not in authorized set: {hexEncode block.header.validatorId.toList}"
        else .ok ()

def checkVersion (self : Chain) (block : Block) : Except String Unit :=
  let transitions := chainVersionHistoryFromTrie self.state
  if !transitions.isEmpty then
    (verifyBlockVersionAlignment block.header.height block.header.version self.blockVersion
      transitions).mapError ("Block version out of alignment: " ++ ·)
  else if block.header.version ≠ self.blockVersion then .error "Block version mismatch"
  else .ok ()

/-- Everything about a candidate that comes before the gate. -/
def checkCandidate (self : Chain) (parent block : Block) (consensusRound : Option UInt32) :
    Except String Unit := do
  let expectedHeight := saturatingAdd parent.header.height 1
  if block.header.height ≠ expectedHeight then
    throw s!"Block height mismatch: expected {expectedHeight}, got {block.header.height}"
  if block.header.parentId ≠ parent.header.blockId then throw "Parent hash mismatch"
  if block.header.chainId ≠ self.chainId then throw "Chain ID mismatch"
  self.checkVersion block
  self.checkProposer block consensusRound
  verifyProducerSignature block

def cpogResult (result : CpogResult) : Except String Unit :=
  match result with
  | .valid => .ok ()
  | .invalid errors => .error ("CPoG validation failed: " ++ String.intercalate "; " errors)

/-- The verdict on a candidate, and the chain with what the validation left in
the store. -/
def validateCandidateBlockForRound (self : Chain) (block : Block)
    (consensusRound : Option UInt32) : Except String Unit × Chain :=
  match self.blocks.getLast? with
  | none => (.error "No blocks in chain", self)
  | some parent =>
      match self.checkCandidate parent block consensusRound with
      | .error e => (.error e, self)
      | .ok () =>
          let run := runCpog block self.state parent.header.blockId
          (cpogResult run.result, self.sharing run.durable)

def validateCandidateBlock (self : Chain) (block : Block) : Except String Unit × Chain :=
  self.validateCandidateBlockForRound block none

/-! ### Governance -/

def ceilingsOf (state : ManagedWorldState) : Option ConstitutionalCeilings :=
  match constitutionalCeilingsFromTrie state with
  | .ok ceilings => ceilings
  | .error _ => none

def governanceContext (self : Chain) : GovernanceContext where
  proposals := self.proposals
  governanceState := self.state.governanceState
  governanceLimits := self.governanceLimits
  finalityConfig := self.finalityConfig
  validatorSet := self.validatorSet
  consensusParams := self.state.consensusParams

/-- The state after governance: changed parameters go to the trie. -/
def governedState (state : ManagedWorldState) (ctx : GovernanceContext) : ManagedWorldState :=
  let state := { state with
    governanceState := ctx.governanceState, consensusParams := ctx.consensusParams }
  if ctx.mutatedParams then commitConsensusParams state else state

def replayGovernanceTransitions (self : Chain) (transitions : List SymbolicTransition)
    (height : UInt64) : Chain :=
  let ctx := replayGovernanceFromTransitions applyValidatorChange (ceilingsOf self.state)
    transitions height self.governanceContext
  { self with
    state := governedState self.state ctx
    proposals := ctx.proposals
    governanceLimits := ctx.governanceLimits
    finalityConfig := ctx.finalityConfig
    validatorSet := ctx.validatorSet }

/-! ### Import -/

/-- The sample for the fee oracle; a buffer that cannot be read is left. -/
def recordTension (version : UInt32) (tensionAfter : TensionValue) (state : ManagedWorldState) :
    ManagedWorldState :=
  if version ≥ patch05BlockVersion then
    orKeep state ((appendAndTrim state tensionAfter).map Prod.fst)
  else state

/-- The tip moves; without a quorum to wait for, finality follows by depth. -/
def advanceFinality (finality : FinalityTracker) (mode : FinalityMode) (config : FinalityConfig)
    (blocks : List Block) (height : UInt64) : FinalityTracker :=
  let finality := finality.onNewBlock height
  if isDeterministic mode then finality.checkFinality config (blockIdAt blocks) else finality

/-- What an accepted block does to the chain. -/
def commitImported (self : Chain) (block : Block) (applied : AppliedBlock) : Chain :=
  let height := block.header.height
  let state := (recordTension block.header.version block.header.tensionAfter applied.state).setHeight
    height
  let powerTracker := self.powerTracker.recordProposal block.header.validatorId
  let chain : Chain := { self with
    state
    balances := applied.balances
    treasury := applied.treasury
    mempool := self.mempool.markConfirmed (block.body.transitions.map (·.txId))
    powerTracker := if height % 100 = 0 then powerTracker.resetEpoch else powerTracker
    economics := if height % 100 = 0 then self.economics.resetEpoch else self.economics
    finality := advanceFinality self.finality state.governanceState.finalityMode
      self.finalityConfig self.blocks height
    slashing := self.slashing.recordPresence block.header.validatorId }
  let chain := chain.replayGovernanceTransitions block.body.transitions height
  { chain with blocks := chain.blocks ++ [block] }

/-- A block that was found valid may still fail on its nonces or its fees; in the
second case the nonces have moved, and the fees before the failing one are
charged. -/
def importBlock (self : Chain) (block : Block) : Except String Unit × Chain :=
  match self.validateCandidateBlock block with
  | (.error e, chain) => (.error e, chain)
  | (.ok (), chain) =>
      match chain.state.validateNonces block.body.transitions with
      | .error e => (.error ("Nonce violation: " ++ e), chain)
      | .ok state =>
          let gasPrice := chain.economics.effectiveFee state.tensionField.total
            state.tensionField.currentBudget
          match applyBlock state chain.balances chain.treasury block.body.transitions block.receipts
              chain.blockVersion block.header.validatorId gasPrice block.header.height with
          | .error e =>
              let charged := chargedBeforeError chain.balances chain.treasury
                block.body.transitions block.receipts chain.blockVersion gasPrice
              (.error ("Economics replay failed: " ++ e),
                { chain with state, balances := charged.balances, treasury := charged.treasury })
          | .ok applied => (.ok (), chain.commitImported block applied)

end

end Chain

end Sccgub
