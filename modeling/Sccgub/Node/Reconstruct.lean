import Mathlib
import Sccgub.Node.Chain

/-!
# Reconstruction

A chain from its blocks, validated one by one from genesis, and from a snapshot
with the blocks behind it.
-/

namespace Sccgub

open Bincode FixedWidth Fallible

inductive ImportError where
  | empty
  | firstBlockNotGenesis
  | missingGenesisConsensusParams
  | genesisConsensusParams (reason : String)
  | genesisStateMismatch (detail : String)
  | genesisSignature (reason : String)
  | producerSignature (height : UInt64) (reason : String)
  | chainIdMismatch (height : UInt64)
  | versionMismatch (height : UInt64) (expected found : UInt32)
  | cpog (height : UInt64) (errors : List String)
  | economicsViolation (height : UInt64) (detail : String)
  | nonceViolation (height : UInt64) (detail : String)
  | snapshotMismatch (height : UInt64) (detail : String)
  | postSnapshotReplay (height : UInt64) (detail : String)
  deriving DecidableEq

/-! ## From blocks -/

def loadGenesisConsensusParams (genesis : Block) : Except ImportError ConsensusParams :=
  match genesis.body.genesisConsensusParams with
  | some bytes => (ConsensusParams.fromCanonicalBytes bytes).mapError .genesisConsensusParams
  | none => .ok {}

/-- What is carried from block to block. -/
structure Replayed where
  state : ManagedWorldState
  balances : BalanceLedger
  treasury : Treasury := {}
  governanceLimits : GovernanceLimits := {}
  finalityConfig : FinalityConfig := {}
  proposals : ProposalRegistry := {}

/-- There is no validator set to change. -/
def keepValidators : ValidatorChange := fun validatorSet _ _ => .ok validatorSet

section

variable [Crypto]

/-- The roots of the genesis block against the state it stands for. -/
def checkGenesisRoots (genesis : Block) (state : ManagedWorldState) (balances : BalanceLedger) :
    Except ImportError Unit :=
  match genesis.body.genesisConsensusParams with
  | some _ =>
      if genesis.header.stateRoot ≠ state.stateRoot then
        .error (.genesisStateMismatch s!"header={hexEncode genesis.header.stateRoot.toList}, reconstructed={hexEncode state.stateRoot.toList}")
      else if genesis.header.balanceRoot ≠ balances.balanceRoot then
        .error (.genesisStateMismatch s!"balance header={hexEncode genesis.header.balanceRoot.toList}, reconstructed={hexEncode balances.balanceRoot.toList}")
      else .ok ()
  | none =>
      if genesis.header.stateRoot ≠ zeroHash ∨ genesis.header.balanceRoot ≠ zeroHash then
        .error .missingGenesisConsensusParams
      else .ok ()

def checkCpog (block : Block) (state : ManagedWorldState) (parentId : Hash) :
    Except ImportError Unit :=
  match validateCpog block state parentId with
  | .valid => .ok ()
  | .invalid errors => .error (.cpog block.header.height errors)

/-- The state that the first block stands for. -/
def replayGenesis (genesis : Block) : Except ImportError Replayed := do
  if genesis.header.height ≠ 0 then throw .firstBlockNotGenesis
  (verifyProducerSignature genesis).mapError .genesisSignature
  let params ← loadGenesisConsensusParams genesis
  checkCpog genesis (ManagedWorldState.withConsensusParams params) zeroHash
  let (state, balances) := initializeGenesisState genesis.header.version genesis.header.validatorId
    params .deterministic
  checkGenesisRoots genesis state balances
  return { state := state.setHeight 0, balances }

/-- Governance of a block on what is carried along. -/
def Replayed.governed (self : Replayed) (transitions : List SymbolicTransition)
    (height : UInt64) : Replayed :=
  let ctx := replayGovernanceFromTransitions keepValidators (Chain.ceilingsOf self.state)
    transitions height
    { proposals := self.proposals
      governanceState := self.state.governanceState
      governanceLimits := self.governanceLimits
      finalityConfig := self.finalityConfig
      validatorSet := []
      consensusParams := self.state.consensusParams }
  { self with
    state := Chain.governedState self.state ctx
    proposals := ctx.proposals
    governanceLimits := ctx.governanceLimits
    finalityConfig := ctx.finalityConfig }

/-- One more block. -/
def replayNext (chainId : Hash) (blockVersion : UInt32) (parentId : Hash) (acc : Replayed)
    (block : Block) : Except ImportError Replayed := do
  let height := block.header.height
  (verifyProducerSignature block).mapError (.producerSignature height)
  if block.header.chainId ≠ chainId then throw (.chainIdMismatch height)
  if block.header.version ≠ blockVersion then
    throw (.versionMismatch height blockVersion block.header.version)
  checkCpog block acc.state parentId
  let state ← (acc.state.validateNonces block.body.transitions).mapError (.nonceViolation height)
  let gasPrice := EconomicState.effectiveFee {} state.tensionField.total
    state.tensionField.currentBudget
  let applied ← (applyBlock state acc.balances acc.treasury block.body.transitions block.receipts
    blockVersion block.header.validatorId gasPrice height).mapError
      fun e => .economicsViolation height ("Economics replay failed: " ++ e)
  return Replayed.governed { acc with
    state := applied.state.setHeight height
    balances := applied.balances
    treasury := applied.treasury } block.body.transitions height

/-- Each block stands on the one before it in the list. -/
def replayAll (chainId : Hash) (blockVersion : UInt32) : Hash → Replayed → List Block →
    Except ImportError Replayed
  | _, acc, [] => .ok acc
  | parentId, acc, block :: rest => do
      let next ← replayNext chainId blockVersion parentId acc block
      replayAll chainId blockVersion block.header.blockId next rest

/-! ### What reconstruction asks of a block -/

theorem checkCpog_eq_ok_iff {block : Block} {state : ManagedWorldState} {parentId : Hash} :
    checkCpog block state parentId = .ok () ↔ validateCpog block state parentId = .valid := by
  unfold checkCpog
  rcases validateCpog block state parentId with _ | errors <;> simp

/-- The checks on the first block, and what it leaves. -/
theorem replayGenesis_eq_ok_iff {genesis : Block} {start : Replayed} :
    replayGenesis genesis = .ok start ↔
      genesis.header.height = 0 ∧ verifyProducerSignature genesis = .ok ()
        ∧ ∃ params, loadGenesisConsensusParams genesis = .ok params
          ∧ validateCpog genesis (ManagedWorldState.withConsensusParams params) zeroHash = .valid
          ∧ ∃ state balances, initializeGenesisState genesis.header.version
                genesis.header.validatorId params .deterministic = (state, balances)
              ∧ checkGenesisRoots genesis state balances = .ok ()
              ∧ start = { state := state.setHeight 0, balances } := by
  unfold replayGenesis
  simp only [bind_eq_ok_iff, guard_eq_ok_iff, mapError_eq_ok_iff, pure_eq_ok_iff, not_not]
  constructor
  · rintro ⟨hheight, ⟨⟩, hsig, params, hparams, ⟨⟩, hcpog, ⟨⟩, hroots, hstart⟩
    exact ⟨hheight, hsig, params, hparams, checkCpog_eq_ok_iff.mp hcpog, _, _, rfl, hroots, hstart⟩
  · rintro ⟨hheight, hsig, params, hparams, hcpog, state, balances, hinit, hroots, hstart⟩
    refine ⟨hheight, (), hsig, params, hparams, (), checkCpog_eq_ok_iff.mpr hcpog, (), ?_⟩
    rw [hinit]
    exact ⟨hroots, hstart⟩

/-- The checks on a later block, and what it leaves. -/
theorem replayNext_eq_ok_iff {chainId : Hash} {blockVersion : UInt32} {parentId : Hash}
    {acc next : Replayed} {block : Block} :
    replayNext chainId blockVersion parentId acc block = .ok next ↔
      verifyProducerSignature block = .ok () ∧ block.header.chainId = chainId
        ∧ block.header.version = blockVersion ∧ validateCpog block acc.state parentId = .valid
        ∧ ∃ state applied, acc.state.validateNonces block.body.transitions = .ok state
          ∧ applyBlock state acc.balances acc.treasury block.body.transitions block.receipts
              blockVersion block.header.validatorId (standardGasPrice state) block.header.height
            = .ok applied
          ∧ next = Replayed.governed { acc with
              state := applied.state.setHeight block.header.height
              balances := applied.balances
              treasury := applied.treasury } block.body.transitions block.header.height := by
  unfold replayNext standardGasPrice
  simp only [bind_eq_ok_iff, guard_eq_ok_iff, mapError_eq_ok_iff, pure_eq_ok_iff, not_not]
  constructor
  · rintro ⟨⟨⟩, hsig, hchain, hversion, ⟨⟩, hcpog, state, hnonces, applied, happly, hnext⟩
    exact ⟨hsig, hchain, hversion, checkCpog_eq_ok_iff.mp hcpog, state, applied, hnonces, happly,
      hnext⟩
  · rintro ⟨hsig, hchain, hversion, hcpog, state, applied, hnonces, happly, hnext⟩
    exact ⟨(), hsig, hchain, hversion, (), checkCpog_eq_ok_iff.mpr hcpog, state, hnonces, applied,
      happly, hnext⟩

theorem replayAll_cons_eq_ok_iff {chainId : Hash} {blockVersion : UInt32} {parentId : Hash}
    {acc replayed : Replayed} {block : Block} {rest : List Block} :
    replayAll chainId blockVersion parentId acc (block :: rest) = .ok replayed ↔
      ∃ next, replayNext chainId blockVersion parentId acc block = .ok next
        ∧ replayAll chainId blockVersion block.header.blockId next rest = .ok replayed :=
  bind_eq_ok_iff

namespace Chain

/-- The limits and the finality settings are taken from the last block. -/
def ofReplayed (validatorKey : ValidatorKey) (genesis last : Block) (blocks : List Block)
    (replayed : Replayed) : Chain :=
  let finalityConfig := finalityConfigFromSnapshot last.governance.finalityConfig
  { blocks
    blockVersion := genesis.header.version
    state := replayed.state
    chainId := genesis.header.chainId
    validatorKey
    balances := replayed.balances
    treasury := replayed.treasury
    governanceLimits := governanceLimitsFromSnapshot last.governance.governanceLimits
    proposals := replayed.proposals
    finality := advanceFinality {} replayed.state.governanceState.finalityMode finalityConfig blocks
      last.header.height
    finalityConfig }

def fromBlocks (validatorKey : ValidatorKey) : List Block → Except ImportError Chain
  | [] => .error .empty
  | genesis :: rest => do
      let start ← replayGenesis genesis
      let replayed ← replayAll genesis.header.chainId genesis.header.version genesis.header.blockId
        start rest
      return ofReplayed validatorKey genesis (rest.getLast?.getD genesis) (genesis :: rest) replayed

theorem fromBlocks_cons_eq_ok_iff {validatorKey : ValidatorKey} {genesis : Block}
    {rest : List Block} {chain : Chain} :
    fromBlocks validatorKey (genesis :: rest) = .ok chain ↔
      ∃ start replayed, replayGenesis genesis = .ok start
        ∧ replayAll genesis.header.chainId genesis.header.version genesis.header.blockId start rest
          = .ok replayed
        ∧ chain = ofReplayed validatorKey genesis (rest.getLast?.getD genesis) (genesis :: rest)
          replayed := by
  unfold fromBlocks
  simp only [bind_eq_ok_iff, pure_eq_ok_iff]
  constructor
  · rintro ⟨start, hstart, replayed, hreplayed, hchain⟩
    exact ⟨start, replayed, hstart, hreplayed, hchain⟩
  · rintro ⟨start, replayed, hstart, hreplayed, hchain⟩
    exact ⟨start, hstart, replayed, hreplayed, hchain⟩

end Chain

end

/-! ## Snapshots -/

structure StateSnapshot where
  height : UInt64
  stateRoot : MerkleRoot
  trieEntries : List (Bytes × Bytes)
  agentNonces : List (Hash × BitVec 128)
  balances : List (Hash × I128)
  treasuryPendingRaw : I128
  treasuryCollectedRaw : I128
  treasuryDistributedRaw : I128
  treasuryBurnedRaw : I128
  treasuryEpoch : UInt64
  finalizedHeight : UInt64
  slashingEvents : List SlashingEvent
  slashingStakes : List (Hash × I128)
  slashingRemoved : List Hash
  slashingAbsence : List (Hash × UInt32)
  equivocationRecords : List (EquivocationProof × UInt64)
  safetyCertificates : List Safety.SafetyCertificate
  validatorSet : List ValidatorAuthority
  governanceLimits : GovernanceLimits
  finalityConfig : FinalityConfig
  finalityMode : FinalityMode
  proposals : List GovernanceProposal

/-- For a trie without treasury entries that can be read. -/
def StateSnapshot.treasury (self : StateSnapshot) : Treasury where
  pendingFees := ⟨self.treasuryPendingRaw⟩
  totalFeesCollected := ⟨self.treasuryCollectedRaw⟩
  totalRewardsDistributed := ⟨self.treasuryDistributedRaw⟩
  totalBurned := ⟨self.treasuryBurnedRaw⟩
  epoch := self.treasuryEpoch

def StateSnapshot.ledger (self : StateSnapshot) : BalanceLedger :=
  self.balances.foldl (fun ledger (agentId, raw) => ledger.importBalance agentId ⟨raw⟩) {}

def StateSnapshot.slashing (self : StateSnapshot) : SlashingEngine :=
  let engine := self.slashingStakes.foldl (fun engine (validator, raw) =>
    engine.setStake validator ⟨raw⟩) ({} : SlashingEngine)
  { engine with
    events := self.slashingEvents
    removed := self.slashingRemoved
    absenceCounter := Std.ExtTreeMap.ofList self.slashingAbsence }

section

variable [Crypto]

namespace Chain

def createSnapshot (self : Chain) : StateSnapshot where
  height := self.state.height
  stateRoot := self.state.stateRoot
  trieEntries := self.state.trie.store.toList
  agentNonces := self.state.agentNonces.toList
  balances := self.balances.balances.toList.map fun (agentId, balance) => (agentId, balance.raw)
  treasuryPendingRaw := self.treasury.pendingFees.raw
  treasuryCollectedRaw := self.treasury.totalFeesCollected.raw
  treasuryDistributedRaw := self.treasury.totalRewardsDistributed.raw
  treasuryBurnedRaw := self.treasury.totalBurned.raw
  treasuryEpoch := self.treasury.epoch
  finalizedHeight := self.finality.finalizedHeight
  slashingEvents := self.slashing.events
  slashingStakes := self.slashing.stakes.toList.map fun (validator, stake) => (validator, stake.raw)
  slashingRemoved := self.slashing.removed
  slashingAbsence := self.slashing.absenceCounter.toList
  equivocationRecords := self.equivocationRecords
  safetyCertificates := self.safetyCertificates
  validatorSet := self.validatorSet
  governanceLimits := self.governanceLimits
  finalityConfig := self.finalityConfig
  finalityMode := self.state.governanceState.finalityMode
  proposals := self.proposals.proposals

/-- The trie rebuilt from its entries, with its root taken. -/
def restoredTrie (snapshot : StateSnapshot) : StateTrie :=
  (StateTrie.new.insertAll snapshot.trieEntries).root.2

/-- The state behind a trie that was found to match. -/
def restoredState (snapshot : StateSnapshot) : ManagedWorldState :=
  let state : ManagedWorldState :=
    { trie := restoredTrie snapshot
      governanceState := { (default : GovernanceState) with finalityMode := snapshot.finalityMode } }
  let consensusParams :=
    match consensusParamsFromTrie state with
    | .ok (some params) => params
    | _ => {}
  { state with
    consensusParams
    agentNonces := Std.ExtTreeMap.ofList snapshot.agentNonces
    height := snapshot.height }

/-- A root that does not match leaves a state that no caller goes on with. -/
def restoreFromSnapshot (self : Chain) (snapshot : StateSnapshot) : Except String Chain :=
  let computed := (StateTrie.new.insertAll snapshot.trieEntries).rootReadonly
  if computed ≠ snapshot.stateRoot then
    .error s!"Snapshot trie root mismatch: recomputed {hexEncode computed.toList} vs snapshot-reported {hexEncode snapshot.stateRoot.toList}"
  else
    let state := restoredState snapshot
    .ok { self with
      state
      balances := snapshot.ledger
      treasury := orKeep snapshot.treasury (treasuryFromTrie state)
      finality :=
        { FinalityTracker.onNewBlock {} snapshot.height with
          finalizedHeight := snapshot.finalizedHeight }
      slashing := snapshot.slashing
      equivocationRecords := snapshot.equivocationRecords
      safetyCertificates := snapshot.safetyCertificates
      validatorSet := snapshot.validatorSet
      governanceLimits := snapshot.governanceLimits
      finalityConfig := snapshot.finalityConfig
      proposals := { self.proposals with proposals := snapshot.proposals } }

def restoreFromSnapshotWithStore (self : Chain) (snapshot : StateSnapshot) (store : Entries) :
    Except String Chain :=
  (self.restoreFromSnapshot snapshot).map fun chain =>
    { chain with state := chain.state.bindStore store }

/-- Blocks imported one after the other, up to the first failure. -/
def importAll (self : Chain) : List Block → Except (UInt64 × String) Chain
  | [] => .ok self
  | block :: rest =>
      match self.importBlock block with
      | (.error detail, _) => .error (block.header.height, detail)
      | (.ok (), chain) => chain.importAll rest

/-- The block the snapshot was taken at, if it is the one it claims to be. -/
def snapshotBoundary (blocks : List Block) (snapshot : StateSnapshot) :
    Except ImportError Block :=
  match blocks[snapshot.height.toNat]? with
  | none => .error (.snapshotMismatch snapshot.height "snapshot height is beyond the block log")
  | some boundary =>
      if boundary.header.height ≠ snapshot.height then
        .error (.snapshotMismatch snapshot.height
          s!"boundary block height mismatch: block log has {boundary.header.height}")
      else if snapshot.stateRoot ≠ boundary.header.stateRoot then
        .error (.snapshotMismatch snapshot.height
          s!"state root mismatch: snapshot={hexEncode snapshot.stateRoot.toList} block={hexEncode boundary.header.stateRoot.toList}")
      else if snapshot.ledger.balanceRoot ≠ boundary.header.balanceRoot then
        .error (.snapshotMismatch snapshot.height
          s!"balance root mismatch: snapshot={hexEncode snapshot.ledger.balanceRoot.toList} block={hexEncode boundary.header.balanceRoot.toList}")
      else .ok boundary

/-- A chain from the blocks up to the snapshot, the snapshot over it, and the
remaining blocks imported. -/
def fromBlocksWithSnapshot (validatorKey : ValidatorKey) (blocks : List Block)
    (snapshot : StateSnapshot) (store : Option Entries) : Except ImportError Chain :=
  if blocks.isEmpty then .error .empty
  else do
    let _ ← snapshotBoundary blocks snapshot
    let index := snapshot.height.toNat
    let chain ← fromBlocks validatorKey (blocks.take (index + 1))
    let restored ← (match store with
      | some store => chain.restoreFromSnapshotWithStore snapshot store
      | none => chain.restoreFromSnapshot snapshot).mapError (.snapshotMismatch snapshot.height)
    (restored.importAll (blocks.drop (index + 1))).mapError
      fun (height, detail) => .postSnapshotReplay height detail

end Chain

end

end Sccgub
