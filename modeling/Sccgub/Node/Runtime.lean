import Mathlib
import Sccgub.Dedup
import Sccgub.Interrupt
import Sccgub.Network.Messages
import Sccgub.Network.Peers
import Sccgub.Node.Penalties

/-!
# The network runtime

What a validator does with the messages of its peers: it holds proposed blocks,
opens a round for a height, votes, and appends a block once its round has the
quorums.  Rounds time out, the set of validators is refreshed from the chain, and
the open rounds are written to disk so that a restart finds them.

Handlers are scripts, since a node may crash between any two statements.  Time is
an argument.  The store cannot fail, and which chain a restart loads is an
argument too.  Connections, rate limits and the bridge to the API are left out: a
message that they hold back does not arrive.

The journal is not part of the program.  It says what the node did where the
program keeps no trace of it: what it signed, sent, heard and finalized, which
blocks it appended and which evidence it acted on.
-/

namespace Sccgub

open Bincode FixedWidth Safety
open Interrupt (Script)

/-! ## State -/

structure NetworkConfig where
  enable : Bool
  /-- Public keys in hex. -/
  validators : List String
  roundTimeoutMs : UInt64
  maxRounds : UInt32
  minConnectedPeers : Nat
  maxSameSubnetPct : UInt32

structure RoundState where
  round : ConsensusRound
  lastRoundMs : UInt64

structure PersistedConsensusRound.ValidatorRecord where
  validatorId : Hash
  publicKey : Hash

structure PersistedConsensusRound where
  chainId : Hash
  epoch : UInt64
  blockHash : Hash
  height : UInt64
  round : UInt32
  phase : ConsensusPhase
  prevotes : List Vote
  precommits : List Vote
  validatorSet : List PersistedConsensusRound.ValidatorRecord
  quorum : UInt32
  maxRounds : UInt32

structure PersistedRoundState where
  round : PersistedConsensusRound
  lastRoundMs : UInt64

/-- What is on disk about the rounds; a file that is not there is an empty one. -/
structure ConsensusStore where
  consensusRounds : Std.ExtTreeMap UInt64 PersistedRoundState := ∅
  pendingBlocks : List Block := []

structure EquivocationKey where
  validatorId : Hash
  height : UInt64
  round : UInt32
  voteType : UInt8
  blockHashA : Hash
  blockHashB : Hash
  epoch : UInt64
  deriving DecidableEq

inductive Act where
  | signs (epoch : UInt64) (vote : Vote)
  | sends (message : NetworkMessage)
  /-- A vote came in with a valid signature. -/
  | hears (epoch : UInt64) (vote : Vote)
  /-- A certificate came in and was verified. -/
  | verifies (certificate : SafetyCertificate)
  /-- A round got its quorums, and the certificate was made from it. -/
  | finalizes (round : ConsensusRound) (certificate : SafetyCertificate)
  /-- A block went on the chain, with the validators that the node had. -/
  | appends (validators : ValidatorKeys) (block : Block)
  /-- Evidence was not a duplicate, and the stake was slashed. -/
  | slashes (key : EquivocationKey)

structure NetworkRuntime where
  chain : Chain
  config : NetworkConfig
  store : Option ConsensusStore := none
  registry : PeerRegistry := {}
  consensusRounds : Std.ExtTreeMap UInt64 RoundState := ∅
  pendingBlocks : Std.ExtTreeMap Hash Block := ∅
  equivocations : Finset EquivocationKey := ∅
  equivocationsOrder : List EquivocationKey := []
  validatorSet : ValidatorKeys
  validatorKey : ValidatorKey
  validatorId : Hash
  chainId : Hash
  /-- Newest first. -/
  journal : List Act := []

def maxEquivocationDedup : Nat := 8192

def maxPendingBlocks : Nat := 64

def maxPersistedConsensusRounds : Nat := 10000

def maxPersistedPendingBlocks : Nat := 64

/-! ## On disk -/

def roundStateToPersisted (state : RoundState) : PersistedRoundState where
  round :=
    { chainId := state.round.chainId
      epoch := state.round.epoch
      blockHash := state.round.blockHash
      height := state.round.height
      round := state.round.round
      phase := state.round.phase
      prevotes := state.round.prevotes.values
      precommits := state.round.precommits.values
      validatorSet := state.round.validatorSet.toList.map fun p => ⟨p.1, p.2⟩
      quorum := state.round.quorum
      maxRounds := state.round.maxRounds }
  lastRoundMs := state.lastRoundMs

def votesById (votes : List Vote) : VoteMap :=
  votes.foldl (fun map vote => map.insert vote.validatorId vote) ∅

def persistedToRoundState (persisted : PersistedRoundState) : RoundState :=
  let validatorSet : ValidatorKeys := persisted.round.validatorSet.foldl
    (fun map record => map.insert record.validatorId record.publicKey) ∅
  { round :=
      { chainId := persisted.round.chainId
        epoch := persisted.round.epoch
        blockHash := persisted.round.blockHash
        height := persisted.round.height
        round := persisted.round.round
        phase := persisted.round.phase
        prevotes := votesById persisted.round.prevotes
        precommits := votesById persisted.round.precommits
        validatorCount := clampU32 validatorSet.size
        quorum := persisted.round.quorum
        maxRounds := persisted.round.maxRounds
        validatorSet }
    lastRoundMs := persisted.lastRoundMs }

namespace ConsensusStore

def loadConsensusState (self : ConsensusStore) :
    Except String (Std.ExtTreeMap UInt64 PersistedRoundState) :=
  if maxPersistedConsensusRounds < self.consensusRounds.size then
    .error s!"Persisted consensus_rounds.json has {self.consensusRounds.size} entries (max {maxPersistedConsensusRounds})"
  else .ok self.consensusRounds

def loadPendingBlocks (self : ConsensusStore) : Except String (Std.ExtTreeMap Hash Block) :=
  if maxPersistedPendingBlocks < self.pendingBlocks.length then
    .error s!"Persisted pending_blocks.json has {self.pendingBlocks.length} entries (max {maxPersistedPendingBlocks})"
  else
    match self.pendingBlocks.find? fun block => !block.isStructurallyValid with
    | some block => .error s!"Pending block #{block.header.height} failed structural validation"
    | none =>
        .ok (self.pendingBlocks.foldl (fun map block => map.insert block.header.blockId block) ∅)

end ConsensusStore

/-! ## Validators -/

def decodeValidator (entry : String) : Except String Hash :=
  match hexDecode (utf8 (trimString entry)) with
  | none => .error "Validator key hex decode failed"
  | some bytes =>
      if h : bytes.length = 32 then .ok ⟨bytes, h⟩
      else .error s!"Validator public key must be 32 bytes, got {bytes.length}"

/-- An active validator with the standing that a configured one gets. -/
def configuredAuthority (nodeId : Hash) : ValidatorAuthority where
  nodeId
  governanceLevel := .safety
  normCompliance := .fromInteger 1
  causalReliability := .fromInteger 1
  active := true

def validatorsFromConfig (config : NetworkConfig) : Except String (List ValidatorAuthority) :=
  (config.validators.mapM decodeValidator).map fun ids =>
    sortByHash ValidatorAuthority.nodeId (ids.map configuredAuthority)

/-- Validators sign with the key that is their id. -/
def selfKeyed (ids : List Hash) : ValidatorKeys := ids.foldl (fun map id => map.insert id id) ∅

def validatorSetMap (config : NetworkConfig) : Except String ValidatorKeys :=
  (config.validators.mapM decodeValidator).map selfKeyed

def activeValidators (validators : List ValidatorAuthority) : ValidatorKeys :=
  selfKeyed ((validators.filter (·.active)).map (·.nodeId))

namespace NetworkRuntime

/-- The active validators of the chain, or this node alone where there is none. -/
def chainValidators (chain : Chain) (validatorId : Hash) : ValidatorKeys :=
  let active := activeValidators chain.validatorSet
  if active.isEmpty then selfKeyed [validatorId] else active

def new (chain : Chain) (config : NetworkConfig) : Except String NetworkRuntime := do
  let validators ← validatorsFromConfig config
  let validatorSet ← validatorSetMap config
  return {
    chain := if config.validators.isEmpty then chain else chain.setValidatorSet validators
    config
    validatorSet := if validatorSet.isEmpty then chainValidators chain chain.localValidatorId
      else validatorSet
    validatorKey := chain.validatorKey
    validatorId := chain.localValidatorId
    chainId := chain.chainId }

def withPersistence (self : NetworkRuntime) (store : ConsensusStore) : NetworkRuntime :=
  { self with store := some store }

def syncValidatorSetFromChainIfUnconfigured (self : NetworkRuntime) : NetworkRuntime :=
  if !self.config.validators.isEmpty then self
  else { self with validatorSet := chainValidators self.chain self.validatorId }

def isLocalValidatorActive (self : NetworkRuntime) : Bool := self.validatorSet.contains self.validatorId

def proposerForHeightRound (self : NetworkRuntime) (height : UInt64) (round : UInt32) :
    Option Hash :=
  if self.validatorSet.isEmpty then some self.validatorId
  else
    (roundRobinProposer (self.validatorSet.keys.map configuredAuthority)
      (saturatingAdd height (UInt64.ofNat round.toNat))).map (·.nodeId)

def currentEpoch (self : NetworkRuntime) : UInt64 := self.chain.treasury.epoch

/-- The threshold that governance asks for, and no more than there are
validators. -/
def consensusQuorum (self : NetworkRuntime) : UInt32 :=
  let validatorCount := clampU32 self.validatorSet.size
  match self.chain.state.governanceState.finalityMode with
  | .bftCertified quorumThreshold =>
      let quorum := max quorumThreshold 1
      if validatorCount > 0 ∧ quorum > validatorCount then validatorCount else quorum
  | .deterministic => 1

/-! ## Small changes -/

def record (act : Act) (self : NetworkRuntime) : NetworkRuntime :=
  { self with journal := act :: self.journal }

def broadcast (message : NetworkMessage) : NetworkRuntime → NetworkRuntime := record (.sends message)

def setRound (height : UInt64) (state : RoundState) (self : NetworkRuntime) : NetworkRuntime :=
  { self with consensusRounds := self.consensusRounds.insert height state }

def dropRound (height : UInt64) (self : NetworkRuntime) : NetworkRuntime :=
  { self with consensusRounds := self.consensusRounds.erase height }

def holdBlock (block : Block) (self : NetworkRuntime) : NetworkRuntime :=
  { self with pendingBlocks := self.pendingBlocks.insert block.header.blockId block }

def dropBlock (hash : Hash) (self : NetworkRuntime) : NetworkRuntime :=
  { self with pendingBlocks := self.pendingBlocks.erase hash }

def onStore (f : NetworkRuntime → ConsensusStore → ConsensusStore) (self : NetworkRuntime) :
    NetworkRuntime :=
  { self with store := self.store.map (f self) }

def saveConsensusState : NetworkRuntime → NetworkRuntime :=
  onStore fun self store =>
    { store with consensusRounds := self.consensusRounds.map fun _ => roundStateToPersisted }

def savePendingBlocks : NetworkRuntime → NetworkRuntime :=
  onStore fun self store => { store with pendingBlocks := self.pendingBlocks.values }

def clearConsensusState : NetworkRuntime → NetworkRuntime :=
  onStore fun _ store => { store with consensusRounds := ∅ }

def clearPendingBlocks : NetworkRuntime → NetworkRuntime :=
  onStore fun _ store => { store with pendingBlocks := [] }

abbrev Handler := Script NetworkRuntime String

def persistConsensusState : Handler Unit := do
  Script.modify saveConsensusState
  Script.modify savePendingBlocks

section

variable [Crypto]

/-! ## Votes -/

def signVoteWithEpoch (self : NetworkRuntime) (epoch : UInt64) (blockHash : Hash) (height : UInt64)
    (round : UInt32) (voteType : VoteType) : Vote where
  validatorId := self.validatorId
  blockHash
  height
  round
  voteType
  signature := self.validatorKey.sign
    (voteSignData self.chainId epoch blockHash height round voteType)

def verifyVoteSignature (self : NetworkRuntime) (epoch : UInt64) (vote : Vote) :
    Except String Unit :=
  match self.validatorSet[vote.validatorId]? with
  | none => .error ("Validator " ++ hexEncode vote.validatorId.toList ++ " not in authorized set")
  | some publicKey =>
      if vote.signature.length < 64 then
        .error "Vote signature must be at least 64 bytes (Ed25519)"
      else if !verify publicKey (voteSignData self.chainId epoch vote.blockHash vote.height
          vote.round vote.voteType) vote.signature then
        .error "Vote signature verification failed"
      else .ok ()

/-- A round as it is opened: its quorum is the one that governance asks for. -/
def openedRound (self : NetworkRuntime) (blockHash : Hash) (height : UInt64) (round : UInt32)
    (now : UInt64) : RoundState where
  round :=
    { ConsensusRound.new self.chainId self.currentEpoch blockHash height round self.validatorSet
        self.config.maxRounds with
      quorum := self.consensusQuorum }
  lastRoundMs := now

/-- The round of a height, opened where there is none. -/
def roundEntry (blockHash : Hash) (height : UInt64) (round : UInt32) (now : UInt64) :
    Handler RoundState :=
  Script.act fun self =>
    match self.consensusRounds[height]? with
    | some state => (.ok state, self)
    | none =>
        let state := self.openedRound blockHash height round now
        (.ok state, self.setRound height state)

/-! ## Advancing a round -/

def peerDiversityGate (self : NetworkRuntime) : Except String Unit :=
  if self.config.enable then
    (self.registry.checkDiversityWith
      (min self.config.minConnectedPeers (self.validatorSet.size - 1))
      self.config.maxSameSubnetPct).mapError ("Peer diversity gate: " ++ ·)
  else .ok ()

/-- On a quorum of prevotes the node precommits, if it has not yet.  The vote goes
out also where the round does not take it. -/
def precommit (height : UInt64) (state : RoundState) : Handler RoundState := do
  let self ← Script.get
  if state.round.hasPrevoteQuorum && !state.round.precommits.contains self.validatorId
      && self.isLocalValidatorActive then
    let vote := self.signVoteWithEpoch state.round.epoch state.round.blockHash height
      state.round.round .precommit
    let next := { state with round := orKeep state.round (state.round.addPrecommit vote) }
    Script.modify (record (.signs state.round.epoch vote))
    Script.modify (setRound height next)
    Script.modify (broadcast (.consensusVote vote))
    return next
  else return state

/-- The block of a finalized round goes on the chain, if it can be imported. -/
def appendFinalized (certificate : SafetyCertificate) (block : Block) : Handler Unit := do
  let imported ← Script.act fun self =>
    match self.chain.importBlock block with
    | (.ok (), chain) =>
        (.ok true, record (.appends self.validatorSet block)
          { self with chain := chain.recordSafetyCertificate certificate })
    | (.error _, chain) => (.ok false, { self with chain })
  if imported then Script.modify (broadcast (.finalityCertificate certificate)) else pure ()

def appendPending (certificate : SafetyCertificate) (hash : Hash) : Handler Unit := do
  let self ← Script.get
  match self.pendingBlocks[hash]? with
  | some block => do
      Script.modify (dropBlock hash)
      appendFinalized certificate block
  | none => pure ()

def finalizeRound (height : UInt64) (round : ConsensusRound) : Handler Unit := do
  let self ← Script.get
  let certificate := SafetyCertificate.fromRound self.chainId round.epoch round.blockHash height
    round.round round.precommits round.validatorCount
  Script.modify (record (.finalizes round certificate))
  appendPending certificate round.blockHash
  Script.modify (dropRound height)
  Script.modify clearConsensusState
  Script.modify clearPendingBlocks

def abortRound (height : UInt64) (round : ConsensusRound) : Handler Unit := do
  Script.modify (dropRound height)
  Script.modify fun self =>
    if round.blockHash ≠ zeroHash then self.dropBlock round.blockHash else self
  persistConsensusState

def maybeAdvanceConsensus (height : UInt64) : Handler Unit := do
  Script.check peerDiversityGate
  let self ← Script.get
  match self.consensusRounds[height]? with
  | none => pure ()
  | some state => do
      let quorum := state.round.hasPrevoteQuorum
      let state ← precommit height state
      match state.round.evaluate with
      | (round, .finalized ..) => do
          Script.modify (setRound height { state with round })
          finalizeRound height round
      | (round, .nextRound _) =>
          Script.modify (setRound height { state with
            round := { round with phase := if quorum then .precommit else .prevote } })
      | (round, .aborted _) => do
          Script.modify (setRound height { state with round := { round with phase := .abort } })
          abortRound height round

/-! ## Proposals -/

def unsignedProposal (msg : BlockProposalMessage) : Bytes :=
  (NetworkMessage.blockProposal { msg with signature := [] }).toBytes

def verifyBlockProposalSignature (msg : BlockProposalMessage) : Bool :=
  if msg.signature.length < 64 then false
  else verify msg.proposerId (unsignedProposal msg) msg.signature

/-- The proposer is the producer of the block and has its turn. -/
def checkProposal (self : NetworkRuntime) (msg : BlockProposalMessage) : Except String Unit := do
  if msg.proposerId ≠ msg.block.header.validatorId then
    throw "Block proposal proposer_id mismatch"
  if !self.validatorSet.isEmpty && !self.validatorSet.contains msg.proposerId then
    throw "Block proposer not in authorized set"
  match self.proposerForHeightRound msg.block.header.height msg.round with
  | some expected =>
      if expected ≠ msg.proposerId then
        throw s!"Block proposal proposer_id mismatch: expected {hexEncode expected.toList} for height {msg.block.header.height} round {msg.round}"
  | none => pure ()

def checkPendingRoom (self : NetworkRuntime) (block : Block) : Except String Unit :=
  if !self.pendingBlocks.contains block.header.blockId
      && maxPendingBlocks ≤ self.pendingBlocks.size then
    .error s!"Pending block buffer full ({maxPendingBlocks} blocks); proposal rejected"
  else .ok ()

/-- The round is the one of the message, and it is about no other block. -/
def trackedRound (state : RoundState) (epoch : UInt64) (msg : BlockProposalMessage) :
    Except String RoundState :=
  if state.round.epoch ≠ epoch then .error "Consensus epoch mismatch"
  else if state.round.round ≠ msg.round then
    .error s!"Consensus round mismatch: expected {state.round.round}, got {msg.round}"
  else if state.round.blockHash = zeroHash then
    .ok { state with round := { state.round with blockHash := msg.block.header.blockId } }
  else if state.round.blockHash ≠ msg.block.header.blockId then
    .error "Consensus round already tracking another block hash"
  else .ok state

/-- The node prevotes for a block that it has not voted on. -/
def prevote (height : UInt64) (epoch : UInt64) (state : RoundState) : Handler Unit := do
  let self ← Script.get
  if !state.round.prevotes.contains self.validatorId && self.isLocalValidatorActive then
    let vote := self.signVoteWithEpoch epoch state.round.blockHash height state.round.round .prevote
    Script.modify (record (.signs epoch vote))
    let round ← Script.check fun _ => state.round.addPrevote vote
    Script.modify (setRound height { state with round })
    Script.modify (broadcast (.consensusVote vote))
  else pure ()

/-- Everything about a proposal up to the advancement of its round. -/
def takeProposal (msg : BlockProposalMessage) (now : UInt64) : Handler Unit := do
  let block := msg.block
  let height := block.header.height
  Script.check fun _ =>
    if verifyBlockProposalSignature msg then .ok ()
    else .error "Block proposal signature invalid"
  Script.modify syncValidatorSetFromChainIfUnconfigured
  Script.check fun self => self.checkProposal msg
  Script.act fun self =>
    let (result, chain) := self.chain.validateCandidateBlockForRound block (some msg.round)
    (result, { self with chain })
  Script.check fun self => self.checkPendingRoom block
  Script.modify (holdBlock block)
  let state ← roundEntry block.header.blockId height msg.round now
  let self ← Script.get
  let state ← Script.check fun _ => trackedRound state self.currentEpoch msg
  Script.modify (setRound height state)
  prevote height self.currentEpoch state
  persistConsensusState

def handleBlockProposal (msg : BlockProposalMessage) (now : UInt64) : Handler Unit := do
  takeProposal msg now
  maybeAdvanceConsensus msg.block.header.height
  let self ← Script.get
  if msg.proposerId ≠ self.validatorId then Script.modify (broadcast (.blockProposal msg))
  else pure ()

/-! ## Blocks from peers -/

def handleBlockResponse (msg : BlockResponseMessage) : Handler Unit := do
  match msg.block with
  | none => pure ()
  | some block => do
      let imported ← Script.act fun self =>
        match self.chain.importBlock block with
        | (.ok (), chain) =>
            (.ok true, record (.appends self.validatorSet block) { self with chain })
        | (.error _, chain) => (.ok false, { self with chain })
      if imported then do
        Script.modify (dropBlock block.header.blockId)
        Script.modify (dropRound block.header.height)
        persistConsensusState
      else pure ()

def handleFinalityCertificate (certificate : SafetyCertificate) : Handler Unit := do
  Script.modify syncValidatorSetFromChainIfUnconfigured
  Script.check fun self => certificate.verifyCryptographic self.validatorSet
  Script.modify (record (.verifies certificate))
  Script.check fun self =>
    if (self.chain.blockAt certificate.height).any fun block =>
        block.header.blockId = certificate.blockHash then .ok ()
    else .error "Finality certificate references unknown block"
  Script.modify fun self =>
    { self with chain := self.chain.recordSafetyCertificate certificate }
  Script.modify (dropBlock certificate.blockHash)
  Script.modify (dropRound certificate.height)
  persistConsensusState

/-! ## Evidence -/

def equivocationKey (voteA : Vote) (voteB : Vote) (epoch : UInt64) : EquivocationKey :=
  let (blockHashA, blockHashB) := orderedHashes voteA.blockHash voteB.blockHash
  { validatorId := voteA.validatorId
    height := voteA.height
    round := voteA.round
    voteType := voteA.voteType.asU8
    blockHashA, blockHashB, epoch }

def equivocationProof (voteA : Vote) (voteB : Vote) : EquivocationProof :=
  let (blockHashA, blockHashB) := orderedHashes voteA.blockHash voteB.blockHash
  { validatorId := voteA.validatorId
    height := voteA.height
    round := voteA.round
    voteType := voteA.voteType
    blockHashA, blockHashB }

/-- The same validator, height, round and type, and two blocks. -/
def conflicting (voteA voteB : Vote) : Bool :=
  voteA.validatorId = voteB.validatorId && voteA.height = voteB.height
    && voteA.round = voteB.round && voteA.voteType = voteB.voteType
    && voteA.blockHash ≠ voteB.blockHash

/-- Evidence that the node has not seen lately is acted on.  The ledger of the
chain is not asked. -/
def punish (voteA : Vote) (voteB : Vote) (epoch : UInt64) : Handler Bool := do
  let self ← Script.get
  let key := equivocationKey voteA voteB epoch
  if key ∈ self.equivocations then return false
  else
    Script.modify fun self =>
      let (seen, order) := Dedup.remember maxEquivocationDedup self.equivocations
        self.equivocationsOrder key
      { self with equivocations := seen, equivocationsOrder := order }
    Script.modify fun self =>
      record (.slashes key)
        { self with
          chain := (self.chain.penalizeDoubleSign (equivocationProof voteA voteB)
            epoch).recordEquivocation (equivocationProof voteA voteB) epoch }
    return true

def recordEquivocation (voteA : Vote) (voteB : Vote) (epoch : UInt64) (spread : Bool) :
    Handler Unit := do
  if conflicting voteA voteB then
    Script.check fun self => self.verifyVoteSignature epoch voteA
    Script.check fun self => self.verifyVoteSignature epoch voteB
    let punished ← punish voteA voteB epoch
    if punished && spread then
      Script.modify (broadcast (.equivocationEvidence ⟨voteA, voteB, epoch⟩))
    else pure ()
  else pure ()

def handleEquivocationEvidence (msg : EquivocationEvidenceMessage) : Handler Unit :=
  recordEquivocation msg.voteA msg.voteB msg.epoch false

/-! ## Votes of others -/

/-- The round with the vote in it; nothing where the round does not take it. -/
def admitVote (round : ConsensusRound) (vote : Vote) : Option ConsensusRound :=
  match vote.voteType with
  | .prevote =>
      if round.prevotes.contains vote.validatorId then none else (round.addPrevote vote).toOption
  | .precommit =>
      if round.precommits.contains vote.validatorId then none
      else (round.addPrecommit vote).toOption
  | .nil => none

/-- A vote of the same validator for another block. -/
def conflictingVote (round : ConsensusRound) (vote : Vote) : Option Vote :=
  let votes := match vote.voteType with
    | .prevote => round.prevotes
    | .precommit => round.precommits
    | .nil => ∅
  votes[vote.validatorId]?.filter fun existing => existing.blockHash ≠ vote.blockHash

/-- Everything about a vote up to the advancement of its round, which follows
where the result is `true`. -/
def takeVote (vote : Vote) (now : UInt64) : Handler Bool := do
  if vote.height = 0 then return false
  else
    Script.modify syncValidatorSetFromChainIfUnconfigured
    let self ← Script.get
    if !self.pendingBlocks.contains vote.blockHash then return false
    else
      let epoch := self.currentEpoch
      Script.check fun self => self.verifyVoteSignature epoch vote
      Script.modify (record (.hears epoch vote))
      let state ← roundEntry vote.blockHash vote.height vote.round now
      if state.round.epoch ≠ epoch then return false
      else if state.round.blockHash = zeroHash then return false
      else if vote.blockHash ≠ state.round.blockHash then return false
      else
        match conflictingVote state.round vote with
        | some existing => do
            recordEquivocation existing vote epoch true
            return false
        | none =>
            match admitVote state.round vote with
            | some round => do
                Script.modify (setRound vote.height { state with round })
                persistConsensusState
                if vote.validatorId ≠ self.validatorId then
                  Script.modify (broadcast (.consensusVote vote))
                  return true
                else return true
            | none => return true

def handleConsensusVote (vote : Vote) (now : UInt64) : Handler Unit := do
  let advance ← takeVote vote now
  if advance then maybeAdvanceConsensus vote.height else pure ()

/-! ## Loops -/

/-- A round that timed out goes on to the next one with nothing in it.  In the
last one only its phase changes. -/
def advanceRoundIfTimedOut (state : RoundState) (config : NetworkConfig) (now : UInt64) :
    Option RoundState :=
  if saturatingSub now state.lastRoundMs < config.roundTimeoutMs then none
  else if state.round.round ≥ config.maxRounds then
    some { state with round := { state.round with phase := .abort } }
  else
    some
      { round :=
          { state.round with
            round := UInt32.ofNat (min (state.round.round.toNat + 1) (2 ^ 32 - 1))
            phase := .propose
            prevotes := ∅
            precommits := ∅
            blockHash := zeroHash }
        lastRoundMs := now }

/-- What a timeout makes of a round: one of another epoch goes. -/
def timedOut (self : NetworkRuntime) (now : UInt64) (state : RoundState) : Option RoundState :=
  if state.round.epoch ≠ self.currentEpoch then none
  else some ((advanceRoundIfTimedOut state self.config now).getD state)

/-- The block of a round that timed out or went is not waited for. -/
def isStale (self : NetworkRuntime) (now : UInt64) (state : RoundState) : Bool :=
  state.round.epoch ≠ self.currentEpoch || (advanceRoundIfTimedOut state self.config now).isSome

def timeoutRounds (now : UInt64) (self : NetworkRuntime) : NetworkRuntime :=
  { self with consensusRounds := self.consensusRounds.filterMap fun _ => self.timedOut now }

/-- One tick of the timeout loop. -/
def consensusTimeout (now : UInt64) : Handler Unit := do
  let self ← Script.get
  let stale := (self.consensusRounds.values.filter (self.isStale now)).map (·.round.blockHash)
  Script.modify (timeoutRounds now)
  Script.modify fun self =>
    (stale.filter (· ≠ zeroHash)).foldl (fun self hash => self.dropBlock hash) self
  if stale.isEmpty then pure () else persistConsensusState

/-- One tick of the refresh loop: another set of validators ends every round.  What
comes before the store is in memory only. -/
def validatorSetRefresh : Handler Unit := do
  let self ← Script.get
  let validatorSet := activeValidators self.chain.validatorSet
  if !self.config.validators.isEmpty || validatorSet.isEmpty then pure ()
  else if self.validatorSet.size ≠ validatorSet.size
      || !self.validatorSet.keys.all (validatorSet.contains ·) then do
    Script.modify fun self =>
      { self with
        validatorSet
        registry := self.registry.enforceValidatorSet validatorSet.contains
        consensusRounds := ∅
        pendingBlocks := ∅ }
    Script.modify clearConsensusState
    Script.modify clearPendingBlocks
    persistConsensusState
  else pure ()

/-! ## Restarts -/

/-- A round from disk: without its block it starts over, in the same round. -/
def restoredRound (pending : Std.ExtTreeMap Hash Block) (persisted : PersistedRoundState) :
    RoundState :=
  let state := persistedToRoundState persisted
  if state.round.blockHash = zeroHash || pending.contains state.round.blockHash then state
  else
    { state with
      round := { state.round with
        blockHash := zeroHash, prevotes := ∅, precommits := ∅, phase := .propose } }

/-- The rounds on disk that are not taken over as they are. -/
def isCleaned (expectedHeight : UInt64) (pending : Std.ExtTreeMap Hash Block)
    (entry : UInt64 × PersistedRoundState) : Bool :=
  entry.1 ≠ expectedHeight
    || (restoredRound pending entry.2).round.blockHash ≠ entry.2.round.blockHash

/-- What is left to do on disk after the rounds were loaded. -/
inductive AfterLoad where
  | nothing
  | clearPending
  | rewrite

/-- Only the round of the next height is taken over, with the block it is about. -/
def restoreRounds (self : NetworkRuntime) (persisted : Std.ExtTreeMap UInt64 PersistedRoundState)
    (pending : Std.ExtTreeMap Hash Block) : AfterLoad × NetworkRuntime :=
  let expectedHeight := saturatingAdd self.chain.height 1
  let restored := (persisted.filter fun height _ => height = expectedHeight).map fun _ =>
    restoredRound pending
  let restoredHashes := (restored.values.map (·.round.blockHash)).filter (· ≠ zeroHash)
  let kept := pending.filter fun hash _ => hash ∈ restoredHashes
  let cleaned := persisted.toList.any (isCleaned expectedHeight pending)
    || (!restored.isEmpty && kept.size ≠ pending.size)
  (if cleaned then .rewrite else .nothing,
    { self with consensusRounds := restored, pendingBlocks := kept })

def loadPersistedConsensusState (self : NetworkRuntime) : AfterLoad × NetworkRuntime :=
  match self.store with
  | none => (.nothing, self)
  | some store =>
      match store.loadConsensusState with
      | .error _ => (.nothing, self)
      | .ok persisted =>
          if persisted.isEmpty then (.clearPending, { self with pendingBlocks := ∅ })
          else self.restoreRounds persisted (orKeep ∅ store.loadPendingBlocks)

/-- Whatever chain is loaded, it is the one of this node. -/
def reloaded (self : NetworkRuntime) (chain : Chain) : Chain :=
  { chain with chainId := self.chainId, validatorKey := self.validatorKey }

/-- The process starts over with the disk and the chain that it loads.  Up to the
first write it works in memory only. -/
def restart (chain : Chain) : Handler Unit := do
  let after ← Script.act fun self =>
    match new (self.reloaded chain) self.config with
    | .error e => (.error e, self)
    | .ok fresh =>
        let (after, loaded) := loadPersistedConsensusState
          { fresh with store := self.store, journal := self.journal }
        (.ok after, loaded)
  match after with
  | .nothing => pure ()
  | .clearPending => Script.modify clearPendingBlocks
  | .rewrite => persistConsensusState

/-! ## Events -/

/-- Whatever makes the node act, with the time where it is asked for.  The peers
it is connected to come and go. -/
inductive Event where
  | blockProposal (msg : BlockProposalMessage) (now : UInt64)
  | consensusVote (vote : Vote) (now : UInt64)
  | blockResponse (msg : BlockResponseMessage)
  | finalityCertificate (certificate : SafetyCertificate)
  | equivocationEvidence (msg : EquivocationEvidenceMessage)
  | timeout (now : UInt64)
  | refresh
  | peers (registry : PeerRegistry)
  | restart (chain : Chain)

def handle : Event → Handler Unit
  | .blockProposal msg now => handleBlockProposal msg now
  | .consensusVote vote now => handleConsensusVote vote now
  | .blockResponse msg => handleBlockResponse msg
  | .finalityCertificate certificate => handleFinalityCertificate certificate
  | .equivocationEvidence msg => handleEquivocationEvidence msg
  | .timeout now => consensusTimeout now
  | .refresh => validatorSetRefresh
  | .peers registry => Script.modify fun self => { self with registry }
  | .restart chain => restart chain

end

end NetworkRuntime

/-- A node that is up, or down after a crash with the state it crashed in. -/
structure Node where
  runtime : NetworkRuntime
  up : Bool := true

/-- An event, carried out to its end or cut off after some of its statements. -/
structure Input where
  event : NetworkRuntime.Event
  cut : Option Nat := none

/-- The height whose round a message may open and advance. -/
def NetworkRuntime.Event.subject : NetworkRuntime.Event → Option UInt64
  | .blockProposal msg _ => some msg.block.header.height
  | .consensusVote vote _ => some vote.height
  | _ => none

def NetworkRuntime.Event.isRestart : NetworkRuntime.Event → Bool
  | .restart _ => true
  | _ => false

/-- A node that is down can only be restarted. -/
def Node.step [Crypto] (self : Node) (input : Input) : Node :=
  if self.up || input.event.isRestart then
    let outcome := NetworkRuntime.handle input.event self.runtime
    match input.cut with
    | some k => ⟨outcome.states[k]?.getD outcome.last, false⟩
    | none => ⟨outcome.last, !input.event.isRestart || outcome.result.isOk⟩
  else self

end Sccgub
