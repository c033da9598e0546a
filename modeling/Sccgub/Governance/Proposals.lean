import Mathlib
import Sccgub.State.World

/-!
# Governance proposals

The registry of proposals: submission with the authority the kind asks for,
votes up to the deadline, finalization into a timelock, and activation after it.

The registry keeps a list that only grows and an index from ids to positions.
Two submissions of the same kind by the same agent at the same height have one
id; the index then points to the later one.
-/

namespace Sccgub

open Bincode FixedWidth

/-! ## Codecs of typed parameters -/

def ConsensusParamField.all : List ConsensusParamField :=
  [.maxProofDepth, .maxConstraintPropagationDepth, .maxConstraintPropagationSteps,
    .maxActivatedSymbols, .maxScanPerSymbol, .maxConstraintsPerSymbol, .defaultMaxSteps,
    .defaultTxGasLimit, .defaultBlockGasLimit, .gasTxBase, .gasComputeStep, .gasStateRead,
    .gasStateWrite, .gasSigVerify, .gasHashOp, .gasProofByte, .gasPayloadByte,
    .maxSymbolAddressLen, .maxStateEntrySize, .maxTensionSwing, .viewChangeBaseTimeoutMs,
    .viewChangeMaxTimeoutMs, .maxBlockBytes, .maxActiveProposals, .maxValidatorSetSize,
    .maxValidatorSetChangesPerBlockParam, .medianTensionWindow, .feeTensionAlpha,
    .confirmationDepth, .maxEquivocationEvidencePerBlockParam, .maxForgeryVetoesPerBlockParam]

def ConsensusParamField.codec : Codec ConsensusParamField :=
  Codec.fieldless (fun n => all[n]?) (fun f => all.idxOf f) (by intro f; cases f <;> rfl)

def ConsensusParamValue.codec : Codec ConsensusParamValue :=
  (Codec.enum (.cons Codec.u32 <| .cons Codec.u64 <| .cons i64Codec <| .last I128.codec)).iso
    (fun
      | .inl v => .u32 v
      | .inr (.inl v) => .u64 v
      | .inr (.inr (.inl v)) => .i64 v
      | .inr (.inr (.inr v)) => .i128 v)
    (fun
      | .u32 v => .inl v
      | .u64 v => .inr (.inl v)
      | .i64 v => .inr (.inr (.inl v))
      | .i128 v => .inr (.inr (.inr v)))
    (by intro v; cases v <;> rfl)
    (by rintro (_ | _ | _ | _) <;> rfl)

/-! ## Proposals -/

inductive ProposalKind where
  | addNorm (name description : String) (initialFitness enforcementCost : TensionValue)
  | deactivateNorm (normId : NormId)
  | modifyParameter (key value : String)
  | activateEmergency
  | deactivateEmergency
  | modifyConsensusParam (field : ConsensusParamField) (newValue : ConsensusParamValue)
      (activationHeight : UInt64)
  deriving DecidableEq, Inhabited

namespace ProposalKind

def codec : Codec ProposalKind :=
  (Codec.enum (.cons (Codec.string.pair <| Codec.string.pair <| TensionValue.codec.pair
      TensionValue.codec) <|
    .cons (Codec.bytes 32) <| .cons (Codec.string.pair Codec.string) <| .cons Codec.unit <|
    .cons Codec.unit <| .last (ConsensusParamField.codec.pair <|
      ConsensusParamValue.codec.pair Codec.u64))).iso
    (fun
      | .inl p => addNorm p.1 p.2.1 p.2.2.1 p.2.2.2
      | .inr (.inl id) => deactivateNorm id
      | .inr (.inr (.inl p)) => modifyParameter p.1 p.2
      | .inr (.inr (.inr (.inl ()))) => activateEmergency
      | .inr (.inr (.inr (.inr (.inl ())))) => deactivateEmergency
      | .inr (.inr (.inr (.inr (.inr p)))) => modifyConsensusParam p.1 p.2.1 p.2.2)
    (fun
      | addNorm n d f c => .inl (n, d, f, c)
      | deactivateNorm id => .inr (.inl id)
      | modifyParameter k v => .inr (.inr (.inl (k, v)))
      | activateEmergency => .inr (.inr (.inr (.inl ())))
      | deactivateEmergency => .inr (.inr (.inr (.inr (.inl ()))))
      | modifyConsensusParam f v h => .inr (.inr (.inr (.inr (.inr (f, v, h))))))
    (by intro k; cases k <;> rfl)
    (by rintro (_ | _ | _ | _ | _ | _) <;> rfl)

/-- Norms need the meaning level, everything else the safety level. -/
def requiredLevel : ProposalKind → PrecedenceLevel
  | addNorm .. | deactivateNorm _ => .meaning
  | modifyParameter .. | activateEmergency | deactivateEmergency | modifyConsensusParam .. =>
      .safety

/-- Blocks between acceptance and activation. -/
def timelockDuration : ProposalKind → UInt64
  | modifyParameter .. | activateEmergency | deactivateEmergency | modifyConsensusParam .. => 200
  | addNorm .. | deactivateNorm _ => 50

end ProposalKind

inductive ProposalStatus where
  | submitted
  | voting
  | accepted
  | rejected
  | timelocked
  | activated
  | expired
  deriving DecidableEq, Inhabited

structure GovernanceProposal where
  id : Hash
  proposer : AgentId
  kind : ProposalKind
  status : ProposalStatus
  submittedAt : UInt64
  votesFor : UInt32
  votesAgainst : UInt32
  requiredLevel : PrecedenceLevel
  votingDeadline : UInt64
  voters : HashSet
  timelockUntil : UInt64

structure ProposalRegistry where
  proposals : List GovernanceProposal := []
  index : Std.ExtTreeMap Hash Nat := ∅

def maxProposals : Nat := 10000

/-- One up, and no further than the largest value. -/
def saturatingSucc (n : UInt32) : UInt32 := if n = 0xFFFFFFFF then n else n + 1

namespace ProposalRegistry

def submit [Crypto] (self : ProposalRegistry) (proposer : AgentId) (proposerLevel : PrecedenceLevel)
    (kind : ProposalKind) (currentHeight votingPeriod : UInt64) :
    Except String (Hash × ProposalRegistry) :=
  if maxProposals ≤ self.proposals.length then .error "Proposal registry full"
  else if kind.requiredLevel.asU8 < proposerLevel.asU8 then
    .error s!"Insufficient authority: have {proposerLevel.debug}, need {kind.requiredLevel.debug}"
  else
    let id := blake3Hash (((Codec.bytes 32).pair <| ProposalKind.codec.pair Codec.u64).enc
      (proposer, kind, currentHeight))
    let proposal : GovernanceProposal :=
      { id
        proposer
        kind
        status := .voting
        submittedAt := currentHeight
        votesFor := 0
        votesAgainst := 0
        requiredLevel := kind.requiredLevel
        votingDeadline := saturatingAdd currentHeight votingPeriod
        voters := ∅
        timelockUntil := 0 }
    .ok (id, ⟨self.proposals ++ [proposal], self.index.insert id self.proposals.length⟩)

/-- The proposal the index points to.  A position beyond the list is a panic in
the source; the index only ever holds positions of the list it was built with. -/
def lookup (self : ProposalRegistry) (proposalId : Hash) :
    Except String (Nat × GovernanceProposal) :=
  match self.index[proposalId]? with
  | none => .error "Proposal not found"
  | some idx =>
      match self.proposals[idx]? with
      | none => .error "index out of bounds"
      | some proposal => .ok (idx, proposal)

def vote (self : ProposalRegistry) (proposalId : Hash) (voter : AgentId)
    (voterLevel : PrecedenceLevel) (approve : Bool) (currentHeight : UInt64) :
    Except String ProposalRegistry := do
  let (idx, proposal) ← self.lookup proposalId
  if proposal.status ≠ .voting then throw "Proposal is not in voting state"
  if proposal.votingDeadline < currentHeight then throw "Voting period has ended"
  if proposal.requiredLevel.asU8 < voterLevel.asU8 then
    throw "Voter lacks required governance level"
  if voter ∈ proposal.voters then throw "Agent has already voted on this proposal"
  let counted : GovernanceProposal :=
    if approve then { proposal with votesFor := saturatingSucc proposal.votesFor }
    else { proposal with votesAgainst := saturatingSucc proposal.votesAgainst }
  return { self with
    proposals := self.proposals.set idx { counted with voters := proposal.voters.insert voter } }

/-- The verdict on one proposal once its deadline has passed. -/
def finalizeProposal (currentHeight : UInt64) (proposal : GovernanceProposal) :
    GovernanceProposal :=
  if proposal.status ≠ .voting then proposal
  else if currentHeight ≤ proposal.votingDeadline then proposal
  else if proposal.votesAgainst < proposal.votesFor then
    { proposal with
      timelockUntil := saturatingAdd currentHeight proposal.kind.timelockDuration
      status := .timelocked }
  else { proposal with status := .rejected }

def finalize (self : ProposalRegistry) (currentHeight : UInt64) : ProposalRegistry :=
  { self with proposals := self.proposals.map (finalizeProposal currentHeight) }

/-- The norm that an accepted proposal brings. -/
def normOf (proposal : GovernanceProposal) : Option Norm :=
  match proposal.kind with
  | .addNorm name description initialFitness enforcementCost =>
      some
        { id := proposal.id
          name
          description
          precedence := proposal.requiredLevel
          populationShare := ⟨I128.saturate (TensionValue.scale / 10)⟩
          fitness := initialFitness
          enforcementCost
          active := true
          createdAtHeight := proposal.submittedAt }
  | _ => none

def activate (self : ProposalRegistry) (proposalId : Hash) (currentHeight : UInt64) :
    Except String (Option Norm × ProposalRegistry) := do
  let (idx, proposal) ← self.lookup proposalId
  if proposal.status ≠ .timelocked then throw "Proposal must be Timelocked before activation"
  if currentHeight < proposal.timelockUntil then
    throw s!"Timelock active until block {proposal.timelockUntil}. Current: {currentHeight}"
  return (normOf proposal,
    { self with proposals := self.proposals.set idx { proposal with status := .activated } })

end ProposalRegistry

/-! ## Limits on concentration -/

structure GovernanceLimits where
  maxActionsPerAgentPct : UInt32 := 33
  safetyChangeMinSigners : UInt32 := 3
  genesisChangeMinSigners : UInt32 := 5
  maxConsecutiveProposals : UInt32 := 3
  maxAuthorityTermEpochs : UInt64 := 100
  authorityCooldownEpochs : UInt64 := 10
  deriving DecidableEq

structure GovernancePowerTracker where
  actionsThisEpoch : Std.ExtTreeMap Hash UInt32 := ∅
  totalActionsEpoch : UInt32 := 0
  consecutiveProposals : Std.ExtTreeMap Hash UInt32 := ∅
  lastProposer : Option AgentId := none

namespace GovernancePowerTracker

def recordAction (self : GovernancePowerTracker) (agent : AgentId) : GovernancePowerTracker :=
  { self with
    actionsThisEpoch := self.actionsThisEpoch.insert agent
      (saturatingSucc (self.actionsThisEpoch[agent]?.getD 0))
    totalActionsEpoch := saturatingSucc self.totalActionsEpoch }

/-- Only a proposer that follows itself is limited. -/
def checkProposal (self : GovernancePowerTracker) (validator : AgentId)
    (limits : GovernanceLimits) : Except String Unit :=
  let consecutive := self.consecutiveProposals[validator]?.getD 0
  if self.lastProposer = some validator ∧ limits.maxConsecutiveProposals ≤ consecutive then
    .error s!"Validator {hexEncode validator.toList} has proposed {consecutive} consecutive blocks (max {limits.maxConsecutiveProposals})"
  else .ok ()

def recordProposal (self : GovernancePowerTracker) (validator : AgentId) :
    GovernancePowerTracker :=
  if self.lastProposer = some validator then
    { self with
      consecutiveProposals := self.consecutiveProposals.insert validator
        (self.consecutiveProposals[validator]?.getD 0 + 1) }
  else
    { self with
      consecutiveProposals := (∅ : Std.ExtTreeMap Hash UInt32).insert validator 1
      lastProposer := some validator }

def resetEpoch (self : GovernancePowerTracker) : GovernancePowerTracker :=
  { self with actionsThisEpoch := ∅, totalActionsEpoch := 0 }

end GovernancePowerTracker

/-! ## Validators by turn -/

structure ValidatorAuthority where
  nodeId : Hash
  governanceLevel : PrecedenceLevel
  normCompliance : TensionValue
  causalReliability : TensionValue
  active : Bool
  deriving DecidableEq, Inhabited

/-- The active validators in the order of their ids, one after the other. -/
def roundRobinProposer (validators : List ValidatorAuthority) (round : UInt64) :
    Option ValidatorAuthority :=
  let active := sortByHash ValidatorAuthority.nodeId (validators.filter (·.active))
  if active.isEmpty then none else active[round.toNat % active.length]?

end Sccgub
