import Mathlib
import Sccgub.Consensus.Finality
import Sccgub.Execution.Constraints
import Sccgub.Governance.Proposals
import Sccgub.State.System

/-!
# Governance replay

What the transitions of a block do to governance: they submit proposals and
vote on them; then due proposals are finalized, and those past their timelock
take effect on norms, limits, finality settings, the validator set, the
emergency mode and the consensus parameters.

A step that fails is logged and skipped.
-/

namespace Sccgub

open Bincode FixedWidth

/-! ## Parameters by name -/

def trimString (s : String) : String := String.ofList (trim s.toList)

/-- `key=value`, both sides trimmed and not empty. -/
def parseGovernanceParamWrite (value : Bytes) : Option (String × String) := do
  let decoded ← String.fromUTF8? ⟨value.toArray⟩
  let (key, value) ← splitOnce decoded.toList
  let key := trim key
  let value := trim value
  if key.isEmpty || value.isEmpty then none
  else some (String.ofList key, String.ofList value)

def u32Max : Nat := 2 ^ 32 - 1

/-- A number of the given width, within a range. -/
def parseInRange (max : Nat) (value typeError : String) (within : Nat → Bool)
    (rangeError : String) : Except String Nat :=
  match parseUnsigned max value.toList with
  | none => .error typeError
  | some n => if within n then .ok n else .error rangeError

/-- Upper-case ASCII letters to lower case. -/
def toAsciiLowercase (cs : List Char) : List Char := cs.map Char.toLower

def parseFinalityMode (value : String) : Except String FinalityMode :=
  let trimmed := toAsciiLowercase (trim value.toList)
  if trimmed = "deterministic".toList then .ok .deterministic
  else
    match stripPrefix "bft:".toList trimmed with
    | some quorum => do
        let parsed ← parseInRange u32Max (String.ofList quorum)
          "finality.mode bft quorum must be u32" (1 ≤ ·) "finality.mode bft quorum must be >= 1"
        return .bftCertified (UInt32.ofNat parsed)
    | none => .error "finality.mode must be 'deterministic' or 'bft:<quorum>'"

/-- What string parameters reach. -/
structure GovernedParameters where
  limits : GovernanceLimits
  finalityConfig : FinalityConfig
  finalityMode : FinalityMode

def applyGovernanceParameterStatic (p : GovernedParameters) (key value : String) :
    Except String GovernedParameters :=
  match key with
  | "governance.max_consecutive_proposals" => do
      let n ← parseInRange u32Max value "max_consecutive_proposals must be u32" (1 ≤ ·)
        "max_consecutive_proposals must be >= 1"
      return { p with limits.maxConsecutiveProposals := UInt32.ofNat n }
  | "governance.max_actions_per_agent_pct" => do
      let n ← parseInRange u32Max value "max_actions_per_agent_pct must be u32"
        (fun n => 1 ≤ n && n ≤ 100) "max_actions_per_agent_pct must be 1..=100"
      return { p with limits.maxActionsPerAgentPct := UInt32.ofNat n }
  | "governance.safety_change_min_signers" => do
      let n ← parseInRange u32Max value "safety_change_min_signers must be u32" (1 ≤ ·)
        "safety_change_min_signers must be >= 1"
      return { p with limits.safetyChangeMinSigners := UInt32.ofNat n }
  | "governance.genesis_change_min_signers" => do
      let n ← parseInRange u32Max value "genesis_change_min_signers must be u32" (1 ≤ ·)
        "genesis_change_min_signers must be >= 1"
      return { p with limits.genesisChangeMinSigners := UInt32.ofNat n }
  | "governance.max_authority_term_epochs" => do
      let n ← parseInRange u64Max value "max_authority_term_epochs must be u64" (1 ≤ ·)
        "max_authority_term_epochs must be >= 1"
      return { p with limits.maxAuthorityTermEpochs := UInt64.ofNat n }
  | "governance.authority_cooldown_epochs" => do
      let n ← parseInRange u64Max value "authority_cooldown_epochs must be u64" (· ≤ 1000)
        "authority_cooldown_epochs must be <= 1000"
      return { p with limits.authorityCooldownEpochs := UInt64.ofNat n }
  | "finality.confirmation_depth" => do
      let n ← parseInRange u64Max value "confirmation_depth must be u64" (1 ≤ ·)
        "confirmation_depth must be >= 1"
      return { p with finalityConfig.confirmationDepth := UInt64.ofNat n }
  | "finality.max_finality_ms" => do
      let n ← parseInRange u64Max value "max_finality_ms must be u64"
        (fun n => 1 ≤ n && n ≤ 300000) "max_finality_ms must be 1..300000"
      return { p with finalityConfig.maxFinalityMs := UInt64.ofNat n }
  | "finality.target_block_time_ms" => do
      let n ← parseInRange u64Max value "target_block_time_ms must be u64" (1 ≤ ·)
        "target_block_time_ms must be >= 1"
      return { p with finalityConfig.targetBlockTimeMs := UInt64.ofNat n }
  | "finality.mode" => do
      let mode ← parseFinalityMode value
      return { p with finalityMode := mode }
  | _ => .error s!"Unknown governance parameter key: {key}"

/-! ## Validators by name -/

def parseNodeId (value : String) : Except String Hash :=
  match hexDecode (utf8 (trimString value)) with
  | none => .error "Invalid validator pubkey hex"
  | some bytes =>
      if h : bytes.length = 32 then .ok ⟨bytes, h⟩
      else .error "Validator pubkey must be 32 bytes"

/-- A validator that is there already is left as it is. -/
def applyValidatorChange (validatorSet : List ValidatorAuthority) (key value : String) :
    Except String (List ValidatorAuthority) :=
  if key = "validators.add" then do
    let nodeId ← parseNodeId value
    if validatorSet.any fun v => v.nodeId = nodeId then return validatorSet
    else
      return sortByHash ValidatorAuthority.nodeId (validatorSet ++
        [{ nodeId
           governanceLevel := .meaning
           normCompliance := .fromInteger 1
           causalReliability := .fromInteger 1
           active := true }])
  else if key = "validators.remove" then do
    let nodeId ← parseNodeId value
    return validatorSet.filter fun v => v.nodeId ≠ nodeId
  else .error s!"Unknown validator change key: {key}"

def withinCeilings (ceilings : Option ConstitutionalCeilings) (params : ConsensusParams) : Bool :=
  match ceilings with
  | none => true
  | some ceilings => (ceilings.validate params).toBool

/-- A typed change, checked again against ceilings and bounds.  The texts of its
errors go to the log and nowhere else. -/
def applyConsensusParamsChange (ceilings : Option ConstitutionalCeilings)
    (params : ConsensusParams) (field : ConsensusParamField) (newValue : ConsensusParamValue) :
    Option ConsensusParams :=
  match applyTypedParam field newValue params with
  | .error _ => none
  | .ok hypothetical =>
      if withinCeilings ceilings hypothetical && hypothetical.validate.toBool then
        some hypothetical
      else none

/-! ## Proposals and votes in a block -/

def orKeep {ε α : Type} (old : α) : Except ε α → α
  | .ok new => new
  | .error _ => old

theorem eq_ok_orKeep {ε α : Type} {old : α} {result : Except ε α} (h : result.isOk = true) :
    result = .ok (orKeep old result) := by
  cases result with
  | error e => cases h
  | ok value => rfl

section

variable [Crypto]

def submitOrKeep (proposals : ProposalRegistry) (tx : SymbolicTransition) (kind : ProposalKind)
    (height : UInt64) : ProposalRegistry :=
  orKeep proposals ((proposals.submit tx.actor.agentId tx.actor.governanceLevel kind height 5).map
    Prod.snd)

/-- A norm proposal by payload, a parameter proposal or a vote by a governance
write. -/
def replayTransition (height : UInt64) (proposals : ProposalRegistry) (tx : SymbolicTransition) :
    ProposalRegistry :=
  match tx.payload with
  | .proposeNorm name description =>
      submitOrKeep proposals tx
        (.addNorm name description (.fromInteger 5) (.fromInteger 1)) height
  | .write key value =>
      if tx.intent.kind = .governanceUpdate then
        let proposals :=
          if startsWith key (utf8 "norms/governance/params/propose") then
            match parseGovernanceParamWrite value with
            | some (paramKey, paramValue) =>
                submitOrKeep proposals tx (.modifyParameter paramKey paramValue) height
            | none => proposals
          else proposals
        if startsWith key (utf8 "governance/proposals/")
            || startsWith key (utf8 "norms/governance/proposals/") then
          if h : value.length = 32 then
            orKeep proposals (proposals.vote ⟨value, h⟩ tx.actor.agentId tx.actor.governanceLevel
              true height)
          else proposals
        else proposals
      else proposals
  | _ => proposals

end

/-! ## Taking effect -/

/-- Everything governance can change. -/
structure GovernanceContext where
  proposals : ProposalRegistry
  governanceState : GovernanceState
  governanceLimits : GovernanceLimits
  finalityConfig : FinalityConfig
  validatorSet : List ValidatorAuthority
  consensusParams : ConsensusParams
  mutatedParams : Bool := false

abbrev ValidatorChange := List ValidatorAuthority → String → String →
  Except String (List ValidatorAuthority)

/-- The effect of a kind that brings no norm. -/
def takeEffect (changeValidators : ValidatorChange) (ceilings : Option ConstitutionalCeilings)
    (ctx : GovernanceContext) : ProposalKind → GovernanceContext
  | .addNorm .. => ctx
  | .deactivateNorm normId =>
      match ctx.governanceState.activeNorms[normId]? with
      | some norm =>
          { ctx with
            governanceState.activeNorms :=
              ctx.governanceState.activeNorms.insert normId { norm with active := false } }
      | none => ctx
  | .modifyParameter key value =>
      if "validators.".toList.isPrefixOf key.toList then
        { ctx with
          validatorSet := orKeep ctx.validatorSet (changeValidators ctx.validatorSet key value) }
      else
        match applyGovernanceParameterStatic
            ⟨ctx.governanceLimits, ctx.finalityConfig, ctx.governanceState.finalityMode⟩ key value with
        | .ok p =>
            { ctx with
              governanceLimits := p.limits
              finalityConfig := p.finalityConfig
              governanceState.finalityMode := p.finalityMode }
        | .error _ => ctx
  | .activateEmergency => { ctx with governanceState.emergencyMode := true }
  | .deactivateEmergency => { ctx with governanceState.emergencyMode := false }
  | .modifyConsensusParam field newValue _ =>
      match applyConsensusParamsChange ceilings ctx.consensusParams field newValue with
      | some consensusParams => { ctx with consensusParams, mutatedParams := true }
      | none => ctx

/-- The registry decides by id; what takes effect is the proposal that was
seen. -/
def activateDue (changeValidators : ValidatorChange) (ceilings : Option ConstitutionalCeilings)
    (height : UInt64) (ctx : GovernanceContext) (proposal : GovernanceProposal) :
    GovernanceContext :=
  if proposal.status = .timelocked ∧ proposal.timelockUntil ≤ height then
    match ctx.proposals.activate proposal.id height with
    | .error _ => ctx
    | .ok (some norm, proposals) =>
        { ctx with
          proposals
          governanceState.activeNorms := ctx.governanceState.activeNorms.insert norm.id norm }
    | .ok (none, proposals) =>
        takeEffect changeValidators ceilings { ctx with proposals } proposal.kind
  else ctx

/-- Transitions first, then the deadlines, then what is due of the proposals as
they stand at that point. -/
def replayGovernanceFromTransitions [Crypto] (changeValidators : ValidatorChange)
    (ceilings : Option ConstitutionalCeilings) (transitions : List SymbolicTransition)
    (height : UInt64) (ctx : GovernanceContext) : GovernanceContext :=
  let proposals := (transitions.foldl (replayTransition height) ctx.proposals).finalize height
  proposals.proposals.foldl (activateDue changeValidators ceilings height) { ctx with proposals }

end Sccgub
