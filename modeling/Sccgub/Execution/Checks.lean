import Mathlib
import Sccgub.State.KeyRotation
import Sccgub.State.System

/-!
# Single-transition checks

What the phases look at, one transition at a time: the WH binding and its
cross-checks, the namespaces a kind may target, the payload against the declared
intent, the key of a rotated agent, and, per block, the ceilings.
-/

namespace Sccgub

open Bincode

/-! ## Names in messages -/

def TransitionKind.debug : TransitionKind → String
  | stateWrite => "StateWrite"
  | stateRead => "StateRead"
  | governanceUpdate => "GovernanceUpdate"
  | normProposal => "NormProposal"
  | constraintAddition => "ConstraintAddition"
  | agentRegistration => "AgentRegistration"
  | disputeResolution => "DisputeResolution"
  | assetTransfer => "AssetTransfer"
  | contractDeploy => "ContractDeploy"
  | contractInvoke => "ContractInvoke"

/-- A list of strings between brackets, each quoted. -/
def debugList (l : List String) : String :=
  "[" ++ String.intercalate ", " (l.map fun s => "\"" ++ s ++ "\"") ++ "]"

def debugBytes (bs : Bytes) : String :=
  "[" ++ String.intercalate ", " (bs.map fun b => toString b.toNat) ++ "]"

def TransitionMechanism.debug : TransitionMechanism → String
  | directStateWrite => "DirectStateWrite"
  | contractExecution id => "ContractExecution \x7b contract_id: " ++ debugBytes id.toList ++ " \x7d"
  | governanceAction => "GovernanceAction"

/-! ## WH binding -/

def checkWhBindingIntent (intent : WHBindingIntent) : Except String Unit :=
  if intent.who = zeroHash then .error "WHBinding: 'who' is empty (zero hash)"
  else if intent.where.isEmpty then .error "WHBinding: 'where' is empty"
  else if intent.whatDeclared.isEmpty then .error "WHBinding: 'what_declared' is empty"
  else if intent.why.invokingRule = zeroHash then
    .error "WHBinding: 'why.invoking_rule' is empty"
  else .ok ()

/-- Which mechanism may carry which payload. -/
def howMatches : TransitionMechanism → OperationPayload → Bool
  | .directStateWrite, .write .. => true
  | .contractExecution _, .invokeContract .. => true
  | _, .noop => true
  | .governanceAction, .proposeNorm .. => true
  | .directStateWrite, .assetTransfer .. => true
  | .directStateWrite, .registerAgent _ => true
  | .directStateWrite, .deployContract _ => true
  | _, _ => false

/-- The constraints a transition carries. -/
def carriedConstraints (tx : SymbolicTransition) : HashSet :=
  Std.ExtTreeSet.ofList ((tx.preconditions ++ tx.postconditions).map (·.id))

/-- Completeness, and then the binding against the rest of the transition. -/
def checkTransitionWh (tx : SymbolicTransition) : Except String Unit :=
  let wh := tx.whBindingIntent
  match checkWhBindingIntent wh with
  | .error e => .error e
  | .ok () =>
      if wh.who ≠ tx.actor.agentId then
        .error s!"WHBinding 'who' ({hexEncode wh.who.toList}) does not match actor ({hexEncode tx.actor.agentId.toList})"
      else if wh.where ≠ tx.intent.target then
        .error "WHBinding 'where' does not match intent target"
      else if wh.why.precedenceLevel.asU8 < tx.actor.governanceLevel.asU8 then
        .error s!"WHBinding claims precedence {wh.why.precedenceLevel.debug} but actor only has {tx.actor.governanceLevel.debug}"
      else if wh.when.lamportCounter = 0 && wh.when.causalDepth > 0 then
        .error "WHBinding 'when': zero lamport counter with non-zero causal depth"
      else if !howMatches wh.how tx.payload then
        .error s!"WHBinding 'how' ({wh.how.debug}) does not match payload variant"
      else
        let carried := carriedConstraints tx
        if carried ≠ wh.which then
          let undeclared := (carried.toList.filter fun c => c ∉ wh.which).map
            fun c => hexEncode c.toList
          let unsupported := (wh.which.toList.filter fun c => c ∉ carried).map
            fun c => hexEncode c.toList
          .error s!"WHBinding 'which' does not match carried constraints: undeclared={debugList undeclared} unsupported={debugList unsupported}"
        else .ok ()

/-- Everything a complete binding says about its transition. -/
structure WhBound (tx : SymbolicTransition) : Prop where
  complete : checkWhBindingIntent tx.whBindingIntent = .ok ()
  who : tx.whBindingIntent.who = tx.actor.agentId
  target : tx.whBindingIntent.where = tx.intent.target
  level : tx.actor.governanceLevel.asU8 ≤ tx.whBindingIntent.why.precedenceLevel.asU8
  depth : (tx.whBindingIntent.when.lamportCounter = 0
    && tx.whBindingIntent.when.causalDepth > 0) = false
  how : howMatches tx.whBindingIntent.how tx.payload = true
  which : carriedConstraints tx = tx.whBindingIntent.which

theorem checkTransitionWh_eq_ok_iff {tx : SymbolicTransition} :
    checkTransitionWh tx = .ok () ↔ WhBound tx := by
  constructor
  · intro h
    unfold checkTransitionWh at h
    dsimp only at h
    split at h
    · cases h
    · rename_i hcomplete
      split at h
      · cases h
      · rename_i hwho
        split at h
        · cases h
        · rename_i hwhere
          split at h
          · cases h
          · rename_i hlevel
            split at h
            · cases h
            · rename_i hdepth
              split at h
              · cases h
              · rename_i hhow
                split at h
                · cases h
                · rename_i hwhich
                  exact ⟨hcomplete, not_not.mp hwho, not_not.mp hwhere, UInt8.not_lt.mp hlevel,
                    Bool.eq_false_iff.mpr hdepth, by simpa using hhow, not_not.mp hwhich⟩
  · rintro ⟨hcomplete, hwho, hwhere, hlevel, hdepth, hhow, hwhich⟩
    unfold checkTransitionWh
    dsimp only
    rw [hcomplete, if_neg (not_not.mpr hwho), if_neg (not_not.mpr hwhere),
      if_neg (UInt8.not_lt.mpr hlevel), hdepth, hhow]
    simp [hwhich]

/-! ## Ontology -/

/-- Namespaces each kind may write to; nothing for kinds that are not built. -/
def allowedNamespaces : TransitionKind → List Bytes
  | .stateWrite => [nsData]
  | .stateRead => [nsData, nsBalance, nsNorms, nsAgents]
  | .assetTransfer => [nsBalance, nsEscrow]
  | .governanceUpdate => [nsNorms, nsTreasury]
  | .normProposal => [nsNorms]
  | .constraintAddition => [nsConstraints]
  | .agentRegistration => [nsAgents]
  | .contractDeploy => [nsContract]
  | .contractInvoke => [nsContract]
  | .disputeResolution => []

inductive OntologyResult where
  | allowed
  | rejected (kind : TransitionKind) (target : Bytes) (allowed : List Bytes)
  deriving DecidableEq, Inhabited

def OntologyResult.isAllowed : OntologyResult → Bool
  | allowed => true
  | rejected .. => false

def checkOntology (tx : SymbolicTransition) : OntologyResult :=
  let target := tx.intent.target
  let namespaces := allowedNamespaces tx.intent.kind
  if target.isEmpty then .rejected tx.intent.kind [] namespaces
  else if namespaces.any (startsWith target) then .allowed
  else .rejected tx.intent.kind target namespaces

/-! ## Payload -/

inductive PayloadConsistency where
  | consistent
  | inconsistent (reason : String)
  deriving DecidableEq, Inhabited

def payloadVariantName : OperationPayload → String
  | .write .. => "Write"
  | .assetTransfer .. => "AssetTransfer"
  | .registerAgent _ => "RegisterAgent"
  | .proposeNorm .. => "ProposeNorm"
  | .deployContract _ => "DeployContract"
  | .invokeContract .. => "InvokeContract"
  | .noop => "Noop"

/-- `agents/` and the key in hexadecimal. -/
def agentKey (publicKey : Hash) : Bytes := nsAgents ++ hexBytes publicKey.toList

def checkPayloadConsistency (tx : SymbolicTransition) : PayloadConsistency :=
  let target := tx.intent.target
  let shown := fromUtf8Lossy target
  match tx.payload, tx.intent.kind with
  | .write key _, .stateWrite | .write key _, .contractInvoke | .write key _, .governanceUpdate =>
      if key ≠ target then
        .inconsistent s!"Write key {fromUtf8Lossy key} != intent.target {shown}"
      else .consistent
  | .assetTransfer source _ _, .assetTransfer =>
      let expected := balanceKey source
      if target ≠ expected then
        .inconsistent s!"AssetTransfer target {shown} != sender balance key {fromUtf8Lossy expected}"
      else .consistent
  | .registerAgent publicKey, .agentRegistration =>
      let expected := agentKey publicKey
      if target ≠ expected then
        .inconsistent s!"RegisterAgent target {shown} != agents/<pk> {fromUtf8Lossy expected}"
      else .consistent
  | .proposeNorm _ _, .normProposal =>
      if !startsWith target nsNorms then
        .inconsistent s!"ProposeNorm target {shown} not in norms/"
      else .consistent
  | .deployContract _, .contractDeploy =>
      if !startsWith target nsContract then
        .inconsistent s!"DeployContract target {shown} not in contract/"
      else .consistent
  | .invokeContract _ _ _, .contractInvoke =>
      if !startsWith target nsContract && !startsWith target nsData then
        .inconsistent s!"InvokeContract target {shown} not in contract/ or data/"
      else .consistent
  | .noop, _ => .consistent
  | payload, kind =>
      .inconsistent s!"Payload {payloadVariantName payload} is not valid for TransitionKind {kind.debug}"

/-! ## Superseded keys -/

inductive SupersededKeyCheck where
  | ok
  | superseded (agentId staleKey activeKey : Hash)
  | storageError (error : String)
  deriving DecidableEq, Inhabited

/-- An agent outside the key index is not subject to the check. -/
def checkTxSupersededKey (tx : SymbolicTransition) (state : ManagedWorldState)
    (blockHeight : UInt64) : SupersededKeyCheck :=
  match activePublicKey state tx.actor.agentId blockHeight with
  | .ok none => .ok
  | .ok (some active) =>
      if active = tx.actor.publicKey then .ok
      else .superseded tx.actor.agentId tx.actor.publicKey active
  | .error e => .storageError e

theorem checkTxSupersededKey_eq_ok_iff {tx : SymbolicTransition} {state : ManagedWorldState}
    {blockHeight : UInt64} :
    checkTxSupersededKey tx state blockHeight = .ok ↔
      activePublicKey state tx.actor.agentId blockHeight = .ok none ∨
        activePublicKey state tx.actor.agentId blockHeight = .ok (some tx.actor.publicKey) := by
  unfold checkTxSupersededKey
  rcases activePublicKey state tx.actor.agentId blockHeight with e | _ | active
  · simp
  · simp
  · by_cases h : active = tx.actor.publicKey <;> simp [h]

/-! ## Ceilings -/

inductive CeilingCheck where
  | valid
  | notV3
  | ceilingsMissing
  | violation (violation : CeilingViolation)
  | error (error : String)
  deriving DecidableEq, Inhabited

/-- Only from the third block version on. -/
def validateCeilingsForBlock (state : ManagedWorldState) (header : BlockHeader) : CeilingCheck :=
  if header.version < patch04BlockVersion then .notV3
  else
    match constitutionalCeilingsFromTrie state with
    | .ok (some ceilings) =>
        match ceilings.validate state.consensusParams with
        | .ok () => .valid
        | .error v => .violation v
    | .ok none => .ceilingsMissing
    | .error e => .error e

end Sccgub
