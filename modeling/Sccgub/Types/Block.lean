import Mathlib
import Sccgub.Types.Transition
import Sccgub.Types.ValidatorSet

/-!
# Blocks

A block with its header, body, receipts, causal delta, proof and governance
snapshot.  The header is written field by field; the body ends in three
optional fields that the encoder leaves out when they are empty
(`skip_serializing_if`), which is the one place where a value of this
development is not written in full: `BlockBody.codec_complete` says exactly
when it is.
-/

namespace Sccgub

open Bincode FixedWidth

/-! ## Causal graph delta -/

inductive CausalVertexKind where
  | transition
  | receipt
  | object
  | proof
  | actor
  | policy
  | governanceDecision
  | normMutation
  | block
  deriving DecidableEq, Inhabited

namespace CausalVertexKind

def ofIndex : Nat → Option CausalVertexKind
  | 0 => some transition
  | 1 => some receipt
  | 2 => some object
  | 3 => some proof
  | 4 => some actor
  | 5 => some policy
  | 6 => some governanceDecision
  | 7 => some normMutation
  | 8 => some block
  | _ => none

def index : CausalVertexKind → Nat
  | transition => 0
  | receipt => 1
  | object => 2
  | proof => 3
  | actor => 4
  | policy => 5
  | governanceDecision => 6
  | normMutation => 7
  | block => 8

end CausalVertexKind

/-- A vertex is one of nine kinds of identifier. -/
structure CausalVertex where
  kind : CausalVertexKind
  id : Hash
  deriving DecidableEq, Inhabited

def CausalVertex.codec : Codec CausalVertex :=
  ((Codec.fieldless CausalVertexKind.ofIndex CausalVertexKind.index
      (by intro k; cases k <;> rfl)).pair (Codec.bytes 32)).iso
    (fun p => ⟨p.1, p.2⟩) (fun v => (v.kind, v.id)) (fun _ => rfl) (fun _ => rfl)

@[simp] theorem CausalVertex.codec_complete (v : CausalVertex) : codec.Complete v := by
  simp [codec]

inductive CausalEdgeKind where
  | causedBy
  | dependsOn
  | authorizedBy
  | proves
  | violates
  | compensates
  | amends
  | derivedFrom
  | observedBy
  | governedBy
  | containedBy
  deriving DecidableEq, Inhabited

namespace CausalEdgeKind

def ofIndex : Nat → Option CausalEdgeKind
  | 0 => some causedBy
  | 1 => some dependsOn
  | 2 => some authorizedBy
  | 3 => some proves
  | 4 => some violates
  | 5 => some compensates
  | 6 => some amends
  | 7 => some derivedFrom
  | 8 => some observedBy
  | 9 => some governedBy
  | 10 => some containedBy
  | _ => none

def index : CausalEdgeKind → Nat
  | causedBy => 0
  | dependsOn => 1
  | authorizedBy => 2
  | proves => 3
  | violates => 4
  | compensates => 5
  | amends => 6
  | derivedFrom => 7
  | observedBy => 8
  | governedBy => 9
  | containedBy => 10

end CausalEdgeKind

/-- Eleven kinds of plain edge, and the one that carries a tension. -/
inductive CausalEdge where
  | plain (kind : CausalEdgeKind) (source target : CausalVertex)
  | tensionPropagates (source target : CausalVertex) (delta : TensionValue)
  deriving DecidableEq, Inhabited

def CausalEdge.endpoints : CausalEdge → CausalVertex × CausalVertex
  | plain _ source target => (source, target)
  | tensionPropagates source target _ => (source, target)

def CausalEdge.codec : Codec CausalEdge :=
  (Codec.enum (.family 11 CausalEdgeKind.ofIndex CausalEdgeKind.index
      (by intro k; cases k <;> rfl) (by intro k; cases k <;> decide)
      (CausalVertex.codec.pair CausalVertex.codec) <|
    .last (CausalVertex.codec.pair <| CausalVertex.codec.pair TensionValue.codec))).iso
    (fun
      | .inl p => plain p.1 p.2.1 p.2.2
      | .inr p => tensionPropagates p.1 p.2.1 p.2.2)
    (fun
      | plain k s t => .inl (k, s, t)
      | tensionPropagates s t d => .inr (s, t, d))
    (by intro e; cases e <;> rfl) (by rintro (_ | _) <;> rfl)

@[simp] theorem CausalEdge.codec_complete (e : CausalEdge) : codec.Complete e := by
  cases e <;> simp [codec]

structure CausalGraphDelta where
  newVertices : List CausalVertex
  newEdges : List CausalEdge
  causalRoot : MerkleRoot
  deriving DecidableEq, Inhabited

def CausalGraphDelta.codec : Codec CausalGraphDelta :=
  (CausalVertex.codec.list.pair <| CausalEdge.codec.list.pair (Codec.bytes 32)).iso
    (fun p => ⟨p.1, p.2.1, p.2.2⟩) (fun d => (d.newVertices, d.newEdges, d.causalRoot))
    (fun _ => rfl) (fun _ => rfl)

@[simp] theorem CausalGraphDelta.codec_complete (d : CausalGraphDelta) : codec.Complete d := by
  simp [codec]

/-! ## Receipts -/

inductive Verdict where
  | accept
  | reject (reason : String)
  | defer (condition : String)
  | compensate (plan : String)
  | escalate (level : UInt8)
  deriving DecidableEq, Inhabited

def Verdict.isAccepted : Verdict → Bool
  | accept => true
  | _ => false

def Verdict.display : Verdict → String
  | accept => "Accept"
  | reject reason => "Reject: " ++ reason
  | defer condition => "Defer: " ++ condition
  | compensate plan => "Compensate: " ++ plan
  | escalate level => "Escalate to level " ++ toString level

def Verdict.codec : Codec Verdict :=
  (Codec.enum (.cons Codec.unit <| .cons Codec.string <| .cons Codec.string <|
    .cons Codec.string <| .last Codec.u8)).iso
    (fun
      | .inl () => accept
      | .inr (.inl s) => reject s
      | .inr (.inr (.inl s)) => defer s
      | .inr (.inr (.inr (.inl s))) => compensate s
      | .inr (.inr (.inr (.inr l))) => escalate l)
    (fun
      | accept => .inl ()
      | reject s => .inr (.inl s)
      | defer s => .inr (.inr (.inl s))
      | compensate s => .inr (.inr (.inr (.inl s)))
      | escalate l => .inr (.inr (.inr (.inr l))))
    (by intro v; cases v <;> rfl) (by rintro (_ | _ | _ | _ | _) <;> rfl)

@[simp] theorem Verdict.codec_complete (v : Verdict) : codec.Complete v := by
  cases v <;> simp [codec]

structure ResourceUsage where
  computeSteps : UInt64
  stateReads : UInt32
  stateWrites : UInt32
  proofSizeBytes : UInt64
  deriving DecidableEq, Inhabited

def ResourceUsage.codec : Codec ResourceUsage :=
  (Codec.u64.pair <| Codec.u32.pair <| Codec.u32.pair Codec.u64).iso
    (fun p => ⟨p.1, p.2.1, p.2.2.1, p.2.2.2⟩)
    (fun r => (r.computeSteps, r.stateReads, r.stateWrites, r.proofSizeBytes))
    (fun _ => rfl) (fun _ => rfl)

@[simp] theorem ResourceUsage.codec_complete (r : ResourceUsage) : codec.Complete r := by
  simp [codec]

structure Event where
  eventType : String
  data : Bytes
  sourceTx : TransitionId
  deriving DecidableEq, Inhabited

def Event.codec : Codec Event :=
  (Codec.string.pair <| Codec.blob.pair (Codec.bytes 32)).iso
    (fun p => ⟨p.1, p.2.1, p.2.2⟩) (fun e => (e.eventType, e.data, e.sourceTx))
    (fun _ => rfl) (fun _ => rfl)

@[simp] theorem Event.codec_complete (e : Event) : codec.Complete e := by simp [codec]

structure CausalReceipt where
  txId : TransitionId
  verdict : Verdict
  preStateRoot : Hash
  postStateRoot : Hash
  readSet : List ObjectId
  writeSet : List ObjectId
  causes : List CausalEdge
  resourceUsed : ResourceUsage
  emittedEvents : List Event
  whBinding : WHBindingResolved
  phiPhaseReached : UInt8
  tensionDelta : TensionValue
  deriving DecidableEq

def CausalReceipt.codec : Codec CausalReceipt :=
  ((Codec.bytes 32).pair <| Verdict.codec.pair <| (Codec.bytes 32).pair <|
    (Codec.bytes 32).pair <| (Codec.bytes 32).list.pair <| (Codec.bytes 32).list.pair <|
    CausalEdge.codec.list.pair <| ResourceUsage.codec.pair <| Event.codec.list.pair <|
    WHBindingResolved.codec.pair <| Codec.u8.pair TensionValue.codec).iso
    (fun p => ⟨p.1, p.2.1, p.2.2.1, p.2.2.2.1, p.2.2.2.2.1, p.2.2.2.2.2.1, p.2.2.2.2.2.2.1,
      p.2.2.2.2.2.2.2.1, p.2.2.2.2.2.2.2.2.1, p.2.2.2.2.2.2.2.2.2.1, p.2.2.2.2.2.2.2.2.2.2.1,
      p.2.2.2.2.2.2.2.2.2.2.2⟩)
    (fun r => (r.txId, r.verdict, r.preStateRoot, r.postStateRoot, r.readSet, r.writeSet,
      r.causes, r.resourceUsed, r.emittedEvents, r.whBinding, r.phiPhaseReached, r.tensionDelta))
    (fun _ => rfl) (fun _ => rfl)

@[simp] theorem CausalReceipt.codec_complete (r : CausalReceipt) : codec.Complete r := by
  simp [codec]

/-! ## Proofs -/

inductive PhiPhase where
  | distinction
  | constraint
  | ontology
  | topology
  | form
  | organization
  | module
  | execution
  | body
  | architecture
  | performance
  | feedback
  | evolution
  deriving DecidableEq, Inhabited

namespace PhiPhase

def ofIndex : Nat → Option PhiPhase
  | 0 => some distinction
  | 1 => some constraint
  | 2 => some ontology
  | 3 => some topology
  | 4 => some form
  | 5 => some organization
  | 6 => some module
  | 7 => some execution
  | 8 => some body
  | 9 => some architecture
  | 10 => some performance
  | 11 => some feedback
  | 12 => some evolution
  | _ => none

def index : PhiPhase → Nat
  | distinction => 0
  | constraint => 1
  | ontology => 2
  | topology => 3
  | form => 4
  | organization => 5
  | module => 6
  | execution => 7
  | body => 8
  | architecture => 9
  | performance => 10
  | feedback => 11
  | evolution => 12

def display : PhiPhase → String
  | distinction => "Distinction"
  | constraint => "Constraint"
  | ontology => "Ontology"
  | topology => "Topology"
  | form => "Form"
  | organization => "Organization"
  | module => "Module"
  | execution => "Execution"
  | body => "Body"
  | architecture => "Architecture"
  | performance => "Performance"
  | feedback => "Feedback"
  | evolution => "Evolution"

def all : List PhiPhase :=
  [distinction, constraint, ontology, topology, form, organization, module, execution, body,
    architecture, performance, feedback, evolution]

def codec : Codec PhiPhase :=
  Codec.fieldless ofIndex index (by intro p; cases p <;> rfl)

@[simp] theorem codec_complete (p : PhiPhase) : codec.Complete p := Codec.fieldless_complete p

end PhiPhase

structure PhiPhaseResult where
  phase : PhiPhase
  passed : Bool
  details : String
  deriving DecidableEq, Inhabited

structure PhiTraversalLog where
  phasesCompleted : List PhiPhaseResult
  allPhasesPassed : Bool
  totalPhases : UInt8
  deriving DecidableEq, Inhabited

/-- Recomputed from the phases; the stored flag is not trusted. -/
def PhiTraversalLog.isAllPassed (self : PhiTraversalLog) : Bool :=
  self.totalPhases.toNat ≤ self.phasesCompleted.length && self.phasesCompleted.all (·.passed)

def PhiTraversalLog.codec : Codec PhiTraversalLog :=
  (((PhiPhase.codec.pair <| Codec.bool.pair Codec.string).iso
      (fun p => PhiPhaseResult.mk p.1 p.2.1 p.2.2) (fun r => (r.phase, r.passed, r.details))
      (fun _ => rfl) (fun _ => rfl)).list.pair <| Codec.bool.pair Codec.u8).iso
    (fun p => ⟨p.1, p.2.1, p.2.2⟩)
    (fun l => (l.phasesCompleted, l.allPhasesPassed, l.totalPhases))
    (fun _ => rfl) (fun _ => rfl)

@[simp] theorem PhiTraversalLog.codec_complete (l : PhiTraversalLog) : codec.Complete l := by
  simp [codec]

structure TransitionProof where
  transitionId : TransitionId
  whBinding : WHBindingResolved
  preconditionResults : List (ConstraintId × Bool)
  postconditionResults : List (ConstraintId × Bool)
  causalAncestors : List TransitionId
  stateDeltaHash : Hash
  governanceAuthLevel : UInt8
  tensionContribution : TensionValue
  deriving DecidableEq

def TransitionProof.codec : Codec TransitionProof :=
  ((Codec.bytes 32).pair <| WHBindingResolved.codec.pair <|
    ((Codec.bytes 32).pair Codec.bool).list.pair <| ((Codec.bytes 32).pair Codec.bool).list.pair <|
    (Codec.bytes 32).list.pair <| (Codec.bytes 32).pair <| Codec.u8.pair TensionValue.codec).iso
    (fun p => ⟨p.1, p.2.1, p.2.2.1, p.2.2.2.1, p.2.2.2.2.1, p.2.2.2.2.2.1, p.2.2.2.2.2.2.1,
      p.2.2.2.2.2.2.2⟩)
    (fun t => (t.transitionId, t.whBinding, t.preconditionResults, t.postconditionResults,
      t.causalAncestors, t.stateDeltaHash, t.governanceAuthLevel, t.tensionContribution))
    (fun _ => rfl) (fun _ => rfl)

@[simp] theorem TransitionProof.codec_complete (t : TransitionProof) : codec.Complete t := by
  simp [codec]

structure CausalProof where
  blockHeight : UInt64
  transitionsProven : List TransitionProof
  phiTraversalLog : PhiTraversalLog
  governanceSnapshotHash : Hash
  tensionBefore : TensionValue
  tensionAfter : TensionValue
  constraintResults : List (ConstraintId × Bool)
  recursionDepth : UInt32
  validatorSignature : Bytes
  causalHash : Hash
  deriving DecidableEq

def CausalProof.codec : Codec CausalProof :=
  (Codec.u64.pair <| TransitionProof.codec.list.pair <| PhiTraversalLog.codec.pair <|
    (Codec.bytes 32).pair <| TensionValue.codec.pair <| TensionValue.codec.pair <|
    ((Codec.bytes 32).pair Codec.bool).list.pair <| Codec.u32.pair <| Codec.blob.pair
    (Codec.bytes 32)).iso
    (fun p => ⟨p.1, p.2.1, p.2.2.1, p.2.2.2.1, p.2.2.2.2.1, p.2.2.2.2.2.1, p.2.2.2.2.2.2.1,
      p.2.2.2.2.2.2.2.1, p.2.2.2.2.2.2.2.2.1, p.2.2.2.2.2.2.2.2.2⟩)
    (fun c => (c.blockHeight, c.transitionsProven, c.phiTraversalLog, c.governanceSnapshotHash,
      c.tensionBefore, c.tensionAfter, c.constraintResults, c.recursionDepth,
      c.validatorSignature, c.causalHash))
    (fun _ => rfl) (fun _ => rfl)

@[simp] theorem CausalProof.codec_complete (c : CausalProof) : codec.Complete c := by
  simp [codec]

/-! ## Governance snapshots -/

inductive FinalityMode where
  | deterministic
  | bftCertified (quorumThreshold : UInt32)
  deriving DecidableEq, Inhabited

def FinalityMode.codec : Codec FinalityMode :=
  (Codec.enum (.cons Codec.unit <| .last Codec.u32)).iso
    (fun | .inl () => deterministic | .inr q => bftCertified q)
    (fun | deterministic => .inl () | bftCertified q => .inr q)
    (by intro m; cases m <;> rfl) (by rintro (_ | _) <;> rfl)

@[simp] theorem FinalityMode.codec_complete (m : FinalityMode) : codec.Complete m := by
  cases m <;> simp [codec]

structure GovernanceLimitsSnapshot where
  maxActionsPerAgentPct : UInt32 := 33
  safetyChangeMinSigners : UInt32 := 3
  genesisChangeMinSigners : UInt32 := 5
  maxConsecutiveProposals : UInt32 := 3
  maxAuthorityTermEpochs : UInt64 := 100
  authorityCooldownEpochs : UInt64 := 10
  deriving DecidableEq

def GovernanceLimitsSnapshot.codec : Codec GovernanceLimitsSnapshot :=
  (Codec.u32.pair <| Codec.u32.pair <| Codec.u32.pair <| Codec.u32.pair <| Codec.u64.pair
    Codec.u64).iso
    (fun p => ⟨p.1, p.2.1, p.2.2.1, p.2.2.2.1, p.2.2.2.2.1, p.2.2.2.2.2⟩)
    (fun g => (g.maxActionsPerAgentPct, g.safetyChangeMinSigners, g.genesisChangeMinSigners,
      g.maxConsecutiveProposals, g.maxAuthorityTermEpochs, g.authorityCooldownEpochs))
    (fun _ => rfl) (fun _ => rfl)

@[simp] theorem GovernanceLimitsSnapshot.codec_complete (g : GovernanceLimitsSnapshot) :
    codec.Complete g := by simp [codec]

structure FinalityConfigSnapshot where
  confirmationDepth : UInt64 := 2
  maxFinalityMs : UInt64 := 6000
  targetBlockTimeMs : UInt64 := 2000
  deriving DecidableEq

def FinalityConfigSnapshot.codec : Codec FinalityConfigSnapshot :=
  (Codec.u64.pair <| Codec.u64.pair Codec.u64).iso (fun p => ⟨p.1, p.2.1, p.2.2⟩)
    (fun f => (f.confirmationDepth, f.maxFinalityMs, f.targetBlockTimeMs))
    (fun _ => rfl) (fun _ => rfl)

@[simp] theorem FinalityConfigSnapshot.codec_complete (f : FinalityConfigSnapshot) :
    codec.Complete f := by simp [codec]

structure GovernanceSnapshot where
  stateHash : Hash
  activeNormCount : UInt32
  emergencyMode : Bool
  finalityMode : FinalityMode
  governanceLimits : GovernanceLimitsSnapshot
  finalityConfig : FinalityConfigSnapshot
  deriving DecidableEq

def GovernanceSnapshot.codec : Codec GovernanceSnapshot :=
  ((Codec.bytes 32).pair <| Codec.u32.pair <| Codec.bool.pair <| FinalityMode.codec.pair <|
    GovernanceLimitsSnapshot.codec.pair FinalityConfigSnapshot.codec).iso
    (fun p => ⟨p.1, p.2.1, p.2.2.1, p.2.2.2.1, p.2.2.2.2.1, p.2.2.2.2.2⟩)
    (fun g => (g.stateHash, g.activeNormCount, g.emergencyMode, g.finalityMode,
      g.governanceLimits, g.finalityConfig))
    (fun _ => rfl) (fun _ => rfl)

@[simp] theorem GovernanceSnapshot.codec_complete (g : GovernanceSnapshot) :
    codec.Complete g := by simp [codec]

/-! ## Header, body, block -/

def legacyBlockVersion : UInt32 := 1
def canonicalAgentBlockVersion : UInt32 := 2
def patch04BlockVersion : UInt32 := 3
def patch05BlockVersion : UInt32 := 4

def isSupportedBlockVersion (version : UInt32) : Bool :=
  version = legacyBlockVersion || version = canonicalAgentBlockVersion
    || version = patch04BlockVersion || version = patch05BlockVersion

structure BlockHeader where
  chainId : Hash
  blockId : Hash
  parentId : Hash
  height : UInt64
  timestamp : CausalTimestamp
  stateRoot : MerkleRoot
  transitionRoot : MerkleRoot
  receiptRoot : MerkleRoot
  causalRoot : MerkleRoot
  proofRoot : MerkleRoot
  governanceHash : Hash
  tensionBefore : TensionValue
  tensionAfter : TensionValue
  mfidelSeal : MfidelAtomicSeal
  balanceRoot : Hash
  validatorId : Hash
  version : UInt32
  roundHistoryRoot : Hash
  deriving DecidableEq, Inhabited

def BlockHeader.codec : Codec BlockHeader :=
  ((Codec.bytes 32).pair <| (Codec.bytes 32).pair <| (Codec.bytes 32).pair <| Codec.u64.pair <|
    CausalTimestamp.codec.pair <| (Codec.bytes 32).pair <| (Codec.bytes 32).pair <|
    (Codec.bytes 32).pair <| (Codec.bytes 32).pair <| (Codec.bytes 32).pair <|
    (Codec.bytes 32).pair <| TensionValue.codec.pair <| TensionValue.codec.pair <|
    MfidelAtomicSeal.codec.pair <| (Codec.bytes 32).pair <| (Codec.bytes 32).pair <|
    Codec.u32.pair (Codec.bytes 32)).iso
    (fun ⟨a, b, c, d, e, f, g, h, i, j, k, l, m, n, o, p, q, r⟩ =>
      ⟨a, b, c, d, e, f, g, h, i, j, k, l, m, n, o, p, q, r⟩)
    (fun ⟨a, b, c, d, e, f, g, h, i, j, k, l, m, n, o, p, q, r⟩ =>
      (a, b, c, d, e, f, g, h, i, j, k, l, m, n, o, p, q, r))
    (fun _ => rfl) (fun _ => rfl)

@[simp] theorem BlockHeader.codec_complete (h : BlockHeader) : codec.Complete h := by
  simp [codec]

structure BlockBody where
  transitions : List SymbolicTransition
  transitionCount : UInt32
  totalTensionDelta : TensionValue
  constraintSatisfaction : List (ConstraintId × Bool)
  genesisConsensusParams : Option Bytes
  validatorSetChanges : Option (List ValidatorSetChange)
  equivocationEvidence : Option (List EquivocationEvidence)
  deriving DecidableEq

/-- The three optional fields are left out when they are empty. -/
def BlockBody.codec : Codec BlockBody :=
  (SymbolicTransition.codec.list.pair <| Codec.u32.pair <| TensionValue.codec.pair <|
    ((Codec.bytes 32).pair Codec.bool).list.pair <| Codec.blob.skipNone.pair <|
    ValidatorSetChange.codec.list.skipNone.pair EquivocationEvidence.codec.list.skipNone).iso
    (fun p => ⟨p.1, p.2.1, p.2.2.1, p.2.2.2.1, p.2.2.2.2.1, p.2.2.2.2.2.1, p.2.2.2.2.2.2⟩)
    (fun b => (b.transitions, b.transitionCount, b.totalTensionDelta, b.constraintSatisfaction,
      b.genesisConsensusParams, b.validatorSetChanges, b.equivocationEvidence))
    (fun _ => rfl) (fun _ => rfl)

/-- All three optional fields are there. -/
def BlockBody.AllPresent (b : BlockBody) : Prop :=
  b.genesisConsensusParams.isSome ∧ b.validatorSetChanges.isSome ∧ b.equivocationEvidence.isSome

@[simp] theorem BlockBody.codec_complete (b : BlockBody) :
    codec.Complete b ↔ b.AllPresent := by
  simp [codec, AllPresent, Option.isSome_iff_exists]

structure Block where
  header : BlockHeader
  body : BlockBody
  receipts : List CausalReceipt
  causalDelta : CausalGraphDelta
  proof : CausalProof
  governance : GovernanceSnapshot
  deriving DecidableEq

def Block.codec : Codec Block :=
  (BlockHeader.codec.pair <| BlockBody.codec.pair <| CausalReceipt.codec.list.pair <|
    CausalGraphDelta.codec.pair <| CausalProof.codec.pair GovernanceSnapshot.codec).iso
    (fun p => ⟨p.1, p.2.1, p.2.2.1, p.2.2.2.1, p.2.2.2.2.1, p.2.2.2.2.2⟩)
    (fun b => (b.header, b.body, b.receipts, b.causalDelta, b.proof, b.governance))
    (fun _ => rfl) (fun _ => rfl)

@[simp] theorem Block.codec_complete (b : Block) : codec.Complete b ↔ b.body.AllPresent := by
  simp [codec]

/-- Format only. -/
def Block.isStructurallyValid (self : Block) : Bool :=
  if self.header.height = 0 && self.header.parentId ≠ zeroHash then false
  else if self.header.height > 0 && self.header.parentId = zeroHash then false
  else if self.header.mfidelSeal ≠ MfidelAtomicSeal.fromHeight self.header.height then false
  else if self.body.transitions.length ≠ self.body.transitionCount.toNat then false
  else if self.header.height > 0 && self.body.genesisConsensusParams.isSome then false
  else if !self.receipts.isEmpty && self.receipts.length ≠ self.body.transitions.length then false
  else if !isSupportedBlockVersion self.header.version then false
  else true

end Sccgub
