import Mathlib
import Sccgub.Types.Agent

/-!
# Transitions

The governed transition with everything it carries: actor, intent, pre- and
postconditions, payload, causal chain, the WH binding declared at submission,
nonce and signature.  Timestamps are causal, with a bounded vector clock.

Every type comes with its wire codec and the fact that the codec leaves
nothing out.
-/

namespace Sccgub

open Bincode FixedWidth

abbrev NodeId := Hash
abbrev ObjectId := Hash
abbrev MerkleRoot := Hash

/-! ## Causal timestamps -/

structure VectorClockEntry where
  counter : UInt64
  lastActiveEpoch : UInt64
  deriving DecidableEq, Inhabited

structure BoundedVectorClock where
  entries : List (NodeId × VectorClockEntry)
  maxSize : UInt32
  deriving DecidableEq, Inhabited

namespace BoundedVectorClock

/-- Keeps the most recently active entries. -/
def prune (self : BoundedVectorClock) : BoundedVectorClock :=
  if self.entries.length ≤ self.maxSize.toNat then self
  else
    { self with
      entries := (self.entries.insertionSort fun a b =>
        b.2.lastActiveEpoch ≤ a.2.lastActiveEpoch).take self.maxSize.toNat }

/-- Counts up the entry of a node, which is added when it is not there. -/
def incrementEntries (nodeId : NodeId) (epoch : UInt64) :
    List (NodeId × VectorClockEntry) → List (NodeId × VectorClockEntry)
  | [] => [(nodeId, ⟨1, epoch⟩)]
  | (id, entry) :: rest =>
      if id = nodeId then (id, ⟨saturatingAdd entry.counter 1, epoch⟩) :: rest
      else (id, entry) :: incrementEntries nodeId epoch rest

def increment (self : BoundedVectorClock) (nodeId : NodeId) (epoch : UInt64) :
    BoundedVectorClock :=
  let next := { self with entries := incrementEntries nodeId epoch self.entries }
  if next.entries.length > next.maxSize.toNat then next.prune else next

end BoundedVectorClock

structure CausalTimestamp where
  lamportCounter : UInt64
  vectorClock : BoundedVectorClock
  causalDepth : UInt32
  wallHint : UInt64
  parentTimestampHash : Hash
  deriving DecidableEq, Inhabited

namespace CausalTimestamp

def genesis : CausalTimestamp where
  lamportCounter := 0
  vectorClock := ⟨[], 256⟩
  causalDepth := 0
  wallHint := 0
  parentTimestampHash := zeroHash

def successor (self : CausalTimestamp) (nodeId : NodeId) (parentHash : Hash)
    (wallHint : UInt64) : CausalTimestamp :=
  let epoch := saturatingAdd self.lamportCounter 1
  { lamportCounter := epoch
    vectorClock := self.vectorClock.increment nodeId epoch
    causalDepth := if self.causalDepth = 0xFFFFFFFF then self.causalDepth
      else self.causalDepth + 1
    wallHint
    parentTimestampHash := parentHash }

def codec : Codec CausalTimestamp :=
  (Codec.u64.pair <| (((Codec.bytes 32).pair (Codec.u64.pair Codec.u64)).list.pair Codec.u32).pair <|
    Codec.u32.pair <| Codec.u64.pair (Codec.bytes 32)).iso
    (fun p => ⟨p.1, ⟨p.2.1.1.map fun e => (e.1, ⟨e.2.1, e.2.2⟩), p.2.1.2⟩, p.2.2.1, p.2.2.2.1,
      p.2.2.2.2⟩)
    (fun t => (t.lamportCounter,
      (t.vectorClock.entries.map fun e => (e.1, e.2.counter, e.2.lastActiveEpoch),
        t.vectorClock.maxSize),
      t.causalDepth, t.wallHint, t.parentTimestampHash))
    (by
      rintro ⟨lamport, ⟨entries, maxSize⟩, depth, hint, parent⟩
      simp [Function.comp_def])
    (by
      rintro ⟨lamport, ⟨entries, maxSize⟩, depth, hint, parent⟩
      simp [Function.comp_def])

@[simp] theorem codec_complete (t : CausalTimestamp) : codec.Complete t := by simp [codec]

end CausalTimestamp

/-! ## Intent and WH binding -/

inductive TransitionKind where
  | stateWrite
  | stateRead
  | governanceUpdate
  | normProposal
  | constraintAddition
  | agentRegistration
  | disputeResolution
  | assetTransfer
  | contractDeploy
  | contractInvoke
  deriving DecidableEq, Inhabited

namespace TransitionKind

def ofIndex : Nat → Option TransitionKind
  | 0 => some stateWrite
  | 1 => some stateRead
  | 2 => some governanceUpdate
  | 3 => some normProposal
  | 4 => some constraintAddition
  | 5 => some agentRegistration
  | 6 => some disputeResolution
  | 7 => some assetTransfer
  | 8 => some contractDeploy
  | 9 => some contractInvoke
  | _ => none

/-- The discriminant, as in `kind as u8`. -/
def index : TransitionKind → Nat
  | stateWrite => 0
  | stateRead => 1
  | governanceUpdate => 2
  | normProposal => 3
  | constraintAddition => 4
  | agentRegistration => 5
  | disputeResolution => 6
  | assetTransfer => 7
  | contractDeploy => 8
  | contractInvoke => 9

theorem ofIndex_index (k : TransitionKind) : ofIndex k.index = some k := by cases k <;> rfl

theorem index_injective : Function.Injective index := fun a b h =>
  Option.some_inj.mp (by rw [← ofIndex_index a, ← ofIndex_index b, h])

def codec : Codec TransitionKind := Codec.fieldless ofIndex index ofIndex_index

@[simp] theorem codec_complete (k : TransitionKind) : codec.Complete k :=
  Codec.fieldless_complete k

end TransitionKind

structure TransitionIntent where
  kind : TransitionKind
  target : SymbolAddress
  declaredPurpose : String
  deriving DecidableEq, Inhabited

def TransitionIntent.codec : Codec TransitionIntent :=
  (TransitionKind.codec.pair <| Codec.blob.pair Codec.string).iso
    (fun p => ⟨p.1, p.2.1, p.2.2⟩) (fun i => (i.kind, i.target, i.declaredPurpose))
    (fun _ => rfl) (fun _ => rfl)

@[simp] theorem TransitionIntent.codec_complete (i : TransitionIntent) : codec.Complete i := by
  simp [codec]

structure ConstraintSatisfaction where
  constraintId : ConstraintId
  satisfied : Bool
  evidence : Option String
  deriving DecidableEq, Inhabited

def ConstraintSatisfaction.codec : Codec ConstraintSatisfaction :=
  ((Codec.bytes 32).pair <| Codec.bool.pair Codec.string.option).iso
    (fun p => ⟨p.1, p.2.1, p.2.2⟩) (fun c => (c.constraintId, c.satisfied, c.evidence))
    (fun _ => rfl) (fun _ => rfl)

@[simp] theorem ConstraintSatisfaction.codec_complete (c : ConstraintSatisfaction) :
    codec.Complete c := by simp [codec]

structure CausalJustification where
  invokingRule : RuleId
  precedenceLevel : PrecedenceLevel
  causalAncestors : List TransitionId
  constraintProof : List ConstraintSatisfaction
  deriving DecidableEq, Inhabited

def CausalJustification.codec : Codec CausalJustification :=
  ((Codec.bytes 32).pair <| PrecedenceLevel.codec.pair <| (Codec.bytes 32).list.pair
    ConstraintSatisfaction.codec.list).iso
    (fun p => ⟨p.1, p.2.1, p.2.2.1, p.2.2.2⟩)
    (fun j => (j.invokingRule, j.precedenceLevel, j.causalAncestors, j.constraintProof))
    (fun _ => rfl) (fun _ => rfl)

@[simp] theorem CausalJustification.codec_complete (j : CausalJustification) :
    codec.Complete j := by simp [codec]

inductive TransitionMechanism where
  | directStateWrite
  | contractExecution (contractId : Hash)
  | governanceAction
  deriving DecidableEq, Inhabited

def TransitionMechanism.codec : Codec TransitionMechanism :=
  (Codec.enum (.cons Codec.unit <| .cons (Codec.bytes 32) <| .last Codec.unit)).iso
    (fun
      | .inl () => directStateWrite
      | .inr (.inl id) => contractExecution id
      | .inr (.inr ()) => governanceAction)
    (fun
      | directStateWrite => .inl ()
      | contractExecution id => .inr (.inl id)
      | governanceAction => .inr (.inr ()))
    (by intro m; cases m <;> rfl)
    (by rintro (_ | _ | _) <;> rfl)

@[simp] theorem TransitionMechanism.codec_complete (m : TransitionMechanism) :
    codec.Complete m := by
  cases m <;> simp [codec]

/-- The WH binding as known at submission. -/
structure WHBindingIntent where
  who : Hash
  when : CausalTimestamp
  «where» : SymbolAddress
  why : CausalJustification
  how : TransitionMechanism
  which : HashSet
  whatDeclared : String
  deriving DecidableEq

def WHBindingIntent.codec : Codec WHBindingIntent :=
  ((Codec.bytes 32).pair <| CausalTimestamp.codec.pair <| Codec.blob.pair <|
    CausalJustification.codec.pair <| TransitionMechanism.codec.pair <| hashSetCodec.pair
    Codec.string).iso
    (fun p => ⟨p.1, p.2.1, p.2.2.1, p.2.2.2.1, p.2.2.2.2.1, p.2.2.2.2.2.1, p.2.2.2.2.2.2⟩)
    (fun w => (w.who, w.when, w.where, w.why, w.how, w.which, w.whatDeclared))
    (fun _ => rfl) (fun _ => rfl)

@[simp] theorem WHBindingIntent.codec_complete (w : WHBindingIntent) : codec.Complete w := by
  simp [codec]

/-! ## Deltas and resolved bindings -/

structure StateWrite where
  address : SymbolAddress
  value : Bytes
  deriving DecidableEq, Inhabited

structure StateDelta where
  writes : List StateWrite
  deletes : List SymbolAddress
  deriving DecidableEq, Inhabited

def StateDelta.codec : Codec StateDelta :=
  (((Codec.blob.pair Codec.blob).iso (fun p => StateWrite.mk p.1 p.2)
    (fun w => (w.address, w.value)) (fun _ => rfl) (fun _ => rfl)).list.pair Codec.blob.list).iso
    (fun p => ⟨p.1, p.2⟩) (fun d => (d.writes, d.deletes)) (fun _ => rfl) (fun _ => rfl)

@[simp] theorem StateDelta.codec_complete (d : StateDelta) : codec.Complete d := by
  simp [codec]

inductive ValidationResult where
  | valid
  | invalid (reason : String)
  deriving DecidableEq, Inhabited

def ValidationResult.codec : Codec ValidationResult :=
  (Codec.enum (.cons Codec.unit <| .last Codec.string)).iso
    (fun | .inl () => valid | .inr r => invalid r)
    (fun | valid => .inl () | invalid r => .inr r)
    (by intro v; cases v <;> rfl) (by rintro (_ | _) <;> rfl)

@[simp] theorem ValidationResult.codec_complete (v : ValidationResult) : codec.Complete v := by
  cases v <;> simp [codec]

structure WHBindingResolved where
  intent : WHBindingIntent
  whatActual : StateDelta
  whether : ValidationResult
  deriving DecidableEq

def WHBindingResolved.codec : Codec WHBindingResolved :=
  (WHBindingIntent.codec.pair <| StateDelta.codec.pair ValidationResult.codec).iso
    (fun p => ⟨p.1, p.2.1, p.2.2⟩) (fun w => (w.intent, w.whatActual, w.whether))
    (fun _ => rfl) (fun _ => rfl)

@[simp] theorem WHBindingResolved.codec_complete (w : WHBindingResolved) : codec.Complete w := by
  simp [codec]

/-! ## Payloads and transitions -/

inductive OperationPayload where
  | write (key : SymbolAddress) (value : Bytes)
  | assetTransfer («from» «to» : AgentId) (amount : I128)
  | registerAgent (publicKey : Hash)
  | proposeNorm (name description : String)
  | deployContract (code : Bytes)
  | invokeContract (contractId : Hash) (method : String) (args : Bytes)
  | noop
  deriving DecidableEq, Inhabited

def OperationPayload.codec : Codec OperationPayload :=
  (Codec.enum (.cons (Codec.blob.pair Codec.blob) <|
    .cons ((Codec.bytes 32).pair <| (Codec.bytes 32).pair I128.decimalCodec) <|
    .cons (Codec.bytes 32) <| .cons (Codec.string.pair Codec.string) <| .cons Codec.blob <|
    .cons ((Codec.bytes 32).pair <| Codec.string.pair Codec.blob) <| .last Codec.unit)).iso
    (fun
      | .inl p => write p.1 p.2
      | .inr (.inl p) => assetTransfer p.1 p.2.1 p.2.2
      | .inr (.inr (.inl k)) => registerAgent k
      | .inr (.inr (.inr (.inl p))) => proposeNorm p.1 p.2
      | .inr (.inr (.inr (.inr (.inl c)))) => deployContract c
      | .inr (.inr (.inr (.inr (.inr (.inl p))))) => invokeContract p.1 p.2.1 p.2.2
      | .inr (.inr (.inr (.inr (.inr (.inr ()))))) => noop)
    (fun
      | write k v => .inl (k, v)
      | assetTransfer f t a => .inr (.inl (f, t, a))
      | registerAgent k => .inr (.inr (.inl k))
      | proposeNorm n d => .inr (.inr (.inr (.inl (n, d))))
      | deployContract c => .inr (.inr (.inr (.inr (.inl c))))
      | invokeContract i m a => .inr (.inr (.inr (.inr (.inr (.inl (i, m, a))))))
      | noop => .inr (.inr (.inr (.inr (.inr (.inr ()))))))
    (by intro p; cases p <;> rfl)
    (by rintro (_ | _ | _ | _ | _ | _ | _) <;> rfl)

@[simp] theorem OperationPayload.codec_complete (p : OperationPayload) : codec.Complete p := by
  cases p <;> simp [codec]

structure Constraint where
  id : ConstraintId
  expression : String
  deriving DecidableEq, Inhabited

def Constraint.codec : Codec Constraint :=
  ((Codec.bytes 32).pair Codec.string).iso (fun p => ⟨p.1, p.2⟩) (fun c => (c.id, c.expression))
    (fun _ => rfl) (fun _ => rfl)

@[simp] theorem Constraint.codec_complete (c : Constraint) : codec.Complete c := by simp [codec]

structure SymbolicTransition where
  txId : TransitionId
  actor : AgentIdentity
  intent : TransitionIntent
  preconditions : List Constraint
  postconditions : List Constraint
  payload : OperationPayload
  causalChain : List TransitionId
  whBindingIntent : WHBindingIntent
  nonce : BitVec 128
  signature : Bytes
  deriving DecidableEq

def SymbolicTransition.codec : Codec SymbolicTransition :=
  ((Codec.bytes 32).pair <| AgentIdentity.codec.pair <| TransitionIntent.codec.pair <|
    Constraint.codec.list.pair <| Constraint.codec.list.pair <| OperationPayload.codec.pair <|
    (Codec.bytes 32).list.pair <| WHBindingIntent.codec.pair <| Codec.u128.pair Codec.blob).iso
    (fun p => ⟨p.1, p.2.1, p.2.2.1, p.2.2.2.1, p.2.2.2.2.1, p.2.2.2.2.2.1, p.2.2.2.2.2.2.1,
      p.2.2.2.2.2.2.2.1, p.2.2.2.2.2.2.2.2.1, p.2.2.2.2.2.2.2.2.2⟩)
    (fun t => (t.txId, t.actor, t.intent, t.preconditions, t.postconditions, t.payload,
      t.causalChain, t.whBindingIntent, t.nonce, t.signature))
    (fun _ => rfl) (fun _ => rfl)

@[simp] theorem SymbolicTransition.codec_complete (t : SymbolicTransition) :
    codec.Complete t := by simp [codec]

end Sccgub
