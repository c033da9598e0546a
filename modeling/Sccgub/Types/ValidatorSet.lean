import Mathlib
import Sccgub.Types.Agent

/-!
# Validator set records, changes and equivocation evidence

The on-chain validator set and the events that mutate it.  A change is signed
by a quorum over `canonicalChangeBytes`, the encoding of its kind and proposal
height; `changeId` is the hash of the same bytes, so that for the changes at
hand it pins down kind and height (`canonicalChangeBytes_inj`).  The quorum
signatures stand outside of both.

The set itself is an ordered vector.  `ValidatorSet.new` rejects duplicate
agents and duplicate keys, but a set read back from bytes has not been through
it, so nothing below assumes the order or the uniqueness.
-/

namespace Sccgub

open Bincode FixedWidth

abbrev Ed25519PublicKey := Hash
abbrev Ed25519Signature := Bytes

/-! ## Records -/

structure ValidatorRecord where
  agentId : AgentId
  validatorId : Ed25519PublicKey
  mfidelSeal : MfidelAtomicSeal
  votingPower : UInt64
  activeFrom : UInt64
  activeUntil : Option UInt64
  deriving DecidableEq, Inhabited

def ValidatorRecord.isActiveAt (self : ValidatorRecord) (height : UInt64) : Bool :=
  if self.votingPower = 0 then false
  else if height < self.activeFrom then false
  else
    match self.activeUntil with
    | some u => height ≤ u
    | none => true

def ValidatorRecord.codec : Codec ValidatorRecord :=
  (Codec.bytes 32 |>.pair <| Codec.bytes 32 |>.pair <| MfidelAtomicSeal.codec.pair <|
    Codec.u64.pair <| Codec.u64.pair Codec.u64.option).iso
    (fun p => ⟨p.1, p.2.1, p.2.2.1, p.2.2.2.1, p.2.2.2.2.1, p.2.2.2.2.2⟩)
    (fun r => (r.agentId, r.validatorId, r.mfidelSeal, r.votingPower, r.activeFrom,
      r.activeUntil))
    (fun _ => rfl) (fun _ => rfl)

@[simp] theorem ValidatorRecord.codec_complete (r : ValidatorRecord) : codec.Complete r := by
  simp [codec]

@[simp] theorem ValidatorRecord.codec_fits (r : ValidatorRecord) : codec.Fits r := by
  simp [codec]

structure ValidatorSet where
  records : List ValidatorRecord
  deriving DecidableEq, Inhabited

inductive ValidatorSetError where
  | duplicateAgentId (id : AgentId)
  | duplicateValidatorId (id : Ed25519PublicKey)
  deriving DecidableEq

namespace ValidatorSet

/-- Sorts by agent and rejects duplicates, agents first. -/
def new (records : List ValidatorRecord) : Except ValidatorSetError ValidatorSet :=
  let records := sortByHash ValidatorRecord.agentId records
  match firstAdjacentDuplicate (records.map ValidatorRecord.agentId) with
  | some id => .error (.duplicateAgentId id)
  | none =>
      match firstAdjacentDuplicate (sortByHash id (records.map ValidatorRecord.validatorId)) with
      | some id => .error (.duplicateValidatorId id)
      | none => .ok ⟨records⟩

def activeAt (self : ValidatorSet) (height : UInt64) : List ValidatorRecord :=
  self.records.filter (·.isActiveAt height)

/-- Total power of the active records.  The source sums in `u128`, which more
than `2 ^ 64` records would be needed to fill. -/
def totalPowerAt (self : ValidatorSet) (height : UInt64) : Nat :=
  ((self.records.filter (·.isActiveAt height)).map (·.votingPower.toNat)).sum

def quorumPowerAt (self : ValidatorSet) (height : UInt64) : Nat :=
  self.totalPowerAt height * 2 / 3 + 1

def findByAgent (self : ValidatorSet) (agentId : AgentId) : Option ValidatorRecord :=
  self.records.find? fun r => r.agentId = agentId

def findActiveByValidatorId (self : ValidatorSet) (validatorId : Ed25519PublicKey)
    (height : UInt64) : Option ValidatorRecord :=
  self.records.find? fun r => decide (r.validatorId = validatorId) && r.isActiveAt height

def codec : Codec ValidatorSet :=
  ValidatorRecord.codec.list.iso ValidatorSet.mk records (fun _ => rfl) (fun _ => rfl)

@[simp] theorem codec_complete (s : ValidatorSet) : codec.Complete s := by simp [codec]

theorem findActiveByValidatorId_spec {set : ValidatorSet} {id : Ed25519PublicKey}
    {height : UInt64} {r : ValidatorRecord}
    (h : set.findActiveByValidatorId id height = some r) :
    r ∈ set.records ∧ r.validatorId = id ∧ r.isActiveAt height = true := by
  obtain ⟨hp, -⟩ := List.find?_eq_some_iff_append.mp h
  simp only [Bool.and_eq_true, decide_eq_true_eq] at hp
  exact ⟨List.mem_of_find?_eq_some h, hp⟩

end ValidatorSet

/-! ## Changes -/

inductive RemovalReason where
  | voluntary
  | equivocation
  | inactivity
  | governance
  deriving DecidableEq, Inhabited

def RemovalReason.codec : Codec RemovalReason :=
  Codec.fieldless
    (fun | 0 => some voluntary | 1 => some equivocation | 2 => some inactivity
         | 3 => some governance | _ => none)
    (fun | voluntary => 0 | equivocation => 1 | inactivity => 2 | governance => 3)
    (by intro r; cases r <;> rfl)

@[simp] theorem RemovalReason.codec_complete (r : RemovalReason) : codec.Complete r :=
  Codec.fieldless_complete r

@[simp] theorem RemovalReason.codec_fits (r : RemovalReason) : codec.Fits r := by
  cases r <;> simp [codec]

inductive ValidatorSetChangeKind where
  | add (record : ValidatorRecord)
  | remove (agentId : AgentId) (reason : RemovalReason) (effectiveHeight : UInt64)
  | rotatePower (agentId : AgentId) (newVotingPower : UInt64) (effectiveHeight : UInt64)
  | rotateKey (agentId : AgentId) (oldValidatorId newValidatorId : Ed25519PublicKey)
      (effectiveHeight : UInt64)
  deriving DecidableEq, Inhabited

namespace ValidatorSetChangeKind

def effectiveHeight : ValidatorSetChangeKind → UInt64
  | add r => r.activeFrom
  | remove _ _ h => h
  | rotatePower _ _ h => h
  | rotateKey _ _ _ h => h

def targetAgentId : ValidatorSetChangeKind → AgentId
  | add r => r.agentId
  | remove a _ _ => a
  | rotatePower a _ _ => a
  | rotateKey a _ _ _ => a

/-- `matches!(kind, ValidatorSetChangeKind::Remove { .. })`. -/
def isRemove : ValidatorSetChangeKind → Bool
  | remove _ _ _ => true
  | _ => false

def variants : Variants (ValidatorRecord ⊕ (AgentId × RemovalReason × UInt64) ⊕
    (AgentId × UInt64 × UInt64) ⊕ (AgentId × Ed25519PublicKey × Ed25519PublicKey × UInt64)) :=
  .cons ValidatorRecord.codec <|
  .cons ((Codec.bytes 32).pair <| RemovalReason.codec.pair Codec.u64) <|
  .cons ((Codec.bytes 32).pair <| Codec.u64.pair Codec.u64) <|
  .last ((Codec.bytes 32).pair <| (Codec.bytes 32).pair <| (Codec.bytes 32).pair Codec.u64)

def codec : Codec ValidatorSetChangeKind :=
  (Codec.enum variants).iso
    (fun
      | .inl r => add r
      | .inr (.inl p) => remove p.1 p.2.1 p.2.2
      | .inr (.inr (.inl p)) => rotatePower p.1 p.2.1 p.2.2
      | .inr (.inr (.inr p)) => rotateKey p.1 p.2.1 p.2.2.1 p.2.2.2)
    (fun
      | add r => .inl r
      | remove a r h => .inr (.inl (a, r, h))
      | rotatePower a p h => .inr (.inr (.inl (a, p, h)))
      | rotateKey a o n h => .inr (.inr (.inr (a, o, n, h))))
    (by intro k; cases k <;> rfl)
    (by rintro (_ | _ | _ | _) <;> rfl)

@[simp] theorem codec_complete (k : ValidatorSetChangeKind) : codec.Complete k := by
  cases k <;> simp [codec, variants]

@[simp] theorem codec_fits (k : ValidatorSetChangeKind) : codec.Fits k := by
  cases k <;> simp [codec, variants, Variants.cons, Variants.last]

end ValidatorSetChangeKind

structure ValidatorSetChange where
  changeId : Hash
  kind : ValidatorSetChangeKind
  proposedAt : UInt64
  quorumSignatures : List (Ed25519PublicKey × Ed25519Signature)
  deriving DecidableEq, Inhabited

namespace ValidatorSetChange

/-- The bytes each quorum participant signs. -/
def canonicalChangeBytes (kind : ValidatorSetChangeKind) (proposedAt : UInt64) : Bytes :=
  (ValidatorSetChangeKind.codec.pair Codec.u64).enc (kind, proposedAt)

theorem canonicalChangeBytes_inj {k k' : ValidatorSetChangeKind} {h h' : UInt64}
    (heq : canonicalChangeBytes k h = canonicalChangeBytes k' h') : k = k' ∧ h = h' := by
  have hpair : (k, h) = (k', h') :=
    (ValidatorSetChangeKind.codec.pair Codec.u64).enc_inj (by simp) (by simp) (by simp) (by simp)
      heq
  exact Prod.mk.inj hpair

section

variable [Crypto]

def computeChangeId (kind : ValidatorSetChangeKind) (proposedAt : UInt64) : Hash :=
  Crypto.blake3 (canonicalChangeBytes kind proposedAt)

def changeIdIsConsistent (self : ValidatorSetChange) : Bool :=
  self.changeId = computeChangeId self.kind self.proposedAt

end

def codec : Codec ValidatorSetChange :=
  ((Codec.bytes 32).pair <| ValidatorSetChangeKind.codec.pair <| Codec.u64.pair
    ((Codec.bytes 32).pair Codec.blob).list).iso
    (fun p => ⟨p.1, p.2.1, p.2.2.1, p.2.2.2⟩)
    (fun c => (c.changeId, c.kind, c.proposedAt, c.quorumSignatures))
    (fun _ => rfl) (fun _ => rfl)

@[simp] theorem codec_complete (c : ValidatorSetChange) : codec.Complete c := by simp [codec]

end ValidatorSetChange

/-! ## Equivocation evidence -/

inductive EquivocationVoteType where
  | prevote
  | precommit
  deriving DecidableEq, Inhabited

def EquivocationVoteType.codec : Codec EquivocationVoteType :=
  Codec.fieldless (fun | 0 => some prevote | 1 => some precommit | _ => none)
    (fun | prevote => 0 | precommit => 1) (by intro t; cases t <;> rfl)

@[simp] theorem EquivocationVoteType.codec_complete (t : EquivocationVoteType) :
    codec.Complete t := Codec.fieldless_complete t

/-- The vote a piece of evidence is made of.  The key is the identity: there is
no map from identities to keys at this layer. -/
structure EquivocationVote where
  validatorId : Ed25519PublicKey
  blockHash : Hash
  height : UInt64
  round : UInt32
  voteType : EquivocationVoteType
  signature : Ed25519Signature
  deriving DecidableEq, Inhabited

def EquivocationVote.codec : Codec EquivocationVote :=
  ((Codec.bytes 32).pair <| (Codec.bytes 32).pair <| Codec.u64.pair <| Codec.u32.pair <|
    EquivocationVoteType.codec.pair Codec.blob).iso
    (fun p => ⟨p.1, p.2.1, p.2.2.1, p.2.2.2.1, p.2.2.2.2.1, p.2.2.2.2.2⟩)
    (fun v => (v.validatorId, v.blockHash, v.height, v.round, v.voteType, v.signature))
    (fun _ => rfl) (fun _ => rfl)

@[simp] theorem EquivocationVote.codec_complete (v : EquivocationVote) : codec.Complete v := by
  simp [codec]

structure EquivocationEvidence where
  voteA : EquivocationVote
  voteB : EquivocationVote
  deriving DecidableEq, Inhabited

namespace EquivocationEvidence

/-- The two votes, ordered by signature bytes. -/
def new (v1 v2 : EquivocationVote) : EquivocationEvidence :=
  if (compare v1.signature v2.signature).isLE then ⟨v1, v2⟩ else ⟨v2, v1⟩

def isStructurallyEquivocation (self : EquivocationEvidence) : Bool :=
  self.voteA.validatorId = self.voteB.validatorId
    && self.voteA.height = self.voteB.height
    && self.voteA.round = self.voteB.round
    && self.voteA.voteType = self.voteB.voteType
    && self.voteA.blockHash ≠ self.voteB.blockHash
    && self.voteA.signature ≠ self.voteB.signature

def codec : Codec EquivocationEvidence :=
  (EquivocationVote.codec.pair EquivocationVote.codec).iso (fun p => ⟨p.1, p.2⟩)
    (fun e => (e.voteA, e.voteB)) (fun _ => rfl) (fun _ => rfl)

@[simp] theorem codec_complete (e : EquivocationEvidence) : codec.Complete e := by simp [codec]

end EquivocationEvidence

end Sccgub
