import Mathlib
import Sccgub.Types.Block
import Sccgub.Consensus.Safety

/-!
# Network messages

Peers exchange bincode.  `toBytes` and `fromBytes` are the codec of the message
enumeration, and everything a message may carry is written in full with one
exception: a block body whose optional fields are empty leaves them out, while
the decoder goes on to read a tag for each.  A message therefore comes back
exactly when every block it carries has all three fields
(`fromBytes_toBytes_iff`).
-/

namespace Sccgub

open Bincode Safety

def VoteType.codec : Codec VoteType :=
  Codec.fieldless (fun | 0 => some prevote | 1 => some precommit | 2 => some nil | _ => none)
    (fun | prevote => 0 | precommit => 1 | nil => 2) (by intro t; cases t <;> rfl)

@[simp] theorem VoteType.codec_complete (t : VoteType) : codec.Complete t :=
  Codec.fieldless_complete t

def Vote.codec : Codec Vote :=
  ((Codec.bytes 32).pair <| (Codec.bytes 32).pair <| Codec.u64.pair <| Codec.u32.pair <|
    VoteType.codec.pair Codec.blob).iso
    (fun p => ⟨p.1, p.2.1, p.2.2.1, p.2.2.2.1, p.2.2.2.2.1, p.2.2.2.2.2⟩)
    (fun v => (v.validatorId, v.blockHash, v.height, v.round, v.voteType, v.signature))
    (fun _ => rfl) (fun _ => rfl)

@[simp] theorem Vote.codec_complete (v : Vote) : codec.Complete v := by simp [codec]

def Safety.SafetyCertificate.codec : Codec SafetyCertificate :=
  ((Codec.bytes 32).pair <| Codec.u64.pair <| Codec.u64.pair <| (Codec.bytes 32).pair <|
    Codec.u32.pair <| ((Codec.bytes 32).pair Codec.blob).list.pair <| Codec.u32.pair
    Codec.u32).iso
    (fun p => ⟨p.1, p.2.1, p.2.2.1, p.2.2.2.1, p.2.2.2.2.1, p.2.2.2.2.2.1, p.2.2.2.2.2.2.1,
      p.2.2.2.2.2.2.2⟩)
    (fun c => (c.chainId, c.epoch, c.height, c.blockHash, c.round, c.precommitSignatures,
      c.quorum, c.validatorCount))
    (fun _ => rfl) (fun _ => rfl)

@[simp] theorem Safety.SafetyCertificate.codec_complete (c : SafetyCertificate) :
    codec.Complete c := by simp [codec]

/-! ## Messages -/

structure HelloMessage where
  validatorId : Hash
  chainId : Hash
  currentHeight : UInt64
  finalizedHeight : UInt64
  protocolVersion : UInt32
  epoch : UInt64
  knownPeers : List String
  timestampMs : UInt64
  signature : Bytes
  deriving DecidableEq, Inhabited

def HelloMessage.codec : Codec HelloMessage :=
  ((Codec.bytes 32).pair <| (Codec.bytes 32).pair <| Codec.u64.pair <| Codec.u64.pair <|
    Codec.u32.pair <| Codec.u64.pair <| Codec.string.list.pair <| Codec.u64.pair Codec.blob).iso
    (fun ⟨a, b, c, d, e, f, g, h, i⟩ => ⟨a, b, c, d, e, f, g, h, i⟩)
    (fun ⟨a, b, c, d, e, f, g, h, i⟩ => (a, b, c, d, e, f, g, h, i))
    (fun _ => rfl) (fun _ => rfl)

@[simp] theorem HelloMessage.codec_complete (m : HelloMessage) : codec.Complete m := by
  simp [codec]

structure BlockProposalMessage where
  proposerId : Hash
  block : Block
  round : UInt32
  signature : Bytes
  deriving DecidableEq

def BlockProposalMessage.codec : Codec BlockProposalMessage :=
  ((Codec.bytes 32).pair <| Block.codec.pair <| Codec.u32.pair Codec.blob).iso
    (fun p => ⟨p.1, p.2.1, p.2.2.1, p.2.2.2⟩)
    (fun m => (m.proposerId, m.block, m.round, m.signature)) (fun _ => rfl) (fun _ => rfl)

@[simp] theorem BlockProposalMessage.codec_complete (m : BlockProposalMessage) :
    codec.Complete m ↔ m.block.body.AllPresent := by simp [codec]

structure EquivocationEvidenceMessage where
  voteA : Vote
  voteB : Vote
  epoch : UInt64
  deriving DecidableEq, Inhabited

def EquivocationEvidenceMessage.codec : Codec EquivocationEvidenceMessage :=
  (Vote.codec.pair <| Vote.codec.pair Codec.u64).iso (fun p => ⟨p.1, p.2.1, p.2.2⟩)
    (fun m => (m.voteA, m.voteB, m.epoch)) (fun _ => rfl) (fun _ => rfl)

@[simp] theorem EquivocationEvidenceMessage.codec_complete (m : EquivocationEvidenceMessage) :
    codec.Complete m := by simp [codec]

structure TransactionGossipMessage where
  senderId : Hash
  transaction : SymbolicTransition
  deriving DecidableEq

def TransactionGossipMessage.codec : Codec TransactionGossipMessage :=
  ((Codec.bytes 32).pair SymbolicTransition.codec).iso (fun p => ⟨p.1, p.2⟩)
    (fun m => (m.senderId, m.transaction)) (fun _ => rfl) (fun _ => rfl)

@[simp] theorem TransactionGossipMessage.codec_complete (m : TransactionGossipMessage) :
    codec.Complete m := by simp [codec]

structure BlockRequestMessage where
  requesterId : Hash
  height : UInt64
  deriving DecidableEq, Inhabited

def BlockRequestMessage.codec : Codec BlockRequestMessage :=
  ((Codec.bytes 32).pair Codec.u64).iso (fun p => ⟨p.1, p.2⟩)
    (fun m => (m.requesterId, m.height)) (fun _ => rfl) (fun _ => rfl)

@[simp] theorem BlockRequestMessage.codec_complete (m : BlockRequestMessage) :
    codec.Complete m := by simp [codec]

structure BlockResponseMessage where
  responderId : Hash
  block : Option Block
  height : UInt64
  deriving DecidableEq

def BlockResponseMessage.codec : Codec BlockResponseMessage :=
  ((Codec.bytes 32).pair <| Block.codec.option.pair Codec.u64).iso (fun p => ⟨p.1, p.2.1, p.2.2⟩)
    (fun m => (m.responderId, m.block, m.height)) (fun _ => rfl) (fun _ => rfl)

@[simp] theorem BlockResponseMessage.codec_complete (m : BlockResponseMessage) :
    codec.Complete m ↔ ∀ b, m.block = some b → b.body.AllPresent := by simp [codec]

structure LawSyncMessage where
  validatorId : Hash
  height : UInt64
  lawSetHash : Hash
  protocolVersion : UInt32
  signature : Bytes
  deriving DecidableEq, Inhabited

def LawSyncMessage.codec : Codec LawSyncMessage :=
  ((Codec.bytes 32).pair <| Codec.u64.pair <| (Codec.bytes 32).pair <| Codec.u32.pair
    Codec.blob).iso
    (fun p => ⟨p.1, p.2.1, p.2.2.1, p.2.2.2.1, p.2.2.2.2⟩)
    (fun m => (m.validatorId, m.height, m.lawSetHash, m.protocolVersion, m.signature))
    (fun _ => rfl) (fun _ => rfl)

@[simp] theorem LawSyncMessage.codec_complete (m : LawSyncMessage) : codec.Complete m := by
  simp [codec]

structure HeartbeatMessage where
  validatorId : Hash
  currentHeight : UInt64
  protocolVersion : UInt32
  epoch : UInt64
  timestampMs : UInt64
  deriving DecidableEq, Inhabited

def HeartbeatMessage.codec : Codec HeartbeatMessage :=
  ((Codec.bytes 32).pair <| Codec.u64.pair <| Codec.u32.pair <| Codec.u64.pair Codec.u64).iso
    (fun p => ⟨p.1, p.2.1, p.2.2.1, p.2.2.2.1, p.2.2.2.2⟩)
    (fun m => (m.validatorId, m.currentHeight, m.protocolVersion, m.epoch, m.timestampMs))
    (fun _ => rfl) (fun _ => rfl)

@[simp] theorem HeartbeatMessage.codec_complete (m : HeartbeatMessage) : codec.Complete m := by
  simp [codec]

inductive NetworkMessage where
  | hello (m : HelloMessage)
  | blockProposal (m : BlockProposalMessage)
  | consensusVote (m : Vote)
  | equivocationEvidence (m : EquivocationEvidenceMessage)
  | transactionGossip (m : TransactionGossipMessage)
  | blockRequest (m : BlockRequestMessage)
  | blockResponse (m : BlockResponseMessage)
  | lawSync (m : LawSyncMessage)
  | finalityCertificate (m : SafetyCertificate)
  | heartbeat (m : HeartbeatMessage)
  deriving DecidableEq

namespace NetworkMessage

def codec : Codec NetworkMessage :=
  (Codec.enum (.cons HelloMessage.codec <| .cons BlockProposalMessage.codec <|
    .cons Vote.codec <| .cons EquivocationEvidenceMessage.codec <|
    .cons TransactionGossipMessage.codec <| .cons BlockRequestMessage.codec <|
    .cons BlockResponseMessage.codec <| .cons LawSyncMessage.codec <|
    .cons SafetyCertificate.codec <| .last HeartbeatMessage.codec)).iso
    (fun
      | .inl m => hello m
      | .inr (.inl m) => blockProposal m
      | .inr (.inr (.inl m)) => consensusVote m
      | .inr (.inr (.inr (.inl m))) => equivocationEvidence m
      | .inr (.inr (.inr (.inr (.inl m)))) => transactionGossip m
      | .inr (.inr (.inr (.inr (.inr (.inl m))))) => blockRequest m
      | .inr (.inr (.inr (.inr (.inr (.inr (.inl m)))))) => blockResponse m
      | .inr (.inr (.inr (.inr (.inr (.inr (.inr (.inl m))))))) => lawSync m
      | .inr (.inr (.inr (.inr (.inr (.inr (.inr (.inr (.inl m)))))))) => finalityCertificate m
      | .inr (.inr (.inr (.inr (.inr (.inr (.inr (.inr (.inr m)))))))) => heartbeat m)
    (fun
      | hello m => .inl m
      | blockProposal m => .inr (.inl m)
      | consensusVote m => .inr (.inr (.inl m))
      | equivocationEvidence m => .inr (.inr (.inr (.inl m)))
      | transactionGossip m => .inr (.inr (.inr (.inr (.inl m))))
      | blockRequest m => .inr (.inr (.inr (.inr (.inr (.inl m)))))
      | blockResponse m => .inr (.inr (.inr (.inr (.inr (.inr (.inl m))))))
      | lawSync m => .inr (.inr (.inr (.inr (.inr (.inr (.inr (.inl m)))))))
      | finalityCertificate m => .inr (.inr (.inr (.inr (.inr (.inr (.inr (.inr (.inl m))))))))
      | heartbeat m => .inr (.inr (.inr (.inr (.inr (.inr (.inr (.inr (.inr m)))))))))
    (by intro m; cases m <;> rfl)
    (by rintro (_ | _ | _ | _ | _ | _ | _ | _ | _ | _) <;> rfl)

def toBytes (self : NetworkMessage) : Bytes := canonicalBytes codec self

/-- `None` where the deserializer reports an error. -/
def fromBytes (bytes : Bytes) : Option NetworkMessage := codec.ofBytes bytes

/-- The blocks a message carries. -/
def blocks : NetworkMessage → List Block
  | blockProposal m => [m.block]
  | blockResponse m => m.block.toList
  | _ => []

theorem codec_complete (m : NetworkMessage) :
    codec.Complete m ↔ ∀ b ∈ m.blocks, b.body.AllPresent := by
  cases m <;> simp [codec, blocks]

/-- A message comes back from its bytes exactly when every block it carries has
all three optional body fields, and on such messages the bytes determine the
message. -/
theorem fromBytes_toBytes_iff (m : NetworkMessage) (hfit : codec.Fits m) :
    (fromBytes (toBytes m) = some m ↔ ∀ b ∈ m.blocks, b.body.AllPresent) ∧
      ∀ m' : NetworkMessage, codec.Fits m' → (∀ b ∈ m.blocks, b.body.AllPresent) →
        (∀ b ∈ m'.blocks, b.body.AllPresent) → toBytes m = toBytes m' → m = m' := by
  refine ⟨?_, ?_⟩
  · rw [← codec_complete]
    exact codec.ofBytes_enc_iff hfit
  · intro m' hfit' hm hm' hbytes
    exact codec.enc_inj hfit hfit' ((codec_complete m).mpr hm) ((codec_complete m').mpr hm') hbytes

/-- A response with an otherwise empty block whose optional body fields are
given. -/
def bareResponse (params : Option Bytes) (changes : Option (List ValidatorSetChange))
    (evidence : Option (List EquivocationEvidence)) : NetworkMessage :=
  .blockResponse
    { responderId := zeroHash
      block := some
        { header := { (default : BlockHeader) with height := 1, version := 2 }
          body :=
            { transitions := []
              transitionCount := 0
              totalTensionDelta := .zero
              constraintSatisfaction := []
              genesisConsensusParams := params
              validatorSetChanges := changes
              equivocationEvidence := evidence }
          receipts := []
          causalDelta := ⟨[], [], zeroHash⟩
          proof :=
            { blockHeight := 1
              transitionsProven := []
              phiTraversalLog := ⟨[], true, 13⟩
              governanceSnapshotHash := zeroHash
              tensionBefore := .zero
              tensionAfter := .zero
              constraintResults := []
              recursionDepth := 0
              validatorSignature := []
              causalHash := zeroHash }
          governance := ⟨zeroHash, 0, false, .deterministic, {}, {}⟩ }
      height := 1 }

/-- An ordinary block, with none of the optional fields, does not come back;
and an empty list of parameters and an empty list of changes are written alike. -/
theorem bareResponse_lost :
    fromBytes (toBytes (bareResponse none none none)) ≠ some (bareResponse none none none) ∧
      toBytes (bareResponse (some []) none none) = toBytes (bareResponse none (some []) none) ∧
      bareResponse (some []) none none ≠ bareResponse none (some []) none := by
  refine ⟨?_, rfl, by simp [bareResponse]⟩
  intro h
  have hcomplete := (codec_complete _).mp (codec.complete_of_ofBytes h)
  simp [bareResponse, blocks, BlockBody.AllPresent] at hcomplete

theorem fromBytes_toBytes_iff_bareResponse :
    fromBytes (toBytes (bareResponse (some []) (some []) (some []))) =
      some (bareResponse (some []) (some []) (some [])) :=
  (fromBytes_toBytes_iff _ (by
    simp [codec, bareResponse, Variants.cons, BlockResponseMessage.codec, Block.codec,
      BlockHeader.codec, CausalTimestamp.codec, BlockBody.codec, CausalGraphDelta.codec,
      CausalProof.codec, PhiTraversalLog.codec, GovernanceSnapshot.codec, FinalityMode.codec,
      GovernanceLimitsSnapshot.codec, FinalityConfigSnapshot.codec, default,
      instInhabitedBlockHeader.default, instInhabitedCausalTimestamp.default,
      instInhabitedBoundedVectorClock.default])).1.mpr
    (by simp [bareResponse, blocks, BlockBody.AllPresent])

end NetworkMessage

end Sccgub
