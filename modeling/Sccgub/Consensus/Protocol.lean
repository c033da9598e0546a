import Mathlib
import Sccgub.Types.Namespace
import Sccgub.Types.ValidatorSet

/-!
# Two-round voting

A `ConsensusRound` collects prevotes and precommits on one block at one height
and round.  Votes are verified at admission: type, height and round, membership
in the round's validator map, no second vote by the same validator, and a
strict signature over `voteSignData`, which binds chain, epoch, block, height,
round and vote type.

`verifyVote_eq_ok` turns the chain of early returns into the conjunction that
later results use; admission changes nothing but the vote map.
-/

namespace Sccgub

open Bincode

inductive ConsensusPhase where
  | propose
  | prevote
  | precommit
  | commit
  | abort
  deriving DecidableEq, Inhabited

inductive VoteType where
  | prevote
  | precommit
  /-- The validator did not receive the proposal in time. -/
  | nil
  deriving DecidableEq, Inhabited

def VoteType.asU8 : VoteType → UInt8
  | prevote => 0
  | precommit => 1
  | nil => 2

def VoteType.debug : VoteType → String
  | prevote => "Prevote"
  | precommit => "Precommit"
  | nil => "Nil"

structure Vote where
  validatorId : Hash
  blockHash : Hash
  height : UInt64
  round : UInt32
  voteType : VoteType
  signature : Bytes
  deriving DecidableEq, Inhabited

/-- Map from validator identities to their verifying keys. -/
abbrev ValidatorKeys := Std.ExtTreeMap Hash Hash

abbrev VoteMap := Std.ExtTreeMap Hash Vote

structure ConsensusRound where
  chainId : Hash
  epoch : UInt64
  blockHash : Hash
  height : UInt64
  round : UInt32
  phase : ConsensusPhase
  prevotes : VoteMap
  precommits : VoteMap
  validatorCount : UInt32
  quorum : UInt32
  maxRounds : UInt32
  validatorSet : ValidatorKeys

inductive ConsensusResult where
  | finalized (blockHash : Hash) (prevoteCount precommitCount : UInt32)
  | nextRound (reason : String)
  | aborted (reason : String)
  deriving DecidableEq

/-- `n.min(u32::MAX as usize) as u32`. -/
def clampU32 (n : Nat) : UInt32 := UInt32.ofNat (min n (2 ^ 32 - 1))

@[simp] theorem toNat_clampU32 (n : Nat) : (clampU32 n).toNat = min n (2 ^ 32 - 1) := by
  rw [clampU32, UInt32.toNat_ofNat', Nat.mod_eq_of_lt]
  omega

/-- The layout that every vote signer and verifier must use. -/
def voteSignDataCodec : Codec (Hash × UInt64 × Hash × UInt64 × UInt32 × UInt8) :=
  (Codec.bytes 32).pair <| Codec.u64.pair <| (Codec.bytes 32).pair <| Codec.u64.pair <|
    Codec.u32.pair Codec.u8

/-- Domain-separated vote data. -/
def voteSignData (chainId : Hash) (epoch : UInt64) (blockHash : Hash) (height : UInt64)
    (round : UInt32) (voteType : VoteType) : Bytes :=
  canonicalBytes voteSignDataCodec (chainId, epoch, blockHash, height, round, voteType.asU8)

theorem voteSignData_length (chainId : Hash) (epoch : UInt64) (blockHash : Hash)
    (height : UInt64) (round : UInt32) (voteType : VoteType) :
    (voteSignData chainId epoch blockHash height round voteType).length = 85 := by
  simp [voteSignData, canonicalBytes, voteSignDataCodec, Codec.u64, Codec.u32, Codec.u8]

namespace ConsensusRound

def new (chainId : Hash) (epoch : UInt64) (blockHash : Hash) (height : UInt64) (round : UInt32)
    (validatorSet : ValidatorKeys) (maxRounds : UInt32) : ConsensusRound :=
  let validatorCount := clampU32 validatorSet.size
  { chainId, epoch, blockHash, height, round
    phase := .propose
    prevotes := ∅
    precommits := ∅
    validatorCount
    quorum := clampU32 (2 * validatorCount.toNat / 3 + 1)
    maxRounds, validatorSet }

section

variable [Crypto]

def verifyVote (self : ConsensusRound) (vote : Vote) (expectedType : VoteType)
    (store : VoteMap) : Except String Unit :=
  if vote.voteType ≠ expectedType then
    .error ("Expected " ++ expectedType.debug)
  else if vote.height ≠ self.height ∨ vote.round ≠ self.round then
    .error "Vote height/round mismatch"
  else
    match self.validatorSet[vote.validatorId]? with
    | none =>
        .error ("Validator " ++ hexEncode vote.validatorId.toList ++ " not in authorized set")
    | some publicKey =>
        if vote.validatorId ∈ store then
          .error "Duplicate vote from validator"
        else if vote.signature.length < 64 then
          .error "Vote signature must be at least 64 bytes (Ed25519)"
        else if verifyStrict publicKey (voteSignData self.chainId self.epoch vote.blockHash
            vote.height vote.round vote.voteType) vote.signature then
          .ok ()
        else
          .error "Vote signature verification failed"

def addPrevote (self : ConsensusRound) (vote : Vote) : Except String ConsensusRound :=
  (self.verifyVote vote .prevote self.prevotes).map fun _ =>
    { self with prevotes := self.prevotes.insert vote.validatorId vote }

def addPrecommit (self : ConsensusRound) (vote : Vote) : Except String ConsensusRound :=
  (self.verifyVote vote .precommit self.precommits).map fun _ =>
    { self with precommits := self.precommits.insert vote.validatorId vote }

/-- Everything an admitted vote has passed. -/
theorem verifyVote_eq_ok {self : ConsensusRound} {vote : Vote} {expectedType : VoteType}
    {store : VoteMap} (h : self.verifyVote vote expectedType store = .ok ()) :
    vote.voteType = expectedType ∧ vote.height = self.height ∧ vote.round = self.round ∧
      vote.validatorId ∉ store ∧
      ∃ publicKey, self.validatorSet[vote.validatorId]? = some publicKey ∧
        verifyStrict publicKey (voteSignData self.chainId self.epoch vote.blockHash
          vote.height vote.round vote.voteType) vote.signature = true := by
  unfold verifyVote at h
  split at h
  · cases h
  · rename_i htype
    split at h
    · cases h
    · rename_i hpos
      push Not at htype hpos
      split at h
      · cases h
      · rename_i publicKey hkey
        split at h
        · cases h
        · rename_i hnew
          split at h
          · cases h
          · split at h
            · rename_i hsig
              exact ⟨htype, hpos.1, hpos.2, hnew, publicKey, hkey, hsig⟩
            · cases h

end

def prevoteCount (self : ConsensusRound) : UInt32 :=
  clampU32 (self.prevotes.values.filter fun v =>
    v.blockHash = self.blockHash && v.voteType = .prevote).length

def precommitCount (self : ConsensusRound) : UInt32 :=
  clampU32 (self.precommits.values.filter fun v =>
    v.blockHash = self.blockHash && v.voteType = .precommit).length

def hasPrevoteQuorum (self : ConsensusRound) : Bool := self.prevoteCount ≥ self.quorum

def hasPrecommitQuorum (self : ConsensusRound) : Bool := self.precommitCount ≥ self.quorum

/-- Advances the round: commit on two quorums, abort past the last round, and
otherwise say what is still missing. -/
def evaluate (self : ConsensusRound) : ConsensusRound × ConsensusResult :=
  let totalPrevotes := clampU32 self.prevotes.size
  let totalPrecommits := clampU32 self.precommits.size
  if self.hasPrevoteQuorum && self.hasPrecommitQuorum then
    ({ self with phase := .commit },
      .finalized self.blockHash self.prevoteCount self.precommitCount)
  else if self.round ≥ self.maxRounds then
    ({ self with phase := .abort }, .aborted s!"Exceeded max rounds ({self.maxRounds})")
  else if totalPrevotes ≥ self.validatorCount && !self.hasPrevoteQuorum then
    (self, .nextRound
      s!"All prevotes received but no quorum: {self.prevoteCount}/{self.quorum} for block")
  else if totalPrecommits ≥ self.validatorCount && !self.hasPrecommitQuorum then
    (self, .nextRound
      s!"All precommits received but no quorum: {self.precommitCount}/{self.quorum} for block")
  else
    (self, .nextRound (s!"Waiting: {totalPrevotes}/{self.validatorCount} prevotes, " ++
      s!"{totalPrecommits}/{self.validatorCount} precommits"))

end ConsensusRound

end Sccgub
