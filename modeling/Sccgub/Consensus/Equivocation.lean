import Mathlib
import Sccgub.Consensus.Protocol

/-!
# From double votes to a slashing removal

`synthesizeEquivocationRemoval` turns a pair of conflicting votes into the
`Remove` that slashes their validator, without a quorum.  It verifies both
signatures again, over `voteCanonicalBytes`: validator, block, height, round
and a type byte, seventy-seven bytes.  A vote that a round has admitted was
signed over the eighty-five bytes of `voteSignData`, which names the chain and
the epoch and not the validator.  Neither encoder is ever the other's
(`voteCanonicalBytes_ne_voteSignData`).
-/

namespace Sccgub

open Bincode FixedWidth

inductive EquivocationSynthesis where
  /-- The synthetic change, with no quorum signatures. -/
  | synthesized (change : ValidatorSetChange)
  | notStructuralEquivocation
  | signatureInvalid
  | signerNotInActiveSet
  deriving DecidableEq

def EquivocationVoteType.asU8 : EquivocationVoteType → UInt8
  | prevote => 0
  | precommit => 1

/-- The signed payload as the synthesis rebuilds it. -/
def voteCanonicalBytes (vote : EquivocationVote) : Bytes :=
  canonicalBytes ((Codec.bytes 32).pair <| (Codec.bytes 32).pair <| Codec.u64.pair <|
      Codec.u32.pair Codec.u8)
    (vote.validatorId, vote.blockHash, vote.height, vote.round, vote.voteType.asU8)

theorem voteCanonicalBytes_length (vote : EquivocationVote) :
    (voteCanonicalBytes vote).length = 77 := by
  simp [voteCanonicalBytes, canonicalBytes, Codec.u64, Codec.u32, Codec.u8]

/-- The message the synthesis checks is no message a round has checked. -/
theorem voteCanonicalBytes_ne_voteSignData (vote : EquivocationVote) (chainId : Hash)
    (epoch : UInt64) (blockHash : Hash) (height : UInt64) (round : UInt32)
    (voteType : VoteType) :
    voteCanonicalBytes vote ≠ voteSignData chainId epoch blockHash height round voteType := by
  intro h
  have hlen := congrArg List.length h
  rw [voteCanonicalBytes_length, voteSignData_length] at hlen
  omega

section

variable [Crypto]

/-- The removal that slashes an agent. -/
def slashingRemoval (agentId : AgentId) (hAdmit activationDelay : UInt64) : ValidatorSetChange :=
  let effectiveHeight := saturatingAdd hAdmit activationDelay
  let kind := .remove agentId .equivocation effectiveHeight
  { changeId := ValidatorSetChange.computeChangeId kind hAdmit
    kind
    proposedAt := hAdmit
    quorumSignatures := [] }

def synthesizeEquivocationRemoval (evidence : EquivocationEvidence) (currentSet : ValidatorSet)
    (hAdmit activationDelay : UInt64) : EquivocationSynthesis :=
  if !evidence.isStructurallyEquivocation then .notStructuralEquivocation
  else
    let sigAOk := verifyStrict evidence.voteA.validatorId (voteCanonicalBytes evidence.voteA)
      evidence.voteA.signature
    let sigBOk := verifyStrict evidence.voteB.validatorId (voteCanonicalBytes evidence.voteB)
      evidence.voteB.signature
    if !sigAOk || !sigBOk then .signatureInvalid
    else
      match currentSet.findActiveByValidatorId evidence.voteA.validatorId hAdmit with
      | none => .signerNotInActiveSet
      | some record => .synthesized (slashingRemoval record.agentId hAdmit activationDelay)

/-- What is synthesized is a slashing removal of an active validator's agent. -/
theorem synthesizeEquivocationRemoval_eq_synthesized {e : EquivocationEvidence}
    {set : ValidatorSet} {hAdmit delay : UInt64} {change : ValidatorSetChange}
    (h : synthesizeEquivocationRemoval e set hAdmit delay = .synthesized change) :
    ∃ record, set.findActiveByValidatorId e.voteA.validatorId hAdmit = some record ∧
      change = slashingRemoval record.agentId hAdmit delay := by
  unfold synthesizeEquivocationRemoval at h
  split at h
  · cases h
  · simp only at h
    split at h
    · cases h
    · split at h
      · cases h
      · rename_i record hrecord
        exact ⟨record, hrecord, (EquivocationSynthesis.synthesized.inj h).symm⟩

/-- For a structural equivocation of an active validator the two signatures
decide. -/
theorem synthesizeEquivocationRemoval_of_active {e : EquivocationEvidence} {set : ValidatorSet}
    {hAdmit delay : UInt64} {record : ValidatorRecord}
    (hstruct : e.isStructurallyEquivocation = true)
    (hactive : set.findActiveByValidatorId e.voteA.validatorId hAdmit = some record) :
    synthesizeEquivocationRemoval e set hAdmit delay =
      if verifyStrict e.voteA.validatorId (voteCanonicalBytes e.voteA) e.voteA.signature &&
          verifyStrict e.voteB.validatorId (voteCanonicalBytes e.voteB) e.voteB.signature then
        .synthesized (slashingRemoval record.agentId hAdmit delay)
      else .signatureInvalid := by
  unfold synthesizeEquivocationRemoval
  rw [hstruct, hactive]
  rcases verifyStrict e.voteA.validatorId (voteCanonicalBytes e.voteA) e.voteA.signature
    with _ | _
  · rfl
  · rcases verifyStrict e.voteB.validatorId (voteCanonicalBytes e.voteB) e.voteB.signature
      with _ | _ <;> rfl

end

/-! ## Votes that rounds admit -/

/-- Evidence records prevotes and precommits only. -/
def VoteType.toEquivocation : VoteType → Option EquivocationVoteType
  | prevote => some .prevote
  | precommit => some .precommit
  | nil => none

/-- The vote as evidence carries it. -/
def Vote.toEquivocation (vote : Vote) (voteType : EquivocationVoteType) : EquivocationVote where
  validatorId := vote.validatorId
  blockHash := vote.blockHash
  height := vote.height
  round := vote.round
  voteType
  signature := vote.signature

/-- The evidence built from two votes. -/
def evidenceOf (v w : Vote) (voteType : EquivocationVoteType) : EquivocationEvidence :=
  .new (v.toEquivocation voteType) (w.toEquivocation voteType)

/-- Evidence is the two votes in one order or the other. -/
theorem evidenceOf_cases (v w : Vote) (t : EquivocationVoteType) :
    evidenceOf v w t = ⟨v.toEquivocation t, w.toEquivocation t⟩ ∨
      evidenceOf v w t = ⟨w.toEquivocation t, v.toEquivocation t⟩ := by
  unfold evidenceOf EquivocationEvidence.new
  split
  · exact Or.inl rfl
  · exact Or.inr rfl

section

variable [Crypto]

/-- The round takes the vote, as the prevote or precommit it is. -/
def ConsensusRound.Admits (round : ConsensusRound) (vote : Vote) : Prop :=
  (∃ next, round.addPrevote vote = .ok next) ∨ ∃ next, round.addPrecommit vote = .ok next

/-- Two votes of one validator at one height, round and type for different
blocks, each admissible by a round of the given chain and epoch. -/
structure DoubleVote (chainId : Hash) (epoch : UInt64) (v w : Vote)
    (voteType : EquivocationVoteType) : Prop where
  validatorId : v.validatorId = w.validatorId
  height : v.height = w.height
  round : v.round = w.round
  type_left : v.voteType.toEquivocation = some voteType
  type_right : w.voteType.toEquivocation = some voteType
  blockHash : v.blockHash ≠ w.blockHash
  signature : v.signature ≠ w.signature
  admitted_left : ∃ r : ConsensusRound, r.chainId = chainId ∧ r.epoch = epoch ∧ r.Admits v
  admitted_right : ∃ r : ConsensusRound, r.chainId = chainId ∧ r.epoch = epoch ∧ r.Admits w

theorem DoubleVote.isStructurallyEquivocation {chainId : Hash} {epoch : UInt64} {v w : Vote}
    {t : EquivocationVoteType} (h : DoubleVote chainId epoch v w t) :
    (evidenceOf v w t).isStructurallyEquivocation = true := by
  rcases evidenceOf_cases v w t with heq | heq
  · simp [heq, EquivocationEvidence.isStructurallyEquivocation, Vote.toEquivocation,
      h.validatorId, h.height, h.round, h.blockHash, h.signature]
  · simp [heq, EquivocationEvidence.isStructurallyEquivocation, Vote.toEquivocation,
      h.validatorId, h.height, h.round, h.blockHash.symm, h.signature.symm]

/-- The vote's signature verifies over the bytes the synthesis rebuilds, under
the validator id read as a key. -/
def Vote.signedAsEvidence (vote : Vote) (voteType : EquivocationVoteType) : Bool :=
  verifyStrict vote.validatorId (voteCanonicalBytes (vote.toEquivocation voteType))
    vote.signature

/-- A double vote of an active validator is turned into a removal exactly when
both signatures are good for the rebuilt bytes as well, and otherwise the
verdict is `SignatureInvalid`.  The rebuilt bytes are never the ones a round of
this chain and epoch has the validator sign. -/
theorem doubleVote_synthesized_iff (chainId : Hash) (epoch : UInt64) (v w : Vote)
    (t : EquivocationVoteType) (set : ValidatorSet) (hAdmit delay : UInt64)
    (hvotes : DoubleVote chainId epoch v w t)
    (hactive : (set.findActiveByValidatorId v.validatorId hAdmit).isSome) :
    ((∃ change, synthesizeEquivocationRemoval (evidenceOf v w t) set hAdmit delay =
          .synthesized change) ↔
        (v.signedAsEvidence t && w.signedAsEvidence t) = true) ∧
      ((v.signedAsEvidence t && w.signedAsEvidence t) = false →
        synthesizeEquivocationRemoval (evidenceOf v w t) set hAdmit delay = .signatureInvalid) ∧
      voteCanonicalBytes (v.toEquivocation t) ≠
        voteSignData chainId epoch v.blockHash v.height v.round v.voteType ∧
      voteCanonicalBytes (w.toEquivocation t) ≠
        voteSignData chainId epoch w.blockHash w.height w.round w.voteType := by
  obtain ⟨record, hrecord⟩ := Option.isSome_iff_exists.mp hactive
  have hdecide : synthesizeEquivocationRemoval (evidenceOf v w t) set hAdmit delay =
      if v.signedAsEvidence t && w.signedAsEvidence t then
        .synthesized (slashingRemoval record.agentId hAdmit delay)
      else .signatureInvalid := by
    have hstruct := hvotes.isStructurallyEquivocation
    rcases evidenceOf_cases v w t with heq | heq
    · rw [heq] at hstruct ⊢
      exact synthesizeEquivocationRemoval_of_active hstruct hrecord
    · -- the other order swaps the two conjuncts
      rw [heq] at hstruct ⊢
      rw [hvotes.validatorId] at hrecord
      rw [synthesizeEquivocationRemoval_of_active hstruct hrecord, Bool.and_comm]
      rfl
  refine ⟨?_, ?_, voteCanonicalBytes_ne_voteSignData _ _ _ _ _ _ _,
    voteCanonicalBytes_ne_voteSignData _ _ _ _ _ _ _⟩
  · rw [hdecide]
    split
    · rename_i hsigs
      exact ⟨fun _ => hsigs, fun _ => ⟨_, rfl⟩⟩
    · rename_i hsigs
      refine ⟨?_, fun h => absurd h hsigs⟩
      rintro ⟨change, h⟩
      cases h
  · intro hsigs
    rw [hdecide, hsigs]
    rfl

end

/-- A prevote at height and round zero of chain zero by the validator whose key
and identity are `[1; 32]`, signed as a round requires. -/
def signedPrevote (blockHash : Hash) : Vote where
  validatorId := .ofByte 1
  blockHash
  height := 0
  round := 0
  voteType := .prevote
  signature := (Hash.ofByte 1).toList ++ (polyCrypto.polyDigest
    (voteSignData zeroHash 0 blockHash 0 0 .prevote)).toList

/-- The set with this validator alone. -/
def soloSet : ValidatorSet where
  records := [⟨.ofByte 7, .ofByte 1, .fromHeight 0, 10, 0, none⟩]

/-- The round for a block in which only this validator votes. -/
def soloRound (blockHash : Hash) : ConsensusRound :=
  .new zeroHash 0 blockHash 0 0 (Std.ExtTreeMap.ofList [(Hash.ofByte 1, Hash.ofByte 1)]) 3

theorem soloRound_admits {blockHash : Hash}
    (h : @ConsensusRound.verifyVote polyCrypto (soloRound blockHash) (signedPrevote blockHash)
      .prevote ∅ = .ok ()) :
    @ConsensusRound.Admits polyCrypto (soloRound blockHash) (signedPrevote blockHash) :=
  Or.inl ⟨_, congrArg (Except.map _) h⟩

theorem doubleVote_signedPrevote :
    @DoubleVote polyCrypto zeroHash 0 (signedPrevote (.ofByte 0xAA)) (signedPrevote (.ofByte 0xBB))
      .prevote :=
  letI := polyCrypto
  { validatorId := rfl
    height := rfl
    round := rfl
    type_left := rfl
    type_right := rfl
    blockHash := by decide +kernel
    signature := by decide +kernel
    admitted_left := ⟨soloRound (.ofByte 0xAA), rfl, rfl, soloRound_admits (by decide +kernel)⟩
    admitted_right := ⟨soloRound (.ofByte 0xBB), rfl, rfl, soloRound_admits (by decide +kernel)⟩ }

/-- The two prevotes are genuine, the validator is active, and it is not
slashed. -/
theorem signedPrevote_not_synthesized :
    ¬ (@DoubleVote polyCrypto zeroHash 0 (signedPrevote (.ofByte 0xAA))
        (signedPrevote (.ofByte 0xBB)) .prevote →
      (soloSet.findActiveByValidatorId (.ofByte 1) 5).isSome →
      ∃ change, @synthesizeEquivocationRemoval polyCrypto
        (evidenceOf (signedPrevote (.ofByte 0xAA)) (signedPrevote (.ofByte 0xBB)) .prevote)
        soloSet 5 3 = .synthesized change) := by
  intro h
  obtain ⟨change, hchange⟩ := h doubleVote_signedPrevote (by decide +kernel)
  have hinvalid : @synthesizeEquivocationRemoval polyCrypto
      (evidenceOf (signedPrevote (.ofByte 0xAA)) (signedPrevote (.ofByte 0xBB)) .prevote)
      soloSet 5 3 = .signatureInvalid := by decide +kernel
  cases hinvalid.symm.trans hchange

theorem doubleVote_synthesized_iff_signedPrevote :
    @synthesizeEquivocationRemoval polyCrypto
      (evidenceOf (signedPrevote (.ofByte 0xAA)) (signedPrevote (.ofByte 0xBB)) .prevote)
      soloSet 5 3 = .signatureInvalid :=
  (@doubleVote_synthesized_iff polyCrypto zeroHash 0 (signedPrevote (.ofByte 0xAA))
    (signedPrevote (.ofByte 0xBB)) .prevote soloSet 5 3 doubleVote_signedPrevote
    (by decide +kernel)).2.1 (by decide +kernel)

end Sccgub
