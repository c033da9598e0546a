import Mathlib
import Sccgub.Fallible
import Sccgub.Node.Runtime
import Sccgub.State.Coherence

/-!
# What a node can do to its state

Every statement of every handler is one of the moves listed in `Move`, with what
it was guarded by.  A property that the moves keep therefore holds after any
events, also of a node that crashed on the way.

What a move is allowed to be depends on the event in the ways that `Leeway`
names: rounds that are lost before their height is decided, rounds opened on a low
quorum or finalized by other validators, and blocks that came without votes.
`leewayOf` says which of them an event has.

- **one handler** (`handle_steps`): the states that a handler passes are reached by
  moves with the leeway of its event.  It is put together from a lemma for each
  handler (`takeProposal_steps`, `takeVote_steps`, `maybeAdvanceConsensus_steps` and
  the others), and these from one for each script that the handlers share.
- **a restart** (`states_restart`, `loaded_frame`): what comes back is the runtime as
  it is built anew, with what was on disk.
- **one event** (`step_keeps`): whatever the moves and a restart keep, an event
  keeps, also when the crash comes in the middle.

The modules on certificates, votes, recovery and evidence only say what a move
does to what they are about.  That pending blocks are filed under their ids
(`step_keyed`) is asked for by most of them, so it is proved here.
-/

namespace Sccgub

open Bincode FixedWidth Safety Quorum
open Interrupt (Script Steps)
open Relation (ReflTransGen)

/-! ## Chains with the same tip -/

namespace Chain

/-- What the runtime reads of a chain is the same. -/
structure SameTip (chain other : Chain) : Prop where
  blocks : other.blocks = chain.blocks
  epoch : other.treasury.epoch = chain.treasury.epoch
  validatorSet : other.validatorSet = chain.validatorSet
  finalityMode : other.state.governanceState.finalityMode
    = chain.state.governanceState.finalityMode

namespace SameTip

theorem refl (self : Chain) : self.SameTip self := ⟨rfl, rfl, rfl, rfl⟩

theorem trans {a b c : Chain} (h : a.SameTip b) (h' : b.SameTip c) : a.SameTip c where
  blocks := h'.blocks.trans h.blocks
  epoch := h'.epoch.trans h.epoch
  validatorSet := h'.validatorSet.trans h.validatorSet
  finalityMode := h'.finalityMode.trans h.finalityMode

theorem height {a b : Chain} (h : a.SameTip b) : b.height = a.height := by
  rw [Chain.height, h.blocks, Chain.height]

end SameTip

theorem sameTip_sharing (self : Chain) (durable : Option Entries) :
    self.SameTip (self.sharing durable) := ⟨rfl, rfl, rfl, rfl⟩

theorem sameTip_recordSafetyCertificate (self : Chain) (certificate : SafetyCertificate) :
    self.SameTip (self.recordSafetyCertificate certificate) := by
  unfold recordSafetyCertificate
  split
  · exact .refl self
  · exact ⟨rfl, rfl, rfl, rfl⟩

theorem sameTip_recordEquivocation (self : Chain) (proof : EquivocationProof) (epoch : UInt64) :
    self.SameTip (self.recordEquivocation proof epoch) := by
  unfold recordEquivocation
  dsimp only
  split
  · exact .refl self
  · exact ⟨rfl, rfl, rfl, rfl⟩

theorem sameTip_executeSlashingPenalty (self : Chain) (validatorId : Hash)
    (penalty : TensionValue) :
    self.SameTip (self.executeSlashingPenalty validatorId penalty).2 := by
  unfold executeSlashingPenalty
  dsimp only
  generalize (if (self.balances.balanceOf validatorId).raw < penalty.raw
    then self.balances.balanceOf validatorId else penalty) = actual
  split
  · split
    · exact .refl self
    · refine ⟨rfl, ?_, rfl, rfl⟩
      dsimp only [Treasury.burn, Treasury.collectFee]
      split
      · rfl
      · split <;> rfl
  · exact .refl self

theorem sameTip_penalizeDoubleSign (self : Chain) (proof : EquivocationProof) (epoch : UInt64) :
    self.SameTip (self.penalizeDoubleSign proof epoch) := by
  unfold penalizeDoubleSign
  split
  · exact .refl self
  · rename_i event slashing hslash
    have hslashed : self.SameTip { self with slashing } := ⟨rfl, rfl, rfl, rfl⟩
    exact hslashed.trans (sameTip_executeSlashingPenalty _ _ _)

section

variable [Crypto]

theorem validateCandidateBlockForRound_sameTip (self : Chain) (block : Block)
    (consensusRound : Option UInt32) :
    self.SameTip (self.validateCandidateBlockForRound block consensusRound).2 := by
  unfold validateCandidateBlockForRound
  split
  · exact .refl self
  · split
    · exact .refl self
    · exact self.sameTip_sharing _

/-- A candidate is one above the tip. -/
theorem height_of_validateCandidateBlockForRound {self : Chain} {block : Block}
    {consensusRound : Option UInt32}
    (h : (self.validateCandidateBlockForRound block consensusRound).1 = .ok ()) :
    block.header.height = saturatingAdd self.height 1 := by
  unfold validateCandidateBlockForRound at h
  split at h
  · cases h
  · rename_i parent hparent
    split at h
    · cases h
    · rename_i hcheck
      unfold checkCandidate at hcheck
      rw [Fallible.guard_eq_ok_iff, not_not] at hcheck
      rw [Chain.height, hparent]
      exact hcheck.1

/-- A failed import leaves the tip. -/
theorem sameTip_of_importBlock_error {self chain : Chain} {block : Block} {e : String}
    (h : self.importBlock block = (.error e, chain)) : self.SameTip chain := by
  unfold importBlock at h
  have hvalidate := self.validateCandidateBlockForRound_sameTip block none
  rcases hrun : self.validateCandidateBlock block with ⟨e' | ⟨⟩, chain₁⟩
  · rw [hrun] at h
    obtain ⟨-, rfl⟩ := Prod.mk.inj h
    rw [show chain₁ = (self.validateCandidateBlock block).2 by rw [hrun]]
    exact hvalidate
  · rw [hrun] at h
    obtain rfl : chain₁ = (self.validateCandidateBlockForRound block none).2 :=
      (congrArg Prod.snd hrun).symm
    dsimp only at h
    split at h
    · obtain ⟨-, rfl⟩ := Prod.mk.inj h
      exact hvalidate
    · rename_i state hnonces
      split at h
      · obtain ⟨-, rfl⟩ := Prod.mk.inj h
        refine hvalidate.trans ⟨rfl, ?_, rfl, ?_⟩
        · exact chargedBeforeError_epoch _ _ _ _ _ _
        · rw [ManagedWorldState.validateNonces_frame hnonces]
      · cases (Prod.mk.inj h).1

/-- An imported block is the new tip, one above the old one. -/
theorem tip_of_importBlock_ok {self chain : Chain} {block : Block}
    (h : self.importBlock block = (.ok (), chain)) :
    chain.blocks = self.blocks ++ [block] ∧ block.header.height = saturatingAdd self.height 1 := by
  unfold importBlock at h
  have hvalidate := self.validateCandidateBlockForRound_sameTip block none
  have hheight := @height_of_validateCandidateBlockForRound _ self block none
  rcases hrun : self.validateCandidateBlock block with ⟨e' | ⟨⟩, chain₁⟩
  · rw [hrun] at h
    cases (Prod.mk.inj h).1
  · rw [hrun] at h
    have hfirst : (self.validateCandidateBlockForRound block none).1 = .ok () := congrArg Prod.fst hrun
    obtain rfl : chain₁ = (self.validateCandidateBlockForRound block none).2 :=
      (congrArg Prod.snd hrun).symm
    dsimp only at h
    split at h
    · cases (Prod.mk.inj h).1
    · split at h
      · cases (Prod.mk.inj h).1
      · obtain ⟨-, rfl⟩ := Prod.mk.inj h
        refine ⟨?_, hheight hfirst⟩
        rw [← hvalidate.blocks]
        rfl

theorem height_of_importBlock_ok {self chain : Chain} {block : Block}
    (h : self.importBlock block = (.ok (), chain)) : chain.height = block.header.height := by
  rw [Chain.height, (tip_of_importBlock_ok h).1]
  simp

end

end Chain

/-! ## Rounds -/

namespace ConsensusRound

/-- Both quorums are there. -/
def Finalizes (round : ConsensusRound) : Prop :=
  round.hasPrevoteQuorum = true ∧ round.hasPrecommitQuorum = true

/-- The round is past the last one without them. -/
def Aborts (round : ConsensusRound) : Prop :=
  ¬ round.Finalizes ∧ round.maxRounds ≤ round.round

theorem evaluate_cases (round : ConsensusRound) :
    (round.Finalizes ∧ round.evaluate = ({ round with phase := .commit },
        .finalized round.blockHash round.prevoteCount round.precommitCount))
      ∨ (round.Aborts ∧ ∃ reason, round.evaluate = ({ round with phase := .abort }, .aborted reason))
      ∨ (¬ round.Finalizes ∧ ¬ round.Aborts ∧ ∃ reason, round.evaluate = (round, .nextRound reason)) := by
  unfold evaluate
  dsimp only
  by_cases hboth : (round.hasPrevoteQuorum && round.hasPrecommitQuorum) = true
  · rw [if_pos hboth]
    exact Or.inl ⟨Bool.and_eq_true_iff.mp hboth, rfl⟩
  · rw [if_neg hboth]
    have hnot : ¬ round.Finalizes := fun h => hboth (Bool.and_eq_true_iff.mpr h)
    by_cases hlast : round.round ≥ round.maxRounds
    · rw [if_pos hlast]
      exact Or.inr (Or.inl ⟨⟨hnot, hlast⟩, _, rfl⟩)
    · rw [if_neg hlast]
      refine Or.inr (Or.inr ⟨hnot, fun h => hlast h.2, ?_⟩)
      split
      · exact ⟨_, rfl⟩
      · split
        · exact ⟨_, rfl⟩
        · exact ⟨_, rfl⟩

end ConsensusRound

/-! ## Moves -/

namespace NetworkRuntime

/-- The height that is being decided. -/
def nextHeight (self : NetworkRuntime) : UInt64 := saturatingAdd self.chain.height 1

/-- Two thirds of the validators and one more. -/
def HighQuorum (self : NetworkRuntime) : Prop :=
  threshold self.validatorSet.size ≤ self.consensusQuorum.toNat

/-- Without configured validators the set is the one of the chain. -/
def Synced (self : NetworkRuntime) : Prop :=
  self.config.validators = [] → self.validatorSet = chainValidators self.chain self.validatorId

/-- Pending blocks are filed under their ids. -/
def Keyed (self : NetworkRuntime) : Prop :=
  ∀ (hash : Hash) (block : Block), self.pendingBlocks[hash]? = some block →
    block.header.blockId = hash

theorem setRound_self {s : NetworkRuntime} {height : UInt64} {state : RoundState}
    (h : s.consensusRounds[height]? = some state) : s.setRound height state = s := by
  have hsame : s.consensusRounds.insert height state = s.consensusRounds := by
    ext k
    rw [Std.ExtTreeMap.getElem?_insert]
    by_cases hk : height = k
    · subst hk
      simp [h]
    · simp [hk]
  rw [setRound, hsame]

@[simp] theorem getElem?_setRound (s : NetworkRuntime) (height k : UInt64) (state : RoundState) :
    (s.setRound height state).consensusRounds[k]?
      = if height = k then some state else s.consensusRounds[k]? := by
  rw [setRound, Std.ExtTreeMap.getElem?_insert]
  by_cases hk : height = k
  · simp [hk]
  · simp [hk]

theorem sync_frame (s : NetworkRuntime) :
    ∃ validatorSet, s.syncValidatorSetFromChainIfUnconfigured = { s with validatorSet } := by
  unfold syncValidatorSetFromChainIfUnconfigured
  split
  · exact ⟨s.validatorSet, rfl⟩
  · exact ⟨_, rfl⟩

/-- What an event leaves open about its moves. -/
structure Leeway where
  /-- A round may be lost undecided after it had a quorum of prevotes, or be about
  another height than the next. -/
  lossy : Prop
  /-- A round may be aborted before it has a quorum of prevotes. -/
  aborts : Prop
  /-- A round may be opened with a quorum below two thirds. -/
  lowQuorum : Prop
  /-- A round of other validators than the present ones may be finalized. -/
  foreign : Prop
  /-- The block came in a response, without votes, to a node with these validators. -/
  response : ValidatorKeys → Block → Prop

/-- The node heard the vote, or signed it. -/
def Known (self : NetworkRuntime) (epoch : UInt64) (vote : Vote) : Prop :=
  Act.hears epoch vote ∈ self.journal ∨ Act.signs epoch vote ∈ self.journal

section

variable [Crypto]

inductive Move (leeway : Leeway) : NetworkRuntime → NetworkRuntime → Prop
  | send (s : NetworkRuntime) (message : NetworkMessage) : Move leeway s (s.broadcast message)
  | meet (s : NetworkRuntime) (registry : PeerRegistry) : Move leeway s { s with registry }
  /-- Validation, a failed import, a certificate. -/
  | settle (s : NetworkRuntime) (chain : Chain) (htip : s.chain.SameTip chain) :
      Move leeway s { s with chain }
  | sync (s : NetworkRuntime) : Move leeway s s.syncValidatorSetFromChainIfUnconfigured
  | hear (s : NetworkRuntime) (vote : Vote)
      (hsig : s.verifyVoteSignature s.currentEpoch vote = .ok ()) :
      Move leeway s (record (.hears s.currentEpoch vote) s)
  | verify (s : NetworkRuntime) (certificate : SafetyCertificate)
      (hcert : certificate.verifyCryptographic s.validatorSet = .ok ()) :
      Move leeway s (record (.verifies certificate) s)
  | hold (s : NetworkRuntime) (block : Block) (hnext : block.header.height = s.nextHeight) :
      Move leeway s (s.holdBlock block)
  | forget (s : NetworkRuntime) (hash : Hash) : Move leeway s (s.dropBlock hash)
  | start (s : NetworkRuntime) (hash : Hash) (height : UInt64) (round : UInt32) (now : UInt64)
      (hnone : s.consensusRounds[height]? = none) (hsynced : s.Synced)
      (hnext : height = s.nextHeight ∨ leeway.lossy) (hquorum : s.HighQuorum ∨ leeway.lowQuorum) :
      Move leeway s (s.setRound height (s.openedRound hash height round now))
  | track (s : NetworkRuntime) (height : UInt64) (state : RoundState) (hash : Hash)
      (hstate : s.consensusRounds[height]? = some state)
      (hhash : state.round.blockHash = zeroHash ∨ state.round.blockHash = hash)
      (hnext : height = s.nextHeight) :
      Move leeway s (s.setRound height
        { state with round := { state.round with blockHash := hash } })
  | sign (s : NetworkRuntime) (height : UInt64) (state : RoundState) (voteType : VoteType)
      (hstate : s.consensusRounds[height]? = some state)
      (hquorum : voteType = .precommit → state.round.hasPrevoteQuorum = true)
      (hhash : state.round.blockHash ≠ zeroHash ∨ leeway.lossy)
      (hnext : height = s.nextHeight ∨ leeway.lossy) :
      Move leeway s (record (.signs state.round.epoch (s.signVoteWithEpoch state.round.epoch
        state.round.blockHash height state.round.round voteType)) s)
  | addPrevote (s : NetworkRuntime) (height : UInt64) (state : RoundState) (vote : Vote)
      (round : ConsensusRound) (hstate : s.consensusRounds[height]? = some state)
      (hadd : state.round.addPrevote vote = .ok round) (hknown : s.Known state.round.epoch vote) :
      Move leeway s (s.setRound height { state with round })
  | addPrecommit (s : NetworkRuntime) (height : UInt64) (state : RoundState) (vote : Vote)
      (round : ConsensusRound) (hstate : s.consensusRounds[height]? = some state)
      (hadd : state.round.addPrecommit vote = .ok round) (hknown : s.Known state.round.epoch vote) :
      Move leeway s (s.setRound height { state with round })
  | setPhase (s : NetworkRuntime) (height : UInt64) (state : RoundState) (phase : ConsensusPhase)
      (hstate : s.consensusRounds[height]? = some state) :
      Move leeway s (s.setRound height { state with round := { state.round with phase } })
  | finalize (s : NetworkRuntime) (height : UInt64) (state : RoundState)
      (hstate : s.consensusRounds[height]? = some state) (hquorums : state.round.Finalizes) :
      Move leeway s (record (.finalizes state.round (SafetyCertificate.fromRound s.chainId
        state.round.epoch state.round.blockHash height state.round.round state.round.precommits
        state.round.validatorCount)) s)
  | append (s : NetworkRuntime) (block : Block) (chain : Chain)
      (himport : s.chain.importBlock block = (.ok (), chain))
      (hwhy : (∃ (height : UInt64) (state : RoundState),
        s.consensusRounds[height]? = some state ∧ state.round.Finalizes
          ∧ block.header.blockId = state.round.blockHash
          ∧ (state.round.validatorSet = s.validatorSet ∨ leeway.foreign))
        ∨ leeway.response s.validatorSet block) :
      Move leeway s (record (.appends s.validatorSet block) { s with chain })
  | decided (s : NetworkRuntime) (height : UInt64)
      (hdecided : height = s.chain.height ∨ (s.chain.blockAt height).isSome = true) :
      Move leeway s (s.dropRound height)
  | lose (s : NetworkRuntime) (height : UInt64) (hlossy : leeway.lossy) :
      Move leeway s (s.dropRound height)
  | abort (s : NetworkRuntime) (height : UInt64) (state : RoundState)
      (hstate : s.consensusRounds[height]? = some state) (haborts : state.round.Aborts)
      (hquorum : state.round.hasPrevoteQuorum = false) (hmay : leeway.aborts) :
      Move leeway s (s.dropRound height)
  | saveRounds (s : NetworkRuntime) : Move leeway s s.saveConsensusState
  | savePending (s : NetworkRuntime) : Move leeway s s.savePendingBlocks
  | clearRounds (s : NetworkRuntime) : Move leeway s s.clearConsensusState
  | clearPending (s : NetworkRuntime) : Move leeway s s.clearPendingBlocks
  | timeout (s : NetworkRuntime) (now : UInt64) : Move leeway s (s.timeoutRounds now)
  | refresh (s : NetworkRuntime) (registry : PeerRegistry) (hconfig : s.config.validators = [])
      (hactive : (activeValidators s.chain.validatorSet).isEmpty = false)
      (hchanged : s.validatorSet ≠ activeValidators s.chain.validatorSet) :
      Move leeway s { s with
        validatorSet := activeValidators s.chain.validatorSet
        registry
        consensusRounds := ∅
        pendingBlocks := ∅ }
  | remember (s : NetworkRuntime) (key : EquivocationKey) (hnew : key ∉ s.equivocations) :
      Move leeway s { s with
        equivocations := (Dedup.remember maxEquivocationDedup s.equivocations
          s.equivocationsOrder key).1
        equivocationsOrder := (Dedup.remember maxEquivocationDedup s.equivocations
          s.equivocationsOrder key).2 }
  | punish (s : NetworkRuntime) (key : EquivocationKey) (chain : Chain)
      (htip : s.chain.SameTip chain) :
      Move leeway s (record (.slashes key) { s with chain })

/-! ## Small scripts -/

variable {leeway : Leeway}

theorem Move.single {s t : NetworkRuntime} (h : Move leeway s t) :
    ReflTransGen (Move leeway) s t := .single h

theorem persistConsensusState_steps {s : NetworkRuntime} {Q : Unit → NetworkRuntime → Prop}
    (h : Q () s.saveConsensusState.savePendingBlocks) :
    Steps (Move leeway) persistConsensusState s Q :=
  Steps.modify_bind (Move.saveRounds s).single (Steps.modify (Move.savePending _).single h)

omit [Crypto] in
/-- The round that is open, or the one that is opened. -/
theorem roundEntry_spec {R : NetworkRuntime → NetworkRuntime → Prop} {t : NetworkRuntime}
    {hash : Hash} {height : UInt64} {round : UInt32} {now : UInt64}
    {Q : RoundState → NetworkRuntime → Prop}
    (hmove : t.consensusRounds[height]? = none →
      R t (t.setRound height (t.openedRound hash height round now)))
    (hopen : ∀ state, t.consensusRounds[height]? = some state → Q state t)
    (hstart : t.consensusRounds[height]? = none → Q (t.openedRound hash height round now)
      (t.setRound height (t.openedRound hash height round now))) :
    Steps R (roundEntry hash height round now) t Q := by
  rcases hentry : t.consensusRounds[height]? with _ | state
  · refine Steps.act ?_ ?_
    · rw [hentry]
      exact .single (hmove hentry)
    · rintro _ ha
      rw [hentry] at ha ⊢
      cases ha
      exact hstart hentry
  · refine Steps.act ?_ ?_
    · rw [hentry]
    · rintro _ ha
      rw [hentry] at ha ⊢
      cases ha
      exact hopen _ hentry

theorem roundEntry_steps {s : NetworkRuntime} {hash : Hash} {height : UInt64} {round : UInt32}
    {now : UInt64} (hsynced : s.Synced) (hnext : height = s.nextHeight ∨ leeway.lossy)
    (hquorum : s.HighQuorum ∨ leeway.lowQuorum) {Q : RoundState → NetworkRuntime → Prop}
    (hopen : ∀ state, s.consensusRounds[height]? = some state → Q state s)
    (hstart : Q (s.openedRound hash height round now)
      (s.setRound height (s.openedRound hash height round now))) :
    Steps (Move leeway) (roundEntry hash height round now) s Q :=
  roundEntry_spec (fun hnone => Move.start s hash height round now hnone hsynced hnext hquorum)
    hopen fun _ => hstart

/-! ## Advancing -/

/-- The round with the precommit that the node adds to it before it is evaluated. -/
def withOwnPrecommit (self : NetworkRuntime) (height : UInt64) (round : ConsensusRound) :
    ConsensusRound :=
  if round.hasPrevoteQuorum && !round.precommits.contains self.validatorId
      && self.isLocalValidatorActive then
    orKeep round (round.addPrecommit (self.signVoteWithEpoch round.epoch round.blockHash height
      round.round .precommit))
  else round

/-- The block of a round is pending, of that height, and can be imported. -/
def Imports (self : NetworkRuntime) (height : UInt64) (hash : Hash) : Prop :=
  ∃ block, self.pendingBlocks[hash]? = some block ∧ block.header.height = height
    ∧ (self.chain.importBlock block).1 = .ok ()

/-- A round with its quorums leads to a block, and one with a quorum of prevotes is
not aborted. -/
def Advances (self : NetworkRuntime) (height : UInt64) : Prop :=
  ∀ state, self.consensusRounds[height]? = some state →
    ((self.withOwnPrecommit height state.round).Finalizes →
        self.Imports height state.round.blockHash)
      ∧ ((self.withOwnPrecommit height state.round).Aborts →
        state.round.hasPrevoteQuorum = false)

/-- The round is not aborted. -/
def Persists (self : NetworkRuntime) (height : UInt64) : Prop :=
  ∀ state, self.consensusRounds[height]? = some state →
    ¬ (self.withOwnPrecommit height state.round).Aborts

/-- Admission of a precommit changes the precommits and nothing else. -/
theorem addPrecommit_eq_ok {round next : ConsensusRound} {vote : Vote}
    (h : round.addPrecommit vote = .ok next) :
    round.verifyVote vote .precommit round.precommits = .ok ()
      ∧ next = { round with precommits := round.precommits.insert vote.validatorId vote } := by
  unfold ConsensusRound.addPrecommit at h
  rcases hverify : round.verifyVote vote .precommit round.precommits with e | ⟨⟩
  · rw [hverify] at h
    cases h
  · rw [hverify] at h
    cases h
    exact ⟨rfl, rfl⟩

theorem addPrevote_eq_ok {round next : ConsensusRound} {vote : Vote}
    (h : round.addPrevote vote = .ok next) :
    round.verifyVote vote .prevote round.prevotes = .ok ()
      ∧ next = { round with prevotes := round.prevotes.insert vote.validatorId vote } := by
  unfold ConsensusRound.addPrevote at h
  rcases hverify : round.verifyVote vote .prevote round.prevotes with e | ⟨⟩
  · rw [hverify] at h
    cases h
  · rw [hverify] at h
    cases h
    exact ⟨rfl, rfl⟩

/-- What the own precommit leaves as it was. -/
theorem withOwnPrecommit_frame (s : NetworkRuntime) (height : UInt64) (round : ConsensusRound) :
    ∃ precommits, s.withOwnPrecommit height round = { round with precommits } := by
  unfold withOwnPrecommit
  split
  · rcases hadd : round.addPrecommit (s.signVoteWithEpoch round.epoch round.blockHash height
      round.round .precommit) with e | next
    · exact ⟨round.precommits, rfl⟩
    · obtain ⟨-, rfl⟩ := addPrecommit_eq_ok hadd
      exact ⟨_, rfl⟩
  · exact ⟨round.precommits, rfl⟩

theorem precommit_steps {s : NetworkRuntime} {height : UInt64} {state : RoundState}
    (hstate : s.consensusRounds[height]? = some state)
    (hhash : state.round.blockHash ≠ zeroHash ∨ leeway.lossy)
    (hnext : height = s.nextHeight ∨ leeway.lossy) :
    Steps (Move leeway) (precommit height state) s fun state' t =>
      state' = { state with round := s.withOwnPrecommit height state.round }
        ∧ t.consensusRounds[height]? = some state' ∧ t.chain = s.chain
        ∧ t.pendingBlocks = s.pendingBlocks ∧ t.validatorSet = s.validatorSet := by
  refine Steps.get_bind ?_
  unfold withOwnPrecommit
  split
  · rename_i hcond
    set vote := s.signVoteWithEpoch state.round.epoch state.round.blockHash height
      state.round.round .precommit with hvote
    have hquorum : state.round.hasPrevoteQuorum = true := by
      simp only [Bool.and_eq_true] at hcond
      exact hcond.1.1
    have hsign : ReflTransGen (Move leeway) s (record (.signs state.round.epoch vote) s) :=
      (Move.sign s height state .precommit hstate (fun _ => hquorum) hhash hnext).single
    refine Steps.modify_bind hsign ?_
    rcases hadd : state.round.addPrecommit vote with e | round
    · have hkeep : (record (.signs state.round.epoch vote) s).setRound height state
          = record (.signs state.round.epoch vote) s := setRound_self hstate
      simp only [orKeep]
      refine Steps.modify_bind (by rw [hkeep]) ?_
      rw [hkeep]
      exact Steps.modify_bind (Move.send _ _).single
        (Steps.pure ⟨rfl, hstate, rfl, rfl, rfl⟩)
    · simp only [orKeep]
      refine Steps.modify_bind (Move.addPrecommit (record (.signs state.round.epoch vote) s)
        height state vote round hstate hadd (Or.inr List.mem_cons_self)).single ?_
      refine Steps.modify_bind (Move.send _ _).single (Steps.pure ⟨rfl, ?_, rfl, rfl, rfl⟩)
      show ((record (.signs state.round.epoch vote) s).setRound height
        { state with round }).consensusRounds[height]? = _
      rw [getElem?_setRound, if_pos rfl]
  · exact Steps.pure ⟨rfl, hstate, rfl, rfl, rfl⟩

/-- Where a finalized block goes: the tip is at the height of the round, or the
round was about another one. -/
theorem appendFinalized_steps {s : NetworkRuntime} {certificate : SafetyCertificate}
    {block : Block} {height : UInt64} (state : RoundState)
    (hstate : s.consensusRounds[height]? = some state) (hquorums : state.round.Finalizes)
    (hid : block.header.blockId = state.round.blockHash)
    (hown : state.round.validatorSet = s.validatorSet ∨ leeway.foreign)
    (himports : (block.header.height = height ∧ (s.chain.importBlock block).1 = .ok ())
      ∨ leeway.lossy) :
    Steps (Move leeway) (appendFinalized certificate block) s fun _ t =>
      height = t.chain.height ∨ leeway.lossy := by
  rcases himport : s.chain.importBlock block with ⟨e | ⟨⟩, chain⟩
  · have hlossy : leeway.lossy := by
      rcases himports with ⟨-, hok⟩ | hlossy
      · rw [himport] at hok
        cases hok
      · exact hlossy
    refine Steps.act_bind ?_ ?_
    · rw [himport]
      exact (Move.settle s chain (Chain.sameTip_of_importBlock_error himport)).single
    · intro imported hresult
      rw [himport] at hresult ⊢
      cases hresult
      exact Steps.pure (Or.inr hlossy)
  · refine Steps.act_bind ?_ ?_
    · rw [himport]
      exact (Move.append s block chain himport
        (Or.inl ⟨height, state, hstate, hquorums, hid, hown⟩)).single.tail
        (Move.settle _ _ (chain.sameTip_recordSafetyCertificate certificate))
    · intro imported hresult
      rw [himport] at hresult ⊢
      cases hresult
      refine Steps.modify (Move.send _ _).single ?_
      rcases himports with ⟨hheight, -⟩ | hlossy
      · left
        show height = (chain.recordSafetyCertificate certificate).height
        rw [(chain.sameTip_recordSafetyCertificate certificate).height,
          Chain.height_of_importBlock_ok himport, hheight]
      · exact Or.inr hlossy

omit [Crypto] in
theorem pendingBlocks_record (act : Act) (s : NetworkRuntime) :
    (record act s).pendingBlocks = s.pendingBlocks := rfl

theorem finalizeRound_steps {s : NetworkRuntime} {height : UInt64} (state : RoundState)
    (hkeyed : s.Keyed) (hstate : s.consensusRounds[height]? = some state)
    (hquorums : state.round.Finalizes)
    (hown : state.round.validatorSet = s.validatorSet ∨ leeway.foreign)
    (himports : s.Imports height state.round.blockHash ∨ leeway.lossy) :
    Steps (Move leeway) (finalizeRound height state.round) s fun _ _ => True := by
  refine Steps.get_bind (Steps.modify_bind (Move.finalize s height state hstate hquorums).single ?_)
  refine Steps.bind (P := fun _ t => height = t.chain.height ∨ leeway.lossy) ?_ ?_
  · refine Steps.get_bind ?_
    rcases hpending : s.pendingBlocks[state.round.blockHash]? with _ | block
    · rw [pendingBlocks_record, hpending]
      refine Steps.pure (himports.imp_left ?_)
      rintro ⟨block, hblock, -⟩
      rw [hpending] at hblock
      cases hblock
    · rw [pendingBlocks_record, hpending]
      refine Steps.modify_bind (Move.forget _ _).single ?_
      refine appendFinalized_steps state hstate hquorums (hkeyed _ _ hpending) hown
        (himports.imp_left ?_)
      rintro ⟨block', hblock, hheight, hok⟩
      rw [hpending] at hblock
      obtain rfl := Option.some_inj.mp hblock
      exact ⟨hheight, hok⟩
  · intro _ _ hdropped
    refine Steps.modify_bind ?_ (Steps.modify_bind (Move.clearRounds _).single
      (Steps.modify (Move.clearPending _).single trivial))
    rcases hdropped with hdecided | hlossy
    · exact (Move.decided _ height (Or.inl hdecided)).single
    · exact (Move.lose _ height hlossy).single

theorem abortRound_steps {s : NetworkRuntime} {height : UInt64} (state : RoundState)
    (hstate : s.consensusRounds[height]? = some state) (haborts : state.round.Aborts)
    (hlossy : state.round.hasPrevoteQuorum = true → leeway.lossy)
    (hmay : state.round.hasPrevoteQuorum = false → leeway.aborts) :
    Steps (Move leeway) (abortRound height state.round) s fun _ _ => True := by
  refine Steps.modify_bind ?_ (Steps.modify_bind ?_ (persistConsensusState_steps trivial))
  · cases hquorum : state.round.hasPrevoteQuorum with
    | true => exact (Move.lose s height (hlossy hquorum)).single
    | false => exact (Move.abort s height state hstate haborts hquorum (hmay hquorum)).single
  · split
    · exact (Move.forget _ _).single
    · exact .refl

theorem maybeAdvanceConsensus_steps {s : NetworkRuntime} {height : UInt64} (hkeyed : s.Keyed)
    (hhash : ∀ state, s.consensusRounds[height]? = some state →
      state.round.blockHash ≠ zeroHash ∨ leeway.lossy)
    (hown : ∀ state, s.consensusRounds[height]? = some state →
      state.round.validatorSet = s.validatorSet ∨ leeway.foreign)
    (hnext : height = s.nextHeight ∨ leeway.lossy)
    (hadvances : s.Advances height ∨ leeway.lossy) (hpersists : s.Persists height ∨ leeway.aborts) :
    Steps (Move leeway) (maybeAdvanceConsensus height) s fun _ _ => True := by
  refine Steps.check_bind fun _ _ => Steps.get_bind ?_
  rcases hstate : s.consensusRounds[height]? with _ | state
  · exact Steps.pure trivial
  dsimp only
  refine Steps.bind (precommit_steps hstate (hhash state hstate) hnext) ?_
  rintro _ - ⟨rfl, hround, hchain, hpending, hset⟩
  generalize (precommit height state s).last = t at hround hchain hpending hset ⊢
  obtain ⟨precommits, hframe⟩ := s.withOwnPrecommit_frame height state.round
  have hkeyed' : t.Keyed := by
    intro hash block hblock
    rw [hpending] at hblock
    exact hkeyed hash block hblock
  rcases (s.withOwnPrecommit height state.round).evaluate_cases with
    ⟨hfinal, heval⟩ | ⟨haborts, reason, heval⟩ | ⟨-, -, reason, heval⟩
  · dsimp only
    rw [heval]
    dsimp only
    refine Steps.modify_bind (Move.setPhase t height _ .commit hround).single ?_
    refine finalizeRound_steps { state with
      round := { s.withOwnPrecommit height state.round with phase := .commit } }
      hkeyed' (by rw [getElem?_setRound, if_pos rfl]) hfinal ((hown state hstate).imp_left ?_)
      (hadvances.imp_left ?_)
    · intro hmembers
      show (s.withOwnPrecommit height state.round).validatorSet = t.validatorSet
      rw [hset, hframe]
      exact hmembers
    intro hadv
    obtain ⟨block, hblock, hheight, hok⟩ := (hadv state hstate).1 hfinal
    refine ⟨block, ?_, hheight, ?_⟩
    · show t.pendingBlocks[(s.withOwnPrecommit height state.round).blockHash]? = _
      rw [hpending, hframe]
      exact hblock
    · show (t.chain.importBlock block).1 = _
      rw [hchain]
      exact hok
  · dsimp only
    rw [heval]
    dsimp only
    refine Steps.modify_bind (Move.setPhase t height _ .abort hround).single ?_
    have hsame : (s.withOwnPrecommit height state.round).hasPrevoteQuorum
        = state.round.hasPrevoteQuorum := by
      rw [hframe]
      rfl
    refine abortRound_steps { state with
      round := { s.withOwnPrecommit height state.round with phase := .abort } }
      (by rw [getElem?_setRound, if_pos rfl]) haborts ?_ ?_
    · intro hquorum
      rcases hadvances with hadv | hlossy
      · have hno := (hadv state hstate).2 haborts
        rw [← hsame] at hno
        rw [show (s.withOwnPrecommit height state.round).hasPrevoteQuorum = true from hquorum] at hno
        cases hno
      · exact hlossy
    · intro _
      rcases hpersists with hper | hmay
      · exact absurd haborts (hper state hstate)
      · exact hmay
  · dsimp only
    rw [heval]
    exact Steps.modify (Move.setPhase t height _ _ hround).single trivial

/-! ## Messages -/

omit [Crypto] in
theorem synced_sync (s : NetworkRuntime) : s.syncValidatorSetFromChainIfUnconfigured.Synced := by
  unfold syncValidatorSetFromChainIfUnconfigured
  split
  · rename_i hconfig
    intro hempty
    rw [hempty] at hconfig
    cases hconfig
  · exact fun _ => rfl

omit [Crypto] in
theorem Synced.settle {s : NetworkRuntime} (h : s.Synced) {chain : Chain}
    (htip : s.chain.SameTip chain) : ({ s with chain } : NetworkRuntime).Synced := by
  intro hconfig
  rw [show ({ s with chain } : NetworkRuntime).validatorSet = s.validatorSet from rfl, h hconfig]
  unfold chainValidators
  rw [htip.validatorSet]

omit [Crypto] in
theorem HighQuorum.settle {s : NetworkRuntime} (h : s.HighQuorum) {chain : Chain}
    (htip : s.chain.SameTip chain) : ({ s with chain } : NetworkRuntime).HighQuorum := by
  unfold HighQuorum consensusQuorum at h ⊢
  dsimp only at h ⊢
  rw [htip.finalityMode]
  exact h

/-- Up to the round's advancement a proposal leaves the chain at its tip, and the
round tracks its block. -/
structure Admitted (leeway : Leeway) (height : UInt64) (t : NetworkRuntime) : Prop where
  keyed : t.Keyed
  next : height = t.nextHeight ∨ leeway.lossy
  hash : ∀ state, t.consensusRounds[height]? = some state →
    state.round.blockHash ≠ zeroHash ∨ leeway.lossy
  own : ∀ state, t.consensusRounds[height]? = some state →
    state.round.validatorSet = t.validatorSet ∨ leeway.foreign

/-- The round of a height is one of the present validators. -/
def OwnRound (self : NetworkRuntime) (height : UInt64) : Prop :=
  ∀ state, self.consensusRounds[height]? = some state → state.round.validatorSet = self.validatorSet

omit [Crypto] in
theorem trackedRound_eq_ok {state next : RoundState} {epoch : UInt64} {msg : BlockProposalMessage}
    (h : trackedRound state epoch msg = .ok next) :
    state.round.epoch = epoch
      ∧ (state.round.blockHash = zeroHash ∨ state.round.blockHash = msg.block.header.blockId)
      ∧ next = { state with
        round := { state.round with blockHash := msg.block.header.blockId } } := by
  unfold trackedRound at h
  split at h
  · cases h
  · rename_i hepoch
    split at h
    · cases h
    · split at h
      · rename_i hzero
        obtain rfl := Except.ok.inj h
        exact ⟨not_not.mp hepoch, Or.inl hzero, rfl⟩
      · split at h
        · cases h
        · rename_i hsame
          obtain rfl := Except.ok.inj h
          have hhash := not_not.mp hsame
          refine ⟨not_not.mp hepoch, Or.inr hhash, ?_⟩
          rw [← hhash]

theorem prevote_steps {s : NetworkRuntime} {height epoch : UInt64} {state : RoundState}
    (hstate : s.consensusRounds[height]? = some state) (hepoch : state.round.epoch = epoch)
    (hhash : state.round.blockHash ≠ zeroHash ∨ leeway.lossy) (hnext : height = s.nextHeight) :
    Steps (Move leeway) (prevote height epoch state) s fun _ t =>
      t.chain = s.chain ∧ t.pendingBlocks = s.pendingBlocks ∧ t.validatorSet = s.validatorSet
        ∧ ∃ state', t.consensusRounds[height]? = some state'
          ∧ state'.round.blockHash = state.round.blockHash
          ∧ state'.round.validatorSet = state.round.validatorSet := by
  subst hepoch
  refine Steps.get_bind ?_
  split
  · refine Steps.modify_bind (Move.sign s height state .prevote hstate (fun h => nomatch h) hhash
      (Or.inl hnext)).single (Steps.check_bind fun round hadd => ?_)
    refine Steps.modify_bind (Move.addPrevote (record _ s) height state _ round hstate hadd
      (Or.inr List.mem_cons_self)).single (Steps.modify (Move.send _ _).single
        ⟨rfl, rfl, rfl, { state with round }, ?_, ?_⟩)
    · show (setRound height { state with round } _).consensusRounds[height]? = _
      rw [getElem?_setRound, if_pos rfl]
    · rw [(addPrevote_eq_ok hadd).2]
      exact ⟨rfl, rfl⟩
  · exact Steps.pure ⟨rfl, rfl, rfl, state, hstate, rfl, rfl⟩

omit [Crypto] in
theorem Keyed.holdBlock {s : NetworkRuntime} (h : s.Keyed) (block : Block) :
    (s.holdBlock block).Keyed := by
  intro hash block' hblock
  rw [NetworkRuntime.holdBlock, Std.ExtTreeMap.getElem?_insert] at hblock
  by_cases hhash : block.header.blockId = hash
  · simp only [hhash, Std.LawfulEqCmp.compare_eq_iff_eq, if_true, Option.some_inj] at hblock
    rw [← hblock, hhash]
  · simp only [Std.LawfulEqCmp.compare_eq_iff_eq, hhash, if_false] at hblock
    exact h hash block' hblock

/-- The round of a block that is held comes to be about it, and gets the vote of the node. -/
theorem trackProposal_steps {s : NetworkRuntime} {msg : BlockProposalMessage} {now : UInt64}
    (hkeyed : s.Keyed) (hsynced : s.Synced)
    (hid : msg.block.header.blockId ≠ zeroHash ∨ leeway.lossy)
    (hquorum : s.HighQuorum ∨ leeway.lowQuorum)
    (hnext : msg.block.header.height = s.nextHeight)
    (hown : s.OwnRound msg.block.header.height ∨ leeway.foreign) :
    Steps (Move leeway) (do
      let state ← roundEntry msg.block.header.blockId msg.block.header.height msg.round now
      let self ← Script.get
      let state ← Script.check fun _ => trackedRound state self.currentEpoch msg
      Script.modify (setRound msg.block.header.height state)
      prevote msg.block.header.height self.currentEpoch state
      persistConsensusState) s fun _ t => Admitted leeway msg.block.header.height t := by
  refine Steps.bind (P := fun state t => t.consensusRounds[msg.block.header.height]? = some state
    ∧ t.chain = s.chain ∧ t.pendingBlocks = s.pendingBlocks
    ∧ (state.round.validatorSet = t.validatorSet ∨ leeway.foreign))
    (roundEntry_steps hsynced (Or.inl hnext) hquorum
      (fun state hstate => ⟨hstate, rfl, rfl, hown.imp_left fun h => h state hstate⟩)
      ⟨by rw [getElem?_setRound, if_pos rfl], rfl, rfl, Or.inl rfl⟩) ?_
  rintro state - ⟨hstate, hchain, hpending, hmembers⟩
  generalize (roundEntry msg.block.header.blockId msg.block.header.height msg.round now s).last
    = s₁ at hstate hchain hpending hmembers ⊢
  refine Steps.get_bind (Steps.check_bind fun next htracked => ?_)
  obtain ⟨hepoch, hhash, rfl⟩ := trackedRound_eq_ok htracked
  have hnext₁ : msg.block.header.height = s₁.nextHeight := by
    rw [hnext, nextHeight, nextHeight, hchain]
  refine Steps.modify_bind (Move.track s₁ _ state _ hstate hhash hnext₁).single ?_
  refine Steps.bind (prevote_steps (by rw [getElem?_setRound, if_pos rfl]) hepoch hid hnext₁) ?_
  rintro _ - ⟨hchain₂, hpending₂, hset₂, state', hstate', hhash', hmembers'⟩
  generalize (prevote msg.block.header.height s₁.currentEpoch _ _).last = s₂
    at hchain₂ hpending₂ hset₂ hstate' ⊢
  refine persistConsensusState_steps ⟨?_, Or.inl ?_, ?_, ?_⟩
  · intro hash block hblock
    refine hkeyed hash block ?_
    rw [← hpending]
    exact hpending₂ ▸ hblock
  · show msg.block.header.height = saturatingAdd s₂.chain.height 1
    rw [hchain₂]
    exact hnext₁
  · intro state'' hstate''
    obtain rfl : state' = state'' := Option.some_inj.mp (hstate'.symm.trans hstate'')
    rw [hhash']
    exact hid
  · intro state'' hstate''
    obtain rfl : state' = state'' := Option.some_inj.mp (hstate'.symm.trans hstate'')
    show state'.round.validatorSet = s₂.validatorSet ∨ leeway.foreign
    rw [hmembers', hset₂]
    exact hmembers

theorem takeProposal_steps {s : NetworkRuntime} {msg : BlockProposalMessage} {now : UInt64}
    (hkeyed : s.Keyed) (hid : msg.block.header.blockId ≠ zeroHash ∨ leeway.lossy)
    (hquorum : s.syncValidatorSetFromChainIfUnconfigured.HighQuorum ∨ leeway.lowQuorum)
    (hown : s.syncValidatorSetFromChainIfUnconfigured.OwnRound msg.block.header.height
      ∨ leeway.foreign) :
    Steps (Move leeway) (takeProposal msg now) s fun _ t =>
      Admitted leeway msg.block.header.height t := by
  refine Steps.check_bind fun _ _ => Steps.modify_bind (Move.sync s).single ?_
  have hkeyed₁ : s.syncValidatorSetFromChainIfUnconfigured.Keyed := by
    obtain ⟨validatorSet, hframe⟩ := s.sync_frame
    rw [hframe]
    exact hkeyed
  have hsynced₁ := s.synced_sync
  generalize s.syncValidatorSetFromChainIfUnconfigured = s₁ at hquorum hown hkeyed₁ hsynced₁ ⊢
  refine Steps.check_bind fun _ _ => ?_
  have htip := s₁.chain.validateCandidateBlockForRound_sameTip msg.block (some msg.round)
  refine Steps.act_bind (Move.settle s₁ _ htip).single fun _ hvalid => ?_
  have hheight : msg.block.header.height = saturatingAdd s₁.chain.height 1 :=
    Chain.height_of_validateCandidateBlockForRound hvalid
  -- from here on the chain is the one that validation left
  have hsynced₂ := hsynced₁.settle htip
  have hquorum₂ := hquorum.imp_left fun h => h.settle htip
  have hnext₂ : msg.block.header.height = nextHeight { s₁ with
      chain := (s₁.chain.validateCandidateBlockForRound msg.block (some msg.round)).2 } := by
    rw [hheight, nextHeight, htip.height]
  have hkeyed₂ : Keyed { s₁ with
      chain := (s₁.chain.validateCandidateBlockForRound msg.block (some msg.round)).2 } := hkeyed₁
  have hown₂ : OwnRound { s₁ with
      chain := (s₁.chain.validateCandidateBlockForRound msg.block (some msg.round)).2 }
      msg.block.header.height ∨ leeway.foreign := hown
  show Steps _ _ { s₁ with
    chain := (s₁.chain.validateCandidateBlockForRound msg.block (some msg.round)).2 } _
  generalize ({ s₁ with
    chain := (s₁.chain.validateCandidateBlockForRound msg.block (some msg.round)).2 }
      : NetworkRuntime) = s₂ at hsynced₂ hquorum₂ hnext₂ hkeyed₂ hown₂ ⊢
  refine Steps.check_bind fun _ _ => Steps.modify_bind (Move.hold s₂ msg.block hnext₂).single ?_
  exact trackProposal_steps (hkeyed₂.holdBlock msg.block) hsynced₂ hid hquorum₂ hnext₂ hown₂

theorem handleBlockProposal_steps {s : NetworkRuntime} {msg : BlockProposalMessage} {now : UInt64}
    (hkeyed : s.Keyed) (hid : msg.block.header.blockId ≠ zeroHash ∨ leeway.lossy)
    (hquorum : s.syncValidatorSetFromChainIfUnconfigured.HighQuorum ∨ leeway.lowQuorum)
    (hown : s.syncValidatorSetFromChainIfUnconfigured.OwnRound msg.block.header.height
      ∨ leeway.foreign)
    (hadvances : (takeProposal msg now s).last.Advances msg.block.header.height ∨ leeway.lossy)
    (hpersists : (takeProposal msg now s).last.Persists msg.block.header.height ∨ leeway.aborts) :
    Steps (Move leeway) (handleBlockProposal msg now) s fun _ _ => True := by
  refine Steps.bind (takeProposal_steps hkeyed hid hquorum hown) fun _ _ hadmitted => ?_
  refine Steps.bind (maybeAdvanceConsensus_steps hadmitted.keyed hadmitted.hash hadmitted.own
    hadmitted.next hadvances hpersists) fun _ _ _ => Steps.get_bind ?_
  split
  · exact Steps.modify (Move.send _ _).single trivial
  · exact Steps.pure trivial

theorem handleBlockResponse_steps {s : NetworkRuntime} {msg : BlockResponseMessage}
    (hresponse : ∀ block, msg.block = some block → (s.chain.importBlock block).1 = .ok () →
      leeway.response s.validatorSet block) :
    Steps (Move leeway) (handleBlockResponse msg) s fun _ _ => True := by
  unfold handleBlockResponse
  rcases hmsg : msg.block with _ | block
  · exact Steps.pure trivial
  dsimp only
  rcases himport : s.chain.importBlock block with ⟨e | ⟨⟩, chain⟩
  · refine Steps.act_bind ?_ ?_
    · rw [himport]
      exact (Move.settle s chain (Chain.sameTip_of_importBlock_error himport)).single
    · intro imported hresult
      rw [himport] at hresult
      cases hresult
      exact Steps.pure trivial
  · refine Steps.act_bind ?_ ?_
    · rw [himport]
      exact (Move.append s block chain himport (Or.inr (hresponse block hmsg
        (by rw [himport])))).single
    · intro imported hresult
      rw [himport] at hresult ⊢
      cases hresult
      refine Steps.modify_bind (Move.forget _ _).single ?_
      refine Steps.modify_bind (Move.decided _ _ (Or.inl ?_)).single
        (persistConsensusState_steps trivial)
      exact (Chain.height_of_importBlock_ok himport).symm

theorem handleFinalityCertificate_steps {s : NetworkRuntime} {certificate : SafetyCertificate} :
    Steps (Move leeway) (handleFinalityCertificate certificate) s fun _ _ => True := by
  refine Steps.modify_bind (Move.sync s).single (Steps.check_bind fun _ hcert => ?_)
  refine Steps.modify_bind (Move.verify _ certificate hcert).single (Steps.check_bind fun _ hknown => ?_)
  refine Steps.modify_bind (Move.settle _ _ (Chain.sameTip_recordSafetyCertificate _ _)).single ?_
  refine Steps.modify_bind (Move.forget _ _).single ?_
  refine Steps.modify_bind (Move.decided _ _ (Or.inr ?_)).single (persistConsensusState_steps trivial)
  split at hknown
  · rename_i hany
    rw [Option.any_eq_true] at hany
    obtain ⟨block, hblock, -⟩ := hany
    show (Chain.blockAt (Chain.recordSafetyCertificate
      s.syncValidatorSetFromChainIfUnconfigured.chain certificate) certificate.height).isSome = true
    rw [Chain.blockAt, (Chain.sameTip_recordSafetyCertificate _ _).blocks]
    exact Option.isSome_of_mem hblock
  · cases hknown

theorem recordEquivocation_steps {s : NetworkRuntime} {voteA voteB : Vote} {epoch : UInt64}
    {spread : Bool} :
    Steps (Move leeway) (recordEquivocation voteA voteB epoch spread) s fun _ _ => True := by
  unfold recordEquivocation
  split
  · refine Steps.check_bind fun _ _ => Steps.check_bind fun _ _ => ?_
    refine Steps.bind (P := fun _ _ => True) ?_ fun punished _ _ => ?_
    · refine Steps.get_bind ?_
      dsimp only
      split
      · exact Steps.pure trivial
      · rename_i hnew
        refine Steps.modify_bind (Move.remember s _ hnew).single ?_
        refine Steps.modify_bind (Move.punish _ _ _ ?_).single (Steps.pure trivial)
        exact (Chain.sameTip_penalizeDoubleSign _ _ _).trans (Chain.sameTip_recordEquivocation _ _ _)
    · split
      · exact Steps.modify (Move.send _ _).single trivial
      · exact Steps.pure trivial
  · exact Steps.pure trivial

/-! ### Votes -/

theorem admitVote_eq_some {round next : ConsensusRound} {vote : Vote}
    (h : admitVote round vote = some next) :
    round.addPrevote vote = .ok next ∨ round.addPrecommit vote = .ok next := by
  unfold admitVote at h
  split at h
  · split at h
    · cases h
    · rcases hadd : round.addPrevote vote with e | next'
      · rw [hadd] at h
        cases h
      · rw [hadd] at h
        cases h
        exact Or.inl rfl
  · split at h
    · cases h
    · rcases hadd : round.addPrecommit vote with e | next'
      · rw [hadd] at h
        cases h
      · rw [hadd] at h
        cases h
        exact Or.inr rfl
  · cases h

/-- An admitted vote leaves the block that the round is about, and its validators. -/
theorem admitVote_frame {round next : ConsensusRound} {vote : Vote}
    (h : admitVote round vote = some next) :
    next.blockHash = round.blockHash ∧ next.validatorSet = round.validatorSet := by
  rcases admitVote_eq_some h with hadd | hadd
  · rw [(addPrevote_eq_ok hadd).2]
    exact ⟨rfl, rfl⟩
  · rw [(addPrecommit_eq_ok hadd).2]
    exact ⟨rfl, rfl⟩

/-- The round of a vote is at hand, and the vote was heard. -/
structure AtHand (leeway : Leeway) (epoch : UInt64) (vote : Vote) (state : RoundState)
    (t : NetworkRuntime) : Prop where
  keyed : t.Keyed
  next : vote.height = t.nextHeight ∨ leeway.lossy
  entry : t.consensusRounds[vote.height]? = some state
  own : state.round.validatorSet = t.validatorSet ∨ leeway.foreign
  heard : Act.hears epoch vote ∈ t.journal

omit [Crypto] in
/-- A round that is about a block can be advanced, as long as it stays about that block
and its validators. -/
theorem AtHand.admitted {epoch : UInt64} {vote : Vote} {state : RoundState} {s t : NetworkRuntime}
    (h : AtHand leeway epoch vote state s) (hzero : state.round.blockHash ≠ zeroHash)
    (hchain : t.chain = s.chain) (hpending : t.pendingBlocks = s.pendingBlocks)
    (hset : t.validatorSet = s.validatorSet)
    (hrounds : ∀ state', t.consensusRounds[vote.height]? = some state' →
      state'.round.blockHash = state.round.blockHash
        ∧ state'.round.validatorSet = state.round.validatorSet) :
    Admitted leeway vote.height t where
  keyed hash block hblock := by
    rw [hpending] at hblock
    exact h.keyed hash block hblock
  next := by
    rw [nextHeight, hchain]
    exact h.next
  hash state' hstate' := by
    rw [(hrounds state' hstate').1]
    exact Or.inl hzero
  own state' hstate' := by
    rw [(hrounds state' hstate').2, hset]
    exact h.own

/-- The vote is put into its round. -/
theorem AtHand.move {epoch : UInt64} {vote : Vote} {state : RoundState} {s : NetworkRuntime}
    {round : ConsensusRound} (h : AtHand leeway epoch vote state s)
    (hepoch : state.round.epoch = epoch) (htaken : admitVote state.round vote = some round) :
    Move leeway s (s.setRound vote.height { state with round }) := by
  have hknown : s.Known state.round.epoch vote := by
    rw [hepoch]
    exact Or.inl h.heard
  rcases admitVote_eq_some htaken with hadd | hadd
  · exact Move.addPrevote s vote.height state vote round h.entry hadd hknown
  · exact Move.addPrecommit s vote.height state vote round h.entry hadd hknown

/-- An admitted vote is put into its round and stored. -/
theorem AtHand.admit_steps {epoch : UInt64} {vote : Vote} {state : RoundState} {s : NetworkRuntime}
    {round : ConsensusRound} (h : AtHand leeway epoch vote state s)
    (hepoch : state.round.epoch = epoch) (hzero : state.round.blockHash ≠ zeroHash)
    (htaken : admitVote state.round vote = some round) {rest : Handler Bool}
    {Q : Bool → NetworkRuntime → Prop}
    (hrest : ∀ t, Admitted leeway vote.height t → Steps (Move leeway) rest t Q) :
    Steps (Move leeway) (do
      Script.modify (setRound vote.height { state with round })
      persistConsensusState
      rest) s Q := by
  have hrounds : ∀ state',
      (s.setRound vote.height { state with round }).consensusRounds[vote.height]? = some state' →
        state'.round.blockHash = state.round.blockHash
          ∧ state'.round.validatorSet = state.round.validatorSet := by
    intro state' hstate'
    rw [getElem?_setRound, if_pos rfl] at hstate'
    obtain rfl := Option.some_inj.mp hstate'
    exact admitVote_frame htaken
  refine Steps.modify_bind (h.move hepoch htaken).single ?_
  refine Steps.bind (P := fun _ t => Admitted leeway vote.height t)
    (persistConsensusState_steps (h.admitted hzero rfl rfl rfl hrounds)) ?_
  rintro _ - hadmitted
  exact hrest _ hadmitted

/-- The round of a vote comes to hand, if need be as a new one. -/
theorem roundEntry_atHand {s : NetworkRuntime} {vote : Vote} {now : UInt64} (hkeyed : s.Keyed)
    (hsynced : s.Synced) (hnext : vote.height = s.nextHeight ∨ leeway.lossy)
    (hquorum : s.HighQuorum ∨ leeway.lowQuorum) (hown : s.OwnRound vote.height ∨ leeway.foreign) :
    Steps (Move leeway) (roundEntry vote.blockHash vote.height vote.round now)
      (record (.hears s.currentEpoch vote) s) (AtHand leeway s.currentEpoch vote) :=
  roundEntry_steps (s := record (.hears s.currentEpoch vote) s) hsynced hnext hquorum
    (fun state hstate =>
      { keyed := hkeyed
        next := hnext
        entry := hstate
        own := hown.imp_left fun h => h state hstate
        heard := List.mem_cons_self })
    { keyed := hkeyed
      next := hnext
      entry := by rw [getElem?_setRound, if_pos rfl]
      own := Or.inl rfl
      heard := List.mem_cons_self }

/-- Up to the advancement of the round; what is admitted advances a round that is
about a block. -/
theorem takeVote_steps {s : NetworkRuntime} {vote : Vote} {now : UInt64} (hkeyed : s.Keyed)
    (hnext : (s.pendingBlocks.contains vote.blockHash = true → vote.height = s.nextHeight)
      ∨ leeway.lossy)
    (hquorum : s.syncValidatorSetFromChainIfUnconfigured.HighQuorum ∨ leeway.lowQuorum)
    (hown : s.syncValidatorSetFromChainIfUnconfigured.OwnRound vote.height ∨ leeway.foreign) :
    Steps (Move leeway) (takeVote vote now) s fun advance t =>
      advance = true → Admitted leeway vote.height t := by
  unfold takeVote
  split
  · exact Steps.pure fun h => nomatch h
  refine Steps.modify_bind (Move.sync s).single (Steps.get_bind ?_)
  have hframe : s.syncValidatorSetFromChainIfUnconfigured.chain = s.chain
      ∧ s.syncValidatorSetFromChainIfUnconfigured.pendingBlocks = s.pendingBlocks := by
    obtain ⟨validatorSet, hframe⟩ := s.sync_frame
    rw [hframe]
    exact ⟨rfl, rfl⟩
  have hsynced₁ := s.synced_sync
  generalize s.syncValidatorSetFromChainIfUnconfigured = s₁ at hquorum hown hsynced₁ hframe ⊢
  obtain ⟨hchain, hpending⟩ := hframe
  split
  · exact Steps.pure fun h => nomatch h
  rename_i hheld
  have hnext₁ : vote.height = s₁.nextHeight ∨ leeway.lossy := by
    refine hnext.imp_left fun h => ?_
    rw [nextHeight, hchain]
    refine h ?_
    rw [← hpending]
    simpa using hheld
  have hkeyed₁ : s₁.Keyed := by
    intro hash block hblock
    rw [hpending] at hblock
    exact hkeyed hash block hblock
  refine Steps.check_bind fun _ hsig => Steps.modify_bind (Move.hear s₁ vote hsig).single ?_
  refine Steps.bind (roundEntry_atHand hkeyed₁ hsynced₁ hnext₁ hquorum hown) ?_
  rintro state - hand
  generalize (roundEntry vote.blockHash vote.height vote.round now
    (record (.hears s₁.currentEpoch vote) s₁)).last = s₂ at hand ⊢
  split
  · exact Steps.pure fun h => nomatch h
  rename_i hepoch
  split
  · exact Steps.pure fun h => nomatch h
  rename_i hzero
  split
  · exact Steps.pure fun h => nomatch h
  split
  · exact Steps.bind recordEquivocation_steps fun _ _ _ => Steps.pure fun h => nomatch h
  split
  · rename_i round htaken
    refine hand.admit_steps (not_not.mp hepoch) hzero htaken fun t ht => ?_
    split
    · exact Steps.modify_bind (Move.send _ _).single
        (Steps.pure fun _ => ⟨ht.keyed, ht.next, ht.hash, ht.own⟩)
    · exact Steps.pure fun _ => ht
  · refine Steps.pure fun _ => hand.admitted hzero rfl rfl rfl fun state' hstate' => ?_
    rw [Option.some_inj.mp (hand.entry.symm.trans hstate')]
    exact ⟨rfl, rfl⟩

theorem handleConsensusVote_steps {s : NetworkRuntime} {vote : Vote} {now : UInt64}
    (hkeyed : s.Keyed)
    (hnext : (s.pendingBlocks.contains vote.blockHash = true → vote.height = s.nextHeight)
      ∨ leeway.lossy)
    (hquorum : s.syncValidatorSetFromChainIfUnconfigured.HighQuorum ∨ leeway.lowQuorum)
    (hown : s.syncValidatorSetFromChainIfUnconfigured.OwnRound vote.height ∨ leeway.foreign)
    (hadvances : (takeVote vote now s).last.Advances vote.height ∨ leeway.lossy)
    (hpersists : (takeVote vote now s).last.Persists vote.height ∨ leeway.aborts) :
    Steps (Move leeway) (handleConsensusVote vote now) s fun _ _ => True := by
  refine Steps.bind (takeVote_steps hkeyed hnext hquorum hown) fun advance _ hadmitted => ?_
  split
  · rename_i hadvance
    have hat := hadmitted hadvance
    exact maybeAdvanceConsensus_steps hat.keyed hat.hash hat.own hat.next hadvances hpersists
  · exact Steps.pure trivial

/-! ## Loops -/

theorem dropBlocks_moves (hashes : List Hash) (s : NetworkRuntime) :
    ReflTransGen (Move leeway) s (hashes.foldl (fun self hash => self.dropBlock hash) s) := by
  induction hashes generalizing s with
  | nil => exact .refl
  | cons hash hashes ih => exact (Move.forget s hash).single.trans (ih _)

theorem consensusTimeout_steps {s : NetworkRuntime} {now : UInt64} :
    Steps (Move leeway) (consensusTimeout now) s fun _ _ => True := by
  refine Steps.get_bind (Steps.modify_bind (Move.timeout s now).single ?_)
  refine Steps.modify_bind (dropBlocks_moves _ _) ?_
  split
  · exact Steps.pure trivial
  · exact persistConsensusState_steps trivial

theorem validatorSetRefresh_steps {s : NetworkRuntime} :
    Steps (Move leeway) validatorSetRefresh s fun _ _ => True := by
  refine Steps.get_bind ?_
  dsimp only
  split
  · exact Steps.pure trivial
  rename_i hskip
  simp only [Bool.or_eq_true, Bool.not_eq_true', not_or, Bool.not_eq_false, List.isEmpty_iff]
    at hskip
  split
  · rename_i hchanged
    refine Steps.modify_bind (Move.refresh s _ hskip.1 (Bool.not_eq_true _ ▸ hskip.2) ?_).single ?_
    · intro hsame
      rw [hsame] at hchanged
      simp at hchanged
    · exact Steps.modify_bind (Move.clearRounds _).single
        (Steps.modify_bind (Move.clearPending _).single (persistConsensusState_steps trivial))
  · exact Steps.pure trivial

/-! ## Events -/

/-- The event does not lose a round that it advances, and concerns the next height.
The zero hash stands for no block and names none. -/
def Orderly (self : NetworkRuntime) : Event → Prop
  | .blockProposal msg now =>
      msg.block.header.blockId ≠ zeroHash
        ∧ (takeProposal msg now self).last.Advances msg.block.header.height
  | .consensusVote vote now =>
      (self.pendingBlocks.contains vote.blockHash = true → vote.height = self.nextHeight)
        ∧ (takeVote vote now self).last.Advances vote.height
  | _ => True

/-- The event does not abort the round that it advances. -/
def Steady (self : NetworkRuntime) : Event → Prop
  | .blockProposal msg now =>
      (takeProposal msg now self).last.Persists msg.block.header.height
  | .consensusVote vote now => (takeVote vote now self).last.Persists vote.height
  | _ => True

def leewayOf (self : NetworkRuntime) (event : Event) : Leeway where
  lossy := ¬ self.Orderly event
  aborts := ¬ self.Steady event
  lowQuorum := event.subject.isSome = true
    ∧ ¬ self.syncValidatorSetFromChainIfUnconfigured.HighQuorum
  foreign := ∃ height, event.subject = some height
    ∧ ¬ self.syncValidatorSetFromChainIfUnconfigured.OwnRound height
  response validators block := validators = self.validatorSet
    ∧ (self.chain.importBlock block).1 = .ok ()
    ∧ ∃ msg, event = .blockResponse msg ∧ msg.block = some block

theorem handle_steps {s : NetworkRuntime} {event : Event} (hkeyed : s.Keyed)
    (hrestart : event.isRestart = false) :
    Steps (Move (s.leewayOf event)) (handle event) s fun _ _ => True := by
  cases event with
  | blockProposal msg now =>
      have horderly := em (s.Orderly (.blockProposal msg now))
      exact handleBlockProposal_steps hkeyed (horderly.imp_left (·.1))
        ((em _).imp_right fun hlow => ⟨rfl, hlow⟩) ((em _).imp_right fun hother => ⟨_, rfl, hother⟩)
        (horderly.imp_left (·.2)) (em _)
  | consensusVote vote now =>
      have horderly := em (s.Orderly (.consensusVote vote now))
      exact handleConsensusVote_steps hkeyed (horderly.imp_left (·.1))
        ((em _).imp_right fun hlow => ⟨rfl, hlow⟩) ((em _).imp_right fun hother => ⟨_, rfl, hother⟩)
        (horderly.imp_left (·.2)) (em _)
  | blockResponse msg =>
      exact handleBlockResponse_steps fun block hblock himport =>
        ⟨rfl, himport, msg, rfl, hblock⟩
  | finalityCertificate certificate => exact handleFinalityCertificate_steps
  | equivocationEvidence msg => exact recordEquivocation_steps
  | timeout now => exact consensusTimeout_steps
  | refresh => exact validatorSetRefresh_steps
  | peers registry => exact Steps.modify (Move.meet s registry).single trivial
  | restart chain => cases hrestart

/-- A node that was started again, before it writes anything. -/
def loaded (self fresh : NetworkRuntime) : NetworkRuntime :=
  (loadPersistedConsensusState { fresh with store := self.store, journal := self.journal }).2

/-- What follows on reading back what was stored. -/
theorem readBack_steps (s fresh : NetworkRuntime) :
    Steps (Move leeway) (match (loadPersistedConsensusState
          { fresh with store := s.store, journal := s.journal }).1 with
        | .nothing => pure ()
        | .clearPending => Script.modify clearPendingBlocks
        | .rewrite => persistConsensusState) (s.loaded fresh) fun _ _ => True := by
  split
  · exact Steps.pure trivial
  · exact Steps.modify (Move.clearPending _).single trivial
  · exact persistConsensusState_steps trivial

omit [Crypto] in
theorem states_restart {s fresh : NetworkRuntime} {chain : Chain}
    (hnew : new (s.reloaded chain) s.config = .ok fresh) :
    (restart chain s).states = s :: ((match (loadPersistedConsensusState
          { fresh with store := s.store, journal := s.journal }).1 with
        | .nothing => pure ()
        | .clearPending => Script.modify clearPendingBlocks
        | .rewrite => persistConsensusState : Handler Unit) (s.loaded fresh)).states := by
  simp only [restart, Script.act, bind, hnew]
  rfl

theorem restart_states {s t : NetworkRuntime} {chain : Chain} (h : t ∈ (restart chain s).states) :
    t = s ∨ ∃ fresh, new (s.reloaded chain) s.config = .ok fresh
      ∧ ReflTransGen (Move leeway) (s.loaded fresh) t := by
  rcases hnew : new (s.reloaded chain) s.config with e | fresh
  · left
    have hrun : restart chain s = ⟨.error e, s, [s]⟩ := by
      simp only [restart, Script.act, bind, hnew]
    rw [hrun] at h
    simpa [Interrupt.Outcome.states] using h
  · rw [states_restart hnew] at h
    rcases List.mem_cons.mp h with hs | hrest
    · exact Or.inl hs
    · exact Or.inr ⟨fresh, rfl, (readBack_steps s fresh).states t hrest⟩

end

/-! ## Pending blocks are filed under their ids -/

theorem getElem?_foldl_insert_blockId (blocks : List Block) (map : Std.ExtTreeMap Hash Block)
    (hmap : ∀ (hash : Hash) (block : Block), map[hash]? = some block → block.header.blockId = hash)
    (hash : Hash) (block : Block)
    (h : (blocks.foldl (fun map block => map.insert block.header.blockId block) map)[hash]?
      = some block) : block.header.blockId = hash := by
  induction blocks generalizing map with
  | nil => exact hmap hash block h
  | cons b blocks ih =>
      refine ih _ ?_ h
      intro k c hc
      rw [Std.ExtTreeMap.getElem?_insert] at hc
      by_cases hk : b.header.blockId = k
      · simp only [hk, Std.LawfulEqCmp.compare_eq_iff_eq, if_true, Option.some_inj] at hc
        rw [← hc, hk]
      · simp only [Std.LawfulEqCmp.compare_eq_iff_eq, hk, if_false] at hc
        exact hmap k c hc

theorem blockId_of_loadPendingBlocks {store : ConsensusStore} {hash : Hash} {block : Block}
    (h : (orKeep ∅ store.loadPendingBlocks)[hash]? = some block) : block.header.blockId = hash := by
  unfold ConsensusStore.loadPendingBlocks at h
  split at h
  · simp [orKeep] at h
  · split at h
    · simp [orKeep] at h
    · exact getElem?_foldl_insert_blockId _ ∅ (by simp) hash block h

theorem isEmpty_selfKeyed {ids : List Hash} (h : ids ≠ []) : (selfKeyed ids).isEmpty = false := by
  have hinsert : ∀ (map : ValidatorKeys) (id : Hash), (map.insert id id).isEmpty = false :=
    fun map id => by simp
  have haux : ∀ (l : List Hash) (map : ValidatorKeys), map.isEmpty = false →
      (l.foldl (fun map id => map.insert id id) map).isEmpty = false := by
    intro l
    induction l with
    | nil => exact fun map hmap => hmap
    | cons id l ih => exact fun map _ => ih _ (hinsert map id)
  cases ids with
  | nil => exact absurd rfl h
  | cons id ids => exact haux ids _ (hinsert ∅ id)

/-- Configured validators are there. -/
theorem isEmpty_of_validatorSetMap {config : NetworkConfig} {validatorSet : ValidatorKeys}
    (h : validatorSetMap config = .ok validatorSet) (hne : config.validators ≠ []) :
    validatorSet.isEmpty = false := by
  unfold validatorSetMap at h
  rcases hids : config.validators.mapM decodeValidator with e | ids
  · rw [hids] at h
    cases h
  · rw [hids] at h
    obtain rfl := Except.ok.inj h
    refine isEmpty_selfKeyed fun hnil => ?_
    rw [hnil] at hids
    rcases hconfig : config.validators with _ | ⟨entry, rest⟩
    · exact hne hconfig
    · rw [hconfig, List.mapM_cons, Fallible.bind_eq_ok_iff] at hids
      obtain ⟨id, -, hrest⟩ := hids
      rw [Fallible.bind_eq_ok_iff] at hrest
      obtain ⟨ids, -, hcons⟩ := hrest
      cases hcons

/-- A runtime that was just made holds nothing, and is the one of its chain. -/
structure Fresh (chain : Chain) (config : NetworkConfig) (fresh : NetworkRuntime) : Prop where
  tip : fresh.chain.blocks = chain.blocks ∧ fresh.chain.treasury = chain.treasury
    ∧ fresh.chain.state = chain.state
  config : fresh.config = config
  store : fresh.store = none
  rounds : fresh.consensusRounds = ∅
  pending : fresh.pendingBlocks = ∅
  equivocations : fresh.equivocations = ∅
  order : fresh.equivocationsOrder = []
  key : fresh.validatorKey = chain.validatorKey
  validatorId : fresh.validatorId = chain.localValidatorId
  chainId : fresh.chainId = chain.chainId
  journal : fresh.journal = []
  validatorSet : fresh.config.validators ≠ [] →
    validatorSetMap fresh.config = .ok fresh.validatorSet

theorem fresh_of_new {chain : Chain} {config : NetworkConfig} {fresh : NetworkRuntime}
    (h : new chain config = .ok fresh) : Fresh chain config fresh := by
  unfold new at h
  rw [Fallible.bind_eq_ok_iff] at h
  obtain ⟨validators, -, h⟩ := h
  rw [Fallible.bind_eq_ok_iff] at h
  obtain ⟨validatorSet, hset, h⟩ := h
  cases h
  refine ⟨?_, rfl, rfl, rfl, rfl, rfl, rfl, rfl, rfl, rfl, rfl, fun hne => ?_⟩
  · dsimp only
    split
    · exact ⟨rfl, rfl, rfl⟩
    · exact ⟨rfl, rfl, rfl⟩
  · dsimp only
    rw [isEmpty_of_validatorSetMap hset hne]
    exact hset

/-- What a restart does not load is as it was made, but for the disk. -/
theorem loaded_frame (s fresh : NetworkRuntime) :
    ∃ consensusRounds pendingBlocks, s.loaded fresh = { fresh with
      store := s.store, journal := s.journal, consensusRounds, pendingBlocks } := by
  unfold loaded loadPersistedConsensusState
  dsimp only
  split
  · exact ⟨_, _, rfl⟩
  · split
    · exact ⟨_, _, rfl⟩
    · split
      · exact ⟨_, _, rfl⟩
      · exact ⟨_, _, rfl⟩

/-- The rounds after a restart are on disk, at the next height. -/
theorem getElem?_rounds_loaded {s fresh : NetworkRuntime} {height : UInt64} {state : RoundState}
    (hfresh : fresh.consensusRounds = ∅)
    (h : (s.loaded fresh).consensusRounds[height]? = some state) :
    height = fresh.nextHeight ∧ ∃ store persisted, s.store = some store
      ∧ store.consensusRounds[height]? = some persisted
      ∧ state = restoredRound (orKeep ∅ store.loadPendingBlocks) persisted := by
  unfold loaded loadPersistedConsensusState at h
  dsimp only at h
  split at h
  · rw [hfresh] at h
    simp at h
  · rename_i store hstore
    split at h
    · rw [hfresh] at h
      simp at h
    · rename_i persisted hload
      split at h
      · rw [hfresh] at h
        simp at h
      · unfold restoreRounds at h
        dsimp only at h
        rw [Std.ExtTreeMap.getElem?_map, Option.map_eq_some_iff] at h
        obtain ⟨entry, hentry, rfl⟩ := h
        rw [Std.ExtTreeMap.getElem?_filter', Option.filter_eq_some_iff] at hentry
        obtain rfl : store.consensusRounds = persisted := by
          unfold ConsensusStore.loadConsensusState at hload
          split at hload
          · cases hload
          · exact Except.ok.inj hload
        exact ⟨of_decide_eq_true hentry.2, store, entry, hstore, hentry.1, rfl⟩

theorem keyed_loaded {s fresh : NetworkRuntime} (hfresh : fresh.pendingBlocks = ∅) :
    (s.loaded fresh).Keyed := by
  intro hash block hblock
  unfold loaded loadPersistedConsensusState at hblock
  dsimp only at hblock
  split at hblock
  · rw [hfresh] at hblock
    simp at hblock
  · split at hblock
    · rw [hfresh] at hblock
      simp at hblock
    · split at hblock
      · simp at hblock
      · unfold restoreRounds at hblock
        dsimp only at hblock
        rw [Std.ExtTreeMap.getElem?_filter', Option.filter_eq_some_iff] at hblock
        exact blockId_of_loadPendingBlocks hblock.1

theorem Move.keyed [Crypto] {leeway : Leeway} {s t : NetworkRuntime} (h : Move leeway s t)
    (hs : s.Keyed) : t.Keyed := by
  cases h with
  | hold block hnext =>
      intro hash b hb
      rw [holdBlock, Std.ExtTreeMap.getElem?_insert] at hb
      by_cases hhash : block.header.blockId = hash
      · simp only [hhash, Std.LawfulEqCmp.compare_eq_iff_eq, if_true, Option.some_inj] at hb
        rw [← hb, hhash]
      · simp only [Std.LawfulEqCmp.compare_eq_iff_eq, hhash, if_false] at hb
        exact hs hash b hb
  | forget hash =>
      intro k b hb
      rw [dropBlock, Std.ExtTreeMap.getElem?_erase] at hb
      split at hb
      · cases hb
      · exact hs k b hb
  | refresh registry hconfig hactive hchanged =>
      intro k b hb
      simp at hb
  | sync =>
      obtain ⟨validatorSet, hframe⟩ := s.sync_frame
      rw [hframe]
      exact hs
  | _ => exact hs

end NetworkRuntime

/-! ## Runs -/

namespace Node

open NetworkRuntime

variable [Crypto]

/-- A node as it is set up, with an empty store or with none. -/
def Founded (self : Node) : Prop :=
  self.up = true ∧ ∃ chain config fresh, new chain config = .ok fresh
    ∧ (self.runtime = fresh ∨ self.runtime = fresh.withPersistence {})

omit [Crypto] in
theorem Founded.keyed {self : Node} (h : self.Founded) : self.runtime.Keyed := by
  obtain ⟨-, chain, config, fresh, hnew, hruntime⟩ := h
  have hpending : self.runtime.pendingBlocks = ∅ := by
    rcases hruntime with hplain | hstored
    · rw [hplain]
      exact (fresh_of_new hnew).pending
    · rw [hstored]
      exact (fresh_of_new hnew).pending
  intro hash block hblock
  rw [hpending] at hblock
  simp at hblock

/-- What holds in every state that an event goes through holds after it, cut off or
not. -/
theorem step_of_states {I : NetworkRuntime → Prop} {node : Node} {input : Input}
    (hstates : ∀ t ∈ (handle input.event node.runtime).states, I t) (hI : I node.runtime) :
    I (node.step input).runtime := by
  unfold step
  split
  · have hlast : (handle input.event node.runtime).last
        ∈ (handle input.event node.runtime).states := by
      simp [Interrupt.Outcome.states]
    dsimp only
    split
    · rename_i k _
      show I ((handle input.event node.runtime).states[k]?.getD
        (handle input.event node.runtime).last)
      rcases hk : (handle input.event node.runtime).states[k]? with _ | t
      · exact hstates _ hlast
      · exact hstates t (List.mem_of_getElem? hk)
    · exact hstates _ hlast
  · exact hI

/-- What the moves of an event keep, and a restart establishes, holds after it, cut
off or not. -/
theorem step_keeps {I : NetworkRuntime → Prop} {node : Node} {input : Input}
    (hkeyed : node.runtime.Keyed) (hI : I node.runtime)
    (hmove : ∀ s t, Move (node.runtime.leewayOf input.event) s t → I s → I t)
    (hload : ∀ chain fresh, input.event = .restart chain →
      new (node.runtime.reloaded chain) node.runtime.config = .ok fresh →
      I (node.runtime.loaded fresh)) :
    I (node.step input).runtime := by
  refine step_of_states (fun t ht => ?_) hI
  by_cases hrestart : input.event.isRestart = true
  · rcases hevent : input.event with _ | _ | _ | _ | _ | _ | _ | _ | chain
    all_goals rw [hevent] at hrestart ht
    case restart =>
      rcases @restart_states _ (node.runtime.leewayOf input.event) _ _ _ ht with
        rfl | ⟨fresh, hnew, hpath⟩
      · exact hI
      · exact Interrupt.keeps hmove hpath (hload chain fresh hevent hnew)
    all_goals cases hrestart
  · exact Interrupt.keeps hmove ((handle_steps hkeyed (Bool.not_eq_true _ ▸ hrestart)).states t ht) hI

theorem step_keyed {node : Node} {input : Input} (hkeyed : node.runtime.Keyed) :
    (node.step input).runtime.Keyed :=
  step_keeps hkeyed hkeyed (fun _ _ hmove hs => hmove.keyed hs)
    fun _ _ _ hnew => keyed_loaded (fresh_of_new hnew).pending

end Node

end Sccgub
