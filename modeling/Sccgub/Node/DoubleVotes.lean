import Mathlib
import Sccgub.Node.Certificates

/-!
# Double votes

A vote for another block than the one that a round tracks is dropped before it is
compared with anything.  What a round holds is therefore about the block that it
tracks (`Focused`), and no vote that reaches the comparison differs from it.  The
exception are the votes that the node itself cast for the zero hash, which stands
for no block: a round whose block was proposed under that id takes up the next one
with the votes that it has.

- **rounds** (`run_focused`): in every run all rounds are focused, in memory and on
  disk.
- **the ledger** (`recorded_recordEquivocation_iff`): which evidence the ledger
  has after one more entry, through the truncation and whichever of the two votes
  comes first.
- **one handler** (`Keeps`, `handle_keeps`): every statement keeps rounds focused,
  and the ledger as well unless it is about evidence.
- **a second vote** (`recorded_handleConsensusVote_iff`): it is recorded exactly if
  a vote for another block is held against it and that is news.

The result about two votes with anything in between is put together from these.
-/

namespace Sccgub

open Bincode FixedWidth Safety
open Interrupt (Script Steps)
open Relation (ReflTransGen)

/-! ## The ledger of evidence -/

/-- The same two hashes, in one order or the other. -/
def SamePair (x y a b : Hash) : Prop := x = a ∧ y = b ∨ x = b ∧ y = a

instance (x y a b : Hash) : Decidable (SamePair x y a b) :=
  inferInstanceAs (Decidable (_ ∨ _))

namespace SamePair

variable {x y a b c d : Hash}

theorem symm (h : SamePair x y a b) : SamePair a b x y :=
  h.imp (fun h => ⟨h.1.symm, h.2.symm⟩) fun h => ⟨h.2.symm, h.1.symm⟩

theorem trans (h : SamePair x y a b) (h' : SamePair a b c d) : SamePair x y c d := by
  rcases h with ⟨rfl, rfl⟩ | ⟨rfl, rfl⟩
  · exact h'
  · exact h'.symm.symm.elim (fun h => Or.inr ⟨h.2, h.1⟩) fun h => Or.inl ⟨h.2, h.1⟩

/-- Of two hashes that differ one tells which pair it is. -/
theorem congr_left_iff (h : SamePair x y a b) (hne : a ≠ b) : SamePair x y c b ↔ c = a := by
  refine ⟨fun hc => ?_, fun hc => hc ▸ h⟩
  rcases h.symm.trans hc with ⟨hac, -⟩ | ⟨hab, -⟩
  · exact hac.symm
  · exact absurd hab hne

end SamePair

theorem samePair_orderedHashes (a b : Hash) :
    SamePair (orderedHashes a b).1 (orderedHashes a b).2 a b := by
  unfold orderedHashes
  split
  · exact Or.inl ⟨rfl, rfl⟩
  · exact Or.inr ⟨rfl, rfl⟩

theorem samePair_of_orderedHashes {x y a b : Hash} (h : orderedHashes x y = orderedHashes a b) :
    SamePair x y a b := by
  have hxy := samePair_orderedHashes x y
  rw [h] at hxy
  exact hxy.symm.trans (samePair_orderedHashes a b)

/-- The ledger has the two votes, as the validator, height, round and the two blocks
in either order. -/
def Recorded (records : List (EquivocationProof × UInt64)) (voteA voteB : Vote) : Prop :=
  ∃ entry ∈ records, entry.1.validatorId = voteB.validatorId ∧ entry.1.height = voteB.height
    ∧ entry.1.round = voteB.round
    ∧ SamePair entry.1.blockHashA entry.1.blockHashB voteA.blockHash voteB.blockHash

instance (records : List (EquivocationProof × UInt64)) (voteA voteB : Vote) :
    Decidable (Recorded records voteA voteB) :=
  inferInstanceAs (Decidable (∃ entry ∈ records, _))

namespace Chain

/-- The ledger has the proof, in the epoch. -/
def hasEquivocation (self : Chain) (proof : EquivocationProof) (epoch : UInt64) : Bool :=
  self.equivocationRecords.any fun (existing, existingEpoch) =>
    existingEpoch = epoch && existing.validatorId = proof.validatorId
      && existing.height = proof.height && existing.round = proof.round
      && existing.voteType = proof.voteType
      && orderedHashes existing.blockHashA existing.blockHashB
        = orderedHashes proof.blockHashA proof.blockHashB

/-- What the ledger keeps when the proof comes: the most recent ones. -/
def retained (self : Chain) (proof : EquivocationProof) (epoch : UInt64) :
    List (EquivocationProof × UInt64) :=
  if self.hasEquivocation proof epoch then self.equivocationRecords
  else self.equivocationRecords.drop (self.equivocationRecords.length + 1 - maxEquivocationRecords)

theorem equivocationRecords_recordEquivocation (self : Chain) (proof : EquivocationProof)
    (epoch : UInt64) :
    (self.recordEquivocation proof epoch).equivocationRecords
      = if self.hasEquivocation proof epoch then self.equivocationRecords
        else self.retained proof epoch ++ [({ proof with
          blockHashA := (orderedHashes proof.blockHashA proof.blockHashB).1
          blockHashB := (orderedHashes proof.blockHashA proof.blockHashB).2 }, epoch)] := by
  have hhas : self.hasEquivocation proof epoch = self.equivocationRecords.any
      fun (existing, existingEpoch) =>
        existingEpoch = epoch && existing.validatorId = proof.validatorId
          && existing.height = proof.height && existing.round = proof.round
          && existing.voteType = proof.voteType
          && orderedHashes existing.blockHashA existing.blockHashB
            = ((orderedHashes proof.blockHashA proof.blockHashB).1,
              (orderedHashes proof.blockHashA proof.blockHashB).2) := rfl
  unfold recordEquivocation retained
  dsimp only
  rw [← hhas]
  by_cases h : self.hasEquivocation proof epoch = true
  · rw [if_pos h, if_pos h]
  · rw [if_neg h, if_neg h, if_neg h]
    rw [List.length_append, List.length_singleton]
    rw [List.drop_append_of_le_length (by unfold maxEquivocationRecords; omega)]

/-- Only the ledger counts for what is recorded in it. -/
theorem recordEquivocation_congr {chain other : Chain}
    (h : other.equivocationRecords = chain.equivocationRecords) (proof : EquivocationProof)
    (epoch : UInt64) :
    (other.recordEquivocation proof epoch).equivocationRecords
      = (chain.recordEquivocation proof epoch).equivocationRecords := by
  rw [equivocationRecords_recordEquivocation, equivocationRecords_recordEquivocation]
  unfold retained hasEquivocation
  rw [h]

end Chain

namespace NetworkRuntime

/-- The vote is recorded with the first one; what else is recorded is what the ledger
keeps. -/
theorem recorded_recordEquivocation_iff (chain : Chain) {first vote : Vote} (epoch : UInt64)
    (hconflict : conflicting first vote = true) (other : Vote) :
    Recorded (chain.recordEquivocation (equivocationProof first vote) epoch).equivocationRecords
        other vote
      ↔ other.blockHash = first.blockHash
        ∨ Recorded (chain.retained (equivocationProof first vote) epoch) other vote := by
  simp only [conflicting, Bool.and_eq_true, decide_eq_true_eq] at hconflict
  obtain ⟨⟨⟨⟨hid, hheight⟩, hround⟩, -⟩, hne⟩ := hconflict
  set proof := equivocationProof first vote with hdef
  have hproof : SamePair proof.blockHashA proof.blockHashB first.blockHash vote.blockHash :=
    samePair_orderedHashes first.blockHash vote.blockHash
  rw [Chain.equivocationRecords_recordEquivocation]
  by_cases hhas : chain.hasEquivocation proof epoch = true
  · rw [if_pos hhas, Chain.retained, if_pos hhas]
    refine ⟨Or.inr, ?_⟩
    rintro (hother | h)
    · obtain ⟨⟨existing, existingEpoch⟩, hmem, hsame⟩ := List.any_eq_true.mp hhas
      simp only [Bool.and_eq_true, decide_eq_true_eq] at hsame
      obtain ⟨⟨⟨⟨⟨-, hid'⟩, hheight'⟩, hround'⟩, -⟩, hhashes⟩ := hsame
      have hpair := (samePair_of_orderedHashes hhashes).trans hproof
      exact ⟨_, hmem, hid'.trans hid, hheight'.trans hheight, hround'.trans hround,
        (hpair.congr_left_iff hne).mpr hother⟩
    · exact h
  · rw [if_neg hhas]
    have hpair := (samePair_orderedHashes proof.blockHashA proof.blockHashB).trans hproof
    constructor
    · rintro ⟨entry, hmem, hentry⟩
      rcases List.mem_append.mp hmem with hold | hlast
      · exact Or.inr ⟨entry, hold, hentry⟩
      · obtain rfl := List.mem_singleton.mp hlast
        exact Or.inl ((hpair.congr_left_iff hne).mp hentry.2.2.2)
    · rintro (hother | ⟨entry, hmem, hentry⟩)
      · exact ⟨_, List.mem_append_right _ (List.mem_singleton_self _), hid, hheight, hround,
          (hpair.congr_left_iff hne).mpr hother⟩
      · exact ⟨entry, List.mem_append_left _ hmem, hentry⟩

end NetworkRuntime

namespace Chain

theorem equivocationRecords_recordSafetyCertificate (self : Chain)
    (certificate : SafetyCertificate) :
    (self.recordSafetyCertificate certificate).equivocationRecords = self.equivocationRecords := by
  unfold recordSafetyCertificate
  split
  · rfl
  · rfl

theorem equivocationRecords_penalizeDoubleSign (self : Chain) (proof : EquivocationProof)
    (epoch : UInt64) :
    (self.penalizeDoubleSign proof epoch).equivocationRecords = self.equivocationRecords := by
  unfold penalizeDoubleSign
  split
  · rfl
  · unfold executeSlashingPenalty
    dsimp only
    split
    all_goals
      split
      · split
        · rfl
        · rfl
      · rfl

variable [Crypto]

theorem equivocationRecords_validateCandidateBlockForRound (self : Chain) (block : Block)
    (consensusRound : Option UInt32) :
    (self.validateCandidateBlockForRound block consensusRound).2.equivocationRecords
      = self.equivocationRecords := by
  unfold validateCandidateBlockForRound
  split
  · rfl
  · split
    · rfl
    · rfl

theorem equivocationRecords_importBlock (self : Chain) (block : Block) :
    (self.importBlock block).2.equivocationRecords = self.equivocationRecords := by
  unfold importBlock
  have hvalidate := self.equivocationRecords_validateCandidateBlockForRound block none
  rcases hrun : self.validateCandidateBlock block with ⟨e | ⟨⟩, chain⟩
  all_goals
    obtain rfl : chain = (self.validateCandidateBlockForRound block none).2 :=
      (congrArg Prod.snd hrun).symm
  · exact hvalidate
  · dsimp only
    split
    · exact hvalidate
    · split
      · exact hvalidate
      · exact hvalidate

end Chain

/-! ## What a round holds -/

/-- The votes of a round are about the block that it tracks, or about none. -/
def ConsensusRound.Focused (round : ConsensusRound) : Prop :=
  ∀ (id : Hash) (vote : Vote),
    round.prevotes[id]? = some vote ∨ round.precommits[id]? = some vote →
    vote.blockHash = round.blockHash ∨ vote.blockHash = zeroHash

namespace ConsensusRound

variable {round next : ConsensusRound}

/-- Votes for no block stay, whatever the round goes on to track. -/
theorem Focused.track (h : round.Focused) {hash : Hash}
    (hhash : round.blockHash = zeroHash ∨ round.blockHash = hash) :
    Focused { round with blockHash := hash } := by
  intro id vote hvote
  rcases h id vote hvote with heq | hzero
  · rcases hhash with hnone | hsame
    · exact Or.inr (heq.trans hnone)
    · exact Or.inl (heq.trans hsame)
  · exact Or.inr hzero

theorem Focused.congr (h : round.Focused) (hhash : next.blockHash = round.blockHash)
    (hprevotes : next.prevotes = round.prevotes)
    (hprecommits : next.precommits = round.precommits) :
    next.Focused := by
  intro id vote hvote
  rw [hprevotes, hprecommits] at hvote
  rw [hhash]
  exact h id vote hvote

theorem focused_of_empty (hprevotes : round.prevotes = ∅) (hprecommits : round.precommits = ∅) :
    round.Focused := by
  intro id vote hvote
  rw [hprevotes, hprecommits] at hvote
  simp at hvote

variable [Crypto]

theorem Focused.addPrevote (h : round.Focused) {vote : Vote}
    (hhash : vote.blockHash = round.blockHash) (hadd : round.addPrevote vote = .ok next) :
    next.Focused := by
  obtain ⟨-, rfl⟩ := NetworkRuntime.addPrevote_eq_ok hadd
  rintro id other (hother | hother)
  · rw [Std.ExtTreeMap.getElem?_insert] at hother
    split at hother
    · exact Or.inl (Option.some_inj.mp hother ▸ hhash)
    · exact h id other (Or.inl hother)
  · exact h id other (Or.inr hother)

theorem Focused.addPrecommit (h : round.Focused) {vote : Vote}
    (hhash : vote.blockHash = round.blockHash) (hadd : round.addPrecommit vote = .ok next) :
    next.Focused := by
  obtain ⟨-, rfl⟩ := NetworkRuntime.addPrecommit_eq_ok hadd
  rintro id other (hother | hother)
  · exact h id other (Or.inl hother)
  · rw [Std.ExtTreeMap.getElem?_insert] at hother
    split at hother
    · exact Or.inl (Option.some_inj.mp hother ▸ hhash)
    · exact h id other (Or.inr hother)

end ConsensusRound

/-- What the runtime set knows the evidence by. -/
def EquivocationProof.key (self : EquivocationProof) (epoch : UInt64) : EquivocationKey where
  validatorId := self.validatorId
  height := self.height
  round := self.round
  voteType := self.voteType.asU8
  blockHashA := self.blockHashA
  blockHashB := self.blockHashB
  epoch

def Act.slashedKey : Act → Option EquivocationKey
  | .slashes key => some key
  | _ => none

namespace NetworkRuntime

/-- The evidence that stakes were slashed for, newest first. -/
def slashed (self : NetworkRuntime) : List EquivocationKey := self.journal.filterMap Act.slashedKey

/-- The evidence that the chain of the node keeps. -/
def ledger (self : NetworkRuntime) : List (EquivocationProof × UInt64) :=
  self.chain.equivocationRecords

/-- So are the rounds that are open and those on disk. -/
structure Focused (s : NetworkRuntime) : Prop where
  rounds : ∀ (height : UInt64) (state : RoundState), s.consensusRounds[height]? = some state →
    state.round.Focused
  stored : ∀ store, s.store = some store →
    ∀ (height : UInt64) (persisted : PersistedRoundState),
      store.consensusRounds[height]? = some persisted →
        (persistedToRoundState persisted).round.Focused

/-- A statement that keeps the rounds to their blocks, and the ledger unless it is
about evidence. -/
structure Keeps (evidence : Prop) (s t : NetworkRuntime) : Prop where
  focused : s.Focused → t.Focused
  ledger : t.ledger = s.ledger ∨ evidence

variable {evidence : Prop}

namespace Keeps

theorem refl (s : NetworkRuntime) : Keeps evidence s s := ⟨id, Or.inl rfl⟩

theorem trans {s t u : NetworkRuntime} (h : Keeps evidence s t) (h' : Keeps evidence t u) :
    Keeps evidence s u := by
  refine ⟨h'.focused ∘ h.focused, ?_⟩
  rcases h.ledger with hst | hevidence
  · rcases h'.ledger with htu | hevidence
    · exact Or.inl (htu.trans hst)
    · exact Or.inr hevidence
  · exact Or.inr hevidence

theorem of_path {s t : NetworkRuntime} (h : ReflTransGen (Keeps evidence) s t) :
    Keeps evidence s t := by
  induction h with
  | refl => exact refl s
  | tail _ hlast ih => exact ih.trans hlast

/-- A statement that leaves the rounds and the disk. -/
theorem of_same {s t : NetworkRuntime} (hrounds : t.consensusRounds = s.consensusRounds)
    (hstore : t.store = s.store)
    (hledger : t.ledger = s.ledger ∨ evidence) :
    Keeps evidence s t := by
  refine ⟨fun h => ⟨?_, ?_⟩, hledger⟩
  · rw [hrounds]
    exact h.rounds
  · rw [hstore]
    exact h.stored

/-- A statement that leaves out some rounds. -/
theorem of_rounds {s t : NetworkRuntime}
    (hrounds : s.Focused → ∀ (height : UInt64) (state : RoundState),
      t.consensusRounds[height]? = some state → state.round.Focused)
    (hstore : t.store = s.store)
    (hledger : t.ledger = s.ledger) :
    Keeps evidence s t := by
  refine ⟨fun h => ⟨hrounds h, ?_⟩, Or.inl hledger⟩
  rw [hstore]
  exact h.stored

theorem setRound {s : NetworkRuntime} {height : UInt64} {state : RoundState}
    (h : s.Focused → state.round.Focused) : Keeps evidence s (s.setRound height state) := by
  refine of_rounds (fun hs k other hother => ?_) rfl rfl
  rw [getElem?_setRound] at hother
  split at hother
  · exact Option.some_inj.mp hother ▸ h hs
  · exact hs.rounds k other hother

theorem dropRound {s : NetworkRuntime} (height : UInt64) :
    Keeps evidence s (s.dropRound height) := by
  refine of_rounds (fun hs k other hother => ?_) rfl rfl
  rw [NetworkRuntime.dropRound, Std.ExtTreeMap.getElem?_erase] at hother
  split at hother
  · cases hother
  · exact hs.rounds k other hother

theorem sync (s : NetworkRuntime) : Keeps evidence s s.syncValidatorSetFromChainIfUnconfigured := by
  obtain ⟨validatorSet, hframe⟩ := s.sync_frame
  rw [hframe]
  exact of_same rfl rfl (Or.inl rfl)

/-- The rounds on disk are the open ones. -/
theorem saveRounds (s : NetworkRuntime) : Keeps evidence s s.saveConsensusState := by
  refine ⟨fun h => ⟨h.rounds, ?_⟩, Or.inl rfl⟩
  intro store hstore height persisted hpersisted
  obtain ⟨old, -, rfl⟩ := Option.map_eq_some_iff.mp hstore
  rw [Std.ExtTreeMap.getElem?_map] at hpersisted
  obtain ⟨state, hstate, rfl⟩ := Option.map_eq_some_iff.mp hpersisted
  rintro id vote (hvote | hvote)
  · obtain ⟨hmem, -⟩ := getElem?_votesById hvote
    obtain ⟨id', hid'⟩ := ConsensusRound.getElem?_of_mem_values hmem
    exact h.rounds height state hstate id' vote (Or.inl hid')
  · obtain ⟨hmem, -⟩ := getElem?_votesById hvote
    obtain ⟨id', hid'⟩ := ConsensusRound.getElem?_of_mem_values hmem
    exact h.rounds height state hstate id' vote (Or.inr hid')

theorem savePending (s : NetworkRuntime) : Keeps evidence s s.savePendingBlocks := by
  refine ⟨fun h => ⟨h.rounds, ?_⟩, Or.inl rfl⟩
  intro store hstore
  obtain ⟨old, hold, rfl⟩ := Option.map_eq_some_iff.mp hstore
  exact h.stored old hold

theorem clearRounds (s : NetworkRuntime) : Keeps evidence s s.clearConsensusState := by
  refine ⟨fun h => ⟨h.rounds, ?_⟩, Or.inl rfl⟩
  intro store hstore height persisted hpersisted
  obtain ⟨old, -, rfl⟩ := Option.map_eq_some_iff.mp hstore
  simp at hpersisted

theorem clearPending (s : NetworkRuntime) : Keeps evidence s s.clearPendingBlocks := by
  refine ⟨fun h => ⟨h.rounds, ?_⟩, Or.inl rfl⟩
  intro store hstore
  obtain ⟨old, hold, rfl⟩ := Option.map_eq_some_iff.mp hstore
  exact h.stored old hold

/-- A statement on what is not followed here. -/
theorem quiet {s t : NetworkRuntime} (hrounds : t.consensusRounds = s.consensusRounds)
    (hstore : t.store = s.store)
    (hledger : t.ledger = s.ledger) :
    ReflTransGen (Keeps evidence) s t :=
  .single (of_same hrounds hstore (Or.inl hledger))

end Keeps

theorem persistConsensusState_keeps {s : NetworkRuntime} {Q : Unit → NetworkRuntime → Prop}
    (h : Q () s.saveConsensusState.savePendingBlocks) :
    Steps (Keeps evidence) persistConsensusState s Q :=
  Steps.modify_bind (.single (Keeps.saveRounds s))
    (Steps.modify (.single (Keeps.savePending _)) h)

section

variable [Crypto]

/-! ### Advancing -/

omit [Crypto] in
theorem roundEntry_keeps {s : NetworkRuntime} {hash : Hash} {height : UInt64} {round : UInt32}
    {now : UInt64} {Q : RoundState → NetworkRuntime → Prop}
    (hopen : ∀ state, s.consensusRounds[height]? = some state → Q state s)
    (hstart : s.consensusRounds[height]? = none → Q (s.openedRound hash height round now)
      (s.setRound height (s.openedRound hash height round now))) :
    Steps (Keeps evidence) (roundEntry hash height round now) s Q :=
  roundEntry_spec (fun _ => Keeps.setRound fun _ => ConsensusRound.focused_of_empty rfl rfl)
    hopen hstart

theorem precommit_keeps {s : NetworkRuntime} {height : UInt64} {state : RoundState}
    (hstate : s.consensusRounds[height]? = some state) :
    Steps (Keeps evidence) (precommit height state) s fun state' t =>
      t.consensusRounds[height]? = some state' := by
  refine Steps.get_bind ?_
  split
  · set vote := s.signVoteWithEpoch state.round.epoch state.round.blockHash height
      state.round.round .precommit
    refine Steps.modify_bind (Keeps.quiet rfl rfl rfl) (Steps.modify_bind ?_ ?_)
    · refine .single (Keeps.setRound fun hs => ?_)
      rcases hadd : state.round.addPrecommit vote with e | round
      · exact hs.rounds height state hstate
      · exact (hs.rounds height state hstate).addPrecommit rfl hadd
    · refine Steps.modify_bind (Keeps.quiet rfl rfl rfl) (Steps.pure ?_)
      show (NetworkRuntime.setRound _ _ _).consensusRounds[height]? = _
      rw [getElem?_setRound, if_pos rfl]
  · exact Steps.pure hstate

theorem appendFinalized_keeps {s : NetworkRuntime} {certificate : SafetyCertificate}
    {block : Block} :
    Steps (Keeps evidence) (appendFinalized certificate block) s fun _ _ => True := by
  have hledger := s.chain.equivocationRecords_importBlock block
  refine Steps.act_bind ?_ fun imported _ => ?_
  · rcases himport : s.chain.importBlock block with ⟨e | ⟨⟩, chain⟩
    · rw [himport] at hledger
      exact Keeps.quiet rfl rfl hledger
    · rw [himport] at hledger
      exact Keeps.quiet rfl rfl
        ((Chain.equivocationRecords_recordSafetyCertificate chain certificate).trans hledger)
  · split
    · exact Steps.modify (Keeps.quiet rfl rfl rfl) trivial
    · exact Steps.pure trivial

theorem finalizeRound_keeps {s : NetworkRuntime} {height : UInt64} {round : ConsensusRound} :
    Steps (Keeps evidence) (finalizeRound height round) s fun _ _ => True := by
  refine Steps.get_bind (Steps.modify_bind (Keeps.quiet rfl rfl rfl) ?_)
  refine Steps.bind (P := fun _ _ => True) ?_ fun _ _ _ => ?_
  · refine Steps.get_bind ?_
    split
    · exact Steps.modify_bind (Keeps.quiet rfl rfl rfl) appendFinalized_keeps
    · exact Steps.pure trivial
  · exact Steps.modify_bind (.single (Keeps.dropRound height))
      (Steps.modify_bind (.single (Keeps.clearRounds _))
        (Steps.modify (.single (Keeps.clearPending _)) trivial))

omit [Crypto] in
theorem abortRound_keeps {s : NetworkRuntime} {height : UInt64} {round : ConsensusRound} :
    Steps (Keeps evidence) (abortRound height round) s fun _ _ => True := by
  refine Steps.modify_bind (.single (Keeps.dropRound height))
    (Steps.modify_bind ?_ (persistConsensusState_keeps trivial))
  split
  · exact Keeps.quiet rfl rfl rfl
  · exact .refl

theorem maybeAdvanceConsensus_keeps {s : NetworkRuntime} {height : UInt64} :
    Steps (Keeps evidence) (maybeAdvanceConsensus height) s fun _ _ => True := by
  refine Steps.check_bind fun _ _ => Steps.get_bind ?_
  rcases hstate : s.consensusRounds[height]? with _ | state
  · exact Steps.pure trivial
  dsimp only
  refine Steps.bind (precommit_keeps hstate) fun state' _ hstate' => ?_
  generalize (precommit height state s).last = t at hstate' ⊢
  -- evaluation changes the phase and nothing else
  have hphase : ∀ phase, t.Focused → ({ state'.round with phase } : ConsensusRound).Focused :=
    fun phase ht => (ht.rounds height state' hstate').congr rfl rfl rfl
  rcases state'.round.evaluate_cases with ⟨-, heval⟩ | ⟨-, reason, heval⟩ | ⟨-, -, reason, heval⟩
  · rw [heval]
    exact Steps.modify_bind (.single (Keeps.setRound (hphase .commit))) finalizeRound_keeps
  · rw [heval]
    exact Steps.modify_bind (.single (Keeps.setRound (hphase .abort))) abortRound_keeps
  · rw [heval]
    exact Steps.modify (.single (Keeps.setRound (hphase _))) trivial

/-! ### Messages -/

theorem prevote_keeps {s : NetworkRuntime} {height epoch : UInt64} {state : RoundState}
    (hstate : s.consensusRounds[height]? = some state) :
    Steps (Keeps evidence) (prevote height epoch state) s fun _ _ => True := by
  refine Steps.get_bind ?_
  split
  · refine Steps.modify_bind (Keeps.quiet rfl rfl rfl) (Steps.check_bind fun round hadd => ?_)
    refine Steps.modify_bind (.single (Keeps.setRound fun hs => ?_))
      (Steps.modify (Keeps.quiet rfl rfl rfl) trivial)
    exact (hs.rounds height state hstate).addPrevote rfl hadd
  · exact Steps.pure trivial

theorem takeProposal_keeps {s : NetworkRuntime} {msg : BlockProposalMessage} {now : UInt64} :
    Steps (Keeps evidence) (takeProposal msg now) s fun _ _ => True := by
  refine Steps.check_bind fun _ _ => Steps.modify_bind (.single (Keeps.sync s)) ?_
  refine Steps.check_bind fun _ _ => Steps.act_bind (Keeps.quiet rfl rfl
    (Chain.equivocationRecords_validateCandidateBlockForRound _ _ _)) fun _ _ => ?_
  refine Steps.check_bind fun _ _ => Steps.modify_bind (Keeps.quiet rfl rfl rfl) ?_
  refine Steps.bind (P := fun state t => t.consensusRounds[msg.block.header.height]? = some state)
    (roundEntry_keeps (fun _ hstate => hstate) fun _ => by rw [getElem?_setRound, if_pos rfl]) ?_
  rintro state - hstate
  generalize (roundEntry _ _ _ now _).last = t at hstate ⊢
  refine Steps.get_bind (Steps.check_bind fun next htracked => ?_)
  obtain ⟨-, hhash, rfl⟩ := trackedRound_eq_ok htracked
  refine Steps.modify_bind (.single (Keeps.setRound fun ht => ?_)) ?_
  · exact (ht.rounds _ state hstate).track hhash
  refine Steps.bind (prevote_keeps (by rw [getElem?_setRound, if_pos rfl])) fun _ _ _ => ?_
  exact persistConsensusState_keeps trivial

theorem handleBlockProposal_keeps {s : NetworkRuntime} {msg : BlockProposalMessage}
    {now : UInt64} :
    Steps (Keeps evidence) (handleBlockProposal msg now) s fun _ _ => True := by
  refine Steps.bind takeProposal_keeps fun _ _ _ => ?_
  refine Steps.bind maybeAdvanceConsensus_keeps fun _ _ _ => Steps.get_bind ?_
  split
  · exact Steps.modify (Keeps.quiet rfl rfl rfl) trivial
  · exact Steps.pure trivial

theorem handleBlockResponse_keeps {s : NetworkRuntime} {msg : BlockResponseMessage} :
    Steps (Keeps evidence) (handleBlockResponse msg) s fun _ _ => True := by
  unfold handleBlockResponse
  split
  · exact Steps.pure trivial
  · rename_i block _
    have hledger := s.chain.equivocationRecords_importBlock block
    refine Steps.act_bind ?_ fun imported _ => ?_
    · rcases himport : s.chain.importBlock block with ⟨e | ⟨⟩, chain⟩
      all_goals
        rw [himport] at hledger
        exact Keeps.quiet rfl rfl hledger
    · split
      · exact Steps.modify_bind (Keeps.quiet rfl rfl rfl)
          (Steps.modify_bind (.single (Keeps.dropRound _)) (persistConsensusState_keeps trivial))
      · exact Steps.pure trivial

theorem handleFinalityCertificate_keeps {s : NetworkRuntime} {certificate : SafetyCertificate} :
    Steps (Keeps evidence) (handleFinalityCertificate certificate) s fun _ _ => True := by
  refine Steps.modify_bind (.single (Keeps.sync s)) (Steps.check_bind fun _ _ => ?_)
  refine Steps.modify_bind (Keeps.quiet rfl rfl rfl) (Steps.check_bind fun _ _ => ?_)
  refine Steps.modify_bind (Keeps.quiet rfl rfl
    (Chain.equivocationRecords_recordSafetyCertificate _ _)) ?_
  exact Steps.modify_bind (Keeps.quiet rfl rfl rfl)
    (Steps.modify_bind (.single (Keeps.dropRound _)) (persistConsensusState_keeps trivial))

omit [Crypto] in
theorem consensusTimeout_keeps {s : NetworkRuntime} {now : UInt64} :
    Steps (Keeps evidence) (consensusTimeout now) s fun _ _ => True := by
  have hdrop : ∀ (hashes : List Hash) (t : NetworkRuntime), ReflTransGen (Keeps evidence) t
      (hashes.foldl (fun self hash => self.dropBlock hash) t) := by
    intro hashes
    induction hashes with
    | nil => exact fun _ => .refl
    | cons hash rest ih =>
        intro t
        have hfirst : ReflTransGen (Keeps evidence) t (t.dropBlock hash) := Keeps.quiet rfl rfl rfl
        exact hfirst.trans (ih _)
  refine Steps.get_bind (Steps.modify_bind ?_ (Steps.modify_bind (hdrop _ _) ?_))
  · refine .single (Keeps.of_rounds (fun hs height state hstate => ?_) rfl rfl)
    rw [timeoutRounds, Std.ExtTreeMap.getElem?_filterMap', Option.bind_eq_some_iff] at hstate
    obtain ⟨old, hold, hnext⟩ := hstate
    rcases (timedOut_cases hnext).2 with ⟨phase, rfl⟩ | ⟨-, -, hround⟩
    · exact (hs.rounds height old hold).congr rfl rfl rfl
    · rw [hround]
      exact ConsensusRound.focused_of_empty rfl rfl
  · split
    · exact Steps.pure trivial
    · exact persistConsensusState_keeps trivial

omit [Crypto] in
theorem validatorSetRefresh_keeps {s : NetworkRuntime} :
    Steps (Keeps evidence) validatorSetRefresh s fun _ _ => True := by
  refine Steps.get_bind ?_
  dsimp only
  split
  · exact Steps.pure trivial
  split
  · refine Steps.modify_bind ?_ (Steps.modify_bind (.single (Keeps.clearRounds _))
      (Steps.modify_bind (.single (Keeps.clearPending _)) (persistConsensusState_keeps trivial)))
    refine .single (Keeps.of_rounds (fun _ height state hstate => ?_) rfl rfl)
    simp at hstate
  · exact Steps.pure trivial


/-! ### Votes -/

/-- The vote in the round that a vote is compared with and differs from. -/
def heldAgainst (self : NetworkRuntime) (vote : Vote) : Option Vote :=
  let self := self.syncValidatorSetFromChainIfUnconfigured
  if vote.height ≠ 0 ∧ self.pendingBlocks.contains vote.blockHash = true
      ∧ (self.verifyVoteSignature self.currentEpoch vote).isOk = true then
    (self.consensusRounds[vote.height]?.filter fun state =>
      state.round.epoch = self.currentEpoch && state.round.blockHash ≠ zeroHash
        && vote.blockHash = state.round.blockHash).bind fun state =>
          conflictingVote state.round vote
  else none

/-- It is evidence that the node has not seen lately. -/
def isNewEvidence (self : NetworkRuntime) (first vote : Vote) (epoch : UInt64) : Bool :=
  conflicting first vote && (self.verifyVoteSignature epoch first).isOk
    && (self.verifyVoteSignature epoch vote).isOk
    && equivocationKey first vote epoch ∉ self.equivocations

/-- The vote in the round with which a vote is recorded. -/
def struck (self : NetworkRuntime) (vote : Vote) : Option Vote :=
  (self.heldAgainst vote).filter fun first =>
    self.syncValidatorSetFromChainIfUnconfigured.isNewEvidence first vote self.currentEpoch

/-- A vote differs from what a round holds only where that is for no block. -/
theorem blockHash_of_heldAgainst {s : NetworkRuntime} (hs : s.Focused) {first vote : Vote}
    (h : s.heldAgainst vote = some first) : first.blockHash = zeroHash := by
  unfold heldAgainst at h
  obtain ⟨validatorSet, hframe⟩ := s.sync_frame
  rw [hframe] at h
  dsimp only at h
  split at h
  · obtain ⟨state, hstate, hconflict⟩ := Option.bind_eq_some_iff.mp h
    rw [Option.filter_eq_some_iff] at hstate
    simp only [Bool.and_eq_true, decide_eq_true_eq] at hstate
    obtain ⟨hstate, -, hhash⟩ := hstate
    unfold conflictingVote at hconflict
    rw [Option.filter_eq_some_iff] at hconflict
    simp only [decide_eq_true_eq] at hconflict
    obtain ⟨hfirst, hne⟩ := hconflict
    refine (hs.rounds _ state hstate vote.validatorId first ?_).resolve_left fun hsame =>
      hne (hsame.trans hhash.symm)
    rcases hvote : vote.voteType with _ | _ | _
    all_goals rw [hvote] at hfirst
    · exact Or.inl hfirst
    · exact Or.inr hfirst
    · simp at hfirst
  · cases h

theorem recordEquivocation_keeps {s : NetworkRuntime} {voteA voteB : Vote} {epoch : UInt64}
    {spread : Bool} (hevidence : s.isNewEvidence voteA voteB epoch = true → evidence) :
    Steps (Keeps evidence) (recordEquivocation voteA voteB epoch spread) s fun _ _ => True := by
  unfold recordEquivocation
  split
  · rename_i hconflict
    refine Steps.check_bind fun _ hA => Steps.check_bind fun _ hB => ?_
    refine Steps.bind (P := fun _ _ => True) ?_ fun punished _ _ => ?_
    · refine Steps.get_bind ?_
      dsimp only
      split
      · exact Steps.pure trivial
      · rename_i hnew
        have hfresh : evidence := hevidence (by
          simp [isNewEvidence, hconflict, hA, hB, hnew, Except.isOk, Except.toBool])
        exact Steps.modify_bind (Keeps.quiet rfl rfl rfl) (Steps.modify_bind
          (.single (Keeps.of_same rfl rfl (Or.inr hfresh))) (Steps.pure trivial))
    · split
      · exact Steps.modify (Keeps.quiet rfl rfl rfl) trivial
      · exact Steps.pure trivial
  · exact Steps.pure trivial

theorem takeVote_keeps {s : NetworkRuntime} {vote : Vote} {now : UInt64}
    (hevidence : (s.struck vote).isSome = true → evidence) :
    Steps (Keeps evidence) (takeVote vote now) s fun _ _ => True := by
  unfold takeVote
  split
  · exact Steps.pure trivial
  rename_i hheight
  refine Steps.modify_bind (.single (Keeps.sync s)) (Steps.get_bind ?_)
  obtain ⟨validatorSet, hframe⟩ := s.sync_frame
  have hstruck := hevidence
  unfold struck heldAgainst at hstruck
  rw [hframe] at hstruck ⊢
  dsimp only at hstruck ⊢
  split
  · exact Steps.pure trivial
  rename_i hpending
  refine Steps.check_bind fun _ hsigned => Steps.modify_bind (Keeps.quiet rfl rfl rfl) ?_
  refine Steps.bind (P := fun state t => t.consensusRounds[vote.height]? = some state
      ∧ (∀ first epoch, t.isNewEvidence first vote epoch
        = isNewEvidence { s with validatorSet } first vote epoch)
      ∧ (conflictingVote state.round vote ≠ none → s.consensusRounds[vote.height]? = some state))
    (roundEntry_keeps (fun state hstate => ⟨hstate, fun _ _ => rfl, fun _ => hstate⟩)
      fun hnone => ⟨by rw [getElem?_setRound, if_pos rfl], fun _ _ => rfl, fun h => ?_⟩) ?_
  · refine absurd ?_ h
    rcases hvote : vote.voteType with _ | _ | _
    all_goals simp [conflictingVote, hvote, openedRound, ConsensusRound.new]
  rintro state - ⟨hstate, hnew, hold⟩
  generalize (roundEntry _ _ _ now _).last = t at hstate hnew ⊢
  split
  · exact Steps.pure trivial
  rename_i hepoch
  split
  · exact Steps.pure trivial
  rename_i hzero
  split
  · exact Steps.pure trivial
  rename_i hhash
  split
  · rename_i existing hconflict
    refine Steps.bind (recordEquivocation_keeps fun hfresh => hstruck ?_) fun _ _ _ =>
      Steps.pure trivial
    have hround := hold (by rw [hconflict]; exact Option.some_ne_none _)
    have hsame : ({ s with validatorSet } : NetworkRuntime).currentEpoch = s.currentEpoch := rfl
    rw [hnew, hsame] at hfresh
    rw [if_pos ⟨hheight, by simpa using hpending, by rw [hsigned]; rfl⟩, hround]
    simp only [Option.filter_some, not_not.mp hepoch, hsame, hzero, not_not.mp hhash, hconflict,
      ne_eq, not_false_eq_true, decide_true, Bool.and_self, if_true, Option.bind_some, hfresh,
      Option.isSome_some]
  · split
    · rename_i round hadmit
      refine Steps.modify_bind (.single (Keeps.setRound fun ht => ?_)) ?_
      · rcases admitVote_eq_some hadmit with hadd | hadd
        · exact (ht.rounds _ state hstate).addPrevote (not_not.mp hhash) hadd
        · exact (ht.rounds _ state hstate).addPrecommit (not_not.mp hhash) hadd
      · refine Steps.bind (P := fun _ _ => True) (persistConsensusState_keeps trivial) ?_
        intro _ _ _
        split
        · exact Steps.modify_bind (Keeps.quiet rfl rfl rfl) (Steps.pure trivial)
        · exact Steps.pure trivial
    · exact Steps.pure trivial

/-! ### What is recorded -/

omit [Crypto] in
theorem punish_eq (voteA voteB : Vote) (epoch : UInt64) (s : NetworkRuntime) :
    punish voteA voteB epoch s = (if equivocationKey voteA voteB epoch ∈ s.equivocations
      then pure false
      else do
        Script.modify fun self =>
          let (seen, order) := Dedup.remember maxEquivocationDedup self.equivocations
            self.equivocationsOrder (equivocationKey voteA voteB epoch)
          { self with equivocations := seen, equivocationsOrder := order }
        Script.modify fun self =>
          record (.slashes (equivocationKey voteA voteB epoch))
            { self with
              chain := (self.chain.penalizeDoubleSign (equivocationProof voteA voteB)
                epoch).recordEquivocation (equivocationProof voteA voteB) epoch }
        return true : Handler Bool) s := rfl

/-- The stake was slashed for the evidence, which is recorded. -/
structure Penalized (proof : EquivocationProof) (epoch : UInt64) (s t : NetworkRuntime) :
    Prop where
  slashed : t.slashed = proof.key epoch :: s.slashed
  ledger : t.ledger = (s.chain.recordEquivocation proof epoch).equivocationRecords

omit [Crypto] in
/-- Evidence that is not known yet is punished. -/
theorem penalized_punish {s : NetworkRuntime} {voteA voteB : Vote} {epoch : UInt64}
    (hkey : equivocationKey voteA voteB epoch ∉ s.equivocations) :
    (punish voteA voteB epoch s).result = .ok true
      ∧ Penalized (equivocationProof voteA voteB) epoch s (punish voteA voteB epoch s).last := by
  rw [punish_eq, if_neg hkey]
  exact ⟨rfl, rfl, Chain.recordEquivocation_congr
    (s.chain.equivocationRecords_penalizeDoubleSign _ _) _ _⟩

theorem penalized_recordEquivocation {s : NetworkRuntime} {voteA voteB : Vote} {epoch : UInt64}
    {spread : Bool} (hnew : s.isNewEvidence voteA voteB epoch = true) :
    Penalized (equivocationProof voteA voteB) epoch s
      (recordEquivocation voteA voteB epoch spread s).last := by
  simp only [isNewEvidence, Bool.and_eq_true, decide_eq_true_eq] at hnew
  obtain ⟨⟨⟨hconflict, hA⟩, hB⟩, hkey⟩ := hnew
  obtain ⟨⟨⟩, hA⟩ := Fallible.exists_ok_of_isOk hA
  obtain ⟨⟨⟩, hB⟩ := Fallible.exists_ok_of_isOk hB
  obtain ⟨hresult, hpenalized⟩ := penalized_punish hkey
  unfold recordEquivocation
  rw [if_pos hconflict, Script.last_bind_ok (a := ()) hA]
  show Penalized _ _ _ ((Script.check _ >>= _) s).last
  rw [Script.last_bind_ok (a := ()) hB]
  show Penalized _ _ _ ((punish voteA voteB epoch >>= _) s).last
  rw [Script.last_bind_ok hresult]
  cases spread with
  | true => exact ⟨hpenalized.slashed, hpenalized.ledger⟩
  | false => exact hpenalized

/-- A vote that is recorded with another one is handled by that.  `g` is whatever is not
changed by advancing the round. -/
theorem last_of_struck {γ : Type} {g : NetworkRuntime → γ} {s : NetworkRuntime}
    {vote first : Vote} (now : UInt64)
    (hg : ∀ t, g (maybeAdvanceConsensus vote.height t).last = g t)
    (h : s.struck vote = some first) :
    ∃ u : NetworkRuntime, u.chain = s.chain ∧ u.slashed = s.slashed
      ∧ u.isNewEvidence first vote s.currentEpoch = true
      ∧ g (handleConsensusVote vote now s).last
        = g (recordEquivocation first vote s.currentEpoch true u).last := by
  obtain ⟨hchain, hjournal⟩ : s.syncValidatorSetFromChainIfUnconfigured.chain = s.chain
      ∧ s.syncValidatorSetFromChainIfUnconfigured.journal = s.journal := by
    obtain ⟨validatorSet, hframe⟩ := s.sync_frame
    rw [hframe]
    exact ⟨rfl, rfl⟩
  unfold struck heldAgainst at h
  rw [Option.filter_eq_some_iff] at h
  obtain ⟨hheld, hnew⟩ := h
  have hadvance : g (handleConsensusVote vote now s).last = g (takeVote vote now s).last := by
    refine Script.last_bind_of_forall ?_
    intro advance
    cases advance with
    | true => exact hg _
    | false => rfl
  dsimp only at hheld
  generalize hsync : s.syncValidatorSetFromChainIfUnconfigured = t at hchain hjournal hheld hnew
  have hepochs : s.currentEpoch = t.currentEpoch := by
    rw [currentEpoch, currentEpoch, hchain]
  rw [hepochs] at hnew ⊢
  split at hheld
  swap
  · cases hheld
  rename_i hreached
  obtain ⟨hheight, hpending, hsigned⟩ := hreached
  obtain ⟨⟨⟩, hsigned⟩ := Fallible.exists_ok_of_isOk hsigned
  obtain ⟨state, hstate, hconflict⟩ := Option.bind_eq_some_iff.mp hheld
  rw [Option.filter_eq_some_iff] at hstate
  simp only [Bool.and_eq_true, decide_eq_true_eq] at hstate
  obtain ⟨hstate, ⟨hepoch, hzero⟩, hhash⟩ := hstate
  set u := record (.hears t.currentEpoch vote) t with hu
  refine ⟨u, hchain, ?_, hnew, hadvance.trans ?_⟩
  · show t.slashed = s.slashed
    rw [slashed, slashed, hjournal]
  have hentry : (roundEntry vote.blockHash vote.height vote.round now u).result = .ok state
      ∧ (roundEntry vote.blockHash vote.height vote.round now u).last = u := by
    have hopen : u.consensusRounds[vote.height]? = some state := hstate
    unfold roundEntry Script.act
    dsimp only
    rw [hopen]
    exact ⟨rfl, rfl⟩
  unfold takeVote
  rw [if_neg hheight, Script.last_bind_ok (a := ()) rfl]
  show g ((Script.get >>= _ : Handler Bool) s.syncValidatorSetFromChainIfUnconfigured).last = _
  rw [hsync, Script.last_bind_ok (a := t) rfl]
  show g ((ite _ (pure false) _ : Handler Bool) t).last = _
  rw [if_neg (by simpa using hpending), Script.last_bind_ok (a := ()) hsigned]
  show g ((Script.modify _ >>= _ : Handler Bool) t).last = _
  rw [Script.last_bind_ok (a := ()) rfl]
  show g ((roundEntry _ _ _ _ >>= _ : Handler Bool) u).last = _
  rw [Script.last_bind_ok hentry.1, hentry.2]
  show g ((ite _ (pure false) _ : Handler Bool) u).last = _
  rw [if_neg (not_not.mpr hepoch), if_neg hzero, if_neg (not_not.mpr hhash), hconflict]
  exact Script.last_bind_of_forall fun _ => rfl

/-- A vote that is recorded is so in the ledger as it was. -/
theorem ledger_of_struck {s : NetworkRuntime} {vote first : Vote} {now : UInt64}
    (h : s.struck vote = some first) :
    conflicting first vote = true
      ∧ (handleConsensusVote vote now s).last.ledger
        = (s.chain.recordEquivocation (equivocationProof first vote)
          s.currentEpoch).equivocationRecords := by
  have hadvance : ∀ t, (maybeAdvanceConsensus vote.height t).last.ledger = t.ledger := by
    intro t
    have hkeeps : Steps (Keeps False) (maybeAdvanceConsensus vote.height) t fun _ _ => True :=
      maybeAdvanceConsensus_keeps
    exact (Keeps.of_path hkeeps.last).ledger.resolve_right id
  obtain ⟨u, hchain, -, hnew, hlast⟩ := last_of_struck (g := ledger) now hadvance h
  refine ⟨?_, hlast.trans ?_⟩
  · simp only [isNewEvidence, Bool.and_eq_true] at hnew
    exact hnew.1.1.1
  · rw [(penalized_recordEquivocation hnew).ledger, hchain]

theorem handleConsensusVote_keeps {s : NetworkRuntime} {vote : Vote} {now : UInt64}
    {evidence : Prop} (hevidence : (s.struck vote).isSome = true → evidence) :
    Steps (Keeps evidence) (handleConsensusVote vote now) s fun _ _ => True := by
  refine Steps.bind (takeVote_keeps hevidence) fun advance _ _ => ?_
  split
  · exact maybeAdvanceConsensus_keeps
  · exact Steps.pure trivial

/-- After a vote the ledger is as it was, but for a vote that is recorded with one for
no block. -/
theorem recorded_handleConsensusVote_iff {s : NetworkRuntime} (hs : s.Focused) (other vote : Vote)
    (now : UInt64) :
    Recorded (handleConsensusVote vote now s).last.ledger other vote
      ↔ match s.struck vote with
        | none => Recorded s.ledger other vote
        | some first => other.blockHash = zeroHash
            ∨ Recorded (s.chain.retained (equivocationProof first vote) s.currentEpoch) other vote := by
  rcases hstruck : s.struck vote with _ | first
  · have hkeeps : Steps (Keeps False) (handleConsensusVote vote now) s fun _ _ => True :=
      handleConsensusVote_keeps fun hsome => by simp [hstruck] at hsome
    rw [(Keeps.of_path hkeeps.last).ledger.resolve_right id]
  · obtain ⟨hconflict, hledger⟩ := @ledger_of_struck _ s vote first now hstruck
    have hzero : first.blockHash = zeroHash := by
      unfold struck at hstruck
      rw [Option.filter_eq_some_iff] at hstruck
      exact blockHash_of_heldAgainst hs hstruck.1
    rw [hledger, recorded_recordEquivocation_iff s.chain s.currentEpoch hconflict, hzero]

omit [Crypto] in
theorem focused_restoredRound (pending : Std.ExtTreeMap Hash Block)
    {persisted : PersistedRoundState} (h : (persistedToRoundState persisted).round.Focused) :
    (restoredRound pending persisted).round.Focused := by
  unfold restoredRound
  dsimp only
  split
  · exact h
  · exact ConsensusRound.focused_of_empty rfl rfl

omit [Crypto] in
theorem Focused.loaded {s fresh : NetworkRuntime} (h : s.Focused)
    (hfresh : fresh.consensusRounds = ∅) : (s.loaded fresh).Focused := by
  constructor
  · intro height state hstate
    obtain ⟨-, store, persisted, hstore, hpersisted, rfl⟩ := getElem?_rounds_loaded hfresh hstate
    exact focused_restoredRound _ (h.stored store hstore height persisted hpersisted)
  · obtain ⟨consensusRounds, pendingBlocks, hframe⟩ := loaded_frame s fresh
    rw [hframe]
    exact h.stored

/-- Every event keeps the rounds to their blocks. -/
theorem handle_keeps {s : NetworkRuntime} {event : Event} :
    Steps (Keeps True) (handle event) s fun _ _ => True := by
  cases event with
  | blockProposal msg now => exact handleBlockProposal_keeps
  | consensusVote vote now => exact handleConsensusVote_keeps fun _ => trivial
  | blockResponse msg => exact handleBlockResponse_keeps
  | finalityCertificate certificate => exact handleFinalityCertificate_keeps
  | equivocationEvidence msg => exact recordEquivocation_keeps fun _ => trivial
  | timeout now => exact consensusTimeout_keeps
  | refresh => exact validatorSetRefresh_keeps
  | peers registry => exact Steps.modify (Keeps.quiet rfl rfl rfl) trivial
  | restart chain =>
      refine Steps.act_bind (.single ⟨fun hs => ?_, Or.inr trivial⟩) fun after _ => ?_
      · rcases hnew : new (s.reloaded chain) s.config with e | fresh
        · exact hs
        · exact hs.loaded (fresh_of_new hnew).rounds
      · cases after with
        | nothing => exact Steps.pure trivial
        | clearPending => exact Steps.modify (.single (Keeps.clearPending _)) trivial
        | rewrite => exact persistConsensusState_keeps trivial

/-- The vote is validly signed, and its block is pending. -/
structure Receives (s : NetworkRuntime) (vote : Vote) : Prop where
  signed : s.syncValidatorSetFromChainIfUnconfigured.verifyVoteSignature s.currentEpoch vote
    = .ok ()
  pending : s.pendingBlocks.contains vote.blockHash = true

/-- The round that is open for a height. -/
def roundAt (self : NetworkRuntime) (height : UInt64) : Option UInt32 :=
  self.consensusRounds[height]?.map (·.round.round)

/-- The ledger has the double vote before the second vote is handled; or it is the
node's own, and the first one was for no block. -/
def KnownDouble (self : NetworkRuntime) (first second : Vote) : Prop :=
  match self.struck second with
  | none => Recorded self.ledger first second
  | some held => first.blockHash = zeroHash
      ∨ Recorded (self.chain.retained (equivocationProof held second) self.currentEpoch) first second

end

end NetworkRuntime

namespace Node

open NetworkRuntime Runs

section

variable [Crypto]

omit [Crypto] in
theorem Founded.focused {node : Node} (h : node.Founded) : node.runtime.Focused := by
  obtain ⟨-, chain, config, fresh, hnew, hruntime⟩ := h
  have hfresh := fresh_of_new hnew
  rcases hruntime with hplain | hstored
  · rw [hplain]
    refine ⟨fun height state hstate => ?_, fun store hstore => ?_⟩
    · rw [hfresh.rounds] at hstate
      simp at hstate
    · rw [hfresh.store] at hstore
      cases hstore
  · rw [hstored]
    refine ⟨fun height state hstate => ?_, fun store hstore height persisted hpersisted => ?_⟩
    · rw [show (fresh.withPersistence {}).consensusRounds = ∅ from hfresh.rounds] at hstate
      simp at hstate
    · obtain rfl := Option.some_inj.mp hstore
      simp at hpersisted

theorem run_focused {node : Node} (hnode : node.Founded) (inputs : List Input) :
    (inputs.foldl step node).runtime.Focused := by
  refine (throughout_of_step (I := fun node => node.runtime.Focused) (fun node input h => ?_)
    hnode.focused : Throughout step _ node inputs).last
  exact step_of_states (fun t ht => (Keeps.of_path (handle_keeps.states t ht)).focused h) h

/-- Where the node is when the second of two votes comes: some inputs, the first vote,
some more inputs. -/
def betweenVotes (self : Node) (before : List Input) (first : Vote) (now : UInt64)
    (between : List Input) : Node :=
  (before ++ { event := .consensusVote first now } :: between).foldl step self

/-- Two votes of one validator in one place for two blocks; each is valid and for a
pending block when it comes, and the round of their height is the same. -/
structure DoubleVoted (node : Node) (before : List Input) (first : Vote) (now : UInt64)
    (between : List Input) (second : Vote) : Prop where
  founded : node.Founded
  up : (before.foldl step node).up = true ∧ (node.betweenVotes before first now between).up = true
  place : first.validatorId = second.validatorId ∧ first.height = second.height
    ∧ first.round = second.round ∧ first.voteType = second.voteType ∧ first.voteType ≠ .nil
  blocks : first.blockHash ≠ second.blockHash
  epoch : (node.betweenVotes before first now between).runtime.currentEpoch
    = (before.foldl step node).runtime.currentEpoch
  receivesFirst : (before.foldl step node).runtime.Receives first
  receivesSecond : (node.betweenVotes before first now between).runtime.Receives second
  tracked : ((before.foldl step node).runtime.roundAt first.height).isSome = true
  round : (node.betweenVotes before first now between).runtime.roundAt first.height
    = (before.foldl step node).runtime.roundAt first.height

/-- A double vote is in the ledger after the second vote exactly where it was before. -/
theorem doubleVote_recorded_iff {node : Node} {before between : List Input} {first second : Vote}
    {now : UInt64} (h : DoubleVoted node before first now between second) (later : UInt64) :
    Recorded (((node.betweenVotes before first now between).step
        { event := .consensusVote second later }).runtime.ledger) first second
      ↔ KnownDouble (node.betweenVotes before first now between).runtime first second := by
  have hfocused : (node.betweenVotes before first now between).runtime.Focused :=
    run_focused h.founded _
  rw [KnownDouble, ← recorded_handleConsensusVote_iff hfocused first second later]
  unfold step
  rw [h.up.2]
  rfl

end

end Node

/-! ## Two prevotes of a validator -/

section

open NetworkRuntime

/-- Two blocks that validator `[2; 32]` proposes in one round. -/
def twoProposals : List BlockProposalMessage :=
  [0, 5000].flatMap fun wallHint => (fourProposal 2 3 0 wallHint).toList

def twoProposalInputs : List Input := twoProposals.map fun msg => { event := .blockProposal msg 0 }

/-- Validator `[3; 32]` prevotes for the one and then for the other. -/
def twoPrevotes : List (Vote × Vote) :=
  let votes := twoProposals.map fun msg => fourVote 3 3 msg .prevote
  votes.zip votes.tail

/-- Validator `[1; 32]` before the votes. -/
def twoProposalsNode : Node := twoProposalInputs.foldl (@Node.step polyCrypto) (fourNode 1 3 3)

/-- The same between the votes. -/
def twoPrevotesNode (first : Vote) (between : List Input) : Node :=
  @Node.betweenVotes polyCrypto (fourNode 1 3 3) twoProposalInputs first 0 between

def receives (self : NetworkRuntime) (vote : Vote) : Bool :=
  (@verifyVoteSignature polyCrypto self.syncValidatorSetFromChainIfUnconfigured
    self.currentEpoch vote).isOk && self.pendingBlocks.contains vote.blockHash

theorem receives_of_receives {s : NetworkRuntime} {vote : Vote} (h : receives s vote = true) :
    @Receives polyCrypto s vote := by
  unfold receives at h
  rw [Bool.and_eq_true] at h
  obtain ⟨⟨⟩, hsigned⟩ := Fallible.exists_ok_of_isOk h.1
  exact @Receives.mk polyCrypto s vote hsigned h.2

def isDoubleVoted (before after : Node) (first second : Vote) : Bool :=
  before.up && after.up && first.validatorId = second.validatorId && first.height = second.height
    && first.round = second.round && first.voteType = second.voteType && first.voteType ≠ .nil
    && first.blockHash ≠ second.blockHash
    && after.runtime.currentEpoch = before.runtime.currentEpoch
    && receives before.runtime first && receives after.runtime second
    && (before.runtime.roundAt first.height).isSome
    && after.runtime.roundAt first.height = before.runtime.roundAt first.height

/-- The second prevote is in the ledger after it, or is not. -/
def prevotesRecorded (between : Vote × Vote → List Input) (recorded : Bool) : Bool :=
  twoPrevotes.any fun votes =>
    isDoubleVoted twoProposalsNode (twoPrevotesNode votes.1 (between votes)) votes.1 votes.2
      && decide (Recorded (@Node.step polyCrypto (twoPrevotesNode votes.1 (between votes))
        { event := .consensusVote votes.2 0 }).runtime.ledger votes.1 votes.2) == recorded

theorem doubleVoted_of_prevotesRecorded {between : Vote × Vote → List Input} {recorded : Bool}
    (h : prevotesRecorded between recorded = true) :
    ∃ first second, @Node.DoubleVoted polyCrypto (fourNode 1 3 3) twoProposalInputs first 0
        (between (first, second)) second
      ∧ decide (Recorded (@Node.step polyCrypto (twoPrevotesNode first (between (first, second)))
        { event := .consensusVote second 0 }).runtime.ledger first second) = recorded := by
  unfold prevotesRecorded twoProposalsNode twoPrevotesNode at h
  unfold twoPrevotesNode
  obtain ⟨⟨first, second⟩, -, hboth⟩ := List.any_eq_true.mp h
  simp only [Bool.and_eq_true, isDoubleVoted, decide_eq_true_eq, beq_iff_eq] at hboth
  obtain ⟨⟨⟨⟨⟨⟨⟨⟨⟨⟨⟨⟨⟨hup, hup'⟩, hid⟩, hheight⟩, hround⟩, htype⟩, hnil⟩, hblocks⟩, hepoch⟩, hfirst⟩,
    hsecond⟩, htracked⟩, hsame⟩, hrecorded⟩ := hboth
  let _ := polyCrypto
  exact ⟨first, second,
    { founded := founded_fourNode run_thresholdThree.1
      up := ⟨hup, hup'⟩
      place := ⟨hid, hheight, hround, htype, hnil⟩
      blocks := hblocks
      epoch := hepoch
      receivesFirst := receives_of_receives hfirst
      receivesSecond := receives_of_receives hsecond
      tracked := htracked
      round := hsame }, hrecorded⟩

/-- The votes by themselves, and with evidence of them in between. -/
theorem prevotesRecorded_runs :
    prevotesRecorded (fun _ => []) false = true
      ∧ prevotesRecorded (fun votes =>
        [{ event := .equivocationEvidence ⟨votes.1, votes.2, 0⟩ }]) true = true := by
  decide +kernel

/-- Both prevotes are valid and for pending blocks, and nothing is recorded. -/
theorem twoPrevotes_unrecorded :
    ¬ ∀ first second between, @Node.DoubleVoted polyCrypto (fourNode 1 3 3) twoProposalInputs first
        0 between second →
      Recorded (@Node.step polyCrypto (twoPrevotesNode first between)
        { event := .consensusVote second 0 }).runtime.ledger first second := by
  intro hall
  obtain ⟨first, second, hdouble, hnot⟩ :=
    doubleVoted_of_prevotesRecorded prevotesRecorded_runs.1
  exact of_decide_eq_false hnot (hall first second [] hdouble)

/-- Where a peer sends the two votes as evidence, they are in the ledger already. -/
theorem twoPrevotes_known :
    ∃ first second, @KnownDouble polyCrypto (twoPrevotesNode first
      [{ event := .equivocationEvidence ⟨first, second, 0⟩ }]).runtime first second := by
  obtain ⟨first, second, hdouble, hrecorded⟩ :=
    doubleVoted_of_prevotesRecorded prevotesRecorded_runs.2
  exact ⟨first, second, (@Node.doubleVote_recorded_iff polyCrypto _ _ _ _ _ _ hdouble 0).mp
    (of_decide_eq_true hrecorded)⟩

end

end Sccgub
