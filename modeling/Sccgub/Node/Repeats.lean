import Mathlib
import Sccgub.Node.DoubleVotes

/-!
# Penalties for the same evidence

The node penalizes evidence that its runtime set does not hold.  The set is empty
after a restart, and when it is full its oldest keys go; the ledger of the chain is
asked only whether the evidence is to be recorded.  Evidence is therefore penalized
once where what the set does not hold has never been in the ledger.

Nearly all handlers penalize nobody.  For them one fact is enough, that they leave
`penalties`, the runtime set and the ledger together (the lemmas that end in
`_leaves`).  For the two that act on evidence `recordEquivocation_penalizes` and
`takeVote_penalizes` say that the set and the ledger move together with what is
slashed, and `step_penalties` has it for whole events, restarts and crashes
included.

`Traced` keeps with a node the chains that it has had, which is what "never in
the ledger" is about.  `step_once` is the step of the invariant.  For the other
direction `firstTime_of_once` reads a repetition off the first step that is not
`FirstTime`.
-/

namespace Sccgub

open FixedWidth Interrupt Safety

/-! ## Keys -/

theorem VoteType.asU8_injective : Function.Injective VoteType.asU8 := by
  rintro (_ | _ | _) (_ | _ | _) h
  all_goals first
    | rfl
    | exact absurd h (by decide)

theorem EquivocationProof.key_inj {proof other : EquivocationProof} {epoch epoch' : UInt64} :
    proof.key epoch = other.key epoch' ↔ proof = other ∧ epoch = epoch' := by
  constructor
  · intro h
    obtain ⟨hid, hheight, hround, htype, hA, hB, hepoch⟩ := EquivocationKey.mk.inj h
    cases proof
    cases other
    exact ⟨(EquivocationProof.mk.injEq ..).mpr
      ⟨hid, hheight, hround, VoteType.asU8_injective htype, hA, hB⟩, hepoch⟩
  · rintro ⟨rfl, rfl⟩
    rfl

theorem orderedHashes_orderedHashes (a b : Hash) :
    orderedHashes (orderedHashes a b).1 (orderedHashes a b).2 = orderedHashes a b := by
  unfold orderedHashes
  by_cases h : (compare a b).isLE = true
  · rw [if_pos h, if_pos h]
  · have hba : (compare b a).isLE = true :=
      (Std.Total.total (r := fun a b : Hash => (compare a b).isLE = true) a b).resolve_left h
    rw [if_neg h, if_pos hba]

/-- The two blocks of the proof are in order. -/
def EquivocationProof.IsOrdered (self : EquivocationProof) : Prop :=
  orderedHashes self.blockHashA self.blockHashB = (self.blockHashA, self.blockHashB)

namespace NetworkRuntime

theorem isOrdered_equivocationProof (voteA voteB : Vote) :
    (equivocationProof voteA voteB).IsOrdered :=
  orderedHashes_orderedHashes voteA.blockHash voteB.blockHash

end NetworkRuntime

namespace Chain

variable {chain other : Chain} {proof : EquivocationProof} {epoch : UInt64}

theorem hasEquivocation_of_mem (h : (proof, epoch) ∈ chain.equivocationRecords) :
    chain.hasEquivocation proof epoch = true :=
  List.any_eq_true.mpr ⟨_, h, by simp⟩

theorem hasEquivocation_iff (hproof : proof.IsOrdered)
    (hchain : ∀ entry ∈ chain.equivocationRecords, entry.1.IsOrdered) :
    chain.hasEquivocation proof epoch = true ↔ (proof, epoch) ∈ chain.equivocationRecords := by
  refine ⟨fun h => ?_, hasEquivocation_of_mem⟩
  obtain ⟨⟨existing, existingEpoch⟩, hmem, hsame⟩ := List.any_eq_true.mp h
  simp only [Bool.and_eq_true, decide_eq_true_eq] at hsame
  obtain ⟨⟨⟨⟨⟨hepoch, hid⟩, hheight⟩, hround⟩, htype⟩, hhashes⟩ := hsame
  have hexisting : existing.IsOrdered := hchain _ hmem
  rw [EquivocationProof.IsOrdered] at hproof hexisting
  rw [hexisting, hproof] at hhashes
  obtain ⟨hA, hB⟩ := Prod.mk.inj hhashes
  have hproofs : existing = proof := by
    cases existing
    cases proof
    exact (EquivocationProof.mk.injEq ..).mpr ⟨hid, hheight, hround, htype, hA, hB⟩
  rw [← hproofs, ← hepoch]
  exact hmem

/-- Evidence in order is in the ledger once it is recorded, and nothing else is new. -/
theorem mem_recordEquivocation (hproof : proof.IsOrdered) {entry : EquivocationProof × UInt64}
    (h : entry ∈ (chain.recordEquivocation proof epoch).equivocationRecords) :
    entry ∈ chain.equivocationRecords ∨ entry = (proof, epoch) := by
  rw [equivocationRecords_recordEquivocation] at h
  split at h
  · exact Or.inl h
  · rename_i hnew
    rcases List.mem_append.mp h with hold | hlast
    · rw [retained, if_neg hnew] at hold
      exact Or.inl (List.mem_of_mem_drop hold)
    · rw [List.mem_singleton.mp hlast]
      rw [EquivocationProof.IsOrdered] at hproof
      rw [hproof]
      exact Or.inr rfl

theorem hasEquivocation_recordEquivocation (hproof : proof.IsOrdered)
    (h : other.equivocationRecords = (chain.recordEquivocation proof epoch).equivocationRecords) :
    other.hasEquivocation proof epoch = true := by
  by_cases hold : chain.hasEquivocation proof epoch = true
  · rw [equivocationRecords_recordEquivocation, if_pos hold] at h
    rw [hasEquivocation, h]
    exact hold
  · refine hasEquivocation_of_mem ?_
    rw [EquivocationProof.IsOrdered] at hproof
    rw [h, equivocationRecords_recordEquivocation, if_neg hold, hproof]
    exact List.mem_append_right _ (List.mem_singleton_self _)

end Chain

/-! ## Handlers that penalize nobody -/

namespace NetworkRuntime

/-- What a penalty changes that is followed here. -/
def penalties (self : NetworkRuntime) : List EquivocationKey × List (EquivocationProof × UInt64) :=
  (self.slashed, self.ledger)

theorem penalties_sync (s : NetworkRuntime) :
    s.syncValidatorSetFromChainIfUnconfigured.penalties = s.penalties := by
  obtain ⟨validatorSet, hframe⟩ := s.sync_frame
  rw [hframe]
  rfl

/-- Another chain with the same evidence. -/
theorem penalties_chain {s : NetworkRuntime} {chain : Chain}
    (h : chain.equivocationRecords = s.chain.equivocationRecords) :
    ({ s with chain } : NetworkRuntime).penalties = s.penalties :=
  congrArg (Prod.mk s.slashed) h

theorem persistConsensusState_leaves : Leaves penalties persistConsensusState :=
  Leaves.bind (Leaves.modify fun _ => rfl) fun _ => Leaves.modify fun _ => rfl

theorem penalties_foldl_dropBlock (hashes : List Hash) (s : NetworkRuntime) :
    (hashes.foldl (fun self hash => self.dropBlock hash) s).penalties = s.penalties := by
  induction hashes generalizing s with
  | nil => rfl
  | cons hash rest ih => exact (ih _).trans rfl

theorem consensusTimeout_leaves (now : UInt64) : Leaves penalties (consensusTimeout now) := by
  refine Leaves.bind Leaves.get fun s => Leaves.bind (Leaves.modify fun _ => rfl) fun _ => ?_
  refine Leaves.bind (Leaves.modify fun t => penalties_foldl_dropBlock _ t) fun _ => ?_
  split
  · exact Leaves.pure _
  · exact persistConsensusState_leaves

theorem validatorSetRefresh_leaves : Leaves penalties validatorSetRefresh := by
  refine Leaves.bind Leaves.get fun s => ?_
  dsimp only
  split
  · exact Leaves.pure _
  · split
    · refine Leaves.bind (Leaves.modify fun _ => rfl) fun _ => ?_
      refine Leaves.bind (Leaves.modify fun _ => rfl) fun _ => ?_
      exact Leaves.bind (Leaves.modify fun _ => rfl) fun _ => persistConsensusState_leaves
    · exact Leaves.pure _

section

variable [Crypto]

omit [Crypto] in
theorem roundEntry_leaves (hash : Hash) (height : UInt64) (round : UInt32) (now : UInt64) :
    Leaves penalties (roundEntry hash height round now) := by
  refine Leaves.act fun s => ?_
  split
  · rfl
  · rfl

theorem precommit_leaves (height : UInt64) (state : RoundState) :
    Leaves penalties (precommit height state) := by
  refine Leaves.bind Leaves.get fun s => ?_
  split
  · refine Leaves.bind (Leaves.modify fun _ => rfl) fun _ => ?_
    refine Leaves.bind (Leaves.modify fun _ => rfl) fun _ => ?_
    exact Leaves.bind (Leaves.modify fun _ => rfl) fun _ => Leaves.pure _
  · exact Leaves.pure _

theorem appendFinalized_leaves (certificate : SafetyCertificate) (block : Block) :
    Leaves penalties (appendFinalized certificate block) := by
  refine Leaves.bind (Leaves.act fun s => ?_) fun imported => ?_
  · have hledger := s.chain.equivocationRecords_importBlock block
    rcases himport : s.chain.importBlock block with ⟨e | ⟨⟩, chain⟩
    · rw [himport] at hledger
      exact penalties_chain hledger
    · rw [himport] at hledger
      exact penalties_chain
        ((Chain.equivocationRecords_recordSafetyCertificate chain certificate).trans hledger)
  · split
    · exact Leaves.modify fun _ => rfl
    · exact Leaves.pure _

theorem finalizeRound_leaves (height : UInt64) (round : ConsensusRound) :
    Leaves penalties (finalizeRound height round) := by
  refine Leaves.bind Leaves.get fun s => Leaves.bind (Leaves.modify fun _ => rfl) fun _ => ?_
  refine Leaves.bind (Leaves.bind Leaves.get fun t => ?_) fun _ => ?_
  · split
    · exact Leaves.bind (Leaves.modify fun _ => rfl) fun _ => appendFinalized_leaves _ _
    · exact Leaves.pure _
  · refine Leaves.bind (Leaves.modify fun _ => rfl) fun _ => ?_
    exact Leaves.bind (Leaves.modify fun _ => rfl) fun _ => Leaves.modify fun _ => rfl

omit [Crypto] in
theorem abortRound_leaves (height : UInt64) (round : ConsensusRound) :
    Leaves penalties (abortRound height round) := by
  refine Leaves.bind (Leaves.modify fun _ => rfl) fun _ => ?_
  refine Leaves.bind (Leaves.modify fun t => ?_) fun _ => persistConsensusState_leaves
  split
  · rfl
  · rfl

theorem maybeAdvanceConsensus_leaves (height : UInt64) :
    Leaves penalties (maybeAdvanceConsensus height) := by
  refine Leaves.bind (Leaves.check _) fun _ => Leaves.bind Leaves.get fun s => ?_
  split
  · exact Leaves.pure _
  · refine Leaves.bind (precommit_leaves _ _) fun state => ?_
    split
    · exact Leaves.bind (Leaves.modify fun _ => rfl) fun _ => finalizeRound_leaves _ _
    · exact Leaves.modify fun _ => rfl
    · exact Leaves.bind (Leaves.modify fun _ => rfl) fun _ => abortRound_leaves _ _

theorem prevote_leaves (height epoch : UInt64) (state : RoundState) :
    Leaves penalties (prevote height epoch state) := by
  refine Leaves.bind Leaves.get fun s => ?_
  split
  · refine Leaves.bind (Leaves.modify fun _ => rfl) fun _ => ?_
    refine Leaves.bind (Leaves.check _) fun _ => ?_
    exact Leaves.bind (Leaves.modify fun _ => rfl) fun _ => Leaves.modify fun _ => rfl
  · exact Leaves.pure _

theorem takeProposal_leaves (msg : BlockProposalMessage) (now : UInt64) :
    Leaves penalties (takeProposal msg now) := by
  refine Leaves.bind (Leaves.check _) fun _ => ?_
  refine Leaves.bind (Leaves.modify penalties_sync) fun _ => ?_
  refine Leaves.bind (Leaves.check _) fun _ => ?_
  refine Leaves.bind (Leaves.act fun s => penalties_chain
    (Chain.equivocationRecords_validateCandidateBlockForRound _ _ _)) fun _ => ?_
  refine Leaves.bind (Leaves.check _) fun _ => Leaves.bind (Leaves.modify fun _ => rfl) fun _ => ?_
  refine Leaves.bind (roundEntry_leaves _ _ _ _) fun _ => Leaves.bind Leaves.get fun _ => ?_
  refine Leaves.bind (Leaves.check _) fun _ => Leaves.bind (Leaves.modify fun _ => rfl) fun _ => ?_
  exact Leaves.bind (prevote_leaves _ _ _) fun _ => persistConsensusState_leaves

theorem handleBlockProposal_leaves (msg : BlockProposalMessage) (now : UInt64) :
    Leaves penalties (handleBlockProposal msg now) := by
  refine Leaves.bind (takeProposal_leaves msg now) fun _ => ?_
  refine Leaves.bind (maybeAdvanceConsensus_leaves _) fun _ => Leaves.bind Leaves.get fun s => ?_
  split
  · exact Leaves.modify fun _ => rfl
  · exact Leaves.pure _

theorem handleBlockResponse_leaves (msg : BlockResponseMessage) :
    Leaves penalties (handleBlockResponse msg) := by
  unfold handleBlockResponse
  split
  · exact Leaves.pure _
  · rename_i block _
    refine Leaves.bind (Leaves.act fun s => ?_) fun imported => ?_
    · have hledger := s.chain.equivocationRecords_importBlock block
      rcases himport : s.chain.importBlock block with ⟨e | ⟨⟩, chain⟩
      all_goals
        rw [himport] at hledger
        exact penalties_chain hledger
    · split
      · refine Leaves.bind (Leaves.modify fun _ => rfl) fun _ => ?_
        exact Leaves.bind (Leaves.modify fun _ => rfl) fun _ => persistConsensusState_leaves
      · exact Leaves.pure _

theorem handleFinalityCertificate_leaves (certificate : SafetyCertificate) :
    Leaves penalties (handleFinalityCertificate certificate) := by
  refine Leaves.bind (Leaves.modify penalties_sync) fun _ => ?_
  refine Leaves.bind (Leaves.check _) fun _ => ?_
  refine Leaves.bind (Leaves.modify fun _ => rfl) fun _ => Leaves.bind (Leaves.check _) fun _ => ?_
  refine Leaves.bind (Leaves.modify fun s => penalties_chain
    (Chain.equivocationRecords_recordSafetyCertificate _ _)) fun _ => ?_
  refine Leaves.bind (Leaves.modify fun _ => rfl) fun _ => ?_
  exact Leaves.bind (Leaves.modify fun _ => rfl) fun _ => persistConsensusState_leaves

/-! ## Evidence -/

/-- The evidence that an event brings and the runtime set does not hold. -/
def offence (self : NetworkRuntime) : Event → Option (EquivocationProof × UInt64)
  | .consensusVote vote _ =>
      (self.struck vote).map fun first => (equivocationProof first vote, self.currentEpoch)
  | .equivocationEvidence msg =>
      if self.isNewEvidence msg.voteA msg.voteB msg.epoch = true then
        some (equivocationProof msg.voteA msg.voteB, msg.epoch)
      else none
  | _ => none

omit [Crypto] in
theorem Penalized.congr {proof : EquivocationProof} {epoch : UInt64} {s s' t t' : NetworkRuntime}
    (h : Penalized proof epoch s t) (hs : s.penalties = s'.penalties)
    (ht : t'.penalties = t.penalties) : Penalized proof epoch s' t' := by
  obtain ⟨hslashed, hledger⟩ := Prod.mk.inj hs
  obtain ⟨hslashed', hledger'⟩ := Prod.mk.inj ht
  refine ⟨?_, ?_⟩
  · rw [hslashed', h.slashed, hslashed]
  · rw [hledger', h.ledger]
    exact Chain.recordEquivocation_congr hledger proof epoch

/-- Nothing happens to what is followed, or one penalty since the state `s`. -/
def Penalizes (s : NetworkRuntime) (evidence : EquivocationProof → UInt64 → Prop)
    (t u : NetworkRuntime) : Prop :=
  u.penalties = t.penalties ∨ ∃ proof epoch, evidence proof epoch ∧ Penalized proof epoch s u

variable {s : NetworkRuntime} {evidence : EquivocationProof → UInt64 → Prop}

omit [Crypto] in
theorem Penalizes.of_path {t : NetworkRuntime}
    (h : Relation.ReflTransGen (Penalizes s evidence) s t) : Penalizes s evidence s t := by
  refine keeps (I := Penalizes s evidence s) (fun t u hmove ht => ?_) h (Or.inl rfl)
  rcases hmove with hsame | hpenalty
  · rcases ht with ht | ⟨proof, epoch, hevidence, hpenalized⟩
    · exact Or.inl (hsame.trans ht)
    · exact Or.inr ⟨proof, epoch, hevidence, hpenalized.congr rfl hsame⟩
  · exact Or.inr hpenalty

theorem recordEquivocation_penalizes {t : NetworkRuntime} {voteA voteB : Vote} {epoch : UInt64}
    {spread : Bool} (ht : t.penalties = s.penalties)
    (hevidence : t.isNewEvidence voteA voteB epoch = true →
      evidence (equivocationProof voteA voteB) epoch) :
    Steps (Penalizes s evidence) (recordEquivocation voteA voteB epoch spread) t
      fun _ _ => True := by
  unfold recordEquivocation
  split
  · rename_i hconflict
    refine Steps.check_bind fun _ hA => Steps.check_bind fun _ hB => ?_
    refine Steps.bind (P := fun _ _ => True) ?_ fun punished _ _ => ?_
    · refine Steps.get_bind ?_
      dsimp only
      split
      · exact Steps.pure trivial
      · rename_i hnew
        have hfresh := hevidence (by
          simp [isNewEvidence, hconflict, hA, hB, hnew, Except.isOk, Except.toBool])
        refine Steps.modify_bind (.single (Or.inl rfl))
          (Steps.modify_bind (.single (Or.inr ⟨_, _, hfresh, ?_⟩)) (Steps.pure trivial))
        have hpenalized : Penalized (equivocationProof voteA voteB) epoch t
            (record (.slashes (equivocationKey voteA voteB epoch)) { t with
              chain := (t.chain.penalizeDoubleSign (equivocationProof voteA voteB)
                epoch).recordEquivocation (equivocationProof voteA voteB) epoch }) :=
          ⟨rfl, Chain.recordEquivocation_congr
            (t.chain.equivocationRecords_penalizeDoubleSign _ _) _ _⟩
        exact hpenalized.congr ht rfl
    · split
      · exact Steps.modify (.single (Or.inl rfl)) trivial
      · exact Steps.pure trivial
  · exact Steps.pure trivial

theorem takeVote_penalizes {vote : Vote} {now : UInt64} :
    Steps (Penalizes s fun proof epoch => s.offence (.consensusVote vote now) = some (proof, epoch))
      (takeVote vote now) s fun _ _ => True := by
  have hoffence : ∀ first, s.struck vote = some first →
      s.offence (.consensusVote vote now)
        = some (equivocationProof first vote, s.currentEpoch) := by
    intro first hfirst
    rw [offence, hfirst]
    rfl
  unfold takeVote
  split
  · exact Steps.pure trivial
  rename_i hheight
  refine Steps.modify_bind (.single (Or.inl s.penalties_sync)) (Steps.get_bind ?_)
  obtain ⟨validatorSet, hframe⟩ := s.sync_frame
  unfold struck heldAgainst at hoffence
  rw [hframe] at hoffence ⊢
  dsimp only at hoffence ⊢
  split
  · exact Steps.pure trivial
  rename_i hpending
  refine Steps.check_bind fun _ hsigned => Steps.modify_bind (.single (Or.inl rfl)) ?_
  refine Steps.bind (P := fun state t => t.penalties = s.penalties
      ∧ (∀ first epoch, t.isNewEvidence first vote epoch
        = isNewEvidence { s with validatorSet } first vote epoch)
      ∧ (conflictingVote state.round vote ≠ none → s.consensusRounds[vote.height]? = some state))
    (roundEntry_spec (fun _ => Or.inl rfl)
      (fun state hstate => ⟨rfl, fun _ _ => rfl, fun _ => hstate⟩)
      fun hnone => ⟨rfl, fun _ _ => rfl, fun h => ?_⟩) ?_
  · refine absurd ?_ h
    rcases hvote : vote.voteType with _ | _ | _
    all_goals simp [conflictingVote, hvote, openedRound, ConsensusRound.new]
  rintro state - ⟨hpenalties, hnew, hold⟩
  generalize (roundEntry _ _ _ now _).last = t at hpenalties hnew ⊢
  split
  · exact Steps.pure trivial
  rename_i hepoch
  split
  · exact Steps.pure trivial
  rename_i hzero
  split
  · exact Steps.pure trivial
  rename_i hhash
  split
  · rename_i existing hconflict
    refine Steps.bind (recordEquivocation_penalizes hpenalties fun hfresh =>
      hoffence existing ?_) fun _ _ _ => Steps.pure trivial
    have hround := hold (by rw [hconflict]; exact Option.some_ne_none _)
    have hsame : ({ s with validatorSet } : NetworkRuntime).currentEpoch = s.currentEpoch := rfl
    rw [hnew, hsame] at hfresh
    rw [if_pos ⟨hheight, by simpa using hpending, by rw [hsigned]; rfl⟩, hround]
    simp only [Option.filter_some, not_not.mp hepoch, hsame, hzero, not_not.mp hhash, hconflict,
      ne_eq, not_false_eq_true, decide_true, Bool.and_self, if_true, Option.bind_some, hfresh]
  · split
    · rename_i round hadmit
      refine Steps.modify_bind (.single (Or.inl rfl)) (Steps.bind (P := fun _ _ => True)
        (persistConsensusState_leaves.steps (fun _ _ => Or.inl) _) ?_)
      intro _ _ _
      split
      · exact Steps.modify_bind (.single (Or.inl rfl)) (Steps.pure trivial)
      · exact Steps.pure trivial
    · exact Steps.pure trivial

/-- An event penalizes nobody but for its evidence, and for that at most once. -/
theorem handle_penalizes {event : Event} (hrestart : event.isRestart = false) :
    Steps (Penalizes s fun proof epoch => s.offence event = some (proof, epoch)) (handle event) s
      fun _ _ => True := by
  have hquiet : ∀ t u : NetworkRuntime, u.penalties = t.penalties →
      Penalizes s (fun proof epoch => s.offence event = some (proof, epoch)) t u :=
    fun _ _ => Or.inl
  cases event with
  | blockProposal msg now => exact (handleBlockProposal_leaves msg now).steps hquiet s
  | consensusVote vote now =>
      refine Steps.bind takeVote_penalizes fun advance _ _ => ?_
      split
      · exact (maybeAdvanceConsensus_leaves _).steps hquiet _
      · exact Steps.pure trivial
  | blockResponse msg => exact (handleBlockResponse_leaves msg).steps hquiet s
  | finalityCertificate certificate =>
      exact (handleFinalityCertificate_leaves certificate).steps hquiet s
  | equivocationEvidence msg =>
      exact recordEquivocation_penalizes rfl fun hnew => by rw [offence, if_pos hnew]
  | timeout now => exact (consensusTimeout_leaves now).steps hquiet s
  | refresh => exact validatorSetRefresh_leaves.steps hquiet s
  | peers registry => exact Steps.modify (.single (Or.inl rfl)) trivial
  | restart chain => cases hrestart

omit [Crypto] in
theorem ledger_of_new {chain : Chain} {config : NetworkConfig} {fresh : NetworkRuntime}
    (h : new chain config = .ok fresh) : fresh.ledger = chain.equivocationRecords := by
  unfold new at h
  rw [Fallible.bind_eq_ok_iff] at h
  obtain ⟨validators, -, h⟩ := h
  rw [Fallible.bind_eq_ok_iff] at h
  obtain ⟨validatorSet, -, h⟩ := h
  cases h
  unfold ledger
  dsimp only
  split
  · rfl
  · rfl

omit [Crypto] in
/-- A restart forgets no penalty; the ledger is the one of the chain that it loads. -/
theorem penalties_restart {t : NetworkRuntime} {chain : Chain}
    (h : t ∈ (restart chain s).states) :
    t = s ∨ t.penalties = (s.slashed, chain.equivocationRecords) := by
  rcases hnew : new (s.reloaded chain) s.config with e | fresh
  · left
    have hrun : restart chain s = ⟨.error e, s, [s]⟩ := by
      simp only [restart, Script.act, bind, hnew]
    rw [hrun] at h
    simpa [Interrupt.Outcome.states] using h
  · rw [states_restart hnew] at h
    rcases List.mem_cons.mp h with hs | hrest
    · exact Or.inl hs
    · right
      obtain ⟨consensusRounds, pendingBlocks, hframe⟩ := s.loaded_frame fresh
      have hloaded : (s.loaded fresh).penalties = (s.slashed, chain.equivocationRecords) := by
        have hledger : fresh.ledger = (s.reloaded chain).equivocationRecords := ledger_of_new hnew
        rw [hframe]
        exact congrArg (Prod.mk s.slashed) hledger
      refine Eq.trans (Leaves.states ?_ hrest) hloaded
      split
      · exact Leaves.pure _
      · exact Leaves.modify fun _ => rfl
      · exact persistConsensusState_leaves

end

end NetworkRuntime

/-! ## Runs -/

namespace Node

open NetworkRuntime Runs

variable [Crypto]

/-- The evidence that an input brings to a node that is up. -/
def offence (self : Node) (input : Input) : Option (EquivocationProof × UInt64) :=
  if self.up = true then self.runtime.offence input.event else none

/-- What a step may do to the penalties and the ledger. -/
inductive Penalties (self : Node) (input : Input) (t : NetworkRuntime) : Prop
  | none (h : t.penalties = self.runtime.penalties)
  | one (proof : EquivocationProof) (epoch : UInt64)
      (hoffence : self.offence input = some (proof, epoch))
      (hpenalized : Penalized proof epoch self.runtime t)
  | restarted (chain : Chain) (hevent : input.event = .restart chain)
      (h : t.penalties = (self.runtime.slashed, chain.equivocationRecords))

/-- Cut off or not. -/
theorem step_penalties (node : Node) (input : Input) :
    node.Penalties input (node.step input).runtime := by
  by_cases hrestart : input.event.isRestart = true
  · refine step_of_states (fun t ht => ?_) (.none rfl)
    rcases hevent : input.event with _ | _ | _ | _ | _ | _ | _ | _ | chain
    all_goals rw [hevent] at hrestart
    case restart =>
      rw [hevent] at ht
      rcases penalties_restart ht with rfl | hloaded
      · exact .none rfl
      · exact .restarted chain hevent hloaded
    all_goals cases hrestart
  · rw [Bool.not_eq_true] at hrestart
    by_cases hup : node.up = true
    · refine step_of_states (fun t ht => ?_) (.none rfl)
      have hpath := (handle_penalizes (s := node.runtime) hrestart).states t ht
      rcases Penalizes.of_path hpath with hsame | ⟨proof, epoch, hoffence, hpenalized⟩
      · exact .none hsame
      · exact .one proof epoch (by rw [offence, if_pos hup, hoffence]) hpenalized
    · have hstay : node.step input = node := by
        rw [step, if_neg (by simp [hup, hrestart])]
      rw [hstay]
      exact .none rfl

theorem isOrdered_of_offence {node : Node} {input : Input} {proof : EquivocationProof}
    {epoch : UInt64} (h : node.offence input = some (proof, epoch)) : proof.IsOrdered := by
  unfold offence at h
  split at h
  swap
  · cases h
  unfold NetworkRuntime.offence at h
  split at h
  · obtain ⟨first, -, heq⟩ := Option.map_eq_some_iff.mp h
    rw [← (Prod.mk.inj heq).1]
    exact isOrdered_equivocationProof _ _
  · split at h
    · rw [← (Prod.mk.inj (Option.some.inj h)).1]
      exact isOrdered_equivocationProof _ _
    · cases h
  · cases h

/-- The evidence is penalized unless the node crashes. -/
theorem slashed_step_of_offence {node : Node} {input : Input} {proof : EquivocationProof}
    {epoch : UInt64} (hcut : input.cut = none) (h : node.offence input = some (proof, epoch)) :
    (node.step input).runtime.slashed = proof.key epoch :: node.runtime.slashed := by
  unfold offence at h
  split at h
  swap
  · cases h
  rename_i hup
  have hstep : (node.step input).runtime = (handle input.event node.runtime).last := by
    rw [step, hup, hcut]
    rfl
  rw [hstep]
  unfold NetworkRuntime.offence at h
  split at h
  · rename_i vote now hevent
    obtain ⟨first, hstruck, heq⟩ := Option.map_eq_some_iff.mp h
    obtain ⟨rfl, rfl⟩ := Prod.mk.inj heq
    have hadvance : ∀ t, (maybeAdvanceConsensus vote.height t).last.slashed = t.slashed :=
      fun t => congrArg Prod.fst ((maybeAdvanceConsensus_leaves vote.height).last t)
    obtain ⟨u, -, hslashed, hnew, hlast⟩ := last_of_struck (g := slashed) now hadvance hstruck
    rw [hevent, ← hslashed, ← (penalized_recordEquivocation hnew).slashed]
    exact hlast
  · rename_i msg hevent
    split at h
    · rename_i hnew
      obtain ⟨rfl, rfl⟩ := Prod.mk.inj (Option.some.inj h)
      rw [hevent]
      exact (penalized_recordEquivocation hnew).slashed
    · cases h
  · cases h

end Node

/-- A node, and the chains that it had, newest first. -/
structure Traced where
  node : Node
  chains : List Chain

namespace Traced

open NetworkRuntime Runs

variable [Crypto]

def step (self : Traced) (input : Input) : Traced :=
  let node := self.node.step input
  ⟨node, node.runtime.chain :: self.chains⟩

omit [Crypto] in
def start (node : Node) : Traced := ⟨node, [node.runtime.chain]⟩

/-- The runtime set holds the evidence, or no ledger of the node has had it. -/
def FirstTime (self : Traced) (input : Input) : Prop :=
  ∀ proof epoch, self.node.offence input = some (proof, epoch) →
    ∀ chain ∈ self.chains, chain.hasEquivocation proof epoch = false

/-- Nobody was penalized twice for the same. -/
def Once (self : Traced) : Prop := self.node.runtime.slashed.Nodup

/-- What was penalized has been in a ledger. -/
def Noted (self : Traced) : Prop :=
  ∀ key ∈ self.node.runtime.slashed, ∃ chain ∈ self.chains, ∃ proof epoch,
    proof.key epoch = key ∧ chain.hasEquivocation proof epoch = true

omit [Crypto] in
instance (w : Traced) : Decidable w.Once := inferInstanceAs (Decidable (List.Nodup _))

theorem firstTime_iff {w : Traced} {input : Input} :
    w.FirstTime input ↔ (w.node.offence input).all (fun p =>
      w.chains.all fun chain => !chain.hasEquivocation p.1 p.2) = true := by
  simp [FirstTime, Option.all_eq_true]

instance (w : Traced) (input : Input) : Decidable (w.FirstTime input) :=
  decidable_of_iff _ firstTime_iff.symm

theorem step_once {w : Traced} {input : Input} (h : w.Once ∧ w.Noted)
    (hfirst : w.FirstTime input) : (w.step input).Once ∧ (w.step input).Noted := by
  have hsame : (w.step input).node.runtime.slashed = w.node.runtime.slashed →
      (w.step input).Once ∧ (w.step input).Noted := by
    intro hslashed
    refine ⟨?_, fun key hkey => ?_⟩
    · rw [Once, hslashed]
      exact h.1
    · rw [hslashed] at hkey
      obtain ⟨chain, hchain, hnoted⟩ := h.2 key hkey
      exact ⟨chain, List.mem_cons_of_mem _ hchain, hnoted⟩
  rcases w.node.step_penalties input with hnone | ⟨proof, epoch, hoffence, hpenalized⟩ |
    ⟨chain, -, hrestarted⟩
  · exact hsame (Prod.mk.inj hnone).1
  · have hslashed : (w.step input).node.runtime.slashed
        = proof.key epoch :: w.node.runtime.slashed := hpenalized.slashed
    refine ⟨?_, fun key hkey => ?_⟩
    · rw [Once, hslashed]
      refine List.nodup_cons.mpr ⟨fun hmem => ?_, h.1⟩
      obtain ⟨chain, hchain, proof', epoch', hkey, hhas⟩ := h.2 _ hmem
      obtain ⟨rfl, rfl⟩ := EquivocationProof.key_inj.mp hkey
      rw [hfirst _ _ hoffence chain hchain] at hhas
      cases hhas
    · rw [hslashed] at hkey
      rcases List.mem_cons.mp hkey with rfl | hold
      · exact ⟨_, List.mem_cons_self, proof, epoch, rfl,
          Chain.hasEquivocation_recordEquivocation (Node.isOrdered_of_offence hoffence)
            hpenalized.ledger⟩
      · obtain ⟨chain, hchain, hnoted⟩ := h.2 key hold
        exact ⟨chain, List.mem_cons_of_mem _ hchain, hnoted⟩
  · exact hsame (Prod.mk.inj hrestarted).1

theorem node_foldl (w : Traced) (inputs : List Input) :
    (inputs.foldl step w).node = inputs.foldl Node.step w.node := by
  induction inputs generalizing w with
  | nil => rfl
  | cons input inputs ih => exact ih (w.step input)

/-- The input is carried out to its end, and a restart loads the ledger that there is. -/
def KeepsLedger (self : Traced) (input : Input) : Prop :=
  input.cut = none ∧ ∀ chain, input.event = .restart chain →
    chain.equivocationRecords = self.node.runtime.ledger

/-- What has been in a ledger was penalized. -/
structure Settled (w : Traced) : Prop where
  current : w.node.runtime.chain ∈ w.chains
  entries : ∀ chain ∈ w.chains, ∀ entry ∈ chain.equivocationRecords,
    entry.1.IsOrdered ∧ entry.1.key entry.2 ∈ w.node.runtime.slashed

theorem step_settled {w : Traced} {input : Input} (h : w.Settled)
    (hkeeps : w.KeepsLedger input) : (w.step input).Settled := by
  refine ⟨List.mem_cons_self, fun chain hchain entry hentry => ?_⟩
  have hold := h.entries _ h.current
  rcases w.node.step_penalties input with hnone | ⟨proof, epoch, hoffence, hpenalized⟩ |
    ⟨loaded, hevent, hrestarted⟩
  · obtain ⟨hslashed, hledger⟩ := Prod.mk.inj hnone
    rw [show (w.step input).node.runtime.slashed = _ from hslashed]
    rcases List.mem_cons.mp hchain with rfl | hchain
    · refine hold entry ?_
      show entry ∈ w.node.runtime.ledger
      rw [← hledger]
      exact hentry
    · exact h.entries chain hchain entry hentry
  · have hordered := Node.isOrdered_of_offence hoffence
    rw [show (w.step input).node.runtime.slashed = _ from hpenalized.slashed]
    rcases List.mem_cons.mp hchain with rfl | hchain
    · have hmem : entry
          ∈ (w.node.runtime.chain.recordEquivocation proof epoch).equivocationRecords :=
        hpenalized.ledger ▸ hentry
      rcases Chain.mem_recordEquivocation hordered hmem with hmem | rfl
      · exact ⟨(hold entry hmem).1, List.mem_cons_of_mem _ (hold entry hmem).2⟩
      · exact ⟨hordered, List.mem_cons_self⟩
    · obtain ⟨hentryOrdered, hkey⟩ := h.entries chain hchain entry hentry
      exact ⟨hentryOrdered, List.mem_cons_of_mem _ hkey⟩
  · obtain ⟨hslashed, hledger⟩ := Prod.mk.inj hrestarted
    rw [show (w.step input).node.runtime.slashed = _ from hslashed]
    rcases List.mem_cons.mp hchain with rfl | hchain
    · refine hold entry ?_
      show entry ∈ w.node.runtime.ledger
      rw [← hkeeps.2 loaded hevent, ← hledger]
      exact hentry
    · exact h.entries chain hchain entry hentry

theorem firstTime_of_once {w : Traced} {input : Input} (h : w.Settled) (hcut : input.cut = none)
    (honce : (w.step input).Once) : w.FirstTime input := by
  intro proof epoch hoffence chain hchain
  have hslashed : (w.step input).node.runtime.slashed
      = proof.key epoch :: w.node.runtime.slashed := Node.slashed_step_of_offence hcut hoffence
  rw [Once, hslashed] at honce
  rw [← Bool.not_eq_true, Chain.hasEquivocation_iff (Node.isOrdered_of_offence hoffence)
    fun entry hentry => (h.entries chain hchain entry hentry).1]
  exact fun hmem => (List.nodup_cons.mp honce).1 (h.entries chain hchain _ hmem).2

/-- The same input again, after a restart from the chain that the node has by then. -/
theorem keepsLedger_again (node : Node) {input : Input} (hcut : input.cut = none)
    (hrestart : input.event.isRestart = false) :
    Along step KeepsLedger (start node)
      [input, { event := .restart (node.step input).runtime.chain }, input] := by
  have hinput : ∀ w : Traced, w.KeepsLedger input := by
    refine fun w => ⟨hcut, fun chain hevent => ?_⟩
    rw [hevent] at hrestart
    cases hrestart
  refine ⟨hinput _, ⟨rfl, fun chain hevent => ?_⟩, hinput _, trivial⟩
  obtain rfl := Event.restart.inj hevent
  rfl

theorem along_firstTime {w : Traced} {inputs : List Input} (h : w.Settled)
    (hkeeps : Along step KeepsLedger w inputs) (honce : Throughout step Once w inputs) :
    Along step FirstTime w inputs := by
  induction inputs generalizing w with
  | nil => trivial
  | cons input inputs ih =>
      exact ⟨firstTime_of_once h hkeeps.1.1 honce.2.first,
        ih (step_settled h hkeeps.1) hkeeps.2 honce.2⟩

end Traced

namespace Node

open NetworkRuntime Runs

variable [Crypto]

omit [Crypto] in
theorem Founded.slashed {node : Node} (h : node.Founded) : node.runtime.slashed = [] := by
  obtain ⟨-, chain, config, fresh, hnew, hruntime⟩ := h
  have hjournal : node.runtime.journal = [] := by
    rcases hruntime with hplain | hstored
    · rw [hplain]
      exact (fresh_of_new hnew).journal
    · rw [hstored]
      exact (fresh_of_new hnew).journal
  rw [NetworkRuntime.slashed, hjournal]
  rfl

/-- Where no ledger of the node has had the evidence that the runtime set does not hold,
nobody is penalized twice for the same.  In a run from an empty ledger without crashes,
whose restarts keep the ledger, that is so only there. -/
theorem penalized_once {node : Node} (hnode : node.Founded) (inputs : List Input) :
    (Along Traced.step Traced.FirstTime (Traced.start node) inputs →
        Throughout Traced.step Traced.Once (Traced.start node) inputs)
      ∧ (node.runtime.ledger = [] →
        Along Traced.step Traced.KeepsLedger (Traced.start node) inputs →
        Throughout Traced.step Traced.Once (Traced.start node) inputs →
          Along Traced.step Traced.FirstTime (Traced.start node) inputs) := by
  have hslashed : (Traced.start node).node.runtime.slashed = [] := hnode.slashed
  have honce : (Traced.start node).Once := by
    rw [Traced.Once, hslashed]
    exact List.nodup_nil
  refine ⟨fun hfirst => ?_, fun hledger hkeeps hthroughout => ?_⟩
  · have hnoted : (Traced.start node).Noted := by
      intro key hkey
      rw [hslashed] at hkey
      cases hkey
    exact (throughout_of_along (fun _ _ => Traced.step_once) ⟨honce, hnoted⟩ hfirst).mono
      fun _ => And.left
  · refine Traced.along_firstTime ⟨List.mem_singleton_self _, fun chain hchain entry hentry => ?_⟩
      hkeeps hthroughout
    rw [List.mem_singleton.mp hchain] at hentry
    rw [show node.runtime.chain.equivocationRecords = [] from hledger] at hentry
    cases hentry

end Node

/-! ## The same evidence again -/

section

open NetworkRuntime Runs

/-- A prevote of validator `[1; 32]` in the first round, for the block `[b; 32]`. -/
def onePrevote (b : UInt8) : Vote :=
  (fourRuntime 1 3 3).signVoteWithEpoch 0 (Hash.ofByte b) 1 0 .prevote

def oneEvidence : Input := { event := .equivocationEvidence ⟨onePrevote 7, onePrevote 9, 0⟩ }

/-- The evidence, a restart from the chain that the node has by then, and the evidence. -/
def evidenceAgain : List Input :=
  [oneEvidence,
    { event := .restart (@Node.step polyCrypto (fourNode 2 3 3) oneEvidence).runtime.chain },
    oneEvidence]

theorem run_evidence :
    (new (fourChain 2 3) (fourConfig 3)).isOk = true
      ∧ decide (Along (@Traced.step polyCrypto) (@Traced.FirstTime polyCrypto)
          (Traced.start (fourNode 2 3 3)) [oneEvidence, oneEvidence]) = true
      ∧ ([oneEvidence, oneEvidence].foldl (@Node.step polyCrypto)
          (fourNode 2 3 3)).runtime.slashed.length = 1
      ∧ decide (evidenceAgain.foldl (@Node.step polyCrypto) (fourNode 2 3 3)).runtime.slashed.Nodup
        = false
      ∧ (evidenceAgain.foldl (@Node.step polyCrypto)
          (fourNode 2 3 3)).runtime.chain.slashing.events.map (·.validatorId)
        = [Hash.ofByte 1, Hash.ofByte 1] := by
  decide +kernel

/-- Without a restart the runtime set holds the evidence when it comes again. -/
theorem penalized_once_four :
    Throughout (@Traced.step polyCrypto) Traced.Once (Traced.start (fourNode 2 3 3))
      [oneEvidence, oneEvidence] := by
  obtain ⟨hnew, hfirst, -, -, -⟩ := run_evidence
  exact (@Node.penalized_once polyCrypto _ (founded_fourNode hnew) _).1 (of_decide_eq_true hfirst)

/-- After a restart that keeps the ledger the stake is slashed for it once more. -/
theorem penalized_twice :
    (fourNode 2 3 3).Founded ∧ (fourNode 2 3 3).runtime.ledger = []
      ∧ Along (@Traced.step polyCrypto) Traced.KeepsLedger (Traced.start (fourNode 2 3 3))
          evidenceAgain
      ∧ ¬ Throughout (@Traced.step polyCrypto) Traced.Once (Traced.start (fourNode 2 3 3))
          evidenceAgain
      ∧ (evidenceAgain.foldl (@Node.step polyCrypto)
          (fourNode 2 3 3)).runtime.chain.slashing.events.map (·.validatorId)
        = [Hash.ofByte 1, Hash.ofByte 1] := by
  obtain ⟨hnew, -, -, htwice, hevents⟩ := run_evidence
  refine ⟨founded_fourNode hnew, rfl, @Traced.keepsLedger_again polyCrypto _ _ rfl rfl, ?_, hevents⟩
  intro honce
  have hlast := honce.last
  rw [Traced.Once, @Traced.node_foldl polyCrypto] at hlast
  exact of_decide_eq_false htwice hlast

end

end Sccgub
