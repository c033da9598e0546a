import Mathlib
import Sccgub.Node.Certificates

/-!
# Blocks and the votes behind them

A block goes on the chain of a node when its round has the quorums, or when a peer
sends it in a response.  Import checks a block and its producer and knows nothing
of votes, so a response needs none.  In a round the votes are counted, up to what
governance asks for.

Where it asks for two thirds of the validators and one more, rounds are of the
present validators, and responses only bring blocks that have their votes, every
block on the chain has them.
-/

namespace Sccgub

open Bincode Safety Quorum Runs ConsensusRound

namespace NetworkRuntime

variable [Crypto]

/-- The act brought a valid precommit of the validator for the block. -/
def attests (validators : ValidatorKeys) (chainId hash id : Hash) : Act → Bool
  | .hears epoch vote | .signs epoch vote =>
      vote.validatorId = id && vote.voteType = .precommit && vote.blockHash = hash
        && signedByMember validators chainId epoch vote
  | .verifies certificate =>
      certificate.blockHash = hash && id ∈ certificate.validSigners validators
  | _ => false

/-- The validators whose precommit for a block the node has, as a vote or in a
certificate that it verified. -/
def backers (self : NetworkRuntime) (validators : ValidatorKeys) (hash : Hash) : Finset Hash :=
  validators.keys.toFinset.filter fun id =>
    self.journal.any (attests validators self.chainId hash id)

/-- Two thirds of the validators and one more are behind the block. -/
def Backed (self : NetworkRuntime) (validators : ValidatorKeys) (block : Block) : Prop :=
  threshold validators.size ≤ (self.backers validators block.header.blockId).card

instance (self : NetworkRuntime) (validators : ValidatorKeys) (block : Block) :
    Decidable (self.Backed validators block) :=
  inferInstanceAs (Decidable ((_ : Nat) ≤ _))

/-- Every block that the node appended. -/
def AllBacked (self : NetworkRuntime) : Prop :=
  ∀ validators block, Act.appends validators block ∈ self.journal → self.Backed validators block

theorem Backed.continues {s t : NetworkRuntime} {validators : ValidatorKeys} {block : Block}
    (h : s.Backed validators block) (hcont : Continues s t) : t.Backed validators block := by
  refine h.trans (Finset.card_le_card fun id hid => ?_)
  obtain ⟨acts, hacts⟩ := hcont.journal
  unfold backers at hid ⊢
  rw [Finset.mem_filter] at hid ⊢
  rw [hacts, hcont.chainId, List.any_append, hid.2, Bool.or_true]
  exact ⟨hid.1, rfl⟩

/-- Whoever counts in a round of the node is behind its block. -/
theorem RoundOf.precommitSigners_subset {s : NetworkRuntime} {lax : Prop} {height : UInt64}
    {round : ConsensusRound} (h : s.RoundOf lax height round) :
    round.precommitSigners ⊆ s.backers round.validatorSet round.blockHash := by
  intro id hid
  rw [precommitSigners, List.mem_toFinset, List.mem_map] at hid
  obtain ⟨v, hv, rfl⟩ := hid
  obtain ⟨hmem, hcounted⟩ := List.mem_filter.mp hv
  rw [Bool.and_eq_true] at hcounted
  obtain ⟨key, hkey⟩ := getElem?_of_mem_values hmem
  obtain ⟨-, htype, -, -, hknown, hsigned⟩ := h.sound.precommits key v hkey
  have hattests : ∀ act, act = Act.hears round.epoch v ∨ act = Act.signs round.epoch v →
      attests round.validatorSet s.chainId round.blockHash v.validatorId act = true := by
    rintro act (rfl | rfl)
    all_goals
      rw [← h.chainId]
      simp [attests, htype, of_decide_eq_true hcounted.1, hsigned]
  rw [backers, Finset.mem_filter, List.mem_toFinset, Std.ExtTreeMap.mem_keys]
  refine ⟨mem_of_signedByMember hsigned, List.any_eq_true.mpr ?_⟩
  rcases mem_knownVotes_iff.mp hknown with hheard | hsigns
  · exact ⟨_, hheard, hattests _ (Or.inl rfl)⟩
  · exact ⟨_, hsigns, hattests _ (Or.inr rfl)⟩

/-- A round that is not lax and has its quorums has its block backed. -/
theorem RoundOf.backed {s : NetworkRuntime} {height : UInt64} {round : ConsensusRound}
    {block : Block} (h : s.RoundOf False height round) (hquorums : round.Finalizes)
    (hid : block.header.blockId = round.blockHash) : s.Backed round.validatorSet block := by
  have hcount : round.quorum ≤ round.precommitCount := of_decide_eq_true hquorums.2
  rw [UInt32.le_iff_toNat_le, precommitCount_eq, toNat_clampU32] at hcount
  have hquorum : threshold round.validatorSet.size ≤ round.quorum.toNat := h.quorum.resolve_right id
  have hnodup : (round.countedPrecommits.map Vote.validatorId).Nodup :=
    h.sound.precommits.values_nodup.sublist (List.filter_sublist.map _)
  have hcard : round.precommitSigners.card = round.countedPrecommits.length := by
    rw [precommitSigners, List.toFinset_card_of_nodup hnodup, List.length_map]
  have hsubset := Finset.card_le_card h.precommitSigners_subset
  rw [Backed, hid]
  omega

/-- Configured validators are the ones of every round. -/
theorem SoundRounds.ownRound {s : NetworkRuntime} {lax : Prop} (h : s.SoundRounds lax)
    (hconfig : s.config.validators ≠ []) (height : UInt64) :
    s.syncValidatorSetFromChainIfUnconfigured.OwnRound height := by
  have hsync : s.syncValidatorSetFromChainIfUnconfigured = s := by
    unfold syncValidatorSetFromChainIfUnconfigured
    rw [if_pos]
    simpa using hconfig
  rw [hsync]
  exact fun state hstate => (h.rounds height state hstate).own hconfig

theorem Move.allBacked {leeway : Leeway} {s t : NetworkRuntime} (h : Move leeway s t)
    (hforeign : ¬ leeway.foreign)
    (hresponse : ∀ validators block, leeway.response validators block → s.Backed validators block)
    (hrounds : s.SoundRounds False) (hs : s.AllBacked) : t.AllBacked := by
  have hcont := h.continues
  intro validators block hact
  cases h with
  | append block' chain himport hwhy =>
      rcases List.mem_cons.mp hact with hnew | hold
      · cases hnew
        refine Backed.continues ?_ hcont
        rcases hwhy with ⟨height, state, hstate, hquorums, hid, hown⟩ | hsent
        · rw [← hown.resolve_right hforeign]
          exact (hrounds.rounds height state hstate).backed hquorums hid
        · exact hresponse _ _ hsent
      · exact (hs validators block hold).continues hcont
  | send | hear | verify | sign | finalize | punish =>
      refine (hs validators block ?_).continues hcont
      simpa [record, broadcast] using hact
  | sync =>
      obtain ⟨validatorSet, hframe⟩ := s.sync_frame
      rw [hframe] at hact hcont ⊢
      exact (hs validators block hact).continues hcont
  | _ => exact (hs validators block hact).continues hcont

end NetworkRuntime

/-! ## Runs -/

namespace Node

open NetworkRuntime

variable [Crypto]

/-- Where validators are not configured a message finds the round of its height to
be one of the present validators. -/
def OwnRoundAt (self : Node) (input : Input) : Prop :=
  self.runtime.config.validators = [] → ∀ height ∈ input.event.subject,
    self.runtime.syncValidatorSetFromChainIfUnconfigured.OwnRound height

/-- A response that brings the next block finds the votes for it with the node. -/
def ResponseBackedAt (self : Node) (input : Input) : Prop :=
  match input.event with
  | .blockResponse msg => ∀ block ∈ msg.block, (self.runtime.chain.importBlock block).1 = .ok () →
      self.runtime.Backed self.runtime.validatorSet block
  | _ => True

def CommitsBackedAt (self : Node) (input : Input) : Prop :=
  self.HighQuorumAt input ∧ self.OwnRoundAt input ∧ self.ResponseBackedAt input

instance (self : NetworkRuntime) (height : UInt64) : Decidable (self.OwnRound height) :=
  have (V W : ValidatorKeys) : Decidable (V = W) := decidable_of_iff _ Std.ExtTreeMap.toList_inj
  inferInstanceAs (Decidable (∀ state ∈ self.consensusRounds[height]?,
    state.round.validatorSet = self.validatorSet))

instance (self : Node) (input : Input) : Decidable (self.OwnRoundAt input) :=
  inferInstanceAs (Decidable (_ → ∀ height ∈ _, OwnRound _ height))

instance (self : Node) (input : Input) : Decidable (self.ResponseBackedAt input) :=
  match input with
  | ⟨.blockResponse msg, _⟩ => inferInstanceAs (Decidable (∀ block ∈ msg.block,
      (self.runtime.chain.importBlock block).1 = .ok () →
        self.runtime.Backed self.runtime.validatorSet block))
  | ⟨.blockProposal .., _⟩ | ⟨.consensusVote .., _⟩ | ⟨.finalityCertificate .., _⟩
  | ⟨.equivocationEvidence .., _⟩ | ⟨.timeout .., _⟩ | ⟨.refresh, _⟩ | ⟨.peers .., _⟩
  | ⟨.restart .., _⟩ => .isTrue trivial

instance (self : Node) (input : Input) : Decidable (self.CommitsBackedAt input) :=
  inferInstanceAs (Decidable (_ ∧ _))

theorem step_allBacked {node : Node} {input : Input} (hinput : node.CommitsBackedAt input)
    (hkeyed : node.runtime.Keyed) (hrounds : node.runtime.SoundRounds False)
    (h : node.runtime.AllBacked) : (node.step input).runtime.AllBacked := by
  obtain ⟨hquorum, hown, hresponse⟩ := hinput
  have hsent : ∀ validators block,
      (node.runtime.leewayOf input.event).response validators block →
        node.runtime.Backed validators block := by
    rintro _ block ⟨rfl, himport, msg, hevent, hblock⟩
    rw [ResponseBackedAt, hevent] at hresponse
    exact hresponse block hblock himport
  have hall := @step_keeps _ (fun s => Continues node.runtime s ∧ s.SoundRounds False ∧ s.AllBacked)
    node input hkeyed ⟨.refl _, hrounds, h⟩ ?_ ?_
  · exact hall.2.2
  · rintro s t hmove ⟨hcont, hs, hbacked⟩
    refine ⟨hcont.trans hmove.continues, ?_, ?_⟩
    · exact hmove.soundRounds (fun hlow => hlow.2 (hquorum hlow.1)) hs
    · refine hmove.allBacked ?_ (fun _ _ hr => (hsent _ _ hr).continues hcont) hs hbacked
      rintro ⟨height, hsubject, hforeign⟩
      refine hforeign ?_
      by_cases hconfig : node.runtime.config.validators = []
      · exact hown hconfig height hsubject
      · exact hrounds.ownRound hconfig height
  · intro chain fresh _ hnew
    have hcont := continues_loaded hrounds.configured hnew
    refine ⟨hcont, hrounds.loaded hnew, fun validators block hact => ?_⟩
    obtain ⟨rounds, pending, hframe⟩ := node.runtime.loaded_frame fresh
    refine (h validators block ?_).continues hcont
    rw [hframe] at hact
    exact hact

/-- In every run that meets the condition every block that the node appends has
precommits of two thirds of the validators and one more behind it. -/
theorem appended_blocks_backed (node : Node) (hnode : node.Founded) (inputs : List Input)
    (hinputs : Along step CommitsBackedAt node inputs) (validators : ValidatorKeys) (block : Block)
    (hact : Act.appends validators block ∈ (inputs.foldl step node).runtime.journal) :
    (inputs.foldl step node).runtime.Backed validators block := by
  have hstart : node.runtime.AllBacked := by
    obtain ⟨-, chain, config, fresh, hnew, hruntime⟩ := hnode
    intro validators block hact
    rcases hruntime with hplain | hstored
    · rw [hplain, (fresh_of_new hnew).journal] at hact
      cases hact
    · rw [hstored, withPersistence, (fresh_of_new hnew).journal] at hact
      cases hact
  have hrun : Throughout step (fun node => node.runtime.AllBacked
      ∧ node.runtime.Keyed ∧ node.runtime.SoundRounds False) node inputs := by
    refine throughout_of_along (fun node input h hinput => ?_)
      ⟨hstart, hnode.keyed, hnode.soundRounds⟩ hinputs
    exact ⟨step_allBacked hinput h.2.1 h.2.2 h.1, step_soundRounds (Or.inl hinput.1) h.2⟩
  exact hrun.last.1 validators block hact

end Node

section

open NetworkRuntime

/-- A block of the proposer in a response to a node that has seen no vote. -/
def unbackedInputs : List Input :=
  (fourProposal 2 3 0 0).toList.map fun msg => { event := .blockResponse ⟨Hash.ofByte 2, some msg.block, 1⟩ }

def appendsUnbacked (self : NetworkRuntime) : Bool :=
  self.journal.any fun
    | .appends validators block => !decide (@Backed polyCrypto self validators block)
    | _ => false

/-- Four validators with a threshold of three: the block goes on the chain without a
vote. -/
theorem response_appends_unbacked :
    (fourNode 1 3 3).Founded ∧ ¬ ∀ validators block,
      Act.appends validators block
        ∈ (unbackedInputs.foldl (@Node.step polyCrypto) (fourNode 1 3 3)).runtime.journal →
      @Backed polyCrypto
        (unbackedInputs.foldl (@Node.step polyCrypto) (fourNode 1 3 3)).runtime validators block := by
  refine ⟨founded_fourNode run_thresholdThree.1, fun hall => ?_⟩
  have hunbacked : appendsUnbacked
      (unbackedInputs.foldl (@Node.step polyCrypto) (fourNode 1 3 3)).runtime = true := by
    decide +kernel
  obtain ⟨act, hmem, hact⟩ := List.any_eq_true.mp hunbacked
  cases act with
  | appends validators block => exact absurd (hall validators block hmem) (by simpa using hact)
  | _ => cases hact

/-- A certificate with the precommits of three on the same block, and then the response. -/
def certifiedInputs : List Input :=
  (fourProposal 2 3 0 0).toList.flatMap fun msg =>
    [{ event := .finalityCertificate
        { chainId := (fourRuntime 1 3 0).chainId
          epoch := 0
          height := 1
          blockHash := msg.block.header.blockId
          round := msg.round
          precommitSignatures := [2, 3, 4].map fun b =>
            (Hash.ofByte b, (fourVote b 3 msg .precommit).signature)
          quorum := 3
          validatorCount := 4 } },
      { event := .blockResponse ⟨Hash.ofByte 2, some msg.block, 1⟩ }]

theorem run_appendsBacked :
    ∀ inputs ∈ [fourInputs 3 [2, 3], certifiedInputs],
      ((inputs.foldl (@Node.step polyCrypto) (fourNode 1 3 3)).runtime.journal.any
          fun | .appends .. => true | _ => false) = true
        ∧ decide (Along (@Node.step polyCrypto) (@Node.CommitsBackedAt polyCrypto) (fourNode 1 3 3)
          inputs) = true := by
  decide +kernel

/-- The node appends a block in the run, with the votes for it. -/
def AppendsBacked (inputs : List Input) : Prop :=
  ∃ validators block,
    Act.appends validators block
        ∈ (inputs.foldl (@Node.step polyCrypto) (fourNode 1 3 3)).runtime.journal
      ∧ @Backed polyCrypto (inputs.foldl (@Node.step polyCrypto) (fourNode 1 3 3)).runtime
        validators block

/-- A proposal and the votes of two others, or a certificate and a response: the block goes
on the chain with three behind it. -/
theorem appended_blocks_backed_four :
    AppendsBacked (fourInputs 3 [2, 3]) ∧ AppendsBacked certifiedInputs := by
  have hruns : ∀ inputs ∈ [fourInputs 3 [2, 3], certifiedInputs], AppendsBacked inputs := by
    intro inputs hinputs
    obtain ⟨happends, hbacked⟩ := run_appendsBacked inputs hinputs
    obtain ⟨act, hmem, hact⟩ := List.any_eq_true.mp happends
    cases act with
    | appends validators block =>
        refine ⟨validators, block, hmem, @Node.appended_blocks_backed polyCrypto (fourNode 1 3 3)
          (founded_fourNode run_thresholdThree.1) inputs ?_ validators block hmem⟩
        refine @of_decide_eq_true _ _ ?_
        exact hbacked
    | _ => cases hact
  exact ⟨hruns _ List.mem_cons_self, hruns _ (List.mem_cons_of_mem _ List.mem_cons_self)⟩

end

end Sccgub
