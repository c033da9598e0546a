import Mathlib
import Sccgub.OrderedMap
import Sccgub.Consensus.Safety

/-!
# Agreement within a round

Two nodes run the same round, each on a block of its own, and receive votes in
any order.  What a node records was delivered to it and is a valid vote of a
member (`run_recorded`, by one step lemma); so a quorum of precommits is a set
of members, and two quorums on different blocks share members that have signed
both.
-/

namespace Sccgub

open Bincode Quorum

/-- What happens at one node. -/
inductive RoundCall where
  | addPrevote (vote : Vote)
  | addPrecommit (vote : Vote)
  | evaluate
  deriving DecidableEq

def RoundCall.vote? : RoundCall → Option Vote
  | addPrevote vote | addPrecommit vote => some vote
  | evaluate => none

/-- The votes a node was handed, taken or not. -/
def delivered (calls : List RoundCall) : List Vote := calls.filterMap RoundCall.vote?

namespace ConsensusRound

def countedPrevotes (self : ConsensusRound) : List Vote :=
  self.prevotes.values.filter fun v => v.blockHash = self.blockHash && v.voteType = .prevote

def countedPrecommits (self : ConsensusRound) : List Vote :=
  self.precommits.values.filter fun v => v.blockHash = self.blockHash && v.voteType = .precommit

theorem precommitCount_eq (self : ConsensusRound) :
    self.precommitCount = clampU32 self.countedPrecommits.length := rfl

/-- Both counts are over members, each of whom is there once. -/
structure CountsMembersOnce (reached : ConsensusRound) : Prop where
  prevotes_nodup : (reached.countedPrevotes.map Vote.validatorId).Nodup
  prevotes_member : ∀ v ∈ reached.countedPrevotes, v.validatorId ∈ reached.validatorSet
  precommits_nodup : (reached.countedPrecommits.map Vote.validatorId).Nodup
  precommits_member : ∀ v ∈ reached.countedPrecommits, v.validatorId ∈ reached.validatorSet

section

variable [Crypto]

/-- A refused vote leaves the round as it is. -/
def step (self : ConsensusRound) : RoundCall → ConsensusRound
  | .addPrevote vote =>
      match self.addPrevote vote with
      | .ok next => next
      | .error _ => self
  | .addPrecommit vote =>
      match self.addPrecommit vote with
      | .ok next => next
      | .error _ => self
  | .evaluate => self.evaluate.1

def run (self : ConsensusRound) (calls : List RoundCall) : ConsensusRound := calls.foldl step self

/-- The signature on a vote is the one of its member, for this chain and epoch. -/
def signedByMember (validatorSet : ValidatorKeys) (chainId : Hash) (epoch : UInt64) (v : Vote) :
    Bool :=
  match validatorSet[v.validatorId]? with
  | some publicKey => verifyStrict publicKey
      (voteSignData chainId epoch v.blockHash v.height v.round v.voteType) v.signature
  | none => false

/-- The members with valid votes of one type on two blocks, at this height and
round. -/
def equivocators (validatorSet : ValidatorKeys) (chainId : Hash) (epoch height : UInt64)
    (round : UInt32) (votes : List Vote) : Finset Hash :=
  validatorSet.keys.toFinset.filter fun id =>
    votes.any fun v => votes.any fun v' =>
      v.validatorId = id && v'.validatorId = id
        && v.height = height && v'.height = height && v.round = round && v'.round = round
        && v.voteType = v'.voteType && v.blockHash ≠ v'.blockHash
        && signedByMember validatorSet chainId epoch v
        && signedByMember validatorSet chainId epoch v'

/-! ## What is recorded -/

/-- Every vote in the store was delivered and is a valid vote of the member it
is stored under. -/
def Recorded (self : ConsensusRound) (voteType : VoteType) (votes : List Vote) (store : VoteMap) :
    Prop :=
  ∀ id v, store[id]? = some v →
    v.validatorId = id ∧ v.voteType = voteType ∧ v.height = self.height ∧ v.round = self.round
      ∧ v ∈ votes ∧ signedByMember self.validatorSet self.chainId self.epoch v = true

theorem Recorded.mono {self : ConsensusRound} {voteType : VoteType} {votes votes' : List Vote}
    {store : VoteMap} (h : self.Recorded voteType votes store) (hsub : votes ⊆ votes') :
    self.Recorded voteType votes' store := by
  intro id v hv
  obtain ⟨hid, htype, hheight, hround, hmem, hsigned⟩ := h id v hv
  exact ⟨hid, htype, hheight, hround, hsub hmem, hsigned⟩

theorem Recorded.insert {self : ConsensusRound} {voteType : VoteType} {votes : List Vote}
    {store : VoteMap} {vote : Vote} (h : self.Recorded voteType votes store)
    (hok : self.verifyVote vote voteType store = .ok ()) (hmem : vote ∈ votes) :
    self.Recorded voteType votes (store.insert vote.validatorId vote) := by
  obtain ⟨htype, hheight, hround, -, publicKey, hkey, hsigned⟩ := verifyVote_eq_ok hok
  intro id v hv
  rw [Std.ExtTreeMap.getElem?_insert] at hv
  split at hv
  · rename_i hid
    cases hv
    refine ⟨Std.LawfulEqCmp.eq_of_compare hid, htype, hheight, hround, hmem, ?_⟩
    rw [signedByMember, hkey]
    exact hsigned
  · exact h id v hv

/-- The round after any calls: only phase and vote stores have changed. -/
structure RunFrom (start : ConsensusRound) (votes : List Vote) (reached : ConsensusRound) :
    Prop where
  frame : reached = { start with
    phase := reached.phase, prevotes := reached.prevotes, precommits := reached.precommits }
  prevotes : start.Recorded .prevote votes reached.prevotes
  precommits : start.Recorded .precommit votes reached.precommits

theorem RunFrom.mono {start self : ConsensusRound} {votes votes' : List Vote}
    (h : RunFrom start votes self) (hsub : votes ⊆ votes') : RunFrom start votes' self :=
  ⟨h.frame, h.prevotes.mono hsub, h.precommits.mono hsub⟩

omit [Crypto] in
theorem evaluate_fst (self : ConsensusRound) :
    ∃ phase, self.evaluate.1 = { self with phase } := by
  unfold evaluate
  dsimp only
  split
  · exact ⟨_, rfl⟩
  · split
    · exact ⟨_, rfl⟩
    · split
      · exact ⟨self.phase, rfl⟩
      · split <;> exact ⟨self.phase, rfl⟩

/-- One call keeps the record, with the vote it brings among the delivered. -/
theorem RunFrom.step {start self : ConsensusRound} {votes : List Vote}
    (h : RunFrom start votes self) (call : RoundCall) (hcall : ∀ v ∈ call.vote?, v ∈ votes) :
    RunFrom start votes (self.step call) := by
  obtain ⟨hframe, hprevotes, hprecommits⟩ := h
  cases call with
  | addPrevote vote =>
      rcases hok : self.verifyVote vote .prevote self.prevotes with e | ⟨⟩
      · simp only [ConsensusRound.step, addPrevote, hok, Except.map]
        exact ⟨hframe, hprevotes, hprecommits⟩
      · simp only [ConsensusRound.step, addPrevote, hok, Except.map]
        refine ⟨?_, hprevotes.insert ?_ (hcall vote rfl), hprecommits⟩
        · rw [hframe]
        · rw [hframe] at hok
          exact hok
  | addPrecommit vote =>
      rcases hok : self.verifyVote vote .precommit self.precommits with e | ⟨⟩
      · simp only [ConsensusRound.step, addPrecommit, hok, Except.map]
        exact ⟨hframe, hprevotes, hprecommits⟩
      · simp only [ConsensusRound.step, addPrecommit, hok, Except.map]
        refine ⟨?_, hprevotes, hprecommits.insert ?_ (hcall vote rfl)⟩
        · rw [hframe]
        · rw [hframe] at hok
          exact hok
  | evaluate =>
      obtain ⟨phase, heval⟩ := self.evaluate_fst
      simp only [ConsensusRound.step, heval]
      refine ⟨?_, hprevotes, hprecommits⟩
      rw [hframe]

theorem run_recorded {start : ConsensusRound} (hprevotes : start.prevotes = ∅)
    (hprecommits : start.precommits = ∅) (calls : List RoundCall) :
    RunFrom start (delivered calls) (start.run calls) := by
  induction calls using List.reverseRecOn with
  | nil =>
      refine ⟨rfl, ?_, ?_⟩
      · intro id v hv
        simp [run, hprevotes] at hv
      · intro id v hv
        simp [run, hprecommits] at hv
  | append_singleton calls call ih =>
      have hrun : start.run (calls ++ [call]) = (start.run calls).step call := by
        simp only [run, List.foldl_append, List.foldl_cons, List.foldl_nil]
      have hdelivered : delivered (calls ++ [call]) = delivered calls ++ call.vote?.toList := by
        rw [delivered, delivered, List.filterMap_append, List.filterMap_cons, List.filterMap_nil]
        cases call.vote? <;> rfl
      rw [hrun, hdelivered]
      refine (ih.mono (List.subset_append_left _ _)).step call fun v hv => ?_
      exact List.mem_append_right _ (Option.mem_toList.mpr hv)

/-! ## Counted votes -/

omit [Crypto] in
theorem getElem?_of_mem_values {store : VoteMap} {v : Vote} (h : v ∈ store.values) :
    ∃ id : Hash, store[id]? = some v := by
  rw [OrderedMap.values_eq, List.mem_map] at h
  obtain ⟨⟨id, v'⟩, hmem, rfl⟩ := h
  exact ⟨id, Std.ExtTreeMap.mem_toList_iff_getElem?_eq_some.mp hmem⟩

/-- Recorded votes carry the id they are stored under, so ids do not repeat. -/
theorem Recorded.values_nodup {self : ConsensusRound} {voteType : VoteType} {votes : List Vote}
    {store : VoteMap} (h : self.Recorded voteType votes store) :
    (store.values.map Vote.validatorId).Nodup := by
  have hkeys : store.values.map Vote.validatorId = store.keys := by
    rw [OrderedMap.values_eq, ← Std.ExtTreeMap.map_fst_toList_eq_keys,
      List.map_map]
    refine List.map_congr_left fun entry hentry => ?_
    exact (h entry.1 entry.2 (Std.ExtTreeMap.mem_toList_iff_getElem?_eq_some.mp hentry)).1
  rw [hkeys]
  exact Std.ExtTreeMap.nodup_keys

omit [Crypto] in
theorem mem_of_signedByMember [Crypto] {validatorSet : ValidatorKeys} {chainId : Hash}
    {epoch : UInt64} {v : Vote} (h : signedByMember validatorSet chainId epoch v = true) :
    v.validatorId ∈ validatorSet := by
  rw [Std.ExtTreeMap.mem_iff_isSome_getElem?]
  unfold signedByMember at h
  split at h
  · rename_i hkey
    rw [hkey]
    rfl
  · cases h

theorem RunFrom.countsMembersOnce {start reached : ConsensusRound} {votes : List Vote}
    (h : RunFrom start votes reached) : reached.CountsMembersOnce := by
  have hset : reached.validatorSet = start.validatorSet := by rw [h.frame]
  have hmember : ∀ {voteType store}, start.Recorded voteType votes store →
      ∀ v ∈ store.values, v.validatorId ∈ reached.validatorSet := by
    intro voteType store hrec v hv
    obtain ⟨id, hid⟩ := getElem?_of_mem_values hv
    rw [hset]
    exact mem_of_signedByMember (hrec id v hid).2.2.2.2.2
  exact
    { prevotes_nodup := h.prevotes.values_nodup.sublist (List.filter_sublist.map _)
      prevotes_member := fun v hv => hmember h.prevotes v (List.mem_of_mem_filter hv)
      precommits_nodup := h.precommits.values_nodup.sublist (List.filter_sublist.map _)
      precommits_member := fun v hv => hmember h.precommits v (List.mem_of_mem_filter hv) }

/-! ## Two nodes -/

def precommitSigners (self : ConsensusRound) : Finset Hash :=
  (self.countedPrecommits.map Vote.validatorId).toFinset

omit [Crypto] in
theorem evaluate_eq_finalized {self : ConsensusRound} {h : Hash} {p c : UInt32}
    (heval : self.evaluate.2 = .finalized h p c) :
    h = self.blockHash ∧ self.quorum ≤ self.precommitCount := by
  unfold evaluate at heval
  dsimp only at heval
  split at heval
  · rename_i hquorums
    rw [Bool.and_eq_true] at hquorums
    cases heval
    exact ⟨rfl, of_decide_eq_true hquorums.2⟩
  · split at heval
    · cases heval
    · split at heval
      · cases heval
      · split at heval <;> cases heval

/-- A node that finalizes has a quorum of distinct members behind it. -/
theorem RunFrom.threshold_le_card {chainId blockHash h : Hash} {epoch height : UInt64}
    {round maxRounds p c n : UInt32} {validatorSet : ValidatorKeys} {votes : List Vote}
    {reached : ConsensusRound} (hn : validatorSet.size = n.toNat)
    (hrun : RunFrom (new chainId epoch blockHash height round validatorSet maxRounds) votes reached)
    (heval : reached.evaluate.2 = .finalized h p c) :
    threshold validatorSet.size ≤ reached.precommitSigners.card := by
  have hquorum : reached.quorum = clampU32 (2 * (clampU32 validatorSet.size).toNat / 3 + 1) :=
    by rw [hrun.frame]; rfl
  have hcount := (evaluate_eq_finalized heval).2
  rw [hquorum, precommitCount_eq, UInt32.le_iff_toNat_le] at hcount
  simp only [toNat_clampU32] at hcount
  have hsize : validatorSet.size < 2 ^ 32 := hn ▸ n.toNat_lt
  have hcard : reached.precommitSigners.card = reached.countedPrecommits.length := by
    rw [precommitSigners, List.toFinset_card_of_nodup hrun.countsMembersOnce.precommits_nodup,
      List.length_map]
  rw [hcard, threshold]
  omega

/-- Signers are members, and the vote that counts for each was delivered. -/
theorem RunFrom.precommitSigners_spec {start reached : ConsensusRound} {votes : List Vote}
    (hrun : RunFrom start votes reached) {id : Hash} (hid : id ∈ reached.precommitSigners) :
    ∃ v ∈ votes, v.validatorId = id ∧ v.blockHash = start.blockHash ∧ v.height = start.height
      ∧ v.round = start.round ∧ v.voteType = .precommit
      ∧ signedByMember start.validatorSet start.chainId start.epoch v = true := by
  rw [precommitSigners, List.mem_toFinset, List.mem_map] at hid
  obtain ⟨v, hv, rfl⟩ := hid
  obtain ⟨hmem, hcounted⟩ := List.mem_filter.mp hv
  rw [Bool.and_eq_true] at hcounted
  have hblock : reached.blockHash = start.blockHash := by rw [hrun.frame]
  obtain ⟨key, hkey⟩ := getElem?_of_mem_values hmem
  obtain ⟨-, htype, hheight, hround, hdelivered, hsigned⟩ := hrun.precommits key v hkey
  exact ⟨v, hdelivered, rfl, (of_decide_eq_true hcounted.1).trans hblock, hheight, hround, htype,
    hsigned⟩

theorem RunFrom.precommitSigners_subset {start reached : ConsensusRound} {votes : List Vote}
    (hrun : RunFrom start votes reached) :
    reached.precommitSigners ⊆ start.validatorSet.keys.toFinset := by
  intro id hid
  obtain ⟨v, -, rfl, -, -, -, -, hsigned⟩ := hrun.precommitSigners_spec hid
  rw [List.mem_toFinset, Std.ExtTreeMap.mem_keys]
  exact mem_of_signedByMember hsigned

theorem mem_equivocators {validatorSet : ValidatorKeys} {chainId : Hash} {epoch height : UInt64}
    {round : UInt32} {votes : List Vote} {v v' : Vote} (hv : v ∈ votes) (hv' : v' ∈ votes)
    (hid : v.validatorId = v'.validatorId) (hheight : v.height = height)
    (hheight' : v'.height = height) (hround : v.round = round) (hround' : v'.round = round)
    (htype : v.voteType = v'.voteType) (hblock : v.blockHash ≠ v'.blockHash)
    (hsigned : signedByMember validatorSet chainId epoch v = true)
    (hsigned' : signedByMember validatorSet chainId epoch v' = true) :
    v.validatorId ∈ equivocators validatorSet chainId epoch height round votes := by
  rw [equivocators, Finset.mem_filter, List.mem_toFinset, Std.ExtTreeMap.mem_keys]
  refine ⟨mem_of_signedByMember hsigned, List.any_eq_true.mpr ⟨v, hv, List.any_eq_true.mpr
    ⟨v', hv', ?_⟩⟩⟩
  simp [hid, hheight, hheight', hround, hround', htype, hblock, hsigned, hsigned']

/-- With no more equivocators than tolerated, two nodes that finalize in a round
finalize the same block; and every count is over members, each once. -/
theorem same_round_agreement (n : UInt32) (validatorSet : ValidatorKeys)
    (hn : validatorSet.size = n.toNat) (chainId : Hash) (epoch height : UInt64) (round : UInt32) :
    (∀ (blockHash blockHash' : Hash) (maxRounds maxRounds' : UInt32)
        (calls calls' : List RoundCall),
      (equivocators validatorSet chainId epoch height round
        (delivered calls ++ delivered calls')).card ≤ (Safety.maxByzantine n).toNat →
      ∀ h p c h' p' c',
        ((new chainId epoch blockHash height round validatorSet maxRounds).run calls).evaluate.2
          = .finalized h p c →
        ((new chainId epoch blockHash' height round validatorSet maxRounds').run calls').evaluate.2
          = .finalized h' p' c' →
        h = h')
      ∧ ∀ (blockHash : Hash) (maxRounds : UInt32) (calls : List RoundCall),
        ((new chainId epoch blockHash height round validatorSet maxRounds).run
          calls).CountsMembersOnce := by
  refine ⟨?_, fun blockHash maxRounds calls => (run_recorded rfl rfl calls).countsMembersOnce⟩
  intro blockHash blockHash' maxRounds maxRounds' calls calls' hbyz h p c h' p' c' heval heval'
  have hrun : RunFrom (new chainId epoch blockHash height round validatorSet maxRounds) _ _ :=
    run_recorded rfl rfl calls
  have hrun' : RunFrom (new chainId epoch blockHash' height round validatorSet maxRounds') _ _ :=
    run_recorded rfl rfl calls'
  rw [(evaluate_eq_finalized heval).1, (evaluate_eq_finalized heval').1, hrun.frame, hrun'.frame]
  show blockHash = blockHash'
  by_contra hne
  -- whoever is behind both quorums has signed both blocks
  have hboth : ((new chainId epoch blockHash height round validatorSet maxRounds).run
        calls).precommitSigners
      ∩ ((new chainId epoch blockHash' height round validatorSet maxRounds').run
        calls').precommitSigners
      ⊆ equivocators validatorSet chainId epoch height round
        (delivered calls ++ delivered calls') := by
    intro id hid
    obtain ⟨hmem, hmem'⟩ := Finset.mem_inter.mp hid
    obtain ⟨v, hv, rfl, hblock, hheight, hround, htype, hsigned⟩ :=
      hrun.precommitSigners_spec hmem
    obtain ⟨v', hv', hid', hblock', hheight', hround', htype', hsigned'⟩ :=
      hrun'.precommitSigners_spec hmem'
    refine mem_equivocators (List.mem_append_left _ hv) (List.mem_append_right _ hv') hid'.symm
      hheight hheight' hround hround' (htype.trans htype'.symm) ?_ hsigned hsigned'
    rw [hblock, hblock']
    exact hne
  have hcard := Safety.SafetyCertificate.card_keys_toFinset validatorSet
  have hquorum := hrun.threshold_le_card hn heval
  have hquorum' := hrun'.threshold_le_card hn heval'
  rw [← hcard] at hquorum hquorum'
  have hoverlap := card_inter_of_threshold (U := validatorSet.keys.toFinset)
    hrun.precommitSigners_subset hrun'.precommitSigners_subset hquorum hquorum'
  have htolerated := Safety.SafetyCertificate.maxByzantine_lt validatorSet.size
  have hclamp : clampU32 validatorSet.size = n := by
    refine UInt32.toNat_inj.mp ?_
    rw [toNat_clampU32, hn]
    have := n.toNat_lt
    omega
  rw [hclamp] at htolerated
  rw [hcard] at hoverlap
  have := Finset.card_le_card hboth
  omega

end

/-- The vote of the validator with key `[b; 32]` on a block, at height and round
zero of chain zero. -/
def signedVote (b : UInt8) (blockHash : Hash) (voteType : VoteType) : Vote where
  validatorId := .ofByte b
  blockHash
  height := 0
  round := 0
  voteType
  signature := (Hash.ofByte b).toList ++ (polyCrypto.polyDigest
    (voteSignData zeroHash 0 blockHash 0 0 voteType)).toList

/-- Both votes of some validators on a block. -/
def callsOf (signers : List UInt8) (blockHash : Hash) : List RoundCall :=
  signers.flatMap fun b =>
    [.addPrevote (signedVote b blockHash .prevote), .addPrecommit (signedVote b blockHash .precommit)]

/-- Three of four validators finalize at one node, three at the other. -/
theorem same_round_agreement_four :
    (@run polyCrypto (new zeroHash 0 (.ofByte 9) 0 0 Safety.SafetyCertificate.fourKeys 5)
        (callsOf [1, 2, 3] (.ofByte 9))).evaluate.2 = .finalized (.ofByte 9) 3 3
      ∧ (@run polyCrypto (new zeroHash 0 (.ofByte 9) 0 0 Safety.SafetyCertificate.fourKeys 5)
        (callsOf [2, 3, 4] (.ofByte 9))).evaluate.2 = .finalized (.ofByte 9) 3 3
      ∧ Hash.ofByte 9 = Hash.ofByte 9 := by
  have hone : (@run polyCrypto (new zeroHash 0 (.ofByte 9) 0 0 Safety.SafetyCertificate.fourKeys 5)
      (callsOf [1, 2, 3] (.ofByte 9))).evaluate.2 = .finalized (.ofByte 9) 3 3 := by
    decide +kernel
  have htwo : (@run polyCrypto (new zeroHash 0 (.ofByte 9) 0 0 Safety.SafetyCertificate.fourKeys 5)
      (callsOf [2, 3, 4] (.ofByte 9))).evaluate.2 = .finalized (.ofByte 9) 3 3 := by
    decide +kernel
  exact ⟨hone, htwo, (@same_round_agreement polyCrypto 4 Safety.SafetyCertificate.fourKeys
    (by decide +kernel) zeroHash 0 0 0).1 _ _ 5 5 _ _ (by decide +kernel) _ _ _ _ _ _ hone htwo⟩

end ConsensusRound

end Sccgub
