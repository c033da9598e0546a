import Mathlib
import Sccgub.OrderedMap
import Sccgub.Runs
import Sccgub.Consensus.Agreement
import Sccgub.Node.Linkage
import Sccgub.Node.Moves

/-!
# Certificates of finalized rounds

A node that finalizes a round makes a certificate from the precommits in it.  What
the round admitted is what a peer verifies again: every precommit is filed under
its validator and carries a strict signature for this height and round.  The
number of precommits is another matter.  The round counted to the quorum that
governance asked for, and the peer asks for two thirds of the validators.

`Sound` is what a round of verified precommits keeps, and
`Sound.certificate_accepted_iff` what a peer makes of its certificate.
`SoundRounds` says it of all rounds that a node has open, has on disk or has
finalized; a move keeps it (`Move.soundRounds`), a restart does
(`SoundRounds.loaded`), and so every run has it (`run_soundRounds`).
-/

namespace Sccgub

open Bincode Safety Quorum Runs ConsensusRound

/-! ## Rounds whose precommits were verified -/

section

variable [Crypto]

namespace ConsensusRound

/-- The precommits of a round are recorded ones, among the votes that the node
knows. -/
structure Sound (round : ConsensusRound) (votes : List Vote) : Prop where
  count : round.validatorCount = clampU32 round.validatorSet.size
  precommits : round.Recorded .precommit votes round.precommits

variable {round : ConsensusRound} {votes votes' : List Vote}

theorem Sound.mono (h : round.Sound votes) (hsub : votes ⊆ votes') : round.Sound votes' :=
  ⟨h.count, h.precommits.mono hsub⟩

/-- Without precommits there is nothing to check. -/
theorem sound_empty (hcount : round.validatorCount = clampU32 round.validatorSet.size)
    (hempty : round.precommits = ∅) : round.Sound votes where
  count := hcount
  precommits id vote hvote := by
    rw [hempty] at hvote
    simp at hvote

theorem Sound.addPrecommit {next : ConsensusRound} {vote : Vote} (h : round.Sound votes)
    (hadd : round.addPrecommit vote = .ok next) (hmem : vote ∈ votes) : next.Sound votes := by
  obtain ⟨hverify, rfl⟩ := NetworkRuntime.addPrecommit_eq_ok hadd
  exact ⟨h.count, h.precommits.insert hverify hmem⟩

/-- A change of the rest of the round leaves what the votes are for. -/
theorem Sound.congr {next : ConsensusRound} (h : round.Sound votes)
    (hframe : next = { round with
      blockHash := next.blockHash, phase := next.phase, prevotes := next.prevotes
      precommits := next.precommits })
    (hvotes : ∀ (id : Hash) (vote : Vote), next.precommits[id]? = some vote →
      round.precommits[id]? = some vote) : next.Sound votes := by
  rw [hframe]
  exact ⟨h.count, fun id vote hvote => h.precommits id vote (hvotes id vote hvote)⟩

end ConsensusRound

end

/-! ## What a peer verifies -/

namespace Safety.SafetyCertificate

theorem size_ofList_of_nodup {l : List Hash} (h : l.Nodup) :
    (Std.ExtTreeSet.ofList l).size = l.length := by
  refine Std.ExtTreeSet.size_ofList (h.imp fun hne heq => hne ?_)
  exact Std.LawfulEqCmp.compare_eq_iff_eq.mp heq

variable [Crypto] {c : SafetyCertificate} {V : ValidatorKeys}

/-- A certificate over distinct members with valid precommits is accepted when there
are enough of them. -/
theorem verifyCryptographic_iff_of_valid
    (hquorum : c.quorum.toNat = threshold c.validatorCount.toNat)
    (hnodup : (c.precommitSignatures.map Prod.fst).Nodup)
    (hvalid : ∀ entry ∈ c.precommitSignatures, c.verifyEntry V entry = .ok ()) :
    c.verifyCryptographic V = .ok ()
      ↔ threshold c.validatorCount.toNat ≤ c.precommitSignatures.length := by
  constructor
  · intro h
    obtain ⟨hstructure, -⟩ := verifyCryptographic_eq_ok h
    obtain ⟨-, hlen, -⟩ := verifyStructure_eq_ok hstructure
    rwa [hquorum] at hlen
  · intro hlen
    have hroom : ¬ clampU32 c.precommitSignatures.length < c.quorum := by
      rw [UInt32.lt_iff_toNat_lt, toNat_clampU32, hquorum]
      have := c.quorum.toNat_lt
      omega
    have hsize := size_ofList_of_nodup hnodup
    rw [List.length_map] at hsize
    have hstructure : c.verifyStructure = .ok () := by
      unfold verifyStructure
      dsimp only
      rw [threshold] at hquorum
      rw [if_neg (not_not.mpr hquorum), if_neg hroom, if_neg (not_not.mpr hsize)]
    have hentries : ∀ l : List (Hash × Bytes), (∀ entry ∈ l, c.verifyEntry V entry = .ok ()) →
        c.verifyEntries V l = .ok () := by
      intro l
      induction l with
      | nil => exact fun _ => rfl
      | cons entry rest ih =>
          intro hl
          rw [List.forall_mem_cons] at hl
          rw [verifyEntries, hl.1]
          exact ih hl.2
    rw [verifyCryptographic, hstructure]
    exact hentries _ hvalid

end Safety.SafetyCertificate

/-- The certificate that goes with a round. -/
def certificateOf (chainId : Hash) (round : ConsensusRound) : SafetyCertificate :=
  SafetyCertificate.fromRound chainId round.epoch round.blockHash round.height round.round
    round.precommits round.validatorCount

namespace ConsensusRound

variable [Crypto] {round : ConsensusRound} {votes : List Vote}

/-- Every precommit in a round is one. -/
theorem Sound.countedPrecommits_eq (h : round.Sound votes) :
    round.countedPrecommits = round.precommits.values.filter fun v => v.blockHash = round.blockHash := by
  refine List.filter_congr fun v hv => ?_
  obtain ⟨id, hid⟩ := getElem?_of_mem_values hv
  simp [(h.precommits id v hid).2.1]

/-- The certificate of a round is accepted by whoever has its validators when the
round counts two thirds of them and one more. -/
theorem Sound.certificate_accepted_iff (h : round.Sound votes) :
    (certificateOf round.chainId round).verifyCryptographic round.validatorSet = .ok ()
      ↔ threshold round.validatorCount.toNat ≤ round.precommitCount.toNat := by
  have hcount := round.validatorCount.toNat_lt
  have hquorum : (certificateOf round.chainId round).quorum.toNat
      = threshold round.validatorCount.toNat := by
    show (clampU32 (threshold round.validatorCount.toNat)).toNat = _
    rw [toNat_clampU32]
    unfold threshold
    omega
  rw [SafetyCertificate.verifyCryptographic_iff_of_valid hquorum, precommitCount_eq, toNat_clampU32,
    h.countedPrecommits_eq]
  · show threshold round.validatorCount.toNat ≤ (List.map _ _).length ↔ _
    rw [List.length_map]
    unfold threshold
    omega
  · show ((List.map _ _).map _).Nodup
    rw [List.map_map]
    exact h.precommits.values_nodup.sublist (List.filter_sublist.map _)
  · rintro _ hentry
    obtain ⟨v, hv, rfl⟩ := List.mem_map.mp hentry
    obtain ⟨hmem, hblock⟩ := List.mem_filter.mp hv
    obtain ⟨id, hid⟩ := getElem?_of_mem_values hmem
    obtain ⟨-, htype, hheight, hround, -, hsigned⟩ := h.precommits id v hid
    unfold signedByMember at hsigned
    rw [htype, hheight, hround, of_decide_eq_true hblock] at hsigned
    split at hsigned
    · rename_i publicKey hkey
      have hlen := length_of_verifyStrict hsigned
      have hsig : verifyStrict publicKey (certificateOf round.chainId round).voteData v.signature
          = true := hsigned
      unfold SafetyCertificate.verifyEntry
      rw [hkey]
      dsimp only
      rw [if_neg (by omega), if_pos hsig]
    · cases hsigned

end ConsensusRound

/-! ## Rounds on disk -/

theorem getElem?_votesById {votes : List Vote} {id : Hash} {vote : Vote}
    (h : (votesById votes)[id]? = some vote) : vote ∈ votes ∧ vote.validatorId = id := by
  have haux : ∀ (l : List Vote) (map : VoteMap),
      (l.foldl (fun map vote => map.insert vote.validatorId vote) map)[id]? = some vote →
        (vote ∈ l ∧ vote.validatorId = id) ∨ map[id]? = some vote := by
    intro l
    induction l with
    | nil => exact fun map hmap => Or.inr hmap
    | cons v l ih =>
        intro map hmap
        rcases ih _ hmap with ⟨hmem, hid⟩ | hmap
        · exact Or.inl ⟨List.mem_cons_of_mem _ hmem, hid⟩
        · rw [Std.ExtTreeMap.getElem?_insert] at hmap
          split at hmap
          · rename_i hid
            obtain rfl := Option.some_inj.mp hmap
            exact Or.inl ⟨List.mem_cons_self, Std.LawfulEqCmp.compare_eq_iff_eq.mp hid⟩
          · exact Or.inr hmap
  rcases haux votes ∅ h with hvote | hempty
  · exact hvote
  · simp at hempty

/-- A set of validators comes back from disk. -/
theorem foldl_insert_toList (set : ValidatorKeys) :
    (set.toList.map fun p => (⟨p.1, p.2⟩ : PersistedConsensusRound.ValidatorRecord)).foldl
      (fun map record => map.insert record.validatorId record.publicKey) (∅ : ValidatorKeys)
      = set := by
  rw [List.foldl_map]
  ext k
  rw [OrderedMap.foldl_toList_proj set (fun map : ValidatorKeys => map[k]?) some ?_ ?_ ∅]
  · rcases set[k]? with _ | key
    · simp
    · rfl
  · intro map e he
    rw [Std.ExtTreeMap.getElem?_insert, if_neg fun h => he (Std.LawfulEqCmp.compare_eq_iff_eq.mp h)]
  · intro map key
    rw [Std.ExtTreeMap.getElem?_insert, if_pos Std.ReflCmp.compare_self]

/-- A round comes back from disk with the votes that are filed under their ids. -/
theorem persistedToRoundState_roundStateToPersisted {state : RoundState}
    (hcount : state.round.validatorCount = clampU32 state.round.validatorSet.size) :
    (persistedToRoundState (roundStateToPersisted state)).round = { state.round with
      prevotes := votesById state.round.prevotes.values
      precommits := votesById state.round.precommits.values } := by
  unfold persistedToRoundState roundStateToPersisted
  dsimp only
  rw [foldl_insert_toList, ← hcount]

theorem ConsensusRound.Sound.persisted [Crypto] {state : RoundState} {votes : List Vote}
    (h : state.round.Sound votes) :
    (persistedToRoundState (roundStateToPersisted state)).round.Sound votes := by
  rw [persistedToRoundState_roundStateToPersisted h.count]
  refine h.congr rfl fun id vote hvote => ?_
  obtain ⟨hmem, rfl⟩ := getElem?_votesById hvote
  obtain ⟨id, hid⟩ := getElem?_of_mem_values hmem
  rw [(h.precommits id vote hid).1]
  exact hid

/-! ## Nodes -/

namespace NetworkRuntime

variable [Crypto] {lax : Prop}

/-- The votes of an epoch that the node heard or signed. -/
def knownVotes (self : NetworkRuntime) (epoch : UInt64) : List Vote :=
  self.journal.filterMap fun
    | .hears e vote | .signs e vote => if e = epoch then some vote else none
    | _ => none

omit [Crypto] in
theorem mem_knownVotes_iff {s : NetworkRuntime} {epoch : UInt64} {vote : Vote} :
    vote ∈ s.knownVotes epoch ↔ s.Known epoch vote := by
  unfold knownVotes
  rw [List.mem_filterMap]
  constructor
  · rintro ⟨act, hact, hvote⟩
    cases act with
    | hears e v =>
        simp only [Option.ite_none_right_eq_some, Option.some_inj] at hvote
        obtain ⟨rfl, rfl⟩ := hvote
        exact Or.inl hact
    | signs e v =>
        simp only [Option.ite_none_right_eq_some, Option.some_inj] at hvote
        obtain ⟨rfl, rfl⟩ := hvote
        exact Or.inr hact
    | _ => cases hvote
  · rintro (hheard | hsigned)
    · exact ⟨_, hheard, by simp⟩
    · exact ⟨_, hsigned, by simp⟩

/-- A round of a node: of its chain, of the height it is filed under and of the
configured validators.  Unless the node is lax its quorum is two thirds and one
more. -/
structure RoundOf (lax : Prop) (s : NetworkRuntime) (height : UInt64) (round : ConsensusRound) :
    Prop where
  height : round.height = height
  chainId : round.chainId = s.chainId
  own : s.config.validators ≠ [] → round.validatorSet = s.validatorSet
  sound : round.Sound (s.knownVotes round.epoch)
  quorum : threshold round.validatorSet.size ≤ round.quorum.toNat ∨ lax

/-- Every round that the node has open, has on disk or has finalized. -/
structure SoundRounds (lax : Prop) (s : NetworkRuntime) : Prop where
  configured : s.config.validators ≠ [] → validatorSetMap s.config = .ok s.validatorSet
  rounds : ∀ (height : UInt64) (state : RoundState), s.consensusRounds[height]? = some state →
    s.RoundOf lax height state.round
  stored : ∀ store, s.store = some store → ∀ (height : UInt64) (persisted : PersistedRoundState),
    store.consensusRounds[height]? = some persisted →
      s.RoundOf lax height (persistedToRoundState persisted).round
  finalized : ∀ round certificate, Act.finalizes round certificate ∈ s.journal →
    (∃ height, s.RoundOf lax height round) ∧ round.Finalizes
      ∧ certificate = certificateOf s.chainId round

/-- The journal grows, on the same chain and with the configured validators. -/
structure Continues (s t : NetworkRuntime) : Prop where
  journal : ∃ acts, t.journal = acts ++ s.journal
  chainId : t.chainId = s.chainId
  config : t.config = s.config
  validatorSet : s.config.validators ≠ [] → t.validatorSet = s.validatorSet

omit [Crypto] in
theorem Continues.refl (s : NetworkRuntime) : Continues s s := ⟨⟨[], rfl⟩, rfl, rfl, fun _ => rfl⟩

omit [Crypto] in
theorem Continues.trans {s t u : NetworkRuntime} (h : Continues s t) (h' : Continues t u) :
    Continues s u := by
  obtain ⟨acts, hacts⟩ := h.journal
  obtain ⟨acts', hacts'⟩ := h'.journal
  refine ⟨⟨acts' ++ acts, by rw [hacts', hacts, List.append_assoc]⟩, h'.chainId.trans h.chainId,
    h'.config.trans h.config, fun hne => ?_⟩
  exact (h'.validatorSet (h.config ▸ hne)).trans (h.validatorSet hne)

theorem Move.continues {leeway : Leeway} {s t : NetworkRuntime} (h : Move leeway s t) :
    Continues s t := by
  cases h with
  | sync =>
      unfold syncValidatorSetFromChainIfUnconfigured
      split
      · exact .refl s
      · rename_i hconfig
        refine ⟨⟨[], rfl⟩, rfl, rfl, fun hne => absurd ?_ hne⟩
        simpa using hconfig
  | send | hear | verify | sign | finalize | append | punish =>
      exact ⟨⟨[_], rfl⟩, rfl, rfl, fun _ => rfl⟩
  | refresh registry hconfig hactive hchanged =>
      exact ⟨⟨[], rfl⟩, rfl, rfl, fun hne => absurd hconfig hne⟩
  | _ => exact ⟨⟨[], rfl⟩, rfl, rfl, fun _ => rfl⟩

omit [Crypto] in
theorem Continues.knownVotes {s t : NetworkRuntime} (h : Continues s t) (epoch : UInt64) :
    s.knownVotes epoch ⊆ t.knownVotes epoch := by
  obtain ⟨acts, hacts⟩ := h.journal
  unfold NetworkRuntime.knownVotes
  rw [hacts, List.filterMap_append]
  exact List.subset_append_right _ _

theorem RoundOf.continues {s t : NetworkRuntime} {height : UInt64} {round : ConsensusRound}
    (h : s.RoundOf lax height round) (hcont : Continues s t) : t.RoundOf lax height round :=
  ⟨h.height, h.chainId.trans hcont.chainId.symm, fun hne => (h.own (hcont.config ▸ hne)).trans
    (hcont.validatorSet (hcont.config ▸ hne)).symm, h.sound.mono (hcont.knownVotes _), h.quorum⟩

omit [Crypto] in
theorem getElem?_of_dropRound {s : NetworkRuntime} {height k : UInt64} {state : RoundState}
    (h : (s.dropRound height).consensusRounds[k]? = some state) :
    s.consensusRounds[k]? = some state := by
  rw [dropRound, Std.ExtTreeMap.getElem?_erase] at h
  split at h
  · cases h
  · exact h

/-- A change of rounds and store that keeps them sound. -/
theorem SoundRounds.of_changes {s t : NetworkRuntime} (h : s.SoundRounds lax) (hcont : Continues s t)
    (hrounds : ∀ (height : UInt64) (state : RoundState), t.consensusRounds[height]? = some state →
      s.consensusRounds[height]? = some state ∨ t.RoundOf lax height state.round)
    (hstored : ∀ store', t.store = some store' → ∀ (height : UInt64)
      (persisted : PersistedRoundState), store'.consensusRounds[height]? = some persisted →
        (∃ store, s.store = some store ∧ store.consensusRounds[height]? = some persisted)
          ∨ t.RoundOf lax height (persistedToRoundState persisted).round)
    (hfinal : ∀ round certificate, Act.finalizes round certificate ∈ t.journal →
      Act.finalizes round certificate ∈ s.journal ∨ ((∃ height, t.RoundOf lax height round)
        ∧ round.Finalizes ∧ certificate = certificateOf t.chainId round)) : t.SoundRounds lax := by
  refine ⟨fun hne => ?_, fun height state hstate => ?_,
    fun store' hstore height persisted hpersisted => ?_, fun round certificate hact => ?_⟩
  · rw [hcont.config] at hne ⊢
    rw [hcont.validatorSet hne]
    exact h.configured hne
  · rcases hrounds height state hstate with hold | hnew
    · exact (h.rounds height state hold).continues hcont
    · exact hnew
  · rcases hstored store' hstore height persisted hpersisted with ⟨store, hs, hold⟩ | hnew
    · exact (h.stored store hs height persisted hold).continues hcont
    · exact hnew
  · rcases hfinal round certificate hact with hold | hnew
    · obtain ⟨⟨height, hof⟩, hquorums, hcert⟩ := h.finalized round certificate hold
      exact ⟨⟨height, hof.continues hcont⟩, hquorums, by rw [hcont.chainId, hcert]⟩
    · exact hnew

omit [Crypto] in
theorem continues_setRound (s : NetworkRuntime) (height : UInt64) (state : RoundState) :
    Continues s (s.setRound height state) := ⟨⟨[], rfl⟩, rfl, rfl, fun _ => rfl⟩

theorem SoundRounds.setRound {s : NetworkRuntime} {height : UInt64} {state : RoundState}
    (h : s.SoundRounds lax) (hround : s.RoundOf lax height state.round) :
    (s.setRound height state).SoundRounds lax := by
  have hcont := s.continues_setRound height state
  refine h.of_changes hcont (fun k state' hstate' => ?_)
    (fun store hstore k persisted hpersisted => Or.inl ⟨store, hstore, hpersisted⟩)
    fun round certificate hact => Or.inl hact
  rw [getElem?_setRound] at hstate'
  split at hstate'
  · rename_i hk
    subst hk
    obtain rfl := Option.some_inj.mp hstate'
    exact Or.inr (hround.continues hcont)
  · exact Or.inl hstate'

/-- Nothing but the journal changed, and nothing was finalized. -/
theorem SoundRounds.same {s t : NetworkRuntime} (h : s.SoundRounds lax) (hcont : Continues s t)
    (hrounds : t.consensusRounds = s.consensusRounds) (hstore : t.store = s.store)
    (hfinal : ∀ round certificate, Act.finalizes round certificate ∈ t.journal →
      Act.finalizes round certificate ∈ s.journal) : t.SoundRounds lax :=
  h.of_changes hcont (fun _ _ hstate => Or.inl (hrounds ▸ hstate))
    (fun store hs _ _ hpersisted => Or.inl ⟨store, hstore ▸ hs, hpersisted⟩)
    fun round certificate hact => Or.inl (hfinal round certificate hact)

omit [Crypto] in
/-- The rounds after a timeout are the ones before it, in another phase, or empty
ones. -/
theorem timedOut_cases {s : NetworkRuntime} {now : UInt64} {state next : RoundState}
    (h : s.timedOut now state = some next) :
    state.round.epoch = s.currentEpoch
      ∧ ((∃ phase, next = { state with round := { state.round with phase } })
        ∨ (state.round.round < s.config.maxRounds
          ∧ advanceRoundIfTimedOut state s.config now = some next
          ∧ next.round = { state.round with
            round := UInt32.ofNat (min (state.round.round.toNat + 1) (2 ^ 32 - 1))
            phase := .propose
            prevotes := ∅
            precommits := ∅
            blockHash := zeroHash })) := by
  unfold timedOut at h
  split at h
  · cases h
  · rename_i hepoch
    refine ⟨not_not.mp hepoch, ?_⟩
    obtain rfl := Option.some_inj.mp h
    rcases hadv : advanceRoundIfTimedOut state s.config now with _ | advanced
    · exact Or.inl ⟨state.round.phase, rfl⟩
    · have hadv' := hadv
      unfold advanceRoundIfTimedOut at hadv'
      split at hadv'
      · cases hadv'
      · split at hadv'
        · obtain rfl := Option.some_inj.mp hadv'
          exact Or.inl ⟨_, rfl⟩
        · rename_i hlast
          refine Or.inr ⟨UInt32.not_le.mp hlast, rfl, ?_⟩
          obtain rfl := Option.some_inj.mp hadv'
          rfl

/-- A round that took prevotes, that came to be about another block or to another phase. -/
theorem RoundOf.changed {s : NetworkRuntime} {height : UInt64} {round next : ConsensusRound}
    (h : s.RoundOf lax height round)
    (hnext : next = { round with
      blockHash := next.blockHash, phase := next.phase, prevotes := next.prevotes }) :
    s.RoundOf lax height next := by
  rw [hnext]
  exact ⟨h.height, h.chainId, h.own, h.sound.congr rfl fun _ _ hvote => hvote, h.quorum⟩

/-- A round that has its quorums is finalized. -/
theorem SoundRounds.finalizes {s : NetworkRuntime} {height : UInt64} {state : RoundState}
    (h : s.SoundRounds lax) (hstate : s.consensusRounds[height]? = some state)
    (hquorums : state.round.Finalizes) :
    (record (.finalizes state.round (SafetyCertificate.fromRound s.chainId state.round.epoch
      state.round.blockHash height state.round.round state.round.precommits
      state.round.validatorCount)) s).SoundRounds lax := by
  have hof := h.rounds height state hstate
  have hcont : Continues s (record (.finalizes state.round (SafetyCertificate.fromRound s.chainId
      state.round.epoch state.round.blockHash height state.round.round state.round.precommits
      state.round.validatorCount)) s) := ⟨⟨[_], rfl⟩, rfl, rfl, fun _ => rfl⟩
  refine h.of_changes hcont (fun _ _ hstate' => Or.inl hstate')
    (fun store hstore _ _ hpersisted => Or.inl ⟨store, hstore, hpersisted⟩) ?_
  intro round certificate hact
  rcases List.mem_cons.mp hact with hnew | hold
  · cases hnew
    refine Or.inr ⟨⟨height, hof.continues hcont⟩, hquorums, ?_⟩
    rw [certificateOf, hof.height]
    rfl
  · exact Or.inl hold

/-- The open rounds are put on disk. -/
theorem SoundRounds.saved {s : NetworkRuntime} (h : s.SoundRounds lax) :
    s.saveConsensusState.SoundRounds lax := by
  refine h.of_changes ⟨⟨[], rfl⟩, rfl, rfl, fun _ => rfl⟩ (fun _ _ hstate' => Or.inl hstate') ?_
    fun _ _ hact => Or.inl hact
  intro store' hstore' height persisted hpersisted
  obtain ⟨store, hstore, rfl⟩ := Option.map_eq_some_iff.mp hstore'
  rw [Std.ExtTreeMap.getElem?_map, Option.map_eq_some_iff] at hpersisted
  obtain ⟨state, hstate, rfl⟩ := hpersisted
  have hof := h.rounds height state hstate
  have hround := persistedToRoundState_roundStateToPersisted hof.sound.count
  refine Or.inr ⟨hof.height, hof.chainId, ?_, hof.sound.persisted, ?_⟩
  · rw [hround]
    exact hof.own
  · rw [hround]
    exact hof.quorum

/-- Rounds are given up, in memory or on disk. -/
theorem SoundRounds.fewer {s t : NetworkRuntime} (h : s.SoundRounds lax) (hcont : Continues s t)
    (hjournal : t.journal = s.journal)
    (hrounds : ∀ (height : UInt64) (state : RoundState), t.consensusRounds[height]? = some state →
      s.consensusRounds[height]? = some state)
    (hstored : ∀ store', t.store = some store' → ∃ store, s.store = some store
      ∧ ∀ (height : UInt64) (persisted : PersistedRoundState),
        store'.consensusRounds[height]? = some persisted →
          store.consensusRounds[height]? = some persisted) : t.SoundRounds lax := by
  refine h.of_changes hcont (fun height state hstate => Or.inl (hrounds height state hstate)) ?_
    fun _ _ hact => Or.inl (hjournal ▸ hact)
  intro store' hstore' height persisted hpersisted
  obtain ⟨store, hstore, hold⟩ := hstored store' hstore'
  exact Or.inl ⟨store, hstore, hold height persisted hpersisted⟩

/-- Rounds time out. -/
theorem SoundRounds.timedOut {s : NetworkRuntime} (h : s.SoundRounds lax) (now : UInt64) :
    (s.timeoutRounds now).SoundRounds lax := by
  have hcont : Continues s (s.timeoutRounds now) := ⟨⟨[], rfl⟩, rfl, rfl, fun _ => rfl⟩
  refine h.of_changes hcont (fun height next hnext => Or.inr ?_)
    (fun store hstore _ _ hpersisted => Or.inl ⟨store, hstore, hpersisted⟩)
    fun _ _ hact => Or.inl hact
  rw [timeoutRounds, Std.ExtTreeMap.getElem?_filterMap', Option.bind_eq_some_iff] at hnext
  obtain ⟨state, hstate, hnext⟩ := hnext
  have hof := (h.rounds height state hstate).continues hcont
  rcases (timedOut_cases hnext).2 with ⟨phase, rfl⟩ | ⟨-, -, hround⟩
  · exact hof.changed rfl
  · rw [hround]
    exact ⟨hof.height, hof.chainId, hof.own, sound_empty hof.sound.count rfl, hof.quorum⟩

/-- What a node does keeps its rounds sound. -/
theorem Move.soundRounds {leeway : Leeway} {s t : NetworkRuntime} (h : Move leeway s t)
    (hlax : leeway.lowQuorum → lax) (hs : s.SoundRounds lax) : t.SoundRounds lax := by
  have hcont := h.continues
  cases h with
  | sync =>
      obtain ⟨validatorSet, hframe⟩ := s.sync_frame
      rw [hframe] at hcont ⊢
      exact hs.same hcont rfl rfl fun _ _ hact => hact
  | send | hear | verify | sign | append | punish =>
      refine hs.same hcont rfl rfl fun _ _ hact => ?_
      simpa [record, broadcast] using hact
  | meet | settle | hold | forget | remember =>
      exact hs.same hcont rfl rfl fun _ _ hact => hact
  | start hash height round now hnone hsynced hnext hquorum =>
      exact hs.setRound ⟨rfl, rfl, fun _ => rfl, sound_empty rfl rfl, hquorum.imp_right hlax⟩
  | track height state hash hstate hhash hnext =>
      exact hs.setRound ((hs.rounds height state hstate).changed rfl)
  | addPrevote height state vote round hstate hadd hknown =>
      obtain ⟨-, rfl⟩ := addPrevote_eq_ok hadd
      exact hs.setRound ((hs.rounds height state hstate).changed rfl)
  | addPrecommit height state vote round hstate hadd hknown =>
      have hof := hs.rounds height state hstate
      have hsound := hof.sound.addPrecommit hadd (mem_knownVotes_iff.mpr hknown)
      obtain ⟨-, rfl⟩ := addPrecommit_eq_ok hadd
      exact hs.setRound ⟨hof.height, hof.chainId, hof.own, hsound, hof.quorum⟩
  | setPhase height state phase hstate =>
      exact hs.setRound ((hs.rounds height state hstate).changed rfl)
  | finalize height state hstate hquorums => exact hs.finalizes hstate hquorums
  | decided | lose | abort =>
      exact hs.fewer hcont rfl (fun _ _ hstate => getElem?_of_dropRound hstate)
        fun store hstore => ⟨store, hstore, fun _ _ hpersisted => hpersisted⟩
  | saveRounds => exact hs.saved
  | savePending | clearPending =>
      refine hs.fewer hcont rfl (fun _ _ hstate => hstate) fun store' hstore' => ?_
      obtain ⟨store, hstore, rfl⟩ := Option.map_eq_some_iff.mp hstore'
      exact ⟨store, hstore, fun _ _ hpersisted => hpersisted⟩
  | clearRounds =>
      refine hs.fewer hcont rfl (fun _ _ hstate => hstate) fun store' hstore' => ?_
      obtain ⟨store, hstore, rfl⟩ := Option.map_eq_some_iff.mp hstore'
      refine ⟨store, hstore, fun height persisted hpersisted => ?_⟩
      simp at hpersisted
  | timeout now => exact hs.timedOut now
  | refresh registry hconfig hactive hchanged =>
      refine hs.fewer hcont rfl (fun height state hstate => ?_)
        fun store hstore => ⟨store, hstore, fun _ _ hpersisted => hpersisted⟩
      simp at hstate

/-! ## Restarts -/

omit [Crypto] in
theorem continues_loaded {s fresh : NetworkRuntime} {chain : Chain}
    (hset : s.config.validators ≠ [] → validatorSetMap s.config = .ok s.validatorSet)
    (hnew : new (s.reloaded chain) s.config = .ok fresh) : Continues s (s.loaded fresh) := by
  have hfresh := fresh_of_new hnew
  obtain ⟨rounds, pending, hframe⟩ := s.loaded_frame fresh
  rw [hframe]
  refine ⟨⟨[], rfl⟩, hfresh.chainId, hfresh.config, fun hne => ?_⟩
  have hmap := hfresh.validatorSet (hfresh.config ▸ hne)
  rw [hfresh.config] at hmap
  exact Except.ok.inj (hmap.symm.trans (hset hne))

omit [Crypto] in
/-- A round comes back as it is on disk, or without votes. -/
theorem restoredRound_cases (pending : Std.ExtTreeMap Hash Block) (persisted : PersistedRoundState) :
    restoredRound pending persisted = persistedToRoundState persisted
      ∨ (restoredRound pending persisted).round = { (persistedToRoundState persisted).round with
        blockHash := zeroHash, prevotes := ∅, precommits := ∅, phase := .propose } := by
  unfold restoredRound
  dsimp only
  split
  · exact Or.inl rfl
  · exact Or.inr rfl

theorem SoundRounds.loaded {s fresh : NetworkRuntime} {chain : Chain} (h : s.SoundRounds lax)
    (hnew : new (s.reloaded chain) s.config = .ok fresh) : (s.loaded fresh).SoundRounds lax := by
  have hcont := continues_loaded h.configured hnew
  obtain ⟨rounds, pending, hframe⟩ := s.loaded_frame fresh
  refine h.of_changes hcont (fun height state hstate => Or.inr ?_) ?_ ?_
  · obtain ⟨-, store, persisted, hstore, hpersisted, rfl⟩ :=
      getElem?_rounds_loaded (fresh_of_new hnew).rounds hstate
    have hof := (h.stored store hstore height persisted hpersisted).continues hcont
    rcases restoredRound_cases (orKeep ∅ store.loadPendingBlocks) persisted with hsame | hcleared
    · rw [hsame]
      exact hof
    · rw [hcleared]
      exact ⟨hof.height, hof.chainId, hof.own, sound_empty hof.sound.count rfl, hof.quorum⟩
  · intro store hstore height persisted hpersisted
    rw [hframe] at hstore
    exact Or.inl ⟨store, hstore, hpersisted⟩
  · intro round certificate hact
    rw [hframe] at hact
    exact Or.inl hact

end NetworkRuntime

/-! ## Runs -/

namespace Node

open NetworkRuntime

variable [Crypto] {lax : Prop}

theorem Founded.soundRounds {node : Node} (h : node.Founded) : node.runtime.SoundRounds lax := by
  obtain ⟨-, chain, config, fresh, hnew, hruntime⟩ := h
  have hfresh := fresh_of_new hnew
  have hempty : (node.runtime.config.validators ≠ [] →
        validatorSetMap node.runtime.config = .ok node.runtime.validatorSet)
      ∧ node.runtime.consensusRounds = ∅ ∧ node.runtime.journal = []
      ∧ ∀ store, node.runtime.store = some store → store.consensusRounds = ∅ := by
    rcases hruntime with hplain | hstored
    · rw [hplain, hfresh.store]
      exact ⟨hfresh.validatorSet, hfresh.rounds, hfresh.journal, fun _ hnone => nomatch hnone⟩
    · rw [hstored]
      exact ⟨hfresh.validatorSet, hfresh.rounds, hfresh.journal,
        fun _ hsome => Option.some_inj.mp hsome ▸ rfl⟩
  obtain ⟨hset, hrounds, hjournal, hstore⟩ := hempty
  refine ⟨hset, fun height state hstate => ?_, fun store hs height persisted hpersisted => ?_,
    fun round certificate hact => ?_⟩
  · rw [hrounds] at hstate
    simp at hstate
  · rw [hstore store hs] at hpersisted
    simp at hpersisted
  · rw [hjournal] at hact
    cases hact

/-- A message that may open a round finds the quorum that governance asks for at two
thirds of the validators and one more. -/
def HighQuorumAt (self : Node) (input : Input) : Prop :=
  input.event.subject.isSome = true →
    self.runtime.syncValidatorSetFromChainIfUnconfigured.HighQuorum

instance (node : Node) (input : Input) : Decidable (node.HighQuorumAt input) :=
  inferInstanceAs (Decidable (_ → (_ : Nat) ≤ _))

theorem step_soundRounds {node : Node} {input : Input} (hlax : node.HighQuorumAt input ∨ lax)
    (h : node.runtime.Keyed ∧ node.runtime.SoundRounds lax) :
    (node.step input).runtime.Keyed ∧ (node.step input).runtime.SoundRounds lax := by
  refine ⟨step_keyed h.1, step_keeps h.1 h.2 ?_ fun _ _ _ hnew => h.2.loaded hnew⟩
  intro s t hmove hs
  refine hmove.soundRounds (fun hlow => ?_) hs
  rcases hlax with hhigh | hlax
  · exact absurd (hhigh hlow.1) hlow.2
  · exact hlax

theorem run_soundRounds {node : Node} (hnode : node.Founded) {inputs : List Input}
    (hlax : Along step HighQuorumAt node inputs ∨ lax) :
    (inputs.foldl step node).runtime.SoundRounds lax := by
  have hstart : node.runtime.Keyed ∧ node.runtime.SoundRounds lax :=
    ⟨hnode.keyed, hnode.soundRounds⟩
  have hrun : Throughout step (fun node => node.runtime.Keyed ∧ node.runtime.SoundRounds lax)
      node inputs := by
    rcases hlax with halong | hlax
    · refine throughout_of_along (fun node input h hhigh => ?_) hstart halong
      exact step_soundRounds (Or.inl hhigh) h
    · refine throughout_of_step (fun node input h => ?_) hstart
      exact step_soundRounds (Or.inr hlax) h
  exact hrun.last.2

/-- The certificate of a finalized round is accepted by the validators of the round
exactly when the round counts two thirds of them and one more.  That is so in every
run in which governance never asks for less. -/
theorem issued_certificate_accepted_iff (node : Node) (hnode : node.Founded)
    (inputs : List Input) (round : ConsensusRound) (certificate : SafetyCertificate)
    (hact : Act.finalizes round certificate ∈ (inputs.foldl step node).runtime.journal) :
    (certificate.verifyCryptographic round.validatorSet = .ok ()
        ↔ threshold round.validatorCount.toNat ≤ round.precommitCount.toNat)
      ∧ (Along step HighQuorumAt node inputs →
        certificate.verifyCryptographic round.validatorSet = .ok ()) := by
  have hany : (inputs.foldl step node).runtime.SoundRounds True :=
    run_soundRounds hnode (Or.inr trivial)
  obtain ⟨⟨height, hof⟩, -, hcert⟩ := hany.finalized round certificate hact
  rw [← hof.chainId] at hcert
  have hiff := hof.sound.certificate_accepted_iff
  rw [← hcert] at hiff
  refine ⟨hiff, fun halong => hiff.mpr ?_⟩
  have hhigh : (inputs.foldl step node).runtime.SoundRounds False :=
    run_soundRounds hnode (Or.inl halong)
  obtain ⟨⟨height, hof⟩, hquorums, -⟩ := hhigh.finalized round certificate hact
  have hcount : round.quorum ≤ round.precommitCount := of_decide_eq_true hquorums.2
  have hquorum : threshold round.validatorSet.size ≤ round.quorum.toNat :=
    hof.quorum.resolve_right id
  calc threshold round.validatorCount.toNat
      ≤ threshold round.validatorSet.size := by
        refine threshold_mono ?_
        rw [hof.sound.count, toNat_clampU32]
        exact min_le_left _ _
    _ ≤ round.quorum.toNat := hquorum
    _ ≤ round.precommitCount.toNat := UInt32.le_iff_toNat_le.mp hcount

end Node

/-! ## Four validators -/

section

open NetworkRuntime

/-- Validators `[1; 32]` to `[4; 32]`, without the gate on peers. -/
def fourConfig (maxRounds : UInt32) : NetworkConfig where
  enable := false
  validators := [1, 2, 3, 4].map fun b => hexEncode (Hash.ofByte b).toList
  roundTimeoutMs := 4000
  maxRounds
  minConnectedPeers := 3
  maxSameSubnetPct := 50

/-- The founding chain as validator `[b; 32]` has it. -/
def fourChain (b : UInt8) (quorumThreshold : UInt32) : Chain :=
  { @Chain.init polyCrypto canonicalAgentBlockVersion (.bftCertified quorumThreshold)
      (polyKey (Hash.ofByte 1)) with
    validatorKey := polyKey (Hash.ofByte b) }

/-- The runtime of validator `[b; 32]`, just made. -/
def fourRuntime (b : UInt8) (quorumThreshold maxRounds : UInt32) : NetworkRuntime :=
  match new (fourChain b quorumThreshold) (fourConfig maxRounds) with
  | .ok runtime => runtime
  | .error _ =>
      { chain := fourChain b quorumThreshold
        config := fourConfig maxRounds
        validatorSet := ∅
        validatorKey := polyKey (Hash.ofByte b)
        validatorId := Hash.ofByte b
        chainId := zeroHash }

def fourNode (b : UInt8) (quorumThreshold maxRounds : UInt32) : Node :=
  ⟨(fourRuntime b quorumThreshold maxRounds).withPersistence {}, true⟩

theorem founded_fourNode {b : UInt8} {quorumThreshold maxRounds : UInt32}
    (h : (new (fourChain b quorumThreshold) (fourConfig maxRounds)).isOk = true) :
    (fourNode b quorumThreshold maxRounds).Founded := by
  obtain ⟨fresh, hfresh⟩ := Fallible.exists_ok_of_isOk h
  refine ⟨rfl, _, _, fresh, hfresh, Or.inr ?_⟩
  have hruntime : fourRuntime b quorumThreshold maxRounds = fresh := by
    unfold fourRuntime
    rw [hfresh]
  rw [← hruntime]
  rfl

/-- What validator `[b; 32]` proposes in a round on the founding chain, if it has its
turn. -/
def fourProposal (b : UInt8) (quorumThreshold round : UInt32) (wallHint : UInt64) :
    Option BlockProposalMessage :=
  match (@Chain.buildCandidateBlock polyCrypto (fourRuntime b quorumThreshold 0).chain wallHint).1 with
  | .error _ => none
  | .ok block =>
      let msg : BlockProposalMessage :=
        { proposerId := Hash.ofByte b, block, round, signature := [] }
      some { msg with signature := (polyKey (Hash.ofByte b)).sign (unsignedProposal msg) }

/-- The vote of validator `[b; 32]` on a proposed block. -/
def fourVote (b : UInt8) (quorumThreshold : UInt32) (msg : BlockProposalMessage)
    (voteType : VoteType) : Vote :=
  (fourRuntime b quorumThreshold 0).signVoteWithEpoch 0 msg.block.header.blockId 1 msg.round voteType

/-- The proposal of validator `[2; 32]`, and the votes of some others on it. -/
def fourInputs (quorumThreshold : UInt32) (voters : List UInt8) : List Input :=
  (fourProposal 2 quorumThreshold 0 0).toList.flatMap fun msg =>
    { event := .blockProposal msg 0 } :: [VoteType.prevote, .precommit].flatMap fun voteType =>
      voters.map fun b => { event := .consensusVote (fourVote b quorumThreshold msg voteType) 0 }

/-- The journal has a finalized round whose certificate its validators accept, or do
not. -/
def issues (accepted : Bool) (journal : List Act) : Bool :=
  journal.any fun
    | .finalizes finalized certificate =>
        (@SafetyCertificate.verifyCryptographic polyCrypto certificate finalized.validatorSet).isOk
          == accepted
    | _ => false

theorem exists_of_issues {accepted : Bool} {journal : List Act}
    (h : issues accepted journal = true) :
    ∃ round certificate, Act.finalizes round certificate ∈ journal
      ∧ (@SafetyCertificate.verifyCryptographic polyCrypto certificate round.validatorSet).isOk
        = accepted := by
  obtain ⟨act, hmem, hact⟩ := List.any_eq_true.mp h
  cases act with
  | finalizes finalized certificate => exact ⟨finalized, certificate, hmem, beq_iff_eq.mp hact⟩
  | _ => cases hact

theorem run_thresholdOne :
    (new (fourChain 1 1) (fourConfig 3)).isOk = true
      ∧ issues false
          ((fourInputs 1 []).foldl (@Node.step polyCrypto) (fourNode 1 1 3)).runtime.journal
        = true := by
  decide +kernel

theorem run_thresholdThree :
    (new (fourChain 1 3) (fourConfig 3)).isOk = true
      ∧ issues true
          ((fourInputs 3 [2, 3]).foldl (@Node.step polyCrypto) (fourNode 1 3 3)).runtime.journal
        = true
      ∧ decide (Along (@Node.step polyCrypto) Node.HighQuorumAt (fourNode 1 3 3)
          (fourInputs 3 [2, 3])) = true := by
  decide +kernel

/-- With a threshold of one the proposal alone finalizes a round, whose certificate
has one signature where a peer wants three. -/
theorem issued_certificate_refused :
    (fourNode 1 1 3).Founded ∧ ¬ ∀ round certificate,
      Act.finalizes round certificate
        ∈ ((fourInputs 1 []).foldl (@Node.step polyCrypto) (fourNode 1 1 3)).runtime.journal →
      @SafetyCertificate.verifyCryptographic polyCrypto certificate round.validatorSet
        = .ok () := by
  obtain ⟨hnew, hissues⟩ := run_thresholdOne
  refine ⟨founded_fourNode hnew, ?_⟩
  intro hall
  obtain ⟨round, certificate, hmem, hrefused⟩ := exists_of_issues hissues
  rw [hall round certificate hmem] at hrefused
  cases hrefused

/-- With a threshold of three of the four the votes of two others are needed, and the
certificate is accepted. -/
theorem issued_certificate_accepted_four :
    ∃ round certificate, Act.finalizes round certificate
        ∈ ((fourInputs 3 [2, 3]).foldl (@Node.step polyCrypto) (fourNode 1 3 3)).runtime.journal
      ∧ @SafetyCertificate.verifyCryptographic polyCrypto certificate round.validatorSet = .ok ()
      ∧ threshold round.validatorCount.toNat ≤ round.precommitCount.toNat := by
  obtain ⟨hnew, hissues, hhigh⟩ := run_thresholdThree
  obtain ⟨round, certificate, hmem, -⟩ := exists_of_issues hissues
  obtain ⟨hiff, haccepted⟩ := @Node.issued_certificate_accepted_iff polyCrypto (fourNode 1 3 3)
    (founded_fourNode hnew) (fourInputs 3 [2, 3]) round certificate hmem
  have hok := haccepted <| by
    refine @of_decide_eq_true _ _ ?_
    exact hhigh
  exact ⟨round, certificate, hmem, hok, hiff.mp hok⟩

end

end Sccgub
