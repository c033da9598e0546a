import Mathlib
import Sccgub.Node.CatchUp

/-!
# Starting from a snapshot

A snapshot has all that the gate and the books go by.  It leaves out the norms
and the emergency mode, and neither decides about a block, so a chain and one
that was restored from its snapshot are twins: they take the same blocks, refuse
the others with the same words, and stay twins (`Twin.imported`).

The start also compares the snapshot with the block it was taken at.  On a chain
whose books are in the trie the roots of the last block are those of the chain:
the gate has compared them, and governance does not write.

`Booked.restores` is about the state that a snapshot brings back, and
`Bootable.boots` about the checks of the start on top of it.  `Bootable` is kept by
everything that keeps the books (`Bootable.settle`, `Bootable.run`), so any point
of a run will do; from an earlier one the node takes the blocks since then as the
chain itself would have (`Bootable.importAll_iff`).
-/

namespace Fallible

variable {ε α β : Type}

theorem Agree.cases_eq {R : α → β → Prop} {x : Except ε α} {y : Except ε β} (h : Agree R x y) :
    (∃ e, x = .error e ∧ y = .error e) ∨ ∃ a b, x = .ok a ∧ y = .ok b ∧ R a b := by
  cases h with
  | ok h => exact Or.inr ⟨_, _, rfl, rfl, h⟩
  | error e => exact Or.inl ⟨e, rfl, rfl⟩

theorem Agree.mono {R S : α → β → Prop} {x : Except ε α} {y : Except ε β} (h : Agree R x y)
    (hRS : ∀ a b, R a b → S a b) : Agree S x y := by
  cases h with
  | ok h => exact .ok (hRS _ _ h)
  | error e => exact .error e

end Fallible

namespace Sccgub

open Bincode FixedWidth WriteThrough Fallible Runs

/-! ## Maps from their entries -/

theorem ofList_toList {V : Type} (m : Std.ExtTreeMap Hash V) :
    Std.ExtTreeMap.ofList m.toList (compare : Hash → Hash → Ordering) = m := by
  refine Std.ExtTreeMap.ext_getElem? fun k => Option.ext fun v => ?_
  have hnodup : (m.toList.map Prod.fst).Nodup := by
    rw [Std.ExtTreeMap.map_fst_toList_eq_keys]
    exact Std.ExtTreeMap.nodup_keys
  rw [getElem?_ofList_eq_some_iff hnodup, Std.ExtTreeMap.mem_toList_iff_getElem?_eq_some]

/-- An engine with the penalties that every engine starts with is whole in a
snapshot. -/
theorem slashing_ofEntries {self : SlashingEngine} (hconfig : self.config = {}) :
    { (self.stakes.toList.map fun (validator, stake) => (validator, stake.raw)).foldl
        (fun engine (validator, raw) => engine.setStake validator ⟨raw⟩) ({} : SlashingEngine) with
      events := self.events
      removed := self.removed
      absenceCounter := Std.ExtTreeMap.ofList self.absenceCounter.toList } = self := by
  have hput : ∀ (entries : List (Hash × TensionValue)) (start : SlashingEngine),
      entries.foldl (fun engine entry => engine.setStake entry.1 ⟨entry.2.raw⟩) start
        = { start with stakes := putAll start.stakes entries } := by
    intro entries
    induction entries with
    | nil => exact fun _ => rfl
    | cons entry rest ih =>
        intro start
        rw [List.foldl_cons, ih]
        rfl
  rw [List.foldl_map, hput, ofList_toList]
  have hstakes : putAll ({} : SlashingEngine).stakes self.stakes.toList = self.stakes :=
    putAll_toList self.stakes
  rw [hstakes]
  cases self
  dsimp only at hconfig
  rw [hconfig]

section

variable [Crypto]

/-! ## Genesis -/

/-- The mode is all that tells two first states apart. -/
theorem initializeGenesisState_mode (blockVersion : UInt32) (validatorPublicKey : Hash)
    (params : ConsensusParams) (finalityMode other : FinalityMode) :
    ∃ governanceState, initializeGenesisState blockVersion validatorPublicKey params finalityMode
      = ({ (initializeGenesisState blockVersion validatorPublicKey params other).1 with
            governanceState },
          (initializeGenesisState blockVersion validatorPublicKey params other).2) := by
  unfold initializeGenesisState applyGenesisMint commitConsensusParams
  simp only [ManagedWorldState.applyDelta_writes]
  exact ⟨_, rfl⟩

namespace Chain

variable {self : Chain}

/-- The first block of a chain. -/
def genesisBlock (blockVersion : UInt32) (finalityMode : FinalityMode)
    (validatorKey : ValidatorKey) : Block :=
  let (state, balances) := initializeGenesisState blockVersion validatorKey.publicKey {} finalityMode
  buildGenesisBlock (blake3Hash (utf8 "sccgub-genesis-chain")) validatorKey.publicKey blockVersion
    validatorKey state.stateRoot balances.balanceRoot (some (ConsensusParams.toCanonicalBytes {}))

theorem validatorSignature_buildGenesisBlock (chainId validatorId : Hash) (version : UInt32)
    (validatorKey : ValidatorKey) (stateRoot balanceRoot : Hash) (params : Option Bytes) :
    let block := buildGenesisBlock chainId validatorId version validatorKey stateRoot balanceRoot
      params
    block.proof.validatorSignature
      = validatorKey.sign (blockSigningPayload block.header block.proof) := rfl

theorem header_buildGenesisBlock (chainId validatorId : Hash) (version : UInt32)
    (validatorKey : ValidatorKey) (stateRoot balanceRoot : Hash) (params : Option Bytes) :
    let header := (buildGenesisBlock chainId validatorId version validatorKey stateRoot balanceRoot
      params).header
    header.stateRoot = stateRoot ∧ header.balanceRoot = balanceRoot ∧ header.height = 0 :=
  ⟨rfl, rfl, rfl⟩

theorem state_init (blockVersion : UInt32) (finalityMode : FinalityMode)
    (validatorKey : ValidatorKey) : (init blockVersion finalityMode validatorKey).state
      = (initializeGenesisState blockVersion validatorKey.publicKey {} finalityMode).1 := rfl

theorem balances_init (blockVersion : UInt32) (finalityMode : FinalityMode)
    (validatorKey : ValidatorKey) : (init blockVersion finalityMode validatorKey).balances
      = (initializeGenesisState blockVersion validatorKey.publicKey {} finalityMode).2 := rfl

/-- The first block carries the roots of the state that the chain starts with. -/
theorem genesisBlock_eq (blockVersion : UInt32) (finalityMode : FinalityMode)
    (validatorKey : ValidatorKey) :
    genesisBlock blockVersion finalityMode validatorKey
      = buildGenesisBlock (blake3Hash (utf8 "sccgub-genesis-chain")) validatorKey.publicKey
          blockVersion validatorKey (init blockVersion finalityMode validatorKey).state.stateRoot
          (init blockVersion finalityMode validatorKey).balances.balanceRoot
          (some (ConsensusParams.toCanonicalBytes {})) := by
  rw [state_init, balances_init]
  unfold genesisBlock
  rfl

theorem blocks_init (blockVersion : UInt32) (finalityMode : FinalityMode)
    (validatorKey : ValidatorKey) : (init blockVersion finalityMode validatorKey).blocks
      = [genesisBlock blockVersion finalityMode validatorKey] := rfl

/-- The gate lets the first block of an early version through. -/
theorem genesisBlock_valid {blockVersion : UInt32} {validatorKey : ValidatorKey}
    (finalityMode : FinalityMode) (hkey : validatorKey.publicKey ≠ zeroHash)
    (hsupported : isSupportedBlockVersion blockVersion = true)
    (hearly : blockVersion < patch04BlockVersion) :
    validateCpog (genesisBlock blockVersion finalityMode validatorKey)
      (ManagedWorldState.withConsensusParams {}) zeroHash = .valid := by
  set genesis := genesisBlock blockVersion finalityMode validatorKey with hgenesis
  have hheight : genesis.header.height = 0 := rfl
  refine validateCpog_eq_valid_iff.mpr ⟨?_, fun hpos => ?_, rfl, ?_⟩
  · have hbudget : ¬ TensionValue.zero + TensionField.currentBudget {} < TensionValue.zero := by
      decide +kernel
    simp only [headerRows, List.forall_mem_cons, List.not_mem_nil, false_implies, implies_true,
      and_true, decide_eq_false_iff_not, not_not]
    refine ⟨?_, rfl, Nat.not_lt_zero _ ∘ UInt32.lt_iff_toNat_lt.mp, hbudget, rfl, rfl, rfl, rfl, rfl⟩
    rw [parentRow, if_pos hheight]
    exact decide_eq_false (not_not.mpr (show genesis.header.parentId = zeroHash from rfl))
  · rw [hheight] at hpos
    exact absurd hpos (by decide)
  · intro phase
    have hperTx : ∀ phase, (perTxPhase phase genesis
        (ManagedWorldState.withConsensusParams {})).passed = true :=
      fun phase => perTxPhase_passed.mpr fun tx htx => absurd htx List.not_mem_nil
    cases phase with
    | topology => rfl
    | body =>
      have hbudget : TensionValue.zero ≤ TensionValue.zero + TensionField.currentBudget {} := by
        decide +kernel
      show (phaseBody _ _).passed = true
      unfold phaseBody
      dsimp only
      rw [if_pos]
      exact hbudget
    | architecture =>
      show (phaseArchitecture _ _).passed = true
      unfold phaseArchitecture
      have hceilings : validateCeilingsForBlock (ManagedWorldState.withConsensusParams {})
          genesis.header = .notV3 := by
        unfold validateCeilingsForBlock
        exact if_pos hearly
      dsimp only
      rw [hceilings, if_neg (show genesis.header.validatorId ≠ zeroHash from hkey), if_neg]
      · rfl
      · show ¬ (!isSupportedBlockVersion blockVersion) = true
        rw [hsupported]
        exact Bool.false_ne_true
    | performance =>
      refine phasePerformance_passed.mpr ⟨rfl, fun _ tx htx => absurd htx List.not_mem_nil⟩
    | feedback =>
      have hswing : ¬ TensionValue.fromInteger ({} : ConsensusParams).maxTensionSwing.toInt
          < (if TensionValue.zero ≤ TensionValue.zero then TensionValue.zero - TensionValue.zero
            else TensionValue.zero - TensionValue.zero) := by
        decide +kernel
      show (phaseFeedback _ _).passed = true
      unfold phaseFeedback
      dsimp only
      rw [if_neg]
      · rfl
      · exact hswing
    | evolution => rfl
    | distinction => exact hperTx _
    | constraint => exact hperTx _
    | ontology => exact hperTx _
    | form => exact hperTx _
    | organization => exact hperTx _
    | module => exact hperTx _
    | execution => exact hperTx _

/-- A new chain of an early version can be replayed. -/
theorem retraces_init {blockVersion : UInt32} {validatorKey : ValidatorKey}
    (finalityMode : FinalityMode) (hkey : validatorKey.Sound)
    (hsupported : isSupportedBlockVersion blockVersion = true)
    (hearly : blockVersion < patch04BlockVersion) :
    ∃ start, Retraces (init blockVersion finalityMode validatorKey)
      (genesisBlock blockVersion finalityMode validatorKey) [] start start := by
  obtain ⟨governanceState, hmode⟩ := initializeGenesisState_mode blockVersion
    validatorKey.publicKey {} finalityMode .deterministic
  have hparams : loadGenesisConsensusParams (genesisBlock blockVersion finalityMode validatorKey)
      = .ok {} := by
    have hbody : (genesisBlock blockVersion finalityMode validatorKey).body.genesisConsensusParams
        = some (ConsensusParams.toCanonicalBytes {}) := rfl
    unfold loadGenesisConsensusParams
    rw [hbody]
    dsimp only
    rw [ConsensusParams.fromCanonicalBytes_toCanonicalBytes ConsensusParams.validate_default]
    rfl
  have hsignature : verifyProducerSignature (genesisBlock blockVersion finalityMode validatorKey)
      = .ok () := by
    exact verifyProducerSignature_of_sound hkey rfl
      (validatorSignature_buildGenesisBlock _ _ _ _ _ _ _)
  rcases hinit : initializeGenesisState blockVersion validatorKey.publicKey {} .deterministic
    with ⟨state, balances⟩
  rw [hinit] at hmode
  have hroots : checkGenesisRoots (genesisBlock blockVersion finalityMode validatorKey) state
      balances = .ok () := by
    have hstate : (genesisBlock blockVersion finalityMode validatorKey).header.stateRoot
        = state.stateRoot := by
      unfold genesisBlock
      rw [hmode]
      rfl
    have hbalances : (genesisBlock blockVersion finalityMode validatorKey).header.balanceRoot
        = balances.balanceRoot := by
      unfold genesisBlock
      rw [hmode]
      rfl
    show (if _ then _ else if _ then _ else _) = _
    rw [if_neg (not_not.mpr hstate), if_neg (not_not.mpr hbalances)]
  refine ⟨{ state := state.setHeight 0, balances }, rfl, rfl, rfl, ?_, rfl, ?_, rfl, ?_, rfl⟩
  · exact replayGenesis_eq_ok_iff.mpr ⟨rfl, hsignature, {}, hparams,
      genesisBlock_valid finalityMode hkey.nonzero hsupported hearly, state, balances, hinit,
      hroots, rfl⟩
  · have hstate : (init blockVersion finalityMode validatorKey).state
        = (initializeGenesisState blockVersion validatorKey.publicKey {} finalityMode).1 := rfl
    have hheight : state.height = 0 := by
      unfold initializeGenesisState at hinit
      obtain ⟨rfl, -⟩ := Prod.mk.inj hinit
      rfl
    rw [hstate, hmode]
    exact ⟨rfl, rfl, rfl, rfl, rfl, hheight.symm⟩
  · show balances = (initializeGenesisState blockVersion validatorKey.publicKey {} finalityMode).2
    rw [hmode]

/-! ## Chains at one place -/

/-- The same blocks, and what the gate and the books have come to. -/
structure SamePlace (chain other : Chain) : Prop where
  blocks : other.blocks = chain.blocks
  chainId : other.chainId = chain.chainId
  blockVersion : other.blockVersion = chain.blockVersion
  view : SameView chain.state other.state
  proposals : other.proposals = chain.proposals
  balances : other.balances = chain.balances
  treasury : other.treasury = chain.treasury

/-- Two chains that differ in their norms, in the emergency mode, and in what only
their owner sees. -/
structure Twin (chain other : Chain) : Prop extends SamePlace chain other where
  governanceLimits : other.governanceLimits = chain.governanceLimits
  finalityConfig : other.finalityConfig = chain.finalityConfig
  finalityMode : other.state.governanceState.finalityMode = chain.state.governanceState.finalityMode
  validatorSet : other.validatorSet = chain.validatorSet
  finalizedHeight : other.finality.finalizedHeight = chain.finality.finalizedHeight
  slashing : other.slashing = chain.slashing

theorem Retraces.moved {genesis : Block} {rest : List Block} {start acc : Replayed}
    (h : Retraces self genesis rest start acc) {next : Chain} (hsame : SamePlace self next) :
    Retraces next genesis rest start acc :=
  ⟨hsame.blocks.trans h.blocks, hsame.chainId.trans h.chainId,
    hsame.blockVersion.trans h.blockVersion, h.begins, h.replay, hsame.view.symm.trans h.view,
    h.proposals.trans hsame.proposals.symm, h.balances.trans hsame.balances.symm,
    h.treasury.trans hsame.treasury.symm⟩

/-- The snapshot of a chain makes a twin of every chain over the same blocks. -/
theorem Booked.restores (h : self.Booked) (hconfig : self.slashing.config = {}) {base : Chain}
    (hblocks : base.blocks = self.blocks) (hchainId : base.chainId = self.chainId)
    (hversion : base.blockVersion = self.blockVersion)
    (hproposals : base.proposals = self.proposals) (hrates : StandardRates base.economics) :
    ∃ restored, base.restoreFromSnapshot self.createSnapshot = .ok restored
      ∧ self.Twin restored ∧ restored.Constant ∧ restored.validatorKey = base.validatorKey := by
  have hroot : (StateTrie.new.insertAll self.createSnapshot.trieEntries).rootReadonly
      = self.createSnapshot.stateRoot := by
    obtain ⟨chain, hrestored, -⟩ := h.toConstant.restoreInPlace
    unfold restoreFromSnapshot at hrestored
    by_contra hne
    rw [if_pos hne] at hrestored
    cases hrestored
  have hstate : (restoredState self.createSnapshot).Constant := h.state.restored
  have hview : SameView self.state (restoredState self.createSnapshot) := by
    refine ⟨store_restoredTrie self, ?_, ofList_toList _, ?_, ?_, rfl⟩
    · rw [ManagedWorldState.stateRoot, ManagedWorldState.stateRoot,
        hstate.cacheValid.rootReadonly_eq, h.state.cacheValid.rootReadonly_eq,
        StateTrie.computeRoot, StateTrie.computeRoot]
      rw [show (restoredState self.createSnapshot).trie.store = self.state.trie.store from
        store_restoredTrie self]
    · rw [hstate.consensusParams, h.state.consensusParams]
    · rw [hstate.tensionField, h.state.tensionField]
  have hin : LedgerInTrie (restoredState self.createSnapshot) self.balances self.treasury :=
    h.inTrie.congr (store_restoredTrie self)
  refine ⟨_, if_neg (not_not.mpr hroot), ⟨⟨hblocks, hchainId, hversion, hview, ?_, ?_, ?_⟩, rfl, rfl,
    rfl, rfl, rfl, slashing_ofEntries hconfig⟩, ⟨hstate, hrates, ?_⟩, rfl⟩
  · show { base.proposals with proposals := self.proposals.proposals } = self.proposals
    rw [hproposals]
  · exact ledger_createSnapshot self.balances
  · show orKeep _ (treasuryFromTrie (restoredState self.createSnapshot)) = self.treasury
    rw [hin.treasury]
    rfl
  · exact h.untyped

/-! ## Twins import alike -/

omit [Crypto] in
/-- Certificates are written and not read. -/
theorem finalizedHeight_checkFinality {config : FinalityConfig}
    {blockHashAt : UInt64 → Option Hash} {a b : FinalityTracker}
    (hfinalized : b.finalizedHeight = a.finalizedHeight) (htip : b.tipHeight = a.tipHeight) :
    (b.checkFinality config blockHashAt).finalizedHeight
      = (a.checkFinality config blockHashAt).finalizedHeight := by
  have hloop : ∀ fuel (a b : FinalityTracker), b.finalizedHeight = a.finalizedHeight →
      b.tipHeight = a.tipHeight →
      (FinalityTracker.finalizeLoop config blockHashAt fuel b).finalizedHeight
        = (FinalityTracker.finalizeLoop config blockHashAt fuel a).finalizedHeight := by
    intro fuel
    induction fuel with
    | zero => exact fun _ _ hfinalized _ => hfinalized
    | succ fuel ih =>
        intro a b hfinalized htip
        simp only [FinalityTracker.finalizeLoop, FinalityTracker.finalizeNext, hfinalized, htip]
        split_ifs with hdeep
        · rcases blockHashAt (saturatingAdd a.finalizedHeight 1) with _ | blockHash
          · exact hfinalized
          · exact ih _ _ rfl rfl
        · exact hfinalized
  unfold FinalityTracker.checkFinality
  rw [hfinalized, htip]
  exact hloop _ a b hfinalized htip

omit [Crypto] in
theorem finalizedHeight_advanceFinality_congr {a b : FinalityTracker}
    (h : b.finalizedHeight = a.finalizedHeight) (mode : FinalityMode) (config : FinalityConfig)
    (blocks : List Block) (height : UInt64) :
    (advanceFinality b mode config blocks height).finalizedHeight
      = (advanceFinality a mode config blocks height).finalizedHeight := by
  unfold advanceFinality
  dsimp only
  split
  · exact finalizedHeight_checkFinality h rfl
  · exact h

/-- What import does to a chain in memory, or why it does not. -/
def imported (self : Chain) (block : Block) : Except String Chain := do
  (self.validateCandidateBlock block).1
  let state ← (self.state.validateNonces block.body.transitions).mapError ("Nonce violation: " ++ ·)
  let applied ← (applyBlock state self.balances self.treasury block.body.transitions block.receipts
    self.blockVersion block.header.validatorId
    (self.economics.effectiveFee state.tensionField.total state.tensionField.currentBudget)
    block.header.height).mapError ("Economics replay failed: " ++ ·)
  return self.commitImported block applied

theorem InMemory.importBlock_eq (h : self.InMemory) (block : Block) :
    self.importBlock block = match self.imported block with
      | .ok next => (.ok (), next)
      | .error e => (.error e, (self.importBlock block).2) := by
  have hchain := h.validateCandidateBlock block
  unfold importBlock imported
  rcases hrun : self.validateCandidateBlock block with ⟨e | ⟨⟩, chain⟩
  · rfl
  · rw [hrun] at hchain
    obtain rfl : chain = self := hchain
    dsimp only
    rcases hnonces : chain.state.validateNonces block.body.transitions with e | state
    · rfl
    · dsimp only [bind, Except.bind, Except.mapError]
      rcases happly : applyBlock state chain.balances chain.treasury block.body.transitions
          block.receipts chain.blockVersion block.header.validatorId
          (chain.economics.effectiveFee state.tensionField.total state.tensionField.currentBudget)
          block.header.height with e | applied <;> rfl

theorem InMemory.importAll_cons (h : self.InMemory) (block : Block) (rest : List Block) :
    self.importAll (block :: rest)
      = ((self.imported block).mapError (block.header.height, ·)) >>= (·.importAll rest) := by
  rw [importAll, h.importBlock_eq]
  rcases self.imported block with e | next <;> rfl

namespace Twin

variable {other : Chain}

theorem checkCandidate (h : self.Twin other) (parent block : Block) :
    other.checkCandidate parent block none = self.checkCandidate parent block none := by
  have hversion : other.checkVersion block = self.checkVersion block := by
    unfold checkVersion chainVersionHistoryFromTrie
    rw [h.blockVersion, h.view.get]
  have hproposer : other.checkProposer block none = self.checkProposer block none := by
    unfold checkProposer
    rw [h.validatorSet]
  unfold Chain.checkCandidate
  rw [h.chainId, hversion, hproposer]

theorem validateCandidateBlock (h : self.Twin other) (block : Block) :
    (other.validateCandidateBlock block).1 = (self.validateCandidateBlock block).1 := by
  unfold Chain.validateCandidateBlock validateCandidateBlockForRound
  rw [h.blocks]
  rcases self.blocks.getLast? with _ | parent
  · rfl
  · dsimp only
    rw [h.checkCandidate]
    rcases self.checkCandidate parent block none with e | ⟨⟩
    · rfl
    · exact congrArg cpogResult (h.view.validateCpog block parent.header.blockId)

theorem commitImported (h : self.Twin other) {block : Block} {applied applied' : AppliedBlock}
    (happlied : SameApplied applied applied') (hearly : block.header.version < patch04BlockVersion)
    (hgoverned : applied.state.governanceState = self.state.governanceState)
    (hgoverned' : applied'.state.governanceState = other.state.governanceState) :
    (self.commitImported block applied).Twin (other.commitImported block applied') := by
  have hview := happlied.state.setHeight block.header.height
  set after := applied.state.setHeight block.header.height with hafter
  set after' := applied'.state.setHeight block.header.height with hafter'
  have hstill : after.governanceState = self.state.governanceState := hgoverned
  have hstill' : after'.governanceState = other.state.governanceState := hgoverned'
  have hmode : after'.governanceState.finalityMode = after.governanceState.finalityMode := by
    rw [hstill, hstill', h.finalityMode]
  -- everything that governance reads, norms and emergency apart
  set ctx := ({ self with state := after } : Chain).governanceContext with hctx
  set ctx' := ({ other with state := after' } : Chain).governanceContext with hctx'
  have hparams := (show SameParams ctx ctx' from ⟨h.proposals, hview.params, rfl⟩).replay
    applyValidatorChange applyValidatorChange (ceilingsOf after) block.body.transitions
    block.header.height
  have hlimits := (show SameLimits ctx ctx' from
    ⟨h.proposals, h.governanceLimits, h.finalityConfig⟩).replay applyValidatorChange
    applyValidatorChange (ceilingsOf after) (ceilingsOf after') block.body.transitions
    block.header.height
  have hvalidators := (show SameValidators ctx ctx' from ⟨h.proposals, h.validatorSet⟩).replay
    applyValidatorChange (ceilingsOf after) (ceilingsOf after') block.body.transitions
    block.header.height
  have hmodes := (show SameMode ctx ctx' from ⟨h.proposals, hmode⟩).replay applyValidatorChange
    applyValidatorChange (ceilingsOf after) (ceilingsOf after') block.body.transitions
    block.header.height
  unfold Chain.commitImported
  rw [recordTension_of_lt hearly, recordTension_of_lt hearly]
  refine ⟨⟨congrArg (· ++ [block]) h.blocks, h.chainId, h.blockVersion, ?_, hlimits.proposals,
    happlied.balances, happlied.treasury⟩, hlimits.governanceLimits, hlimits.finalityConfig, ?_,
    hvalidators.validatorSet, ?_, congrArg (·.recordPresence block.header.validatorId) h.slashing⟩
  · show SameView (governedState after _) (governedState after' (replayGovernanceFromTransitions
      applyValidatorChange (ceilingsOf after') block.body.transitions block.header.height ctx'))
    rw [hview.ceilingsOf]
    exact hview.governedState hparams
  · show (governedState after' _).governanceState.finalityMode
      = (governedState after _).governanceState.finalityMode
    rw [(governedState_fields after' _).1, (governedState_fields after _).1]
    exact hmodes.finalityMode
  · show (advanceFinality other.finality after'.governanceState.finalityMode other.finalityConfig
      other.blocks block.header.height).finalizedHeight
        = (advanceFinality self.finality after.governanceState.finalityMode self.finalityConfig
          self.blocks block.header.height).finalizedHeight
    rw [hmode, h.finalityConfig, h.blocks]
    exact finalizedHeight_advanceFinality_congr h.finalizedHeight _ _ _ _

/-- Import takes the same blocks, refuses the others for the same reasons, and
leaves twins. -/
theorem imported (h : self.Twin other) (hself : self.Constant) (hother : other.Constant)
    (block : Block) : Agree (fun next next' : Chain => next.Twin next' ∧ next.Constant
      ∧ next'.Constant) (self.imported block) (other.imported block) := by
  have hconstant : ∀ {chain next : Chain}, chain.Constant → chain.imported block = .ok next →
      next.Constant := by
    intro chain next hchain hrun
    have hnext := hchain.importBlock block
    rw [hchain.inMemory.importBlock_eq, hrun] at hnext
    exact hnext
  suffices htwin : Agree Twin (self.imported block) (other.imported block) by
    rcases htwin.cases_eq with ⟨e, hrun, hrun'⟩ | ⟨next, next', hrun, hrun', htwin⟩
    · rw [hrun, hrun']
      exact .error e
    · rw [hrun, hrun']
      exact .ok ⟨htwin, hconstant hself hrun, hconstant hother hrun'⟩
  unfold Chain.imported
  rw [h.validateCandidateBlock]
  rcases haccepted : (self.validateCandidateBlock block).1 with e | ⟨⟩
  · exact .error e
  obtain ⟨parent, -, -, hvalid⟩ := validateCandidateBlock_eq_ok_iff.mp haccepted
  obtain ⟨hearly, -⟩ := hself.payloads hvalid
  rcases (h.view.validateNonces block.body.transitions).cases_eq with
    ⟨e, hnonces, hnonces'⟩ | ⟨state, state', hnonces, hnonces', hstate⟩
  · rw [hnonces, hnonces']
    exact .error _
  rw [hnonces, hnonces']
  dsimp only [bind, Except.bind, Except.mapError, pure, Except.pure]
  rw [hself.rates.effectiveFee, hother.rates.effectiveFee, hstate.tension, h.blockVersion,
    h.balances, h.treasury]
  rcases (hstate.applyBlock self.balances self.treasury block.body.transitions block.receipts
    self.blockVersion block.header.validatorId (EconomicState.effectiveFee {}
      state.tensionField.total state.tensionField.currentBudget) block.header.height).cases_eq with
    ⟨e, happly, happly'⟩ | ⟨applied, applied', happly, happly', happlied⟩
  · rw [happly, happly']
    exact .error _
  · rw [happly, happly']
    exact .ok (h.commitImported happlied hearly (governance_applyBlock hnonces happly)
      (governance_applyBlock hnonces' happly'))

theorem importAll (h : self.Twin other) (hself : self.Constant) (hother : other.Constant)
    (more : List Block) : Agree (fun next next' : Chain => next.Twin next' ∧ next.Constant
      ∧ next'.Constant) (self.importAll more) (other.importAll more) := by
  induction more generalizing self other with
  | nil => exact .ok ⟨h, hself, hother⟩
  | cons block rest ih =>
      rw [hself.inMemory.importAll_cons, hother.inMemory.importAll_cons]
      exact ((h.imported hself hother block).mapError _).bind fun next next' hnext =>
        ih hnext.1 hnext.2.1 hnext.2.2

end Twin

/-! ## Chains that can be taken up again -/

/-- The last block says what state and ledger have come to. -/
structure Rooted (chain : Chain) (last : Block) : Prop where
  stateRoot : last.header.stateRoot = chain.state.stateRoot
  balanceRoot : last.header.balanceRoot = chain.balances.balanceRoot
  height : last.header.height = chain.state.height

theorem rooted_genesisBlock (blockVersion : UInt32) (finalityMode : FinalityMode)
    (validatorKey : ValidatorKey) :
    (init blockVersion finalityMode validatorKey).Rooted
      (genesisBlock blockVersion finalityMode validatorKey) := by
  have hstate : (init blockVersion finalityMode validatorKey).state.height = 0 := by
    rw [state_init]
    unfold initializeGenesisState applyGenesisMint commitConsensusParams
    simp only [ManagedWorldState.applyDelta_writes]
    rfl
  rw [genesisBlock_eq]
  obtain ⟨hstateRoot, hbalanceRoot, hheight⟩ := header_buildGenesisBlock
    (blake3Hash (utf8 "sccgub-genesis-chain")) validatorKey.publicKey blockVersion validatorKey
    (init blockVersion finalityMode validatorKey).state.stateRoot
    (init blockVersion finalityMode validatorKey).balances.balanceRoot
    (some (ConsensusParams.toCanonicalBytes {}))
  exact ⟨hstateRoot, hbalanceRoot, hheight.trans hstate.symm⟩

structure Bootable (chain : Chain) : Prop extends Booked chain where
  sound : chain.validatorKey.Sound
  config : chain.slashing.config = {}
  retraced : ∃ genesis rest start acc, Retraces chain genesis rest start acc
  stacked : ∃ genesis, genesis.header.height = 0 ∧ Stacked genesis chain.blocks
  rooted : ∀ last, chain.blocks.getLast? = some last → chain.Rooted last

theorem SamePlace.refl (chain : Chain) : SamePlace chain chain :=
  ⟨rfl, rfl, rfl, SameView.refl _, rfl, rfl, rfl⟩

theorem SamePlace.trans {a b c : Chain} (h : SamePlace a b) (h' : SamePlace b c) : SamePlace a c :=
  ⟨h'.blocks.trans h.blocks, h'.chainId.trans h.chainId, h'.blockVersion.trans h.blockVersion,
    h.view.trans h'.view, h'.proposals.trans h.proposals, h'.balances.trans h.balances,
    h'.treasury.trans h.treasury⟩

theorem Booked.plain (h : self.Booked) : self.Plain := ⟨h.state.plain, h.rates, h.untyped⟩

/-- Governance moves neither the entries nor the height. -/
theorem Booked.governedState_eq (h : self.Booked) (state : ManagedWorldState) (block : Block) :
    governedState state (self.governedContext state block)
      = { state with governanceState := (self.governedContext state block).governanceState } := by
  obtain ⟨-, hparams, hmutated⟩ := replayGovernance_untyped applyValidatorChange (ceilingsOf state)
    block.body.transitions block.header.height
    (show ({ self with state } : Chain).governanceContext.proposals.Untyped from h.untyped)
  unfold governedState governedContext
  dsimp only
  rw [hmutated, hparams]
  rfl

/-- The gate has compared the roots of an accepted block with what it leads to. -/
theorem Booked.rooted_extend (h : self.Booked) {parent block : Block} {applied : AppliedBlock}
    {next : Chain} (hext : Extends self parent block applied next) : next.Rooted block := by
  have hgate := validateCpog_eq_valid_iff.mp hext.valid
  have hpos : block.header.height > 0 := by
    rw [hext.height]
    exact saturatingAdd_one_pos _
  obtain ⟨applied', hmatches⟩ := hgate.replay hpos
  obtain ⟨state, hnonces, happly⟩ := hext.applies
  have hreplay := hmatches.replay
  rw [h.replayBlock hnonces, during, mapError_eq_ok_iff, hext.version, happly] at hreplay
  obtain rfl := Except.ok.inj hreplay
  refine ⟨?_, hext.balances ▸ hmatches.balanceRoot, ?_⟩
  · rw [hext.state, h.governedState_eq]
    exact hmatches.stateRoot
  · rw [hext.state, h.governedState_eq]
    rfl

/-- What is left where no block is added. -/
structure Stays (chain next : Chain) : Prop extends SamePlace chain next where
  validatorKey : next.validatorKey = chain.validatorKey
  config : next.slashing.config = chain.slashing.config

theorem Stays.refl (chain : Chain) : Stays chain chain := ⟨SamePlace.refl chain, rfl, rfl⟩

/-- An operation leaves the chain at its place, or adds a block. -/
theorem Booked.settle_cases (h : self.Booked) (hkey : self.validatorKey.Sound)
    (hconfig : self.slashing.config = {}) {op : LedgerOp} (hkeeps : self.KeepsBooks op) :
    Stays self (self.settle op)
      ∨ ∃ parent block applied, Extends self parent block applied (self.settle op) := by
  cases op with
  | block op =>
      cases op with
      | gate block parentId =>
          left
          show Stays self (self.sharing (runCpog block self.state parentId).durable)
          rw [durable_runCpog_none h.inMemory, h.inMemory.sharing_none]
          exact Stays.refl self
      | candidate block =>
          left
          show Stays self (self.validateCandidateBlock block).2
          rw [h.inMemory.validateCandidateBlock]
          exact Stays.refl self
      | build wallHint =>
          left
          show Stays self (self.sharing (self.produceBlock wallHint).2.state.trie.durable)
          rw [(h.toConstant.produceBlock wallHint).state.durable, h.inMemory.sharing_none]
          exact Stays.refl self
      | produce wallHint =>
          rcases h.inMemory.produceBlock_cases wallHint with ⟨e, mempool, hrun⟩ |
            ⟨parent, applied, block, -, -, -, -, hrun⟩
          · left
            show Stays self (self.produceBlock wallHint).2
            rw [hrun]
            exact ⟨⟨rfl, rfl, rfl, SameView.refl _, rfl, rfl, rfl⟩, rfl, rfl⟩
          · right
            obtain ⟨parent, applied, hext, -⟩ := h.inMemory.extends_of_produceBlock hkey
              h.producerGasPrice hrun
            refine ⟨parent, block, applied, ?_⟩
            show Extends self parent block applied (self.produceBlock wallHint).2
            rw [hrun]
            exact hext
      | importBlock block =>
          rcases h.importBlock_cases block with ⟨e, hrun⟩ | ⟨_, _, -, -, -, -, hrun⟩
          · left
            show Stays self (self.importBlock block).2
            rw [hrun]
            exact Stays.refl self
          · right
            obtain ⟨parent, applied, hext⟩ := h.plain.extends_of_importBlock hrun
            refine ⟨parent, block, applied, ?_⟩
            show Extends self parent block applied (self.importBlock block).2
            rw [hrun]
            exact hext
  | submit tx =>
      left
      obtain ⟨mempool, hnext⟩ := self.submit_frame tx
      show Stays self (orKeep self (self.submitTransition tx))
      rw [hnext]
      exact ⟨⟨rfl, rfl, rfl, SameView.refl _, rfl, rfl, rfl⟩, rfl, rfl⟩
  | penalize validatorId penalty =>
      left
      have hnothing : (self.cappedPenalty validatorId penalty).raw.val ≤ 0 := by
        rw [val_cappedPenalty]
        exact min_le_iff.mpr hkeeps
      show Stays self (self.executeSlashingPenalty validatorId penalty).2
      rw [executeSlashingPenalty_of_nonpos hnothing]
      exact Stays.refl self
  | restore =>
      left
      obtain ⟨restored, hrestored, htwin, -, hkept⟩ := h.restores hconfig rfl rfl rfl rfl h.rates
      have hnext : self.settle .restore = restored := by
        show (self.restoreInPlace self.createSnapshot).2 = restored
        unfold restoreInPlace
        rw [hrestored]
      rw [hnext]
      exact ⟨htwin.toSamePlace, hkept, congrArg _ htwin.slashing⟩

namespace Bootable

theorem settle (h : self.Bootable) {op : LedgerOp} (hkeeps : self.KeepsBooks op) :
    (self.settle op).Bootable := by
  have hbooked := h.toBooked.step hkeeps
  obtain ⟨genesis, rest, start, acc, hretraces⟩ := h.retraced
  obtain ⟨first, hfirst, hstacked⟩ := h.stacked
  rcases h.toBooked.settle_cases h.sound h.config hkeeps with ⟨hsame, hkey, hconfig⟩ |
    ⟨parent, block, applied, hext⟩
  · refine ⟨hbooked, hkey ▸ h.sound, hconfig.trans h.config, ⟨genesis, rest, start, acc, hretraces.moved hsame⟩,
      ⟨first, hfirst, hsame.blocks ▸ hstacked⟩, fun last hlast => ?_⟩
    obtain ⟨hstate, hbalances, hheight⟩ := h.rooted last (hsame.blocks ▸ hlast)
    exact ⟨hstate.trans hsame.view.root.symm, hsame.balances ▸ hbalances,
      hheight.trans hsame.view.height.symm⟩
  · obtain ⟨acc', hretraces', -⟩ := hretraces.extend hext
    refine ⟨hbooked, hext.validatorKey ▸ h.sound, hext.slashing.trans h.config,
      ⟨genesis, _, start, acc', hretraces'⟩, ⟨first, hfirst, ?_⟩, fun last hlast => ?_⟩
    · exact hstacked.gated (Or.inr ⟨parent, block, self.state, hext.tip, hext.height, hext.valid,
        hext.blocks⟩)
    · rw [hext.blocks, List.getLast?_concat] at hlast
      obtain rfl := Option.some.inj hlast
      exact h.toBooked.rooted_extend hext

theorem init {blockVersion : UInt32} {validatorKey : ValidatorKey} (finalityMode : FinalityMode)
    (hkey : validatorKey.Sound) (hsupported : isSupportedBlockVersion blockVersion = true)
    (hearly : blockVersion < patch04BlockVersion) :
    (Chain.init blockVersion finalityMode validatorKey).Bootable := by
  obtain ⟨start, hretraces⟩ := retraces_init finalityMode hkey hsupported hearly
  refine ⟨booked_init blockVersion finalityMode validatorKey, hkey, rfl, ⟨_, [], start, start,
    hretraces⟩, ⟨genesisBlock blockVersion finalityMode validatorKey, rfl, rfl, ?_, ?_⟩, ?_⟩
  · intro i a b _ hb
    simp [blocks_init] at hb
  · intro i a b _ hb
    simp [blocks_init] at hb
  · intro last hlast
    obtain rfl := Option.some.inj hlast
    exact rooted_genesisBlock blockVersion finalityMode validatorKey

/-- The last block is where the snapshot says it was taken. -/
theorem snapshotBoundary (h : self.Bootable) (hwide : self.blocks.length ≤ 2 ^ 64)
    (more : List Block) :
    self.createSnapshot.height.toNat + 1 = self.blocks.length
      ∧ ∃ last, Chain.snapshotBoundary (self.blocks ++ more) self.createSnapshot = .ok last := by
  obtain ⟨genesis, hgenesis, hstacked⟩ := h.stacked
  have hpos : 0 < self.blocks.length := (List.getElem?_eq_some_iff.mp hstacked.first).1
  obtain ⟨last, hlast⟩ : ∃ last, self.blocks[self.blocks.length - 1]? = some last :=
    ⟨_, List.getElem?_eq_getElem (by omega)⟩
  obtain ⟨hstate, hbalances, hheight⟩ := h.rooted last (by rw [List.getLast?_eq_getElem?, hlast])
  have hindex : self.createSnapshot.height.toNat = self.blocks.length - 1 := by
    rw [← hstacked.toNat_height hgenesis hwide _ last hlast, hheight]
    rfl
  have hledger : self.createSnapshot.ledger.balanceRoot = last.header.balanceRoot :=
    (congrArg BalanceLedger.balanceRoot (ledger_createSnapshot self.balances)).trans hbalances.symm
  refine ⟨by omega, last, ?_⟩
  unfold Chain.snapshotBoundary
  rw [hindex, List.getElem?_append_left (by omega), hlast]
  dsimp only
  rw [if_neg (not_not.mpr (show last.header.height = self.createSnapshot.height from hheight)),
    if_neg (not_not.mpr (show self.createSnapshot.stateRoot = _ from hstate.symm)),
    if_neg (not_not.mpr hledger)]

/-- A start from the snapshot does with later blocks what the node itself would
do. -/
theorem boots (h : self.Bootable) (hwide : self.blocks.length ≤ 2 ^ 64)
    (validatorKey : ValidatorKey) (more : List Block) :
    Agree (fun next booted : Chain => next.Twin booted)
      ((self.importAll more).mapError fun (height, detail) => .postSnapshotReplay height detail)
      (fromBlocksWithSnapshot validatorKey (self.blocks ++ more) self.createSnapshot none) := by
  obtain ⟨genesis, rest, start, acc, hretraces⟩ := h.retraced
  obtain ⟨hindex, last, hboundary⟩ := h.snapshotBoundary hwide more
  have hbase : fromBlocks validatorKey self.blocks = .ok (ofReplayed validatorKey genesis
      (rest.getLast?.getD genesis) (genesis :: rest) acc) := by
    rw [hretraces.blocks]
    exact fromBlocks_cons_eq_ok_iff.mpr ⟨start, acc, hretraces.begins, hretraces.replay, rfl⟩
  obtain ⟨restored, hrestored, htwin, hconstant, -⟩ := h.toBooked.restores h.config
    (show (ofReplayed validatorKey genesis (rest.getLast?.getD genesis) (genesis :: rest)
      acc).blocks = self.blocks from hretraces.blocks.symm)
    hretraces.chainId.symm hretraces.blockVersion.symm hretraces.proposals ⟨rfl, rfl⟩
  have hne : (self.blocks ++ more).isEmpty = false := by
    rw [hretraces.blocks]
    rfl
  unfold fromBlocksWithSnapshot
  rw [if_neg (by rw [hne]; exact Bool.false_ne_true), hboundary]
  dsimp only [bind, Except.bind]
  rw [hindex, List.take_left, List.drop_left, hbase]
  dsimp only
  rw [hrestored]
  exact ((htwin.importAll h.toConstant hconstant more).mono fun _ _ hnext => hnext.1).mapError _

/-! ## An earlier snapshot -/

theorem run (h : self.Bootable) {ops : List LedgerOp} (hkeeps : Along Chain.settle KeepsBooks self ops) :
    (ops.foldl Chain.settle self).Bootable
      ∧ ∃ more, self.blocks ++ more = (ops.foldl Chain.settle self).blocks := by
  induction ops generalizing self with
  | nil => exact ⟨h, [], List.append_nil _⟩
  | cons op ops ih =>
      obtain ⟨hlast, more, hmore⟩ := ih (h.settle hkeeps.1) hkeeps.2
      refine ⟨hlast, ?_⟩
      rcases h.toBooked.settle_cases h.sound h.config hkeeps.1 with hstays |
        ⟨parent, block, applied, hext⟩
      · rw [hstays.blocks] at hmore
        exact ⟨more, hmore⟩
      · rw [hext.blocks, List.append_assoc] at hmore
        exact ⟨_, hmore⟩

/-- The blocks that have come since can be imported where their producers are
accepted, and lead to where the chain is now. -/
theorem importAll_iff (h : self.Bootable) {reached : Chain} (hreached : reached.Bootable)
    {more : List Block} (hmore : self.blocks ++ more = reached.blocks) :
    ((∃ next, self.importAll more = .ok next) ↔ Along importing AcceptsProposer self more)
      ∧ ∀ next, self.importAll more = .ok next → reached.SamePlace next := by
  obtain ⟨genesis, rest, start, acc, hretraces⟩ := h.retraced
  obtain ⟨genesis', rest', start', acc', hretraces'⟩ := hreached.retraced
  obtain ⟨first, -, hstacked⟩ := hreached.stacked
  rw [hretraces.blocks, hretraces'.blocks, List.cons_append] at hmore
  obtain ⟨rfl, rfl⟩ := List.cons.inj hmore
  obtain rfl : start = start' := Except.ok.inj (hretraces.begins.symm.trans hretraces'.begins)
  have hrises : RisesFrom self.height more := by
    obtain ⟨tip, htip⟩ : ∃ tip, self.blocks.getLast? = some tip := by
      rw [hretraces.blocks]
      exact ⟨_, List.getLast?_cons⟩
    rw [hretraces'.blocks, ← List.cons_append, ← hretraces.blocks] at hstacked
    have := risesFrom_of_heights htip hstacked.height
    rwa [Chain.height, htip]
  refine ⟨?_, fun next hnext => ?_⟩
  · rw [hretraces.importAll_iff h.inMemory h.rates]
    exact ⟨fun h => h.2.2, fun h => ⟨⟨acc', hretraces'.replay⟩, hrises, h⟩⟩
  · obtain ⟨-, -, last, hlast⟩ := Plain.importAll
      (P := fun chain kept => chain.InMemory ∧ StandardRates chain.economics
        ∧ ∃ last, Retraces chain genesis kept start last)
      (fun hkept => hkept.2.2.elim fun _ hretraces => hretraces.plain hkept.1 hkept.2.1)
      (fun hkept hext => ⟨hext.inMemory hkept.1,
        ⟨hext.economics.1.trans hkept.2.1.baseFee, hext.economics.2.trans hkept.2.1.alpha⟩,
        hkept.2.2.elim fun _ hretraces => (hretraces.extend hext).imp fun _ hnext => hnext.1⟩)
      ⟨h.inMemory, h.rates, acc, hretraces⟩ hnext
    obtain rfl : last = acc' := Except.ok.inj (hlast.replay.symm.trans hretraces'.replay)
    exact ⟨hlast.blocks.trans hretraces'.blocks.symm, hlast.chainId.trans hretraces'.chainId.symm,
      hlast.blockVersion.trans hretraces'.blockVersion.symm, hretraces'.view.trans hlast.view.symm,
      hlast.proposals.symm.trans hretraces'.proposals, hlast.balances.symm.trans hretraces'.balances,
      hlast.treasury.symm.trans hretraces'.treasury⟩

end Bootable

/-! ## Nodes that start from a snapshot -/

/-- With the node's own snapshot and its blocks, a start goes through, and later
blocks are taken or refused as the node itself would. -/
def BootsFromSnapshot (self : Chain) : Prop :=
  self.blocks.length ≤ 2 ^ 64 → ∀ (validatorKey : ValidatorKey) (more : List Block),
    Agree (fun next booted : Chain => next.Twin booted)
      ((self.importAll more).mapError fun (height, detail) => .postSnapshotReplay height detail)
      (fromBlocksWithSnapshot validatorKey (self.blocks ++ more) self.createSnapshot none)

theorem bootsFromSnapshot_of_keepsBooks {blockVersion : UInt32} {finalityMode : FinalityMode}
    {validatorKey : ValidatorKey} (hkey : validatorKey.Sound)
    (hsupported : isSupportedBlockVersion blockVersion = true)
    (hearly : blockVersion < patch04BlockVersion) {ops : List LedgerOp}
    (h : Along settle KeepsBooks (init blockVersion finalityMode validatorKey) ops) :
    Throughout settle BootsFromSnapshot (init blockVersion finalityMode validatorKey) ops :=
  (throughout_of_along (fun _ _ hbootable hop => hbootable.settle hop)
    (Bootable.init finalityMode hkey hsupported hearly) h).mono
      fun _ hbootable hwide validatorKey more => hbootable.boots hwide validatorKey more

/-- A snapshot may be older than the blocks.  The start goes through exactly when
the producers of the blocks since are accepted as they come, and arrives at the
place of the node. -/
theorem earlierSnapshot_of_keepsBooks {blockVersion : UInt32} {finalityMode : FinalityMode}
    {validatorKey : ValidatorKey} (hkey : validatorKey.Sound)
    (hsupported : isSupportedBlockVersion blockVersion = true)
    (hearly : blockVersion < patch04BlockVersion) {ops since : List LedgerOp}
    (h : Along settle KeepsBooks (init blockVersion finalityMode validatorKey) (ops ++ since))
    {taken reached : Chain}
    (htaken : taken = ops.foldl settle (init blockVersion finalityMode validatorKey))
    (hreached : reached = since.foldl settle taken) (hwide : taken.blocks.length ≤ 2 ^ 64) :
    ∃ more, taken.blocks ++ more = reached.blocks ∧ ∀ newKey,
      ((∃ booted, fromBlocksWithSnapshot newKey reached.blocks taken.createSnapshot none = .ok booted)
          ↔ Along importing AcceptsProposer taken more)
        ∧ ∀ booted, fromBlocksWithSnapshot newKey reached.blocks taken.createSnapshot none
          = .ok booted → reached.SamePlace booted := by
  obtain ⟨hfirst, hsince⟩ := along_append.mp h
  obtain ⟨hbootable, -⟩ := (Bootable.init finalityMode hkey hsupported hearly).run hfirst
  rw [← htaken] at hbootable hsince
  obtain ⟨hagain, more, hmore⟩ := hbootable.run hsince
  rw [← hreached] at hagain hmore
  obtain ⟨hiff, hplace⟩ := hbootable.importAll_iff hagain hmore
  refine ⟨more, hmore, fun newKey => ?_⟩
  have hboots := hbootable.boots hwide newKey more
  rw [hmore] at hboots
  rw [← hiff]
  rcases hboots.cases_eq with ⟨e, hrun, hbooted⟩ | ⟨next, booted, hrun, hbooted, htwin⟩
  · rw [hbooted]
    refine ⟨⟨fun ⟨_, hok⟩ => (nomatch hok), fun ⟨next, hok⟩ => ?_⟩, fun _ hok => (nomatch hok)⟩
    rw [hok] at hrun
    cases hrun
  · rw [mapError_eq_ok_iff] at hrun
    rw [hbooted]
    refine ⟨⟨fun _ => ⟨next, hrun⟩, fun _ => ⟨booted, rfl⟩⟩, fun other hok => ?_⟩
    obtain rfl := Except.ok.inj hok
    exact (hplace next hrun).trans htwin.toSamePlace

end Chain

end

/-! ## A transfer before and after the snapshot -/

theorem bootsFromSnapshot_quietRun :
    (quietRun.foldl (@Chain.settle polyCrypto) holderChain).blocks.length = 2
      ∧ Throughout (@Chain.settle polyCrypto) (@Chain.BootsFromSnapshot polyCrypto) holderChain
        quietRun :=
  ⟨quietRun_keepsBooks.1, @Chain.bootsFromSnapshot_of_keepsBooks polyCrypto legacyBlockVersion
    .deterministic nodeKey (sound_polyKey (by decide)) (by decide) (by decide) quietRun
    quietRun_keepsBooks.2⟩

def submittedHolder : Chain :=
  @Chain.settle polyCrypto holderChain (.submit (transferOut 1 960000))

def transferredHolder : Chain := @Chain.settle polyCrypto submittedHolder (.block (.produce 0))

theorem transferredHolder_evaluated :
    submittedHolder.validatorSet.isEmpty = true ∧ submittedHolder.blocks.length = 1
      ∧ transferredHolder.blocks.length = 2
      ∧ Along (@Chain.settle polyCrypto) Chain.KeepsBooks holderChain
        ([.submit (transferOut 1 960000)] ++ [.block (.produce 0)]) := by
  decide +kernel

/-- The snapshot was taken while the transfer waited. -/
theorem earlierSnapshot_of_keepsBooks_transfer :
    transferredHolder.blocks.length = 2 ∧ ∃ booted,
      @Chain.fromBlocksWithSnapshot polyCrypto nodeKey transferredHolder.blocks
        (@Chain.createSnapshot polyCrypto submittedHolder) none = .ok booted
      ∧ @Chain.SamePlace polyCrypto transferredHolder booted := by
  obtain ⟨hopen, hone, htwo, hkeeps⟩ := transferredHolder_evaluated
  obtain ⟨more, hmore, hboots⟩ := @Chain.earlierSnapshot_of_keepsBooks polyCrypto legacyBlockVersion
    .deterministic nodeKey (sound_polyKey (by decide)) (by decide) (by decide)
    [.submit (transferOut 1 960000)] [.block (.produce 0)] hkeeps submittedHolder transferredHolder
    rfl rfl (by rw [hone]; decide)
  obtain ⟨block, rfl⟩ : ∃ block, more = [block] := by
    have hlength := congrArg List.length hmore
    rw [List.length_append, hone, htwo] at hlength
    exact List.length_eq_one_iff.mp (by omega)
  have haccepts : submittedHolder.AcceptsProposer block := if_pos hopen
  obtain ⟨hiff, hplace⟩ := hboots nodeKey
  obtain ⟨booted, hbooted⟩ := hiff.mpr ⟨haccepts, trivial⟩
  exact ⟨htwo, booted, hbooted, hplace booted hbooted⟩


end Sccgub
