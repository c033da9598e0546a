import Mathlib
import Sccgub.Execution.Authorization
import Sccgub.Execution.View
import Sccgub.Node.GovernanceReplay
import Sccgub.Node.Produce

/-!
# Steps of a chain

What import and production do to a chain whose state is in memory only, said
once: which checks a successful step has passed, what the chain is afterwards,
and how little a failed step changes.
-/

namespace Sccgub

open Bincode FixedWidth WriteThrough Fallible

/-! ## Memory only -/

/-- The state is not bound to a store. -/
def Chain.InMemory (self : Chain) : Prop := self.state.trie.durable = none

theorem ManagedWorldState.sharing_none {state : ManagedWorldState} (h : state.trie.durable = none) :
    state.sharing none = state := by
  rw [← h]
  rfl

theorem Chain.InMemory.sharing_none {self : Chain} (h : self.InMemory) :
    self.sharing none = self := by
  rw [Chain.sharing, ManagedWorldState.sharing_none h]

section

variable [Crypto]

theorem durable_runCpog_none {state : ManagedWorldState} (h : state.trie.durable = none)
    (block : Block) (parentBlockId : Hash) : (runCpog block state parentBlockId).durable = none := by
  rw [durable_runCpog, h]
  rfl

theorem durable_applyBlock {state : ManagedWorldState} {balances : BalanceLedger}
    {treasury : Treasury} {transitions : List SymbolicTransition} {receipts : List CausalReceipt}
    {blockVersion : UInt32} {validatorPublicKey : Hash} {gasPrice : TensionValue} {height : UInt64}
    {applied : AppliedBlock} (h : applyBlock state balances treasury transitions receipts
      blockVersion validatorPublicKey gasPrice height = .ok applied)
    (hstate : state.trie.durable = none) : applied.state.trie.durable = none := by
  rw [applyBlock_eq h]
  show (state.trie.insertAll _).durable = none
  rw [StateTrie.durable_insertAll, hstate]
  rfl

namespace Chain

omit [Crypto] in
theorem cpogResult_eq_ok_iff {result : CpogResult} :
    cpogResult result = .ok () ↔ result = .valid := by
  cases result <;> simp [cpogResult]

/-! ## Import -/

/-- The checks before the gate. -/
structure CandidateOk (chain : Chain) (parent block : Block) : Prop where
  height : block.header.height = saturatingAdd parent.header.height 1
  parentId : block.header.parentId = parent.header.blockId
  chainId : block.header.chainId = chain.chainId
  version : chain.checkVersion block = .ok ()
  proposer : chain.checkProposer block none = .ok ()
  signature : verifyProducerSignature block = .ok ()

theorem checkCandidate_eq_ok_iff {self : Chain} {parent block : Block} :
    self.checkCandidate parent block none = .ok () ↔ self.CandidateOk parent block := by
  unfold checkCandidate
  simp only [bind_eq_ok_iff, guard_eq_ok_iff, not_not]
  constructor
  · rintro ⟨hheight, hparent, hchain, ⟨⟩, hversion, ⟨⟩, hproposer, hsig⟩
    exact ⟨hheight, hparent, hchain, hversion, hproposer, hsig⟩
  · intro h
    exact ⟨h.height, h.parentId, h.chainId, (), h.version, (), h.proposer, h.signature⟩

theorem InMemory.validateCandidateBlock {self : Chain} (h : self.InMemory) (block : Block) :
    (self.validateCandidateBlock block).2 = self := by
  unfold Chain.validateCandidateBlock validateCandidateBlockForRound
  rcases self.blocks.getLast? with _ | parent
  · rfl
  · dsimp only
    rcases self.checkCandidate parent block none with e | ⟨⟩
    · rfl
    · dsimp only
      rw [durable_runCpog_none h, h.sharing_none]

theorem validateCandidateBlock_eq_ok_iff {self : Chain} {block : Block} :
    (self.validateCandidateBlock block).1 = .ok () ↔
      ∃ parent, self.blocks.getLast? = some parent ∧ self.CandidateOk parent block
        ∧ validateCpog block self.state parent.header.blockId = .valid := by
  unfold validateCandidateBlock validateCandidateBlockForRound
  rcases self.blocks.getLast? with _ | parent
  · simp
  · dsimp only
    rcases hcheck : self.checkCandidate parent block none with e | ⟨⟩
    · refine ⟨fun h => (nomatch h), ?_⟩
      rintro ⟨_, hparent, hok, -⟩
      obtain rfl := Option.some_inj.mp hparent
      rw [checkCandidate_eq_ok_iff.mpr hok] at hcheck
      cases hcheck
    · dsimp only
      rw [cpogResult_eq_ok_iff]
      constructor
      · exact fun h => ⟨parent, rfl, checkCandidate_eq_ok_iff.mp hcheck, h⟩
      · rintro ⟨_, hparent, -, hvalid⟩
        obtain rfl := Option.some_inj.mp hparent
        exact hvalid

/-- The price that import applies a block with. -/
def importGasPrice (self : Chain) : TensionValue :=
  self.economics.effectiveFee self.state.tensionField.total self.state.tensionField.currentBudget

/-- An import succeeds when the candidate passes and its nonces and fees apply. -/
theorem InMemory.importBlock_eq_ok_iff {self chain : Chain} (h : self.InMemory) {block : Block} :
    self.importBlock block = (.ok (), chain) ↔
      ∃ parent state applied, self.blocks.getLast? = some parent ∧ self.CandidateOk parent block
        ∧ validateCpog block self.state parent.header.blockId = .valid
        ∧ self.state.validateNonces block.body.transitions = .ok state
        ∧ applyBlock state self.balances self.treasury block.body.transitions block.receipts
            self.blockVersion block.header.validatorId self.importGasPrice block.header.height
          = .ok applied
        ∧ chain = self.commitImported block applied := by
  have hchain := h.validateCandidateBlock block
  have hverdict := @validateCandidateBlock_eq_ok_iff _ self block
  unfold importBlock
  rcases hrun : self.validateCandidateBlock block with ⟨e | ⟨⟩, chain₁⟩
  · rw [hrun] at hverdict
    refine ⟨fun hok => ?_, ?_⟩
    · cases hok
    · rintro ⟨parent, _, _, hparent, hok, hvalid, -⟩
      cases hverdict.mpr ⟨parent, hparent, hok, hvalid⟩
  · rw [hrun] at hverdict hchain
    obtain rfl : chain₁ = self := hchain
    obtain ⟨parent, hparent, hok, hvalid⟩ := hverdict.mp rfl
    dsimp only
    rcases hnonces : chain₁.state.validateNonces block.body.transitions with e | state
    · refine ⟨fun hok => ?_, ?_⟩
      · cases hok
      · rintro ⟨_, _, _, -, -, -, hn, -⟩
        cases hn
    · have hprice : chain₁.economics.effectiveFee state.tensionField.total
          state.tensionField.currentBudget = chain₁.importGasPrice := by
        rw [ManagedWorldState.validateNonces_frame hnonces]
        rfl
      dsimp only
      rw [hprice]
      rcases happly : applyBlock state chain₁.balances chain₁.treasury block.body.transitions
        block.receipts chain₁.blockVersion block.header.validatorId chain₁.importGasPrice
        block.header.height with e | applied
      · refine ⟨fun hok => ?_, ?_⟩
        · cases hok
        · rintro ⟨_, state', _, -, -, -, hn, ha, -⟩
          obtain rfl := Except.ok.inj hn
          rw [happly] at ha
          cases ha
      · constructor
        · intro hresult
          obtain ⟨-, rfl⟩ := Prod.mk.inj hresult
          exact ⟨parent, state, applied, hparent, hok, hvalid, rfl, happly, rfl⟩
        · rintro ⟨_, state', applied', -, -, -, hn, ha, rfl⟩
          obtain rfl := Except.ok.inj hn
          rw [happly] at ha
          obtain rfl := Except.ok.inj ha
          rfl

/-! ## Production -/

/-- Production either leaves the chain with another mempool, or commits a block
that passed the gate. -/
theorem InMemory.produceBlock_cases {self : Chain} (h : self.InMemory) (wallHint : UInt64) :
    (∃ e mempool, self.produceBlock wallHint = (.error e, { self with mempool }))
      ∨ ∃ parent applied block, self.blocks.getLast? = some parent
        ∧ self.speculate self.admission.1 (saturatingAdd parent.header.height 1) = .ok applied
        ∧ self.assemble parent self.admission.1 applied (saturatingAdd parent.header.height 1)
            wallHint = .ok block
        ∧ validateCpog block self.state parent.header.blockId = .valid
        ∧ self.produceBlock wallHint = (.ok block,
            ({ self with mempool := self.admission.2 } : Chain).commitProduced block applied
              self.admission.1.rejected (saturatingAdd parent.header.height 1)) := by
  unfold produceBlock
  rcases hparent : self.blocks.getLast? with _ | parent
  · exact Or.inl ⟨_, self.mempool, rfl⟩
  dsimp only
  split
  · exact Or.inl ⟨_, self.mempool, rfl⟩
  rcases self.powerTracker.checkProposal self.localValidatorId self.governanceLimits with e | ⟨⟩
  · exact Or.inl ⟨_, self.mempool, rfl⟩
  unfold produceOn
  rcases hadmission : self.admission with ⟨loop, mempool⟩
  dsimp only
  rcases hspec : self.speculate loop (saturatingAdd parent.header.height 1) with e | applied
  · exact Or.inl ⟨_, mempool, rfl⟩
  dsimp only
  have hclone : (orKeep self.state (self.state.validateNonces loop.accepted)).trie.durable
      = none := by
    rcases hnonces : self.state.validateNonces loop.accepted with e | state
    · exact h
    · show state.trie.durable = none
      rw [ManagedWorldState.validateNonces_frame hnonces]
      exact h
  have hnone : applied.state.trie.durable = none :=
    durable_applyBlock (mapError_eq_ok_iff.mp hspec) hclone
  have hdrained : ({ self with mempool } : Chain).sharing applied.state.trie.durable
      = { self with mempool } := by
    rw [hnone]
    exact InMemory.sharing_none h
  rw [hdrained]
  rcases hblock : self.assemble parent loop applied (saturatingAdd parent.header.height 1) wallHint
    with e | block
  · exact Or.inl ⟨_, mempool, rfl⟩
  dsimp only
  have hrun : (runCpog block self.state parent.header.blockId).durable = none :=
    durable_runCpog_none h _ _
  have hgated : ({ self with mempool } : Chain).sharing none = { self with mempool } :=
    InMemory.sharing_none h
  rw [hrun, hgated, ManagedWorldState.sharing_none hnone]
  rcases hresult : cpogResult (runCpog block self.state parent.header.blockId).result with e | ⟨⟩
  · exact Or.inl ⟨_, mempool, rfl⟩
  · exact Or.inr ⟨parent, applied, block, rfl, hspec, hblock, cpogResult_eq_ok_iff.mp hresult, rfl⟩

end Chain

/-! ## Receipts on their way into a block -/

/-- Receipts that charge the same: the transition, the verdict and what was
used. -/
structure SameCharge (r r' : CausalReceipt) : Prop where
  txId : r'.txId = r.txId
  verdict : r'.verdict = r.verdict
  resourceUsed : r'.resourceUsed = r.resourceUsed

omit [Crypto] in
theorem chargeFee_sameCharge {r r' : CausalReceipt} (h : SameCharge r r') (blockVersion : UInt32)
    (gasPrice : TensionValue) (acc : Settlement) (tx : SymbolicTransition) :
    chargeFee blockVersion gasPrice acc (tx, r') = chargeFee blockVersion gasPrice acc (tx, r) := by
  have hfee : receiptFee gasPrice r' = receiptFee gasPrice r := by
    rw [receiptFee, receiptFee, h.resourceUsed]
  unfold chargeFee
  simp only [h.txId, h.verdict, hfee]

omit [Crypto] in
theorem chargeFees_sameCharge {receipts receipts' : List CausalReceipt}
    (h : List.Forall₂ SameCharge receipts receipts') (balances : BalanceLedger)
    (treasury : Treasury) (transitions : List SymbolicTransition) (blockVersion : UInt32)
    (gasPrice : TensionValue) :
    chargeFees balances treasury transitions receipts' blockVersion gasPrice
      = chargeFees balances treasury transitions receipts blockVersion gasPrice := by
  have hfold : ∀ (transitions : List SymbolicTransition) (acc : Settlement),
      (transitions.zip receipts').foldlM (chargeFee blockVersion gasPrice) acc
        = (transitions.zip receipts).foldlM (chargeFee blockVersion gasPrice) acc := by
    induction h with
    | nil => exact fun transitions acc => rfl
    | cons hr _ ih =>
        intro transitions acc
        rcases transitions with _ | ⟨tx, rest⟩
        · rfl
        · rw [List.zip_cons_cons, List.zip_cons_cons, List.foldlM_cons, List.foldlM_cons,
            chargeFee_sameCharge hr]
          exact bind_congr fun next => ih rest next
  have hempty : receipts'.isEmpty = receipts.isEmpty := by
    cases h <;> rfl
  simp only [chargeFees, h.length_eq, hempty, hfold]

theorem applyBlock_sameCharge {receipts receipts' : List CausalReceipt}
    (h : List.Forall₂ SameCharge receipts receipts') (state : ManagedWorldState)
    (balances : BalanceLedger) (treasury : Treasury) (transitions : List SymbolicTransition)
    (blockVersion : UInt32) (validatorPublicKey : Hash) (gasPrice : TensionValue)
    (height : UInt64) :
    applyBlock state balances treasury transitions receipts' blockVersion validatorPublicKey
        gasPrice height
      = applyBlock state balances treasury transitions receipts blockVersion validatorPublicKey
        gasPrice height := by
  unfold applyBlock applyBlockEconomics
  rw [chargeFees_sameCharge h]

omit [Crypto] in
theorem sameCharge_attachDeltas (receipts : List CausalReceipt) (deltas : List StateDelta) :
    List.Forall₂ SameCharge receipts (attachDeltas receipts deltas) := by
  have hrefl : ∀ r, SameCharge r r := fun r => ⟨rfl, rfl, rfl⟩
  induction receipts generalizing deltas with
  | nil => exact .nil
  | cons receipt rest ih =>
      cases deltas with
      | nil => exact List.forall₂_same.mpr fun r _ => hrefl r
      | cons delta deltas => exact .cons ⟨rfl, rfl, rfl⟩ (ih deltas)

omit [Crypto] in
theorem sameCharge_sealReceipts {postRoot : Hash} {receipts sealed : List CausalReceipt}
    (h : sealReceipts postRoot receipts = .ok sealed) : List.Forall₂ SameCharge receipts sealed := by
  unfold sealReceipts at h
  induction receipts generalizing sealed with
  | nil =>
      obtain rfl := Except.ok.inj h
      exact .nil
  | cons receipt rest ih =>
      rw [List.mapM_cons, bind_eq_ok_iff] at h
      obtain ⟨first, hfirst, h⟩ := h
      rw [bind_eq_ok_iff] at h
      obtain ⟨others, hothers, h⟩ := h
      obtain rfl := Except.ok.inj h
      refine .cons ?_ (ih hothers)
      rw [mapError_eq_ok_iff] at hfirst
      unfold sealReceiptPostState at hfirst
      split at hfirst
      · cases hfirst
      · split at hfirst
        · cases hfirst
        · obtain rfl := Except.ok.inj hfirst
          exact ⟨rfl, rfl, rfl⟩

omit [Crypto] in
theorem sameCharge_trans {a b c : List CausalReceipt} (hab : List.Forall₂ SameCharge a b)
    (hbc : List.Forall₂ SameCharge b c) : List.Forall₂ SameCharge a c := by
  induction hab generalizing c with
  | nil =>
      cases hbc
      exact .nil
  | cons h _ ih =>
      cases hbc with
      | cons h' hrest =>
          exact .cons ⟨h'.txId.trans h.txId, h'.verdict.trans h.verdict,
            h'.resourceUsed.trans h.resourceUsed⟩ (ih hrest)

/-- What a producer builds from. -/
def Chain.buildParams (self : Chain) (parent : Block) (loop : GasLoop) (applied : AppliedBlock)
    (receipts : List CausalReceipt) (height : UInt64) : BlockBuildParams where
  chainId := self.chainId
  height
  parentId := parent.header.blockId
  parentTimestamp := parent.header.timestamp
  validatorId := self.localValidatorId
  version := self.blockVersion
  validatorKey := self.validatorKey
  transitions := loop.accepted
  receipts
  state := applied.state.setHeight height
  balanceRoot := applied.balances.balanceRoot
  governanceLimits := governanceLimitsSnapshotFrom self.governanceLimits
  finalityConfig := finalityConfigSnapshotFrom self.finalityConfig

/-- The receipts in the block charge what the metered ones do. -/
theorem Chain.assemble_eq_ok {self : Chain} {parent block : Block} {loop : GasLoop}
    {applied : AppliedBlock} {height wallHint : UInt64}
    (h : self.assemble parent loop applied height wallHint = .ok block) :
    ∃ receipts, List.Forall₂ SameCharge loop.receipts receipts
      ∧ block = buildBlock (self.buildParams parent loop applied receipts height) wallHint := by
  unfold assemble at h
  simp only [bind_eq_ok_iff, pure_eq_ok_iff] at h
  obtain ⟨deltas, -, receipts, hsealed, rfl⟩ := h
  refine ⟨receipts, ?_, rfl⟩
  exact sameCharge_trans (sameCharge_attachDeltas _ _) (sameCharge_sealReceipts hsealed)

/-! ## A block more -/

omit [Crypto] in
theorem saturatingAdd_one_pos (height : UInt64) : saturatingAdd height 1 > 0 := by
  rw [GT.gt, UInt64.lt_iff_toNat_lt, toNat_saturatingAdd]
  have hone : (1 : UInt64).toNat = 1 := rfl
  simp only [UInt64.toNat_zero, hone]
  omega

/-- The rates that a node starts with and never changes. -/
structure StandardRates (economics : EconomicState) : Prop where
  baseFee : economics.baseFee = ({} : EconomicState).baseFee
  alpha : economics.alpha = ({} : EconomicState).alpha

omit [Crypto] in
theorem StandardRates.effectiveFee {economics : EconomicState} (h : StandardRates economics)
    (tension budget : TensionValue) :
    economics.effectiveFee tension budget = EconomicState.effectiveFee {} tension budget := by
  simp only [EconomicState.effectiveFee, EconomicState.scaledFee, h.baseFee, h.alpha]

namespace Chain

/-- Governance of a block, on the chain with the state that the block left. -/
def governedContext (self : Chain) (state : ManagedWorldState) (block : Block) :
    GovernanceContext :=
  replayGovernanceFromTransitions applyValidatorChange (ceilingsOf state) block.body.transitions
    block.header.height { self with state }.governanceContext

/-- What import and production have in common: a block that passed the gate on
its parent, applied to state, ledger and treasury, and its governance. -/
structure Extends (chain : Chain) (parent block : Block) (applied : AppliedBlock) (next : Chain) :
    Prop where
  tip : chain.blocks.getLast? = some parent
  height : block.header.height = saturatingAdd parent.header.height 1
  chainId : block.header.chainId = chain.chainId
  version : block.header.version = chain.blockVersion
  signature : verifyProducerSignature block = .ok ()
  valid : validateCpog block chain.state parent.header.blockId = .valid
  applies : ∃ state, chain.state.validateNonces block.body.transitions = .ok state
    ∧ applyBlock state chain.balances chain.treasury block.body.transitions block.receipts
        chain.blockVersion block.header.validatorId (standardGasPrice chain.state)
        block.header.height = .ok applied
  blocks : next.blocks = chain.blocks ++ [block]
  state : next.state = governedState (applied.state.setHeight block.header.height)
    (chain.governedContext (applied.state.setHeight block.header.height) block)
  balances : next.balances = applied.balances
  treasury : next.treasury = applied.treasury
  context : next.governanceContext = { chain.governedContext
    (applied.state.setHeight block.header.height) block with mutatedParams := false }
  blockVersion : next.blockVersion = chain.blockVersion
  nextChainId : next.chainId = chain.chainId
  validatorKey : next.validatorKey = chain.validatorKey
  economics : next.economics.baseFee = chain.economics.baseFee
    ∧ next.economics.alpha = chain.economics.alpha
  slashing : next.slashing.config = chain.slashing.config
  maxSize : next.mempool.maxSize = chain.mempool.maxSize

omit [Crypto] in
theorem governedState_fields (state : ManagedWorldState) (ctx : GovernanceContext) :
    (governedState state ctx).governanceState = ctx.governanceState
      ∧ (governedState state ctx).consensusParams = ctx.consensusParams := by
  unfold governedState
  dsimp only
  split
  · rw [commitConsensusParams, ManagedWorldState.applyDelta_writes]
    exact ⟨rfl, rfl⟩
  · exact ⟨rfl, rfl⟩

theorem replayGovernanceTransitions_context (self : Chain) (transitions : List SymbolicTransition)
    (height : UInt64) :
    (self.replayGovernanceTransitions transitions height).governanceContext
      = { replayGovernanceFromTransitions applyValidatorChange (ceilingsOf self.state) transitions
          height self.governanceContext with mutatedParams := false } := by
  obtain ⟨hstate, hparams⟩ := governedState_fields self.state (replayGovernanceFromTransitions
    applyValidatorChange (ceilingsOf self.state) transitions height self.governanceContext)
  unfold replayGovernanceTransitions
  simp only [governanceContext] at hstate hparams ⊢
  rw [hstate, hparams]

/-- An imported block extends the chain. -/
theorem InMemory.extends_of_importBlock {chain next : Chain} (hmem : chain.InMemory)
    (hrates : StandardRates chain.economics)
    (hhistory : chainVersionHistoryFromTrie chain.state = [])
    (hversion : chain.blockVersion < patch05BlockVersion) {block : Block}
    (h : chain.importBlock block = (.ok (), next)) :
    ∃ parent applied, Extends chain parent block applied next := by
  obtain ⟨parent, state, applied, hparent, hok, hvalid, hnonces, happly, rfl⟩ :=
    hmem.importBlock_eq_ok_iff.mp h
  have hblock : block.header.version = chain.blockVersion := by
    have := hok.version
    unfold checkVersion at this
    rw [hhistory] at this
    by_contra hne
    simp [hne] at this
  have hrecord : recordTension block.header.version block.header.tensionAfter applied.state
      = applied.state := by
    rw [recordTension, hblock, if_neg (UInt32.not_le.mpr hversion)]
  have hprice : chain.importGasPrice = standardGasPrice chain.state := hrates.effectiveFee _ _
  rw [hprice] at happly
  refine ⟨parent, applied, hparent, hok.height, hok.chainId, hblock, hok.signature, hvalid,
    ⟨state, hnonces, happly⟩, rfl, ?_, rfl, rfl, ?_, rfl, rfl, rfl, ?_, rfl, ?_⟩
  · unfold commitImported
    rw [hrecord]
    rfl
  · unfold commitImported
    rw [hrecord]
    exact replayGovernanceTransitions_context _ _ _
  · unfold commitImported
    dsimp only [replayGovernanceTransitions]
    split <;> exact ⟨rfl, rfl⟩
  · rfl

end Chain

/-- What a signer promises: its signatures verify under its key, and the key is
one that may sign blocks. -/
structure ValidatorKey.Sound (key : ValidatorKey) : Prop where
  verifies : ∀ message, verify key.publicKey message (key.sign message) = true
  nonzero : key.publicKey ≠ zeroHash

theorem length_of_verify {publicKey : Hash} {data signature : Bytes}
    (h : verify publicKey data signature = true) : signature.length = 64 := by
  simp only [verify, signatureFromSlice] at h
  by_contra hlen
  simp [hlen] at h

/-- A block signed over its own header and proof. -/
theorem verifyProducerSignature_of_sound {key : ValidatorKey} (hkey : key.Sound) {block : Block}
    (hid : block.header.validatorId = key.publicKey)
    (hsig : block.proof.validatorSignature
      = key.sign (blockSigningPayload block.header block.proof)) :
    verifyProducerSignature block = .ok () := by
  have hverify := hkey.verifies (blockSigningPayload block.header block.proof)
  have hlength := length_of_verify hverify
  unfold verifyProducerSignature
  simp only [hsig, hid, hlength, lt_irrefl, if_false, hkey.nonzero, hverify, Bool.not_true,
    Bool.false_eq_true]

namespace Chain

/-- A produced block extends the chain, where the producer's price is that of
everybody else. -/
theorem InMemory.extends_of_produceBlock {chain next : Chain} (hmem : chain.InMemory)
    (hkey : chain.validatorKey.Sound) (hprice : chain.producerGasPrice = standardGasPrice chain.state)
    {wallHint : UInt64} {block : Block} (h : chain.produceBlock wallHint = (.ok block, next)) :
    ∃ parent applied, Extends chain parent block applied next
      ∧ block.header.tensionAfter = applied.state.tensionField.total := by
  rcases hmem.produceBlock_cases wallHint with ⟨e, mempool, herror⟩ |
    ⟨parent, applied, built, htip, hspec, hassemble, hvalid, hok⟩
  · rw [herror] at h
    cases (Prod.mk.inj h).1
  rw [hok] at h
  obtain ⟨hblock, rfl⟩ := Prod.mk.inj h
  obtain rfl := Except.ok.inj hblock
  obtain ⟨receipts, hreceipts, rfl⟩ := assemble_eq_ok hassemble
  set built := buildBlock (chain.buildParams parent chain.admission.1 applied receipts
    (saturatingAdd parent.header.height 1)) wallHint with hbuilt
  have hheight : built.header.height = saturatingAdd parent.header.height 1 := rfl
  have hpos : built.header.height > 0 := by
    rw [hheight]
    exact saturatingAdd_one_pos _
  obtain ⟨state, hnonces⟩ := (validateCpog_eq_valid_iff.mp hvalid).validateNonces hpos
  have happly : applyBlock state chain.balances chain.treasury built.body.transitions
      built.receipts chain.blockVersion built.header.validatorId (standardGasPrice chain.state)
      built.header.height = .ok applied := by
    rw [speculate, mapError_eq_ok_iff, hprice] at hspec
    rw [← hspec]
    have hclone : orKeep chain.state (chain.state.validateNonces chain.admission.1.accepted)
        = state := by
      show orKeep chain.state (chain.state.validateNonces built.body.transitions) = state
      rw [hnonces]
      rfl
    rw [hclone]
    exact applyBlock_sameCharge hreceipts _ _ _ _ _ _ _ _
  refine ⟨parent, applied, ⟨htip, hheight, rfl, rfl, ?_, hvalid, ⟨state, hnonces, happly⟩, rfl, rfl,
    rfl, rfl, ?_, rfl, rfl, rfl, ?_, rfl, ?_⟩, rfl⟩
  · exact verifyProducerSignature_of_sound hkey rfl rfl
  · exact replayGovernanceTransitions_context _ _ _
  · unfold commitProduced
    dsimp only [replayGovernanceTransitions]
    split <;> exact ⟨rfl, rfl⟩
  · rfl

end Chain

end

end Sccgub
