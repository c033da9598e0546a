import Mathlib
import Sccgub.Execution.Namespaces
import Sccgub.Node.Admission
import Sccgub.Node.Atomicity
import Sccgub.Node.SlashedFunds
import Sccgub.Runs

/-!
# What stays as it was at genesis

No operation of a node moves the tension field, the consensus parameters or an
entry under `system/`.  Blocks cannot write there; what would write there by
itself, a typed proposal or a block of the fourth version, never gets that far:
no transition submits a typed proposal, and from the third version on the gate
wants ceilings that no chain of this kind has.
-/

namespace WriteThrough

variable {K V : Type} [Ord K] [Std.TransOrd K] [Std.LawfulEqOrd K] [DecidableEq K]

/-- A map is the overlay of its own entries. -/
theorem putAll_toList (m : Std.ExtTreeMap K V) : putAll ∅ m.toList = m := by
  refine Std.ExtTreeMap.ext_getElem? fun k => ?_
  have hnodup : (m.toList.map Prod.fst).Nodup := by
    rw [Std.ExtTreeMap.map_fst_toList_eq_keys]
    exact Std.ExtTreeMap.nodup_keys
  rw [getElem?_putAll, Std.ExtTreeMap.getElem?_empty, Option.or_none]
  rcases hk : m[k]? with _ | v
  · refine lastWrite_eq_none fun w hw hkey => ?_
    have hmem := Std.ExtTreeMap.mem_toList_iff_getElem?_eq_some.mp hw
    rw [hkey, hk] at hmem
    cases hmem
  · exact lastWrite_of_mem hnodup (Std.ExtTreeMap.mem_toList_iff_getElem?_eq_some.mpr hk)

end WriteThrough

namespace Sccgub

open Bincode FixedWidth WriteThrough Fallible Runs

/-! ## Operations -/

/-- What moves a ledger, or could: the operations on blocks, a transition
submitted, a penalty, and the chain's own snapshot restored. -/
inductive LedgerOp where
  | block (op : Chain.BlockOp)
  | submit (tx : SymbolicTransition)
  | penalize (validatorId : Hash) (penalty : TensionValue)
  | restore

def Chain.settle [Crypto] (self : Chain) : LedgerOp → Chain
  | .block op => self.act op
  | .submit tx => orKeep self (self.submitTransition tx)
  | .penalize validatorId penalty => (self.executeSlashingPenalty validatorId penalty).2
  | .restore => (self.restoreInPlace self.createSnapshot).2

/-! ## The state -/

/-- The parameters and nothing else. -/
def genesisEntry (key : Bytes) : Option Bytes :=
  if key = ConsensusParams.trieKey then some (ConsensusParams.toCanonicalBytes {}) else none

section

variable [Crypto]

structure ManagedWorldState.Constant (state : ManagedWorldState) : Prop where
  durable : state.trie.durable = none
  cacheValid : state.trie.CacheValid
  tensionField : state.tensionField = {}
  consensusParams : state.consensusParams = {}
  system : ∀ key, startsWith key nsSystem = true → state.get key = genesisEntry key

omit [Crypto] in
theorem ManagedWorldState.durable_writeAll (state : ManagedWorldState) (writes : List StateWrite) :
    (state.writeAll writes).trie.durable
      = state.trie.durable.map (putAll · (state.admitted writes)) :=
  StateTrie.durable_insertAll _ _

theorem ManagedWorldState.cacheValid_writeAll {state : ManagedWorldState}
    (h : state.trie.CacheValid) (writes : List StateWrite) :
    (state.writeAll writes).trie.CacheValid := h.insertAll _

namespace ManagedWorldState.Constant

variable {state : ManagedWorldState}

/-- Writes that stay out of the namespace. -/
theorem writeAll (h : state.Constant) {writes : List StateWrite}
    (hwrites : ∀ w ∈ writes, startsWith w.address nsSystem = false) :
    (state.writeAll writes).Constant where
  durable := by rw [durable_writeAll, h.durable, Option.map_none]
  cacheValid := ManagedWorldState.cacheValid_writeAll h.cacheValid writes
  tensionField := h.tensionField
  consensusParams := h.consensusParams
  system := by
    intro key hkey
    rw [get_writeAll_of_ne, h.system key hkey]
    rintro w hw rfl
    rw [hwrites w hw] at hkey
    cases hkey

theorem validateNonces (h : state.Constant) {transitions : List SymbolicTransition}
    {state' : ManagedWorldState} (hnonces : state.validateNonces transitions = .ok state') :
    state'.Constant := by
  rw [ManagedWorldState.validateNonces_frame hnonces]
  exact ⟨h.durable, h.cacheValid, h.tensionField, h.consensusParams, h.system⟩

theorem setHeight (h : state.Constant) (height : UInt64) : (state.setHeight height).Constant :=
  ⟨h.durable, h.cacheValid, h.tensionField, h.consensusParams, h.system⟩

theorem withGovernance (h : state.Constant) (governanceState : GovernanceState) :
    ({ state with governanceState } : ManagedWorldState).Constant :=
  ⟨h.durable, h.cacheValid, h.tensionField, h.consensusParams, h.system⟩

theorem ceilings (h : state.Constant) : constitutionalCeilingsFromTrie state = .ok none := by
  unfold constitutionalCeilingsFromTrie
  rw [h.system _ (by decide), genesisEntry, if_neg (by decide)]

theorem versionHistory (h : state.Constant) : chainVersionHistoryFromTrie state = [] := by
  unfold chainVersionHistoryFromTrie
  rw [h.system _ (by decide), genesisEntry, if_neg (by decide)]

theorem tensionHistory (h : state.Constant) : tensionHistoryFromTrie state = .ok [] := by
  unfold tensionHistoryFromTrie
  rw [h.system _ (by decide), genesisEntry, if_neg (by decide)]

theorem storedParams (h : state.Constant) : consensusParamsFromTrie state = .ok (some {}) := by
  unfold consensusParamsFromTrie
  rw [h.system _ (by decide), genesisEntry, if_pos rfl]
  dsimp only
  rw [ConsensusParams.fromCanonicalBytes_toCanonicalBytes ConsensusParams.validate_default]
  rfl

/-- A write of a block is to an account, to the treasury, or a payload's. -/
theorem address_of_mem_blockWrites {balances : BalanceLedger} {treasury : Treasury}
    {transitions : List SymbolicTransition} {receipts : List CausalReceipt}
    {blockVersion : UInt32} {validatorPublicKey : Hash} {gasPrice : TensionValue}
    {height : UInt64} {w : StateWrite} (hw : w ∈ blockWrites state balances treasury transitions
      receipts blockVersion validatorPublicKey gasPrice height) :
    startsWith w.address nsBalance = true ∨ startsWith w.address nsTreasury = true
      ∨ w ∈ payloadWrites ∅ transitions := by
  unfold blockWrites at hw
  split at hw
  · cases hw
  · unfold settlementWrites at hw
    simp only [List.mem_append] at hw
    rcases hw with (((hw | hw) | hw) | hw) | hw
    · exact Or.inl (startsWith_of_mem_accountWrites hw)
    · split at hw
      · exact Or.inr (Or.inl (startsWith_of_mem_treasuryStateWrites hw))
      · cases hw
    · exact Or.inr (Or.inr hw)
    · exact Or.inl (startsWith_of_mem_accountWrites hw)
    · split at hw
      · exact Or.inr (Or.inl (startsWith_of_mem_treasuryStateWrites hw))
      · cases hw

theorem applyBlock (h : state.Constant) {balances : BalanceLedger} {treasury : Treasury}
    {transitions : List SymbolicTransition} {receipts : List CausalReceipt}
    {blockVersion : UInt32} {validatorPublicKey : Hash} {gasPrice : TensionValue}
    {height : UInt64} {applied : AppliedBlock}
    (hpayloads : ∀ w ∈ payloadWrites ∅ transitions, startsWith w.address nsSystem = false)
    (happly : Sccgub.applyBlock state balances treasury transitions receipts blockVersion
      validatorPublicKey gasPrice height = .ok applied) : applied.state.Constant := by
  rw [applyBlock_eq happly]
  refine h.writeAll fun w hw => ?_
  rcases address_of_mem_blockWrites hw with hbalance | htreasury | hpayload
  · exact startsWith_disjoint hbalance (by decide)
  · exact startsWith_disjoint htreasury (by decide)
  · exact hpayloads w hpayload

/-- The gate lets a block of the third version or a later one through only with
ceilings. -/
theorem version_lt (h : state.Constant) {block : Block} {parentId : Hash}
    (hvalid : CpogValid block state parentId) : block.header.version < patch04BlockVersion := by
  by_contra hversion
  have hpassed := hvalid.phases .architecture
  have hmissing : validateCeilingsForBlock state block.header = .ceilingsMissing := by
    unfold validateCeilingsForBlock
    rw [if_neg hversion, h.ceilings]
  simp only [executeBlockPhase, phaseArchitecture, hmissing] at hpassed
  split_ifs at hpassed

end ManagedWorldState.Constant

/-- The state behind a snapshot of a chain. -/
theorem store_restoredTrie (chain : Chain) :
    (Chain.restoredTrie chain.createSnapshot).store = chain.state.trie.store := by
  show (StateTrie.new.insertAll chain.state.trie.store.toList).store = _
  rw [StateTrie.store_insertAll]
  exact putAll_toList _

theorem get_restoredState (chain : Chain) (key : Bytes) :
    (Chain.restoredState chain.createSnapshot).get key = chain.state.get key :=
  congrArg (·[key]?) (store_restoredTrie chain)

theorem ManagedWorldState.Constant.restored {chain : Chain} (h : chain.state.Constant) :
    (Chain.restoredState chain.createSnapshot).Constant where
  durable := by
    show (StateTrie.new.insertAll _).durable = none
    rw [StateTrie.durable_insertAll]
    rfl
  cacheValid := (StateTrie.cacheValid_new.insertAll _).root
  tensionField := rfl
  consensusParams := by
    have hstored : consensusParamsFromTrie
        { trie := Chain.restoredTrie chain.createSnapshot
          governanceState := { (default : GovernanceState) with
            finalityMode := chain.createSnapshot.finalityMode } } = .ok (some {}) := by
      rw [← h.storedParams]
      unfold consensusParamsFromTrie
      rw [← get_restoredState]
      rfl
    unfold Chain.restoredState
    dsimp only
    rw [hstored]
  system key hkey := (get_restoredState chain key).trans (h.system key hkey)

/-! ## The chain -/

namespace Chain

structure Constant (chain : Chain) : Prop where
  state : chain.state.Constant
  rates : StandardRates chain.economics
  untyped : chain.proposals.Untyped

variable {self : Chain}

theorem Constant.inMemory (h : self.Constant) : self.InMemory := h.state.durable

/-- Governance of a block reaches the state of governance alone. -/
theorem governedState_of_untyped (huntyped : self.proposals.Untyped)
    (transitions : List SymbolicTransition) (height : UInt64) :
    ∃ governanceState, (self.replayGovernanceTransitions transitions height).state
        = { self.state with governanceState } := by
  have hcontext : self.governanceContext.proposals.Untyped := huntyped
  obtain ⟨-, hparams, hmutated⟩ := replayGovernance_untyped applyValidatorChange
    (ceilingsOf self.state) transitions height hcontext
  unfold replayGovernanceTransitions governedState
  dsimp only
  rw [hmutated, hparams]
  exact ⟨_, rfl⟩

theorem Constant.replayGovernance (h : self.Constant) (transitions : List SymbolicTransition)
    (height : UInt64) : (self.replayGovernanceTransitions transitions height).Constant := by
  have hcontext : self.governanceContext.proposals.Untyped := h.untyped
  obtain ⟨governanceState, hstate⟩ := governedState_of_untyped h.untyped transitions height
  refine ⟨?_, h.rates, ?_⟩
  · rw [hstate]
    exact h.state.withGovernance governanceState
  · exact (replayGovernance_untyped applyValidatorChange (ceilingsOf self.state) transitions height
      hcontext).1

/-- The state that a block leaves, before its governance. -/
theorem Constant.onState (h : self.Constant) {state : ManagedWorldState} (hstate : state.Constant) :
    ({ self with state } : Chain).Constant :=
  ⟨hstate, h.rates, h.untyped⟩

/-- Chains with the same state, rates and proposals. -/
theorem Constant.congr (h : self.Constant) {next : Chain} (hstate : next.state = self.state)
    (hproposals : next.proposals = self.proposals) (hbase : next.economics.baseFee = self.economics.baseFee)
    (halpha : next.economics.alpha = self.economics.alpha) : next.Constant where
  state := hstate ▸ h.state
  rates := ⟨hbase.trans h.rates.baseFee, halpha.trans h.rates.alpha⟩
  untyped := hproposals ▸ h.untyped

/-- An accepted block is of an early version and writes nothing under `system/`. -/
theorem Constant.payloads (h : self.Constant) {block : Block} {parentId : Hash}
    (hvalid : validateCpog block self.state parentId = .valid) :
    block.header.version < patch04BlockVersion
      ∧ ∀ w ∈ payloadWrites ∅ block.body.transitions, startsWith w.address nsSystem = false := by
  have hgate := validateCpog_eq_valid_iff.mp hvalid
  have hphases : PassPhases block.body.transitions self.state :=
    fun tx htx phase hphase => hgate.perTx htx hphase
  exact ⟨h.state.version_lt hgate, hphases.not_startsWith nsSystem (by decide)⟩

omit [Crypto] in
theorem recordTension_of_lt {version : UInt32} (h : version < patch04BlockVersion)
    (tensionAfter : TensionValue) (state : ManagedWorldState) :
    recordTension version tensionAfter state = state := by
  rw [recordTension, if_neg]
  have hle : patch04BlockVersion ≤ patch05BlockVersion := by decide
  exact UInt32.not_le.mpr (UInt32.lt_of_lt_of_le h hle)

theorem Constant.commitImported (h : self.Constant) {block : Block} {applied : AppliedBlock}
    (hversion : block.header.version < patch04BlockVersion) (happlied : applied.state.Constant) :
    (self.commitImported block applied).Constant := by
  have hgoverned := (h.onState (happlied.setHeight block.header.height)).replayGovernance
    block.body.transitions block.header.height
  unfold Chain.commitImported
  rw [recordTension_of_lt hversion]
  refine hgoverned.congr rfl rfl ?_ ?_
  · dsimp only [replayGovernanceTransitions]
    split <;> rfl
  · dsimp only [replayGovernanceTransitions]
    split <;> rfl

theorem Constant.commitProduced (h : self.Constant) {block : Block} {applied : AppliedBlock}
    (rejected : List CausalReceipt) (height : UInt64) (happlied : applied.state.Constant) :
    (self.commitProduced block applied rejected height).Constant := by
  have hgoverned := (h.onState (happlied.setHeight height)).replayGovernance
    block.body.transitions height
  unfold Chain.commitProduced
  refine hgoverned.congr rfl rfl ?_ ?_
  · dsimp only [replayGovernanceTransitions]
    split <;> rfl
  · dsimp only [replayGovernanceTransitions]
    split <;> rfl

/-! ## Operations keep it -/

theorem Constant.importBlock (h : self.Constant) (block : Block) :
    (self.importBlock block).2.Constant := by
  have hchain := h.inMemory.validateCandidateBlock block
  have hverdict := @validateCandidateBlock_eq_ok_iff _ self block
  unfold Chain.importBlock
  rcases hrun : self.validateCandidateBlock block with ⟨e | ⟨⟩, chain⟩
  · rw [hrun] at hchain
    exact hchain ▸ h
  · rw [hrun] at hchain hverdict
    obtain rfl : chain = self := hchain
    obtain ⟨parent, -, -, hvalid⟩ := hverdict.mp rfl
    obtain ⟨hversion, hpayloads⟩ := h.payloads hvalid
    dsimp only
    rcases hnonces : chain.state.validateNonces block.body.transitions with e | state
    · exact h
    · have hstate := h.state.validateNonces hnonces
      dsimp only
      split
      · exact (h.onState hstate).congr rfl rfl rfl rfl
      · rename_i applied happly
        exact h.commitImported hversion (hstate.applyBlock hpayloads happly)

theorem Constant.produceBlock (h : self.Constant) (wallHint : UInt64) :
    (self.produceBlock wallHint).2.Constant := by
  rcases h.inMemory.produceBlock_cases wallHint with ⟨e, mempool, hrun⟩ |
    ⟨parent, applied, block, -, hspec, hassemble, hvalid, hrun⟩
  · rw [hrun]
    exact h.congr rfl rfl rfl rfl
  · rw [hrun]
    obtain ⟨receipts, -, rfl⟩ := assemble_eq_ok hassemble
    obtain ⟨-, hpayloads⟩ := h.payloads hvalid
    rw [speculate, mapError_eq_ok_iff, self.validateNonces_admission] at hspec
    have hdrained : ({ self with mempool := self.admission.2 } : Chain).Constant :=
      h.congr rfl rfl rfl rfl
    have hstate := h.state.validateNonces self.validateNonces_admission
    exact hdrained.commitProduced _ _ (hstate.applyBlock hpayloads hspec)

theorem Constant.act (h : self.Constant) (op : BlockOp) : (self.act op).Constant := by
  cases op with
  | gate block parentId =>
      show (self.sharing (runCpog block self.state parentId).durable).Constant
      rw [durable_runCpog_none h.inMemory, h.inMemory.sharing_none]
      exact h
  | candidate block =>
      show (self.validateCandidateBlock block).2.Constant
      rw [h.inMemory.validateCandidateBlock]
      exact h
  | build wallHint =>
      show (self.sharing (self.produceBlock wallHint).2.state.trie.durable).Constant
      rw [(h.produceBlock wallHint).state.durable, h.inMemory.sharing_none]
      exact h
  | produce wallHint => exact h.produceBlock wallHint
  | importBlock block => exact h.importBlock block

omit [Crypto] in
/-- A penalty moves balances and treasury. -/
theorem penalty_frame (validatorId : Hash) (penalty : TensionValue) :
    ∃ balances treasury, (self.executeSlashingPenalty validatorId penalty).2
      = { self with balances, treasury } := by
  by_cases hpos : 0 < (self.cappedPenalty validatorId penalty).raw.val
  · rw [executeSlashingPenalty_of_pos hpos]
    exact ⟨_, _, rfl⟩
  · rw [executeSlashingPenalty_of_nonpos (not_lt.mp hpos)]
    exact ⟨self.balances, self.treasury, rfl⟩

omit [Crypto] in
theorem submit_frame (tx : SymbolicTransition) :
    ∃ mempool, orKeep self (self.submitTransition tx) = { self with mempool } := by
  unfold submitTransition
  rcases self.mempool.add tx with e | mempool
  · exact ⟨self.mempool, rfl⟩
  · exact ⟨mempool, rfl⟩

/-- A chain restores its own snapshot. -/
theorem Constant.restoreInPlace (h : self.Constant) :
    ∃ chain, self.restoreFromSnapshot self.createSnapshot = .ok chain
      ∧ self.restoreInPlace self.createSnapshot = (.ok (), chain) := by
  have hroot : (StateTrie.new.insertAll self.createSnapshot.trieEntries).rootReadonly
      = self.createSnapshot.stateRoot := by
    show (StateTrie.new.insertAll self.state.trie.store.toList).rootReadonly
      = self.state.trie.rootReadonly
    have hstore : (StateTrie.new.insertAll self.state.trie.store.toList).store
        = self.state.trie.store := store_restoredTrie self
    rw [(StateTrie.cacheValid_new.insertAll _).rootReadonly_eq, h.state.cacheValid.rootReadonly_eq,
      StateTrie.computeRoot, StateTrie.computeRoot, hstore]
  have hok : ∃ chain, self.restoreFromSnapshot self.createSnapshot = .ok chain := by
    unfold restoreFromSnapshot
    dsimp only
    rw [if_neg (not_not.mpr hroot)]
    exact ⟨_, rfl⟩
  obtain ⟨chain, hchain⟩ := hok
  refine ⟨chain, hchain, ?_⟩
  unfold Chain.restoreInPlace
  rw [hchain]

/-- What the restore has put in place. -/
theorem state_of_restore {snapshot : StateSnapshot} {chain : Chain}
    (h : self.restoreFromSnapshot snapshot = .ok chain) :
    chain.state = restoredState snapshot ∧ chain.blocks = self.blocks
      ∧ chain.economics = self.economics ∧ chain.balances = snapshot.ledger
      ∧ chain.treasury = orKeep snapshot.treasury (treasuryFromTrie (restoredState snapshot))
      ∧ chain.proposals = { self.proposals with proposals := snapshot.proposals } := by
  unfold restoreFromSnapshot at h
  dsimp only at h
  split at h
  · cases h
  · obtain rfl := Except.ok.inj h
    exact ⟨rfl, rfl, rfl, rfl, rfl, rfl⟩

theorem Constant.settle (h : self.Constant) (op : LedgerOp) : (self.settle op).Constant := by
  cases op with
  | block op => exact h.act op
  | submit tx =>
      obtain ⟨mempool, hnext⟩ := self.submit_frame tx
      show (orKeep self (self.submitTransition tx)).Constant
      rw [hnext]
      exact h.congr rfl rfl rfl rfl
  | penalize validatorId penalty =>
      obtain ⟨balances, treasury, hnext⟩ := self.penalty_frame validatorId penalty
      show (self.executeSlashingPenalty validatorId penalty).2.Constant
      rw [hnext]
      exact h.congr rfl rfl rfl rfl
  | restore =>
      obtain ⟨chain, hrestored, hnext⟩ := h.restoreInPlace
      show (self.restoreInPlace self.createSnapshot).2.Constant
      rw [hnext]
      obtain ⟨hstate, -, heconomics, -, -, hproposals⟩ := state_of_restore hrestored
      refine ⟨hstate ▸ h.state.restored, heconomics ▸ h.rates, ?_⟩
      rw [hproposals]
      exact h.untyped

/-! ## Genesis -/

theorem constant_initializeGenesisState (blockVersion : UInt32) (validatorPublicKey : Hash)
    (finalityMode : FinalityMode) :
    (initializeGenesisState blockVersion validatorPublicKey {} finalityMode).1.Constant := by
  have hroom : ConsensusParams.trieKey.length ≤ ({} : ConsensusParams).maxStateEntrySize.toNat
      ∧ (ConsensusParams.toCanonicalBytes {}).length
        ≤ ({} : ConsensusParams).maxStateEntrySize.toNat := by
    decide +kernel
  unfold initializeGenesisState applyGenesisMint commitConsensusParams
  dsimp only
  rw [ManagedWorldState.applyDelta_writes, ManagedWorldState.applyDelta_writes]
  refine ManagedWorldState.Constant.setHeight ?_ 0
  refine ManagedWorldState.Constant.writeAll ?_ fun w hw => ?_
  · refine ⟨?_, ManagedWorldState.cacheValid_writeAll StateTrie.cacheValid_new _, rfl, rfl,
      fun key hkey => ?_⟩
    · rw [ManagedWorldState.durable_writeAll]
      exact Option.map_none _
    · rw [genesisEntry]
      split
      · rename_i hkey
        rw [hkey]
        exact get_writeAll_singleton hroom.1 hroom.2
      · rename_i hne
        rw [get_writeAll_of_ne]
        · rfl
        · intro w hw heq
          obtain rfl := List.mem_singleton.mp hw
          exact hne heq.symm
  · obtain rfl := List.mem_singleton.mp hw
    exact startsWith_disjoint (startsWith_balanceKey _) (by decide)

theorem constant_init (blockVersion : UInt32) (finalityMode : FinalityMode)
    (validatorKey : ValidatorKey) : (init blockVersion finalityMode validatorKey).Constant where
  state := constant_initializeGenesisState blockVersion validatorKey.publicKey finalityMode
  rates := ⟨rfl, rfl⟩
  untyped := fun _ hkind => absurd hkind List.not_mem_nil

/-! ## What nothing changes -/

theorem constant_run (blockVersion : UInt32) (finalityMode : FinalityMode)
    (validatorKey : ValidatorKey) (ops : List LedgerOp) :
    Throughout settle Constant (init blockVersion finalityMode validatorKey) ops :=
  throughout_of_step (fun _ op hconstant => hconstant.settle op)
    (constant_init blockVersion finalityMode validatorKey)

/-- The parameters, the entries under `system/`, and what blocks there can be. -/
structure Frozen (chain : Chain) : Prop where
  params : chain.state.consensusParams = {}
  system : ∀ key, startsWith key nsSystem = true → chain.state.get key = genesisEntry key
  imported : ∀ {block : Block}, (chain.validateCandidateBlock block).1 = .ok () →
    block.header.version < patch04BlockVersion
  produced : ∀ {wallHint : UInt64} {block : Block},
    (chain.produceBlock wallHint).1 = .ok block → chain.blockVersion < patch04BlockVersion

/-- No operation reaches the consensus parameters or the system entries, so a chain
of the third version or a later one never gets a second block. -/
theorem frozen_of_run (blockVersion : UInt32) (finalityMode : FinalityMode)
    (validatorKey : ValidatorKey) (ops : List LedgerOp) :
    Throughout settle Frozen (init blockVersion finalityMode validatorKey) ops := by
  refine (constant_run blockVersion finalityMode validatorKey ops).mono fun chain h => ?_
  refine ⟨h.state.consensusParams, h.state.system, fun {block} haccepted => ?_,
    fun {wallHint block} hrun => ?_⟩
  · obtain ⟨parent, -, -, hvalid⟩ := validateCandidateBlock_eq_ok_iff.mp haccepted
    exact (h.payloads hvalid).1
  · rcases h.inMemory.produceBlock_cases wallHint with ⟨e, mempool, herror⟩ |
      ⟨parent, applied, built, -, -, hassemble, hvalid, hproduced⟩
    · rw [herror] at hrun
      cases hrun
    · obtain ⟨receipts, -, rfl⟩ := assemble_eq_ok hassemble
      exact (h.payloads hvalid).1

end Chain

end

end Sccgub
