import Mathlib
import Sccgub.Node.Constants
import Sccgub.Node.FairOrder

/-!
# The ledger in memory and in the trie

Balances and treasury are kept twice.  Import and production go by memory, the
gate reads both back from the trie.  Blocks move the two together as long as no
payload writes to the treasury; a penalty moves memory alone.

The price of gas is computed four times, and everybody arrives at the same
number as long as every header leaves the tension as it was: the producer takes
it from the header of the tip, the others from the state.

`LedgerInTrie` is the agreement of the two books and `Booked` that of the prices on
top of it.  A block keeps the first (`LedgerInTrie.applyBlock`), an operation the
second (`Booked.step`), and `Booked.throughout` has it for runs.
-/

namespace Sccgub

open Bincode FixedWidth WriteThrough Fallible Runs

/-! ## A block on both -/

/-- The payload is not a write to a treasury counter. -/
def SymbolicTransition.sparesTreasury (tx : SymbolicTransition) : Bool :=
  match tx.payload with
  | .write key _ => !startsWith key nsTreasury
  | _ => true

theorem payloads_spare_treasury {transitions : List SymbolicTransition}
    (h : ∀ tx ∈ transitions, tx.sparesTreasury = true) :
    ∀ w ∈ payloadWrites ∅ transitions, startsWith w.address nsTreasury = false := by
  intro w hw
  obtain ⟨tx, htx, hpayload⟩ := mem_payloadWrites hw
  have hspares := h tx htx
  rw [SymbolicTransition.sparesTreasury, hpayload] at hspares
  simpa using hspares

section

variable [Crypto]

/-- Ledger and treasury are the ones of the trie. -/
structure LedgerInTrie (state : ManagedWorldState) (balances : BalanceLedger)
    (treasury : Treasury) : Prop where
  balances : balancesFromTrie state = .ok balances
  treasury : treasuryFromTrie state = .ok treasury

omit [Crypto] in
theorem params_applyBlockTransitions (state : ManagedWorldState) (balances : BalanceLedger)
    (transitions : List SymbolicTransition) :
    (applyBlockTransitions state balances transitions).1.consensusParams
      = state.consensusParams := by
  rw [← state.writeAll_nil, applyBlockTransitions_writeAll]
  rfl

theorem params_applyBlockEconomics {state paid : ManagedWorldState} {balances : BalanceLedger}
    {treasury : Treasury} {transitions : List SymbolicTransition} {receipts : List CausalReceipt}
    {blockVersion : UInt32} {validatorPublicKey : Hash} {gasPrice requestedReward : TensionValue}
    {settled : Settlement}
    (h : applyBlockEconomics state balances treasury transitions receipts blockVersion
      validatorPublicKey gasPrice requestedReward = .ok (paid, settled)) :
    paid.consensusParams = state.consensusParams := by
  unfold applyBlockEconomics at h
  obtain ⟨charged, -, hsettled⟩ := bind_eq_ok_iff.mp h
  obtain ⟨rfl, -⟩ := Prod.mk.inj (Except.ok.inj hsettled)
  rw [commitSettlement_eq]
  rfl

omit [Crypto] in
theorem LedgerInTrie.treasuryWrites {state : ManagedWorldState} {balances : BalanceLedger}
    {treasury : Treasury} (h : LedgerInTrie state balances treasury)
    (hlimit : balanceKeyLength ≤ state.consensusParams.maxStateEntrySize.toNat)
    (next : Treasury) : LedgerInTrie (commitTreasuryState state next) balances next := by
  rw [commitTreasuryState, ManagedWorldState.applyDelta_writes]
  exact ⟨balancesFromTrie_treasuryStateWrites h.balances _,
    treasuryFromTrie_treasuryStateWrites hlimit h.treasury⟩

theorem LedgerInTrie.applyBlock {state : ManagedWorldState} {balances : BalanceLedger}
    {treasury : Treasury} {transitions : List SymbolicTransition} {receipts : List CausalReceipt}
    {blockVersion : UInt32} {validatorPublicKey : Hash} {gasPrice : TensionValue}
    {height : UInt64} {applied : AppliedBlock} (h : LedgerInTrie state balances treasury)
    (hlimit : balanceKeyLength ≤ state.consensusParams.maxStateEntrySize.toNat)
    (hbalance : ∀ w ∈ payloadWrites ∅ transitions, startsWith w.address nsBalance = false)
    (htreasury : ∀ w ∈ payloadWrites ∅ transitions, startsWith w.address nsTreasury = false)
    (happly : Sccgub.applyBlock state balances treasury transitions receipts blockVersion
      validatorPublicKey gasPrice height = .ok applied) :
    LedgerInTrie applied.state applied.balances applied.treasury := by
  unfold Sccgub.applyBlock at happly
  obtain ⟨⟨paid, settled⟩, heconomics, happly⟩ := bind_eq_ok_iff.mp happly
  obtain ⟨hb, ht⟩ := coherent_applyBlockEconomics hlimit h.balances h.treasury heconomics
  rw [← params_applyBlockEconomics heconomics] at hlimit
  have hafter : LedgerInTrie (applyBlockTransitions paid settled.balances transitions).1
      (applyBlockTransitions paid settled.balances transitions).2.1 settled.treasury :=
    ⟨balancesFromTrie_applyBlockTransitions hlimit hb hbalance,
      treasuryFromTrie_applyBlockTransitions ht htreasury⟩
  have hparams := params_applyBlockTransitions paid settled.balances transitions
  dsimp only at happly
  generalize applyBlockTransitions paid settled.balances transitions = run
    at hafter hparams happly
  rw [← hparams] at hlimit
  split at happly
  · obtain rfl := Except.ok.inj happly
    exact hafter.treasuryWrites hlimit _
  · obtain rfl := Except.ok.inj happly
    exact hafter

omit [Crypto] in
/-- Nothing but the entries is read. -/
theorem LedgerInTrie.congr {state state' : ManagedWorldState} {balances : BalanceLedger}
    {treasury : Treasury} (h : LedgerInTrie state balances treasury)
    (hstore : state'.trie.store = state.trie.store) : LedgerInTrie state' balances treasury := by
  have hbalances : balancesFromTrie state' = balancesFromTrie state := by
    rw [balancesFromTrie, hstore, balancesFromTrie]
  have htreasury : treasuryFromTrie state' = treasuryFromTrie state := by
    rw [treasuryFromTrie, hstore, treasuryFromTrie]
  exact ⟨hbalances ▸ h.balances, htreasury ▸ h.treasury⟩

/-! ## Genesis -/

omit [Crypto] in
theorem accountWrites_singleton (balances : BalanceLedger) (account : Hash) :
    accountWrites balances ((∅ : HashSet).insert account)
      = [⟨balanceKey account, encodeTension (balances.balanceOf account)⟩] := by
  have hlength : ((∅ : HashSet).insert account).toList.length = 1 := by
    rw [Std.ExtTreeSet.length_toList, Std.ExtTreeSet.size_insert,
      if_neg (by simp)]
    rfl
  obtain ⟨other, hother⟩ := List.length_eq_one_iff.mp hlength
  have hmem : account ∈ ((∅ : HashSet).insert account).toList :=
    Std.ExtTreeSet.mem_toList.mpr Std.ExtTreeSet.mem_insert_self
  rw [hother, List.mem_singleton] at hmem
  rw [accountWrites, hother, hmem]
  rfl

omit [Crypto] in
theorem LedgerInTrie.setHeight {state : ManagedWorldState} {balances : BalanceLedger}
    {treasury : Treasury} (h : LedgerInTrie state balances treasury) (height : UInt64) :
    LedgerInTrie (state.setHeight height) balances treasury := h.congr rfl

omit [Crypto] in
theorem inTrie_commitConsensusParams {state : ManagedWorldState}
    (h : LedgerInTrie state {} {}) : LedgerInTrie (commitConsensusParams state) {} {} := by
  have hsystem : startsWith ConsensusParams.trieKey nsSystem = true := by decide
  unfold commitConsensusParams
  rw [ManagedWorldState.applyDelta_writes]
  refine ⟨balancesFromTrie_congr (fun key hkey => ?_) h.balances,
    treasuryFromTrie_congr (fun key hkey => ?_) h.treasury⟩
  · refine get_writeAll_of_ne fun w hw => ?_
    obtain rfl := List.mem_singleton.mp hw
    exact ne_of_startsWith hsystem hkey (by decide)
  · refine get_writeAll_of_ne fun w hw => ?_
    obtain rfl := List.mem_singleton.mp hw
    exact ne_of_startsWith hsystem hkey (by decide)

omit [Crypto] in
/-- The mint is in the ledger and in the trie. -/
theorem inTrie_applyGenesisMint {state : ManagedWorldState} (h : LedgerInTrie state {} {})
    (hlimit : balanceKeyLength ≤ state.consensusParams.maxStateEntrySize.toNat) (account : Hash) :
    LedgerInTrie (applyGenesisMint state {} account).1 (applyGenesisMint state {} account).2 {} := by
  have hminted : BalanceLedger.credit {} account (.fromInteger 1000000)
      = BalanceLedger.importBalance {} account (.fromInteger 1000000) := by
    have hzero : BalanceLedger.balanceOf {} account = .zero := by simp [BalanceLedger.balanceOf]
    rw [BalanceLedger.credit, hzero]
    exact congrArg (BalanceLedger.importBalance {} _) (by decide +kernel)
  have hwrites : [⟨balanceKey account, leBytes 16 (TensionValue.fromInteger 1000000).raw.toBits⟩]
      = accountWrites (BalanceLedger.importBalance {} account (.fromInteger 1000000))
        ((∅ : HashSet).insert account) := by
    rw [accountWrites_singleton, BalanceLedger.balanceOf_importBalance, if_pos rfl]
    rfl
  unfold applyGenesisMint
  dsimp only
  rw [ManagedWorldState.applyDelta_writes, hminted, hwrites]
  exact ⟨balancesFromTrie_accountWrites hlimit h.balances
    ((Covers.refl {}).importBalance account _), treasuryFromTrie_accountWrites h.treasury _ _⟩

theorem inTrie_initializeGenesisState (blockVersion : UInt32) (validatorPublicKey : Hash)
    (finalityMode : FinalityMode) :
    LedgerInTrie (initializeGenesisState blockVersion validatorPublicKey {} finalityMode).1
      (initializeGenesisState blockVersion validatorPublicKey {} finalityMode).2 {} := by
  have hempty : LedgerInTrie {} {} {} := ⟨by decide +kernel, by decide +kernel⟩
  have hparams : LedgerInTrie (commitConsensusParams { ManagedWorldState.withConsensusParams {} with
      governanceState := { (default : GovernanceState) with finalityMode } }) {} {} :=
    inTrie_commitConsensusParams (hempty.congr rfl)
  have hlimit : balanceKeyLength ≤ ({} : ConsensusParams).maxStateEntrySize.toNat := by decide
  exact (inTrie_applyGenesisMint hparams hlimit
    (validatorSpendAccount blockVersion validatorPublicKey)).setHeight 0

namespace Chain

variable {self : Chain}

/-! ## One price -/

theorem replayGasPrice_eq {state : ManagedWorldState} (h : state.Constant) (version : UInt32) :
    replayGasPrice state version = .ok (standardGasPrice state) := by
  have hbudget : ¬ (TensionField.currentBudget {}).raw.val ≤ 0 := by decide
  have hstill : EconomicState.effectiveFee {} .zero (TensionField.currentBudget {})
      = ({} : EconomicState).baseFee := by
    decide +kernel
  unfold replayGasPrice standardGasPrice
  dsimp only
  rw [h.tensionHistory, h.ceilings, h.tensionField]
  split
  · -- without samples the base fee is charged
    show Except.ok (EconomicState.effectiveFeeMedian {} [] _ _) = _
    rw [EconomicState.effectiveFeeMedian, if_neg hbudget, List.isEmpty_nil, if_pos rfl]
    exact congrArg Except.ok hstill.symm
  · rfl

theorem Constant.importGasPrice (h : self.Constant) :
    self.importGasPrice = standardGasPrice self.state := h.rates.effectiveFee _ _

/-! ## Chains with their books in the trie -/

/-- Production gets as far as the gate with this block. -/
structure Assembles (chain : Chain) (wallHint : UInt64) (parent block : Block)
    (applied : AppliedBlock) : Prop where
  tip : chain.blocks.getLast? = some parent
  speculate : chain.speculate chain.admission.1 (saturatingAdd parent.header.height 1) = .ok applied
  assemble : chain.assemble parent chain.admission.1 applied
    (saturatingAdd parent.header.height 1) wallHint = .ok block

structure Booked (chain : Chain) : Prop extends Constant chain where
  inTrie : LedgerInTrie chain.state chain.balances chain.treasury
  tip : ∀ parent, chain.blocks.getLast? = some parent → parent.header.tensionAfter = .zero

theorem Booked.producerGasPrice (h : self.Booked) :
    self.producerGasPrice = standardGasPrice self.state := by
  have htip : (self.blocks.getLast?.map (·.header.tensionAfter)).getD .zero = TensionValue.zero := by
    rcases hlast : self.blocks.getLast? with _ | parent
    · rfl
    · exact h.tip parent hlast
  rw [Chain.producerGasPrice, htip, h.rates.effectiveFee, standardGasPrice, h.state.tensionField]

/-- The gate replays a block from the ledger and the treasury in memory. -/
theorem Booked.replayBlock (h : self.Booked) {block : Block} {state : ManagedWorldState}
    (hnonces : self.state.validateNonces block.body.transitions = .ok state) :
    Sccgub.replayBlock block self.state = during "Economics replay failed"
      (applyBlock state self.balances self.treasury block.body.transitions block.receipts
        block.header.version block.header.validatorId (standardGasPrice self.state)
        block.header.height) := by
  have hinputs : replayInputs block self.state = .ok
      ⟨state, self.balances, self.treasury, standardGasPrice self.state⟩ := by
    unfold replayInputs during
    rw [h.inTrie.balances, h.inTrie.treasury, hnonces, replayGasPrice_eq h.state]
    rfl
  unfold Sccgub.replayBlock
  rw [hinputs]
  rfl

theorem tensionField_applyBlock {state : ManagedWorldState} {balances : BalanceLedger}
    {treasury : Treasury} {transitions : List SymbolicTransition} {receipts : List CausalReceipt}
    {blockVersion : UInt32} {validatorPublicKey : Hash} {gasPrice : TensionValue}
    {height : UInt64} {applied : AppliedBlock}
    (h : applyBlock state balances treasury transitions receipts blockVersion validatorPublicKey
      gasPrice height = .ok applied) : applied.state.tensionField = state.tensionField := by
  rw [applyBlock_eq h]
  rfl

/-- A block that production has assembled says what the gate finds. -/
theorem Booked.replayMatches (h : self.Booked) {wallHint : UInt64} {parent block : Block}
    {applied : AppliedBlock} (ha : self.Assembles wallHint parent block applied) :
    ReplayMatches block self.state applied := by
  obtain ⟨receipts, hreceipts, rfl⟩ := assemble_eq_ok ha.assemble
  have hnonces := self.validateNonces_admission
  have hspec := ha.speculate
  rw [speculate, mapError_eq_ok_iff, hnonces, h.producerGasPrice] at hspec
  refine ⟨?_, ?_, rfl, rfl⟩
  · rw [h.replayBlock hnonces, during, mapError_eq_ok_iff, ← hspec]
    exact applyBlock_sameCharge hreceipts _ _ _ _ _ _ _ _
  · show applied.state.tensionField.total = _
    rw [tensionField_applyBlock hspec, orKeep, ManagedWorldState.validateNonces_frame hnonces]

/-- An import either leaves the chain as it was, or commits what the gate has
replayed. -/
theorem Booked.importBlock_cases (h : self.Booked) (block : Block) :
    (∃ e, self.importBlock block = (.error e, self))
      ∨ ∃ parent applied, self.blocks.getLast? = some parent
        ∧ validateCpog block self.state parent.header.blockId = .valid
        ∧ ReplayMatches block self.state applied
        ∧ (∃ state, self.state.validateNonces block.body.transitions = .ok state
          ∧ applyBlock state self.balances self.treasury block.body.transitions block.receipts
              block.header.version block.header.validatorId (standardGasPrice self.state)
              block.header.height = .ok applied)
        ∧ self.importBlock block = (.ok (), self.commitImported block applied) := by
  by_cases haccepted : (self.validateCandidateBlock block).1 = .ok ()
  · obtain ⟨parent, htip, hok, hvalid⟩ := validateCandidateBlock_eq_ok_iff.mp haccepted
    have hpos : block.header.height > 0 := by
      rw [hok.height]
      exact saturatingAdd_one_pos _
    have hgate := validateCpog_eq_valid_iff.mp hvalid
    obtain ⟨applied, hmatches⟩ := hgate.replay hpos
    obtain ⟨state, hnonces⟩ := hgate.validateNonces hpos
    have happly := hmatches.replay
    rw [h.replayBlock hnonces, during, mapError_eq_ok_iff] at happly
    have hversion : block.header.version = self.blockVersion := by
      have hchecked := hok.version
      unfold checkVersion at hchecked
      rw [h.state.versionHistory] at hchecked
      by_contra hne
      simp [hne] at hchecked
    refine Or.inr ⟨parent, applied, htip, hvalid, hmatches, ⟨state, hnonces, happly⟩, ?_⟩
    refine h.inMemory.importBlock_eq_ok_iff.mpr ⟨parent, state, applied, htip, hok, hvalid, hnonces,
      ?_, rfl⟩
    rw [h.importGasPrice, ← hversion]
    exact happly
  · left
    have hchain := h.inMemory.validateCandidateBlock block
    unfold Chain.importBlock
    rcases hrun : self.validateCandidateBlock block with ⟨e | ⟨⟩, chain⟩
    · rw [hrun] at hchain
      exact ⟨e, by rw [← show chain = self from hchain]⟩
    · rw [hrun] at haccepted
      exact absurd rfl haccepted

/-! ## Keeping the books -/

omit [Crypto] in
/-- A snapshot has the ledger whole. -/
theorem ledger_createSnapshot (ledger : BalanceLedger) :
    (ledger.balances.toList.map fun (agentId, balance) => (agentId, balance.raw)).foldl
      (fun ledger (agentId, raw) => ledger.importBalance agentId ⟨raw⟩) {} = ledger := by
  have hput : ∀ (entries : List (Hash × TensionValue)) (start : BalanceLedger),
      entries.foldl (fun ledger entry => ledger.importBalance entry.1 ⟨entry.2.raw⟩) start
        = ⟨putAll start.balances entries⟩ := by
    intro entries
    induction entries with
    | nil => exact fun _ => rfl
    | cons entry rest ih =>
        intro start
        rw [List.foldl_cons, ih]
        rfl
  rw [List.foldl_map, hput]
  exact congrArg BalanceLedger.mk (putAll_toList _)

/-- The transitions that make it into a block have been waiting. -/
theorem accepted_meterAll_subset {blockVersion : UInt32} {stateRoot : Hash}
    {gasPrice : TensionValue} {acc : GasLoop} {pending : List SymbolicTransition}
    (transitions : List SymbolicTransition) (hpending : transitions ⊆ pending)
    (hacc : acc.accepted ⊆ pending) :
    (meterAll blockVersion stateRoot gasPrice acc transitions).accepted ⊆ pending := by
  induction transitions generalizing acc with
  | nil => exact hacc
  | cons tx rest ih =>
      obtain ⟨htx, hrest⟩ := List.cons_subset.mp hpending
      rw [meterAll]
      rcases hone : meterOne blockVersion stateRoot gasPrice acc tx with _ | next
      · exact hacc
      · refine ih hrest ?_
        cases metered_of_meterOne hone with
        | rejected receipt txId verdict state accepted receipts rejected =>
            rw [accepted]
            exact hacc
        | accepted receipt txId nonce accepted receipts rejected =>
            rw [accepted]
            exact List.append_subset.mpr ⟨hacc, List.cons_subset.mpr ⟨htx, List.nil_subset _⟩⟩

theorem accepted_admission_subset (self : Chain) :
    self.admission.1.accepted ⊆ self.mempool.pending :=
  accepted_meterAll_subset _ (self.mempool.drainValidated_subset self.state) (List.nil_subset _)

/-- Nothing is written to a treasury counter, no block moves the tension, and no
penalty takes anything. -/
def KeepsBooks (self : Chain) : LedgerOp → Prop
  | .block (.produce _) => ∀ tx ∈ self.mempool.pending, tx.sparesTreasury = true
  | .block (.importBlock block) =>
      (∀ tx ∈ block.body.transitions, tx.sparesTreasury = true)
        ∧ block.header.tensionAfter = block.header.tensionBefore
  | .penalize validatorId penalty =>
      penalty.raw.val ≤ 0 ∨ (self.balances.balanceOf validatorId).raw.val ≤ 0
  | _ => True

instance decidableKeepsBooks (self : Chain) : (op : LedgerOp) → Decidable (self.KeepsBooks op)
  | .block (.produce _) =>
      inferInstanceAs (Decidable (∀ tx ∈ self.mempool.pending, tx.sparesTreasury = true))
  | .block (.importBlock block) =>
      inferInstanceAs (Decidable ((∀ tx ∈ block.body.transitions, tx.sparesTreasury = true)
        ∧ block.header.tensionAfter = block.header.tensionBefore))
  | .penalize validatorId penalty =>
      inferInstanceAs (Decidable (penalty.raw.val ≤ 0
        ∨ (self.balances.balanceOf validatorId).raw.val ≤ 0))
  | .block (.gate _ _) => .isTrue trivial
  | .block (.candidate _) => .isTrue trivial
  | .block (.build _) => .isTrue trivial
  | .submit _ => .isTrue trivial
  | .restore => .isTrue trivial

/-- The books after a block whose transitions went past the gate. -/
theorem Booked.inTrie_applyBlock (h : self.Booked) {block : Block} {parentId : Hash}
    (hvalid : validateCpog block self.state parentId = .valid)
    (hspares : ∀ tx ∈ block.body.transitions, tx.sparesTreasury = true)
    {state : ManagedWorldState}
    (hnonces : self.state.validateNonces block.body.transitions = .ok state)
    {receipts : List CausalReceipt} {blockVersion : UInt32} {validatorId : Hash}
    {gasPrice : TensionValue} {height : UInt64} {applied : AppliedBlock}
    (happly : applyBlock state self.balances self.treasury block.body.transitions receipts
      blockVersion validatorId gasPrice height = .ok applied) :
    LedgerInTrie applied.state applied.balances applied.treasury := by
  have hphases : PassPhases block.body.transitions self.state :=
    fun tx htx phase hphase => (validateCpog_eq_valid_iff.mp hvalid).perTx htx hphase
  have hstate := h.state.validateNonces hnonces
  have hin : LedgerInTrie state self.balances self.treasury := by
    refine h.inTrie.congr ?_
    rw [ManagedWorldState.validateNonces_frame hnonces]
  refine hin.applyBlock ?_ (hphases.not_startsWith nsBalance (by decide))
    (payloads_spare_treasury hspares) happly
  rw [hstate.consensusParams]
  decide

/-- The governance of a block leaves the entries alone. -/
theorem Constant.inTrie_governed (h : self.Constant) {balances : BalanceLedger}
    {treasury : Treasury} (hin : LedgerInTrie self.state balances treasury)
    (transitions : List SymbolicTransition) (height : UInt64) :
    LedgerInTrie (self.replayGovernanceTransitions transitions height).state balances treasury := by
  obtain ⟨governanceState, hstate⟩ := governedState_of_untyped h.untyped transitions height
  refine hin.congr ?_
  rw [hstate]

theorem Booked.importBlock (h : self.Booked) {block : Block}
    (hkeeps : self.KeepsBooks (.block (.importBlock block))) :
    (self.importBlock block).2.Booked := by
  obtain ⟨hspares, hstill⟩ := hkeeps
  have hconstant := h.toConstant.importBlock block
  rcases h.importBlock_cases block with ⟨e, hrun⟩ |
    ⟨parent, applied, -, hvalid, hmatches, ⟨state, hnonces, happly⟩, hrun⟩
  · rw [hrun]
    exact h
  · rw [hrun] at hconstant ⊢
    obtain ⟨hversion, hpayloads⟩ := h.payloads hvalid
    have happlied := (h.state.validateNonces hnonces).applyBlock hpayloads happly
    have hin := h.inTrie_applyBlock hvalid hspares hnonces happly
    refine ⟨hconstant, ?_, ?_⟩
    · have hset := (h.onState (happlied.setHeight block.header.height)).inTrie_governed
        (hin.congr rfl) block.body.transitions block.header.height
      unfold Chain.commitImported
      rw [recordTension_of_lt hversion]
      exact hset.congr rfl
    · intro last hlast
      have hblocks : (self.commitImported block applied).blocks = self.blocks ++ [block] := rfl
      rw [hblocks, List.getLast?_concat] at hlast
      obtain rfl := Option.some.inj hlast
      rw [hstill, hmatches.tensionBefore, h.state.tensionField]

theorem Booked.produceBlock (h : self.Booked) {wallHint : UInt64}
    (hspares : ∀ tx ∈ self.mempool.pending, tx.sparesTreasury = true) :
    (self.produceBlock wallHint).2.Booked := by
  have hconstant := h.toConstant.produceBlock wallHint
  rcases h.inMemory.produceBlock_cases wallHint with ⟨e, mempool, hrun⟩ |
    ⟨parent, applied, block, -, hspec, hassemble, hvalid, hrun⟩
  · rw [hrun] at hconstant ⊢
    exact ⟨hconstant, h.inTrie, h.tip⟩
  · rw [hrun] at hconstant ⊢
    obtain ⟨receipts, -, rfl⟩ := assemble_eq_ok hassemble
    have hnonces := self.validateNonces_admission
    rw [speculate, mapError_eq_ok_iff, hnonces] at hspec
    obtain ⟨-, hpayloads⟩ := h.payloads hvalid
    have happlied := (h.state.validateNonces hnonces).applyBlock hpayloads hspec
    have hin := h.inTrie_applyBlock hvalid
      (fun tx htx => hspares tx (self.accepted_admission_subset htx)) hnonces hspec
    refine ⟨hconstant, ?_, ?_⟩
    · have hset := (h.onState (happlied.setHeight
        (saturatingAdd parent.header.height 1))).inTrie_governed (hin.congr rfl)
        self.admission.1.accepted (saturatingAdd parent.header.height 1)
      exact hset.congr rfl
    · intro last hlast
      have hblocks : (({ self with mempool := self.admission.2 } : Chain).commitProduced
          (buildBlock (self.buildParams parent self.admission.1 applied receipts
            (saturatingAdd parent.header.height 1)) wallHint) applied self.admission.1.rejected
          (saturatingAdd parent.header.height 1)).blocks = self.blocks ++ [buildBlock
            (self.buildParams parent self.admission.1 applied receipts
              (saturatingAdd parent.header.height 1)) wallHint] := rfl
      rw [hblocks, List.getLast?_concat] at hlast
      obtain rfl := Option.some.inj hlast
      show applied.state.tensionField.total = _
      rw [happlied.tensionField]

theorem Booked.restore (h : self.Booked) :
    (self.restoreInPlace self.createSnapshot).2.Booked := by
  have hconstant : (self.restoreInPlace self.createSnapshot).2.Constant := h.settle .restore
  obtain ⟨chain, hrestored, hnext⟩ := h.toConstant.restoreInPlace
  rw [hnext] at hconstant ⊢
  obtain ⟨hstate, hblocks, -, hbalances, htreasury, -⟩ := state_of_restore hrestored
  have hin : LedgerInTrie (restoredState self.createSnapshot) self.balances self.treasury :=
    h.inTrie.congr (store_restoredTrie self)
  refine ⟨hconstant, ?_, ?_⟩
  · rw [hstate, hbalances, htreasury, hin.treasury]
    exact ⟨hin.balances.trans (congrArg _ (ledger_createSnapshot self.balances).symm), hin.treasury⟩
  · rw [hblocks]
    exact h.tip

theorem Booked.step (h : self.Booked) {op : LedgerOp} (hkeeps : self.KeepsBooks op) :
    (self.settle op).Booked := by
  have hconstant := h.toConstant.settle op
  cases op with
  | block op =>
      cases op with
      | gate block parentId =>
          show (self.sharing (runCpog block self.state parentId).durable).Booked
          rw [durable_runCpog_none h.inMemory, h.inMemory.sharing_none]
          exact h
      | candidate block =>
          show (self.validateCandidateBlock block).2.Booked
          rw [h.inMemory.validateCandidateBlock]
          exact h
      | build wallHint =>
          show (self.sharing (self.produceBlock wallHint).2.state.trie.durable).Booked
          rw [(h.toConstant.produceBlock wallHint).state.durable, h.inMemory.sharing_none]
          exact h
      | produce wallHint => exact h.produceBlock hkeeps
      | importBlock block => exact h.importBlock hkeeps
  | submit tx =>
      obtain ⟨mempool, hnext⟩ := self.submit_frame tx
      have hsettled : self.settle (.submit tx) = { self with mempool } := hnext
      rw [hsettled] at hconstant ⊢
      exact ⟨hconstant, h.inTrie, h.tip⟩
  | penalize validatorId penalty =>
      have hnothing : (self.cappedPenalty validatorId penalty).raw.val ≤ 0 := by
        rw [val_cappedPenalty]
        exact min_le_iff.mpr hkeeps
      show (self.executeSlashingPenalty validatorId penalty).2.Booked
      rw [executeSlashingPenalty_of_nonpos hnothing]
      exact h
  | restore => exact h.restore

theorem booked_init (blockVersion : UInt32) (finalityMode : FinalityMode)
    (validatorKey : ValidatorKey) : (init blockVersion finalityMode validatorKey).Booked where
  toConstant := constant_init blockVersion finalityMode validatorKey
  inTrie := inTrie_initializeGenesisState blockVersion validatorKey.publicKey finalityMode
  tip := by
    intro parent hparent
    obtain rfl := Option.some.inj hparent
    rfl

/-! ## What it comes to -/

/-- Ledger and treasury are the ones of the trie, and so the gate finds for every
block that production assembles what production has found. -/
structure AgreesWithTrie (chain : Chain) : Prop where
  books : LedgerInTrie chain.state chain.balances chain.treasury
  assembled : ∀ {wallHint : UInt64} {parent block : Block} {applied : AppliedBlock},
    chain.Assembles wallHint parent block applied → ReplayMatches block chain.state applied
  passes : ∀ {wallHint : UInt64} {parent block : Block}, chain.blocks.getLast? = some parent →
    (chain.produceBlock wallHint).1 = .ok block →
      validateCpog block chain.state parent.header.blockId = .valid

/-- The gate, import and production price gas alike, and nobody's balances are
other than the block says. -/
structure PricesAgree (chain : Chain) : Prop where
  accepted : ∀ {block : Block}, (chain.validateCandidateBlock block).1 = .ok () →
    replayGasPrice chain.state block.header.version = .ok chain.importGasPrice
  imported : ∀ {block : Block}, (chain.importBlock block).1 = .ok () →
    (chain.importBlock block).2.balances.balanceRoot = block.header.balanceRoot
  producer : replayGasPrice chain.state chain.blockVersion = .ok chain.producerGasPrice
  assembled : ∀ {wallHint : UInt64} {parent block : Block} {applied : AppliedBlock},
    chain.Assembles wallHint parent block applied → ReplayMatches block chain.state applied

theorem Booked.agreesWithTrie (h : self.Booked) : self.AgreesWithTrie where
  books := h.inTrie
  assembled := h.replayMatches
  passes := by
    intro wallHint parent block htip hproduced
    rcases h.inMemory.produceBlock_cases wallHint with ⟨e, mempool, hrun⟩ |
      ⟨parent', applied, built, htip', -, -, hvalid, hrun⟩
    · rw [hrun] at hproduced
      cases hproduced
    · rw [hrun] at hproduced
      obtain rfl := Except.ok.inj hproduced
      rw [htip] at htip'
      exact Option.some.inj htip' ▸ hvalid

theorem Booked.pricesAgree (h : self.Booked) : self.PricesAgree where
  accepted := by
    intro block _
    rw [replayGasPrice_eq h.state, h.importGasPrice]
  imported := by
    intro block himported
    rcases h.importBlock_cases block with ⟨e, hrun⟩ | ⟨parent, applied, -, -, hmatches, -, hrun⟩
    · rw [hrun] at himported
      cases himported
    · rw [hrun]
      exact hmatches.balanceRoot.symm
  producer := by rw [replayGasPrice_eq h.state, h.producerGasPrice]
  assembled := h.replayMatches

theorem Booked.throughout {ops : List LedgerOp} (h : self.Booked)
    (hkeeps : Along settle KeepsBooks self ops) : Throughout settle Booked self ops :=
  throughout_of_along (fun _ _ hbooked hop => hbooked.step hop) h hkeeps

theorem agreesWithTrie_of_keepsBooks {blockVersion : UInt32} {finalityMode : FinalityMode}
    {validatorKey : ValidatorKey} {ops : List LedgerOp}
    (h : Along settle KeepsBooks (init blockVersion finalityMode validatorKey) ops) :
    Throughout settle AgreesWithTrie (init blockVersion finalityMode validatorKey) ops :=
  ((booked_init blockVersion finalityMode validatorKey).throughout h).mono
    fun _ hbooked => hbooked.agreesWithTrie

theorem pricesAgree_of_keepsBooks {blockVersion : UInt32} {finalityMode : FinalityMode}
    {validatorKey : ValidatorKey} {ops : List LedgerOp}
    (h : Along settle KeepsBooks (init blockVersion finalityMode validatorKey) ops) :
    Throughout settle PricesAgree (init blockVersion finalityMode validatorKey) ops :=
  ((booked_init blockVersion finalityMode validatorKey).throughout h).mono
    fun _ hbooked => hbooked.pricesAgree

end Chain

end

/-! ## A transfer, a penalty, and a block that says the tension has risen -/

def holderChain : Chain := @Chain.init polyCrypto legacyBlockVersion .deterministic nodeKey

/-- A transfer waits, a block takes it, the chain is restored, and a stranger is
fined. -/
def quietRun : List LedgerOp :=
  [.submit (transferOut 1 960000), .block (.produce 0), .restore,
    .penalize (Hash.ofByte 7) (.fromInteger 5)]

theorem quietRun_keepsBooks :
    (quietRun.foldl (@Chain.settle polyCrypto) holderChain).blocks.length = 2
      ∧ Along (@Chain.settle polyCrypto) Chain.KeepsBooks holderChain quietRun := by
  decide +kernel

theorem agreesWithTrie_quietRun :
    (quietRun.foldl (@Chain.settle polyCrypto) holderChain).blocks.length = 2
      ∧ Throughout (@Chain.settle polyCrypto) (@Chain.AgreesWithTrie polyCrypto) holderChain
        quietRun :=
  ⟨quietRun_keepsBooks.1, @Chain.agreesWithTrie_of_keepsBooks polyCrypto legacyBlockVersion
    .deterministic nodeKey quietRun quietRun_keepsBooks.2⟩

theorem pricesAgree_quietRun :
    (quietRun.foldl (@Chain.settle polyCrypto) holderChain).blocks.length = 2
      ∧ Throughout (@Chain.settle polyCrypto) (@Chain.PricesAgree polyCrypto) holderChain
        quietRun :=
  ⟨quietRun_keepsBooks.1, @Chain.pricesAgree_of_keepsBooks polyCrypto legacyBlockVersion
    .deterministic nodeKey quietRun quietRun_keepsBooks.2⟩

/-- The holder pays five tokens, and only memory knows. -/
theorem penalty_outside_trie :
    ¬ ∀ (blockVersion : UInt32) (finalityMode : FinalityMode) (validatorKey : ValidatorKey)
      (ops : List LedgerOp), Throughout (@Chain.settle polyCrypto)
        (@Chain.AgreesWithTrie polyCrypto)
        (@Chain.init polyCrypto blockVersion finalityMode validatorKey) ops := by
  intro hall
  have hrun : Throughout (@Chain.settle polyCrypto) (@Chain.AgreesWithTrie polyCrypto) holderChain
      [.penalize nodeKey.publicKey (.fromInteger 5)] :=
    hall legacyBlockVersion .deterministic nodeKey _
  have hbefore : balancesFromTrie holderChain.state = .ok holderChain.balances :=
    (@Chain.AgreesWithTrie.books polyCrypto _ hrun.first).balances
  have hmoved : (holderChain.executeSlashingPenalty nodeKey.publicKey
      (.fromInteger 5)).2.balances.balanceOf nodeKey.publicKey
        ≠ holderChain.balances.balanceOf nodeKey.publicKey := by
    decide +kernel
  obtain ⟨balances, treasury, hframe⟩ := holderChain.penalty_frame nodeKey.publicKey
    (.fromInteger 5)
  have hstate : (holderChain.executeSlashingPenalty nodeKey.publicKey (.fromInteger 5)).2.state
      = holderChain.state := by
    rw [hframe]
  have hafter : balancesFromTrie (holderChain.executeSlashingPenalty nodeKey.publicKey
      (.fromInteger 5)).2.state
    = .ok (holderChain.executeSlashingPenalty nodeKey.publicKey (.fromInteger 5)).2.balances :=
    (@Chain.AgreesWithTrie.books polyCrypto _ hrun.last).balances
  rw [hstate, hbefore] at hafter
  exact hmoved (congrArg (·.balanceOf nodeKey.publicKey) (Except.ok.inj hafter).symm)

/-- A block with another tension after it, signed again. -/
def withTension (tensionAfter : TensionValue) (block : Block) : Block :=
  let unnamed : BlockHeader := { block.header with tensionAfter, blockId := zeroHash }
  let header := { unnamed with blockId := @canonicalHash polyCrypto _ BlockHeader.codec unnamed }
  let proof : CausalProof := { block.proof with tensionAfter, validatorSignature := [] }
  { block with
    header
    proof := { proof with
      validatorSignature := nodeKey.sign (@blockSigningPayload polyCrypto header proof) } }

/-- The blocks on genesis that the node could have made of a tension of five. -/
def tenseOps : List LedgerOp :=
  (twoBlocks.drop 1).map fun block => .block (.importBlock (withTension (.fromInteger 5) block))

/-- The producer goes by the header of the tip, the gate by the state. -/
theorem tip_tension_priced :
    ¬ ∀ (blockVersion : UInt32) (finalityMode : FinalityMode) (validatorKey : ValidatorKey)
      (ops : List LedgerOp), Throughout (@Chain.settle polyCrypto)
        (@Chain.PricesAgree polyCrypto)
        (@Chain.init polyCrypto blockVersion finalityMode validatorKey) ops := by
  intro hall
  have hreached (ops : List LedgerOp) : @Chain.PricesAgree polyCrypto
      (ops.foldl (@Chain.settle polyCrypto) genesisChain) :=
    (hall canonicalAgentBlockVersion .deterministic nodeKey ops).last
  have hlast := hreached tenseOps
  have hprices : (@replayGasPrice (tenseOps.foldl (@Chain.settle polyCrypto) genesisChain).state
        (tenseOps.foldl (@Chain.settle polyCrypto) genesisChain).blockVersion).toOption
      ≠ some (tenseOps.foldl (@Chain.settle polyCrypto) genesisChain).producerGasPrice := by
    decide +kernel
  generalize tenseOps.foldl (@Chain.settle polyCrypto) genesisChain = chain at hlast hprices
  rw [@Chain.PricesAgree.producer polyCrypto _ hlast] at hprices
  exact hprices rfl

end Sccgub
