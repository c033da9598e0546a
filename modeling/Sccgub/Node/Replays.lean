import Mathlib
import Sccgub.Execution.View
import Sccgub.Node.FinalityAgreement
import Sccgub.Node.TrieLedger

/-!
# Ways to come by a state

A block reaches the state of a node by import, by production or by a replay from
genesis.  `Extends` is what the first two have in common; here a replay follows
it step by step: wherever a chain is extended by a block, the replay of its
blocks takes that block too and arrives at the same view, ledger, treasury and
registry.

A replay has no validators, and its limits and finality settings are not its
own: they are read off the last block.
-/

namespace Sccgub

open Bincode FixedWidth WriteThrough Fallible Runs

section

variable [Crypto]

/-! ## Fees in memory -/

instance decidableFeesCovered (blockVersion : UInt32) (gasPrice : TensionValue) :
    (balances : BalanceLedger) → (paired : List (SymbolicTransition × CausalReceipt)) →
      Decidable (FeesCovered blockVersion gasPrice balances paired)
  | _, [] => .isTrue trivial
  | balances, (tx, receipt) :: rest =>
      match h : resolveFeePayer blockVersion balances tx (receiptFee gasPrice receipt) with
      | .error _ => .isFalse (by simp [FeesCovered, h])
      | .ok payer =>
          have := decidableFeesCovered blockVersion gasPrice
            (if 0 < (receiptFee gasPrice receipt).raw.val then
              balances.importBalance payer (balances.balanceOf payer - receiptFee gasPrice receipt)
            else balances) rest
          decidable_of_iff _ (by simp only [FeesCovered, h]; exact Iff.rfl)

instance (chain : Chain) (block : Block) : Decidable (chain.CoversFees block) :=
  decidableFeesCovered _ _ _ _

/-! ## States with nothing but parameters under `system/` -/

structure ManagedWorldState.Plain (state : ManagedWorldState) : Prop where
  durable : state.trie.durable = none
  system : ∀ key, startsWith key nsSystem = true → key ≠ ConsensusParams.trieKey →
    state.get key = none

namespace ManagedWorldState.Plain

variable {state : ManagedWorldState}

omit [Crypto] in
theorem ceilings (h : state.Plain) : constitutionalCeilingsFromTrie state = .ok none := by
  unfold constitutionalCeilingsFromTrie
  rw [h.system _ (by decide) (by decide)]

omit [Crypto] in
theorem versionHistory (h : state.Plain) : chainVersionHistoryFromTrie state = [] := by
  unfold chainVersionHistoryFromTrie
  rw [h.system _ (by decide) (by decide)]

/-- Without ceilings the gate lets no block of the third version or a later one
through. -/
theorem version_lt (h : state.Plain) {block : Block} {parentId : Hash}
    (hvalid : CpogValid block state parentId) : block.header.version < patch04BlockVersion := by
  by_contra hversion
  have hpassed := hvalid.phases .architecture
  have hmissing : validateCeilingsForBlock state block.header = .ceilingsMissing := by
    unfold validateCeilingsForBlock
    rw [if_neg hversion, h.ceilings]
  simp only [executeBlockPhase, phaseArchitecture, hmissing] at hpassed
  split_ifs at hpassed

omit [Crypto] in
/-- Nothing but the entries is looked at. -/
theorem congr (h : state.Plain) {next : ManagedWorldState} (hnext : next.trie = state.trie) :
    next.Plain :=
  ⟨by rw [hnext, h.durable], fun key hkey hne => by
    rw [ManagedWorldState.get, hnext]
    exact h.system key hkey hne⟩

omit [Crypto] in
theorem writeAll (h : state.Plain) {writes : List StateWrite}
    (hwrites : ∀ w ∈ writes, startsWith w.address nsSystem = false) :
    (state.writeAll writes).Plain where
  durable := by rw [durable_writeAll, h.durable, Option.map_none]
  system := by
    intro key hkey hne
    rw [get_writeAll_of_ne, h.system key hkey hne]
    rintro w hw rfl
    rw [hwrites w hw] at hkey
    cases hkey

theorem applyBlock (h : state.Plain) {balances : BalanceLedger} {treasury : Treasury}
    {transitions : List SymbolicTransition} {receipts : List CausalReceipt}
    {blockVersion : UInt32} {validatorPublicKey : Hash} {gasPrice : TensionValue}
    {height : UInt64} {applied : AppliedBlock}
    (hpayloads : ∀ w ∈ payloadWrites ∅ transitions, startsWith w.address nsSystem = false)
    (happly : Sccgub.applyBlock state balances treasury transitions receipts blockVersion
      validatorPublicKey gasPrice height = .ok applied) : applied.state.Plain := by
  rw [applyBlock_eq happly]
  refine h.writeAll fun w hw => ?_
  rcases Constant.address_of_mem_blockWrites hw with hbalance | htreasury | hpayload
  · exact startsWith_disjoint hbalance (by decide)
  · exact startsWith_disjoint htreasury (by decide)
  · exact hpayloads w hpayload

end ManagedWorldState.Plain

theorem ManagedWorldState.Constant.plain {state : ManagedWorldState} (h : state.Constant) :
    state.Plain :=
  ⟨h.durable, fun key hkey hne => by rw [h.system key hkey, genesisEntry, if_neg hne]⟩

/-- Genesis, whatever its parameters. -/
theorem plain_initializeGenesisState (blockVersion : UInt32) (validatorPublicKey : Hash)
    (params : ConsensusParams) (finalityMode : FinalityMode) :
    (initializeGenesisState blockVersion validatorPublicKey params finalityMode).1.Plain := by
  unfold initializeGenesisState applyGenesisMint commitConsensusParams
  dsimp only
  rw [ManagedWorldState.applyDelta_writes, ManagedWorldState.applyDelta_writes]
  refine ManagedWorldState.Plain.congr (ManagedWorldState.Plain.writeAll ⟨?_, fun key hkey hne => ?_⟩
    fun w hw => ?_) rfl
  · rw [ManagedWorldState.durable_writeAll]
    exact Option.map_none _
  · rw [get_writeAll_of_ne]
    · rfl
    · intro w hw heq
      obtain rfl := List.mem_singleton.mp hw
      exact hne heq.symm
  · obtain rfl := List.mem_singleton.mp hw
    exact startsWith_disjoint (startsWith_balanceKey _) (by decide)

/-! ## Governance without limits -/

/-- Registry and governance state. -/
structure SameGovernance (a b : GovernanceContext) : Prop where
  proposals : b.proposals = a.proposals
  governanceState : b.governanceState = a.governanceState

omit [Crypto] in
theorem SameGovernance.takeEffect {a b : GovernanceContext} (h : SameGovernance a b)
    (change change' : ValidatorChange) (ceilings ceilings' : Option ConstitutionalCeilings)
    (kind : ProposalKind) :
    SameGovernance (takeEffect change ceilings a kind) (takeEffect change' ceilings' b kind) := by
  obtain ⟨hproposals, hstate⟩ := h
  cases kind with
  | addNorm name description fitness cost => exact ⟨hproposals, hstate⟩
  | deactivateNorm normId =>
      simp only [Sccgub.takeEffect, hstate]
      split
      · exact ⟨hproposals, rfl⟩
      · exact ⟨hproposals, hstate⟩
  | modifyParameter key value =>
      simp only [Sccgub.takeEffect, hstate]
      split
      · exact ⟨hproposals, rfl⟩
      · have hsame := applyGovernanceParameterStatic_settings a.governanceLimits
          b.governanceLimits a.finalityConfig b.finalityConfig a.governanceState.finalityMode key
          value
        generalize applyGovernanceParameterStatic ⟨a.governanceLimits, a.finalityConfig,
          a.governanceState.finalityMode⟩ key value = taken at hsame ⊢
        generalize applyGovernanceParameterStatic ⟨b.governanceLimits, b.finalityConfig,
          a.governanceState.finalityMode⟩ key value = taken' at hsame ⊢
        rcases taken with e | p <;> rcases taken' with e' | p'
        · exact ⟨hproposals, hstate⟩
        · cases hsame
        · cases hsame
        · refine ⟨hproposals, ?_⟩
          dsimp only
          rw [show p'.finalityMode = p.finalityMode from (Except.ok.inj hsame).symm]
  | activateEmergency =>
      refine ⟨hproposals, ?_⟩
      simp only [Sccgub.takeEffect, hstate]
  | deactivateEmergency =>
      refine ⟨hproposals, ?_⟩
      simp only [Sccgub.takeEffect, hstate]
  | modifyConsensusParam field newValue activationHeight =>
      simp only [Sccgub.takeEffect]
      split <;> split <;> exact ⟨hproposals, hstate⟩

theorem SameGovernance.replay {a b : GovernanceContext} (h : SameGovernance a b)
    (change change' : ValidatorChange) (ceilings ceilings' : Option ConstitutionalCeilings)
    (transitions : List SymbolicTransition) (height : UInt64) :
    SameGovernance (replayGovernanceFromTransitions change ceilings transitions height a)
      (replayGovernanceFromTransitions change' ceilings' transitions height b) :=
  replayGovernance_congr (fun _ _ h => h.proposals)
    (fun _ _ _ h => ⟨rfl, h.governanceState⟩)
    (fun a b norm h => ⟨h.proposals, by dsimp only; rw [h.governanceState]⟩)
    (fun _ _ kind h => h.takeEffect change change' ceilings ceilings' kind) transitions height h

/-! ## The view after governance -/

/-- Contexts that agree on the parameters leave the view in common. -/
theorem SameView.governedState {s s' : ManagedWorldState} (h : SameView s s')
    {ctx ctx' : GovernanceContext} (hctx : SameParams ctx ctx') :
    SameView (Chain.governedState s ctx) (Chain.governedState s' ctx') := by
  have hview : SameView
      { s with governanceState := ctx.governanceState, consensusParams := ctx.consensusParams }
      { s' with governanceState := ctx'.governanceState, consensusParams := ctx'.consensusParams } :=
    ⟨h.entries, h.root, h.nonces, hctx.consensusParams, h.tension, h.height⟩
  unfold Chain.governedState
  dsimp only
  rw [hctx.mutatedParams]
  split
  · rw [commitConsensusParams, commitConsensusParams, ManagedWorldState.applyDelta_writes,
      ManagedWorldState.applyDelta_writes]
    dsimp only
    rw [hctx.consensusParams]
    exact (show SameView
      { s with governanceState := ctx.governanceState, consensusParams := ctx.consensusParams }
      { s' with governanceState := ctx'.governanceState, consensusParams := ctx.consensusParams }
      from ⟨h.entries, h.root, h.nonces, rfl, h.tension, h.height⟩).writeAll _
  · exact hview

theorem SameView.ceilingsOf {s s' : ManagedWorldState} (h : SameView s s') :
    Chain.ceilingsOf s' = Chain.ceilingsOf s := by
  unfold Chain.ceilingsOf constitutionalCeilingsFromTrie
  rw [h.get]

theorem SameView.standardGasPrice {s s' : ManagedWorldState} (h : SameView s s') :
    Sccgub.standardGasPrice s' = Sccgub.standardGasPrice s := by
  rw [Sccgub.standardGasPrice, h.tension, Sccgub.standardGasPrice]

omit [Crypto] in
theorem durable_governedState (state : ManagedWorldState) (ctx : GovernanceContext)
    (h : state.trie.durable = none) : (Chain.governedState state ctx).trie.durable = none := by
  unfold Chain.governedState
  dsimp only
  split
  · rw [commitConsensusParams, ManagedWorldState.applyDelta_writes,
      ManagedWorldState.durable_writeAll]
    exact (congrArg (Option.map _) h).trans (Option.map_none _)
  · exact h

omit [Crypto] in
theorem trie_governedState {state : ManagedWorldState} {ctx : GovernanceContext}
    (h : ctx.mutatedParams = false) : (Chain.governedState state ctx).trie = state.trie := by
  unfold Chain.governedState
  dsimp only
  rw [h]
  rfl

/-- A replay that succeeds has succeeded on the blocks before. -/
theorem replayAll_append_left {chainId : Hash} {blockVersion : UInt32} {parentId : Hash}
    {acc last : Replayed} {kept more : List Block}
    (h : replayAll chainId blockVersion parentId acc (kept ++ more) = .ok last) :
    ∃ mid, replayAll chainId blockVersion parentId acc kept = .ok mid := by
  induction kept generalizing parentId acc with
  | nil => exact ⟨acc, rfl⟩
  | cons block kept ih =>
      obtain ⟨next, hnext, hrest⟩ := replayAll_cons_eq_ok_iff.mp h
      obtain ⟨mid, hmid⟩ := ih hrest
      exact ⟨mid, replayAll_cons_eq_ok_iff.mpr ⟨next, hnext, hmid⟩⟩

/-- One more block at the end. -/
theorem replayAll_concat {chainId : Hash} {blockVersion : UInt32} {parentId : Hash}
    {acc mid next : Replayed} {rest : List Block} {block : Block}
    (h : replayAll chainId blockVersion parentId acc rest = .ok mid)
    (hnext : replayNext chainId blockVersion
      ((rest.getLast?.map (·.header.blockId)).getD parentId) mid block = .ok next) :
    replayAll chainId blockVersion parentId acc (rest ++ [block]) = .ok next := by
  induction rest generalizing parentId acc with
  | nil =>
      obtain rfl := Except.ok.inj h
      exact replayAll_cons_eq_ok_iff.mpr ⟨next, hnext, rfl⟩
  | cons first rest ih =>
      obtain ⟨after, hafter, hrest⟩ := replayAll_cons_eq_ok_iff.mp h
      refine replayAll_cons_eq_ok_iff.mpr ⟨after, hafter, ih hrest ?_⟩
      rw [List.getLast?_cons] at hnext
      rcases hlast : rest.getLast? with _ | last
      · rw [hlast] at hnext
        exact hnext
      · rw [hlast] at hnext
        exact hnext

/-! ## Replays stay plain -/

structure Replayed.Plain (acc : Replayed) : Prop where
  state : acc.state.Plain
  untyped : acc.proposals.Untyped

theorem plain_replayGenesis {genesis : Block} {start : Replayed}
    (h : replayGenesis genesis = .ok start) : start.Plain := by
  obtain ⟨-, -, params, -, -, state, balances, hinit, -, rfl⟩ := replayGenesis_eq_ok_iff.mp h
  have hplain := plain_initializeGenesisState genesis.header.version genesis.header.validatorId
    params .deterministic
  rw [hinit] at hplain
  exact ⟨hplain.congr rfl, fun _ hkind => absurd hkind List.not_mem_nil⟩

theorem Replayed.Plain.replayNext {chainId : Hash} {blockVersion : UInt32} {parentId : Hash}
    {acc next : Replayed} {block : Block} (hacc : acc.Plain)
    (h : Sccgub.replayNext chainId blockVersion parentId acc block = .ok next) : next.Plain := by
  obtain ⟨-, -, -, hvalid, state, applied, hnonces, happly, rfl⟩ := replayNext_eq_ok_iff.mp h
  have hphases : PassPhases block.body.transitions acc.state :=
    fun tx htx phase hphase => (validateCpog_eq_valid_iff.mp hvalid).perTx htx hphase
  have hstate : state.Plain := by
    refine hacc.state.congr ?_
    rw [ManagedWorldState.validateNonces_frame hnonces]
  have happlied := hstate.applyBlock (hphases.not_startsWith nsSystem (by decide)) happly
  -- no typed proposal is submitted, so governance leaves the parameters
  obtain ⟨huntyped, -, hmutated⟩ := replayGovernance_untyped keepValidators
    (Chain.ceilingsOf (applied.state.setHeight block.header.height)) block.body.transitions
    block.header.height (show ({ acc with state := applied.state.setHeight block.header.height } :
      Replayed).governanceContext.proposals.Untyped from hacc.untyped)
  exact ⟨happlied.congr (trie_governedState hmutated), huntyped⟩

theorem Replayed.Plain.replayAll {chainId : Hash} {blockVersion : UInt32} {parentId : Hash}
    {acc last : Replayed} {rest : List Block} (hacc : acc.Plain)
    (h : Sccgub.replayAll chainId blockVersion parentId acc rest = .ok last) : last.Plain := by
  induction rest generalizing parentId acc with
  | nil =>
      obtain rfl := Except.ok.inj h
      exact hacc
  | cons block rest ih =>
      obtain ⟨next, hnext, hrest⟩ := replayAll_cons_eq_ok_iff.mp h
      exact ih (hacc.replayNext hnext) hrest

namespace Chain

variable {self : Chain}

/-! ## Plain chains -/

structure Plain (chain : Chain) : Prop where
  state : chain.state.Plain
  rates : StandardRates chain.economics
  untyped : chain.proposals.Untyped

omit [Crypto] in
theorem Plain.inMemory (h : self.Plain) : self.InMemory := h.state.durable

/-- What is imported into a plain chain extends it. -/
theorem Plain.extends_of_importBlock (h : self.Plain) {block : Block} {next : Chain}
    (himport : self.importBlock block = (.ok (), next)) :
    ∃ parent applied, Extends self parent block applied next := by
  obtain ⟨parent, -, -, -, hok, hvalid, -⟩ := h.inMemory.importBlock_eq_ok_iff.mp himport
  have hearly : block.header.version < patch04BlockVersion :=
    h.state.version_lt (validateCpog_eq_valid_iff.mp hvalid)
  have hversion : block.header.version = self.blockVersion := by
    have hchecked := hok.version
    unfold checkVersion at hchecked
    rw [h.state.versionHistory] at hchecked
    by_contra hne
    simp [hne] at hchecked
  rw [hversion] at hearly
  have hle : patch04BlockVersion ≤ patch05BlockVersion := by decide
  exact h.inMemory.extends_of_importBlock h.rates h.state.versionHistory
    (UInt32.lt_of_lt_of_le hearly hle) himport

theorem Extends.inMemory {parent block : Block} {applied : AppliedBlock} {next : Chain}
    (hext : Extends self parent block applied next) (h : self.InMemory) : next.InMemory := by
  obtain ⟨state, hnonces, happly⟩ := hext.applies
  rw [InMemory, hext.state]
  refine durable_governedState _ _ (durable_applyBlock happly ?_)
  rw [ManagedWorldState.validateNonces_frame hnonces]
  exact h

/-! ## The replay follows -/

/-- A replay of the chain's blocks from genesis arrives at the view, the books and
the registry that the chain has. -/
structure Retraces (chain : Chain) (genesis : Block) (rest : List Block) (start acc : Replayed) :
    Prop where
  blocks : chain.blocks = genesis :: rest
  chainId : chain.chainId = genesis.header.chainId
  blockVersion : chain.blockVersion = genesis.header.version
  begins : replayGenesis genesis = .ok start
  replay : replayAll genesis.header.chainId genesis.header.version genesis.header.blockId start rest
    = .ok acc
  view : SameView chain.state acc.state
  proposals : acc.proposals = chain.proposals
  balances : acc.balances = chain.balances
  treasury : acc.treasury = chain.treasury

/-- The replay arrives at the governance state, too. -/
structure Replays (chain : Chain) (genesis : Block) (rest : List Block) (start acc : Replayed) :
    Prop extends Retraces chain genesis rest start acc where
  governanceState : acc.state.governanceState = chain.state.governanceState

/-- Nonces and the writes of a block leave governance. -/
theorem governance_applyBlock {before state : ManagedWorldState} {balances : BalanceLedger}
    {treasury : Treasury} {transitions : List SymbolicTransition} {receipts : List CausalReceipt}
    {blockVersion : UInt32} {validatorPublicKey : Hash} {gasPrice : TensionValue}
    {height : UInt64} {applied : AppliedBlock}
    (hnonces : before.validateNonces transitions = .ok state)
    (happly : Sccgub.applyBlock state balances treasury transitions receipts blockVersion
      validatorPublicKey gasPrice height = .ok applied) :
    applied.state.governanceState = before.governanceState := by
  rw [applyBlock_eq happly, ManagedWorldState.validateNonces_frame hnonces]
  rfl

/-- The block that the next one of the list stands on. -/
theorem Retraces.parentId {genesis : Block} {rest : List Block} {start acc : Replayed}
    (h : Retraces self genesis rest start acc) {parent : Block}
    (htip : self.blocks.getLast? = some parent) :
    (rest.getLast?.map (·.header.blockId)).getD genesis.header.blockId = parent.header.blockId := by
  rw [h.blocks, List.getLast?_cons] at htip
  rw [← Option.some.inj htip]
  rcases rest.getLast? with _ | last <;> rfl

theorem Retraces.congr {genesis : Block} {rest : List Block} {start acc : Replayed}
    (h : Retraces self genesis rest start acc) {next : Chain} (hblocks : next.blocks = self.blocks)
    (hchainId : next.chainId = self.chainId) (hversion : next.blockVersion = self.blockVersion)
    (hstate : next.state = self.state) (hproposals : next.proposals = self.proposals)
    (hbalances : next.balances = self.balances) (htreasury : next.treasury = self.treasury) :
    Retraces next genesis rest start acc :=
  ⟨hblocks.trans h.blocks, hchainId.trans h.chainId, hversion.trans h.blockVersion, h.begins,
    h.replay, hstate ▸ h.view, h.proposals.trans hproposals.symm, h.balances.trans hbalances.symm,
    h.treasury.trans htreasury.symm⟩

/-- Where the chain is extended the replay goes on. -/
theorem Retraces.extend {genesis : Block} {rest : List Block} {start acc : Replayed}
    (h : Retraces self genesis rest start acc) {parent block : Block} {applied : AppliedBlock}
    {next : Chain} (hext : Extends self parent block applied next) :
    ∃ acc', Retraces next genesis (rest ++ [block]) start acc'
      ∧ replayNext genesis.header.chainId genesis.header.version
        ((rest.getLast?.map (·.header.blockId)).getD genesis.header.blockId) acc block
          = .ok acc' := by
  obtain ⟨state, hnonces, happly⟩ := hext.applies
  obtain ⟨state', hnonces', hstate⟩ := (h.view.validateNonces block.body.transitions).exists_ok
    hnonces
  have hprice : standardGasPrice state' = standardGasPrice self.state := by
    rw [hstate.standardGasPrice, standardGasPrice, ManagedWorldState.validateNonces_frame hnonces]
    rfl
  obtain ⟨applied', happly', happlied⟩ := (hstate.applyBlock self.balances self.treasury
    block.body.transitions block.receipts self.blockVersion block.header.validatorId
    (standardGasPrice self.state) block.header.height).exists_ok happly
  have hnext : replayNext genesis.header.chainId genesis.header.version
      ((rest.getLast?.map (·.header.blockId)).getD genesis.header.blockId) acc block
      = .ok (Replayed.governed { acc with
          state := applied'.state.setHeight block.header.height
          balances := applied'.balances
          treasury := applied'.treasury } block.body.transitions block.header.height) := by
    refine replayNext_eq_ok_iff.mpr ⟨hext.signature, hext.chainId.trans h.chainId,
      hext.version.trans h.blockVersion, ?_, state', applied', hnonces', ?_, rfl⟩
    · rw [h.parentId hext.tip, h.view.validateCpog]
      exact hext.valid
    · rw [hprice, h.balances, h.treasury, ← h.blockVersion]
      exact happly'
  -- the two governance runs start from the same registry and parameters
  set after := applied.state.setHeight block.header.height with hafter
  set after' := applied'.state.setHeight block.header.height with hafter'
  have hview : SameView after after' := happlied.state.setHeight block.header.height
  have hcarried : SameParams ({ self with state := after } : Chain).governanceContext
      { proposals := acc.proposals
        governanceState := after'.governanceState
        governanceLimits := acc.governanceLimits
        finalityConfig := acc.finalityConfig
        validatorSet := []
        consensusParams := after'.consensusParams } :=
    ⟨h.proposals, hview.params, rfl⟩
  have hgoverned := hcarried.replay applyValidatorChange keepValidators (ceilingsOf after')
    block.body.transitions block.header.height
  rw [hview.ceilingsOf] at hgoverned
  refine ⟨_, ⟨?_, hext.nextChainId.trans h.chainId, hext.blockVersion.trans h.blockVersion,
    h.begins, replayAll_concat h.replay hnext, ?_, ?_, ?_, ?_⟩, hnext⟩
  · rw [hext.blocks, h.blocks, List.cons_append]
  · rw [hext.state]
    show SameView _ (governedState after' (replayGovernanceFromTransitions keepValidators
      (ceilingsOf after') block.body.transitions block.header.height _))
    rw [hview.ceilingsOf]
    exact hview.governedState hgoverned
  · show (replayGovernanceFromTransitions keepValidators (ceilingsOf after')
      block.body.transitions block.header.height _).proposals = _
    rw [hview.ceilingsOf, hgoverned.proposals]
    exact (congrArg GovernanceContext.proposals hext.context).symm
  · rw [hext.balances]
    exact happlied.balances
  · rw [hext.treasury]
    exact happlied.treasury

theorem Replays.extend {genesis : Block} {rest : List Block} {start acc : Replayed}
    (h : Replays self genesis rest start acc) {parent block : Block} {applied : AppliedBlock}
    {next : Chain} (hext : Extends self parent block applied next) :
    ∃ acc', Replays next genesis (rest ++ [block]) start acc' := by
  obtain ⟨acc', hretraces, hnext⟩ := h.toRetraces.extend hext
  refine ⟨acc', hretraces, ?_⟩
  obtain ⟨state, hnonces, happly⟩ := hext.applies
  obtain ⟨-, -, -, -, state', applied', hnonces', happly', rfl⟩ := replayNext_eq_ok_iff.mp hnext
  have hstill := governance_applyBlock hnonces happly
  have hstill' := governance_applyBlock hnonces' happly'
  set after := applied.state.setHeight block.header.height with hafter
  set after' := applied'.state.setHeight block.header.height with hafter'
  have hcarried : SameGovernance ({ self with state := after } : Chain).governanceContext
      { proposals := acc.proposals
        governanceState := after'.governanceState
        governanceLimits := acc.governanceLimits
        finalityConfig := acc.finalityConfig
        validatorSet := []
        consensusParams := after'.consensusParams } :=
    ⟨h.proposals, hstill'.trans (h.governanceState.trans hstill.symm)⟩
  have hgoverned := hcarried.replay applyValidatorChange keepValidators (ceilingsOf after)
    (ceilingsOf after') block.body.transitions block.header.height
  show (governedState after' _).governanceState = _
  rw [(governedState_fields after' _).1, hgoverned.governanceState]
  exact (congrArg GovernanceContext.governanceState hext.context).symm

/-! ## What is rebuilt -/

/-- What a rebuilt chain has in common with the one whose blocks it was built
from: all but the settings and the validators. -/
structure Reproduces (chain rebuilt : Chain) : Prop where
  blocks : rebuilt.blocks = chain.blocks
  view : SameView chain.state rebuilt.state
  governanceState : rebuilt.state.governanceState = chain.state.governanceState
  proposals : rebuilt.proposals = chain.proposals
  balances : rebuilt.balances = chain.balances
  treasury : rebuilt.treasury = chain.treasury
  verdict : ∀ (block : Block) (parentId : Hash),
    validateCpog block rebuilt.state parentId = validateCpog block chain.state parentId

/-- Two chains that the same replay follows. -/
theorem Replays.reproduces {other : Chain} {genesis : Block} {rest : List Block}
    {start acc : Replayed} (h : Replays self genesis rest start acc)
    (hother : Replays other genesis rest start acc) : self.Reproduces other := by
  have hview : SameView self.state other.state := h.view.trans hother.view.symm
  exact ⟨hother.blocks.trans h.blocks.symm, hview,
    hother.governanceState.symm.trans h.governanceState, hother.proposals.symm.trans h.proposals,
    hother.balances.symm.trans h.balances, hother.treasury.symm.trans h.treasury,
    fun block parentId => hview.validateCpog block parentId⟩

/-- A chain in memory is as plain as the replay. -/
theorem Retraces.plain {genesis : Block} {rest : List Block} {start acc : Replayed}
    (h : Retraces self genesis rest start acc) (hmem : self.InMemory)
    (hrates : StandardRates self.economics) : self.Plain := by
  have hacc := (plain_replayGenesis h.begins).replayAll h.replay
  refine ⟨⟨hmem, fun key hkey hne => ?_⟩, hrates, h.proposals ▸ hacc.untyped⟩
  rw [← h.view.get]
  exact hacc.state.system key hkey hne

theorem replays_ofReplayed {validatorKey : ValidatorKey} {genesis : Block} {rest : List Block}
    {start acc : Replayed} (hstart : replayGenesis genesis = .ok start)
    (hreplay : replayAll genesis.header.chainId genesis.header.version genesis.header.blockId start
      rest = .ok acc) :
    Replays (ofReplayed validatorKey genesis (rest.getLast?.getD genesis) (genesis :: rest) acc)
      genesis rest start acc :=
  ⟨⟨rfl, rfl, rfl, hstart, hreplay, SameView.refl _, rfl, rfl, rfl⟩, rfl⟩

/-! ## Runs of a node -/

/-- A chain in memory that a replay of its blocks arrives at. -/
structure Replayable (genesis : Block) (start : Replayed) (chain : Chain) : Prop where
  inMemory : chain.InMemory
  rates : StandardRates chain.economics
  replays : ∃ rest acc, Replays chain genesis rest start acc

/-- What production and import need: a key that signs, the price that everybody
charges, and balances in memory that cover the fees the gate let through. -/
def Repeatable (self : Chain) : ReplicaOp → Prop
  | .block (.produce _) =>
      self.validatorKey.Sound ∧ self.producerGasPrice = standardGasPrice self.state
  | .block (.importBlock block) =>
      (self.validateCandidateBlock block).1 = .ok () → self.CoversFees block
  | _ => True

theorem repeatable_importBlock {block : Block} (h : decide (self.CoversFees block) = true) :
    self.Repeatable (.block (.importBlock block)) := fun _ => of_decide_eq_true h

/-- An import either leaves the chain or commits the block. -/
theorem InMemory.importBlock_cases (h : self.InMemory) {block : Block}
    (hcovers : (self.validateCandidateBlock block).1 = .ok () → self.CoversFees block) :
    (self.importBlock block).2 = self
      ∨ ∃ next, self.importBlock block = (.ok (), next) := by
  by_cases haccepted : (self.validateCandidateBlock block).1 = .ok ()
  · right
    obtain ⟨parent, htip, hok, hvalid⟩ := validateCandidateBlock_eq_ok_iff.mp haccepted
    have hpos : block.header.height > 0 := by
      rw [hok.height]
      exact saturatingAdd_one_pos _
    obtain ⟨state, hnonces⟩ := (validateCpog_eq_valid_iff.mp hvalid).validateNonces hpos
    obtain ⟨applied, happly⟩ := applyBlock_isOk_iff.mpr
      ((chargeFees_isOk_iff_of_candidate hok hvalid).mpr (hcovers haccepted))
    exact ⟨_, h.importBlock_eq_ok_iff.mpr ⟨parent, state, applied, htip, hok, hvalid, hnonces,
      happly, rfl⟩⟩
  · left
    have hchain := h.validateCandidateBlock block
    unfold importBlock
    rcases hrun : self.validateCandidateBlock block with ⟨e | ⟨⟩, chain⟩
    · rw [hrun] at hchain
      exact hchain
    · rw [hrun] at haccepted
      exact absurd rfl haccepted

theorem InMemory.produceBlock (h : self.InMemory) (wallHint : UInt64) :
    (self.produceBlock wallHint).2.InMemory := by
  rw [InMemory, produceBlock_trie]
  show self.state.trie.durable.map _ = none
  rw [h, Option.map_none]

namespace Replayable

variable {genesis : Block} {start : Replayed}

theorem nonempty (h : self.Replayable genesis start) : self.blocks ≠ [] := by
  obtain ⟨rest, acc, hreplays⟩ := h.replays
  rw [hreplays.blocks]
  exact List.cons_ne_nil _ _

theorem plain (h : self.Replayable genesis start) : self.Plain := by
  obtain ⟨rest, acc, hreplays⟩ := h.replays
  exact hreplays.toRetraces.plain h.inMemory h.rates

/-- Mempool, validators and whatever else a replay does not look at. -/
theorem congr (h : self.Replayable genesis start) {next : Chain} (hblocks : next.blocks = self.blocks)
    (hchainId : next.chainId = self.chainId) (hversion : next.blockVersion = self.blockVersion)
    (hstate : next.state = self.state) (hproposals : next.proposals = self.proposals)
    (hbalances : next.balances = self.balances) (htreasury : next.treasury = self.treasury)
    (heconomics : next.economics = self.economics) : next.Replayable genesis start := by
  obtain ⟨rest, acc, hreplays⟩ := h.replays
  refine ⟨?_, heconomics ▸ h.rates, rest, acc, hreplays.toRetraces.congr hblocks hchainId hversion
    hstate hproposals hbalances htreasury, hstate ▸ hreplays.governanceState⟩
  rw [InMemory, hstate]
  exact h.inMemory

theorem extend (h : self.Replayable genesis start) {parent block : Block} {applied : AppliedBlock}
    {next : Chain} (hext : Extends self parent block applied next) :
    next.Replayable genesis start := by
  obtain ⟨rest, acc, hreplays⟩ := h.replays
  exact ⟨hext.inMemory h.inMemory,
    ⟨hext.economics.1.trans h.rates.baseFee, hext.economics.2.trans h.rates.alpha⟩, _,
    hreplays.extend hext⟩

/-- A restart from the first blocks of the node. -/
theorem rebuilds (h : self.Replayable genesis start) (validatorKey : ValidatorKey)
    {blocks : List Block} (hinit : blocks <+: self.blocks) (hne : blocks ≠ []) :
    ∃ rebuilt, fromBlocks validatorKey blocks = .ok rebuilt ∧ rebuilt.blocks = blocks
      ∧ rebuilt.Replayable genesis start := by
  obtain ⟨rest, acc, hreplays⟩ := h.replays
  obtain ⟨first, kept, rfl⟩ := List.exists_cons_of_ne_nil hne
  obtain ⟨more, hmore⟩ := hinit
  rw [hreplays.blocks, List.cons_append] at hmore
  obtain ⟨rfl, hrest⟩ := List.cons.inj hmore
  have hreplay := hreplays.replay
  rw [← hrest] at hreplay
  obtain ⟨mid, hmid⟩ := replayAll_append_left hreplay
  have hrebuilt := @replays_ofReplayed _ validatorKey _ _ _ _ hreplays.begins hmid
  refine ⟨_, fromBlocks_cons_eq_ok_iff.mpr ⟨start, mid, hreplays.begins, hmid, rfl⟩, rfl, ?_,
    ⟨rfl, rfl⟩, kept, mid, hrebuilt⟩
  exact ((plain_replayGenesis hreplays.begins).replayAll hmid).state.durable

/-- Chains over one genesis with the same blocks. -/
theorem reproduces {other : Chain} (h : self.Replayable genesis start)
    (hother : other.Replayable genesis start) (hblocks : other.blocks = self.blocks) :
    self.Reproduces other := by
  obtain ⟨rest, acc, hreplays⟩ := h.replays
  obtain ⟨rest', acc', hreplays'⟩ := hother.replays
  obtain rfl : rest' = rest :=
    (List.cons.inj (hreplays'.blocks.symm.trans (hblocks.trans hreplays.blocks))).2
  obtain rfl : acc' = acc := Except.ok.inj (hreplays'.replay.symm.trans hreplays.replay)
  exact hreplays.reproduces hreplays'

theorem act (h : self.Replayable genesis start) {op : BlockOp}
    (hop : self.Repeatable (.block op)) : (self.act op).Replayable genesis start := by
  have hmem := h.inMemory
  cases op with
  | gate block parentId =>
      show (self.sharing (runCpog block self.state parentId).durable).Replayable genesis start
      rw [durable_runCpog_none hmem, hmem.sharing_none]
      exact h
  | candidate block =>
      show (self.validateCandidateBlock block).2.Replayable genesis start
      rw [hmem.validateCandidateBlock]
      exact h
  | build wallHint =>
      show (self.sharing (self.produceBlock wallHint).2.state.trie.durable).Replayable genesis start
      rw [hmem.produceBlock wallHint, hmem.sharing_none]
      exact h
  | produce wallHint =>
      show (self.produceBlock wallHint).2.Replayable genesis start
      rcases hmem.produceBlock_cases wallHint with ⟨e, mempool, hrun⟩ |
        ⟨parent, applied, block, -, -, -, -, hrun⟩
      · rw [hrun]
        exact h.congr rfl rfl rfl rfl rfl rfl rfl rfl
      · obtain ⟨parent, applied, hext, -⟩ := hmem.extends_of_produceBlock hop.1 hop.2 hrun
        rw [hrun]
        exact h.extend hext
  | importBlock block =>
      show (self.importBlock block).2.Replayable genesis start
      rcases hmem.importBlock_cases hop with hstill | ⟨next, hrun⟩
      · rw [hstill]
        exact h
      · obtain ⟨parent, applied, hext⟩ := h.plain.extends_of_importBlock hrun
        rw [hrun]
        exact h.extend hext

theorem step (h : self.Replayable genesis start) {op : ReplicaOp} (hop : self.Repeatable op) :
    (self.replica op).Replayable genesis start := by
  cases op with
  | block op => exact h.act hop
  | submit tx =>
      obtain ⟨mempool, hnext⟩ := self.submit_frame tx
      show (orKeep self (self.submitTransition tx)).Replayable genesis start
      rw [hnext]
      exact h.congr rfl rfl rfl rfl rfl rfl rfl rfl
  | validators validators => exact h.congr rfl rfl rfl rfl rfl rfl rfl rfl
  | restart validatorKey =>
      obtain ⟨rebuilt, hrebuilt, -, hagain⟩ := h.rebuilds validatorKey (List.prefix_refl _) h.nonempty
      show (orKeep self (fromBlocks validatorKey self.blocks)).Replayable genesis start
      rw [hrebuilt]
      exact hagain

theorem throughout (h : self.Replayable genesis start) {ops : List ReplicaOp}
    (hops : Along replica Repeatable self ops) :
    Throughout replica (Replayable genesis start) self ops :=
  throughout_of_along (fun _ _ hreached hop => hreached.step hop) h hops

/-- One block, and nothing replayed yet. -/
theorem single {validatorKey : ValidatorKey} {genesis : Block} {chain : Chain}
    (h : fromBlocks validatorKey [genesis] = .ok chain) :
    ∃ start, chain.Replayable genesis start := by
  obtain ⟨start, replayed, hstart, hreplay, rfl⟩ := fromBlocks_cons_eq_ok_iff.mp h
  obtain rfl := Except.ok.inj hreplay
  exact ⟨_, (plain_replayGenesis hstart).state.durable, ⟨rfl, rfl⟩, [], _,
    replays_ofReplayed hstart rfl⟩

end Replayable

theorem validatorKey_of_fromBlocks {validatorKey : ValidatorKey} {genesis : Block}
    {rest : List Block} {chain : Chain} (h : fromBlocks validatorKey (genesis :: rest) = .ok chain) :
    chain.validatorKey = validatorKey := by
  obtain ⟨_, _, -, -, rfl⟩ := fromBlocks_cons_eq_ok_iff.mp h
  rfl

theorem validatorKey_submit (self : Chain) (tx : SymbolicTransition) :
    (self.replica (.submit tx)).validatorKey = self.validatorKey := by
  obtain ⟨mempool, hnext⟩ := self.submit_frame tx
  show (orKeep self (self.submitTransition tx)).validatorKey = _
  rw [hnext]

/-- A replay of the blocks succeeds under every key, and is the chain again. -/
def Reproducible (self : Chain) : Prop :=
  ∀ validatorKey, ∃ rebuilt, fromBlocks validatorKey self.blocks = .ok rebuilt
    ∧ self.Reproduces rebuilt

/-- Wherever a run has got to, a replay of the node's own blocks succeeds and is
the same node again. -/
theorem reproduced_of_run {validatorKey : ValidatorKey} {genesis : Block} {chain : Chain}
    (hchain : fromBlocks validatorKey [genesis] = .ok chain) {ops : List ReplicaOp}
    (h : Along replica Repeatable chain ops) :
    Throughout replica Reproducible chain ops := by
  obtain ⟨start, hstart⟩ := Replayable.single hchain
  refine (Replayable.throughout hstart h).mono fun reached hreached newKey => ?_
  obtain ⟨rebuilt, hrebuilt, hblocks, hagain⟩ := hreached.rebuilds newKey (List.prefix_refl _)
    hreached.nonempty
  exact ⟨rebuilt, hrebuilt, hreached.reproduces hagain hblocks⟩

end Chain

end

/-! ## A transfer on two nodes -/

theorem sound_polyKey {publicKey : Hash} (h : publicKey ≠ zeroHash) :
    @ValidatorKey.Sound polyCrypto (polyKey publicKey) := by
  refine @ValidatorKey.Sound.mk polyCrypto (polyKey publicKey) (fun message => ?_) h
  have hlength : (polySign publicKey message).length = 64 := by
    simp [polySign]
  have hslice : signatureFromSlice (polySign publicKey message) = some ⟨_, hlength⟩ :=
    dif_pos hlength
  show @verify polyCrypto publicKey message (polySign publicKey message) = true
  unfold verify
  rw [if_pos (show @Crypto.verifyingKeyFromBytes polyCrypto publicKey = true from rfl), hslice]
  exact decide_eq_true rfl

def holderGenesis : Block := holderChain.blocks.get ⟨0, by decide +kernel⟩

def rebuiltHolder : Chain :=
  orKeep holderChain (@Chain.fromBlocks polyCrypto nodeKey [holderGenesis])

/-- A transfer waits, a block takes it, and the node starts again. -/
def transferring : List Chain.ReplicaOp :=
  [.submit (transferOut 1 960000), .block (.produce 0), .restart nodeKey]

def transferBlock : Block :=
  ((transferring.foldl (@Chain.replica polyCrypto) rebuiltHolder).blocks.getLast?).getD holderGenesis

/-- The block comes to a node with validators of its own. -/
def receiving : List Chain.ReplicaOp := [.validators [], .block (.importBlock transferBlock)]

def waitingHolder : Chain := @Chain.replica polyCrypto rebuiltHolder (.submit (transferOut 1 960000))

def servedHolder : Chain := @Chain.replica polyCrypto rebuiltHolder (.validators [])

theorem transfer_evaluated :
    (@Chain.fromBlocks polyCrypto nodeKey [holderGenesis]).isOk = true
      ∧ waitingHolder.producerGasPrice = standardGasPrice waitingHolder.state
      ∧ decide (servedHolder.CoversFees transferBlock) = true
      ∧ (transferring.foldl (@Chain.replica polyCrypto) rebuiltHolder).blocks
        = [holderGenesis, transferBlock]
      ∧ (receiving.foldl (@Chain.replica polyCrypto) rebuiltHolder).blocks
        = [holderGenesis, transferBlock]
      ∧ transferBlock.body.transitions.length = 1 := by
  decide +kernel

theorem waitingHolder_key : waitingHolder.validatorKey = nodeKey :=
  (@Chain.validatorKey_submit polyCrypto _ _).trans
    (@Chain.validatorKey_of_fromBlocks polyCrypto _ _ _ _ (eq_ok_orKeep transfer_evaluated.1))

theorem transferring_repeatable :
    Along (@Chain.replica polyCrypto) (@Chain.Repeatable polyCrypto) rebuiltHolder transferring := by
  obtain ⟨-, hprice, -⟩ := transfer_evaluated
  have hsound : @ValidatorKey.Sound polyCrypto waitingHolder.validatorKey := by
    rw [waitingHolder_key]
    exact sound_polyKey (by decide)
  exact ⟨trivial, ⟨hsound, hprice⟩, trivial, trivial⟩

theorem receiving_repeatable :
    Along (@Chain.replica polyCrypto) (@Chain.Repeatable polyCrypto) rebuiltHolder receiving :=
  ⟨trivial, @Chain.repeatable_importBlock polyCrypto servedHolder transferBlock
    transfer_evaluated.2.2.1, trivial⟩

theorem reproduced_of_run_transferring :
    transferBlock.body.transitions.length = 1
      ∧ (transferring.foldl (@Chain.replica polyCrypto) rebuiltHolder).blocks
        = [holderGenesis, transferBlock]
      ∧ Throughout (@Chain.replica polyCrypto) (@Chain.Reproducible polyCrypto) rebuiltHolder
        transferring := by
  obtain ⟨hbegins, -, -, hblocks, -, hone⟩ := transfer_evaluated
  exact ⟨hone, hblocks, @Chain.reproduced_of_run polyCrypto nodeKey holderGenesis rebuiltHolder
    (eq_ok_orKeep hbegins) transferring transferring_repeatable⟩

end Sccgub
