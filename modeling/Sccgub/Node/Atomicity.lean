import Mathlib
import Sccgub.Execution.Receipts
import Sccgub.Node.Addressing
import Sccgub.Node.Penalties
import Sccgub.Node.Speculation
import Sccgub.Node.Steps
import Sccgub.State.Nonces

/-!
# What failed operations leave behind

An import and a snapshot restore that fail should leave the chain as it was.
Both change it in place and may fail in between.

An import that fails at the gate has replayed the block on a clone that shares
the store; one that fails on a fee has moved the nonces and charged the fees
before.  A restore replaces the state before it looks at the root.
`Chain.atomic_iff` says when neither happens.
-/

namespace Sccgub

open Bincode FixedWidth WriteThrough

/-! ## Fees an account can pay -/

/-- Each fee in turn is in the account that it is taken from. -/
def FeesCovered (blockVersion : UInt32) (gasPrice : TensionValue) :
    BalanceLedger → List (SymbolicTransition × CausalReceipt) → Prop
  | _, [] => True
  | balances, (tx, receipt) :: rest =>
      let fee := receiptFee gasPrice receipt
      match resolveFeePayer blockVersion balances tx fee with
      | .error _ => False
      | .ok payer =>
          FeesCovered blockVersion gasPrice
            (if 0 < fee.raw.val then
              balances.importBalance payer (balances.balanceOf payer - fee) else balances) rest

theorem le_balanceOf_payer {blockVersion : UInt32} {balances : BalanceLedger}
    {tx : SymbolicTransition} {fee : TensionValue} {payer : Hash} (hpos : 0 < fee.raw.val)
    (h : resolveFeePayer blockVersion balances tx fee = .ok payer) :
    fee.raw ≤ (balances.balanceOf payer).raw := by
  unfold resolveFeePayer at h
  rw [if_neg (not_le.mpr hpos)] at h
  dsimp only at h
  split at h
  · rename_i hactor
    obtain rfl := Except.ok.inj h
    exact hactor
  · split at h
    · rename_i hsigner
      obtain rfl := Except.ok.inj h
      simp only [Bool.and_eq_true, decide_eq_true_eq] at hsigner
      exact hsigner.2
    · cases h

/-- A receipt that belongs to its transition is charged as soon as the payer is
found. -/
theorem chargeFee_of_payer {blockVersion : UInt32} {gasPrice : TensionValue} {acc : Settlement}
    {tx : SymbolicTransition} {receipt : CausalReceipt} {payer : Hash}
    (haccepts : Accepts (tx, receipt))
    (hpayer : resolveFeePayer blockVersion acc.balances tx (receiptFee gasPrice receipt)
      = .ok payer) :
    ∃ acc', chargeFee blockVersion gasPrice acc (tx, receipt) = .ok acc'
      ∧ acc'.balances = if 0 < (receiptFee gasPrice receipt).raw.val then
          acc.balances.importBalance payer
            (acc.balances.balanceOf payer - receiptFee gasPrice receipt)
        else acc.balances := by
  obtain ⟨hid, hverdict⟩ := haccepts
  dsimp only at hid hverdict
  unfold chargeFee
  by_cases hfee : 0 < (receiptFee gasPrice receipt).raw.val
  · have hdebit : acc.balances.debit payer (receiptFee gasPrice receipt)
        = .ok (acc.balances.importBalance payer
          (acc.balances.balanceOf payer - receiptFee gasPrice receipt)) := by
      have hle : (receiptFee gasPrice receipt).raw.val ≤ (acc.balances.balanceOf payer).raw.val :=
        le_balanceOf_payer hfee hpayer
      unfold BalanceLedger.debit
      exact if_neg (Int.not_lt.mpr hle)
    simp [hid, hverdict, hpayer, hfee, hdebit, bind, Except.bind, pure, Except.pure]
  · simp [hid, hverdict, hpayer, hfee, bind, Except.bind, pure, Except.pure]

theorem foldlM_chargeFee_isOk_iff {blockVersion : UInt32} {gasPrice : TensionValue}
    {l : List (SymbolicTransition × CausalReceipt)} (haccepts : ∀ paired ∈ l, Accepts paired)
    (acc : Settlement) :
    (∃ acc', l.foldlM (chargeFee blockVersion gasPrice) acc = .ok acc')
      ↔ FeesCovered blockVersion gasPrice acc.balances l := by
  induction l generalizing acc with
  | nil => exact ⟨fun _ => trivial, fun _ => ⟨acc, rfl⟩⟩
  | cons paired rest ih =>
      obtain ⟨tx, receipt⟩ := paired
      obtain ⟨hfirst, hrest⟩ := List.forall_mem_cons.mp haccepts
      rw [List.foldlM_cons, FeesCovered]
      rcases hpayer : resolveFeePayer blockVersion acc.balances tx (receiptFee gasPrice receipt)
        with e | payer
      · refine ⟨fun ⟨acc', h⟩ => ?_, False.elim⟩
        obtain ⟨next, hnext, -⟩ := Fallible.bind_eq_ok_iff.mp h
        obtain ⟨-, -, payer, hfound, -⟩ := chargeFee_cases hnext
        rw [hpayer] at hfound
        cases hfound
      · obtain ⟨next, hnext, hbalances⟩ := chargeFee_of_payer hfirst hpayer
        rw [hnext]
        dsimp only
        rw [← hbalances]
        exact ih hrest next

section

variable [Crypto]

/-- Only the fees of a block can fail to apply. -/
theorem applyBlock_isOk_iff {state : ManagedWorldState} {balances : BalanceLedger}
    {treasury : Treasury} {transitions : List SymbolicTransition} {receipts : List CausalReceipt}
    {blockVersion : UInt32} {validatorPublicKey : Hash} {gasPrice : TensionValue}
    {height : UInt64} :
    (∃ applied, applyBlock state balances treasury transitions receipts blockVersion
        validatorPublicKey gasPrice height = .ok applied)
      ↔ ∃ charged, chargeFees balances treasury transitions receipts blockVersion gasPrice
        = .ok charged := by
  unfold applyBlock applyBlockEconomics
  rcases chargeFees balances treasury transitions receipts blockVersion gasPrice with e | charged
  · refine ⟨fun ⟨applied, h⟩ => ?_, fun ⟨charged, h⟩ => ?_⟩
    · cases h
    · cases h
  · refine ⟨fun _ => ⟨charged, rfl⟩, fun _ => ?_⟩
    dsimp only [bind, Except.bind, pure, Except.pure]
    split
    · exact ⟨_, rfl⟩
    · exact ⟨_, rfl⟩

/-! ## Import -/

namespace Chain

/-- Trie, nonces, balances and treasury are the same. -/
structure SameLedgers (chain other : Chain) : Prop where
  trie : other.state.trie = chain.state.trie
  agentNonces : other.state.agentNonces = chain.state.agentNonces
  balances : other.balances = chain.balances
  treasury : other.treasury = chain.treasury

def ImportAtomic (self : Chain) (block : Block) : Prop :=
  ∀ e chain, self.importBlock block = (.error e, chain) → self.SameLedgers chain

/-- The balances in memory cover the fees of the block. -/
def CoversFees (self : Chain) (block : Block) : Prop :=
  FeesCovered self.blockVersion self.importGasPrice self.balances
    (block.body.transitions.zip block.receipts)

/-- What the gate replays leaves the store as it is. -/
def StoreKept (self : Chain) (block : Block) : Prop :=
  self.state.trie.durable.map (putAll · (self.state.admitted (self.candidateWrites block)))
    = self.state.trie.durable

/-- The receipts of a block that passes the gate belong to its transitions, so
only the balances decide. -/
theorem chargeFees_isOk_iff_of_candidate {self : Chain} {parent block : Block}
    (hok : self.CandidateOk parent block)
    (hvalid : validateCpog block self.state parent.header.blockId = .valid) :
    (∃ charged, chargeFees self.balances self.treasury block.body.transitions block.receipts
        self.blockVersion self.importGasPrice = .ok charged) ↔ self.CoversFees block := by
  have hpos : block.header.height > 0 := by
    rw [hok.height]
    exact saturatingAdd_one_pos _
  unfold chargeFees CoversFees
  by_cases hempty : block.receipts = []
  · rw [hempty, List.zip_nil_right]
    exact ⟨fun _ => trivial, fun _ => ⟨_, rfl⟩⟩
  · have hpaired := ((receiptsComplete_iff_of_accepted hpos hvalid).mpr (Or.inl hempty)).paired
    have hlen := hpaired.length_eq
    rw [if_neg (by simp [hlen]), if_neg (by simpa using hempty)]
    exact foldlM_chargeFee_isOk_iff (fun paired hmem => List.forall₂_zip hpaired hmem) _

/-- Behind the gate and the nonces comes the application of the block. -/
theorem importBlock_of_accepted {self : Chain} {block : Block} {durable : Option Entries}
    {state : ManagedWorldState}
    (hrun : self.validateCandidateBlock block = (.ok (), self.sharing durable))
    (hnonces : (self.state.sharing durable).validateNonces block.body.transitions = .ok state) :
    self.importBlock block =
      match applyBlock state self.balances self.treasury block.body.transitions block.receipts
          self.blockVersion block.header.validatorId self.importGasPrice block.header.height with
      | .error e =>
          let charged := chargedBeforeError self.balances self.treasury block.body.transitions
            block.receipts self.blockVersion self.importGasPrice
          (.error ("Economics replay failed: " ++ e),
            { self with state, balances := charged.balances, treasury := charged.treasury })
      | .ok applied => (.ok (), (self.sharing durable).commitImported block applied) := by
  have hprice : self.economics.effectiveFee state.tensionField.total
      state.tensionField.currentBudget = self.importGasPrice := by
    rw [ManagedWorldState.validateNonces_frame hnonces]
    rfl
  unfold importBlock
  rw [hrun]
  dsimp only
  rw [show (self.sharing durable).state = self.state.sharing durable from rfl, hnonces, ← hprice]
  rfl

/-- A block that the gate lets through and that fails then has moved a nonce. -/
theorem importAtomic_iff_of_accepted {self : Chain} {block : Block}
    (haccepted : (self.validateCandidateBlock block).1 = .ok ()) :
    self.ImportAtomic block ↔ self.CoversFees block := by
  obtain ⟨parent, -, hok, hvalid⟩ := validateCandidateBlock_eq_ok_iff.mp haccepted
  have hpos : block.header.height > 0 := by
    rw [hok.height]
    exact saturatingAdd_one_pos _
  obtain ⟨final, hfinal⟩ := (validateCpog_eq_valid_iff.mp hvalid).validateNonces hpos
  rw [← chargeFees_isOk_iff_of_candidate hok hvalid]
  have hchain := self.validateCandidateBlock_chain block
  set durable := self.state.trie.durable.map
    (putAll · (self.state.admitted (self.candidateWrites block)))
  have hview : SameView self.state (self.state.sharing durable) := ⟨rfl, rfl, rfl, rfl, rfl, rfl⟩
  obtain ⟨state, hnonces, -⟩ := (hview.validateNonces block.body.transitions).exists_ok hfinal
  have hrun : self.validateCandidateBlock block = (.ok (), self.sharing durable) :=
    Prod.ext haccepted hchain
  unfold ImportAtomic
  rw [importBlock_of_accepted hrun hnonces]
  constructor
  · intro hatomic
    by_contra hcharge
    rcases happly : applyBlock state self.balances self.treasury block.body.transitions
      block.receipts self.blockVersion block.header.validatorId self.importGasPrice
      block.header.height with e | applied
    · rw [happly] at hatomic
      refine ManagedWorldState.agentNonces_moved hnonces (fun hnone => hcharge ?_)
        (hatomic _ _ rfl).agentNonces
      -- no transitions, no receipts: there is nothing to charge
      rw [chargeFees_isOk_iff_of_candidate hok hvalid, CoversFees, hnone]
      trivial
    · exact hcharge (applyBlock_isOk_iff.mp ⟨applied, happly⟩)
  · intro hcharge e chain h
    obtain ⟨applied, happly⟩ := applyBlock_isOk_iff.mpr hcharge
    rw [happly] at h
    cases (Prod.mk.inj h).1

/-- A block that the gate turns away leaves what the gate's replay leaves. -/
theorem importAtomic_iff_of_rejected {self : Chain} {block : Block}
    (hrejected : (self.validateCandidateBlock block).1 ≠ .ok ()) :
    self.ImportAtomic block ↔ self.StoreKept block := by
  have hchain := self.validateCandidateBlock_chain block
  unfold ImportAtomic importBlock StoreKept
  rcases hrun : self.validateCandidateBlock block with ⟨e | ⟨⟩, chain₁⟩
  · rw [hrun] at hchain
    dsimp only at hchain ⊢
    constructor
    · intro hatomic
      have htrie := (hatomic e chain₁ rfl).trie
      rw [hchain, sharing_trie] at htrie
      exact congrArg StateTrie.durable htrie
    · intro hkept e' chain h
      obtain ⟨-, rfl⟩ := Prod.mk.inj h
      rw [hchain, hkept]
      exact ⟨rfl, rfl, rfl, rfl⟩
  · rw [hrun] at hrejected
    exact absurd rfl hrejected

/-! ## Restore -/

/-- What a restore has put in place of the state before it looks at the root. -/
def rebuiltState (snapshot : StateSnapshot) : ManagedWorldState where
  trie := restoredTrie snapshot
  governanceState := { (default : GovernanceState) with finalityMode := snapshot.finalityMode }

/-- The restore as it works on the chain. -/
def restoreInPlace (self : Chain) (snapshot : StateSnapshot) : Except String Unit × Chain :=
  match self.restoreFromSnapshot snapshot with
  | .ok chain => (.ok (), chain)
  | .error e => (.error e, { self with state := rebuiltState snapshot })

def RestoreAtomic (self : Chain) (snapshot : StateSnapshot) : Prop :=
  ∀ e chain, self.restoreInPlace snapshot = (.error e, chain) →
    chain.state = self.state ∧ chain.balances = self.balances ∧ chain.treasury = self.treasury

theorem restoreAtomic_iff (self : Chain) (snapshot : StateSnapshot) :
    self.RestoreAtomic snapshot ↔
      (StateTrie.new.insertAll snapshot.trieEntries).rootReadonly = snapshot.stateRoot
        ∨ self.state = rebuiltState snapshot := by
  unfold RestoreAtomic restoreInPlace restoreFromSnapshot
  dsimp only
  by_cases hroot : (StateTrie.new.insertAll snapshot.trieEntries).rootReadonly = snapshot.stateRoot
  · rw [if_neg (not_not.mpr hroot)]
    refine ⟨fun _ => Or.inl hroot, fun _ e chain h => ?_⟩
    cases (Prod.mk.inj h).1
  · rw [if_pos hroot]
    constructor
    · exact fun hatomic => Or.inr (hatomic _ _ rfl).1.symm
    · rintro (hmatch | hsame) e chain h
      · exact absurd hmatch hroot
      · obtain ⟨-, rfl⟩ := Prod.mk.inj h
        exact ⟨hsame.symm, rfl, rfl⟩

/-! ## Both -/

/-- A failed import leaves the ledgers exactly when the balances in memory cover
the fees of an accepted block, and the replay of a rejected one writes nothing
new to the store; a failed restore exactly when the rebuilt state is the one
before. -/
theorem atomic_iff (self : Chain) (block : Block) (snapshot : StateSnapshot) :
    (self.ImportAtomic block ↔
        ((self.validateCandidateBlock block).1 = .ok () → self.CoversFees block)
          ∧ ((self.validateCandidateBlock block).1 ≠ .ok () → self.StoreKept block))
      ∧ (self.RestoreAtomic snapshot ↔
        (StateTrie.new.insertAll snapshot.trieEntries).rootReadonly = snapshot.stateRoot
          ∨ self.state = rebuiltState snapshot) := by
  refine ⟨?_, self.restoreAtomic_iff snapshot⟩
  by_cases haccepted : (self.validateCandidateBlock block).1 = .ok ()
  · rw [importAtomic_iff_of_accepted haccepted]
    exact ⟨fun h => ⟨fun _ => h, fun hnot => absurd haccepted hnot⟩, fun h => h.1 haccepted⟩
  · rw [importAtomic_iff_of_rejected haccepted]
    exact ⟨fun h => ⟨fun hok => absurd hok haccepted, fun _ => h⟩, fun h => h.2 haccepted⟩

end Chain

end

/-! ## A fee that memory no longer has, and a snapshot without entries -/

/-- The holder keeps about thirty-six thousand tokens after the first block. -/
def spentChain : Chain :=
  (@Chain.produceBlock polyCrypto (withPending
    (@Chain.init polyCrypto legacyBlockVersion .deterministic nodeKey) [transferOut 1 960000]) 0).2

/-- The next block, by the producer itself. -/
def nextBlocks : List Block :=
  (@Chain.produceBlock polyCrypto (withPending spentChain [transferOut 2 1]) 0).2.blocks.drop 2

/-- A penalty of thirty-two thousand, which the trie does not know of. -/
def slashedChain : Chain :=
  spentChain.penalizeDoubleSign
    { validatorId := Hash.ofByte 9
      height := 1
      round := 0
      voteType := .prevote
      blockHashA := Hash.ofByte 1
      blockHashB := Hash.ofByte 2 } 1

/-- A snapshot that lost its entries on the way. -/
def emptiedSnapshot : StateSnapshot :=
  { @Chain.createSnapshot polyCrypto genesisChain with trieEntries := [] }

theorem failures_move_state :
    (∃ block ∈ nextBlocks, ¬ @Chain.ImportAtomic polyCrypto slashedChain block)
      ∧ ¬ @Chain.RestoreAtomic polyCrypto genesisChain emptiedSnapshot := by
  refine ⟨?_, fun hatomic => ?_⟩
  · have hfail : nextBlocks.any (fun block =>
        let run := @Chain.importBlock polyCrypto slashedChain block
        !run.1.isOk && run.2.state.agentNonces.toList != slashedChain.state.agentNonces.toList)
          = true := by
      decide +kernel
    obtain ⟨block, hblock, hrun⟩ := List.any_eq_true.mp hfail
    dsimp only at hrun
    rw [Bool.and_eq_true, Bool.not_eq_true', bne_iff_ne] at hrun
    refine ⟨block, hblock, fun hatomic => hrun.2 ?_⟩
    rcases himport : @Chain.importBlock polyCrypto slashedChain block with ⟨e | ⟨⟩, chain⟩
    · rw [(hatomic e chain himport).agentNonces]
    · rw [himport] at hrun
      cases hrun.1
  · have hfail : (@Chain.restoreInPlace polyCrypto genesisChain emptiedSnapshot).1.isOk = false := by
      decide +kernel
    have hlost : (@Chain.restoreInPlace polyCrypto genesisChain
        emptiedSnapshot).2.state.trie.store.isEmpty ≠ genesisChain.state.trie.store.isEmpty := by
      decide +kernel
    rcases hrun : @Chain.restoreInPlace polyCrypto genesisChain emptiedSnapshot with ⟨e | ⟨⟩, chain⟩
    · rw [hrun] at hlost
      exact hlost (congrArg (·.trie.store.isEmpty) (hatomic e chain hrun).1)
    · rw [hrun] at hfail
      cases hfail

end Sccgub
