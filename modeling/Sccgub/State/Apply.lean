import Mathlib
import Sccgub.Fallible
import Sccgub.State.World

/-!
# Block application

Balances, treasury, and the two functions every path that applies a block goes
through: fee collection with the block reward, then the payloads.  Both end by
writing the accounts they changed to the trie, in account order.

The ledger and the treasury are values beside the trie; `balancesFromTrie` and
`treasuryFromTrie` read them back from it and fail on a malformed entry.

What a block writes is a list that ledger, treasury and block determine:
`applyBlock_eq` says that applying a block is letting that list through to the
trie.
-/

namespace Sccgub

open Bincode FixedWidth WriteThrough

/-! ## Balances -/

structure BalanceLedger where
  balances : Std.ExtTreeMap Hash TensionValue := ∅
  deriving DecidableEq

namespace BalanceLedger

def balanceOf (self : BalanceLedger) (agent : AgentId) : TensionValue :=
  self.balances[agent]?.getD .zero

def importBalance (self : BalanceLedger) (agent : AgentId) (amount : TensionValue) :
    BalanceLedger :=
  ⟨self.balances.insert agent amount⟩

def credit (self : BalanceLedger) (agent : AgentId) (amount : TensionValue) : BalanceLedger :=
  self.importBalance agent (self.balanceOf agent + amount)

def debit (self : BalanceLedger) (agent : AgentId) (amount : TensionValue) :
    Except String BalanceLedger :=
  let current := self.balanceOf agent
  if current.raw < amount.raw then
    .error s!"Insufficient balance: have {current.display}, need {amount.display}"
  else .ok (self.importBalance agent (current - amount))

def transfer (self : BalanceLedger) («from» «to» : AgentId) (amount : TensionValue) :
    Except String BalanceLedger :=
  if amount.raw.val ≤ 0 then .error "Transfer amount must be positive"
  else if «from» = «to» then .error "Cannot transfer to self"
  else do
    let debited ← self.debit «from» amount
    return debited.credit «to» amount

/-- Hash over the accounts in order. -/
def balanceRoot [Crypto] (self : BalanceLedger) : Hash :=
  if self.balances.isEmpty then zeroHash
  else blake3Hash (self.balances.toList.flatMap fun (agent, balance) =>
    agent.toList ++ leBytes 16 balance.raw.toBits)

end BalanceLedger

/-! ## Treasury -/

@[ext] structure Treasury where
  pendingFees : TensionValue := .zero
  totalFeesCollected : TensionValue := .zero
  totalRewardsDistributed : TensionValue := .zero
  totalBurned : TensionValue := .zero
  epoch : UInt64 := 0
  epochFees : TensionValue := .zero
  epochRewards : TensionValue := .zero
  deriving DecidableEq

namespace Treasury

def clampNonNegative (amount : TensionValue) : TensionValue :=
  if amount.raw.val < 0 then .zero else amount

def collectFee (self : Treasury) (amount : TensionValue) : Treasury :=
  let safe := clampNonNegative amount
  { self with
    pendingFees := self.pendingFees + safe
    totalFeesCollected := self.totalFeesCollected + safe
    epochFees := self.epochFees + safe }

/-- Drawn from the pending fees, as far as they go. -/
def distributeReward (self : Treasury) (amount : TensionValue) : TensionValue × Treasury :=
  let safe := clampNonNegative amount
  let actual := if self.pendingFees.raw < safe.raw then self.pendingFees else safe
  (actual, { self with
    pendingFees := self.pendingFees - actual
    totalRewardsDistributed := self.totalRewardsDistributed + actual
    epochRewards := self.epochRewards + actual })

def burn (self : Treasury) (amount : TensionValue) : Except String Treasury :=
  if amount.raw.val < 0 then .error "Cannot burn negative amount"
  else if self.pendingFees.raw < amount.raw then .error "Cannot burn more than pending fees"
  else .ok { self with
    pendingFees := self.pendingFees - amount
    totalBurned := self.totalBurned + amount }

def advanceEpoch (self : Treasury) : Treasury :=
  { self with epoch := self.epoch + 1, epochFees := .zero, epochRewards := .zero }

end Treasury

def defaultBlockReward : TensionValue := .fromInteger 10

def treasuryCounterKey (suffix : String) : Bytes := nsTreasury ++ utf8 suffix

def encodeTension (value : TensionValue) : Bytes := leBytes 16 value.raw.toBits

def decodeTension (key value : Bytes) : Except String TensionValue :=
  if value.length ≠ 16 then
    .error s!"Malformed treasury entry: {fromUtf8Lossy key} has value length {value.length} (expected 16)"
  else .ok ⟨I128.ofBits (ofLeBytes value)⟩

def decodeEpoch (key value : Bytes) : Except String UInt64 :=
  if value.length ≠ 8 then
    .error s!"Malformed treasury epoch entry: {fromUtf8Lossy key} has value length {value.length} (expected 8)"
  else .ok (UInt64.ofNat (ofLeBytes value))

def treasuryStateWrites (treasury : Treasury) : List StateWrite :=
  [⟨treasuryCounterKey "pending_fees", encodeTension treasury.pendingFees⟩,
    ⟨treasuryCounterKey "total_fees_collected", encodeTension treasury.totalFeesCollected⟩,
    ⟨treasuryCounterKey "total_rewards_distributed",
      encodeTension treasury.totalRewardsDistributed⟩,
    ⟨treasuryCounterKey "total_burned", encodeTension treasury.totalBurned⟩,
    ⟨treasuryCounterKey "epoch", leBytes 8 treasury.epoch.toNat⟩,
    ⟨treasuryCounterKey "epoch_fees", encodeTension treasury.epochFees⟩,
    ⟨treasuryCounterKey "epoch_rewards", encodeTension treasury.epochRewards⟩]

def stateHasTreasuryKeys (state : ManagedWorldState) : Bool :=
  state.trie.store.toList.any fun entry => startsWith entry.1 nsTreasury

def commitTreasuryState (state : ManagedWorldState) (treasury : Treasury) : ManagedWorldState :=
  state.applyDelta ⟨treasuryStateWrites treasury, []⟩

def readTreasuryEntry (treasury : Treasury) : Bytes × Bytes → Except String Treasury
  | (key, value) =>
      if !startsWith key nsTreasury then .ok treasury
      else if key = treasuryCounterKey "pending_fees" then
        (decodeTension key value).map fun v => { treasury with pendingFees := v }
      else if key = treasuryCounterKey "total_fees_collected" then
        (decodeTension key value).map fun v => { treasury with totalFeesCollected := v }
      else if key = treasuryCounterKey "total_rewards_distributed" then
        (decodeTension key value).map fun v => { treasury with totalRewardsDistributed := v }
      else if key = treasuryCounterKey "total_burned" then
        (decodeTension key value).map fun v => { treasury with totalBurned := v }
      else if key = treasuryCounterKey "epoch" then
        (decodeEpoch key value).map fun v => { treasury with epoch := v }
      else if key = treasuryCounterKey "epoch_fees" then
        (decodeTension key value).map fun v => { treasury with epochFees := v }
      else if key = treasuryCounterKey "epoch_rewards" then
        (decodeTension key value).map fun v => { treasury with epochRewards := v }
      else .error s!"Unknown treasury key in trie: {fromUtf8Lossy key}"

def treasuryFromTrie (state : ManagedWorldState) : Except String Treasury :=
  state.trie.store.toList.foldlM readTreasuryEntry {}

/-! ## Fees and reward -/

structure BlockEconomicsOutcome where
  txDeltas : List StateDelta := []
  txFees : List TensionValue := []
  txFeePayers : List Hash := []
  totalFees : TensionValue := .zero
  actualReward : TensionValue := .zero
  deriving DecidableEq

/-- Ledger and treasury on the way through a block, with the accounts changed
so far. -/
structure Settlement where
  balances : BalanceLedger
  treasury : Treasury
  changed : HashSet := ∅
  outcome : BlockEconomicsOutcome := {}

def balanceWrite (balances : BalanceLedger) (agentId : Hash) : StateWrite :=
  ⟨balanceKey agentId, leBytes 16 (balances.balanceOf agentId).raw.toBits⟩

/-- One delta for each account, in account order. -/
def commitBalanceAccounts (state : ManagedWorldState) (balances : BalanceLedger)
    (changed : HashSet) : ManagedWorldState :=
  changed.toList.foldl (fun s agentId => s.applyDelta ⟨[balanceWrite balances agentId], []⟩) state

def mergeStateDeltas (left right : StateDelta) : StateDelta :=
  ⟨left.writes ++ right.writes, left.deletes ++ right.deletes⟩

section

variable [Crypto]

/-- The first version pays the signing key itself, later ones the agent account
derived from it. -/
def validatorSpendAccount (blockVersion : UInt32) (validatorPublicKey : Hash) : Hash :=
  if blockVersion = legacyBlockVersion then validatorPublicKey
  else blake3HashConcat [validatorPublicKey.toList,
    canonicalBytes MfidelAtomicSeal.codec (MfidelAtomicSeal.fromHeight 0)]

end

/-- The actor's account if it can pay; under the first version the signer's
otherwise. -/
def resolveFeePayer (blockVersion : UInt32) (balances : BalanceLedger) (tx : SymbolicTransition)
    (fee : TensionValue) : Except String Hash :=
  if fee.raw.val ≤ 0 then .ok tx.actor.agentId
  else
    let actorBalance := balances.balanceOf tx.actor.agentId
    if fee.raw ≤ actorBalance.raw then .ok tx.actor.agentId
    else
      let signerAccount := tx.actor.publicKey
      if blockVersion = legacyBlockVersion && signerAccount ≠ tx.actor.agentId
          && decide (fee.raw ≤ (balances.balanceOf signerAccount).raw) then .ok signerAccount
      else .error s!"Insufficient fee balance for tx {hexEncode tx.txId.toList}: actor {hexEncode tx.actor.agentId.toList} has {actorBalance.display}, signer {hexEncode signerAccount.toList} has {(balances.balanceOf signerAccount).display}, fee {fee.display}"

def receiptFee (gasPrice : TensionValue) (receipt : CausalReceipt) : TensionValue :=
  ⟨I128.saturate (receipt.resourceUsed.computeSteps.toNat * gasPrice.raw.val)⟩

/-- The fee of one transition, from its receipt. -/
def chargeFee (blockVersion : UInt32) (gasPrice : TensionValue) (acc : Settlement)
    (paired : SymbolicTransition × CausalReceipt) : Except String Settlement := do
  let (tx, receipt) := paired
  if receipt.txId ≠ tx.txId then
    throw s!"Receipt/transition mismatch: tx {hexEncode tx.txId.toList} paired with receipt {hexEncode receipt.txId.toList}"
  if !receipt.verdict.isAccepted then
    throw s!"Included receipt for tx {hexEncode tx.txId.toList} is not accepted"
  let fee := receiptFee gasPrice receipt
  let payer ← resolveFeePayer blockVersion acc.balances tx fee
  let record (delta : StateDelta) (total : TensionValue) : BlockEconomicsOutcome :=
    { acc.outcome with
      txDeltas := acc.outcome.txDeltas ++ [delta]
      txFees := acc.outcome.txFees ++ [fee]
      txFeePayers := acc.outcome.txFeePayers ++ [payer]
      totalFees := total }
  if fee.raw.val > 0 then
    let balances ← match acc.balances.debit payer fee with
      | .ok balances => .ok balances
      | .error e => .error s!"Fee debit failed for tx {hexEncode tx.txId.toList} from payer {hexEncode payer.toList}: {e}"
    let treasury := acc.treasury.collectFee fee
    return {
      balances
      treasury
      changed := acc.changed.insert payer
      outcome := record ⟨balanceWrite balances payer :: treasuryStateWrites treasury, []⟩
        (acc.outcome.totalFees + fee) }
  else
    return { acc with outcome := record default acc.outcome.totalFees }

/-- Without receipts nothing is charged. -/
def chargeFees (balances : BalanceLedger) (treasury : Treasury)
    (transitions : List SymbolicTransition) (receipts : List CausalReceipt)
    (blockVersion : UInt32) (gasPrice : TensionValue) : Except String Settlement :=
  if !receipts.isEmpty && receipts.length ≠ transitions.length then
    .error s!"Receipt count mismatch for economics replay: {transitions.length} transitions, {receipts.length} receipts"
  else if receipts.isEmpty then
    .ok
      { balances
        treasury
        outcome :=
          { txDeltas := transitions.map fun _ => default
            txFees := transitions.map fun _ => .zero
            txFeePayers := transitions.map fun tx => tx.actor.agentId } }
  else
    (transitions.zip receipts).foldlM (chargeFee blockVersion gasPrice) { balances, treasury }

/-- What ledger and treasury have been charged when the collection fails. -/
def chargedBeforeError (balances : BalanceLedger) (treasury : Treasury)
    (transitions : List SymbolicTransition) (receipts : List CausalReceipt)
    (blockVersion : UInt32) (gasPrice : TensionValue) : Settlement :=
  if !receipts.isEmpty && receipts.length ≠ transitions.length then { balances, treasury }
  else
    (Fallible.foldlUntil (chargeFee blockVersion gasPrice) { balances, treasury }
      (transitions.zip receipts)).1

/-- The block reward goes to one account. -/
def payReward (account : Hash) (requestedReward : TensionValue) (acc : Settlement) : Settlement :=
  let (actualReward, treasury) := acc.treasury.distributeReward requestedReward
  let outcome := { acc.outcome with actualReward }
  if actualReward.raw.val > 0 then
    { balances := acc.balances.credit account actualReward
      treasury
      changed := acc.changed.insert account
      outcome }
  else { acc with treasury, outcome }

def commitSettlement (state : ManagedWorldState) (acc : Settlement) : ManagedWorldState :=
  let state := commitBalanceAccounts state acc.balances acc.changed
  if acc.outcome.totalFees.raw.val > 0 || acc.outcome.actualReward.raw.val > 0
      || stateHasTreasuryKeys state then
    commitTreasuryState state acc.treasury
  else state

/-- Fees, then the reward, then the changed accounts and the treasury into the
trie.  A failure comes before the first write. -/
def applyBlockEconomics [Crypto] (state : ManagedWorldState) (balances : BalanceLedger)
    (treasury : Treasury) (transitions : List SymbolicTransition) (receipts : List CausalReceipt)
    (blockVersion : UInt32) (validatorPublicKey : Hash) (gasPrice requestedReward : TensionValue) :
    Except String (ManagedWorldState × Settlement) := do
  let charged ← chargeFees balances treasury transitions receipts blockVersion gasPrice
  let account := validatorSpendAccount blockVersion validatorPublicKey
  let settled := payReward account requestedReward charged
  return (commitSettlement state settled, settled)

/-! ## Payloads -/

structure TransitionRun where
  state : ManagedWorldState
  balances : BalanceLedger
  appliedIds : HashSet := ∅
  changed : HashSet := ∅
  deltas : List StateDelta := []

/-- A second transition with the same id has no effect; neither has a transfer
that fails. -/
def applyTransition (run : TransitionRun) (tx : SymbolicTransition) : TransitionRun :=
  if tx.txId ∈ run.appliedIds then { run with deltas := run.deltas ++ [default] }
  else
    let run := { run with appliedIds := run.appliedIds.insert tx.txId }
    match tx.payload with
    | .write key value =>
        let delta : StateDelta := ⟨[⟨key, value⟩], []⟩
        { run with state := run.state.applyDelta delta, deltas := run.deltas ++ [delta] }
    | .assetTransfer source target amount =>
        match run.balances.transfer source target ⟨amount⟩ with
        | .ok balances =>
            { run with
              balances
              changed := (run.changed.insert source).insert target
              deltas := run.deltas ++
                [⟨[balanceWrite balances source, balanceWrite balances target], []⟩] }
        | .error _ => { run with deltas := run.deltas ++ [default] }
    | _ => { run with deltas := run.deltas ++ [default] }

/-- State, ledger and the delta of each transition, in input order. -/
def applyBlockTransitions (state : ManagedWorldState) (balances : BalanceLedger)
    (transitions : List SymbolicTransition) :
    ManagedWorldState × BalanceLedger × List StateDelta :=
  let run := transitions.foldl applyTransition { state, balances }
  (commitBalanceAccounts run.state run.balances run.changed, run.balances, run.deltas)

def combineReceiptDeltas (economicsDeltas transitionDeltas : List StateDelta) :
    Except String (List StateDelta) :=
  if economicsDeltas.length ≠ transitionDeltas.length then
    .error s!"Per-tx delta length mismatch: economics={economicsDeltas.length}, transitions={transitionDeltas.length}"
  else .ok (economicsDeltas.zipWith mergeStateDeltas transitionDeltas)

/-- One million to the first validator. -/
def applyGenesisMint (state : ManagedWorldState) (balances : BalanceLedger) (validatorId : Hash) :
    ManagedWorldState × BalanceLedger :=
  let amount := TensionValue.fromInteger 1000000
  (state.applyDelta ⟨[⟨balanceKey validatorId, leBytes 16 amount.raw.toBits⟩], []⟩,
    balances.credit validatorId amount)

def readBalanceEntry (balances : BalanceLedger) : Bytes × Bytes → Except String BalanceLedger
  | (key, value) =>
      if !startsWith key nsBalance then .ok balances
      else if value.length ≠ 16 then
        .error s!"Malformed balance entry: key {fromUtf8Lossy key} has value length {value.length} (expected 16)"
      else
        match hexDecode (key.drop nsBalance.length) with
        | none => .error s!"Malformed balance key: {fromUtf8Lossy key} (hex decode failed)"
        | some agentBytes =>
            if h : agentBytes.length = 32 then
              .ok (balances.importBalance ⟨agentBytes, h⟩ ⟨I128.ofBits (ofLeBytes value)⟩)
            else
              .error s!"Malformed balance key: {fromUtf8Lossy key} (agent ID {agentBytes.length} bytes, expected 32)"

def balancesFromTrie (state : ManagedWorldState) : Except String BalanceLedger :=
  state.trie.store.toList.foldlM readBalanceEntry {}

/-! ## A whole block -/

structure AppliedBlock where
  state : ManagedWorldState
  balances : BalanceLedger
  treasury : Treasury
  outcome : BlockEconomicsOutcome
  deltas : List StateDelta

/-- The sequence that production, import, reconstruction and the replay of
validation share: economics, payloads, and at every hundredth height the epoch
roll-over. -/
def applyBlock [Crypto] (state : ManagedWorldState) (balances : BalanceLedger)
    (treasury : Treasury) (transitions : List SymbolicTransition) (receipts : List CausalReceipt)
    (blockVersion : UInt32) (validatorPublicKey : Hash) (gasPrice : TensionValue)
    (height : UInt64) : Except String AppliedBlock := do
  let (state, settled) ← applyBlockEconomics state balances treasury transitions receipts
    blockVersion validatorPublicKey gasPrice defaultBlockReward
  let (state, balances, deltas) := applyBlockTransitions state settled.balances transitions
  if height % 100 = 0 then
    let treasury := settled.treasury.advanceEpoch
    return ⟨commitTreasuryState state treasury, balances, treasury, settled.outcome, deltas⟩
  else
    return ⟨state, balances, settled.treasury, settled.outcome, deltas⟩

/-! ## What a block writes -/

def accountWrites (balances : BalanceLedger) (changed : HashSet) : List StateWrite :=
  changed.toList.map (balanceWrite balances)

def settlementWrites (state : ManagedWorldState) (acc : Settlement) : List StateWrite :=
  let accounts := accountWrites acc.balances acc.changed
  accounts ++
    if acc.outcome.totalFees.raw.val > 0 || acc.outcome.actualReward.raw.val > 0
        || stateHasTreasuryKeys (state.writeAll accounts) then
      treasuryStateWrites acc.treasury
    else []

/-- The writes among the payloads, the first transition of each id counting. -/
def payloadWrites : HashSet → List SymbolicTransition → List StateWrite
  | _, [] => []
  | seen, tx :: rest =>
      if tx.txId ∈ seen then payloadWrites seen rest
      else
        match tx.payload with
        | .write key value => ⟨key, value⟩ :: payloadWrites (seen.insert tx.txId) rest
        | _ => payloadWrites (seen.insert tx.txId) rest

/-- Everything applying a block writes, in order; nothing when the economics
fail. -/
def blockWrites [Crypto] (state : ManagedWorldState) (balances : BalanceLedger)
    (treasury : Treasury) (transitions : List SymbolicTransition) (receipts : List CausalReceipt)
    (blockVersion : UInt32) (validatorPublicKey : Hash) (gasPrice : TensionValue)
    (height : UInt64) : List StateWrite :=
  match chargeFees balances treasury transitions receipts blockVersion gasPrice with
  | .error _ => []
  | .ok charged =>
      let settled := payReward (validatorSpendAccount blockVersion validatorPublicKey)
        defaultBlockReward charged
      let run := transitions.foldl applyTransition { state, balances := settled.balances }
      settlementWrites state settled ++ payloadWrites ∅ transitions
        ++ accountWrites run.balances run.changed
        ++ if height % 100 = 0 then treasuryStateWrites settled.treasury.advanceEpoch else []

theorem commitBalanceAccounts_eq (state : ManagedWorldState) (balances : BalanceLedger)
    (changed : HashSet) :
    commitBalanceAccounts state balances changed = state.writeAll (accountWrites balances changed) := by
  unfold commitBalanceAccounts accountWrites
  generalize changed.toList = accounts
  induction accounts generalizing state with
  | nil => rfl
  | cons a accounts ih =>
      rw [List.foldl_cons, ih, ManagedWorldState.applyDelta_writes,
        ManagedWorldState.writeAll_writeAll]
      rfl

theorem commitSettlement_eq (state : ManagedWorldState) (acc : Settlement) :
    commitSettlement state acc = state.writeAll (settlementWrites state acc) := by
  simp only [commitSettlement, settlementWrites, commitBalanceAccounts_eq]
  split
  · rw [commitTreasuryState, ManagedWorldState.applyDelta_writes,
      ManagedWorldState.writeAll_writeAll]
  · rw [List.append_nil]

/-- The ledger side of a payload does not look at the state. -/
theorem applyTransition_withState (run : TransitionRun) (state : ManagedWorldState)
    (tx : SymbolicTransition) :
    ∃ state', applyTransition { run with state } tx = { applyTransition run tx with state := state' } := by
  unfold applyTransition
  split
  · exact ⟨state, rfl⟩
  · dsimp only
    split
    · exact ⟨_, rfl⟩
    · split
      · exact ⟨state, rfl⟩
      · exact ⟨state, rfl⟩
    · exact ⟨state, rfl⟩

theorem foldl_applyTransition_withState (transitions : List SymbolicTransition)
    (run : TransitionRun) (state : ManagedWorldState) :
    ∃ state', transitions.foldl applyTransition { run with state }
      = { transitions.foldl applyTransition run with state := state' } := by
  induction transitions generalizing run state with
  | nil => exact ⟨state, rfl⟩
  | cons tx rest ih =>
      obtain ⟨state₁, h₁⟩ := applyTransition_withState run state tx
      rw [List.foldl_cons, List.foldl_cons, h₁]
      exact ih (applyTransition run tx) state₁

/-- On the state, the payloads are their writes. -/
theorem foldl_applyTransition_state (transitions : List SymbolicTransition)
    (run : TransitionRun) :
    (transitions.foldl applyTransition run).state
      = run.state.writeAll (payloadWrites run.appliedIds transitions) := by
  induction transitions generalizing run with
  | nil => rfl
  | cons tx rest ih =>
      rw [List.foldl_cons, ih, payloadWrites]
      unfold applyTransition
      split
      · rfl
      · dsimp only
        split
        · rename_i key value hp
          rw [ManagedWorldState.applyDelta_writes, ManagedWorldState.writeAll_writeAll, hp]
          rfl
        · rename_i source target amount hp
          split <;> rw [hp]
        · rename_i hw ht
          split
          · rename_i key value hp
            exact absurd hp (hw key value)
          · rfl

/-- The payload run after some writes: its ledger is that of the bare run. -/
theorem applyBlockTransitions_writeAll (state : ManagedWorldState) (ws : List StateWrite)
    (balances : BalanceLedger) (transitions : List SymbolicTransition) :
    applyBlockTransitions (state.writeAll ws) balances transitions =
      let run := transitions.foldl applyTransition { state, balances }
      (state.writeAll (ws ++ payloadWrites ∅ transitions ++ accountWrites run.balances run.changed),
        run.balances, run.deltas) := by
  obtain ⟨state', hrun⟩ := foldl_applyTransition_withState transitions { state, balances }
    (state.writeAll ws)
  have hstate := foldl_applyTransition_state transitions
    { state := state.writeAll ws, balances := balances }
  simp only [applyBlockTransitions, commitBalanceAccounts_eq]
  rw [hrun] at hstate ⊢
  dsimp only at hstate ⊢
  rw [hstate, ManagedWorldState.writeAll_writeAll, ManagedWorldState.writeAll_writeAll,
    List.append_assoc]

/-- Applying a block is letting its writes through to the trie. -/
theorem applyBlock_eq [Crypto] {state : ManagedWorldState} {balances : BalanceLedger}
    {treasury : Treasury} {transitions : List SymbolicTransition} {receipts : List CausalReceipt}
    {blockVersion : UInt32} {validatorPublicKey : Hash} {gasPrice : TensionValue}
    {height : UInt64} {applied : AppliedBlock}
    (h : applyBlock state balances treasury transitions receipts blockVersion validatorPublicKey
      gasPrice height = .ok applied) :
    applied.state = state.writeAll (blockWrites state balances treasury transitions receipts
      blockVersion validatorPublicKey gasPrice height) := by
  unfold applyBlock applyBlockEconomics at h
  unfold blockWrites
  rcases hc : chargeFees balances treasury transitions receipts blockVersion gasPrice
    with e | charged
  · rw [hc] at h
    cases h
  · rw [hc] at h
    simp only [bind, Except.bind, pure, Except.pure, commitSettlement_eq,
      applyBlockTransitions_writeAll] at h
    dsimp only
    generalize payReward (validatorSpendAccount blockVersion validatorPublicKey)
      defaultBlockReward charged = settled at h ⊢
    generalize transitions.foldl applyTransition { state, balances := settled.balances } = run
      at h ⊢
    simp only [commitTreasuryState, ManagedWorldState.applyDelta_writes,
      ManagedWorldState.writeAll_writeAll] at h
    split at h
    · rename_i hepoch
      cases h
      rw [if_pos hepoch]
    · rename_i hepoch
      cases h
      rw [if_neg hepoch, List.append_nil]

/-- A block that fails does so before its first write. -/
theorem blockWrites_of_error [Crypto] {state : ManagedWorldState} {balances : BalanceLedger}
    {treasury : Treasury} {transitions : List SymbolicTransition} {receipts : List CausalReceipt}
    {blockVersion : UInt32} {validatorPublicKey : Hash} {gasPrice : TensionValue}
    {height : UInt64} {e : String}
    (h : applyBlock state balances treasury transitions receipts blockVersion validatorPublicKey
      gasPrice height = .error e) :
    blockWrites state balances treasury transitions receipts blockVersion validatorPublicKey
      gasPrice height = [] := by
  unfold applyBlock applyBlockEconomics at h
  unfold blockWrites
  rcases hc : chargeFees balances treasury transitions receipts blockVersion gasPrice
    with e | charged
  · rfl
  · rw [hc] at h
    simp only [bind, Except.bind, pure, Except.pure] at h
    split at h
    · cases h
    · cases h

end Sccgub
