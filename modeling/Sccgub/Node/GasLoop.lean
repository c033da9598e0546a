import Mathlib
import Sccgub.Node.Accounting
import Sccgub.Node.Constants

/-!
# Gas of a block

The producer meters each transition on the state it builds on, and the block
against its limit.  What the gas loop admits has passed all that the gate asks of
single transitions, and its receipts declare what the meter says; the limit and
the base price together bound how many transitions there can be.
-/

namespace Sccgub

open Bincode FixedWidth Fallible Runs

/-! ## Gas of one transition -/

namespace GasMeter

/-- Charges have been put on the meter, within its limit. -/
structure Draws (before after : GasMeter) : Prop where
  limit : after.limit = before.limit
  pricing : after.pricing = before.pricing
  used : before.used.toNat ≤ after.used.toNat
  within : after.used.toNat ≤ before.limit.toNat

theorem charge_eq_ok {self after : GasMeter} {amount : UInt64} {operation : String}
    (h : self.charge amount operation = .ok after) :
    self.Draws after ∧ min amount.toNat (2 ^ 64 - 1) ≤ after.used.toNat := by
  unfold charge at h
  dsimp only at h
  split at h
  · cases h
  · rename_i hlimit
    obtain rfl := Except.ok.inj h
    refine ⟨⟨rfl, rfl, ?_, UInt64.le_iff_toNat_le.mp (UInt64.not_lt.mp hlimit)⟩, ?_⟩
    · have := self.used.toNat_lt
      simp only [toNat_saturatingAdd]
      omega
    · simp only [toNat_saturatingAdd]
      omega

theorem Draws.trans {a b c : GasMeter} (hab : a.Draws b) (hbc : b.Draws c) : a.Draws c :=
  ⟨hbc.limit.trans hab.limit, hbc.pricing.trans hab.pricing, hab.used.trans hbc.used,
    hab.limit ▸ hbc.within⟩

end GasMeter

section

variable [Crypto]

omit [Crypto] in
/-- What a metered transition costs: at least the base price, and no more than the
limit. -/
theorem used_of_meterTransition {tx : SymbolicTransition} {state : ManagedWorldState}
    {gasLimit : UInt64} {gas : GasMeter} (h : meterTransition tx state gasLimit = .ok gas) :
    state.consensusParams.gasTxBase.toNat ≤ gas.used.toNat
      ∧ gas.used.toNat ≤ gasLimit.toNat := by
  unfold meterTransition at h
  simp only [bind_eq_ok_iff] at h
  obtain ⟨base, hbase, payload, hpayload, signed, hsigned, hashed, hhashed, hcompute⟩ := h
  obtain ⟨hdraws, hcost⟩ := GasMeter.charge_eq_ok hbase
  have hpayload := (GasMeter.charge_eq_ok hpayload).1
  have hsigned := (GasMeter.charge_eq_ok hsigned).1
  have hhashed := (GasMeter.charge_eq_ok hhashed).1
  have hcompute := (GasMeter.charge_eq_ok hcompute).1
  have hrest := hpayload.used.trans (hsigned.used.trans (hhashed.used.trans hcompute.used))
  refine ⟨?_, ?_⟩
  · have hlt := state.consensusParams.gasTxBase.toNat_lt
    have hprice : min state.consensusParams.gasTxBase.toNat (2 ^ 64 - 1) ≤ base.used.toNat := hcost
    omega
  · have hwithin := hcompute.within
    have hlimit : hashed.limit = gasLimit :=
      hhashed.limit.trans (hsigned.limit.trans (hpayload.limit.trans hdraws.limit))
    rw [← hlimit]
    exact hwithin

/-- A transition with its receipt, as the loop admits it on a state. -/
structure AdmittedOn (start : ManagedWorldState) (tx : SymbolicTransition)
    (receipt : CausalReceipt) : Prop where
  phases : ∀ phase, isPerTxPhase phase = true → (phiCheckSingleTx phase tx start).passed = true
  txId : receipt.txId = tx.txId
  verdict : receipt.verdict = .accept
  unsealed : receipt.postStateRoot = unsealedRoot
  gas : ∃ gas, meterTransition tx start start.consensusParams.defaultTxGasLimit = .ok gas
    ∧ receipt.resourceUsed.computeSteps = gas.used

/-- The nonces of the state play no part. -/
theorem admittedOn_of_accepted {start state : ManagedWorldState} {tx : SymbolicTransition}
    (hstate : state = { start with agentNonces := state.agentNonces })
    (h : (validateTransitionMetered tx state
      state.consensusParams.defaultTxGasLimit).1.verdict.isAccepted = true) :
    AdmittedOn start tx
        (validateTransitionMetered tx state state.consensusParams.defaultTxGasLimit).1
      ∧ (validateTransitionMetered tx state
        state.consensusParams.defaultTxGasLimit).1.resourceUsed.computeSteps
        = (validateTransitionMetered tx state state.consensusParams.defaultTxGasLimit).2 := by
  have hvalid := transitionValid_of_accepted h
  have honto : state = start.onto state := by
    rw [hstate]
    rfl
  have hphases : ∀ phase, isPerTxPhase phase = true →
      (phiCheckSingleTx phase tx start).passed = true := by
    intro phase hphase
    have hpassed := hvalid.phases phase hphase
    rw [honto, phiCheckSingleTx_onto] at hpassed
    exact hpassed
  have hmeter : meterTransition tx state state.consensusParams.defaultTxGasLimit
      = meterTransition tx start start.consensusParams.defaultTxGasLimit := by
    rw [hstate]
    rfl
  unfold validateTransitionMetered at h ⊢
  rw [hmeter] at h ⊢
  rcases hgas : meterTransition tx start start.consensusParams.defaultTxGasLimit with ⟨e, gas⟩ | gas
  · rw [hgas] at h
    cases h
  · rw [hgas] at h
    rcases hverdict : validateTransition tx state with errors | ⟨⟩
    · rw [hverdict] at h
      cases h
    · exact ⟨⟨hphases, rfl, rfl, rfl, gas, hgas, rfl⟩, rfl⟩

omit [Crypto] in
theorem exists_left_of_mem {α β : Type} {R : α → β → Prop} {l : List α} {l' : List β}
    (h : List.Forall₂ R l l') {b : β} (hb : b ∈ l') : ∃ a ∈ l, R a b := by
  obtain ⟨i, hi, rfl⟩ := List.getElem_of_mem hb
  have hlt : i < l.length := h.length_eq ▸ hi
  exact ⟨l[i], List.getElem_mem hlt, (List.forall₂_iff_get.mp h).2 i hlt hi⟩

/-! ## The loop -/

/-- The steps that the receipts declare. -/
def stepsOf (receipts : List CausalReceipt) : Nat :=
  (receipts.map fun receipt => receipt.resourceUsed.computeSteps.toNat).sum

/-- Where the loop stands: what it has admitted on the state it started from, and
what that has cost. -/
structure GasLoop.Tallied (start : ManagedWorldState) (limit : UInt64) (loop : GasLoop) : Prop where
  state : loop.state = { start with agentNonces := loop.state.agentNonces }
  admitted : List.Forall₂ (AdmittedOn start) loop.accepted loop.receipts
  gasLimit : loop.gas.limit = limit
  within : loop.gas.used.toNat ≤ limit.toNat
  used : loop.gas.used.toNat = stepsOf loop.receipts

omit [Crypto] in
/-- What is expected is what is checked. -/
theorem checkNonce_of_expectedNonce {state : ManagedWorldState} {agentId : AgentId}
    {nonce : BitVec 128} (hpos : nonce ≠ 0) (h : expectedNonce state agentId = some nonce) :
    ∃ next, state.checkNonce agentId nonce = .ok next := by
  unfold expectedNonce at h
  dsimp only at h
  split at h
  · cases h
  · rename_i hlast
    have hnext : nonce.toNat = (state.agentNonces[agentId]?.getD 0).toNat + 1 := by
      rw [← Option.some.inj h]
      have hone : (1 : BitVec 128).toNat = 1 := rfl
      have hlt := (state.agentNonces[agentId]?.getD 0).isLt
      exact BitVec.toNat_add_of_lt (by omega)
    refine ⟨{ state with agentNonces := state.agentNonces.insert agentId nonce }, ?_⟩
    unfold ManagedWorldState.checkNonce
    rw [if_neg hpos]
    dsimp only
    rw [if_neg hlast, if_neg (not_not.mpr hnext)]

/-- A turn admits the transition with what it cost, or leaves state, gas and
balances as they were. -/
theorem meterOne_cases {blockVersion : UInt32} {stateRoot : Hash} {gasPrice : TensionValue}
    {acc next : GasLoop} {tx : SymbolicTransition}
    (h : meterOne blockVersion stateRoot gasPrice acc tx = some next) :
    (∃ receipt, next = acc.reject receipt)
      ∨ ∃ receipt gasUsed balances state,
        validateTransitionMetered tx acc.state acc.state.consensusParams.defaultTxGasLimit
            = (receipt, gasUsed)
          ∧ receipt.verdict.isAccepted = true ∧ acc.gas.canFit gasUsed = true
          ∧ acc.state.checkNonce tx.actor.agentId tx.nonce = .ok state
          ∧ next = { acc with
              gas := acc.gas.recordTx gasUsed
              balances
              state
              accepted := acc.accepted ++ [tx]
              receipts := acc.receipts ++ [receipt] } := by
  unfold meterOne at h
  split at h
  · exact Or.inl ⟨_, (Option.some.inj h).symm⟩
  · rename_i hnonce
    obtain ⟨hpos, hexpected⟩ := not_or.mp hnonce
    obtain ⟨state, hstate⟩ := checkNonce_of_expectedNonce hpos (not_not.mp hexpected)
    rcases hmetered : validateTransitionMetered tx acc.state
      acc.state.consensusParams.defaultTxGasLimit with ⟨receipt, gasUsed⟩
    rw [hmetered] at h
    dsimp only at h
    split at h
    · cases h
    · rename_i hfits
      split at h
      · rename_i haccepted
        split at h
        · exact Or.inl ⟨_, (Option.some.inj h).symm⟩
        · rename_i balances hpaid
          rw [hstate] at h
          exact Or.inr ⟨receipt, gasUsed, balances, state, rfl, haccepted, by simpa using hfits,
            hstate, (Option.some.inj h).symm⟩
      · exact Or.inl ⟨_, (Option.some.inj h).symm⟩

/-- A block limit under the greatest number keeps the tally exact. -/
theorem GasLoop.Tallied.meterOne {start : ManagedWorldState} {limit : UInt64}
    (hlimit : limit.toNat < 2 ^ 64 - 1) {blockVersion : UInt32} {stateRoot : Hash}
    {gasPrice : TensionValue} {acc next : GasLoop} {tx : SymbolicTransition}
    (hacc : acc.Tallied start limit)
    (h : Sccgub.meterOne blockVersion stateRoot gasPrice acc tx = some next) :
    next.Tallied start limit := by
  rcases meterOne_cases h with ⟨receipt, rfl⟩ |
    ⟨receipt, gasUsed, balances, state, hmetered, haccepted, hfits, hnonce, rfl⟩
  · exact ⟨hacc.state, hacc.admitted, hacc.gasLimit, hacc.within, hacc.used⟩
  · have hadmitted := @admittedOn_of_accepted _ _ _ tx hacc.state (by rw [hmetered]; exact haccepted)
    rw [hmetered] at hadmitted
    obtain ⟨hadmitted, hsteps⟩ := hadmitted
    dsimp only at hsteps
    have hroom : min (acc.gas.used.toNat + gasUsed.toNat) (2 ^ 64 - 1) ≤ limit.toNat := by
      have := UInt64.le_iff_toNat_le.mp (of_decide_eq_true hfits)
      rwa [toNat_saturatingAdd, hacc.gasLimit] at this
    have hsum : acc.gas.used.toNat + gasUsed.toNat ≤ limit.toNat := by omega
    refine ⟨?_, List.rel_append hacc.admitted (.cons hadmitted .nil), hacc.gasLimit, ?_, ?_⟩
    · rw [ManagedWorldState.checkNonce_frame hnonce, hacc.state]
    · show (saturatingAdd acc.gas.used gasUsed).toNat ≤ _
      rw [toNat_saturatingAdd]
      exact hroom
    · show (saturatingAdd acc.gas.used gasUsed).toNat = stepsOf (acc.receipts ++ [receipt])
      rw [toNat_saturatingAdd, Nat.min_eq_left (by omega), stepsOf, List.map_append, List.sum_append,
        hacc.used, stepsOf, ← hsteps]
      simp

theorem GasLoop.Tallied.meterAll {start : ManagedWorldState} {limit : UInt64}
    (hlimit : limit.toNat < 2 ^ 64 - 1) {blockVersion : UInt32} {stateRoot : Hash}
    {gasPrice : TensionValue} {acc : GasLoop} (hacc : acc.Tallied start limit)
    (transitions : List SymbolicTransition) :
    (Sccgub.meterAll blockVersion stateRoot gasPrice acc transitions).Tallied start limit := by
  induction transitions generalizing acc with
  | nil => exact hacc
  | cons tx rest ih =>
      rw [Sccgub.meterAll]
      rcases hone : Sccgub.meterOne blockVersion stateRoot gasPrice acc tx with _ | next
      · exact hacc
      · exact ih (hacc.meterOne hlimit hone)

namespace Chain

variable {self : Chain}

/-- What production has admitted. -/
theorem Constant.tallied (h : self.Constant) :
    self.admission.1.Tallied self.state self.state.consensusParams.defaultBlockGasLimit := by
  have hlimit : self.state.consensusParams.defaultBlockGasLimit.toNat < 2 ^ 64 - 1 := by
    rw [h.state.consensusParams]
    decide
  have hstart : GasLoop.Tallied self.state self.state.consensusParams.defaultBlockGasLimit
      { state := self.state
        balances := self.balances
        gas := { limit := self.state.consensusParams.defaultBlockGasLimit } } :=
    ⟨rfl, .nil, rfl, Nat.zero_le _, rfl⟩
  rw [admission_fst]
  exact hstart.meterAll hlimit self.drained

/-- The base price bounds how many transitions there can be. -/
theorem Constant.accepted_lt (h : self.Constant) : self.admission.1.accepted.length < 2 ^ 32 := by
  have htally := h.tallied
  have hcount : ∀ {accepted : List SymbolicTransition} {receipts : List CausalReceipt},
      List.Forall₂ (AdmittedOn self.state) accepted receipts →
        accepted.length * self.state.consensusParams.gasTxBase.toNat ≤ stepsOf receipts := by
    intro accepted receipts hadmitted
    induction hadmitted with
    | nil => simp [stepsOf]
    | cons hfirst _ ih =>
        obtain ⟨gas, hgas, hsteps⟩ := hfirst.gas
        have hcost := (used_of_meterTransition hgas).1
        rw [stepsOf, List.map_cons, List.sum_cons, hsteps, List.length_cons, Nat.succ_mul]
        rw [stepsOf] at ih
        omega
  have hall := (hcount htally.admitted).trans (htally.used ▸ htally.within)
  rw [h.state.consensusParams] at hall
  have hbase : ({} : ConsensusParams).gasTxBase.toNat = 1000 := by decide
  have hblock : ({} : ConsensusParams).defaultBlockGasLimit.toNat = 50000000 := by decide
  rw [hbase, hblock] at hall
  omega

/-! ## What a block declares -/

omit [Crypto] in
theorem stepsOf_sameCharge {receipts receipts' : List CausalReceipt}
    (h : List.Forall₂ SameCharge receipts receipts') : stepsOf receipts' = stepsOf receipts := by
  induction h with
  | nil => rfl
  | cons hfirst _ ih =>
      simp only [stepsOf, List.map_cons, List.sum_cons] at ih ⊢
      rw [hfirst.resourceUsed, ih]

/-- The receipts of a block declare what the meter says of its transitions on the
chain, within the limits of a transition and of a block. -/
structure DeclaresGas (chain : Chain) (block : Block) : Prop where
  metered : List.Forall₂ (fun tx receipt => ∃ gas,
      meterTransition tx chain.state chain.state.consensusParams.defaultTxGasLimit = .ok gas
        ∧ receipt.resourceUsed.computeSteps = gas.used)
    block.body.transitions block.receipts
  perTx : ∀ receipt ∈ block.receipts,
    receipt.resourceUsed.computeSteps ≤ chain.state.consensusParams.defaultTxGasLimit
  total : stepsOf block.receipts ≤ chain.state.consensusParams.defaultBlockGasLimit.toNat

theorem Constant.declaresGas (h : self.Constant) {wallHint : UInt64} {block : Block}
    (hrun : (self.produceBlock wallHint).1 = .ok block) : self.DeclaresGas block := by
  have htally := h.tallied
  rcases h.inMemory.produceBlock_cases wallHint with ⟨e, mempool, herror⟩ |
    ⟨parent, applied, built, -, -, hassemble, -, hproduced⟩
  · rw [herror] at hrun
    cases hrun
  rw [hproduced] at hrun
  obtain rfl := Except.ok.inj hrun
  obtain ⟨receipts, hreceipts, rfl⟩ := assemble_eq_ok hassemble
  have hmetered : List.Forall₂ (fun tx receipt => ∃ gas,
      meterTransition tx self.state self.state.consensusParams.defaultTxGasLimit = .ok gas
        ∧ receipt.resourceUsed.computeSteps = gas.used) self.admission.1.accepted receipts := by
    refine List.forall₂_iff_get.mpr ⟨htally.admitted.length_eq.trans hreceipts.length_eq,
      fun i hi hi' => ?_⟩
    have hmid : i < self.admission.1.receipts.length := htally.admitted.length_eq ▸ hi
    obtain ⟨gas, hgas, hsteps⟩ := ((List.forall₂_iff_get.mp htally.admitted).2 i hi hmid).gas
    have hsame := (List.forall₂_iff_get.mp hreceipts).2 i hmid hi'
    exact ⟨gas, hgas, by rw [hsame.resourceUsed, hsteps]⟩
  refine ⟨hmetered, fun receipt hreceipt => ?_, ?_⟩
  · obtain ⟨tx, -, gas, hgas, hsteps⟩ := exists_left_of_mem hmetered hreceipt
    rw [hsteps]
    exact UInt64.le_iff_toNat_le.mpr (used_of_meterTransition hgas).2
  · show stepsOf receipts ≤ _
    rw [stepsOf_sameCharge hreceipts, ← htally.used]
    exact htally.within

/-- Producers declare their gas, in every state of every run. -/
theorem declaresGas_of_run (blockVersion : UInt32) (finalityMode : FinalityMode)
    (validatorKey : ValidatorKey) (ops : List LedgerOp) :
    Throughout settle (fun chain => ∀ wallHint block,
        (chain.produceBlock wallHint).1 = .ok block → chain.DeclaresGas block)
      (init blockVersion finalityMode validatorKey) ops := by
  refine (constant_run blockVersion finalityMode validatorKey ops).mono fun chain hconstant => ?_
  intro wallHint block hrun
  exact hconstant.declaresGas hrun

end Chain

end

end Sccgub
