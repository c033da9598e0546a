import Mathlib
import Sccgub.Execution.Authorization
import Sccgub.State.Coherence

/-!
# Namespaces of the protocol

A transition that passes the phases writes under `data/`, `contract/`, `norms/`
or, as a governance update, under `treasury/`.  The accounts and the system
entries are out of its reach: after a block they hold what the protocol wrote,
and the ledger can be read back.  The treasury can be read back when no
governance update of the block wrote to it.
-/

namespace Sccgub

open Bincode FixedWidth WriteThrough

/-! ## Where payloads write -/

theorem ontology_passed_iff {tx : SymbolicTransition} {state : ManagedWorldState} :
    (phiCheckSingleTx .ontology tx state).passed = true ↔ checkOntology tx = .allowed := by
  unfold phiCheckSingleTx
  rcases checkOntology tx with _ | _ <;> simp

/-- The namespaces that some kind lets a payload write to. -/
def writableNamespaces : List Bytes := [nsData, nsContract, nsNorms, nsTreasury]

/-- Kind, target and payload together leave four namespaces, the treasury's only
to governance updates. -/
theorem write_namespace {tx : SymbolicTransition} {key value : Bytes}
    (hontology : checkOntology tx = .allowed) (hpayload : checkPayloadConsistency tx = .consistent)
    (hwrite : tx.payload = .write key value) :
    ∃ ns ∈ writableNamespaces, startsWith key ns = true
      ∧ (ns = nsTreasury → tx.intent.kind = .governanceUpdate) := by
  have htarget : (allowedNamespaces tx.intent.kind).any (startsWith tx.intent.target) = true := by
    unfold checkOntology at hontology
    dsimp only at hontology
    split at hontology
    · cases hontology
    · split at hontology
      · assumption
      · cases hontology
  have hkey : (tx.intent.kind = .stateWrite ∨ tx.intent.kind = .contractInvoke
      ∨ tx.intent.kind = .governanceUpdate) ∧ key = tx.intent.target := by
    unfold checkPayloadConsistency at hpayload
    rw [hwrite] at hpayload
    rcases hkind : tx.intent.kind <;> simp_all
  obtain ⟨hkind, rfl⟩ := hkey
  rcases hkind with hkind | hkind | hkind
  · rw [hkind] at htarget ⊢
    obtain ⟨ns, hns, hstart⟩ := List.any_eq_true.mp htarget
    obtain rfl := List.mem_singleton.mp hns
    exact ⟨nsData, by decide, hstart, fun h => absurd h (by decide)⟩
  · rw [hkind] at htarget ⊢
    obtain ⟨ns, hns, hstart⟩ := List.any_eq_true.mp htarget
    obtain rfl := List.mem_singleton.mp hns
    exact ⟨nsContract, by decide, hstart, fun h => absurd h (by decide)⟩
  · rw [hkind] at htarget
    obtain ⟨ns, hns, hstart⟩ := List.any_eq_true.mp htarget
    have hns : ns = nsNorms ∨ ns = nsTreasury := by simpa [allowedNamespaces] using hns
    refine ⟨ns, ?_, hstart, fun _ => hkind⟩
    rcases hns with rfl | rfl <;> decide

/-- Every transition of the list passes every phase that looks at one
transition. -/
def PassPhases (transitions : List SymbolicTransition) (state : ManagedWorldState) : Prop :=
  ∀ tx ∈ transitions, ∀ phase, isPerTxPhase phase = true →
    (phiCheckSingleTx phase tx state).passed = true

theorem passPhases_singleton {tx : SymbolicTransition} {state : ManagedWorldState}
    (h : phiErrors tx state = []) : PassPhases [tx] state := by
  intro tx' htx'
  rw [List.mem_singleton.mp htx']
  exact phiErrors_eq_nil_iff.mp h

theorem PassPhases.write_namespace {transitions : List SymbolicTransition}
    {state : ManagedWorldState} (h : PassPhases transitions state) {seen : HashSet} {w : StateWrite}
    (hw : w ∈ payloadWrites seen transitions) :
    ∃ ns ∈ writableNamespaces, startsWith w.address ns = true := by
  obtain ⟨tx, htx, hpayload⟩ := mem_payloadWrites hw
  obtain ⟨ns, hns, hstart, -⟩ := Sccgub.write_namespace
    (ontology_passed_iff.mp (h tx htx .ontology rfl))
    (execution_passed_iff.mp (h tx htx .execution rfl)).1 hpayload
  exact ⟨ns, hns, hstart⟩

theorem PassPhases.not_startsWith {transitions : List SymbolicTransition}
    {state : ManagedWorldState} (h : PassPhases transitions state) (protocol : Bytes)
    (hprotocol : ∀ ns ∈ writableNamespaces,
      (startsWith ns protocol || startsWith protocol ns) = false) :
    ∀ w ∈ payloadWrites ∅ transitions, startsWith w.address protocol = false := by
  intro w hw
  obtain ⟨ns, hns, hstart⟩ := h.write_namespace hw
  exact startsWith_disjoint hstart (hprotocol ns hns)

/-! ## What the protocol writes -/

/-- The settled accounts with the treasury, and then the accounts that payloads
changed. -/
def protocolWrites (state : ManagedWorldState) (settled : Settlement)
    (transitions : List SymbolicTransition) : List StateWrite :=
  let run := transitions.foldl applyTransition { state, balances := settled.balances }
  settlementWrites state settled ++ accountWrites run.balances run.changed

/-- Writes in the middle of a list do not show at a key they do not touch. -/
theorem get_writeAll_middle {s : ManagedWorldState} {before middle after : List StateWrite}
    {key : Bytes} (h : ∀ w ∈ middle, w.address ≠ key) :
    (s.writeAll (before ++ middle ++ after)).get key = (s.writeAll (before ++ after)).get key := by
  have hnone : lastWrite (s.admitted middle) key = none := by
    refine lastWrite_eq_none fun w hw => ?_
    obtain ⟨w', hw', rfl⟩ := List.mem_map.mp hw
    exact h w' (List.mem_of_mem_filter hw')
  rw [get_writeAll, get_writeAll, ManagedWorldState.admitted_append,
    ManagedWorldState.admitted_append, ManagedWorldState.admitted_append, lastWrite_append,
    lastWrite_append, lastWrite_append, hnone, Option.none_or]

section

variable [Crypto]

/-- After a block whose transitions passed the phases, the system entries are as
they were and the accounts as the protocol wrote them; where a balance entry
fits the size limit, the ledger can be read back.  The same goes for the
treasury when no payload wrote to it. -/
theorem protocol_namespaces_of_passPhases {state state₁ : ManagedWorldState}
    {balances : BalanceLedger} {treasury : Treasury} {transitions : List SymbolicTransition}
    {receipts : List CausalReceipt} {blockVersion : UInt32} {validatorPublicKey : Hash}
    {gasPrice requestedReward : TensionValue} {settled : Settlement}
    (hbalances : balancesFromTrie state = .ok balances)
    (htreasury : treasuryFromTrie state = .ok treasury) (hphases : PassPhases transitions state)
    (heconomics : applyBlockEconomics state balances treasury transitions receipts blockVersion
      validatorPublicKey gasPrice requestedReward = .ok (state₁, settled)) :
    let after := applyBlockTransitions state₁ settled.balances transitions
    let protocol := state.writeAll (protocolWrites state settled transitions)
    let spared := ∀ tx ∈ transitions, ∀ key value, tx.payload = .write key value →
      startsWith key nsTreasury = false
    let fits := balanceKeyLength ≤ state.consensusParams.maxStateEntrySize.toNat
    (∀ key, startsWith key nsSystem = true → after.1.get key = state.get key)
      ∧ (∀ key, startsWith key nsBalance = true → after.1.get key = protocol.get key)
      ∧ (fits → balancesFromTrie after.1 = .ok after.2.1)
      ∧ (spared → ∀ key, startsWith key nsTreasury = true → after.1.get key = protocol.get key)
      ∧ (spared → fits → treasuryFromTrie after.1 = .ok settled.treasury) := by
  intro after protocol spared fits
  have hstate₁ : state₁ = state.writeAll (settlementWrites state settled) := by
    rw [← commitSettlement_eq]
    unfold applyBlockEconomics at heconomics
    rcases hc : chargeFees balances treasury transitions receipts blockVersion gasPrice
      with e | charged
    · rw [hc] at heconomics
      cases heconomics
    · rw [hc] at heconomics
      obtain ⟨hstate, hsettled⟩ := Prod.mk.inj (Except.ok.inj heconomics)
      rw [← hstate, hsettled]
  have hsystem := hphases.not_startsWith nsSystem (by decide)
  have hbalance := hphases.not_startsWith nsBalance (by decide)
  have hspared : spared → ∀ w ∈ payloadWrites ∅ transitions,
      startsWith w.address nsTreasury = false := by
    intro hspared w hw
    obtain ⟨tx, htx, hpayload⟩ := mem_payloadWrites hw
    exact hspared tx htx _ _ hpayload
  have hget : ∀ key, (∀ w ∈ payloadWrites ∅ transitions, w.address ≠ key) →
      after.1.get key = protocol.get key := by
    intro key hkey
    show (applyBlockTransitions state₁ settled.balances transitions).1.get key = _
    rw [hstate₁, applyBlockTransitions_writeAll]
    exact get_writeAll_middle hkey
  have hne : ∀ {ns key : Bytes}, (∀ w ∈ payloadWrites ∅ transitions,
      startsWith w.address ns = false) → startsWith key ns = true →
        ∀ w ∈ payloadWrites ∅ transitions, w.address ≠ key := by
    rintro ns key hns hkey w hw rfl
    rw [hns w hw] at hkey
    cases hkey
  have hlimit : state₁.consensusParams = state.consensusParams := by
    rw [hstate₁]
    rfl
  refine ⟨fun key hkey => ?_, fun key hkey => hget key (hne hbalance hkey), fun hfits => ?_,
    fun hs key hkey => hget key (hne (hspared hs) hkey), fun hs hfits => ?_⟩
  · rw [hget key (hne hsystem hkey)]
    refine get_writeAll_of_ne fun w hw => ?_
    rcases List.mem_append.mp hw with hw | hw
    · rcases List.mem_append.mp hw with hw | hw
      · exact ne_of_startsWith (startsWith_of_mem_accountWrites hw) hkey (by decide)
      · split at hw
        · exact ne_of_startsWith (startsWith_of_mem_treasuryStateWrites hw) hkey (by decide)
        · cases hw
    · exact ne_of_startsWith (startsWith_of_mem_accountWrites hw) hkey (by decide)
  · have hsettled := (coherent_applyBlockEconomics hfits hbalances htreasury heconomics).1
    exact balancesFromTrie_applyBlockTransitions (by rw [hlimit]; exact hfits) hsettled hbalance
  · have hsettled := (coherent_applyBlockEconomics hfits hbalances htreasury heconomics).2
    exact treasuryFromTrie_applyBlockTransitions hsettled (hspared hs)

end

/-! ## Writing to the treasury, and a limit below an account entry -/

def fundedBalances : BalanceLedger := BalanceLedger.importBalance {} (Hash.ofByte 7) (.fromInteger 100)

theorem protocol_namespaces_of_passPhases_theft :
    ∃ state₁ settled, @applyBlockEconomics polyCrypto fundedState fundedBalances {} [theft] []
        canonicalAgentBlockVersion (Hash.ofByte 1) .zero .zero = .ok (state₁, settled)
      ∧ balancesFromTrie (applyBlockTransitions state₁ settled.balances [theft]).1
        = .ok (applyBlockTransitions state₁ settled.balances [theft]).2.1
      ∧ treasuryFromTrie (applyBlockTransitions state₁ settled.balances [theft]).1
        = .ok settled.treasury := by
  refine ⟨_, _, rfl, ?_⟩
  obtain ⟨-, -, hledger, -, htreasury⟩ := @protocol_namespaces_of_passPhases polyCrypto
    fundedState _ fundedBalances {} [theft] [] canonicalAgentBlockVersion (Hash.ofByte 1) .zero .zero _
    (by decide +kernel) (by decide +kernel) (passPhases_singleton (by decide +kernel)) rfl
  refine ⟨hledger (by decide +kernel), htreasury ?_ (by decide +kernel)⟩
  intro tx htx key value hpayload
  rw [List.mem_singleton.mp htx] at hpayload
  cases hpayload

def governor : AgentIdentity :=
  { plainActor (Hash.ofByte 2) (Hash.ofByte 1) with governanceLevel := .meaning }

/-- A thousand tokens of pending fees that nobody paid. -/
def treasuryForgery : SymbolicTransition :=
  plainTransition governor .governanceUpdate (treasuryCounterKey "pending_fees")
    (.write (treasuryCounterKey "pending_fees") (encodeTension (.fromInteger 1000)))
    (List.replicate 64 0)

/-- The funded state under a limit of sixteen bytes for an entry. -/
def crampedState : ManagedWorldState :=
  { fundedState with consensusParams := { maxStateEntrySize := 16 } }

/-- A governance update that passed the phases sets a treasury counter, and a
transfer under a small limit reaches the ledger but not the trie. -/
theorem treasury_forged_and_account_dropped :
    (balancesFromTrie fundedState = .ok fundedBalances ∧ treasuryFromTrie fundedState = .ok {}
      ∧ PassPhases [treasuryForgery] fundedState
      ∧ ∃ state₁ settled, @applyBlockEconomics polyCrypto fundedState fundedBalances {}
          [treasuryForgery] [] canonicalAgentBlockVersion (Hash.ofByte 1) .zero .zero
            = .ok (state₁, settled)
        ∧ treasuryFromTrie (applyBlockTransitions state₁ settled.balances [treasuryForgery]).1
            = .ok { pendingFees := .fromInteger 1000 }
        ∧ settled.treasury = {})
    ∧ balancesFromTrie crampedState = .ok fundedBalances ∧ treasuryFromTrie crampedState = .ok {}
      ∧ PassPhases [theft] crampedState
      ∧ ∃ state₁ settled, @applyBlockEconomics polyCrypto crampedState fundedBalances {}
          [theft] [] canonicalAgentBlockVersion (Hash.ofByte 1) .zero .zero = .ok (state₁, settled)
        ∧ balancesFromTrie (applyBlockTransitions state₁ settled.balances [theft]).1
            = .ok fundedBalances
        ∧ (applyBlockTransitions state₁ settled.balances [theft]).2.1.balanceOf (Hash.ofByte 7)
            = .zero := by
  refine ⟨⟨by decide +kernel, by decide +kernel, passPhases_singleton (by decide +kernel), _, _, rfl,
    by decide +kernel, by decide +kernel⟩, by decide +kernel, by decide +kernel,
    passPhases_singleton (by decide +kernel), _, _, rfl, by decide +kernel, by decide +kernel⟩

end Sccgub
