import Mathlib
import Sccgub.Fallible
import Sccgub.Node.Produce
import Sccgub.State.Nonces

/-!
# The gas loop

What one turn of the producer's loop can do with a transition: turn it away with
a receipt, or take it in and its nonce with it.  There is no third outcome but
that the block is full.
-/

namespace Sccgub

open Fallible

section

variable [Crypto]

theorem txId_validateTransitionMetered (tx : SymbolicTransition) (state : ManagedWorldState)
    (gasLimit : UInt64) : (validateTransitionMetered tx state gasLimit).1.txId = tx.txId := by
  unfold validateTransitionMetered
  dsimp only
  rcases meterTransition tx state gasLimit with ⟨e, gas⟩ | gas
  · rfl
  · dsimp only
    rcases validateTransition tx state with errors | ⟨⟩
    · rfl
    · rfl

/-- The outcome of a turn that is not the last. -/
inductive Metered (acc : GasLoop) (tx : SymbolicTransition) (next : GasLoop) : Prop
  | rejected (receipt : CausalReceipt) (txId : receipt.txId = tx.txId)
      (verdict : receipt.verdict.isAccepted = false) (state : next.state = acc.state)
      (accepted : next.accepted = acc.accepted) (receipts : next.receipts = acc.receipts)
      (rejected : next.rejected = acc.rejected ++ [receipt])
  | accepted (receipt : CausalReceipt) (txId : receipt.txId = tx.txId)
      (nonce : acc.state.checkNonce tx.actor.agentId tx.nonce = .ok next.state)
      (accepted : next.accepted = acc.accepted ++ [tx])
      (receipts : next.receipts = acc.receipts ++ [receipt])
      (rejected : next.rejected = acc.rejected)

theorem metered_of_meterOne {blockVersion : UInt32} {stateRoot : Hash} {gasPrice : TensionValue}
    {acc next : GasLoop} {tx : SymbolicTransition}
    (h : meterOne blockVersion stateRoot gasPrice acc tx = some next) : Metered acc tx next := by
  have htxId := txId_validateTransitionMetered tx acc.state
    acc.state.consensusParams.defaultTxGasLimit
  unfold meterOne at h
  split at h
  · obtain rfl := Option.some.inj h
    exact .rejected _ rfl rfl rfl rfl rfl rfl
  rcases hmetered : validateTransitionMetered tx acc.state
    acc.state.consensusParams.defaultTxGasLimit with ⟨receipt, gasUsed⟩
  rw [hmetered] at h htxId
  dsimp only at h htxId
  split at h
  · cases h
  split at h
  · split at h
    · rename_i e _
      obtain rfl := Option.some.inj h
      exact .rejected (makeMeteredRejectReceipt receipt e) htxId rfl rfl rfl rfl rfl
    · rcases hnonce : acc.state.checkNonce tx.actor.agentId tx.nonce with e | state
      · rw [hnonce] at h
        obtain rfl := Option.some.inj h
        exact .rejected _ rfl rfl rfl rfl rfl rfl
      · rw [hnonce] at h
        obtain rfl := Option.some.inj h
        exact .accepted receipt htxId hnonce rfl rfl rfl
  · rename_i hverdict
    obtain rfl := Option.some.inj h
    exact .rejected receipt htxId (Bool.eq_false_of_not_eq_true hverdict) rfl rfl rfl rfl

/-- The nonces of what is taken in have been checked one after the other. -/
theorem validateNonces_meterAll {blockVersion : UInt32} {stateRoot : Hash}
    {gasPrice : TensionValue} {start : ManagedWorldState} {acc : GasLoop}
    (transitions : List SymbolicTransition)
    (h : start.validateNonces acc.accepted = .ok acc.state) :
    start.validateNonces (meterAll blockVersion stateRoot gasPrice acc transitions).accepted
      = .ok (meterAll blockVersion stateRoot gasPrice acc transitions).state := by
  induction transitions generalizing acc with
  | nil => exact h
  | cons tx rest ih =>
      rw [meterAll]
      rcases hone : meterOne blockVersion stateRoot gasPrice acc tx with _ | next
      · exact h
      · refine ih ?_
        cases metered_of_meterOne hone with
        | rejected receipt txId verdict state accepted receipts rejected =>
            rw [accepted, state]
            exact h
        | accepted receipt txId nonce accepted receipts rejected =>
            rw [accepted, ManagedWorldState.validateNonces, List.foldlM_append, bind_eq_ok_iff]
            refine ⟨acc.state, h, ?_⟩
            rw [List.foldlM_cons, bind_eq_ok_iff]
            exact ⟨next.state, nonce, rfl⟩

namespace Chain

/-- So the producer's own check of the nonces does not fail. -/
theorem validateNonces_admission (self : Chain) :
    self.state.validateNonces self.admission.1.accepted = .ok self.admission.1.state :=
  validateNonces_meterAll _ rfl

end Chain

end

end Sccgub
