import Mathlib
import Sccgub.Execution.ValidatorSetAdmission
import Sccgub.State.ValidatorSetRuns

/-!
# Sweeps that fail

Admission looks at delay, id and quorum of a change, and at none of the predicates
of its variant; these are checked when the change takes effect.  A sweep fails
exactly if a change that is due does not apply to the set as it stands then.
-/

namespace Sccgub

open Bincode FixedWidth Fallible Runs

/-! ## Entries that can be read -/

/-- A state with a set in canonical order and readable lists. -/
def Readable (state : ManagedWorldState) : Prop :=
  ∃ entries : SetEntries, entries.In state ∧ entries.set.Canonical

/-- A write that is not let through leaves everything as it was. -/
theorem get_applyDelta_of_not_admits {state : ManagedWorldState} {key value : Bytes}
    (h : state.admits ⟨key, value⟩ = false) (other : Bytes) :
    (state.applyDelta ⟨[⟨key, value⟩], []⟩).get other = state.get other := by
  rw [ManagedWorldState.applyDelta_writes, ManagedWorldState.writeAll, ManagedWorldState.admitted,
    List.filter_singleton, h]
  rfl

theorem le_of_admits {state : ManagedWorldState} {key value : Bytes}
    (h : state.admits ⟨key, value⟩ = true) :
    key.length ≤ state.entryLimit ∧ value.length ≤ state.entryLimit := by
  rw [ManagedWorldState.admits, Bool.and_eq_true, decide_eq_true_eq, decide_eq_true_eq] at h
  exact h

theorem SetEntries.In.congr {entries : SetEntries} {state state' : ManagedWorldState}
    (h : entries.In state) (hget : ∀ key, state'.get key = state.get key) : entries.In state' := by
  refine ⟨?_, ?_, ?_⟩
  · rw [← h.set, validatorSetFromTrie, validatorSetFromTrie, hget]
  · rw [← h.pending, pendingChangesFromTrie, changesFromTrie, changesFromTrie, hget]
  · rw [← h.history, validatorSetChangeHistoryFromTrie, changesFromTrie, changesFromTrie, hget]

theorem Readable.commitPending {state : ManagedWorldState} (h : Readable state)
    (pending : List ValidatorSetChange) : Readable (commitPendingChanges state pending) := by
  obtain ⟨entries, hin, hset⟩ := h
  by_cases hadmits : state.admits ⟨pendingValidatorSetChangesTrieKey,
      ValidatorSetChange.codec.list.enc pending⟩ = true
  · obtain ⟨hkey, hsize⟩ := le_of_admits hadmits
    exact ⟨_, hin.commitPending hkey hsize, hset⟩
  · exact ⟨entries, hin.congr (get_applyDelta_of_not_admits (Bool.eq_false_iff.mpr hadmits)), hset⟩

theorem Readable.commitHistory {state : ManagedWorldState} (h : Readable state)
    (history : List ValidatorSetChange) : Readable (commitHistory state history) := by
  obtain ⟨entries, hin, hset⟩ := h
  by_cases hadmits : state.admits ⟨validatorSetChangeHistoryTrieKey,
      ValidatorSetChange.codec.list.enc history⟩ = true
  · obtain ⟨hkey, hsize⟩ := le_of_admits hadmits
    exact ⟨_, hin.commitHistory hkey hsize, hset⟩
  · exact ⟨entries, hin.congr (get_applyDelta_of_not_admits (Bool.eq_false_iff.mpr hadmits)), hset⟩

theorem Readable.commitSet {state : ManagedWorldState} (h : Readable state) {set : ValidatorSet}
    (hset : set.Canonical) : Readable (commitValidatorSet state set) := by
  obtain ⟨entries, hin, hold⟩ := h
  by_cases hadmits : state.admits ⟨validatorSetTrieKey, ValidatorSet.codec.enc set⟩ = true
  · obtain ⟨hkey, hsize⟩ := le_of_admits hadmits
    exact ⟨_, hin.commitSet hkey hsize, hset⟩
  · exact ⟨entries, hin.congr (get_applyDelta_of_not_admits (Bool.eq_false_iff.mpr hadmits)), hold⟩

theorem Readable.admission [Crypto] {state : ManagedWorldState} (h : Readable state)
    (change : ValidatorSetChange) :
    Readable (applyValidatorSetChangeAdmission state change).2 := by
  obtain ⟨entries, hin, hset⟩ := id h
  unfold applyValidatorSetChangeAdmission
  split
  · exact h
  · rw [hin.pending]
    dsimp only
    split
    · exact h
    · have hqueued := h.commitPending
        ((entries.pending ++ [change]).insertionSort ValidatorSetChange.order)
      split
      · exact hqueued
      · rename_i recorded hrecorded
        unfold appendAdmissionToHistory at hrecorded
        obtain ⟨history, -, hrecorded⟩ := bind_eq_ok_iff.mp hrecorded
        split at hrecorded
        · obtain rfl := pure_eq_ok_iff.mp hrecorded
          exact hqueued
        · obtain rfl := pure_eq_ok_iff.mp hrecorded
          exact hqueued.commitHistory _

/-! ## One sweep -/

instance decidableApplies (set : ValidatorSet) :
    (kind : ValidatorSetChangeKind) → Decidable (Applies set kind)
  | .add newRecord => inferInstanceAs (Decidable (∀ r ∈ set.records,
      r.agentId ≠ newRecord.agentId ∧ r.validatorId ≠ newRecord.validatorId))
  | .remove agentId _ _ => inferInstanceAs (Decidable (∃ r ∈ set.records, r.agentId = agentId))
  | .rotatePower agentId newVotingPower _ => inferInstanceAs (Decidable
      (newVotingPower ≠ 0 ∧ ∃ r ∈ set.records, r.agentId = agentId))
  | .rotateKey agentId oldValidatorId newValidatorId _ => inferInstanceAs (Decidable
      (oldValidatorId ≠ newValidatorId
        ∧ (∀ r ∈ set.records, r.validatorId = newValidatorId → r.agentId = agentId)
        ∧ ∃ r ∈ set.records, r.agentId = agentId ∧ r.validatorId = oldValidatorId))

instance decidableAppliesAll : (set : ValidatorSet) → (kinds : List ValidatorSetChangeKind) →
    Decidable (AppliesAll set kinds)
  | _, [] => inferInstanceAs (Decidable True)
  | set, kind :: rest =>
      match h : applyKindToSet set kind with
      | .ok set' =>
          have := decidableAppliesAll set' rest
          decidable_of_iff (Applies set kind ∧ AppliesAll set' rest)
            (by simp [AppliesAll, h])
      | .error _ => decidable_of_iff (Applies set kind) (by simp [AppliesAll, h])

/-- A sweep of a readable state goes through exactly if what is due applies, and it
leaves a readable state in any case. -/
theorem advance_isOk_iff {state : ManagedWorldState} {entries : SetEntries}
    (hin : entries.In state) (hset : entries.set.Canonical) (height : UInt64) :
    ((advanceValidatorSetToHeight state height).1.isOk = true ↔
        AppliesAll entries.set ((entries.pending.filter fun c =>
          c.kind.effectiveHeight = height).map (·.kind)))
      ∧ Readable (advanceValidatorSetToHeight state height).2 := by
  have hreadable : Readable state := ⟨entries, hin, hset⟩
  unfold advanceValidatorSetToHeight
  rw [hin.pending]
  rcases hqueue : entries.pending with _ | ⟨first, rest⟩
  · exact ⟨⟨fun _ => trivial, fun _ => rfl⟩, hreadable⟩
  · dsimp only
    rw [hin.set, ← hqueue]
    dsimp only
    rw [List.partition_eq_filter_filter, ← appliesAll_iff hset]
    dsimp only
    split
    · rename_i e he
      refine ⟨⟨fun h => (nomatch h), fun ⟨set', hset'⟩ => ?_⟩, hreadable⟩
      rw [hset'] at he
      cases he
    · rename_i set' hset'
      exact ⟨⟨fun _ => ⟨set', hset'⟩, fun _ => rfl⟩,
        (hreadable.commitSet (canonical_applyKinds hset hset')).commitPending _⟩

/-! ## Runs -/

namespace SetLog

variable [Crypto]

/-- What is due next applies to the set, one change after the other. -/
def DueApplies (self : SetLog) : SetCall → Prop
  | .admission _ => True
  | .advance => AppliesAll self.set (self.dueNext.map (·.kind))

instance decidableDueApplies (self : SetLog) : (c : SetCall) → Decidable (self.DueApplies c)
  | .admission _ => inferInstanceAs (Decidable True)
  | .advance => inferInstanceAs (Decidable (AppliesAll self.set (self.dueNext.map (·.kind))))

def Sweeps (self : SetLog) : SetCall → Prop
  | .admission _ => True
  | .advance => self.Succeeds .advance

instance decidableSweeps (self : SetLog) : (c : SetCall) → Decidable (self.Sweeps c)
  | .admission _ => inferInstanceAs (Decidable True)
  | .advance => inferInstanceAs (Decidable (self.Succeeds .advance))

theorem readable_call {log : SetLog} (h : Readable log.state) (c : SetCall) :
    Readable (log.call c).state := by
  cases c with
  | admission change =>
      have hnext := h.admission change
      simp only [call]
      generalize applyValidatorSetChangeAdmission log.state change = result at hnext ⊢
      rcases result with ⟨_ | ⟨⟩, state⟩ <;> exact hnext
  | advance =>
      obtain ⟨entries, hin, hset⟩ := h
      have hnext := (advance_isOk_iff hin hset log.nextHeight).2
      simp only [call]
      generalize advanceValidatorSetToHeight log.state log.nextHeight = result at hnext ⊢
      rcases result with ⟨_ | changes, state⟩ <;> exact hnext

theorem sweeps_iff {log : SetLog} (h : Readable log.state) (c : SetCall) :
    log.Sweeps c ↔ log.DueApplies c := by
  cases c with
  | admission change => exact Iff.rfl
  | advance =>
      obtain ⟨entries, hin, hset⟩ := h
      obtain ⟨hpending, -, hread⟩ := read_of_in hin
      show (advanceValidatorSetToHeight log.state log.nextHeight).1.isOk = true
        ↔ AppliesAll log.set (log.dueNext.map (·.kind))
      rw [dueNext, hpending, hread]
      exact (advance_isOk_iff hin hset log.nextHeight).1

/-- No sweep of a run fails exactly if at each of them every change that is due
meets the predicate of its variant, on the set as it stands when it comes up. -/
theorem sweeps_iff_dueApplies {state : ManagedWorldState} {set : ValidatorSet}
    (hset : set.Canonical) (hin : SetEntries.In ⟨set, [], []⟩ state) (height : UInt64)
    (calls : List SetCall) :
    Along call Sweeps ⟨state, height, [], []⟩ calls
      ↔ Along call DueApplies ⟨state, height, [], []⟩ calls := by
  have hrun : ∀ (log : SetLog), Readable log.state →
      (Along call Sweeps log calls ↔ Along call DueApplies log calls) := by
    induction calls with
    | nil => exact fun _ _ => Iff.rfl
    | cons c rest ih =>
        intro log h
        exact and_congr (sweeps_iff h c) (ih (log.call c) (readable_call h c))
  exact hrun _ ⟨_, hin, hset⟩

end SetLog

/-! ## Power zero -/

/-- A change of power, signed by the validator. -/
def signedPowerChange (newVotingPower effectiveHeight : UInt64) : ValidatorSetChange :=
  let change := powerChange newVotingPower effectiveHeight
  { change with
    quorumSignatures := [(Hash.ofByte 2, polySign (Hash.ofByte 2)
      (ValidatorSetChange.canonicalChangeBytes change.kind change.proposedAt))] }

/-- Admitted at height one, due at height four. -/
def powerCalls (newVotingPower : UInt64) : List SetCall :=
  [.admission (signedPowerChange newVotingPower 4), .advance, .advance, .advance]

/-- A change to no power at all is validated and admitted, and the sweep of its
height fails. -/
theorem zero_power_halts :
    SetEntries.In ⟨loneSet, [], []⟩ (seededState 1000)
      ∧ @validateValidatorSetChange polyCrypto (signedPowerChange 0 4) loneSet 1 2 = .ok ()
      ∧ (@applyValidatorSetChangeAdmission polyCrypto (seededState 1000)
        (signedPowerChange 0 4)).1 = .ok ()
      ∧ (advanceValidatorSetToHeight ((powerCalls 0).take 3 |>.foldl (@SetLog.call polyCrypto)
          ⟨seededState 1000, 1, [], []⟩).state 4).1 = .error .zeroVotingPower
      ∧ ¬ Along (@SetLog.call polyCrypto) (@SetLog.Sweeps polyCrypto) ⟨seededState 1000, 1, [], []⟩
        (powerCalls 0) := by
  exact ⟨⟨by decide +kernel, by decide +kernel, by decide +kernel⟩, by decide +kernel,
    by decide +kernel, by decide +kernel, by decide +kernel⟩

theorem sweeps_iff_dueApplies_power :
    Along (@SetLog.call polyCrypto) (@SetLog.Sweeps polyCrypto) ⟨seededState 1000, 1, [], []⟩ (powerCalls 7) := by
  have hin : SetEntries.In ⟨loneSet, [], []⟩ (seededState 1000) :=
    ⟨by decide +kernel, by decide +kernel, by decide +kernel⟩
  exact (@SetLog.sweeps_iff_dueApplies polyCrypto _ _ canonical_loneSet hin 1 (powerCalls 7)).mpr
    (by decide +kernel)

end Sccgub
