import Mathlib
import Sccgub.Runs
import Sccgub.Schedule
import Sccgub.State.ValidatorSetState

/-!
# Runs of admissions and sweeps

Changes are admitted at any time before they take effect, and every height is
swept once.  As long as the three entries stay within the size limit, each change
takes effect at its own height and in one order, the history is the list of
admissions, and the set is a function of the changes and the height.  An entry
that outgrows the limit is not written, and nobody is told.
-/

namespace Sccgub

open Bincode FixedWidth Fallible Runs Schedule

/-! ## The order of changes -/

namespace ValidatorSetChange

/-- The comparison behind `order`. -/
def cmp : ValidatorSetChange → ValidatorSetChange → Ordering :=
  compareLex (compareOn fun c => c.kind.effectiveHeight) (compareOn changeId)

instance : Std.TransCmp cmp := inferInstanceAs (Std.TransCmp (compareLex _ _))

theorem order_iff (a b : ValidatorSetChange) : order a b ↔ (cmp a b).isLE = true := Iff.rfl

instance : Std.Total order where
  total a b := by
    rw [order_iff, order_iff]
    have hswap : cmp b a = (cmp a b).swap := Std.OrientedCmp.eq_swap
    rcases h : cmp a b with _ | _ | _ <;> simp [h, hswap]

instance : IsTrans ValidatorSetChange order where
  trans _ _ _ := @Std.TransCmp.isLE_trans _ cmp _ _ _ _

/-- When a change takes effect. -/
def time (self : ValidatorSetChange) : Nat := self.kind.effectiveHeight.toNat

theorem time_le_of_order (a b : ValidatorSetChange) (h : order a b) : a.time ≤ b.time := by
  unfold order at h
  rcases hcmp : compare a.kind.effectiveHeight b.kind.effectiveHeight with _ | _ | _
  · exact UInt64.le_iff_toNat_le.mp (UInt64.le_of_lt (Std.compare_eq_lt.mp hcmp))
  · exact le_of_eq (congrArg UInt64.toNat (Std.LawfulEqCmp.eq_of_compare hcmp))
  · rw [hcmp] at h
    cases h

/-- Strictly before: at a lower height, or at the same height with a lower id. -/
def Precedes (a b : ValidatorSetChange) : Prop :=
  a.kind.effectiveHeight < b.kind.effectiveHeight
    ∨ a.kind.effectiveHeight = b.kind.effectiveHeight ∧ compare a.changeId b.changeId = .lt

theorem precedes_of_order {a b : ValidatorSetChange} (h : order a b) (hne : a.changeId ≠ b.changeId) :
    Precedes a b := by
  unfold order at h
  rcases hcmp : compare a.kind.effectiveHeight b.kind.effectiveHeight with _ | _ | _
  · exact Or.inl (Std.compare_eq_lt.mp hcmp)
  · refine Or.inr ⟨Std.LawfulEqCmp.eq_of_compare hcmp, ?_⟩
    rw [hcmp] at h
    rcases hid : compare a.changeId b.changeId with _ | _ | _
    · rfl
    · exact absurd (Std.LawfulEqCmp.eq_of_compare hid) hne
    · rw [hid] at h
      cases h
  · rw [hcmp] at h
    cases h

theorem changeId_eq_of_order {a b : ValidatorSetChange} (hab : order a b) (hba : order b a) :
    a.changeId = b.changeId := by
  by_contra hne
  rcases precedes_of_order hab hne with hlt | ⟨heq, hlt⟩
  · exact absurd (time_le_of_order b a hba) (not_le.mpr (UInt64.lt_iff_toNat_lt.mp hlt))
  · rcases precedes_of_order hba (Ne.symm hne) with hlt' | ⟨-, hlt'⟩
    · rw [heq] at hlt'
      exact UInt64.lt_irrefl _ hlt'
    · have hswap : compare a.changeId b.changeId = (compare b.changeId a.changeId).swap :=
        Std.OrientedCmp.eq_swap
      rw [hswap, hlt'] at hlt
      cases hlt

/-- Changes with ids of their own have places of their own. -/
theorem placed_of_nodup {changes : List ValidatorSetChange}
    (h : (changes.map changeId).Nodup) : Placed order changes :=
  fun _ ha _ hb hab hba => List.inj_on_of_nodup_map h ha hb (changeId_eq_of_order hab hba)

theorem pairwise_precedes {changes : List ValidatorSetChange} (hsorted : changes.Pairwise order)
    (h : (changes.map changeId).Nodup) : changes.Pairwise Precedes :=
  (hsorted.and (List.pairwise_map.mp h)).imp fun ⟨hab, hne⟩ => precedes_of_order hab hne

end ValidatorSetChange

/-! ## Sizes -/

theorem length_validatorRecord_enc (r : ValidatorRecord) :
    (ValidatorRecord.codec.enc r).length
      = 80 + (MfidelAtomicSeal.codec.enc r.mfidelSeal).length
        + if r.activeUntil.isSome then 9 else 1 := by
  rcases r with ⟨agentId, validatorId, mfidel, power, activeFrom, _ | height⟩ <;>
    simp [ValidatorRecord.codec, Codec.u64, Codec.option] <;> omega

theorem ofBytes_validatorSet {set : ValidatorSet}
    (h : (ValidatorSet.codec.enc set).length < 2 ^ 64) :
    ValidatorSet.codec.ofBytes (ValidatorSet.codec.enc set) = some set := by
  have hlist : (ValidatorRecord.codec.list.enc set.records).length < 2 ^ 64 := h
  have hcount := length_le_list_enc (c := ValidatorRecord.codec)
    (fun r => by rw [length_validatorRecord_enc]; omega) set.records
  refine (Codec.ofBytes_enc_iff _ ?_).mpr (ValidatorSet.codec_complete set)
  simp only [ValidatorSet.codec, Codec.iso_fits, Codec.list_fits]
  exact ⟨by omega, fun r _ => ValidatorRecord.codec_fits r⟩

theorem fits_signatures {signatures : List (Ed25519PublicKey × Ed25519Signature)}
    (h : (((Codec.bytes 32).pair Codec.blob).list.enc signatures).length < 2 ^ 64) :
    ((Codec.bytes 32).pair Codec.blob).list.Fits signatures := by
  have hcount := length_le_list_enc (c := (Codec.bytes 32).pair Codec.blob)
    (fun p => by simp [Codec.pair_enc, Codec.blob_enc]) signatures
  rw [Codec.list_fits]
  refine ⟨by omega, fun p hp => ?_⟩
  have hle := mem_le_list_enc (c := (Codec.bytes 32).pair Codec.blob) hp
  simp only [Codec.pair_enc, List.length_append, Codec.blob_enc] at hle
  simp only [Codec.pair_fits, Codec.bytes_fits, Codec.blob_fits, true_and]
  omega

theorem length_validatorSetChange_enc (c : ValidatorSetChange) :
    (ValidatorSetChange.codec.enc c).length = 40 + (ValidatorSetChangeKind.codec.enc c.kind).length
      + (((Codec.bytes 32).pair Codec.blob).list.enc c.quorumSignatures).length := by
  simp [ValidatorSetChange.codec, Codec.u64]
  omega

theorem ofBytes_changes {changes : List ValidatorSetChange}
    (h : (ValidatorSetChange.codec.list.enc changes).length < 2 ^ 64) :
    ValidatorSetChange.codec.list.ofBytes (ValidatorSetChange.codec.list.enc changes)
      = some changes := by
  have hcount := length_le_list_enc (c := ValidatorSetChange.codec)
    (fun c => by rw [length_validatorSetChange_enc]; omega) changes
  refine (Codec.ofBytes_enc_iff _ ?_).mpr (by simp)
  rw [Codec.list_fits]
  refine ⟨by omega, fun c hc => ?_⟩
  have hle := mem_le_list_enc (c := ValidatorSetChange.codec) hc
  rw [length_validatorSetChange_enc] at hle
  simp only [ValidatorSetChange.codec, Codec.iso_fits, Codec.pair_fits, Codec.bytes_fits,
    Codec.u64_fits, true_and]
  exact ⟨ValidatorSetChangeKind.codec_fits c.kind, fits_signatures (by omega)⟩

/-- Bytes that a change may add to the set. -/
def ValidatorSetChangeKind.growth : ValidatorSetChangeKind → Nat
  | .add newRecord => (ValidatorRecord.codec.enc newRecord).length
  | .remove .. => 8
  | _ => 0

def setSize (set : ValidatorSet) : Nat := (ValidatorSet.codec.enc set).length

theorem length_enc_replaced {before after : List ValidatorRecord} {record changed : ValidatorRecord}
    {n : Nat} (h : (ValidatorRecord.codec.enc changed).length
      ≤ (ValidatorRecord.codec.enc record).length + n) :
    (ValidatorRecord.codec.list.enc (before ++ changed :: after)).length
      ≤ (ValidatorRecord.codec.list.enc (before ++ record :: after)).length + n := by
  rw [length_list_enc_of_perm List.perm_middle, length_list_enc_of_perm List.perm_middle,
    length_list_enc_cons, length_list_enc_cons]
  omega

theorem length_changeRecords {records changed : List ValidatorRecord}
    {kind : ValidatorSetChangeKind} (h : changeRecords records kind = .ok changed) :
    (ValidatorRecord.codec.list.enc changed).length
      ≤ (ValidatorRecord.codec.list.enc records).length + kind.growth := by
  cases kind with
  | add newRecord =>
      simp only [changeRecords] at h
      split at h
      · cases h
      · split at h
        · cases h
        · obtain rfl := Except.ok.inj h
          rw [length_list_enc_of_perm (List.perm_append_singleton newRecord records),
            length_list_enc_cons]
          exact le_rfl
  | remove agentId reason effectiveHeight =>
      obtain ⟨before, record, after, changed, rfl, -, -, hchanged, rfl⟩ := updateRecord_eq_ok h
      obtain rfl := Except.ok.inj hchanged
      refine length_enc_replaced ?_
      rw [length_validatorRecord_enc, length_validatorRecord_enc]
      simp only [ValidatorSetChangeKind.growth, Option.isSome_some, if_true]
      split <;> omega
  | rotatePower agentId newVotingPower effectiveHeight =>
      simp only [changeRecords] at h
      split at h
      · cases h
      · obtain ⟨before, record, after, changed, rfl, -, -, hchanged, rfl⟩ := updateRecord_eq_ok h
        obtain rfl := Except.ok.inj hchanged
        refine length_enc_replaced ?_
        rw [length_validatorRecord_enc, length_validatorRecord_enc]
        exact Nat.le_add_right _ _
  | rotateKey agentId oldValidatorId newValidatorId effectiveHeight =>
      simp only [changeRecords] at h
      split at h
      · cases h
      · split at h
        · cases h
        · obtain ⟨before, record, after, changed, rfl, -, -, hchanged, rfl⟩ :=
            updateRecord_eq_ok h
          split at hchanged
          · cases hchanged
          · obtain rfl := Except.ok.inj hchanged
            refine length_enc_replaced ?_
            rw [length_validatorRecord_enc, length_validatorRecord_enc]
            exact Nat.le_add_right _ _

theorem setSize_applyKindToSet {set set' : ValidatorSet} {kind : ValidatorSetChangeKind}
    (h : applyKindToSet set kind = .ok set') : setSize set' ≤ setSize set + kind.growth := by
  obtain ⟨records, hrecords, hnew⟩ := applyKindToSet_eq_ok_iff.mp h
  obtain ⟨-, -, rfl⟩ := ValidatorSet.new_eq_ok_iff.mp hnew
  have hsorted : setSize ⟨sortByHash ValidatorRecord.agentId records⟩
      = (ValidatorRecord.codec.list.enc records).length :=
    length_list_enc_of_perm (List.perm_insertionSort _ records)
  rw [hsorted]
  exact length_changeRecords hrecords

theorem setSize_applyKinds {set set' : ValidatorSet} {kinds : List ValidatorSetChangeKind}
    (h : applyKinds set kinds = .ok set') :
    setSize set' ≤ setSize set + (kinds.map ValidatorSetChangeKind.growth).sum := by
  induction kinds generalizing set with
  | nil =>
      obtain rfl := Except.ok.inj h
      exact Nat.le_add_right _ _
  | cons kind rest ih =>
      simp only [applyKinds, List.foldlM_cons, bind_eq_ok_iff] at h
      obtain ⟨next, hnext, hrest⟩ := h
      have hstep := setSize_applyKindToSet hnext
      have hle := ih hrest
      rw [List.map_cons, List.sum_cons]
      omega

/-! ## The three entries -/

/-- What a state holds. -/
structure SetEntries where
  set : ValidatorSet
  pending : List ValidatorSetChange := []
  history : List ValidatorSetChange := []

structure SetEntries.In (entries : SetEntries) (state : ManagedWorldState) : Prop where
  set : validatorSetFromTrie state = .ok (some entries.set)
  pending : pendingChangesFromTrie state = .ok entries.pending
  history : validatorSetChangeHistoryFromTrie state = .ok entries.history

def changesSize (changes : List ValidatorSetChange) : Nat :=
  (ValidatorSetChange.codec.list.enc changes).length

/-- The longest of the three keys. -/
def longestKey : Nat := 36

theorem length_pendingKey : pendingValidatorSetChangesTrieKey.length ≤ longestKey := by
  decide +kernel

theorem length_historyKey : validatorSetChangeHistoryTrieKey.length ≤ longestKey := by
  decide +kernel

theorem length_setKey : validatorSetTrieKey.length ≤ longestKey := by decide +kernel

theorem get_commitChanges_of_ne {key other : Bytes} (hne : key ≠ other) (state : ManagedWorldState)
    (changes : List ValidatorSetChange) :
    (commitChanges key state changes).get other = state.get other := by
  rw [commitChanges, ManagedWorldState.applyDelta_writes]
  refine get_writeAll_of_ne fun w hw => ?_
  rw [List.mem_singleton.mp hw]
  exact hne

theorem get_commitValidatorSet_of_ne {other : Bytes} (hne : validatorSetTrieKey ≠ other)
    (state : ManagedWorldState) (set : ValidatorSet) :
    (commitValidatorSet state set).get other = state.get other := by
  rw [commitValidatorSet, ManagedWorldState.applyDelta_writes]
  refine get_writeAll_of_ne fun w hw => ?_
  rw [List.mem_singleton.mp hw]
  exact hne

theorem changesFromTrie_commitChanges {key : Bytes} {label : String} {state : ManagedWorldState}
    {changes : List ValidatorSetChange} (hkey : key.length ≤ state.entryLimit)
    (hsize : changesSize changes ≤ state.entryLimit) :
    changesFromTrie key label (commitChanges key state changes) = .ok changes := by
  have hmax := entryLimit_lt state
  unfold changesFromTrie commitChanges
  rw [ManagedWorldState.applyDelta_writes, get_writeAll_singleton hkey hsize]
  dsimp only
  rw [ofBytes_changes (by unfold changesSize at hsize; omega)]

theorem validatorSetFromTrie_commitValidatorSet {state : ManagedWorldState} {set : ValidatorSet}
    (hkey : validatorSetTrieKey.length ≤ state.entryLimit)
    (hsize : setSize set ≤ state.entryLimit) :
    validatorSetFromTrie (commitValidatorSet state set) = .ok (some set) := by
  have hmax := entryLimit_lt state
  unfold validatorSetFromTrie commitValidatorSet
  rw [ManagedWorldState.applyDelta_writes, get_writeAll_singleton hkey hsize]
  dsimp only
  rw [ofBytes_validatorSet (by unfold setSize at hsize; omega)]

theorem pendingKey_ne_historyKey :
    pendingValidatorSetChangesTrieKey ≠ validatorSetChangeHistoryTrieKey := by decide +kernel

theorem pendingKey_ne_setKey : pendingValidatorSetChangesTrieKey ≠ validatorSetTrieKey := by
  decide +kernel

theorem historyKey_ne_setKey : validatorSetChangeHistoryTrieKey ≠ validatorSetTrieKey := by
  decide +kernel

namespace SetEntries

variable {entries : SetEntries} {state : ManagedWorldState}

theorem In.commitPending (h : entries.In state) {pending : List ValidatorSetChange}
    (hkey : pendingValidatorSetChangesTrieKey.length ≤ state.entryLimit)
    (hsize : changesSize pending ≤ state.entryLimit) :
    SetEntries.In { entries with pending } (commitPendingChanges state pending) := by
  refine ⟨?_, changesFromTrie_commitChanges hkey hsize, ?_⟩
  · rw [← h.set]
    unfold validatorSetFromTrie commitPendingChanges
    rw [get_commitChanges_of_ne pendingKey_ne_setKey]
  · rw [← h.history]
    unfold validatorSetChangeHistoryFromTrie changesFromTrie commitPendingChanges
    rw [get_commitChanges_of_ne pendingKey_ne_historyKey]

theorem In.commitHistory (h : entries.In state) {history : List ValidatorSetChange}
    (hkey : validatorSetChangeHistoryTrieKey.length ≤ state.entryLimit)
    (hsize : changesSize history ≤ state.entryLimit) :
    SetEntries.In { entries with history } (commitHistory state history) := by
  refine ⟨?_, ?_, changesFromTrie_commitChanges hkey hsize⟩
  · rw [← h.set]
    unfold validatorSetFromTrie Sccgub.commitHistory
    rw [get_commitChanges_of_ne historyKey_ne_setKey]
  · rw [← h.pending]
    unfold pendingChangesFromTrie changesFromTrie Sccgub.commitHistory
    rw [get_commitChanges_of_ne pendingKey_ne_historyKey.symm]

theorem In.commitSet (h : entries.In state) {set : ValidatorSet}
    (hkey : validatorSetTrieKey.length ≤ state.entryLimit)
    (hsize : setSize set ≤ state.entryLimit) :
    SetEntries.In { entries with set } (commitValidatorSet state set) := by
  refine ⟨validatorSetFromTrie_commitValidatorSet hkey hsize, ?_, ?_⟩
  · rw [← h.pending]
    unfold pendingChangesFromTrie changesFromTrie
    rw [get_commitValidatorSet_of_ne pendingKey_ne_setKey.symm]
  · rw [← h.history]
    unfold validatorSetChangeHistoryFromTrie changesFromTrie
    rw [get_commitValidatorSet_of_ne historyKey_ne_setKey.symm]

end SetEntries

theorem entryLimit_commitChanges (key : Bytes) (state : ManagedWorldState)
    (changes : List ValidatorSetChange) :
    (commitChanges key state changes).entryLimit = state.entryLimit := by
  rw [commitChanges, ManagedWorldState.applyDelta_writes]
  rfl

theorem entryLimit_commitValidatorSet (state : ManagedWorldState) (set : ValidatorSet) :
    (commitValidatorSet state set).entryLimit = state.entryLimit := by
  rw [commitValidatorSet, ManagedWorldState.applyDelta_writes]
  rfl

theorem changesSize_concat (changes : List ValidatorSetChange) (change : ValidatorSetChange) :
    changesSize (changes ++ [change])
      = changesSize changes + (ValidatorSetChange.codec.enc change).length := by
  rw [changesSize, length_list_enc_of_perm (List.perm_append_singleton change changes),
    length_list_enc_cons]
  rfl

theorem changesSize_filter_le (p : ValidatorSetChange → Bool) (changes : List ValidatorSetChange) :
    changesSize (changes.filter p) ≤ changesSize changes := by
  unfold changesSize
  rw [Codec.list_enc, Codec.list_enc, List.length_append, List.length_append, length_leBytes,
    length_leBytes, length_encSeq, length_encSeq]
  have hsum := (List.filter_sublist (p := p) (l := changes)).map fun c =>
    (ValidatorSetChange.codec.enc c).length
  have hle := hsum.sum_le_sum fun _ _ => Nat.zero_le _
  omega

section

variable {entries : SetEntries} {state state' : ManagedWorldState} (hin : entries.In state)
  (hkey : longestKey ≤ state.entryLimit)

include hin hkey

/-- An admission puts the change into queue and history, unless the history names
its id already. -/
theorem admission_eq_ok [Crypto] {change : ValidatorSetChange}
    (hpending : changesSize entries.pending + (ValidatorSetChange.codec.enc change).length
      ≤ state.entryLimit)
    (hhistory : changesSize entries.history + (ValidatorSetChange.codec.enc change).length
      ≤ state.entryLimit)
    (h : applyValidatorSetChangeAdmission state change = (.ok (), state')) :
    change.changeIdIsConsistent = true ∧ (∀ c ∈ entries.pending, c.changeId ≠ change.changeId)
      ∧ ((∀ c ∈ entries.history, c.changeId ≠ change.changeId) →
        SetEntries.In ⟨entries.set,
          (entries.pending ++ [change]).insertionSort ValidatorSetChange.order,
          entries.history ++ [change]⟩ state') := by
  unfold applyValidatorSetChangeAdmission at h
  rw [hin.pending] at h
  dsimp only at h
  split at h
  · cases h
  · rename_i hconsistent
    split at h
    · cases h
    · rename_i hfresh
      simp only [List.any_eq_true, decide_eq_true_eq, not_exists, not_and] at hfresh
      refine ⟨by simpa using hconsistent, hfresh, fun hnew => ?_⟩
      have hsorted : changesSize ((entries.pending ++ [change]).insertionSort
          ValidatorSetChange.order) ≤ state.entryLimit := by
        rw [changesSize, length_list_enc_of_perm (List.perm_insertionSort _ _), ← changesSize,
          changesSize_concat]
        exact hpending
      have hqueued := hin.commitPending (length_pendingKey.trans hkey) hsorted
      have hlimit := entryLimit_commitChanges pendingValidatorSetChangesTrieKey state
        ((entries.pending ++ [change]).insertionSort ValidatorSetChange.order)
      rw [← commitPendingChanges] at hlimit
      generalize commitPendingChanges state _ = queued at h hqueued hlimit
      have hnone : ¬ (entries.history.any fun c => decide (c.changeId = change.changeId)) = true := by
        simp only [List.any_eq_true, decide_eq_true_eq, not_exists, not_and]
        exact hnew
      have hrecorded : appendAdmissionToHistory queued change
          = .ok (commitHistory queued (entries.history ++ [change])) := by
        unfold appendAdmissionToHistory
        rw [hqueued.history]
        show (if (entries.history.any fun c => decide (c.changeId = change.changeId)) then _
          else _) = _
        rw [if_neg hnone]
        rfl
      rw [hrecorded] at h
      obtain rfl := (Prod.mk.inj h).2
      refine hqueued.commitHistory (length_historyKey.trans (hkey.trans hlimit.ge)) ?_
      rw [changesSize_concat, hlimit]
      exact hhistory

/-- A sweep returns what is due, applied to the set, and keeps the rest. -/
theorem advance_eq_ok {height : UInt64} {changes : List ValidatorSetChange}
    (hpending : changesSize entries.pending ≤ state.entryLimit)
    (hset : setSize entries.set + ((entries.pending.filter fun c =>
      c.kind.effectiveHeight = height).map fun c => c.kind.growth).sum ≤ state.entryLimit)
    (h : advanceValidatorSetToHeight state height = (.ok changes, state')) :
    changes = entries.pending.filter (fun c => c.kind.effectiveHeight = height)
      ∧ ∃ set', applyKinds entries.set (changes.map (·.kind)) = .ok set'
        ∧ SetEntries.In ⟨set', entries.pending.filter (fun c => !decide (c.kind.effectiveHeight = height)),
          entries.history⟩ state' := by
  unfold advanceValidatorSetToHeight at h
  rw [hin.pending] at h
  rcases hqueue : entries.pending with _ | ⟨first, rest⟩
  · rw [hqueue] at h
    obtain ⟨hchanges, rfl⟩ := Prod.mk.inj h
    obtain rfl := Except.ok.inj hchanges
    refine ⟨rfl, entries.set, rfl, hin.set, ?_, hin.history⟩
    rw [hin.pending, hqueue]
    rfl
  · rw [hqueue] at h
    dsimp only at h
    rw [hin.set, ← hqueue] at h
    dsimp only at h
    rw [List.partition_eq_filter_filter] at h
    dsimp only at h
    split at h
    · cases h
    · rename_i set' hset'
      obtain ⟨hchanges, rfl⟩ := Prod.mk.inj h
      obtain rfl := Except.ok.inj hchanges
      rw [← hqueue]
      refine ⟨rfl, set', hset', ?_⟩
      have hsize := setSize_applyKinds hset'
      rw [List.map_map] at hsize
      have hcommitted := hin.commitSet (length_setKey.trans hkey) (hsize.trans hset)
      have hlimit := entryLimit_commitValidatorSet state set'
      exact hcommitted.commitPending (length_pendingKey.trans (hkey.trans hlimit.ge))
        ((changesSize_filter_le _ _).trans (hpending.trans hlimit.ge))

end

/-! ## Runs -/

/-- A change is admitted, or the next height is swept. -/
inductive SetCall where
  | admission (change : ValidatorSetChange)
  | advance

/-- A state with the height it is at, the changes that were admitted and what the
sweep of each height returned. -/
structure SetLog where
  state : ManagedWorldState
  height : UInt64
  admitted : List ValidatorSetChange := []
  activated : List (UInt64 × List ValidatorSetChange) := []

/-- The bytes behind the id of a change. -/
def SetCall.message? : SetCall → Option Bytes
  | .admission change =>
      some (ValidatorSetChange.canonicalChangeBytes change.kind change.proposedAt)
  | .advance => none

namespace SetLog

variable [Crypto]

def nextHeight (self : SetLog) : UInt64 := saturatingAdd self.height 1

def call (self : SetLog) : SetCall → SetLog
  | .admission change =>
      match applyValidatorSetChangeAdmission self.state change with
      | (.ok (), state) => { self with state, admitted := self.admitted ++ [change] }
      | (.error _, state) => { self with state }
  | .advance =>
      match advanceValidatorSetToHeight self.state self.nextHeight with
      | (.ok changes, state) =>
          { self with
            state
            height := self.nextHeight
            activated := self.activated ++ [(self.nextHeight, changes)] }
      | (.error _, state) => { self with state, height := self.nextHeight }

def Succeeds (self : SetLog) : SetCall → Prop
  | .admission change => (applyValidatorSetChangeAdmission self.state change).1 = .ok ()
  | .advance => (advanceValidatorSetToHeight self.state self.nextHeight).1.isOk = true

instance decidableSucceeds (self : SetLog) : (c : SetCall) → Decidable (self.Succeeds c)
  | .admission change => inferInstanceAs (Decidable
      ((applyValidatorSetChangeAdmission self.state change).1 = .ok ()))
  | .advance => inferInstanceAs (Decidable
      ((advanceValidatorSetToHeight self.state self.nextHeight).1.isOk = true))

/-- A successful call, of a change that is not yet due or of a height that is there. -/
def Proper (self : SetLog) : SetCall → Prop
  | .admission change =>
      self.Succeeds (.admission change) ∧ self.height < change.kind.effectiveHeight
  | .advance => self.Succeeds .advance ∧ self.height.toNat + 1 < 2 ^ 64

instance decidableProper (self : SetLog) : (c : SetCall) → Decidable (self.Proper c)
  | .admission change => inferInstanceAs (Decidable (self.Succeeds (.admission change)
      ∧ self.height < change.kind.effectiveHeight))
  | .advance => inferInstanceAs (Decidable (self.Succeeds .advance
      ∧ self.height.toNat + 1 < 2 ^ 64))

/-- What the state holds; an entry that cannot be read counts as empty. -/
def pending (self : SetLog) : List ValidatorSetChange :=
  (pendingChangesFromTrie self.state).toOption.getD []

def history (self : SetLog) : List ValidatorSetChange :=
  (validatorSetChangeHistoryFromTrie self.state).toOption.getD []

def set (self : SetLog) : ValidatorSet :=
  (validatorSetFromTrie self.state).toOption.join.getD ⟨[]⟩

def dueNext (self : SetLog) : List ValidatorSetChange :=
  self.pending.filter fun change => change.kind.effectiveHeight = self.nextHeight

/-- The entries that the call writes stay within the limit. -/
def HasRoom (self : SetLog) : SetCall → Prop
  | .admission change => longestKey ≤ self.state.entryLimit
      ∧ changesSize self.pending + (ValidatorSetChange.codec.enc change).length
        ≤ self.state.entryLimit
      ∧ changesSize self.history + (ValidatorSetChange.codec.enc change).length
        ≤ self.state.entryLimit
  | .advance => longestKey ≤ self.state.entryLimit
      ∧ changesSize self.pending ≤ self.state.entryLimit
      ∧ setSize self.set + (self.dueNext.map fun change => change.kind.growth).sum
        ≤ self.state.entryLimit

instance decidableHasRoom (self : SetLog) : (c : SetCall) → Decidable (self.HasRoom c)
  | .admission change => inferInstanceAs (Decidable (longestKey ≤ self.state.entryLimit
      ∧ changesSize self.pending + (ValidatorSetChange.codec.enc change).length
        ≤ self.state.entryLimit
      ∧ changesSize self.history + (ValidatorSetChange.codec.enc change).length
        ≤ self.state.entryLimit))
  | .advance => inferInstanceAs (Decidable (longestKey ≤ self.state.entryLimit
      ∧ changesSize self.pending ≤ self.state.entryLimit
      ∧ setSize self.set + (self.dueNext.map fun change => change.kind.growth).sum
        ≤ self.state.entryLimit))

omit [Crypto] in
/-- The entries as the log reads them. -/
theorem read_of_in {log : SetLog} {entries : SetEntries} (h : entries.In log.state) :
    log.pending = entries.pending ∧ log.history = entries.history ∧ log.set = entries.set := by
  rw [pending, history, set, h.pending, h.history, h.set]
  exact ⟨rfl, rfl, rfl⟩

/-- Each change takes effect once, at its height and in its place; nothing is lost
on the way. -/
structure InOrder (start : UInt64) (log : SetLog) : Prop where
  queue : ∃ pending, pendingChangesFromTrie log.state = .ok pending
    ∧ pending.Pairwise ValidatorSetChange.Precedes
    ∧ ∀ c, c ∈ pending ↔ c ∈ log.admitted ∧ log.height < c.kind.effectiveHeight
  heights : log.activated.map (·.1.toNat)
    = List.range' (start.toNat + 1) (log.height.toNat - start.toNat)
  returned : ∀ entry ∈ log.activated, entry.2.Pairwise ValidatorSetChange.Precedes
    ∧ ∀ c, c ∈ entry.2 ↔ c ∈ log.admitted ∧ c.kind.effectiveHeight = entry.1
  history : validatorSetChangeHistoryFromTrie log.state = .ok log.admitted
  set : ∃ set, validatorSetFromTrie log.state = .ok (some set) ∧ set.Canonical

/-! ### The invariant -/

def queueOf (self : SetLog) : List ValidatorSetChange :=
  queue ValidatorSetChange.order ValidatorSetChange.time self.height.toNat self.admitted

/-- The changes that are in force. -/
def pastOf (self : SetLog) : List ValidatorSetChange :=
  past ValidatorSetChange.order ValidatorSetChange.time self.height.toNat self.admitted

structure Sound (start : ValidatorSet) (messages : Set Bytes) (height : UInt64) (log : SetLog) :
    Prop where
  ids : (log.admitted.map ValidatorSetChange.changeId).Nodup
  named : ∀ c ∈ log.admitted, c.changeIdIsConsistent = true
    ∧ ValidatorSetChange.canonicalChangeBytes c.kind c.proposedAt ∈ messages
  stored : ∃ set, SetEntries.In ⟨set, log.queueOf, log.admitted⟩ log.state
    ∧ applyKinds start (log.pastOf.map (·.kind)) = .ok set
  reached : height.toNat ≤ log.height.toNat
  heights : log.activated.map (·.1.toNat)
    = List.range' (height.toNat + 1) (log.height.toNat - height.toNat)
  returned : ∀ entry ∈ log.activated, entry.1.toNat ≤ log.height.toNat
    ∧ entry.2 = due ValidatorSetChange.order ValidatorSetChange.time entry.1.toNat log.admitted

variable {start : ValidatorSet} {messages : Set Bytes} {height : UInt64} {log : SetLog}

theorem Sound.placed (h : log.Sound start messages height) :
    Placed ValidatorSetChange.order log.admitted :=
  ValidatorSetChange.placed_of_nodup h.ids

/-- Lists of admitted changes in order hold none twice. -/
theorem Sound.pairwise (h : log.Sound start messages height) (p : ValidatorSetChange → Bool) :
    ((log.admitted.filter p).insertionSort ValidatorSetChange.order).Pairwise
      ValidatorSetChange.Precedes := by
  refine ValidatorSetChange.pairwise_precedes (List.pairwise_insertionSort _ _) ?_
  rw [((List.perm_insertionSort _ _).map _).nodup_iff]
  exact h.ids.sublist (List.filter_sublist.map _)

theorem Sound.inOrder (h : log.Sound start messages height) (hstart : start.Canonical) :
    log.InOrder height := by
  obtain ⟨set, hin, hset⟩ := h.stored
  refine ⟨⟨log.queueOf, hin.pending, h.pairwise _, fun c => ?_⟩, h.heights, fun entry hentry => ?_,
    hin.history, set, hin.set, canonical_applyKinds hstart hset⟩
  · rw [queueOf, mem_queue, UInt64.lt_iff_toNat_lt]
    rfl
  · rw [(h.returned entry hentry).2]
    refine ⟨h.pairwise _, fun c => ?_⟩
    rw [mem_due, ← UInt64.toNat_inj]
    rfl

/-- An id that comes again belongs to a change that is still waiting. -/
theorem Sound.fresh (h : log.Sound start messages height) (hfree : CollisionFree messages)
    {change : ValidatorSetChange} (hconsistent : change.changeIdIsConsistent = true)
    (hmessage : ValidatorSetChange.canonicalChangeBytes change.kind change.proposedAt ∈ messages)
    (hlater : log.height < change.kind.effectiveHeight)
    (hpending : ∀ c ∈ log.queueOf, c.changeId ≠ change.changeId) :
    ∀ c ∈ log.admitted, c.changeId ≠ change.changeId := by
  intro c hc hid
  obtain ⟨hc', hcmessage⟩ := h.named c hc
  unfold ValidatorSetChange.changeIdIsConsistent ValidatorSetChange.computeChangeId at hconsistent hc'
  have hbytes := hfree hcmessage hmessage
    ((of_decide_eq_true hc').symm.trans (hid.trans (of_decide_eq_true hconsistent)))
  have hkind := (ValidatorSetChange.canonicalChangeBytes_inj hbytes).1
  refine hpending c (mem_queue.mpr ⟨hc, ?_⟩) hid
  rw [ValidatorSetChange.time, hkind]
  exact UInt64.lt_iff_toNat_lt.mp hlater

theorem Sound.admission (h : log.Sound start messages height) (hfree : CollisionFree messages)
    {change : ValidatorSetChange}
    (hmessage : ValidatorSetChange.canonicalChangeBytes change.kind change.proposedAt ∈ messages)
    (hproper : log.Proper (.admission change)) (hroom : log.HasRoom (.admission change)) :
    (log.call (.admission change)).Sound start messages height := by
  obtain ⟨hsucceeds, hlater⟩ := hproper
  have hlater' : log.height.toNat < change.time := UInt64.lt_iff_toNat_lt.mp hlater
  obtain ⟨set, hin, hset⟩ := h.stored
  obtain ⟨hreadPending, hreadHistory, -⟩ := read_of_in hin
  obtain ⟨hkey, hpending, hhistory⟩ := hroom
  rw [hreadPending] at hpending
  rw [hreadHistory] at hhistory
  rcases hcall : applyValidatorSetChangeAdmission log.state change with ⟨result, state⟩
  obtain rfl : result = .ok () := by
    have : (applyValidatorSetChangeAdmission log.state change).1 = .ok () := hsucceeds
    rw [hcall] at this
    exact this
  obtain ⟨hconsistent, hfresh, hstored⟩ := admission_eq_ok hin hkey hpending hhistory hcall
  have hnew := h.fresh hfree hconsistent hmessage hlater hfresh
  have hids : ((log.admitted ++ [change]).map ValidatorSetChange.changeId).Nodup := by
    rw [List.map_append, List.map_singleton, List.nodup_append]
    refine ⟨h.ids, List.nodup_singleton _, fun id hid id' hid' => ?_⟩
    obtain ⟨c, hc, rfl⟩ := List.mem_map.mp hid
    rw [List.mem_singleton.mp hid']
    exact hnew c hc
  have hplaced := ValidatorSetChange.placed_of_nodup hids
  have hlog : log.call (.admission change)
      = { log with state, admitted := log.admitted ++ [change] } := by
    simp only [call, hcall]
  rw [hlog]
  refine ⟨hids, ?_, ⟨set, ?_, ?_⟩, h.reached, h.heights, ?_⟩
  · intro c hc
    rcases List.mem_append.mp hc with hc | hc
    · exact h.named c hc
    · rw [List.mem_singleton.mp hc]
      exact ⟨hconsistent, hmessage⟩
  · have hqueue := queue_concat hlater' hplaced
    have hentries := hstored hnew
    dsimp only [queueOf] at hentries ⊢
    rw [hqueue] at hentries
    exact hentries
  · dsimp only [pastOf]
    rw [past_concat hlater']
    exact hset
  · intro entry hentry
    obtain ⟨hle, hentry⟩ := h.returned entry hentry
    exact ⟨hle, hentry.trans (due_concat hlater' hle).symm⟩

omit [Crypto] in
theorem toNat_nextHeight (hbound : log.height.toNat + 1 < 2 ^ 64) :
    log.nextHeight.toNat = log.height.toNat + 1 := by
  have hone : (1 : UInt64).toNat = 1 := rfl
  rw [nextHeight, toNat_saturatingAdd]
  omega

theorem Sound.advance (h : log.Sound start messages height) (hproper : log.Proper .advance)
    (hroom : log.HasRoom .advance) : (log.call .advance).Sound start messages height := by
  obtain ⟨hsucceeds, hbound⟩ := hproper
  have hnext := toNat_nextHeight hbound
  obtain ⟨set, hin, hset⟩ := h.stored
  obtain ⟨hreadPending, -, hreadSet⟩ := read_of_in hin
  obtain ⟨hkey, hpending, hsize⟩ := hroom
  rw [dueNext, hreadPending, hreadSet] at hsize
  rw [hreadPending] at hpending
  rcases hcall : advanceValidatorSetToHeight log.state log.nextHeight with ⟨result, state⟩
  obtain ⟨changes, rfl⟩ : ∃ changes, result = .ok changes := by
    have hok : (advanceValidatorSetToHeight log.state log.nextHeight).1.isOk = true := hsucceeds
    rw [hcall] at hok
    exact exists_ok_of_isOk hok
  obtain ⟨hchanges, set', hset', hentries⟩ := advance_eq_ok hin hkey hpending hsize hcall
  have hat : ∀ c : ValidatorSetChange, decide (c.kind.effectiveHeight = log.nextHeight)
      = decide (c.time = log.height.toNat + 1) := by
    intro c
    rw [decide_eq_decide, ← UInt64.toNat_inj, hnext]
    rfl
  simp only [hat] at hchanges hentries
  have hsucc : ∀ t : Nat, log.height.toNat < t ↔ log.height.toNat + 1 ≤ t := fun t => Iff.rfl
  dsimp only [queueOf] at hchanges hentries
  rw [due_of_queue hsucc h.placed] at hchanges
  rw [queue_of_queue hsucc h.placed] at hentries
  have hlog : log.call .advance = { log with
      state
      height := log.nextHeight
      activated := log.activated ++ [(log.nextHeight, changes)] } := by
    simp only [call, hcall]
  have hreached := h.reached
  rw [hlog]
  refine ⟨h.ids, h.named, ⟨set', ?_, ?_⟩, ?_, ?_, ?_⟩
  · dsimp only [queueOf]
    rw [hnext]
    exact hentries
  · dsimp only [pastOf]
    rw [hnext, past_next hsucc h.placed ValidatorSetChange.time_le_of_order, List.map_append,
      applyKinds, List.foldlM_append, ← hchanges]
    exact bind_eq_ok_iff.mpr ⟨set, hset, hset'⟩
  · dsimp only
    omega
  · dsimp only
    rw [List.map_append, h.heights, hnext, Nat.succ_sub hreached, List.range'_concat]
    simp only [List.map_cons, List.map_nil, hnext, Nat.one_mul]
    congr 2
    omega
  · intro entry hentry
    dsimp only
    rcases List.mem_append.mp hentry with hentry | hentry
    · obtain ⟨hle, hentry⟩ := h.returned entry hentry
      exact ⟨by omega, hentry⟩
    · rw [List.mem_singleton.mp hentry]
      dsimp only
      rw [hnext]
      exact ⟨le_rfl, hchanges⟩

theorem Sound.run (hfree : CollisionFree messages) {calls : List SetCall}
    (hmessages : ∀ c ∈ calls, ∀ m, c.message? = some m → m ∈ messages)
    (h : log.Sound start messages height) (hproper : Along call Proper log calls)
    (hroom : Along call HasRoom log calls) :
    (calls.foldl call log).Sound start messages height := by
  induction calls generalizing log with
  | nil => exact h
  | cons c rest ih =>
      obtain ⟨hmessage, hrest⟩ := List.forall_mem_cons.mp hmessages
      refine ih hrest ?_ hproper.2 hroom.2
      cases c with
      | admission change => exact h.admission hfree (hmessage _ rfl) hproper.1 hroom.1
      | advance => exact h.advance hproper.1 hroom.1

/-- At the start nothing is admitted and nothing has been swept. -/
theorem sound_start {state : ManagedWorldState} {set : ValidatorSet}
    (hin : SetEntries.In ⟨set, [], []⟩ state) (height : UInt64) (messages : Set Bytes) :
    Sound set messages height ⟨state, height, [], []⟩ := by
  refine ⟨List.nodup_nil, by simp, ⟨set, hin, rfl⟩, le_rfl, ?_, by simp⟩
  simp

/-- Where the entries have room, every admitted change takes effect once, at its
height and in its place, and the set does not depend on the order of admission. -/
theorem inOrder_of_hasRoom {state : ManagedWorldState} {set : ValidatorSet}
    (hset : set.Canonical) (hin : SetEntries.In ⟨set, [], []⟩ state) (height : UInt64)
    (calls calls' : List SetCall)
    (hfree : CollisionFree {m | m ∈ (calls ++ calls').filterMap SetCall.message?})
    (hproper : Along call Proper ⟨state, height, [], []⟩ calls)
    (hproper' : Along call Proper ⟨state, height, [], []⟩ calls')
    (hroom : Along call HasRoom ⟨state, height, [], []⟩ calls)
    (hroom' : Along call HasRoom ⟨state, height, [], []⟩ calls') :
    (calls.foldl call ⟨state, height, [], []⟩).InOrder height
      ∧ ((calls.foldl call ⟨state, height, [], []⟩).height
            = (calls'.foldl call ⟨state, height, [], []⟩).height →
          (calls.foldl call ⟨state, height, [], []⟩).admitted.Perm
            (calls'.foldl call ⟨state, height, [], []⟩).admitted →
          validatorSetFromTrie (calls.foldl call ⟨state, height, [], []⟩).state
            = validatorSetFromTrie (calls'.foldl call ⟨state, height, [], []⟩).state) := by
  have hmem : ∀ c ∈ calls ++ calls', ∀ m, c.message? = some m →
      m ∈ {m | m ∈ (calls ++ calls').filterMap SetCall.message?} := fun c hc m hm =>
    List.mem_filterMap.mpr ⟨c, hc, hm⟩
  have hsound := Sound.run hfree (fun c hc => hmem c (List.mem_append_left _ hc))
    (sound_start hin height _) hproper hroom
  have hsound' := Sound.run hfree (fun c hc => hmem c (List.mem_append_right _ hc))
    (sound_start hin height _) hproper' hroom'
  refine ⟨hsound.inOrder hset, fun hheight hperm => ?_⟩
  obtain ⟨changed, hentries, hchanged⟩ := hsound.stored
  obtain ⟨changed', hentries', hchanged'⟩ := hsound'.stored
  have hpast : (calls.foldl call ⟨state, height, [], []⟩).pastOf
      = (calls'.foldl call ⟨state, height, [], []⟩).pastOf := by
    rw [pastOf, pastOf, hheight]
    exact past_perm hsound.placed hperm
  rw [hpast, hchanged'] at hchanged
  obtain rfl := Except.ok.inj hchanged
  rw [hentries.set, hentries'.set]

end SetLog

/-! ## A history that outgrows its entry -/

def loneValidator : ValidatorRecord where
  agentId := Hash.ofByte 1
  validatorId := Hash.ofByte 2
  mfidelSeal := default
  votingPower := 10
  activeFrom := 0
  activeUntil := none

def loneSet : ValidatorSet := ⟨[loneValidator]⟩

theorem canonical_loneSet : loneSet.Canonical :=
  ⟨List.pairwise_singleton _ _, List.nodup_singleton _⟩

/-- A committed set under a limit for entries. -/
def seededState (maxStateEntrySize : UInt32) : ManagedWorldState :=
  commitValidatorSet (ManagedWorldState.withConsensusParams
    { ({} : ConsensusParams) with maxStateEntrySize }) loneSet

/-- Another power for the validator. -/
def powerChange (newVotingPower effectiveHeight : UInt64) : ValidatorSetChange :=
  let kind := ValidatorSetChangeKind.rotatePower (Hash.ofByte 1) newVotingPower effectiveHeight
  { changeId := @ValidatorSetChange.computeChangeId polyCrypto kind 0
    kind
    proposedAt := 0
    quorumSignatures := [] }

def twoPowers : List SetCall :=
  [.admission (powerChange 7 3), .advance, .advance, .admission (powerChange 9 6)]

/-- The second admission succeeds, and the history does not know of it. -/
theorem history_outgrows_entry :
    SetEntries.In ⟨loneSet, [], []⟩ (seededState 150)
      ∧ @CollisionFree polyCrypto {m | m ∈ (twoPowers ++ twoPowers).filterMap SetCall.message?}
      ∧ Along (@SetLog.call polyCrypto) (@SetLog.Proper polyCrypto) ⟨seededState 150, 1, [], []⟩
        twoPowers
      ∧ (twoPowers.foldl (@SetLog.call polyCrypto) ⟨seededState 150, 1, [], []⟩).admitted
        = [powerChange 7 3, powerChange 9 6]
      ∧ validatorSetChangeHistoryFromTrie (twoPowers.foldl (@SetLog.call polyCrypto)
          ⟨seededState 150, 1, [], []⟩).state = .ok [powerChange 7 3]
      ∧ ¬ (twoPowers.foldl (@SetLog.call polyCrypto) ⟨seededState 150, 1, [], []⟩).InOrder 1 := by
  have hadmitted : (twoPowers.foldl (@SetLog.call polyCrypto) ⟨seededState 150, 1, [], []⟩).admitted
      = [powerChange 7 3, powerChange 9 6] := by decide +kernel
  have hhistory : validatorSetChangeHistoryFromTrie (twoPowers.foldl (@SetLog.call polyCrypto)
      ⟨seededState 150, 1, [], []⟩).state = .ok [powerChange 7 3] := by decide +kernel
  refine ⟨⟨by decide +kernel, by decide +kernel, by decide +kernel⟩,
    @collisionFree_of_forall polyCrypto _ (by decide +kernel), by decide +kernel, hadmitted,
    hhistory, fun h => ?_⟩
  have hlength := congrArg List.length (Except.ok.inj (hhistory.symm.trans h.history))
  rw [hadmitted] at hlength
  cases hlength

/-- Two changes for the same height, admitted in either order. -/
def rising : List SetCall :=
  [.admission (powerChange 7 3), .admission (powerChange 9 3), .advance, .advance]

def falling : List SetCall :=
  [.admission (powerChange 9 3), .advance, .admission (powerChange 7 3), .advance]

theorem inOrder_of_hasRoom_rising :
    (rising.foldl (@SetLog.call polyCrypto) ⟨seededState 1000, 1, [], []⟩).InOrder 1
      ∧ validatorSetFromTrie (rising.foldl (@SetLog.call polyCrypto)
          ⟨seededState 1000, 1, [], []⟩).state
        = validatorSetFromTrie (falling.foldl (@SetLog.call polyCrypto)
          ⟨seededState 1000, 1, [], []⟩).state := by
  have hin : SetEntries.In ⟨loneSet, [], []⟩ (seededState 1000) :=
    ⟨by decide +kernel, by decide +kernel, by decide +kernel⟩
  obtain ⟨horder, hsame⟩ := @SetLog.inOrder_of_hasRoom polyCrypto _ _ canonical_loneSet hin 1
    rising falling (@collisionFree_of_forall polyCrypto _ (by decide +kernel)) (by decide +kernel)
    (by decide +kernel) (by decide +kernel) (by decide +kernel)
  exact ⟨horder, hsame (by decide +kernel) (by decide +kernel)⟩

end Sccgub
