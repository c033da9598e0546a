import Mathlib
import Sccgub.Fallible
import Sccgub.State.System

/-!
# The validator set in the trie

Three entries: the current set, the changes that were admitted and are not yet in
force, and the history of all changes that were ever admitted.  A change waits in
the queue until its effective height; the sweep of a height takes what is due and
applies it to the set.

`applies_iff` says what a change asks of the set it is applied to.
-/

namespace Sccgub

open Bincode FixedWidth Fallible

inductive ValidatorSetStateError where
  | changeIdMismatch
  | duplicateChangeId
  | setNotInitialized
  | agentAlreadyPresent
  | validatorIdAlreadyInUse
  | agentNotPresent
  | zeroVotingPower
  | keyRotationNoOp
  | oldKeyMismatch
  | setRebuildFailed (reason : ValidatorSetError)
  | storage (reason : String)
  deriving DecidableEq

/-! ## Entries -/

def pendingValidatorSetChangesTrieKey : Bytes := utf8 "system/pending_validator_set_changes"

def validatorSetChangeHistoryTrieKey : Bytes := utf8 "system/validator_set_change_history"

/-- A list of changes under a key; without an entry there are none. -/
def changesFromTrie (key : Bytes) (label : String) (state : ManagedWorldState) :
    Except String (List ValidatorSetChange) :=
  match state.get key with
  | some bytes =>
      match ValidatorSetChange.codec.list.ofBytes bytes with
      | some changes => .ok changes
      | none => .error (label ++ " deserialize")
  | none => .ok []

def commitChanges (key : Bytes) (state : ManagedWorldState) (changes : List ValidatorSetChange) :
    ManagedWorldState :=
  state.applyDelta ⟨[⟨key, ValidatorSetChange.codec.list.enc changes⟩], []⟩

def pendingChangesFromTrie : ManagedWorldState → Except String (List ValidatorSetChange) :=
  changesFromTrie pendingValidatorSetChangesTrieKey "pending_validator_set_changes"

def commitPendingChanges : ManagedWorldState → List ValidatorSetChange → ManagedWorldState :=
  commitChanges pendingValidatorSetChangesTrieKey

def validatorSetChangeHistoryFromTrie :
    ManagedWorldState → Except String (List ValidatorSetChange) :=
  changesFromTrie validatorSetChangeHistoryTrieKey "validator_set_change_history"

def commitHistory : ManagedWorldState → List ValidatorSetChange → ManagedWorldState :=
  commitChanges validatorSetChangeHistoryTrieKey

/-! ## Admission -/

/-- A change that is in the history already is not appended again. -/
def appendAdmissionToHistory (state : ManagedWorldState) (change : ValidatorSetChange) :
    Except ValidatorSetStateError ManagedWorldState := do
  let history ← (validatorSetChangeHistoryFromTrie state).mapError .storage
  if history.any fun c => c.changeId = change.changeId then return state
  else return commitHistory state (history ++ [change])

/-- By effective height, then by id. -/
def ValidatorSetChange.order (a b : ValidatorSetChange) : Prop :=
  ((compare a.kind.effectiveHeight b.kind.effectiveHeight).then
    (compare a.changeId b.changeId)).isLE = true

instance : DecidableRel ValidatorSetChange.order := fun a b =>
  inferInstanceAs (Decidable (((compare a.kind.effectiveHeight b.kind.effectiveHeight).then
    (compare a.changeId b.changeId)).isLE = true))

/-- The queue is written before the history is read. -/
def applyValidatorSetChangeAdmission [Crypto] (state : ManagedWorldState)
    (change : ValidatorSetChange) : Except ValidatorSetStateError Unit × ManagedWorldState :=
  if !change.changeIdIsConsistent then (.error .changeIdMismatch, state)
  else
    match pendingChangesFromTrie state with
    | .error e => (.error (.storage e), state)
    | .ok pending =>
        if pending.any fun c => c.changeId = change.changeId then
          (.error .duplicateChangeId, state)
        else
          let queued := commitPendingChanges state
            ((pending ++ [change]).insertionSort ValidatorSetChange.order)
          match appendAdmissionToHistory queued change with
          | .error e => (.error e, queued)
          | .ok recorded => (.ok (), recorded)

/-! ## Activation -/

/-- The first record of the agent is replaced. -/
def updateRecord (agentId : AgentId)
    (update : ValidatorRecord → Except ValidatorSetStateError ValidatorRecord) :
    List ValidatorRecord → Except ValidatorSetStateError (List ValidatorRecord)
  | [] => .error .agentNotPresent
  | record :: rest =>
      if record.agentId = agentId then (update record).map (· :: rest)
      else (updateRecord agentId update rest).map (record :: ·)

/-- The records after a change, before they are checked as a set. -/
def changeRecords (records : List ValidatorRecord) :
    ValidatorSetChangeKind → Except ValidatorSetStateError (List ValidatorRecord)
  | .add newRecord =>
      if records.any fun r => r.agentId = newRecord.agentId then .error .agentAlreadyPresent
      else if records.any fun r => r.validatorId = newRecord.validatorId then
        .error .validatorIdAlreadyInUse
      else .ok (records ++ [newRecord])
  | .remove agentId _ effectiveHeight =>
      updateRecord agentId
        (fun r => .ok { r with activeUntil := some (saturatingSub effectiveHeight 1) }) records
  | .rotatePower agentId newVotingPower _ =>
      if newVotingPower = 0 then .error .zeroVotingPower
      else updateRecord agentId (fun r => .ok { r with votingPower := newVotingPower }) records
  | .rotateKey agentId oldValidatorId newValidatorId _ =>
      if oldValidatorId = newValidatorId then .error .keyRotationNoOp
      else if records.any fun r => r.validatorId = newValidatorId && r.agentId ≠ agentId then
        .error .validatorIdAlreadyInUse
      else
        updateRecord agentId (fun r =>
          if r.validatorId ≠ oldValidatorId then .error .oldKeyMismatch
          else .ok { r with validatorId := newValidatorId }) records

def applyKindToSet (set : ValidatorSet) (kind : ValidatorSetChangeKind) :
    Except ValidatorSetStateError ValidatorSet := do
  let records ← changeRecords set.records kind
  (ValidatorSet.new records).mapError .setRebuildFailed

/-- One change after the other. -/
def applyKinds (set : ValidatorSet) (kinds : List ValidatorSetChangeKind) :
    Except ValidatorSetStateError ValidatorSet :=
  kinds.foldlM applyKindToSet set

/-- What is due is taken out of the queue and returned.  Nothing is written before
all of it has been applied. -/
def advanceValidatorSetToHeight (state : ManagedWorldState) (height : UInt64) :
    Except ValidatorSetStateError (List ValidatorSetChange) × ManagedWorldState :=
  match pendingChangesFromTrie state with
  | .error e => (.error (.storage e), state)
  | .ok [] => (.ok [], state)
  | .ok pending =>
      match validatorSetFromTrie state with
      | .error e => (.error (.storage e), state)
      | .ok none => (.error .setNotInitialized, state)
      | .ok (some set) =>
          let (toApply, toKeep) := pending.partition fun c => c.kind.effectiveHeight = height
          match applyKinds set (toApply.map (·.kind)) with
          | .error e => (.error e, state)
          | .ok changed =>
              (.ok toApply, commitPendingChanges (commitValidatorSet state changed) toKeep)

/-! ## Sets in canonical order -/

namespace ValidatorSet

/-- By agent, no agent and no key twice. -/
structure Canonical (set : ValidatorSet) : Prop where
  sorted : set.records.Pairwise fun a b => compare a.agentId b.agentId = .lt
  keys : (set.records.map ValidatorRecord.validatorId).Nodup

theorem Canonical.agents {set : ValidatorSet} (h : set.Canonical) :
    (set.records.map ValidatorRecord.agentId).Nodup := by
  refine List.pairwise_map.mpr (h.sorted.imp fun {a b} hlt heq => ?_)
  have hself : compare a.agentId a.agentId = .eq := Std.ReflCmp.compare_self
  rw [← heq, hself] at hlt
  cases hlt

/-- The constructor asks for distinct agents and distinct keys, and sorts. -/
theorem new_eq_ok_iff {records : List ValidatorRecord} {set : ValidatorSet} :
    new records = .ok set ↔ (records.map ValidatorRecord.agentId).Nodup
      ∧ (records.map ValidatorRecord.validatorId).Nodup
      ∧ set = ⟨sortByHash ValidatorRecord.agentId records⟩ := by
  have hperm : (sortByHash ValidatorRecord.agentId records).Perm records :=
    List.perm_insertionSort _ records
  have hagents : firstAdjacentDuplicate ((sortByHash ValidatorRecord.agentId records).map
      ValidatorRecord.agentId) = none ↔ (records.map ValidatorRecord.agentId).Nodup := by
    rw [firstAdjacentDuplicate_eq_none_iff (List.pairwise_map.mpr (pairwise_sortByHash _ records)),
      (hperm.map _).nodup_iff]
  have hkeys : firstAdjacentDuplicate (sortByHash id ((sortByHash ValidatorRecord.agentId
      records).map ValidatorRecord.validatorId)) = none
        ↔ (records.map ValidatorRecord.validatorId).Nodup := by
    rw [firstAdjacentDuplicate_sortByHash, (hperm.map _).nodup_iff]
  unfold new
  dsimp only
  rw [← hagents, ← hkeys]
  split
  · rename_i id hid
    rw [hid]
    simp
  · rename_i hnone
    split
    · rename_i id hid
      rw [hid]
      simp
    · rename_i hnone'
      simp only [hnone, hnone', Except.ok.injEq, true_and]
      exact eq_comm

theorem canonical_of_new {records : List ValidatorRecord} {set : ValidatorSet}
    (h : new records = .ok set) : set.Canonical := by
  obtain ⟨hagents, hkeys, rfl⟩ := new_eq_ok_iff.mp h
  have hperm : (sortByHash ValidatorRecord.agentId records).Perm records :=
    List.perm_insertionSort _ records
  refine ⟨?_, (hperm.map _).nodup_iff.mpr hkeys⟩
  have hdistinct := List.pairwise_map.mp ((hperm.map ValidatorRecord.agentId).nodup_iff.mpr hagents)
  refine ((pairwise_sortByHash ValidatorRecord.agentId records).and hdistinct).imp ?_
  rintro a b ⟨hle, hne⟩
  rcases hab : compare a.agentId b.agentId with _ | _ | _
  · rfl
  · exact absurd (Std.LawfulEqCmp.eq_of_compare hab) hne
  · rw [hab] at hle
    cases hle

end ValidatorSet

/-! ## What a change asks for -/

/-- The predicate of the variant, on the set as it is when the change comes up. -/
def Applies (set : ValidatorSet) : ValidatorSetChangeKind → Prop
  | .add newRecord => ∀ r ∈ set.records,
      r.agentId ≠ newRecord.agentId ∧ r.validatorId ≠ newRecord.validatorId
  | .remove agentId _ _ => ∃ r ∈ set.records, r.agentId = agentId
  | .rotatePower agentId newVotingPower _ =>
      newVotingPower ≠ 0 ∧ ∃ r ∈ set.records, r.agentId = agentId
  | .rotateKey agentId oldValidatorId newValidatorId _ =>
      oldValidatorId ≠ newValidatorId
        ∧ (∀ r ∈ set.records, r.validatorId = newValidatorId → r.agentId = agentId)
        ∧ ∃ r ∈ set.records, r.agentId = agentId ∧ r.validatorId = oldValidatorId

theorem updateRecord_eq_ok {agentId : AgentId}
    {update : ValidatorRecord → Except ValidatorSetStateError ValidatorRecord}
    {records updated : List ValidatorRecord}
    (h : updateRecord agentId update records = .ok updated) :
    ∃ before record after changed, records = before ++ record :: after
      ∧ (∀ r ∈ before, r.agentId ≠ agentId) ∧ record.agentId = agentId
      ∧ update record = .ok changed ∧ updated = before ++ changed :: after := by
  induction records generalizing updated with
  | nil => cases h
  | cons record rest ih =>
      rw [updateRecord] at h
      split at h
      · rename_i hagent
        obtain ⟨changed, hchanged, rfl⟩ := map_eq_ok_iff.mp h
        exact ⟨[], record, rest, changed, rfl, by simp, hagent, hchanged, rfl⟩
      · rename_i hagent
        obtain ⟨updated, hupdated, rfl⟩ := map_eq_ok_iff.mp h
        obtain ⟨before, found, after, changed, rfl, hbefore, hfound, hchanged, rfl⟩ := ih hupdated
        exact ⟨record :: before, found, after, changed, rfl,
          List.forall_mem_cons.mpr ⟨hagent, hbefore⟩, hfound, hchanged, rfl⟩

theorem updateRecord_of_mem {agentId : AgentId}
    {update : ValidatorRecord → Except ValidatorSetStateError ValidatorRecord}
    {records : List ValidatorRecord} {record changed : ValidatorRecord}
    (hdistinct : (records.map ValidatorRecord.agentId).Nodup) (hmem : record ∈ records)
    (hagent : record.agentId = agentId) (hupdate : update record = .ok changed) :
    ∃ updated, updateRecord agentId update records = .ok updated := by
  induction records with
  | nil => cases hmem
  | cons r rest ih =>
      rw [List.map_cons, List.nodup_cons] at hdistinct
      rw [updateRecord]
      rcases List.mem_cons.mp hmem with rfl | hmem
      · rw [if_pos hagent, hupdate]
        exact ⟨_, rfl⟩
      · have hne : r.agentId ≠ agentId := by
          intro heq
          exact hdistinct.1 (List.mem_map.mpr ⟨record, hmem, hagent.trans heq.symm⟩)
        obtain ⟨updated, hupdated⟩ := ih hdistinct.2 hmem
        rw [if_neg hne, hupdated]
        exact ⟨_, rfl⟩

/-- A record replaced by one of the same agent with a key that nobody else has. -/
theorem exists_new_of_update {set : ValidatorSet} (hset : set.Canonical)
    {before after : List ValidatorRecord} {record changed : ValidatorRecord}
    (hrecords : set.records = before ++ record :: after)
    (hagent : changed.agentId = record.agentId)
    (hkey : ∀ r ∈ before ++ after, r.validatorId ≠ changed.validatorId) :
    ∃ set', ValidatorSet.new (before ++ changed :: after) = .ok set' := by
  have hagents := hset.agents
  have hkeys := hset.keys
  rw [hrecords, List.map_append, List.map_cons] at hagents hkeys
  refine ⟨_, ValidatorSet.new_eq_ok_iff.mpr ⟨?_, ?_, rfl⟩⟩
  · rw [List.map_append, List.map_cons, hagent]
    exact hagents
  · rw [List.nodup_middle, List.nodup_cons] at hkeys
    rw [List.map_append, List.map_cons, List.nodup_middle, List.nodup_cons, ← List.map_append]
    refine ⟨fun hmem => ?_, ?_⟩
    · obtain ⟨r, hr, heq⟩ := List.mem_map.mp hmem
      exact hkey r hr heq
    · rw [List.map_append]
      exact hkeys.2

/-- Apart from a record, no other has its agent or its key. -/
theorem ValidatorSet.Canonical.others_ne {set : ValidatorSet} (hset : set.Canonical)
    {before after : List ValidatorRecord} {record : ValidatorRecord}
    (hrecords : set.records = before ++ record :: after) :
    ∀ r ∈ before ++ after, r.agentId ≠ record.agentId ∧ r.validatorId ≠ record.validatorId := by
  have hagents := hset.agents
  have hkeys := hset.keys
  rw [hrecords, List.map_append, List.map_cons, List.nodup_middle, List.nodup_cons,
    ← List.map_append] at hagents hkeys
  intro r hr
  exact ⟨fun heq => hagents.1 (List.mem_map.mpr ⟨r, hr, heq⟩),
    fun heq => hkeys.1 (List.mem_map.mpr ⟨r, hr, heq⟩)⟩

theorem mem_of_eq_append {before after : List ValidatorRecord} {record : ValidatorRecord}
    {records : List ValidatorRecord} (h : records = before ++ record :: after) :
    record ∈ records := by
  rw [h]
  exact List.mem_append_right _ List.mem_cons_self

/-- A change of a record other than its agent and its key. -/
theorem exists_applied_iff {set : ValidatorSet} (hset : set.Canonical) (agentId : AgentId)
    {update : ValidatorRecord → ValidatorRecord} (hagent : ∀ r, (update r).agentId = r.agentId)
    (hkey : ∀ r, (update r).validatorId = r.validatorId) :
    (∃ records set', updateRecord agentId (fun r => .ok (update r)) set.records = .ok records
        ∧ ValidatorSet.new records = .ok set') ↔ ∃ r ∈ set.records, r.agentId = agentId := by
  constructor
  · rintro ⟨records, set', hupdated, -⟩
    obtain ⟨before, record, after, changed, hrecords, -, hrecord, -, -⟩ :=
      updateRecord_eq_ok hupdated
    exact ⟨record, mem_of_eq_append hrecords, hrecord⟩
  · rintro ⟨r, hr, hid⟩
    obtain ⟨updated, hupdated⟩ : ∃ updated,
        updateRecord agentId (fun r => .ok (update r)) set.records = .ok updated :=
      updateRecord_of_mem hset.agents hr hid rfl
    obtain ⟨before, record, after, changed, hrecords, -, -, hchanged, rfl⟩ :=
      updateRecord_eq_ok hupdated
    obtain rfl := Except.ok.inj hchanged
    obtain ⟨set', hset'⟩ := exists_new_of_update hset hrecords (hagent record) fun q hq => by
      rw [hkey record]
      exact (hset.others_ne hrecords q hq).2
    exact ⟨_, set', hupdated, hset'⟩

theorem applyKindToSet_eq_ok_iff {set set' : ValidatorSet} {kind : ValidatorSetChangeKind} :
    applyKindToSet set kind = .ok set' ↔
      ∃ records, changeRecords set.records kind = .ok records
        ∧ ValidatorSet.new records = .ok set' := by
  unfold applyKindToSet
  simp only [bind_eq_ok_iff, mapError_eq_ok_iff]

/-- Only a set in canonical order comes out. -/
theorem canonical_applyKindToSet {set set' : ValidatorSet} {kind : ValidatorSetChangeKind}
    (h : applyKindToSet set kind = .ok set') : set'.Canonical := by
  obtain ⟨records, -, hnew⟩ := applyKindToSet_eq_ok_iff.mp h
  exact ValidatorSet.canonical_of_new hnew

theorem applies_add_iff {set : ValidatorSet} (hset : set.Canonical) (newRecord : ValidatorRecord) :
    (∃ set', applyKindToSet set (.add newRecord) = .ok set') ↔ Applies set (.add newRecord) := by
  simp only [applyKindToSet_eq_ok_iff, changeRecords]
  constructor
  · rintro ⟨set', records, hrecords, -⟩
    split at hrecords
    · cases hrecords
    · split at hrecords
      · cases hrecords
      · rename_i hagent hkey
        simp only [List.any_eq_true, decide_eq_true_eq, not_exists, not_and] at hagent hkey
        exact fun r hr => ⟨hagent r hr, hkey r hr⟩
  · intro h
    have hagent : ¬ (set.records.any fun r => decide (r.agentId = newRecord.agentId)) = true := by
      simp only [List.any_eq_true, decide_eq_true_eq, not_exists, not_and]
      exact fun r hr => (h r hr).1
    have hkey : ¬ (set.records.any fun r => decide (r.validatorId = newRecord.validatorId))
        = true := by
      simp only [List.any_eq_true, decide_eq_true_eq, not_exists, not_and]
      exact fun r hr => (h r hr).2
    rw [if_neg hagent, if_neg hkey]
    refine ⟨_, _, rfl, ValidatorSet.new_eq_ok_iff.mpr ⟨?_, ?_, rfl⟩⟩
    · rw [List.map_append, List.nodup_append]
      refine ⟨hset.agents, List.nodup_singleton _, fun id hid id' hid' => ?_⟩
      obtain ⟨r, hr, rfl⟩ := List.mem_map.mp hid
      rw [List.map_singleton, List.mem_singleton] at hid'
      rw [hid']
      exact (h r hr).1
    · rw [List.map_append, List.nodup_append]
      refine ⟨hset.keys, List.nodup_singleton _, fun id hid id' hid' => ?_⟩
      obtain ⟨r, hr, rfl⟩ := List.mem_map.mp hid
      rw [List.map_singleton, List.mem_singleton] at hid'
      rw [hid']
      exact (h r hr).2

theorem applies_rotateKey_iff {set : ValidatorSet} (hset : set.Canonical) (agentId : AgentId)
    (oldValidatorId newValidatorId : Ed25519PublicKey) (effectiveHeight : UInt64) :
    (∃ set', applyKindToSet set (.rotateKey agentId oldValidatorId newValidatorId effectiveHeight)
        = .ok set')
      ↔ Applies set (.rotateKey agentId oldValidatorId newValidatorId effectiveHeight) := by
  simp only [applyKindToSet_eq_ok_iff, changeRecords]
  constructor
  · rintro ⟨set', records, hrecords, -⟩
    split at hrecords
    · cases hrecords
    · rename_i hsame
      split at hrecords
      · cases hrecords
      · rename_i hused
        simp only [List.any_eq_true, Bool.and_eq_true, decide_eq_true_eq, not_exists, not_and,
          not_not] at hused
        obtain ⟨before, record, after, changed, hsplit, -, hrecord, hchanged, -⟩ :=
          updateRecord_eq_ok hrecords
        refine ⟨hsame, fun r hr hkey => hused r hr hkey, record, mem_of_eq_append hsplit, hrecord, ?_⟩
        split at hchanged
        · cases hchanged
        · rename_i hold
          exact not_not.mp hold
  · rintro ⟨hsame, hused, r, hr, hagent, hkey⟩
    have hfree : ¬ (set.records.any fun r => decide (r.validatorId = newValidatorId)
        && decide (r.agentId ≠ agentId)) = true := by
      simp only [List.any_eq_true, Bool.and_eq_true, decide_eq_true_eq, not_exists, not_and,
        not_not]
      exact fun r hr hkey => hused r hr hkey
    rw [if_neg hsame, if_neg hfree]
    obtain ⟨updated, hupdated⟩ : ∃ updated, updateRecord agentId (fun r =>
        if r.validatorId ≠ oldValidatorId then .error .oldKeyMismatch
        else .ok { r with validatorId := newValidatorId }) set.records = .ok updated :=
      updateRecord_of_mem hset.agents hr hagent (if_neg (not_not.mpr hkey))
    obtain ⟨before, record, after, changed, hsplit, -, hrecord, hchanged, rfl⟩ :=
      updateRecord_eq_ok hupdated
    split at hchanged
    · cases hchanged
    · obtain rfl := Except.ok.inj hchanged
      have hkeys : ∀ q ∈ before ++ after, q.validatorId ≠ newValidatorId := by
        intro q hq hqkey
        have hmem : q ∈ set.records := by
          rw [hsplit]
          rcases List.mem_append.mp hq with hq | hq
          · exact List.mem_append_left _ hq
          · exact List.mem_append_right _ (List.mem_cons_of_mem _ hq)
        exact (hset.others_ne hsplit q hq).1 ((hused q hmem hqkey).trans hrecord.symm)
      obtain ⟨set', hset'⟩ := exists_new_of_update hset hsplit
        (show ({ record with validatorId := newValidatorId } : ValidatorRecord).agentId
          = record.agentId from rfl) hkeys
      exact ⟨set', _, hupdated, hset'⟩

/-- A change goes through on a set in canonical order exactly if the predicate of
its variant holds of it. -/
theorem applies_iff {set : ValidatorSet} (hset : set.Canonical) (kind : ValidatorSetChangeKind) :
    (∃ set', applyKindToSet set kind = .ok set') ↔ Applies set kind := by
  cases kind with
  | add newRecord => exact applies_add_iff hset newRecord
  | remove agentId reason effectiveHeight =>
      simp only [applyKindToSet_eq_ok_iff, changeRecords]
      rw [exists_comm]
      exact exists_applied_iff hset agentId (fun _ => rfl) fun _ => rfl
  | rotatePower agentId newVotingPower effectiveHeight =>
      simp only [applyKindToSet_eq_ok_iff, changeRecords, Applies]
      by_cases hzero : newVotingPower = 0
      · simp [hzero]
      · simp only [ne_eq, hzero, not_false_eq_true, true_and]
        rw [exists_comm]
        exact exists_applied_iff hset agentId (fun _ => rfl) fun _ => rfl
  | rotateKey agentId oldValidatorId newValidatorId effectiveHeight =>
      exact applies_rotateKey_iff hset agentId oldValidatorId newValidatorId effectiveHeight

/-- Each change on the set that those before it leave. -/
def AppliesAll : ValidatorSet → List ValidatorSetChangeKind → Prop
  | _, [] => True
  | set, kind :: rest => Applies set kind
      ∧ ∀ set', applyKindToSet set kind = .ok set' → AppliesAll set' rest

theorem appliesAll_iff {set : ValidatorSet} (hset : set.Canonical)
    (kinds : List ValidatorSetChangeKind) :
    (∃ set', applyKinds set kinds = .ok set') ↔ AppliesAll set kinds := by
  induction kinds generalizing set with
  | nil => exact ⟨fun _ => trivial, fun _ => ⟨set, rfl⟩⟩
  | cons kind rest ih =>
      simp only [applyKinds, List.foldlM_cons, bind_eq_ok_iff, AppliesAll]
      rw [← applies_iff hset]
      constructor
      · rintro ⟨changed, set', hset', hrest⟩
        refine ⟨⟨set', hset'⟩, fun set'' hset'' => ?_⟩
        obtain rfl := Except.ok.inj (hset'.symm.trans hset'')
        exact (ih (canonical_applyKindToSet hset')).mp ⟨changed, hrest⟩
      · rintro ⟨⟨set', hset'⟩, hrest⟩
        obtain ⟨changed, hchanged⟩ := (ih (canonical_applyKindToSet hset')).mpr (hrest set' hset')
        exact ⟨changed, set', hset', hchanged⟩

theorem canonical_applyKinds {set set' : ValidatorSet} (hset : set.Canonical)
    {kinds : List ValidatorSetChangeKind} (h : applyKinds set kinds = .ok set') :
    set'.Canonical := by
  induction kinds generalizing set with
  | nil =>
      obtain rfl := Except.ok.inj h
      exact hset
  | cons kind rest ih =>
      simp only [applyKinds, List.foldlM_cons, bind_eq_ok_iff] at h
      obtain ⟨next, hnext, hrest⟩ := h
      exact ih (canonical_applyKindToSet hnext) hrest

end Sccgub
