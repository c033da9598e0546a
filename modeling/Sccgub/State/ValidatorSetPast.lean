import Mathlib
import Sccgub.Execution.ValidatorSetSweeps

/-!
# What a sweep does to the past

A record has one power, one key and one interval, and a change rewrites them where
they stand.  The past of a validator therefore changes with its power and its key,
and one that had left comes back for the time since where it is removed again.

`changed_perm` says what a sweep makes of the records: each one after what its
changes leave, and the new ones, which begin at the height of the sweep.
-/

namespace Sccgub

open Bincode FixedWidth Fallible

/-! ## What is asked of a height -/

namespace ValidatorSet

/-- The members at a height, with the keys and powers that votes are judged by. -/
def membersAt (self : ValidatorSet) (height : UInt64) :
    List (AgentId × Ed25519PublicKey × UInt64) :=
  (self.activeAt height).map fun r => (r.agentId, r.validatorId, r.votingPower)

/-- The quorum depends on the members alone. -/
theorem quorumPowerAt_congr {set set' : ValidatorSet} {height : UInt64}
    (h : set'.membersAt height = set.membersAt height) :
    set'.quorumPowerAt height = set.quorumPowerAt height := by
  have htotal : ∀ s : ValidatorSet,
      s.totalPowerAt height = ((s.membersAt height).map (·.2.2.toNat)).sum := by
    intro s
    rw [membersAt, List.map_map]
    rfl
  rw [quorumPowerAt, quorumPowerAt, htotal, htotal, h]

theorem mem_membersAt {set : ValidatorSet} {height : UInt64}
    {member : AgentId × Ed25519PublicKey × UInt64} :
    member ∈ set.membersAt height ↔ ∃ r ∈ set.records, r.isActiveAt height = true
      ∧ member = (r.agentId, r.validatorId, r.votingPower) := by
  simp only [membersAt, activeAt, List.mem_map, List.mem_filter, and_assoc, eq_comm]

theorem Canonical.eq_of_agentId {set : ValidatorSet} (hset : set.Canonical) {r q : ValidatorRecord}
    (hr : r ∈ set.records) (hq : q ∈ set.records) (h : r.agentId = q.agentId) : r = q :=
  List.inj_on_of_nodup_map hset.agents hr hq h

end ValidatorSet

/-! ## What the changes leave of a record -/

namespace ValidatorSetChangeKind

/-- The power that a change gives to an agent. -/
def newPower? (agentId : AgentId) : ValidatorSetChangeKind → Option UInt64
  | rotatePower id newVotingPower _ => if id = agentId then some newVotingPower else none
  | _ => none

/-- The key that a change gives to an agent. -/
def newKey? (agentId : AgentId) : ValidatorSetChangeKind → Option Ed25519PublicKey
  | rotateKey id _ newValidatorId _ => if id = agentId then some newValidatorId else none
  | _ => none

def removes (agentId : AgentId) (kind : ValidatorSetChangeKind) : Bool :=
  kind.isRemove && kind.targetAgentId = agentId

end ValidatorSetChangeKind

namespace ValidatorRecord

/-- The record after a change. -/
def changedBy (self : ValidatorRecord) : ValidatorSetChangeKind → ValidatorRecord
  | .add _ => self
  | .remove agentId _ effectiveHeight =>
      if self.agentId = agentId then
        { self with activeUntil := some (saturatingSub effectiveHeight 1) }
      else self
  | .rotatePower agentId newVotingPower _ =>
      if self.agentId = agentId then { self with votingPower := newVotingPower } else self
  | .rotateKey agentId _ newValidatorId _ =>
      if self.agentId = agentId then { self with validatorId := newValidatorId } else self

/-- The record after all of them. -/
def changed (kinds : List ValidatorSetChangeKind) (self : ValidatorRecord) : ValidatorRecord :=
  kinds.foldl changedBy self

/-- The last power that the changes give, or the one before. -/
def powerAfter (self : ValidatorRecord) (kinds : List ValidatorSetChangeKind) : UInt64 :=
  (kinds.filterMap (·.newPower? self.agentId)).getLastD self.votingPower

def keyAfter (self : ValidatorRecord) (kinds : List ValidatorSetChangeKind) : Ed25519PublicKey :=
  (kinds.filterMap (·.newKey? self.agentId)).getLastD self.validatorId

def removedBy (self : ValidatorRecord) (kinds : List ValidatorSetChangeKind) : Bool :=
  kinds.any (·.removes self.agentId)

/-- What a change gives it, and the rest as it was. -/
theorem changedBy_eq (r : ValidatorRecord) (kind : ValidatorSetChangeKind) :
    r.changedBy kind = { r with
      votingPower := (kind.newPower? r.agentId).getD r.votingPower
      validatorId := (kind.newKey? r.agentId).getD r.validatorId
      activeUntil := if kind.removes r.agentId then some (saturatingSub kind.effectiveHeight 1)
        else r.activeUntil } := by
  cases kind with
  | add record => rfl
  | remove agentId reason effectiveHeight =>
      by_cases hid : r.agentId = agentId
      · have hremoves : (ValidatorSetChangeKind.remove agentId reason effectiveHeight).removes
            r.agentId = true := decide_eq_true hid.symm
        rw [changedBy, if_pos hid, hremoves]
        rfl
      · have hremoves : (ValidatorSetChangeKind.remove agentId reason effectiveHeight).removes
            r.agentId = false := decide_eq_false (Ne.symm hid)
        rw [changedBy, if_neg hid, hremoves]
        rfl
  | rotatePower agentId newVotingPower effectiveHeight =>
      by_cases hid : r.agentId = agentId
      · rw [changedBy, if_pos hid, ValidatorSetChangeKind.newPower?, if_pos hid.symm]
        rfl
      · rw [changedBy, if_neg hid, ValidatorSetChangeKind.newPower?, if_neg (Ne.symm hid)]
        rfl
  | rotateKey agentId oldValidatorId newValidatorId effectiveHeight =>
      by_cases hid : r.agentId = agentId
      · rw [changedBy, if_pos hid, ValidatorSetChangeKind.newKey?, if_pos hid.symm]
        rfl
      · rw [changedBy, if_neg hid, ValidatorSetChangeKind.newKey?, if_neg (Ne.symm hid)]
        rfl

@[simp] theorem agentId_changedBy (r : ValidatorRecord) (kind : ValidatorSetChangeKind) :
    (r.changedBy kind).agentId = r.agentId := by
  rw [changedBy_eq]

theorem getLastD_filterMap_cons {α β : Type} (f : α → Option β) (x : α) (l : List α) (d : β) :
    ((x :: l).filterMap f).getLastD d = (l.filterMap f).getLastD ((f x).getD d) := by
  rw [List.filterMap_cons]
  rcases f x with _ | y
  · rfl
  · rw [List.getLastD_cons]
    rfl

/-- Of changes for one height the last power and key count, and any removal. -/
theorem changed_eq {height : UInt64} {kinds : List ValidatorSetChangeKind}
    (hkinds : ∀ kind ∈ kinds, kind.effectiveHeight = height) (r : ValidatorRecord) :
    r.changed kinds = { r with
      votingPower := r.powerAfter kinds
      validatorId := r.keyAfter kinds
      activeUntil := if r.removedBy kinds then some (saturatingSub height 1) else r.activeUntil } := by
  induction kinds generalizing r with
  | nil => rfl
  | cons kind rest ih =>
      rw [List.forall_mem_cons] at hkinds
      obtain ⟨hkind, hrest⟩ := hkinds
      have hpower : r.powerAfter (kind :: rest) = (r.changedBy kind).powerAfter rest := by
        rw [powerAfter, powerAfter, getLastD_filterMap_cons, changedBy_eq]
      have hkey : r.keyAfter (kind :: rest) = (r.changedBy kind).keyAfter rest := by
        rw [keyAfter, keyAfter, getLastD_filterMap_cons, changedBy_eq]
      have hremoved : r.removedBy (kind :: rest)
          = (kind.removes r.agentId || (r.changedBy kind).removedBy rest) := by
        rw [removedBy, removedBy, List.any_cons, agentId_changedBy]
      calc r.changed (kind :: rest)
          = (r.changedBy kind).changed rest := rfl
        _ = _ := ih hrest _
        _ = _ := by
          rw [hpower, hkey, hremoved, changedBy_eq, hkind]
          rcases kind.removes r.agentId with _ | _
          · rfl
          · simp only [Bool.true_or, if_true, ite_self]

end ValidatorRecord

/-! ## What the changes make of the set -/

/-- The record that a change brings in. -/
def ValidatorSetChangeKind.added : ValidatorSetChangeKind → List ValidatorRecord
  | .add record => [record]
  | _ => []

theorem updateRecord_eq_map {agentId : AgentId}
    {update : ValidatorRecord → Except ValidatorSetStateError ValidatorRecord}
    {f : ValidatorRecord → ValidatorRecord} {records updated : List ValidatorRecord}
    (hdistinct : (records.map ValidatorRecord.agentId).Nodup)
    (hupdate : ∀ r changed, r.agentId = agentId → update r = .ok changed → changed = f r)
    (hothers : ∀ r : ValidatorRecord, r.agentId ≠ agentId → f r = r)
    (h : updateRecord agentId update records = .ok updated) : updated = records.map f := by
  obtain ⟨before, record, after, changed, rfl, hbefore, hrecord, hchanged, rfl⟩ :=
    updateRecord_eq_ok h
  rw [List.map_append, List.map_cons, List.nodup_middle, List.nodup_cons] at hdistinct
  have hafter : ∀ r ∈ after, r.agentId ≠ agentId := by
    intro r hr heq
    refine hdistinct.1 (List.mem_append_right _ (List.mem_map.mpr ⟨r, hr, ?_⟩))
    exact heq.trans hrecord.symm
  have hsame : ∀ l : List ValidatorRecord, (∀ r ∈ l, r.agentId ≠ agentId) → l.map f = l := by
    intro l hl
    calc l.map f = l.map id := List.map_congr_left fun r hr => hothers r (hl r hr)
      _ = l := List.map_id l
  rw [List.map_append, List.map_cons, hsame before hbefore, hsame after hafter,
    hupdate record changed hrecord hchanged]

/-- A change leaves every record after it, and adds at most one. -/
theorem applyKindToSet_perm {set set' : ValidatorSet} (hset : set.Canonical)
    {kind : ValidatorSetChangeKind} (h : applyKindToSet set kind = .ok set') :
    set'.records.Perm (set.records.map (·.changedBy kind) ++ kind.added) := by
  obtain ⟨records, hrecords, hnew⟩ := applyKindToSet_eq_ok_iff.mp h
  obtain ⟨-, -, rfl⟩ := ValidatorSet.new_eq_ok_iff.mp hnew
  have hperm : (sortByHash ValidatorRecord.agentId records).Perm records :=
    List.perm_insertionSort _ records
  suffices hchanged : records = set.records.map (·.changedBy kind) ++ kind.added from
    hchanged ▸ hperm
  cases kind with
  | add record =>
      rw [changeRecords] at hrecords
      split at hrecords
      · cases hrecords
      · split at hrecords
        · cases hrecords
        · obtain rfl := Except.ok.inj hrecords
          show _ = set.records.map id ++ [record]
          rw [List.map_id]
  | remove agentId reason effectiveHeight =>
      rw [changeRecords] at hrecords
      rw [show (ValidatorSetChangeKind.remove agentId reason effectiveHeight).added = [] from rfl,
        List.append_nil]
      refine updateRecord_eq_map hset.agents (fun r changed hr hupdate => ?_)
        (fun r hr => if_neg hr) hrecords
      obtain rfl := Except.ok.inj hupdate
      exact (if_pos hr).symm
  | rotatePower agentId newVotingPower effectiveHeight =>
      rw [changeRecords] at hrecords
      rw [show (ValidatorSetChangeKind.rotatePower agentId newVotingPower effectiveHeight).added
        = [] from rfl, List.append_nil]
      split at hrecords
      · cases hrecords
      · refine updateRecord_eq_map hset.agents (fun r changed hr hupdate => ?_)
          (fun r hr => if_neg hr) hrecords
        obtain rfl := Except.ok.inj hupdate
        exact (if_pos hr).symm
  | rotateKey agentId oldValidatorId newValidatorId effectiveHeight =>
      rw [changeRecords] at hrecords
      rw [show (ValidatorSetChangeKind.rotateKey agentId oldValidatorId newValidatorId
        effectiveHeight).added = [] from rfl, List.append_nil]
      split at hrecords
      · cases hrecords
      · split at hrecords
        · cases hrecords
        · refine updateRecord_eq_map hset.agents (fun r changed hr hupdate => ?_)
            (fun r hr => if_neg hr) hrecords
          split at hupdate
          · cases hupdate
          · obtain rfl := Except.ok.inj hupdate
            exact (if_pos hr).symm

/-- After the changes of one height every record is after them, and the new ones begin
at that height. -/
theorem changed_perm {height : UInt64} {set set' : ValidatorSet} (hset : set.Canonical)
    {kinds : List ValidatorSetChangeKind} (hkinds : ∀ kind ∈ kinds, kind.effectiveHeight = height)
    (h : applyKinds set kinds = .ok set') :
    ∃ fresh : List ValidatorRecord, (∀ r ∈ fresh, r.activeFrom = height)
      ∧ set'.records.Perm (set.records.map (·.changed kinds) ++ fresh) := by
  induction kinds generalizing set with
  | nil =>
      obtain rfl := Except.ok.inj h
      refine ⟨[], fun r hr => (nomatch hr), ?_⟩
      show set.records.Perm (set.records.map id ++ [])
      rw [List.map_id, List.append_nil]
  | cons kind rest ih =>
      rw [List.forall_mem_cons] at hkinds
      simp only [applyKinds, List.foldlM_cons, bind_eq_ok_iff] at h
      obtain ⟨next, hnext, hrest⟩ := h
      obtain ⟨fresh, hfresh, hperm⟩ := ih (canonical_applyKindToSet hnext) hkinds.2 hrest
      refine ⟨kind.added.map (·.changed rest) ++ fresh, fun r hr => ?_, ?_⟩
      · rcases List.mem_append.mp hr with hr | hr
        · obtain ⟨q, hq, rfl⟩ := List.mem_map.mp hr
          rw [ValidatorRecord.changed_eq hkinds.2]
          cases kind with
          | add record =>
              obtain rfl := List.mem_singleton.mp hq
              exact hkinds.1
          | _ => cases hq
        · exact hfresh r hr
      · refine hperm.trans ((((applyKindToSet_perm hset hnext).map _).append_right fresh).trans ?_)
        rw [List.map_append, List.map_map, List.append_assoc]
        exact List.Perm.refl _

/-! ## Heights that are past -/

namespace ValidatorRecord

/-- Whether it may have been active before a height. -/
def HasPast (self : ValidatorRecord) (height : UInt64) : Prop :=
  self.votingPower ≠ 0 ∧ self.activeFrom < height
    ∧ ∀ u, self.activeUntil = some u → self.activeFrom ≤ u

/-- A record that has no past is given none by the changes for a height.  One that had
left before is not removed again; one without power gets none, unless its time is
empty. -/
structure StaysGone (height : UInt64) (kinds : List ValidatorSetChangeKind)
    (r : ValidatorRecord) : Prop where
  gone : r.removedBy kinds = true → r.powerAfter kinds ≠ 0 → r.activeFrom < height →
    ∀ u, r.activeUntil = some u → height.toNat ≤ u.toNat + 1
  idle : r.votingPower = 0 → r.powerAfter kinds ≠ 0 → r.activeFrom < height →
    r.removedBy kinds = false ∧ ∃ u, r.activeUntil = some u ∧ u < r.activeFrom

/-- One that has a past keeps its power and its key besides. -/
structure Undisturbed (height : UInt64) (kinds : List ValidatorSetChangeKind)
    (r : ValidatorRecord) : Prop extends StaysGone height kinds r where
  kept : r.HasPast height → r.powerAfter kinds = r.votingPower ∧ r.keyAfter kinds = r.validatorId

theorem isActiveAt_iff {r : ValidatorRecord} {height : UInt64} :
    r.isActiveAt height = true ↔ r.votingPower ≠ 0 ∧ r.activeFrom ≤ height
      ∧ ∀ u, r.activeUntil = some u → height ≤ u := by
  unfold isActiveAt
  split
  · rename_i hzero
    exact ⟨fun h => (nomatch h), fun h => absurd hzero h.1⟩
  · rename_i hpower
    split
    · rename_i hbefore
      exact ⟨fun h => (nomatch h), fun h => absurd h.2.1 (UInt64.not_le.mpr hbefore)⟩
    · rename_i hfrom
      rcases r.activeUntil with _ | u
      · exact ⟨fun _ => ⟨hpower, UInt64.not_lt.mp hfrom, fun _ h => (nomatch h)⟩, fun _ => rfl⟩
      · simp only [decide_eq_true_eq, Option.some.injEq, forall_eq']
        exact ⟨fun h => ⟨hpower, UInt64.not_lt.mp hfrom, h⟩, fun h => h.2.2⟩

/-- At a past height it is judged as before. -/
def SameAt (r q : ValidatorRecord) (height : UInt64) : Prop :=
  (q.isActiveAt height = true ↔ r.isActiveAt height = true)
    ∧ (r.isActiveAt height = true → q.votingPower = r.votingPower ∧ q.validatorId = r.validatorId)

/-- Until when it is active after the changes. -/
theorem activeUntil_changed_iff {height past : UInt64} {removed : Bool} {until? : Option UInt64}
    (hpast : past < height) :
    (∀ u, (if removed = true then some (saturatingSub height 1) else until?) = some u → past ≤ u)
      ↔ removed = true ∨ ∀ u, until? = some u → past ≤ u := by
  cases removed with
  | true =>
      refine ⟨fun _ => Or.inl rfl, fun _ u hu => ?_⟩
      obtain rfl : saturatingSub height 1 = u := Option.some_inj.mp hu
      rw [UInt64.le_iff_toNat_le, toNat_saturatingSub]
      rw [UInt64.lt_iff_toNat_lt] at hpast
      show past.toNat ≤ height.toNat - 1
      omega
  | false => exact ⟨Or.inr, fun h => h.resolve_left (fun h => nomatch h)⟩

theorem isActiveAt_changed_iff {height past : UInt64} {kinds : List ValidatorSetChangeKind}
    (hkinds : ∀ kind ∈ kinds, kind.effectiveHeight = height) (hpast : past < height)
    (r : ValidatorRecord) :
    (r.changed kinds).isActiveAt past = true ↔ r.powerAfter kinds ≠ 0 ∧ r.activeFrom ≤ past
      ∧ (r.removedBy kinds = true ∨ ∀ u, r.activeUntil = some u → past ≤ u) := by
  rw [changed_eq hkinds, isActiveAt_iff]
  dsimp only
  rw [activeUntil_changed_iff hpast]

/-- What stays gone is active at the past heights where it was. -/
theorem StaysGone.isActiveAt_changed {height past : UInt64} {kinds : List ValidatorSetChangeKind}
    {r : ValidatorRecord} (h : r.StaysGone height kinds)
    (hkinds : ∀ kind ∈ kinds, kind.effectiveHeight = height) (hpast : past < height)
    (hpower : r.isActiveAt past = true → r.powerAfter kinds ≠ 0) :
    (r.changed kinds).isActiveAt past = true ↔ r.isActiveAt past = true := by
  rw [isActiveAt_changed_iff hkinds hpast]
  constructor
  · rintro ⟨hpower, hfrom, huntil⟩
    have hbefore := UInt64.lt_of_le_of_lt hfrom hpast
    refine isActiveAt_iff.mpr ⟨fun hzero => ?_, hfrom, fun u hu => ?_⟩
    · obtain ⟨hnot, u, hu, hempty⟩ := h.idle hzero hpower hbefore
      rw [hnot] at huntil
      have hle := huntil.resolve_left (fun h => nomatch h) u hu
      exact absurd (UInt64.le_trans hfrom hle) (UInt64.not_le.mpr hempty)
    · rcases huntil with hremoved | huntil
      · have hgone := h.gone hremoved hpower hbefore u hu
        rw [UInt64.lt_iff_toNat_lt] at hpast
        rw [UInt64.le_iff_toNat_le]
        omega
      · exact huntil u hu
  · intro hactive
    obtain ⟨-, hfrom, huntil⟩ := isActiveAt_iff.mp hactive
    exact ⟨hpower hactive, hfrom, Or.inr huntil⟩

theorem undisturbed_iff {height : UInt64} {kinds : List ValidatorSetChangeKind}
    (hkinds : ∀ kind ∈ kinds, kind.effectiveHeight = height) (r : ValidatorRecord) :
    r.Undisturbed height kinds ↔ ∀ past < height, r.SameAt (r.changed kinds) past := by
  have hpower : (r.changed kinds).votingPower = r.powerAfter kinds := by
    rw [changed_eq hkinds]
  have hkey : (r.changed kinds).validatorId = r.keyAfter kinds := by
    rw [changed_eq hkinds]
  constructor
  · intro h past hpast
    have hkept : r.isActiveAt past = true →
        r.powerAfter kinds = r.votingPower ∧ r.keyAfter kinds = r.validatorId := by
      intro hactive
      obtain ⟨hsome, hfrom, huntil⟩ := isActiveAt_iff.mp hactive
      exact h.kept ⟨hsome, UInt64.lt_of_le_of_lt hfrom hpast,
        fun u hu => UInt64.le_trans hfrom (huntil u hu)⟩
    refine ⟨h.isActiveAt_changed hkinds hpast fun hactive => ?_, ?_⟩
    · rw [(hkept hactive).1]
      exact (isActiveAt_iff.mp hactive).1
    · rw [hpower, hkey]
      exact hkept
  · intro h
    have hactive : ∀ past < height, r.powerAfter kinds ≠ 0 → r.activeFrom ≤ past →
        (r.removedBy kinds = true ∨ ∀ u, r.activeUntil = some u → past ≤ u) →
          r.isActiveAt past = true := fun past hpast hsome hfrom huntil =>
      (h past hpast).1.mp ((isActiveAt_changed_iff hkinds hpast r).mpr ⟨hsome, hfrom, huntil⟩)
    refine ⟨⟨?_, ?_⟩, ?_⟩
    · -- removed, it is active right before the height
      intro hremoved hsome hfrom u hu
      rw [UInt64.lt_iff_toNat_lt] at hfrom
      have hlast : (saturatingSub height 1).toNat = height.toNat - 1 := toNat_saturatingSub height 1
      have hpast : saturatingSub height 1 < height := by
        rw [UInt64.lt_iff_toNat_lt, hlast]
        omega
      have hbegun : r.activeFrom ≤ saturatingSub height 1 := by
        rw [UInt64.le_iff_toNat_le, hlast]
        omega
      have hle := (isActiveAt_iff.mp (hactive _ hpast hsome hbegun (Or.inl hremoved))).2.2 u hu
      rw [UInt64.le_iff_toNat_le, hlast] at hle
      omega
    · intro hzero hsome hfrom
      have hnever : ¬ (r.removedBy kinds = true
          ∨ ∀ u, r.activeUntil = some u → r.activeFrom ≤ u) := fun huntil =>
        (isActiveAt_iff.mp (hactive _ hfrom hsome (UInt64.le_refl _) huntil)).1 hzero
      rw [not_or] at hnever
      refine ⟨Bool.eq_false_of_not_eq_true hnever.1, ?_⟩
      obtain ⟨u, hnot⟩ := not_forall.mp hnever.2
      obtain ⟨hu, hempty⟩ := Classical.not_imp.mp hnot
      exact ⟨u, hu, UInt64.not_le.mp hempty⟩
    · rintro ⟨hsome, hfrom, huntil⟩
      have hsame := (h _ hfrom).2 (isActiveAt_iff.mpr ⟨hsome, UInt64.le_refl _, huntil⟩)
      rw [hpower, hkey] at hsame
      exact hsame

end ValidatorRecord

namespace ValidatorSet

/-- At a past height the changed records are the members, the new ones not yet. -/
theorem membersAt_applyKinds {height past : UInt64} {set set' : ValidatorSet}
    (hset : set.Canonical) {kinds : List ValidatorSetChangeKind}
    (hkinds : ∀ kind ∈ kinds, kind.effectiveHeight = height)
    (h : applyKinds set kinds = .ok set') (hpast : past < height) :
    set'.membersAt past = ((set.records.map (·.changed kinds)).filter (·.isActiveAt past)).map
      fun r => (r.agentId, r.validatorId, r.votingPower) := by
  obtain ⟨fresh, hfresh, hperm⟩ := changed_perm hset hkinds h
  have hlater : fresh.filter (·.isActiveAt past) = [] := by
    refine List.filter_eq_nil_iff.mpr fun r hr hactive => ?_
    have hfrom := (ValidatorRecord.isActiveAt_iff.mp hactive).2.1
    rw [hfresh r hr] at hfrom
    exact UInt64.not_lt.mpr hfrom hpast
  have hactive : (set'.activeAt past).Perm
      ((set.records.map (·.changed kinds)).filter (·.isActiveAt past)) := by
    have h := hperm.filter (·.isActiveAt past)
    rw [List.filter_append, hlater, List.append_nil] at h
    exact h
  have hsorted : ∀ records : List ValidatorRecord,
      records.Pairwise (fun a b => compare a.agentId b.agentId = .lt) →
      ((records.filter (·.isActiveAt past)).map fun r =>
        (r.agentId, r.validatorId, r.votingPower)).Pairwise fun a b => compare a.1 b.1 = .lt :=
    fun records hrecords => List.pairwise_map.mpr (hrecords.filter _)
  refine (hactive.map _).eq_of_pairwise (fun a b _ _ hab hba => ?_)
    (hsorted _ (canonical_applyKinds hset h).sorted) (hsorted _ ?_)
  · have hlt : compare a.1 a.1 = .lt := Std.TransCmp.lt_trans hab hba
    have hself : compare a.1 a.1 = .eq := Std.ReflCmp.compare_self
    rw [hself] at hlt
    cases hlt
  · refine List.pairwise_map.mpr (hset.sorted.imp fun {a b} hlt => ?_)
    rw [ValidatorRecord.changed_eq hkinds, ValidatorRecord.changed_eq hkinds]
    exact hlt

/-- Those who stay active stay members, under what the changes leave them. -/
theorem membersAt_applyKinds_of_active {height past : UInt64} {set set' : ValidatorSet}
    (hset : set.Canonical) {kinds : List ValidatorSetChangeKind}
    (hkinds : ∀ kind ∈ kinds, kind.effectiveHeight = height)
    (h : applyKinds set kinds = .ok set') (hpast : past < height)
    (hactive : ∀ r ∈ set.records,
      ((r.changed kinds).isActiveAt past = true ↔ r.isActiveAt past = true)) :
    set'.membersAt past = (set.activeAt past).map fun r =>
      (r.agentId, r.keyAfter kinds, r.powerAfter kinds) := by
  have hfilter : set.records.filter (fun r => (r.changed kinds).isActiveAt past)
      = set.activeAt past :=
    List.filter_congr fun r hr => Bool.eq_iff_iff.mpr (hactive r hr)
  rw [membersAt_applyKinds hset hkinds h hpast, List.filter_map, List.map_map]
  unfold Function.comp
  rw [hfilter]
  refine List.map_congr_left fun r _ => ?_
  show ((r.changed kinds).agentId, (r.changed kinds).validatorId, (r.changed kinds).votingPower) = _
  rw [ValidatorRecord.changed_eq hkinds]

/-- The members at past heights are as they were exactly when each record is left
undisturbed. -/
theorem membersAt_eq_iff {height : UInt64} {set set' : ValidatorSet} (hset : set.Canonical)
    {kinds : List ValidatorSetChangeKind} (hkinds : ∀ kind ∈ kinds, kind.effectiveHeight = height)
    (h : applyKinds set kinds = .ok set') :
    (∀ past < height, set'.membersAt past = set.membersAt past)
      ↔ ∀ r ∈ set.records, r.Undisturbed height kinds := by
  have hset' := canonical_applyKinds hset h
  obtain ⟨fresh, -, hperm⟩ := changed_perm hset hkinds h
  have hagent : ∀ r : ValidatorRecord, (r.changed kinds).agentId = r.agentId := fun r => by
    rw [ValidatorRecord.changed_eq hkinds]
  have hchanged : ∀ r ∈ set.records, r.changed kinds ∈ set'.records := fun r hr =>
    hperm.mem_iff.mpr (List.mem_append_left _ (List.mem_map_of_mem hr))
  constructor
  · intro hsame r hr
    refine (ValidatorRecord.undisturbed_iff hkinds r).mpr fun past hpast => ?_
    have hmembers := hsame past hpast
    refine ⟨⟨fun hactive => ?_, fun hactive => ?_⟩, fun hactive => ?_⟩
    · have hmem : _ ∈ set'.membersAt past := mem_membersAt.mpr ⟨_, hchanged r hr, hactive, rfl⟩
      rw [hmembers] at hmem
      obtain ⟨q, hq, hqactive, heq⟩ := mem_membersAt.mp hmem
      have hid : r.agentId = q.agentId := (hagent r).symm.trans (Prod.mk.inj heq).1
      exact hset.eq_of_agentId hr hq hid ▸ hqactive
    all_goals
      have hmem : _ ∈ set.membersAt past := mem_membersAt.mpr ⟨r, hr, hactive, rfl⟩
      rw [← hmembers] at hmem
      obtain ⟨q, hq, hqactive, heq⟩ := mem_membersAt.mp hmem
      have hid : (r.changed kinds).agentId = q.agentId := (hagent r).trans (Prod.mk.inj heq).1
      obtain rfl := hset'.eq_of_agentId (hchanged r hr) hq hid
    · exact hqactive
    · obtain ⟨-, hkey, hpower⟩ : r.agentId = (r.changed kinds).agentId
          ∧ r.validatorId = (r.changed kinds).validatorId
          ∧ r.votingPower = (r.changed kinds).votingPower := by
        simpa using heq
      exact ⟨hpower.symm, hkey.symm⟩
  · intro hundisturbed past hpast
    rw [membersAt_applyKinds_of_active hset hkinds h hpast fun r hr =>
      ((ValidatorRecord.undisturbed_iff hkinds r).mp (hundisturbed r hr) past hpast).1]
    refine List.map_congr_left fun r hr => ?_
    obtain ⟨hr, hactive⟩ := List.mem_filter.mp hr
    obtain ⟨hpower, hkey⟩ :=
      ((ValidatorRecord.undisturbed_iff hkinds r).mp (hundisturbed r hr) past hpast).2 hactive
    rw [ValidatorRecord.changed_eq hkinds] at hpower hkey
    rw [← hpower, ← hkey]

end ValidatorSet

/-! ## Powers -/

/-- No change that succeeds gives a power of zero. -/
theorem newPower_ne_zero {set set' : ValidatorSet} {kinds : List ValidatorSetChangeKind}
    (h : applyKinds set kinds = .ok set') {agentId : AgentId} {power : UInt64}
    (hpower : power ∈ kinds.filterMap (·.newPower? agentId)) : power ≠ 0 := by
  induction kinds generalizing set with
  | nil => cases hpower
  | cons kind rest ih =>
      simp only [applyKinds, List.foldlM_cons, bind_eq_ok_iff] at h
      obtain ⟨next, hnext, hrest⟩ := h
      obtain ⟨source, hsource, hgiven⟩ := List.mem_filterMap.mp hpower
      rcases List.mem_cons.mp hsource with rfl | hsource
      · cases source with
        | rotatePower id newVotingPower effectiveHeight =>
            obtain ⟨records, hrecords, -⟩ := applyKindToSet_eq_ok_iff.mp hnext
            rw [changeRecords] at hrecords
            split at hrecords
            · cases hrecords
            · rename_i hsome
              rw [ValidatorSetChangeKind.newPower?] at hgiven
              split at hgiven
              · exact Option.some_inj.mp hgiven ▸ hsome
              · cases hgiven
        | _ => cases hgiven
      · exact ih hrest (List.mem_filterMap.mpr ⟨source, hsource, hgiven⟩)

theorem ValidatorRecord.powerAfter_ne_zero {set set' : ValidatorSet}
    {kinds : List ValidatorSetChangeKind} (h : applyKinds set kinds = .ok set')
    {r : ValidatorRecord} (hpower : r.votingPower ≠ 0) : r.powerAfter kinds ≠ 0 := by
  have hlast : r.powerAfter kinds
      ∈ r.votingPower :: kinds.filterMap (·.newPower? r.agentId) := List.getLastD_mem_cons
  rcases List.mem_cons.mp hlast with hlast | hlast
  · exact hlast ▸ hpower
  · exact newPower_ne_zero h hlast

/-! ## Sweeps -/

/-- The kinds of the changes that are due. -/
def dueKinds (pending : List ValidatorSetChange) (height : UInt64) : List ValidatorSetChangeKind :=
  (pending.filter fun c => c.kind.effectiveHeight = height).map (·.kind)

theorem effectiveHeight_of_mem_dueKinds {pending : List ValidatorSetChange} {height : UInt64} :
    ∀ kind ∈ dueKinds pending height, kind.effectiveHeight = height := by
  intro kind hkind
  obtain ⟨change, hchange, rfl⟩ := List.mem_map.mp hkind
  exact of_decide_eq_true (List.mem_filter.mp hchange).2

/-- The committed set has the members and the quorum of the other one at every height
before. -/
def PastKept (state : ManagedWorldState) (set : ValidatorSet) (height : UInt64) : Prop :=
  ∃ set', validatorSetFromTrie state = .ok (some set') ∧ ∀ past < height,
    set'.membersAt past = set.membersAt past ∧ set'.quorumPowerAt past = set.quorumPowerAt past

theorem pastKept_iff {state : ManagedWorldState} {set set' : ValidatorSet} {height : UInt64}
    (h : validatorSetFromTrie state = .ok (some set')) :
    PastKept state set height ↔ ∀ past < height, set'.membersAt past = set.membersAt past := by
  constructor
  · rintro ⟨found, hfound, hsame⟩
    rw [h] at hfound
    obtain rfl := Option.some_inj.mp (Except.ok.inj hfound)
    exact fun past hpast => (hsame past hpast).1
  · exact fun hsame => ⟨set', h, fun past hpast =>
      ⟨hsame past hpast, ValidatorSet.quorumPowerAt_congr (hsame past hpast)⟩⟩

/-- After a sweep the set that comes of it is read, or the one before where it is too
large to be written. -/
theorem validatorSetFromTrie_advance {state state' : ManagedWorldState} {set : ValidatorSet}
    {pending changes : List ValidatorSetChange} {height : UInt64}
    (hset : validatorSetFromTrie state = .ok (some set))
    (hpending : pendingChangesFromTrie state = .ok pending)
    (h : advanceValidatorSetToHeight state height = (.ok changes, state')) :
    ∃ changed, applyKinds set (dueKinds pending height) = .ok changed
      ∧ validatorSetFromTrie state' = .ok (some
        (if state.admits ⟨validatorSetTrieKey, ValidatorSet.codec.enc changed⟩ then changed
          else set)) := by
  unfold advanceValidatorSetToHeight at h
  rw [hpending] at h
  rcases hqueue : pending with _ | ⟨first, rest⟩
  · rw [hqueue] at h
    obtain ⟨-, rfl⟩ := Prod.mk.inj h
    exact ⟨set, rfl, by rw [ite_self, hset]⟩
  · rw [hqueue] at h
    dsimp only at h
    rw [hset, ← hqueue] at h
    dsimp only at h
    rw [List.partition_eq_filter_filter] at h
    rw [← hqueue]
    dsimp only at h
    split at h
    · cases h
    · rename_i changed hchanged
      obtain ⟨-, rfl⟩ := Prod.mk.inj h
      refine ⟨changed, hchanged, ?_⟩
      have hread : ∀ toKeep, validatorSetFromTrie (commitPendingChanges
          (commitValidatorSet state changed) toKeep)
            = validatorSetFromTrie (commitValidatorSet state changed) := by
        intro toKeep
        unfold validatorSetFromTrie commitPendingChanges
        rw [get_commitChanges_of_ne pendingKey_ne_setKey]
      rw [hread]
      split
      · rename_i hadmits
        obtain ⟨hkey, hsize⟩ := le_of_admits hadmits
        exact validatorSetFromTrie_commitValidatorSet hkey hsize
      · rename_i hadmits
        rw [← hset]
        unfold validatorSetFromTrie commitValidatorSet
        rw [get_applyDelta_of_not_admits (Bool.eq_false_of_not_eq_true hadmits)]

/-- A sweep keeps the past exactly when it leaves every record undisturbed, or when the
set that comes of it is too large to be written. -/
theorem advance_pastKept_iff {state state' : ManagedWorldState} {set : ValidatorSet}
    {pending changes : List ValidatorSetChange} {height : UInt64}
    (hset : validatorSetFromTrie state = .ok (some set)) (hcanonical : set.Canonical)
    (hpending : pendingChangesFromTrie state = .ok pending)
    (h : advanceValidatorSetToHeight state height = (.ok changes, state')) :
    PastKept state' set height ↔
      (∀ r ∈ set.records, r.Undisturbed height (dueKinds pending height))
        ∨ ∀ set', applyKinds set (dueKinds pending height) = .ok set' →
          state.admits ⟨validatorSetTrieKey, ValidatorSet.codec.enc set'⟩ = false := by
  obtain ⟨changed, hchanged, hread⟩ := validatorSetFromTrie_advance hset hpending h
  have hiff := ValidatorSet.membersAt_eq_iff hcanonical effectiveHeight_of_mem_dueKinds hchanged
  rw [pastKept_iff hread]
  split
  · rename_i hadmits
    rw [hiff]
    refine ⟨Or.inl, fun h => h.resolve_right fun hnot => ?_⟩
    rw [hnot changed hchanged] at hadmits
    cases hadmits
  · rename_i hadmits
    refine ⟨fun _ => Or.inr fun set' hset' => ?_, fun _ _ _ => rfl⟩
    obtain rfl := Except.ok.inj (hchanged.symm.trans hset')
    exact Bool.eq_false_of_not_eq_true hadmits

/-- A sweep that gives no record a past leaves the past heights their members, each with
the last power and key that it gives them, unless the set is too large to be written.
Where it gives none to those with a past, all is as before. -/
theorem members_of_advance {state state' : ManagedWorldState} {set : ValidatorSet}
    {pending changes : List ValidatorSetChange} {height : UInt64}
    (hset : validatorSetFromTrie state = .ok (some set)) (hcanonical : set.Canonical)
    (hpending : pendingChangesFromTrie state = .ok pending)
    (h : advanceValidatorSetToHeight state height = (.ok changes, state'))
    (hgone : ∀ r ∈ set.records, r.StaysGone height (dueKinds pending height)) :
    (∃ set', validatorSetFromTrie state' = .ok (some set') ∧
      ((set' = set ∧ ∃ changed, applyKinds set (dueKinds pending height) = .ok changed
          ∧ state.admits ⟨validatorSetTrieKey, ValidatorSet.codec.enc changed⟩ = false)
        ∨ ∀ past < height, set'.membersAt past = (set.activeAt past).map fun r =>
          (r.agentId, r.keyAfter (dueKinds pending height),
            r.powerAfter (dueKinds pending height))))
      ∧ ((∀ r ∈ set.records, r.HasPast height →
          r.powerAfter (dueKinds pending height) = r.votingPower
            ∧ r.keyAfter (dueKinds pending height) = r.validatorId) →
        PastKept state' set height) := by
  refine ⟨?_, fun hkept => ?_⟩
  · obtain ⟨changed, hchanged, hread⟩ := validatorSetFromTrie_advance hset hpending h
    refine ⟨_, hread, ?_⟩
    split
    · refine Or.inr fun past hpast => ?_
      refine ValidatorSet.membersAt_applyKinds_of_active hcanonical
        effectiveHeight_of_mem_dueKinds hchanged hpast fun r hr => ?_
      exact (hgone r hr).isActiveAt_changed effectiveHeight_of_mem_dueKinds hpast fun hactive =>
        ValidatorRecord.powerAfter_ne_zero hchanged (ValidatorRecord.isActiveAt_iff.mp hactive).1
    · rename_i hadmits
      exact Or.inl ⟨rfl, changed, hchanged, Bool.eq_false_of_not_eq_true hadmits⟩
  · exact (advance_pastKept_iff hset hcanonical hpending h).mpr
      (Or.inl fun r hr => ⟨hgone r hr, hkept r hr⟩)

/-! ## A power that reaches back -/

/-- The lone validator with changes for height three in the queue. -/
def queuedState (changes : List ValidatorSetChange) : ManagedWorldState :=
  commitPendingChanges (seededState 1000) changes

/-- The validator had ten since height zero, and has seven for that time afterwards. -/
theorem power_reaches_back :
    validatorSetFromTrie (queuedState [powerChange 7 3]) = .ok (some loneSet)
      ∧ ∃ changes state', advanceValidatorSetToHeight (queuedState [powerChange 7 3]) 3
        = (.ok changes, state') ∧ ¬ PastKept state' loneSet 3 := by
  have hchanges : (advanceValidatorSetToHeight (queuedState [powerChange 7 3]) 3).1
      = .ok [powerChange 7 3] := by decide +kernel
  refine ⟨by decide +kernel, [powerChange 7 3],
    (advanceValidatorSetToHeight (queuedState [powerChange 7 3]) 3).2, ?_, ?_⟩
  · rw [← hchanges]
  have hread : validatorSetFromTrie (advanceValidatorSetToHeight (queuedState [powerChange 7 3]) 3).2
      = .ok (some ⟨[{ loneValidator with votingPower := 7 }]⟩) := by decide +kernel
  rw [pastKept_iff hread]
  exact fun h => absurd (h 0 (by decide)) (by decide +kernel)

/-- The same power again changes nothing. -/
theorem same_power_keeps_past :
    PastKept (advanceValidatorSetToHeight (queuedState [powerChange 10 3]) 3).2 loneSet 3 := by
  have hchanges : (advanceValidatorSetToHeight (queuedState [powerChange 10 3]) 3).1
      = .ok [powerChange 10 3] := by decide +kernel
  have hsweep : advanceValidatorSetToHeight (queuedState [powerChange 10 3]) 3
      = (.ok [powerChange 10 3], (advanceValidatorSetToHeight (queuedState [powerChange 10 3]) 3).2) := by
    rw [← hchanges]
  have hsame : loneValidator.changed (dueKinds [powerChange 10 3] 3) = loneValidator := by
    decide +kernel
  have hlone : loneValidator.Undisturbed 3 (dueKinds [powerChange 10 3] 3) := by
    refine (ValidatorRecord.undisturbed_iff effectiveHeight_of_mem_dueKinds _).mpr fun _ _ => ?_
    rw [hsame]
    exact ⟨Iff.rfl, fun _ => ⟨rfl, rfl⟩⟩
  have hall : ∀ r ∈ loneSet.records, r.Undisturbed 3 (dueKinds [powerChange 10 3] 3) := by
    intro r hr
    obtain rfl := List.mem_singleton.mp hr
    exact hlone
  exact (members_of_advance (by decide +kernel) canonical_loneSet
    (show pendingChangesFromTrie (queuedState [powerChange 10 3]) = .ok [powerChange 10 3] by
      decide +kernel) hsweep fun r hr => (hall r hr).toStaysGone).2 fun r hr => (hall r hr).kept

end Sccgub
