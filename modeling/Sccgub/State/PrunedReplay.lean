import Mathlib
import Sccgub.State.Pruning

/-!
# Replaying a pruned history

A replay brings in the records of the additions and leaves each after the changes
to it: the last power, the last removal, the last key.  Whether a change goes
through depends on which agents there are and on the keys they hold.

A part of a history with all its additions has the agents of the whole at every
point, so the keys decide whether it replays, and the last values what it yields.
-/

namespace Sccgub

open Fallible FixedWidth

/-! ## Records after any changes -/

/-- The end that a change gives to an agent. -/
def ValidatorSetChangeKind.newEnd? (agentId : AgentId) :
    ValidatorSetChangeKind → Option (Option UInt64)
  | remove id _ effectiveHeight =>
      if id = agentId then some (some (saturatingSub effectiveHeight 1)) else none
  | _ => none

namespace ValidatorRecord

/-- The last end that the changes give, or the one before. -/
def endAfter (self : ValidatorRecord) (kinds : List ValidatorSetChangeKind) : Option UInt64 :=
  (kinds.filterMap (·.newEnd? self.agentId)).getLastD self.activeUntil

theorem activeUntil_changedBy (r : ValidatorRecord) (kind : ValidatorSetChangeKind) :
    (r.changedBy kind).activeUntil = (kind.newEnd? r.agentId).getD r.activeUntil := by
  cases kind with
  | remove agentId reason effectiveHeight =>
      by_cases hid : r.agentId = agentId
      · rw [changedBy, if_pos hid, ValidatorSetChangeKind.newEnd?, if_pos hid.symm]
        rfl
      · rw [changedBy, if_neg hid, ValidatorSetChangeKind.newEnd?, if_neg (Ne.symm hid)]
        rfl
  | add record => rfl
  | rotatePower agentId newVotingPower effectiveHeight =>
      rw [changedBy]
      split_ifs <;> rfl
  | rotateKey agentId oldValidatorId newValidatorId effectiveHeight =>
      rw [changedBy]
      split_ifs <;> rfl

/-- The last power, the last key and the last end. -/
theorem changed_fields (kinds : List ValidatorSetChangeKind) (r : ValidatorRecord) :
    r.changed kinds = { r with
      votingPower := r.powerAfter kinds
      validatorId := r.keyAfter kinds
      activeUntil := r.endAfter kinds } := by
  induction kinds generalizing r with
  | nil => rfl
  | cons kind rest ih =>
      have hpower : r.powerAfter (kind :: rest) = (r.changedBy kind).powerAfter rest := by
        rw [powerAfter, powerAfter, getLastD_filterMap_cons, changedBy_eq]
      have hkey : r.keyAfter (kind :: rest) = (r.changedBy kind).keyAfter rest := by
        rw [keyAfter, keyAfter, getLastD_filterMap_cons, changedBy_eq]
      have hend : r.endAfter (kind :: rest) = (r.changedBy kind).endAfter rest := by
        rw [endAfter, endAfter, getLastD_filterMap_cons, agentId_changedBy, activeUntil_changedBy]
      calc r.changed (kind :: rest)
          = (r.changedBy kind).changed rest := rfl
        _ = _ := ih _
        _ = _ := by
          rw [hpower, hkey, hend, changedBy_eq]

theorem agentId_changed (kinds : List ValidatorSetChangeKind) (r : ValidatorRecord) :
    (r.changed kinds).agentId = r.agentId := by
  rw [changed_fields]

theorem changed_concat (kinds : List ValidatorSetChangeKind) (kind : ValidatorSetChangeKind)
    (r : ValidatorRecord) : r.changed (kinds ++ [kind]) = (r.changed kinds).changedBy kind := by
  rw [changed, List.foldl_append]
  rfl

theorem changedBy_of_ne {r : ValidatorRecord} {kind : ValidatorSetChangeKind}
    (h : kind.targetAgentId ≠ r.agentId) : r.changedBy kind = r := by
  cases kind with
  | add record => rfl
  | remove agentId reason effectiveHeight => exact if_neg (Ne.symm h)
  | rotatePower agentId newVotingPower effectiveHeight => exact if_neg (Ne.symm h)
  | rotateKey agentId oldValidatorId newValidatorId effectiveHeight => exact if_neg (Ne.symm h)

/-- Changes to others leave it as it is. -/
theorem changed_of_ne {kinds : List ValidatorSetChangeKind} {r : ValidatorRecord}
    (h : ∀ kind ∈ kinds, kind.targetAgentId ≠ r.agentId) : r.changed kinds = r := by
  induction kinds with
  | nil => rfl
  | cons kind rest ih =>
      rw [List.forall_mem_cons] at h
      calc r.changed (kind :: rest) = (r.changedBy kind).changed rest := rfl
        _ = r.changed rest := by rw [changedBy_of_ne h.1]
        _ = r := ih h.2

/-- Two histories leave the same of a record if their last values agree. -/
theorem changed_eq_changed_iff (kinds kinds' : List ValidatorSetChangeKind) (r : ValidatorRecord) :
    r.changed kinds = r.changed kinds' ↔ r.powerAfter kinds = r.powerAfter kinds'
      ∧ r.endAfter kinds = r.endAfter kinds' ∧ r.keyAfter kinds = r.keyAfter kinds' := by
  rw [changed_fields, changed_fields, ValidatorRecord.mk.injEq]
  exact ⟨fun h => ⟨h.2.2.2.1, h.2.2.2.2.2, h.2.1⟩,
    fun h => ⟨rfl, h.2.2, rfl, h.1, rfl, h.2.1⟩⟩

end ValidatorRecord

/-! ## What a replay leaves -/

variable {start set : ValidatorSet} {kinds : List ValidatorSetChangeKind}

/-- The records that a replay begins with or brings in. -/
def founders (start : ValidatorSet) (kinds : List ValidatorSetChangeKind) : List ValidatorRecord :=
  start.records ++ kinds.flatMap (·.added)

theorem founders_concat (start : ValidatorSet) (kinds : List ValidatorSetChangeKind)
    (kind : ValidatorSetChangeKind) :
    founders start (kinds ++ [kind]) = founders start kinds ++ kind.added := by
  rw [founders, founders, List.flatMap_append, List.flatMap_singleton, List.append_assoc]

theorem applyKinds_append_iff (kinds kinds' : List ValidatorSetChangeKind) :
    applyKinds start (kinds ++ kinds') = .ok set
      ↔ ∃ before, applyKinds start kinds = .ok before ∧ applyKinds before kinds' = .ok set := by
  rw [applyKinds, List.foldlM_append]
  exact bind_eq_ok_iff

theorem applyKinds_concat_iff (kinds : List ValidatorSetChangeKind) (kind : ValidatorSetChangeKind) :
    applyKinds start (kinds ++ [kind]) = .ok set
      ↔ ∃ before, applyKinds start kinds = .ok before ∧ applyKindToSet before kind = .ok set := by
  rw [applyKinds_append_iff]
  simp [applyKinds]

/-- Every founder after the changes, and whoever they are about. -/
structure Derives (start : ValidatorSet) (kinds : List ValidatorSetChangeKind)
    (set : ValidatorSet) : Prop where
  records : set.records.Perm ((founders start kinds).map (·.changed kinds))
  present : ∀ kind ∈ kinds, kind.targetAgentId ∈ set.records.map ValidatorRecord.agentId

theorem Derives.agents (h : Derives start kinds set) :
    (set.records.map ValidatorRecord.agentId).Perm
      ((founders start kinds).map ValidatorRecord.agentId) := by
  refine (h.records.map _).trans ?_
  rw [List.map_map]
  refine List.Perm.of_eq (List.map_congr_left fun r _ => ?_)
  exact r.agentId_changed kinds

theorem Derives.concat {before : ValidatorSet} (hbefore : before.Canonical)
    (h : Derives start kinds before) {kind : ValidatorSetChangeKind}
    (hkind : applyKindToSet before kind = .ok set) : Derives start (kinds ++ [kind]) set where
  records := by
    have hfresh : kind.added.map (·.changed (kinds ++ [kind])) = kind.added := by
      cases kind with
      | add record =>
          have happlies := (applies_iff hbefore _).mp ⟨set, hkind⟩
          have hnew : ∀ kind ∈ kinds, kind.targetAgentId ≠ record.agentId := by
            intro kind hkind heq
            obtain ⟨r, hr, hagent⟩ := List.mem_map.mp (h.present kind hkind)
            exact (happlies r hr).1 (hagent.trans heq)
          show [record.changed (kinds ++ [.add record])] = [record]
          rw [ValidatorRecord.changed_concat, ValidatorRecord.changed_of_ne hnew]
          rfl
      | _ => rfl
    refine (applyKindToSet_perm hbefore hkind).trans ?_
    rw [founders_concat, List.map_append, hfresh]
    refine List.Perm.append_right _ ((h.records.map _).trans ?_)
    rw [List.map_map]
    refine List.Perm.of_eq (List.map_congr_left fun r _ => ?_)
    exact (r.changed_concat kinds kind).symm
  present := by
    have hagents : ∀ id, id ∈ set.records.map ValidatorRecord.agentId
        ↔ id ∈ before.records.map ValidatorRecord.agentId
          ∨ id ∈ kind.added.map ValidatorRecord.agentId := by
      intro id
      rw [((applyKindToSet_perm hbefore hkind).map ValidatorRecord.agentId).mem_iff,
        List.map_append, List.mem_append, List.map_map]
      have hsame : ValidatorRecord.agentId ∘ (·.changedBy kind) = ValidatorRecord.agentId := by
        funext r
        exact r.agentId_changedBy kind
      rw [hsame]
    intro other hother
    rw [hagents]
    rcases List.mem_append.mp hother with hother | hother
    · exact Or.inl (h.present other hother)
    · obtain rfl := List.mem_singleton.mp hother
      have happlies := (applies_iff hbefore _).mp ⟨set, hkind⟩
      cases other with
      | add record => exact Or.inr List.mem_cons_self
      | remove agentId reason effectiveHeight =>
          obtain ⟨r, hr, hagent⟩ := happlies
          exact Or.inl (List.mem_map.mpr ⟨r, hr, hagent⟩)
      | rotatePower agentId newVotingPower effectiveHeight =>
          obtain ⟨-, r, hr, hagent⟩ := happlies
          exact Or.inl (List.mem_map.mpr ⟨r, hr, hagent⟩)
      | rotateKey agentId oldValidatorId newValidatorId effectiveHeight =>
          obtain ⟨-, -, r, hr, hagent, -⟩ := happlies
          exact Or.inl (List.mem_map.mpr ⟨r, hr, hagent⟩)

theorem derives_of_applyKinds (hstart : start.Canonical) (h : applyKinds start kinds = .ok set) :
    Derives start kinds set := by
  induction kinds using List.reverseRecOn generalizing set with
  | nil =>
      obtain rfl := Except.ok.inj h
      refine ⟨?_, fun kind hkind => absurd hkind List.not_mem_nil⟩
      show start.records.Perm ((start.records ++ []).map id)
      rw [List.map_id, List.append_nil]
  | append_singleton kinds kind ih =>
      obtain ⟨before, hbefore, hkind⟩ := (applyKinds_concat_iff kinds kind).mp h
      exact (ih hbefore).concat (canonical_applyKinds hstart hbefore) hkind

/-! ## What a change asks for, of agents and of keys -/

/-- What the variant asks for but the keys. -/
def AgentsFit (agents : List AgentId) : ValidatorSetChangeKind → Prop
  | .add newRecord => newRecord.agentId ∉ agents
  | .remove agentId _ _ => agentId ∈ agents
  | .rotatePower agentId newVotingPower _ => newVotingPower ≠ 0 ∧ agentId ∈ agents
  | .rotateKey agentId oldValidatorId newValidatorId _ =>
      oldValidatorId ≠ newValidatorId ∧ agentId ∈ agents

/-- A new key that nobody else holds, an old one that the agent does. -/
def KeyFits (held : List (AgentId × Ed25519PublicKey)) : ValidatorSetChangeKind → Prop
  | .add newRecord => ∀ holder ∈ held, holder.2 ≠ newRecord.validatorId
  | .rotateKey agentId oldValidatorId newValidatorId _ => ∀ holder ∈ held,
      (holder.2 = newValidatorId → holder.1 = agentId)
        ∧ (holder.1 = agentId → holder.2 = oldValidatorId)
  | _ => True

theorem agentsFit_perm {agents agents' : List AgentId} (h : agents.Perm agents')
    (kind : ValidatorSetChangeKind) : AgentsFit agents kind ↔ AgentsFit agents' kind := by
  cases kind <;> simp only [AgentsFit, h.mem_iff]

theorem keyFits_perm {held held' : List (AgentId × Ed25519PublicKey)} (h : held.Perm held')
    (kind : ValidatorSetChangeKind) : KeyFits held kind ↔ KeyFits held' kind := by
  cases kind <;> simp only [KeyFits, h.mem_iff]

def ValidatorSet.held (self : ValidatorSet) : List (AgentId × Ed25519PublicKey) :=
  self.records.map fun r => (r.agentId, r.validatorId)

theorem applies_iff_fits (hset : set.Canonical) (kind : ValidatorSetChangeKind) :
    Applies set kind
      ↔ AgentsFit (set.records.map ValidatorRecord.agentId) kind ∧ KeyFits set.held kind := by
  cases kind with
  | add newRecord =>
      simp only [Applies, AgentsFit, KeyFits, ValidatorSet.held, List.mem_map, forall_exists_index,
        and_imp, forall_apply_eq_imp_iff₂, not_exists, not_and, ← forall_and]
  | remove agentId reason effectiveHeight =>
      simp only [Applies, AgentsFit, KeyFits, List.mem_map, and_true]
  | rotatePower agentId newVotingPower effectiveHeight =>
      simp only [Applies, AgentsFit, KeyFits, List.mem_map, and_true]
  | rotateKey agentId oldValidatorId newValidatorId effectiveHeight =>
      simp only [Applies, AgentsFit, KeyFits, ValidatorSet.held, List.mem_map, forall_exists_index,
        and_imp, forall_apply_eq_imp_iff₂]
      constructor
      · rintro ⟨hne, hfree, r, hr, hagent, hkey⟩
        refine ⟨⟨hne, r, hr, hagent⟩, fun q hq => ⟨hfree q hq, fun hq' => ?_⟩⟩
        obtain rfl := hset.eq_of_agentId hq hr (hq'.trans hagent.symm)
        exact hkey
      · rintro ⟨⟨hne, r, hr, hagent⟩, hkeys⟩
        exact ⟨hne, fun q hq => (hkeys q hq).1, r, hr, hagent, (hkeys r hr).2 hagent⟩

/-- The agents and the keys they hold after the changes. -/
def heldAfter (start : ValidatorSet) (kinds : List ValidatorSetChangeKind) :
    List (AgentId × Ed25519PublicKey) :=
  (founders start kinds).map fun r => (r.agentId, r.keyAfter kinds)

theorem Derives.held (h : Derives start kinds set) : set.held.Perm (heldAfter start kinds) := by
  refine (h.records.map _).trans ?_
  rw [List.map_map]
  refine List.Perm.of_eq (List.map_congr_left fun r _ => ?_)
  rw [Function.comp_apply, ValidatorRecord.changed_fields]

/-- One more change goes through if the agents and the keys that the changes before it
leave are such as it asks for. -/
theorem exists_concat_iff (hstart : start.Canonical) (h : applyKinds start kinds = .ok set)
    (kind : ValidatorSetChangeKind) :
    (∃ next, applyKinds start (kinds ++ [kind]) = .ok next)
      ↔ AgentsFit ((founders start kinds).map ValidatorRecord.agentId) kind
        ∧ KeyFits (heldAfter start kinds) kind := by
  have hderives := derives_of_applyKinds hstart h
  have hset := canonical_applyKinds hstart h
  rw [← agentsFit_perm hderives.agents, ← keyFits_perm hderives.held, ← applies_iff_fits hset,
    ← applies_iff hset]
  constructor
  · rintro ⟨next, hnext⟩
    obtain ⟨before, hbefore, hkind⟩ := (applyKinds_concat_iff kinds kind).mp hnext
    obtain rfl := Except.ok.inj (hbefore.symm.trans h)
    exact ⟨next, hkind⟩
  · rintro ⟨next, hnext⟩
    exact ⟨next, (applyKinds_concat_iff kinds kind).mpr ⟨set, h, hnext⟩⟩

/-! ## A part of a history -/

def kindsOf (history : List ValidatorSetChange) : List ValidatorSetChangeKind :=
  history.map (·.kind)

variable {history : List ValidatorSetChange} {keep : ValidatorSetChange → Bool}

theorem kindsOf_concat (history : List ValidatorSetChange) (change : ValidatorSetChange) :
    kindsOf (history ++ [change]) = kindsOf history ++ [change.kind] := by
  rw [kindsOf, List.map_append]
  rfl

theorem founders_filter_sublist (start : ValidatorSet) (history : List ValidatorSetChange)
    (keep : ValidatorSetChange → Bool) :
    (founders start (kindsOf (history.filter keep))).Sublist (founders start (kindsOf history)) :=
  ((List.filter_sublist.map _).flatMap _).append_left _

/-- The part has an addition wherever the whole does. -/
theorem founders_filter_iff :
    founders start (kindsOf (history.filter keep)) = founders start (kindsOf history)
      ↔ ∀ change ∈ history, change.kind.added ≠ [] → keep change = true := by
  rw [founders, founders, List.append_cancel_left_eq]
  induction history with
  | nil => simp [kindsOf]
  | cons change rest ih =>
      have hcons : ∀ l, (kindsOf (change :: l)).flatMap (·.added)
          = change.kind.added ++ (kindsOf l).flatMap (·.added) := fun _ => List.flatMap_cons
      have hsublist : ((kindsOf (rest.filter keep)).flatMap (·.added)).Sublist
          ((kindsOf rest).flatMap (·.added)) := (List.filter_sublist.map _).flatMap _
      rw [List.forall_mem_cons, hcons]
      by_cases hkeep : keep change = true
      · rw [List.filter_cons_of_pos hkeep, hcons, List.append_cancel_left_eq, ih]
        exact ⟨fun h => ⟨fun _ => hkeep, h⟩, fun h => h.2⟩
      · rw [List.filter_cons_of_neg hkeep]
        constructor
        · intro h
          have hlength := congrArg List.length h
          rw [List.length_append] at hlength
          have hle := hsublist.length_le
          have hnil : change.kind.added = [] := List.length_eq_zero_iff.mp (by omega)
          refine ⟨fun hne => absurd hnil hne, ih.mp ?_⟩
          rw [h, hnil, List.nil_append]
        · rintro ⟨hchange, hrest⟩
          have hnil : change.kind.added = [] := by
            by_contra hne
            exact hkeep (hchange hne)
          rw [ih.mpr hrest, hnil, List.nil_append]

/-- With its additions a part replays if the keys fit at each of its changes. -/
theorem exists_applyKinds_filter_iff (hstart : start.Canonical)
    (h : applyKinds start (kindsOf history) = .ok set)
    (hadditions : ∀ change ∈ history, change.kind.added ≠ [] → keep change = true) :
    (∃ left, applyKinds start (kindsOf (history.filter keep)) = .ok left)
      ↔ ∀ earlier change later, history.filter keep = earlier ++ change :: later →
        KeyFits (heldAfter start (kindsOf earlier)) change.kind := by
  induction history using List.reverseRecOn generalizing set with
  | nil =>
      refine ⟨fun _ earlier change later hsplit => absurd hsplit (by simp), fun _ => ?_⟩
      exact ⟨start, rfl⟩
  | append_singleton history last ih =>
      rw [kindsOf_concat] at h
      obtain ⟨before, hbefore, -⟩ := (applyKinds_concat_iff _ _).mp h
      have hagents := ((exists_concat_iff hstart hbefore last.kind).mp ⟨set, h⟩).1
      have hrest : ∀ change ∈ history, change.kind.added ≠ [] → keep change = true :=
        fun change hchange => hadditions change (List.mem_append_left _ hchange)
      have hprefix := ih hbefore hrest
      by_cases hkeep : keep last = true
      · have hfilter : (history ++ [last]).filter keep = history.filter keep ++ [last] := by
          rw [List.filter_append, List.filter_cons_of_pos hkeep, List.filter_nil]
        rw [hfilter, kindsOf_concat]
        constructor
        · rintro ⟨left, hleft⟩ earlier change later hsplit
          obtain ⟨shorter, hshorter, -⟩ := (applyKinds_concat_iff _ _).mp hleft
          rcases List.eq_nil_or_concat later with rfl | ⟨later, other, rfl⟩
          · obtain ⟨rfl, hlast⟩ := List.append_inj' hsplit rfl
            obtain rfl := List.singleton_inj.mp hlast
            exact ((exists_concat_iff hstart hshorter _).mp ⟨left, hleft⟩).2
          · refine hprefix.mp ⟨shorter, hshorter⟩ earlier change later ?_
            rw [List.concat_eq_append, ← List.cons_append, ← List.append_assoc] at hsplit
            exact (List.append_inj' hsplit rfl).1
        · intro hkeys
          obtain ⟨shorter, hshorter⟩ := hprefix.mpr fun earlier change later hsplit =>
            hkeys earlier change (later ++ [last]) (by rw [hsplit, List.append_assoc]; rfl)
          refine (exists_concat_iff hstart hshorter _).mpr ⟨?_, hkeys _ _ [] rfl⟩
          rwa [founders_filter_iff.mpr hrest]
      · have hfilter : (history ++ [last]).filter keep = history.filter keep := by
          rw [List.filter_append, List.filter_cons_of_neg hkeep, List.filter_nil, List.append_nil]
        rw [hfilter]
        exact hprefix

/-! ## The same set -/

theorem ValidatorSet.Canonical.eq_of_perm {set set' : ValidatorSet} (hset : set.Canonical)
    (hset' : set'.Canonical) (h : set.records.Perm set'.records) : set = set' := by
  have hrecords : set.records = set'.records := by
    refine h.eq_of_pairwise ?_ hset.sorted hset'.sorted
    intro a b _ _ hab hba
    have hswap : compare b.agentId a.agentId = (compare a.agentId b.agentId).swap :=
      Std.OrientedCmp.eq_swap
    rw [hab, hba] at hswap
    cases hswap
  rcases set with ⟨records⟩
  exact congrArg ValidatorSet.mk hrecords

/-- Two replays with the same founders yield the same set if they leave the same of each. -/
theorem eq_iff_changed {kinds' : List ValidatorSetChangeKind} {set' : ValidatorSet}
    (hset : set.Canonical) (hset' : set'.Canonical) (h : Derives start kinds set)
    (h' : Derives start kinds' set') (hfounders : founders start kinds' = founders start kinds) :
    set' = set ↔ ∀ r ∈ founders start kinds, r.changed kinds' = r.changed kinds := by
  have hrecords' := h'.records
  rw [hfounders] at hrecords'
  constructor
  · rintro rfl r hr
    have hmem : r.changed kinds ∈ set'.records :=
      h.records.mem_iff.mpr (List.mem_map_of_mem hr)
    have hmem' : r.changed kinds' ∈ set'.records :=
      hrecords'.mem_iff.mpr (List.mem_map_of_mem hr)
    refine hset.eq_of_agentId hmem' hmem ?_
    rw [r.agentId_changed, r.agentId_changed]
  · intro hsame
    refine hset'.eq_of_perm hset (hrecords'.trans ?_)
    rw [List.map_congr_left hsame]
    exact h.records.symm

/-! ## Pruned histories -/

/-- No addition is gone, the values that each record is left with are those of the
whole history, and every key that is given up or taken is held by whom it should
be, as far as the part tells. -/
structure Dispensable (start : ValidatorSet) (history part : List ValidatorSetChange) : Prop where
  additions : ∀ change ∈ history, change.kind.added ≠ [] → change ∈ part
  values : ∀ r ∈ founders start (kindsOf history),
    r.powerAfter (kindsOf part) = r.powerAfter (kindsOf history)
      ∧ r.endAfter (kindsOf part) = r.endAfter (kindsOf history)
      ∧ r.keyAfter (kindsOf part) = r.keyAfter (kindsOf history)
  keys : ∀ earlier change later, part = earlier ++ change :: later →
    KeyFits (heldAfter start (kindsOf earlier)) change.kind

theorem mem_filter_iff_keep {change : ValidatorSetChange} (h : change ∈ history) :
    change ∈ history.filter keep ↔ keep change = true := by
  rw [List.mem_filter]
  exact ⟨fun h => h.2, fun hkeep => ⟨h, hkeep⟩⟩

/-- A part of a history replays to the same set exactly if the rest is dispensable. -/
theorem applyKinds_filter_iff (hstart : start.Canonical)
    (h : applyKinds start (kindsOf history) = .ok set) :
    applyKinds start (kindsOf (history.filter keep)) = .ok set
      ↔ Dispensable start history (history.filter keep) := by
  have hderives := derives_of_applyKinds hstart h
  have hset := canonical_applyKinds hstart h
  have hadditions : (∀ change ∈ history, change.kind.added ≠ [] → change ∈ history.filter keep)
      ↔ ∀ change ∈ history, change.kind.added ≠ [] → keep change = true :=
    forall₂_congr fun change hchange => by rw [mem_filter_iff_keep hchange]
  have hvalues : (∀ r ∈ founders start (kindsOf history),
        r.changed (kindsOf (history.filter keep)) = r.changed (kindsOf history))
      ↔ ∀ r ∈ founders start (kindsOf history),
        r.powerAfter (kindsOf (history.filter keep)) = r.powerAfter (kindsOf history)
          ∧ r.endAfter (kindsOf (history.filter keep)) = r.endAfter (kindsOf history)
          ∧ r.keyAfter (kindsOf (history.filter keep)) = r.keyAfter (kindsOf history) :=
    forall₂_congr fun r _ => r.changed_eq_changed_iff _ _
  constructor
  · intro hpart
    have hpartDerives := derives_of_applyKinds hstart hpart
    have hfounders : founders start (kindsOf (history.filter keep))
        = founders start (kindsOf history) := by
      refine (founders_filter_sublist start history keep).eq_of_length ?_
      have hlength := (hpartDerives.agents.symm.trans hderives.agents).length_eq
      rwa [List.length_map, List.length_map] at hlength
    refine ⟨hadditions.mpr (founders_filter_iff.mp hfounders), hvalues.mp ?_, ?_⟩
    · exact (eq_iff_changed hset hset hderives hpartDerives hfounders).mp rfl
    · exact (exists_applyKinds_filter_iff hstart h (founders_filter_iff.mp hfounders)).mp
        ⟨set, hpart⟩
  · intro hpart
    have hkept := hadditions.mp hpart.additions
    obtain ⟨left, hleft⟩ := (exists_applyKinds_filter_iff hstart h hkept).mpr hpart.keys
    have hleftDerives := derives_of_applyKinds hstart hleft
    obtain rfl := (eq_iff_changed hset (canonical_applyKinds hstart hleft) hderives hleftDerives
      (founders_filter_iff.mpr hkept)).mpr (hvalues.mpr hpart.values)
    exact hleft

/-- Pruning keeps the last entry of every agent.  What it leaves replays to the same
set exactly if all the rest is dispensable. -/
theorem pruned_replays_iff (hstart : start.Canonical)
    (hids : (history.map ValidatorSetChange.changeId).Nodup)
    (h : applyKinds start (kindsOf history) = .ok set) (tipHeight pruningDepth : UInt64) :
    (∀ earlier change later, history = earlier ++ change :: later →
      (∀ c ∈ later, c.agent ≠ change.agent) →
        change ∈ withoutPruned history
          (identifyPrunableAdmissionHistory history tipHeight pruningDepth))
      ∧ (applyKinds start (kindsOf (withoutPruned history
          (identifyPrunableAdmissionHistory history tipHeight pruningDepth))) = .ok set
        ↔ Dispensable start history (retained tipHeight pruningDepth history)) := by
  have hretained := withoutPruned_eq_retained hids tipHeight pruningDepth
  refine ⟨?_, ?_⟩
  · rintro earlier change later rfl hlast
    rw [hretained]
    exact mem_retained_of_last tipHeight pruningDepth earlier later change hlast
  · rw [← hretained]
    exact applyKinds_filter_iff hstart h

/-- Two powers, one after the other. -/
def twoRotations : List ValidatorSetChange := [powerChange 7 3, powerChange 9 6]

theorem twoRotations_replays :
    applyKinds loneSet (kindsOf (withoutPruned twoRotations
        (identifyPrunableAdmissionHistory twoRotations 100 32)))
      = .ok ⟨[{ loneValidator with votingPower := 9 }]⟩ := by
  have hretained : retained 100 32 twoRotations = [powerChange 9 6] := by decide +kernel
  refine (pruned_replays_iff canonical_loneSet (by decide +kernel) (by decide +kernel) 100 32).2.mpr
    ⟨?_, ?_, ?_⟩
  · decide +kernel
  · decide +kernel
  · rw [hretained]
    intro earlier change later hsplit
    have hmem : change ∈ [powerChange 9 6] := by
      rw [hsplit]
      exact List.mem_append_right _ List.mem_cons_self
    obtain rfl := List.mem_singleton.mp hmem
    exact trivial

def changeOf (kind : ValidatorSetChangeKind) (proposedAt : UInt64) : ValidatorSetChange where
  changeId := @ValidatorSetChange.computeChangeId polyCrypto kind proposedAt
  kind
  proposedAt
  quorumSignatures := []

def secondValidator : ValidatorRecord :=
  { loneValidator with agentId := Hash.ofByte 3, validatorId := Hash.ofByte 4, activeFrom := 10 }

/-- Somebody joins and is given another power. -/
def joined : List ValidatorSetChange :=
  [changeOf (.add secondValidator) 1, changeOf (.rotatePower (Hash.ofByte 3) 7 20) 11]

/-- The validator is given another power and then another key. -/
def rotated : List ValidatorSetChange :=
  [changeOf (.rotatePower (Hash.ofByte 1) 7 10) 1,
    changeOf (.rotateKey (Hash.ofByte 1) (Hash.ofByte 2) (Hash.ofByte 5) 20) 11]

/-- Without the entry of the addition the other one fails; without that of the power
the old power is back. -/
theorem pruned_not_replays :
    (joined.map ValidatorSetChange.changeId).Nodup
      ∧ applyKinds loneSet (kindsOf joined)
        = .ok ⟨[loneValidator, { secondValidator with votingPower := 7 }]⟩
      ∧ applyKinds loneSet (kindsOf (withoutPruned joined
          (identifyPrunableAdmissionHistory joined 100 32))) = .error .agentNotPresent
      ∧ (rotated.map ValidatorSetChange.changeId).Nodup
      ∧ applyKinds loneSet (kindsOf rotated)
        = .ok ⟨[{ loneValidator with votingPower := 7, validatorId := Hash.ofByte 5 }]⟩
      ∧ applyKinds loneSet (kindsOf (withoutPruned rotated
          (identifyPrunableAdmissionHistory rotated 100 32)))
        = .ok ⟨[{ loneValidator with validatorId := Hash.ofByte 5 }]⟩ := by
  decide +kernel

end Sccgub
