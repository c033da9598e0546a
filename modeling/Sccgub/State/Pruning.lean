import Mathlib
import Sccgub.State.ValidatorSetPast

/-!
# Pruning the admission history

An entry of the history is prunable if it is old and a newer one is about the same
agent.  Which entry is the newest is read off a map that is filled from the end;
`retained` says the same by what follows each entry.
-/

namespace Sccgub

open FixedWidth

inductive PrunableNamespace where
  | validatorSetChangeHistory
  | keyIndex
  | blockReceipts
  | snapshots
  deriving DecidableEq

structure PrunableEntry where
  prunableNamespace : PrunableNamespace
  key : Hash
  supersededBy : Option Hash
  deriving DecidableEq

def ValidatorSetChange.agent (change : ValidatorSetChange) : AgentId := change.kind.targetAgentId

/-! ## Identification -/

/-- The first entry stays. -/
def noteNewest (newest : Std.ExtTreeMap AgentId (Hash × UInt64)) (change : ValidatorSetChange) :
    Std.ExtTreeMap AgentId (Hash × UInt64) :=
  newest.insertIfNew change.agent (change.changeId, change.proposedAt)

/-- Filled from the end. -/
def newestPerAgent (history : List ValidatorSetChange) : Std.ExtTreeMap AgentId (Hash × UInt64) :=
  history.reverse.foldl noteNewest ∅

def prunableEntryOf (newest : Std.ExtTreeMap AgentId (Hash × UInt64))
    (tipHeight pruningDepth : UInt64) (change : ValidatorSetChange) : Option PrunableEntry :=
  match newest[change.agent]? with
  | none => none
  | some (newestId, _) =>
      if change.changeId = newestId then none
      else if saturatingSub tipHeight change.proposedAt ≥ pruningDepth then
        some ⟨.validatorSetChangeHistory, change.changeId, some newestId⟩
      else none

def identifyPrunableAdmissionHistory (history : List ValidatorSetChange)
    (tipHeight pruningDepth : UInt64) : List PrunableEntry :=
  history.filterMap (prunableEntryOf (newestPerAgent history) tipHeight pruningDepth)

/-- The history without the entries that a list names. -/
def withoutPruned (history : List ValidatorSetChange) (prunable : List PrunableEntry) :
    List ValidatorSetChange :=
  history.filter fun change => prunable.all fun entry => entry.key ≠ change.changeId

/-- The entries that nothing of their agent follows, and the young ones. -/
def retained (tipHeight pruningDepth : UInt64) :
    List ValidatorSetChange → List ValidatorSetChange
  | [] => []
  | change :: later =>
      if (∃ c ∈ later, c.agent = change.agent)
          ∧ saturatingSub tipHeight change.proposedAt ≥ pruningDepth then
        retained tipHeight pruningDepth later
      else change :: retained tipHeight pruningDepth later

/-! ## The newest entry -/

theorem getElem?_foldl_noteNewest (l : List ValidatorSetChange)
    (newest : Std.ExtTreeMap AgentId (Hash × UInt64)) (agent : AgentId) :
    (l.foldl noteNewest newest)[agent]? = newest[agent]?.or
      ((l.find? (·.agent = agent)).map fun c => (c.changeId, c.proposedAt)) := by
  induction l generalizing newest with
  | nil => simp
  | cons change rest ih =>
      rw [List.foldl_cons, ih, noteNewest, Std.ExtTreeMap.getElem?_insertIfNew]
      simp only [Std.LawfulEqCmp.compare_eq_iff_eq]
      by_cases hagent : change.agent = agent
      · subst hagent
        rw [List.find?_cons_of_pos (by simp)]
        by_cases hmem : change.agent ∈ newest
        · obtain ⟨noted, hnoted⟩ := Option.isSome_iff_exists.mp
            (Std.ExtTreeMap.mem_iff_isSome_getElem?.mp hmem)
          rw [if_neg (fun h => h.2 hmem), hnoted]
          rfl
        · have hnone : newest[change.agent]? = none := Std.ExtTreeMap.getElem?_eq_none hmem
          rw [if_pos ⟨rfl, hmem⟩, hnone]
          rfl
      · rw [if_neg (fun h => hagent h.1), List.find?_cons_of_neg (by simpa using hagent)]

/-- For the agent of an entry, one of those that follow it, or itself. -/
theorem newestPerAgent_eq (earlier later : List ValidatorSetChange) (change : ValidatorSetChange) :
    ∃ newest, (newestPerAgent (earlier ++ change :: later))[change.agent]?
        = some (newest.changeId, newest.proposedAt)
      ∧ ((newest ∈ later ∧ newest.agent = change.agent)
        ∨ (newest = change ∧ ∀ c ∈ later, c.agent ≠ change.agent)) := by
  have hreverse : (earlier ++ change :: later).reverse
      = later.reverse ++ change :: earlier.reverse := by
    rw [List.reverse_append, List.reverse_cons, List.append_assoc, List.singleton_append]
  have hself : (change :: earlier.reverse).find? (·.agent = change.agent) = some change :=
    List.find?_cons_of_pos (by simp)
  rw [newestPerAgent, getElem?_foldl_noteNewest, hreverse, List.find?_append, hself,
    Std.ExtTreeMap.getElem?_empty, Option.none_or]
  rcases hfind : later.reverse.find? (·.agent = change.agent) with _ | newest
  · refine ⟨change, by rw [hfind]; rfl, Or.inr ⟨rfl, fun c hc => ?_⟩⟩
    have hnot := List.find?_eq_none.mp hfind c (List.mem_reverse.mpr hc)
    simpa using hnot
  · refine ⟨newest, by rw [hfind]; rfl, Or.inl ⟨?_, ?_⟩⟩
    · exact List.mem_reverse.mp (List.mem_of_find?_eq_some hfind)
    · simpa using List.find?_some hfind

theorem key_prunableEntryOf {newest : Std.ExtTreeMap AgentId (Hash × UInt64)}
    {tipHeight pruningDepth : UInt64} {change : ValidatorSetChange} {entry : PrunableEntry}
    (h : prunableEntryOf newest tipHeight pruningDepth change = some entry) :
    entry.key = change.changeId := by
  unfold prunableEntryOf at h
  split at h
  · cases h
  · split_ifs at h
    obtain rfl := Option.some.inj h
    rfl

/-- With distinct ids, an entry is listed if it is old and one of its agent follows. -/
theorem mem_identify_iff {earlier later : List ValidatorSetChange} {change : ValidatorSetChange}
    (hids : ((earlier ++ change :: later).map ValidatorSetChange.changeId).Nodup)
    (tipHeight pruningDepth : UInt64) :
    change.changeId ∈ (identifyPrunableAdmissionHistory (earlier ++ change :: later) tipHeight
        pruningDepth).map (·.key)
      ↔ (∃ c ∈ later, c.agent = change.agent)
        ∧ saturatingSub tipHeight change.proposedAt ≥ pruningDepth := by
  obtain ⟨newest, hnewest, hcase⟩ := newestPerAgent_eq earlier later change
  have hmem : change ∈ earlier ++ change :: later :=
    List.mem_append_right _ List.mem_cons_self
  have hlisted : change.changeId ∈ (identifyPrunableAdmissionHistory (earlier ++ change :: later)
        tipHeight pruningDepth).map (·.key)
      ↔ ∃ entry, prunableEntryOf (newestPerAgent (earlier ++ change :: later)) tipHeight
        pruningDepth change = some entry := by
    simp only [identifyPrunableAdmissionHistory, List.mem_map, List.mem_filterMap]
    constructor
    · rintro ⟨entry, ⟨c, hc, hentry⟩, hkey⟩
      have hid : c.changeId = change.changeId := (key_prunableEntryOf hentry).symm.trans hkey
      obtain rfl := List.inj_on_of_nodup_map hids hc hmem hid
      exact ⟨entry, hentry⟩
    · rintro ⟨entry, hentry⟩
      exact ⟨entry, ⟨change, hmem, hentry⟩, key_prunableEntryOf hentry⟩
  rw [hlisted, prunableEntryOf, hnewest]
  rcases hcase with ⟨hlater, hagent⟩ | ⟨rfl, hlast⟩
  · have hne : change.changeId ≠ newest.changeId := by
      intro heq
      rw [List.map_append, List.map_cons] at hids
      have hnot := (List.nodup_cons.mp (List.nodup_append.mp hids).2.1).1
      exact hnot (List.mem_map.mpr ⟨newest, hlater, heq.symm⟩)
    simp only [if_neg hne]
    split_ifs with hold
    · exact ⟨fun _ => ⟨⟨newest, hlater, hagent⟩, hold⟩, fun _ => ⟨_, rfl⟩⟩
    · constructor
      · rintro ⟨entry, h⟩
        cases h
      · intro h
        exact absurd h.2 hold
  · simp only [if_true]
    constructor
    · rintro ⟨entry, h⟩
      cases h
    · rintro ⟨⟨c, hc, hagent⟩, -⟩
      exact absurd hagent (hlast c hc)

/-! ## What is left -/

theorem all_key_ne_iff {prunable : List PrunableEntry} {id : Hash} :
    (prunable.all fun entry => entry.key ≠ id) = true ↔ id ∉ prunable.map (·.key) := by
  simp only [List.all_eq_true, decide_eq_true_eq, List.mem_map, not_exists, not_and]

theorem filter_eq_retained {history : List ValidatorSetChange} {tipHeight pruningDepth : UInt64}
    (hids : (history.map ValidatorSetChange.changeId).Nodup)
    (earlier later : List ValidatorSetChange) (h : history = earlier ++ later) :
    withoutPruned later (identifyPrunableAdmissionHistory history tipHeight pruningDepth)
      = retained tipHeight pruningDepth later := by
  induction later generalizing earlier with
  | nil => rfl
  | cons change later ih =>
      have hrest := ih (earlier ++ [change]) (by rw [h, List.append_assoc]; rfl)
      have hlisted := mem_identify_iff (h ▸ hids) tipHeight pruningDepth
      rw [← h] at hlisted
      rw [retained, ← hrest, withoutPruned, withoutPruned]
      by_cases hprunable : (∃ c ∈ later, c.agent = change.agent)
          ∧ saturatingSub tipHeight change.proposedAt ≥ pruningDepth
      · rw [if_pos hprunable, List.filter_cons_of_neg]
        rw [all_key_ne_iff, not_not]
        exact hlisted.mpr hprunable
      · rw [if_neg hprunable, List.filter_cons_of_pos]
        rw [all_key_ne_iff]
        exact fun hmem => hprunable (hlisted.mp hmem)

/-- Removing the entries leaves those that are retained. -/
theorem withoutPruned_eq_retained {history : List ValidatorSetChange}
    (hids : (history.map ValidatorSetChange.changeId).Nodup) (tipHeight pruningDepth : UInt64) :
    withoutPruned history (identifyPrunableAdmissionHistory history tipHeight pruningDepth)
      = retained tipHeight pruningDepth history :=
  filter_eq_retained hids [] history rfl

/-- The last entry of every agent among them. -/
theorem mem_retained_of_last (tipHeight pruningDepth : UInt64)
    (earlier later : List ValidatorSetChange) (change : ValidatorSetChange)
    (hlast : ∀ c ∈ later, c.agent ≠ change.agent) :
    change ∈ retained tipHeight pruningDepth (earlier ++ change :: later) := by
  induction earlier with
  | nil =>
      have hnot : ¬((∃ c ∈ later, c.agent = change.agent)
          ∧ saturatingSub tipHeight change.proposedAt ≥ pruningDepth) := by
        rintro ⟨⟨c, hc, hagent⟩, -⟩
        exact hlast c hc hagent
      rw [List.nil_append, retained, if_neg hnot]
      exact List.mem_cons_self
  | cons first earlier ih =>
      rw [List.cons_append, retained]
      split_ifs
      · exact ih
      · exact List.mem_cons_of_mem _ ih

end Sccgub
