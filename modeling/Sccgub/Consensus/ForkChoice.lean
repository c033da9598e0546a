import Mathlib
import Sccgub.Crypto
import Sccgub.Selection

/-!
# The rule of fork choice

Tips are compared by the number of their finalized ancestors, then by the voting
power behind them, then by their ids.  That is a total order of tips as long as
no two of them share an id, so what the scan over the candidates selects depends
on the set of candidates and not on their order.
-/

namespace Sccgub

/-! ## Scores -/

structure ChainTip where
  blockId : Hash
  height : UInt64
  finalizedDepth : UInt64
  cumulativeVotingPower : UInt64
  deriving DecidableEq

/-- Greater is preferred. -/
def ChainTip.scoreCmp (self other : ChainTip) : Ordering :=
  match compare self.finalizedDepth other.finalizedDepth with
  | .eq =>
      match compare self.cumulativeVotingPower other.cumulativeVotingPower with
      | .eq => compare self.blockId other.blockId
      | ne => ne
  | ne => ne

theorem ChainTip.scoreCmp_eq_compareLex :
    ChainTip.scoreCmp = compareLex (compareOn ChainTip.finalizedDepth)
      (compareLex (compareOn ChainTip.cumulativeVotingPower) (compareOn ChainTip.blockId)) := by
  funext self other
  unfold scoreCmp compareLex compareOn
  cases compare self.finalizedDepth other.finalizedDepth <;>
    cases compare self.cumulativeVotingPower other.cumulativeVotingPower <;> rfl

instance : Std.TransCmp ChainTip.scoreCmp := by
  rw [ChainTip.scoreCmp_eq_compareLex]
  infer_instance

theorem ChainTip.scoreCmp_swap (self other : ChainTip) :
    other.scoreCmp self = (self.scoreCmp other).swap :=
  Std.OrientedCmp.eq_swap

theorem ChainTip.blockId_eq_of_scoreCmp {self other : ChainTip}
    (h : self.scoreCmp other = .eq) : self.blockId = other.blockId := by
  rw [scoreCmp_eq_compareLex, compareLex_eq_eq, compareLex_eq_eq] at h
  exact Std.LawfulEqOrd.eq_of_compare h.2.2

/-! ## The selection -/

inductive ForkChoiceOutcome where
  | selected (index : Nat)
  | empty
  deriving DecidableEq

def selectCanonicalTip (candidates : List ChainTip) : ForkChoiceOutcome :=
  if candidates.isEmpty then .empty
  else .selected (Selection.scan ChainTip.scoreCmp candidates)

/-- What the index of the outcome stands for. -/
def Selects (candidates : List ChainTip) (tip : ChainTip) : Prop :=
  ∃ index, selectCanonicalTip candidates = .selected index ∧ candidates[index]? = some tip

def UniqueIds (tips : List ChainTip) : Prop :=
  ∀ a ∈ tips, ∀ b ∈ tips, a.blockId = b.blockId → a = b

theorem selects_scan {candidates : List ChainTip} (h : candidates ≠ []) :
    ∃ tip, Selects candidates tip ∧ Selection.IsGreatest ChainTip.scoreCmp candidates tip := by
  obtain ⟨tip, htip, hgreatest⟩ := @Selection.getElem?_scan _ ChainTip.scoreCmp _ _ h
  have houtcome : selectCanonicalTip candidates
      = .selected (Selection.scan ChainTip.scoreCmp candidates) := by
    rw [selectCanonicalTip, if_neg (by simpa using h)]
  exact ⟨tip, ⟨_, houtcome, htip⟩, hgreatest⟩

/-- The tip that one list of candidates gives is the one that every list of the
same candidates gives. -/
theorem selects_of_same {candidates others : List ChainTip} {tip : ChainTip}
    (hids : UniqueIds candidates)
    (hgreatest : Selection.IsGreatest ChainTip.scoreCmp candidates tip)
    (hsame : ∀ other, other ∈ others ↔ other ∈ candidates) : Selects others tip := by
  have hne : others ≠ [] := List.ne_nil_of_mem ((hsame tip).mpr hgreatest.1)
  obtain ⟨other, hselects, hother⟩ := selects_scan hne
  have heq : tip = other := hgreatest.unique hother hsame fun a ha b hb hab =>
    hids a ha b hb (ChainTip.blockId_eq_of_scoreCmp hab)
  rw [heq]
  exact hselects

/-! ## Reorganisations -/

inductive ReorgRejection where
  | alternativeDoesNotOutscore
  | revertPastFinality (commonAncestorHeight deepestFinalizedDepth confirmationDepth : UInt64)
  deriving DecidableEq

def isSafeReorg (current alternative : ChainTip)
    (commonAncestorHeight currentDeepestFinalizedAboveFork confirmationDepth : UInt64) :
    Except ReorgRejection Unit := do
  if alternative.scoreCmp current ≠ .gt then
    throw .alternativeDoesNotOutscore
  if currentDeepestFinalizedAboveFork ≥ confirmationDepth then
    throw (.revertPastFinality commonAncestorHeight currentDeepestFinalizedAboveFork
      confirmationDepth)
  return ()

theorem outscores_of_isSafeReorg {current alternative : ChainTip}
    {ancestor deepest depth : UInt64}
    (h : isSafeReorg current alternative ancestor deepest depth = .ok ()) :
    alternative.scoreCmp current = .gt := by
  by_contra hnot
  simp [isSafeReorg, hnot, throw, throwThe, MonadExceptOf.throw, bind, Except.bind] at h

/-- No two tips are switched between in both directions, whatever lies above
their fork. -/
theorem not_isSafeReorg_both {a b : ChainTip}
    {ancestor deepest depth ancestor' deepest' depth' : UInt64}
    (hab : isSafeReorg a b ancestor deepest depth = .ok ()) :
    isSafeReorg b a ancestor' deepest' depth' ≠ .ok () := by
  intro hba
  have hgt := outscores_of_isSafeReorg hab
  have hlt := outscores_of_isSafeReorg hba
  rw [ChainTip.scoreCmp_swap, hgt] at hlt
  cases hlt

/-! ## Independence of the order -/

/-- The score orders the candidates, and the greatest of them is selected from
every arrangement of them, with or without repetitions. -/
theorem selectCanonicalTip_deterministic (candidates : List ChainTip) (hne : candidates ≠ [])
    (hids : UniqueIds candidates) :
    (∀ a b : ChainTip, (a.scoreCmp b).isLE = true ∨ (b.scoreCmp a).isLE = true)
      ∧ (∀ a b c : ChainTip, (a.scoreCmp b).isLE = true → (b.scoreCmp c).isLE = true →
        (a.scoreCmp c).isLE = true)
      ∧ (∀ a ∈ candidates, ∀ b ∈ candidates, (a.scoreCmp b).isLE = true →
        (b.scoreCmp a).isLE = true → a = b)
      ∧ (∃ tip, Selection.IsGreatest ChainTip.scoreCmp candidates tip
        ∧ (∀ others, others.Perm candidates → Selects others tip)
        ∧ (∀ others, (∀ other, other ∈ others ↔ other ∈ candidates) → Selects others tip))
      ∧ ∀ (a b : ChainTip) (ancestor deepest depth ancestor' deepest' depth' : UInt64),
        ¬ (isSafeReorg a b ancestor deepest depth = .ok ()
          ∧ isSafeReorg b a ancestor' deepest' depth' = .ok ()) := by
  refine ⟨?_, ?_, ?_, ?_, ?_⟩
  · intro a b
    rw [ChainTip.scoreCmp_swap a b]
    cases a.scoreCmp b <;> simp
  · intro a b c hab hbc
    exact Std.TransCmp.isLE_trans hab hbc
  · intro a ha b hb hab hba
    rw [ChainTip.scoreCmp_swap a b] at hba
    refine hids a ha b hb (ChainTip.blockId_eq_of_scoreCmp ?_)
    cases hcmp : a.scoreCmp b with
    | lt => rw [hcmp] at hba; cases hba
    | eq => rfl
    | gt => rw [hcmp] at hab; cases hab
  · obtain ⟨tip, -, hgreatest⟩ := selects_scan hne
    refine ⟨tip, hgreatest, ?_, ?_⟩
    · intro others hperm
      exact selects_of_same hids hgreatest fun other => hperm.mem_iff
    · intro others hsame
      exact selects_of_same hids hgreatest hsame
  · rintro a b ancestor deepest depth ancestor' deepest' depth' ⟨hab, hba⟩
    exact not_isSafeReorg_both hab hba

/-- Two tips that tie in all but their ids. -/
theorem selectCanonicalTip_tie :
    ∃ tip, (∀ others : List ChainTip,
      others.Perm [⟨Hash.ofByte 1, 10, 2, 1000⟩, ⟨Hash.ofByte 2, 10, 2, 1000⟩] →
        Selects others tip) := by
  obtain ⟨-, -, -, ⟨tip, -, hperm, -⟩, -⟩ := selectCanonicalTip_deterministic
    [⟨Hash.ofByte 1, 10, 2, 1000⟩, ⟨Hash.ofByte 2, 10, 2, 1000⟩] (by simp) (by
      intro a ha b hb hab
      simp only [List.mem_cons, List.not_mem_nil, or_false] at ha hb
      rcases ha with rfl | rfl <;> rcases hb with rfl | rfl
      · rfl
      · exact absurd hab (by decide)
      · exact absurd hab (by decide)
      · rfl)
  exact ⟨tip, hperm⟩

end Sccgub
