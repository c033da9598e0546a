import Mathlib

/-!
# Schedules

Items that are entered at any time and fall due at a time of their own, kept in
one order that goes by time first.  The queue, what is due at a time and what is
past are functions of the items that were entered, whatever the order they came
in.
-/

namespace Schedule

variable {α τ : Type} {r : α → α → Prop} {time : α → τ}

/-- No two of the items stand in the same place. -/
def Placed (r : α → α → Prop) (l : List α) : Prop := ∀ a ∈ l, ∀ b ∈ l, r a b → r b a → a = b

theorem Placed.subset {l l' : List α} (h : Placed r l) (hsub : l' ⊆ l) : Placed r l' :=
  fun a ha b hb => h a (hsub ha) b (hsub hb)

theorem Placed.filter {l : List α} (h : Placed r l) (p : α → Bool) : Placed r (l.filter p) :=
  h.subset (List.filter_subset_self l)

variable [LinearOrder τ] [DecidableRel r]

def queue (r : α → α → Prop) [DecidableRel r] (time : α → τ) (now : τ) (l : List α) : List α :=
  (l.filter fun a => now < time a).insertionSort r

def due (r : α → α → Prop) [DecidableRel r] (time : α → τ) (now : τ) (l : List α) : List α :=
  (l.filter fun a => time a = now).insertionSort r

def past (r : α → α → Prop) [DecidableRel r] (time : α → τ) (now : τ) (l : List α) : List α :=
  (l.filter fun a => time a ≤ now).insertionSort r

theorem mem_queue {now : τ} {l : List α} {a : α} :
    a ∈ queue r time now l ↔ a ∈ l ∧ now < time a := by
  rw [queue, (List.perm_insertionSort r _).mem_iff, List.mem_filter, decide_eq_true_eq]

theorem mem_due {now : τ} {l : List α} {a : α} : a ∈ due r time now l ↔ a ∈ l ∧ time a = now := by
  rw [due, (List.perm_insertionSort r _).mem_iff, List.mem_filter, decide_eq_true_eq]

theorem mem_past {now : τ} {l : List α} {a : α} :
    a ∈ past r time now l ↔ a ∈ l ∧ time a ≤ now := by
  rw [past, (List.perm_insertionSort r _).mem_iff, List.mem_filter, decide_eq_true_eq]

theorem past_concat {now : τ} {l : List α} {a : α} (hlater : now < time a) :
    past r time now (l ++ [a]) = past r time now l := by
  simp [past, List.filter_append, not_le.mpr hlater]

theorem due_concat {now before : τ} {l : List α} {a : α} (hlater : now < time a)
    (hbefore : before ≤ now) : due r time before (l ++ [a]) = due r time before l := by
  have hne : time a ≠ before := ne_of_gt (hbefore.trans_lt hlater)
  simp [due, List.filter_append, hne]

/-! ## One order for the same items -/

variable [Std.Total r] [IsTrans α r]

theorem eq_insertionSort {l l' : List α} (hplaced : Placed r l) (hsorted : l'.Pairwise r)
    (hperm : l'.Perm l) : l' = l.insertionSort r := by
  refine List.Perm.eq_of_pairwise (fun a b ha hb => ?_) hsorted (List.pairwise_insertionSort r l)
    (hperm.trans (List.perm_insertionSort r l).symm)
  exact hplaced a (hperm.mem_iff.mp ha) b ((List.perm_insertionSort r l).mem_iff.mp hb)

theorem insertionSort_perm {l l' : List α} (hplaced : Placed r l) (hperm : l.Perm l') :
    l.insertionSort r = l'.insertionSort r :=
  (eq_insertionSort hplaced (List.pairwise_insertionSort r l')
    ((List.perm_insertionSort r l').trans hperm.symm)).symm

theorem filter_insertionSort {l : List α} (hplaced : Placed r l) (p : α → Bool) :
    (l.insertionSort r).filter p = (l.filter p).insertionSort r :=
  eq_insertionSort (hplaced.filter p) ((List.pairwise_insertionSort r l).filter p)
    ((List.perm_insertionSort r l).filter p)

theorem past_perm {now : τ} {l l' : List α} (hplaced : Placed r l) (hperm : l.Perm l') :
    past r time now l = past r time now l' :=
  insertionSort_perm (hplaced.filter _) (hperm.filter _)

/-- One item more, sorted into the queue. -/
theorem queue_concat {now : τ} {l : List α} {a : α} (hlater : now < time a)
    (hplaced : Placed r (l ++ [a])) :
    (queue r time now l ++ [a]).insertionSort r = queue r time now (l ++ [a]) := by
  have hfilter : (l ++ [a]).filter (fun b => decide (now < time b))
      = l.filter (fun b => decide (now < time b)) ++ [a] := by
    simp [List.filter_append, hlater]
  rw [queue, queue, hfilter]
  refine (insertionSort_perm ?_ ((List.perm_insertionSort r _).symm.append_right [a])).symm
  rw [← hfilter]
  exact hplaced.filter _

/-! ## The next time -/

section

variable {now next : τ} {l : List α} (hnext : ∀ t, now < t ↔ next ≤ t) (hplaced : Placed r l)

include hnext hplaced

theorem due_of_queue :
    (queue r time now l).filter (fun a => decide (time a = next)) = due r time next l := by
  rw [queue, filter_insertionSort (hplaced.filter _), due, List.filter_filter]
  congr 1
  refine List.filter_congr fun a _ => ?_
  rw [Bool.eq_iff_iff, Bool.and_eq_true, decide_eq_true_eq, decide_eq_true_eq]
  exact ⟨fun h => h.1, fun h => ⟨h, (hnext _).mpr h.ge⟩⟩

theorem queue_of_queue :
    (queue r time now l).filter (fun a => !decide (time a = next)) = queue r time next l := by
  rw [queue, filter_insertionSort (hplaced.filter _), queue, List.filter_filter]
  congr 1
  refine List.filter_congr fun a _ => ?_
  rw [Bool.eq_iff_iff, Bool.and_eq_true, Bool.not_eq_true', decide_eq_true_eq, decide_eq_true_eq,
    decide_eq_false_iff_not, hnext]
  exact ⟨fun h => lt_of_le_of_ne h.2 (Ne.symm h.1), fun h => ⟨ne_of_gt h, h.le⟩⟩

/-- What is past grows by what is due. -/
theorem past_next (hmono : ∀ a b, r a b → time a ≤ time b) :
    past r time next l = past r time now l ++ due r time next l := by
  have hlt : now < next := (hnext next).mpr le_rfl
  symm
  refine eq_insertionSort (hplaced.filter _) ?_ ?_
  · refine List.pairwise_append.mpr ⟨List.pairwise_insertionSort r _,
      List.pairwise_insertionSort r _, fun a ha b hb => ?_⟩
    obtain ⟨-, ha⟩ := mem_past.mp ha
    obtain ⟨-, hb⟩ := mem_due.mp hb
    have hearlier : time a < time b := by
      rw [hb]
      exact ha.trans_lt hlt
    rcases Std.Total.total (r := r) a b with hab | hba
    · exact hab
    · exact absurd (hmono b a hba) (not_le.mpr hearlier)
  · have hearly : (l.filter fun a => decide (time a ≤ next)).filter (fun a => time a ≤ now)
        = l.filter fun a => time a ≤ now := by
      rw [List.filter_filter]
      refine List.filter_congr fun a _ => ?_
      rw [Bool.eq_iff_iff, Bool.and_eq_true, decide_eq_true_eq, decide_eq_true_eq]
      exact ⟨fun h => h.1, fun h => ⟨h, h.trans hlt.le⟩⟩
    have hnow : (l.filter fun a => decide (time a ≤ next)).filter (fun a => !decide (time a ≤ now))
        = l.filter fun a => time a = next := by
      rw [List.filter_filter]
      refine List.filter_congr fun a _ => ?_
      rw [Bool.eq_iff_iff, Bool.and_eq_true, Bool.not_eq_true', decide_eq_true_eq,
        decide_eq_true_eq, decide_eq_false_iff_not, not_le, hnext]
      exact ⟨fun h => le_antisymm h.2 h.1, fun h => ⟨h.ge, h.le⟩⟩
    have hsplit := List.filter_append_perm (fun a => decide (time a ≤ now))
      (l.filter fun a => decide (time a ≤ next))
    rw [hearly, hnow] at hsplit
    exact ((List.perm_insertionSort r _).append (List.perm_insertionSort r _)).trans hsplit

end

end Schedule
