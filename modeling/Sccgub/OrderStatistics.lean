import Mathlib

/-!
# Order statistics under a minority

The element at a middle place of a sorted list cannot be moved past the honest
elements by a minority of others: everything on one side of it would have to be
one of the others.  The argument counts, so it is about any list sorted by a
relation and any predicate that the relation carries upwards or downwards.
-/

namespace OrderStatistics

variable {α : Type*} {r : α → α → Prop} {s : List α} {k : Nat}

/-- Carried along the relation. -/
def Upward (r : α → α → Prop) (p : α → Bool) : Prop :=
  ∀ x y, r x y → p x = true → p y = true

/-- Carried against it. -/
def Downward (r : α → α → Prop) (p : α → Bool) : Prop :=
  ∀ x y, r x y → p y = true → p x = true

/-- Whatever fails what place `k` satisfies stands before it. -/
theorem countP_not_le_of_upward {p : α → Bool} (hs : s.Pairwise r) (hp : Upward r p)
    (hk : k < s.length) (h : p s[k] = true) : s.countP (fun x => !p x) ≤ k := by
  have hafter : (s.drop k).countP (fun x => !p x) = 0 := by
    rw [List.countP_eq_zero]
    intro x hx
    obtain ⟨i, hi, rfl⟩ := List.mem_iff_getElem.mp hx
    rw [List.getElem_drop]
    rw [List.length_drop] at hi
    rcases Nat.eq_zero_or_pos i with rfl | hpos
    · simpa using h
    · simpa using hp _ _ (List.pairwise_iff_getElem.mp hs k (k + i) hk (by omega) (by omega)) h
  calc s.countP (fun x => !p x)
      = (s.take k).countP (fun x => !p x) + (s.drop k).countP (fun x => !p x) := by
        rw [← List.countP_append, List.take_append_drop]
    _ ≤ k := by
        rw [hafter, Nat.add_zero]
        exact List.countP_le_length.trans (List.length_take_le k s)

/-- Whatever fails it, for a predicate carried downwards, stands behind it. -/
theorem countP_not_lt_of_downward {p : α → Bool} (hs : s.Pairwise r) (hp : Downward r p)
    (hk : k < s.length) (h : p s[k] = true) : s.countP (fun x => !p x) + k < s.length := by
  have hbefore : (s.take (k + 1)).countP (fun x => !p x) = 0 := by
    rw [List.countP_eq_zero]
    intro x hx
    obtain ⟨i, hi, rfl⟩ := List.mem_iff_getElem.mp hx
    rw [List.getElem_take]
    rw [List.length_take] at hi
    rcases Nat.lt_or_eq_of_le (show i ≤ k by omega) with hlt | rfl
    · simpa using hp _ _ (List.pairwise_iff_getElem.mp hs i k (by omega) hk hlt) h
    · simpa using h
  have hsplit : s.countP (fun x => !p x)
      = (s.take (k + 1)).countP (fun x => !p x) + (s.drop (k + 1)).countP (fun x => !p x) := by
    rw [← List.countP_append, List.take_append_drop]
  have hle : (s.drop (k + 1)).countP (fun x => !p x) ≤ s.length - (k + 1) := by
    rw [← List.length_drop]
    exact List.countP_le_length
  omega

variable {honest others : List α}

/-- A middle place: neither side of it holds a majority. -/
def Middle (k length : Nat) : Prop := 2 * k + 1 ≤ length ∧ length ≤ 2 * k + 2

/-- What all the honest fail, a middle place fails. -/
theorem not_of_upward {p : α → Bool} (hs : s.Pairwise r) (hperm : s.Perm (honest ++ others))
    (hfew : others.length < honest.length) (hmiddle : Middle k s.length) (hk : k < s.length)
    (hp : Upward r p) (hhonest : ∀ x ∈ honest, p x = false) : p s[k] = false := by
  by_contra h
  have hcount := countP_not_le_of_upward hs hp hk (Bool.eq_true_of_not_eq_false h)
  have hall : honest.countP (fun x => !p x) = honest.length :=
    List.countP_eq_length.mpr fun x hx => by simp [hhonest x hx]
  have hlength := hperm.length_eq
  rw [hperm.countP_eq, List.countP_append, hall] at hcount
  rw [List.length_append] at hlength
  unfold Middle at hmiddle
  omega

theorem not_of_downward {p : α → Bool} (hs : s.Pairwise r) (hperm : s.Perm (honest ++ others))
    (hfew : others.length < honest.length) (hmiddle : Middle k s.length) (hk : k < s.length)
    (hp : Downward r p) (hhonest : ∀ x ∈ honest, p x = false) : p s[k] = false := by
  by_contra h
  have hcount := countP_not_lt_of_downward hs hp hk (Bool.eq_true_of_not_eq_false h)
  have hall : honest.countP (fun x => !p x) = honest.length :=
    List.countP_eq_length.mpr fun x hx => by simp [hhonest x hx]
  have hlength := hperm.length_eq
  rw [hperm.countP_eq, List.countP_append, hall] at hcount
  rw [List.length_append] at hlength
  unfold Middle at hmiddle
  omega

end OrderStatistics
