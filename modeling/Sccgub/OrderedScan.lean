import Mathlib

/-!
# Scans of ordered entries

A scan starts at the first key that is not below `start` and stops at the first key
that is not wanted.  It finds all that is wanted if that lies from `start` on and has
no gap in the order.
-/

namespace OrderedScan

variable {α β : Type} [Ord α] {start : α} {wanted : α → Bool} {l : List (α × β)}

/-- The entries from `start` on, up to the first one that is not wanted. -/
def scan (start : α) (wanted : α → Bool) (l : List (α × β)) : List (α × β) :=
  (l.dropWhile fun e => compare e.1 start = .lt).takeWhile fun e => wanted e.1

/-- What is wanted lies from `start` on, and so does what is below a wanted key. -/
structure Contiguous (start : α) (wanted : α → Bool) : Prop where
  above : ∀ k, wanted k = true → compare k start ≠ .lt
  between : ∀ k k', wanted k' = true → compare k start ≠ .lt → compare k k' = .lt →
    wanted k = true

/-- After the first key that is not wanted there is none that is. -/
theorem takeWhile_eq_filter (h : Contiguous start wanted)
    (hl : l.Pairwise fun a b => compare a.1 b.1 = .lt)
    (hfrom : ∀ e ∈ l, compare e.1 start ≠ .lt) :
    (l.takeWhile fun e => wanted e.1) = l.filter fun e => wanted e.1 := by
  induction l with
  | nil => rfl
  | cons e rest ih =>
      obtain ⟨hfirst, hrest⟩ := List.pairwise_cons.mp hl
      obtain ⟨he, hfrom⟩ := List.forall_mem_cons.mp hfrom
      by_cases hwanted : wanted e.1 = true
      · simp only [List.takeWhile_cons, List.filter_cons, hwanted, if_true, ih hrest hfrom]
      · simp only [List.takeWhile_cons, List.filter_cons, hwanted, Bool.false_eq_true, if_false]
        refine (List.filter_eq_nil_iff.mpr fun f hf hend => hwanted ?_).symm
        exact h.between _ _ hend he (hfirst f hf)

/-- A scan finds what is wanted, in order. -/
theorem scan_eq_filter [Std.TransOrd α] (h : Contiguous start wanted)
    (hl : l.Pairwise fun a b => compare a.1 b.1 = .lt) :
    scan start wanted l = l.filter fun e => wanted e.1 := by
  unfold scan
  induction l with
  | nil => rfl
  | cons e rest ih =>
      obtain ⟨hfirst, hrest⟩ := List.pairwise_cons.mp hl
      by_cases hbelow : compare e.1 start = .lt
      · have hunwanted : ¬ wanted e.1 = true := fun hwanted => h.above _ hwanted hbelow
        simp only [List.dropWhile_cons, List.filter_cons, hbelow, hunwanted, decide_true, if_true,
          Bool.false_eq_true, if_false]
        exact ih hrest
      · simp only [List.dropWhile_cons, hbelow, decide_false, Bool.false_eq_true, if_false]
        refine takeWhile_eq_filter h hl ?_
        intro f hf
        rcases List.mem_cons.mp hf with rfl | hf
        · exact hbelow
        · exact fun hlt => hbelow (Std.TransCmp.lt_trans (hfirst f hf) hlt)

end OrderedScan
