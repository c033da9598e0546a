import Mathlib

/-!
# Bounded duplicate suppression

A set of the keys seen lately with the order they came in.  A key that is not in
the set is taken in, after the oldest ones made room for it.
-/

namespace Dedup

variable {κ : Type} [DecidableEq κ]

/-- The oldest keys go until there is room for one more. -/
def evict (capacity : Nat) : Finset κ → List κ → Finset κ × List κ
  | seen, [] => (seen, [])
  | seen, oldest :: order =>
      if capacity ≤ seen.card then evict capacity (seen.erase oldest) order
      else (seen, oldest :: order)

/-- The key goes in as the newest one. -/
def remember (capacity : Nat) (seen : Finset κ) (order : List κ) (key : κ) : Finset κ × List κ :=
  let (seen, order) := evict capacity seen order
  (insert key seen, order ++ [key])

end Dedup
