import Mathlib

/-!
# Weighted quorums

Two sets of voters whose weight each exceeds two thirds of the total overlap in
more than a third of it.  Stated once for an arbitrary weight; counting voters
is the weight one.
-/

namespace Quorum

variable {α : Type} [DecidableEq α]

/-- The supermajority threshold `⌊2t/3⌋ + 1`. -/
def threshold (total : Nat) : Nat := 2 * total / 3 + 1

theorem threshold_mono {m n : Nat} (h : m ≤ n) : threshold m ≤ threshold n := by
  unfold threshold
  omega

/-- Inclusion–exclusion inside a universe: what two sets weigh together beyond
the universe, they share. -/
theorem weight_add_le_inter_add (w : α → Nat) {A B U : Finset α} (hA : A ⊆ U) (hB : B ⊆ U) :
    A.sum w + B.sum w ≤ (A ∩ B).sum w + U.sum w := by
  have hunion : (A ∪ B).sum w ≤ U.sum w :=
    Finset.sum_le_sum_of_subset (Finset.union_subset hA hB)
  have hsplit : (A ∪ B).sum w + (A ∩ B).sum w = A.sum w + B.sum w := Finset.sum_union_inter
  omega

/-- Two supermajorities by weight share more than a third of it. -/
theorem weight_inter_of_threshold (w : α → Nat) {A B U : Finset α} (hA : A ⊆ U) (hB : B ⊆ U)
    (ha : threshold (U.sum w) ≤ A.sum w) (hb : threshold (U.sum w) ≤ B.sum w) :
    U.sum w < 3 * (A ∩ B).sum w := by
  have hoverlap := weight_add_le_inter_add w hA hB
  unfold threshold at ha hb
  omega

/-- Two supermajorities of the same voters share at least `2q - n` of them. -/
theorem card_inter_of_threshold {A B U : Finset α} (hA : A ⊆ U) (hB : B ⊆ U)
    (ha : threshold U.card ≤ A.card) (hb : threshold U.card ≤ B.card) :
    2 * threshold U.card - U.card ≤ (A ∩ B).card := by
  have hoverlap := weight_add_le_inter_add (fun _ => 1) hA hB
  simp only [Finset.sum_const, smul_eq_mul, mul_one] at hoverlap
  omega

end Quorum
