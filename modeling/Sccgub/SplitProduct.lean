import Mathlib

/-!
# Products split at a scale

A fixed-point product `a · b / scale` computed without a wider integer: the
whole part of `a` and its remainder are multiplied by `b` separately, each
product saturating at `limit`, and the second is divided by the scale.

Over unbounded numbers the split loses nothing.  With a limit the remainder's
product may saturate before its division brings it back into range, so a result
that would fit is cut off.  `min_product_eq_iff` says when that shows below a
cap on the result.
-/

namespace SplitProduct

/-- The split product, each intermediate value held at the limit. -/
def product (scale limit a b : Nat) : Nat :=
  min (min (a / scale * b) limit + min (a % scale * b) limit / scale) limit

variable {scale limit cap a b c : Nat}

/-- The split itself is exact. -/
theorem mul_div_eq (hscale : 0 < scale) :
    a * b / scale = a / scale * b + a % scale * b / scale := by
  have hsplit : a * b = a % scale * b + a / scale * b * scale := by
    calc a * b = (scale * (a / scale) + a % scale) * b := by rw [Nat.div_add_mod]
      _ = a % scale * b + a / scale * b * scale := by ring
  rw [hsplit, Nat.add_mul_div_right _ _ hscale, Nat.add_comm]

/-- A remainder's product that stays within the limit, but for what the division
drops; or a result that is above the cap with what is left of it. -/
def Fits (scale limit cap a b : Nat) : Prop :=
  a % scale * b / scale ≤ limit / scale ∨ cap ≤ a / scale * b + limit / scale

instance : Decidable (Fits scale limit cap a b) :=
  inferInstanceAs (Decidable (_ ∨ _))

/-- The capped split product is the capped product exactly when it fits. -/
theorem min_product_eq_iff (hscale : 0 < scale) (hcap : cap ≤ limit) :
    min (product scale limit a b) cap = min (a * b / scale) cap ↔ Fits scale limit cap a b := by
  have hmono : Monotone (· / scale) := fun _ _ h => Nat.div_le_div_right h
  have hfrac : min (a % scale * b) limit / scale = min (a % scale * b / scale) (limit / scale) :=
    hmono.map_min
  rw [mul_div_eq hscale, product, hfrac, Fits]
  generalize a / scale * b = whole
  generalize a % scale * b / scale = frac
  generalize limit / scale = most
  omega

/-- A larger second factor has no smaller product. -/
theorem product_le_product (h : b ≤ c) : product scale limit a b ≤ product scale limit a c := by
  have hwhole : a / scale * b ≤ a / scale * c := Nat.mul_le_mul_left _ h
  have hfrac : min (a % scale * b) limit / scale ≤ min (a % scale * c) limit / scale :=
    Nat.div_le_div_right (min_le_min_right _ (Nat.mul_le_mul_left _ h))
  unfold product
  omega

/-- Below the scale only the remainder counts. -/
theorem product_of_lt (h : a < scale) :
    product scale limit a b = min (min (a * b) limit / scale) limit := by
  rw [product, Nat.div_eq_of_lt h, Nat.mod_eq_of_lt h, Nat.zero_mul, Nat.zero_min, Nat.zero_add]

/-- One times anything within the limit is itself. -/
theorem product_self (hscale : 0 < scale) (h : b ≤ limit) : product scale limit scale b = b := by
  rw [product, Nat.div_self hscale, Nat.mod_self, Nat.one_mul, Nat.zero_mul, Nat.zero_min,
    Nat.zero_div, Nat.add_zero, min_eq_left h, min_eq_left h]

end SplitProduct
