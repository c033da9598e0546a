import Mathlib
import Sccgub.Types.FixedPoint

/-!
# Quotients

A quotient of tensions is taken as the product of the whole part with the scale,
and that of the remainder with the scale divided again, both saturating: a split
product in which the divisor takes the place of the scale.
-/

namespace Sccgub.TensionValue

open FixedWidth

theorem saturate_natCast_val (x : Nat) : (I128.saturate x).val = (min x (2 ^ 127 - 1) : Nat) := by
  rw [I128.val_saturate]
  omega

theorem scale_eq_toNat : scale = (scale.toNat : Int) := by decide

/-- Whole part and remainder, scaled apart. -/
theorem splitQuotient_val (n d : Nat) :
    (I128.saturate ((I128.saturate ((n : Int).tdiv d * scale)).val
        + (I128.saturate ((n : Int).tmod d * scale)).val.tdiv d)).val
      = SplitProduct.product d (2 ^ 127 - 1) n scale.toNat := by
  have hwhole : (n : Int).tdiv d * scale = (n / d * scale.toNat : Nat) := by
    rw [← Int.ofNat_tdiv, scale_eq_toNat]
    push_cast
    rfl
  have hfrac : (n : Int).tmod d * scale = (n % d * scale.toNat : Nat) := by
    rw [← Int.ofNat_tmod, scale_eq_toNat]
    push_cast
    rfl
  rw [hwhole, hfrac, saturate_natCast_val, saturate_natCast_val, ← Int.ofNat_tdiv,
    ← Int.natCast_add, saturate_natCast_val]
  rfl

end Sccgub.TensionValue
