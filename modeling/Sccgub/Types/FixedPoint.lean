import Mathlib
import Sccgub.SplitProduct
import Sccgub.Types.Agent

/-!
# Fixed-point arithmetic

Sums and differences that stay in range are those of the integers.

The product of two tensions against the exact one.  The first factor is split at
the scale; where its fractional part times the second factor leaves 128 bits, the
result is cut off, and cut off differently when the factors change places.

For a fixed first factor the product is monotone all the same, upwards or
downwards as the sign of that factor says.
-/

namespace Sccgub

open FixedWidth

theorem saturate_le_saturate {x y : Int} (h : x ≤ y) : I128.saturate x ≤ I128.saturate y := by
  rw [I128.le_def, I128.val_saturate, I128.val_saturate]
  omega

/-- The largest amount. -/
def i128Max : Int := 2 ^ 127 - 1

namespace TensionValue

/-! ## Sums in range -/

theorem add_val {a b : TensionValue} (hlo : 0 ≤ a.raw.val + b.raw.val)
    (hhi : a.raw.val + b.raw.val ≤ i128Max) : (a + b).raw.val = a.raw.val + b.raw.val :=
  I128.val_saturate_of_range (by omega) hhi

theorem sub_val {a b : TensionValue} (hlo : 0 ≤ a.raw.val - b.raw.val) (hb : 0 ≤ b.raw.val) :
    (a - b).raw.val = a.raw.val - b.raw.val := by
  have hmax := a.raw.le_max
  exact I128.val_saturate_of_range (by omega) (by omega)

/-- Below the largest amount, saturating sums are sums. -/
theorem foldl_add_val (l : List TensionValue) (acc : TensionValue)
    (hl : ∀ v ∈ l, 0 ≤ v.raw.val) (hacc : 0 ≤ acc.raw.val)
    (hfits : acc.raw.val + (l.map fun v => v.raw.val).sum ≤ i128Max) :
    (l.foldl (fun acc v => acc + v) acc).raw.val = acc.raw.val + (l.map fun v => v.raw.val).sum := by
  induction l generalizing acc with
  | nil => simp
  | cons v rest ih =>
      have hv : 0 ≤ v.raw.val := hl v List.mem_cons_self
      have hrest : 0 ≤ (rest.map fun v => v.raw.val).sum := by
        refine List.sum_nonneg fun x hx => ?_
        obtain ⟨w, hw, rfl⟩ := List.mem_map.mp hx
        exact hl w (List.mem_cons_of_mem _ hw)
      simp only [List.map_cons, List.sum_cons] at hfits ⊢
      have hadd : (acc + v).raw.val = acc.raw.val + v.raw.val := add_val (by omega) (by omega)
      rw [List.foldl_cons, ih (acc + v) (fun w hw => hl w (List.mem_cons_of_mem _ hw)) (by omega)
        (by omega), hadd]
      omega

/-! ## The exact product -/

/-- Truncated toward zero and clamped, from the product over the integers. -/
def exactProduct (a b : TensionValue) : Int :=
  max (-(2 ^ 127 - 1)) (min (2 ^ 127 - 1) ((a.raw.val * b.raw.val).tdiv scale))

/-- The fractional part of the first factor times the second one stays within
128 bits, or the result saturates anyway. -/
def FractionFits (a b : TensionValue) : Prop :=
  SplitProduct.Fits scale.toNat u128Max (2 ^ 127 - 1) a.raw.val.natAbs b.raw.val.natAbs

instance (a b : TensionValue) : Decidable (FractionFits a b) :=
  inferInstanceAs (Decidable (SplitProduct.Fits ..))

/-! ## Sign and magnitude -/

def signum (x : Int) : Int := if x < 0 then -1 else 1

/-- What the product is before its sign. -/
def magnitude (a b : Nat) : Nat :=
  min (SplitProduct.product scale.toNat u128Max a b) (2 ^ 127 - 1)

theorem magnitude_le (a b : Nat) : magnitude a b ≤ 2 ^ 127 - 1 := min_le_right _ _

theorem magnitude_mono {a b c : Nat} (h : b ≤ c) : magnitude a b ≤ magnitude a c :=
  min_le_min_right _ (SplitProduct.product_le_product h)

theorem signum_mul_signum (x y : Int) :
    (if (x < 0) != (y < 0) then -1 else 1 : Int) = signum x * signum y := by
  unfold signum
  by_cases hx : x < 0 <;> by_cases hy : y < 0 <;> simp [hx, hy]

theorem signum_mul_signum_cases (x y : Int) :
    signum x * signum y = 1 ∨ signum x * signum y = -1 := by
  unfold signum
  split_ifs <;> decide

theorem signum_mul_natAbs (x : Int) : signum x * x.natAbs = x := by
  unfold signum
  split_ifs <;> omega

/-- The magnitude is in range, so the sign is all that is left to put on it. -/
theorem mulFp_val (a b : TensionValue) :
    (a.mulFp b).raw.val
      = signum a.raw.val * signum b.raw.val * magnitude a.raw.val.natAbs b.raw.val.natAbs := by
  have hle := magnitude_le a.raw.val.natAbs b.raw.val.natAbs
  have hcases := signum_mul_signum_cases a.raw.val b.raw.val
  show (I128.saturate ((magnitude a.raw.val.natAbs b.raw.val.natAbs : Int)
    * (if (a.raw.val < 0) != (b.raw.val < 0) then -1 else 1))).val = _
  rw [signum_mul_signum, Int.mul_comm, I128.val_saturate_of_range]
  · rcases hcases with h | h <;> rw [h] <;> omega
  · rcases hcases with h | h <;> rw [h] <;> omega

theorem scale_toNat_pos : 0 < scale.toNat := by decide

/-- The exact product in the same form. -/
theorem exactProduct_eq (a b : TensionValue) :
    exactProduct a b = signum a.raw.val * signum b.raw.val
      * (min (a.raw.val.natAbs * b.raw.val.natAbs / scale.toNat) (2 ^ 127 - 1) : Nat) := by
  have hproduct : a.raw.val * b.raw.val
      = signum a.raw.val * signum b.raw.val * (a.raw.val.natAbs * b.raw.val.natAbs : Nat) := by
    conv_lhs => rw [← signum_mul_natAbs a.raw.val, ← signum_mul_natAbs b.raw.val]
    push_cast
    ring
  have hdiv : ((a.raw.val.natAbs * b.raw.val.natAbs : Nat) : Int).tdiv scale
      = (a.raw.val.natAbs * b.raw.val.natAbs / scale.toNat : Nat) := rfl
  unfold exactProduct
  rw [hproduct]
  generalize a.raw.val.natAbs * b.raw.val.natAbs / scale.toNat = quotient at hdiv ⊢
  rcases signum_mul_signum_cases a.raw.val b.raw.val with h | h
  · rw [h, Int.one_mul, Int.one_mul, hdiv]
    omega
  · rw [h, Int.neg_one_mul, Int.neg_one_mul, Int.neg_tdiv, hdiv]
    omega

/-! ## Exactness -/

theorem mulFp_val_eq_iff (a b : TensionValue) :
    (a.mulFp b).raw.val = exactProduct a b ↔ FractionFits a b := by
  rw [mulFp_val, exactProduct_eq, FractionFits, ← SplitProduct.min_product_eq_iff
    scale_toNat_pos (by decide), magnitude]
  rcases signum_mul_signum_cases a.raw.val b.raw.val with h | h
  · rw [h, Int.one_mul, Int.one_mul, Nat.cast_inj]
  · rw [h, Int.neg_one_mul, Int.neg_one_mul, neg_inj, Nat.cast_inj]

theorem exactProduct_comm (a b : TensionValue) : exactProduct a b = exactProduct b a := by
  rw [exactProduct, exactProduct, Int.mul_comm]

/-- The product is the exact one when the fraction of its first factor fits, and
the same with its factors exchanged when that of the other one fits as well. -/
theorem mulFp_exact_iff (a b : TensionValue) :
    ((a.mulFp b).raw.val = exactProduct a b ↔ FractionFits a b)
      ∧ ((a.mulFp b).raw.val = exactProduct a b ∧ a.mulFp b = b.mulFp a
        ↔ FractionFits a b ∧ FractionFits b a) := by
  refine ⟨mulFp_val_eq_iff a b, ?_⟩
  rw [mulFp_val_eq_iff, ← mulFp_val_eq_iff b a]
  refine and_congr_right fun hfits => ?_
  have hexact := (mulFp_val_eq_iff a b).mpr hfits
  rw [exactProduct_comm, ← hexact]
  exact ⟨fun h => congrArg (·.raw.val) h.symm, fun h => ext_val h.symm⟩

/-- Half a unit times a thousand units falls short of five hundred; a thousand
units times half a unit does not. -/
theorem half_times_thousand :
    let half : TensionValue := ⟨I128.saturate (scale / 2)⟩
    let thousand := TensionValue.fromInteger 1000
    exactProduct half thousand = 500 * scale
      ∧ (half.mulFp thousand).raw.val = 340282366920938463463
      ∧ half.mulFp thousand ≠ thousand.mulFp half := by
  decide +kernel

/-! ## Simple factors -/

theorem signum_of_nonneg {x : Int} (h : 0 ≤ x) : signum x = 1 := if_neg (not_lt.mpr h)

/-- One unit. -/
theorem one_mulFp {a b : TensionValue} (ha : a.raw.val = scale) (hb : 0 ≤ b.raw.val) :
    (a.mulFp b).raw.val = b.raw.val := by
  have hmax := b.raw.le_max
  have habs : a.raw.val.natAbs = scale.toNat := by rw [ha]; rfl
  have hlimit : b.raw.val.natAbs ≤ u128Max := by
    unfold u128Max
    omega
  rw [mulFp_val, signum_of_nonneg (ha.symm ▸ by decide), signum_of_nonneg hb, magnitude, habs,
    SplitProduct.product_self scale_toNat_pos hlimit]
  omega

/-- Less than a unit, times at most a unit. -/
theorem mulFp_of_lt_one {a b : TensionValue} (ha : 0 ≤ a.raw.val) (hlt : a.raw.val < scale)
    (hb : 0 ≤ b.raw.val) (hle : b.raw.val ≤ scale) :
    (a.mulFp b).raw.val = a.raw.val * b.raw.val / scale := by
  obtain ⟨m, hm⟩ := Int.eq_ofNat_of_zero_le ha
  obtain ⟨n, hn⟩ := Int.eq_ofNat_of_zero_le hb
  rw [mulFp_val, signum_of_nonneg ha, signum_of_nonneg hb, hm, hn, Int.natAbs_natCast,
    Int.natAbs_natCast, magnitude]
  rw [hm] at hlt
  rw [hn] at hle
  have hproduct : m * n ≤ scale.toNat * scale.toNat :=
    Nat.mul_le_mul (by unfold scale at *; omega) (by unfold scale at *; omega)
  have hsmall : m * n ≤ u128Max := hproduct.trans (by decide)
  have hquotient : m * n / scale.toNat ≤ scale.toNat := Nat.div_le_of_le_mul hproduct
  have hcap : m * n / scale.toNat ≤ 2 ^ 127 - 1 := hquotient.trans (by decide)
  have hdiv : (m : Int) * n / scale = (m * n / scale.toNat : Nat) := rfl
  rw [SplitProduct.product_of_lt (by unfold scale at *; omega), min_eq_left hsmall,
    min_eq_left (hcap.trans (by decide)), min_eq_left hcap, hdiv, Int.one_mul, Int.one_mul]

/-! ## Monotonicity -/

theorem signum_mul_magnitude_mono (a : Nat) {x y : Int} (h : x ≤ y) :
    signum x * magnitude a x.natAbs ≤ signum y * magnitude a y.natAbs := by
  unfold signum
  split_ifs with hx hy hy
  · have hle : magnitude a y.natAbs ≤ magnitude a x.natAbs := magnitude_mono (by omega)
    omega
  · omega
  · omega
  · have hle : magnitude a x.natAbs ≤ magnitude a y.natAbs := magnitude_mono (by omega)
    omega

/-- Upwards for a factor that is not negative. -/
theorem mulFp_le_mulFp {a b c : TensionValue} (ha : 0 ≤ a.raw.val) (h : b ≤ c) :
    a.mulFp b ≤ a.mulFp c := by
  show (a.mulFp b).raw.val ≤ (a.mulFp c).raw.val
  rw [mulFp_val, mulFp_val, signum_of_nonneg ha, Int.one_mul, Int.one_mul]
  exact signum_mul_magnitude_mono _ h

/-- Downwards for a negative one. -/
theorem mulFp_le_mulFp_of_neg {a b c : TensionValue} (ha : a.raw.val < 0) (h : b ≤ c) :
    a.mulFp c ≤ a.mulFp b := by
  show (a.mulFp c).raw.val ≤ (a.mulFp b).raw.val
  have hsign : signum a.raw.val = -1 := if_pos ha
  rw [mulFp_val, mulFp_val, hsign]
  simp only [Int.neg_mul, Int.one_mul]
  exact neg_le_neg (signum_mul_magnitude_mono _ h)

end TensionValue

end Sccgub
