import Mathlib

/-!
# Powers with truncated products

Products of numbers scaled by `scale`, each rounded down, and the power taken
from them by squaring.  `Below v x e` says that `v` falls short of the exact `x`
by at most `e`; every product adds what its factors fall short and one more.

The `n`th power of a fraction falls short by at most `n - 1`, whatever way the
exponent is put together.
-/

namespace TruncatedPower

variable {scale : ℕ}

def product (scale a b : ℕ) : ℕ := a * b / scale

/-- Short of the exact value by at most an error. -/
def Below (v : ℕ) (x e : ℚ) : Prop := (v : ℚ) ≤ x ∧ x ≤ v + e

theorem Below.mono {v : ℕ} {x d e : ℚ} (h : Below v x d) (hle : d ≤ e) : Below v x e :=
  ⟨h.1, h.2.trans (by linarith)⟩

theorem below_self (v : ℕ) : Below v v 0 := ⟨le_refl _, by linarith⟩

/-- A product with a fraction of the scale. -/
theorem Below.product (hscale : 0 < scale) {u v : ℕ} {x y d e : ℚ} (hu : Below u x d)
    (hv : Below v (y * scale) e) (hy : 0 ≤ y) (hy1 : y ≤ 1) :
    Below (product scale u v) (x * y) (d + u * e / scale + 1) := by
  have hs : (0 : ℚ) < scale := by exact_mod_cast hscale
  have hu0 : (0 : ℚ) ≤ u := Nat.cast_nonneg u
  have hd : 0 ≤ d := by linarith [hu.1, hu.2]
  have hfloor : (TruncatedPower.product scale u v : ℚ) ≤ u * v / scale := by
    have := @Nat.cast_div_le ℚ _ _ _ (u * v) scale
    rwa [Nat.cast_mul] at this
  have hceil : (u * v / scale : ℚ) ≤ TruncatedPower.product scale u v + 1 := by
    rw [div_le_iff₀ hs]
    have hlt : u * v < (u * v / scale + 1) * scale := by
      rw [Nat.mul_comm (_ + 1)]
      exact Nat.lt_mul_div_succ _ hscale
    exact_mod_cast hlt.le
  have hvle : (v : ℚ) / scale ≤ y := by rw [div_le_iff₀ hs]; exact hv.1
  have hyle : y ≤ v / scale + e / scale := by
    rw [← add_div, le_div_iff₀ hs]
    exact hv.2
  constructor
  · calc (TruncatedPower.product scale u v : ℚ) ≤ u * (v / scale) := by
          rw [← mul_div_assoc]
          exact hfloor
      _ ≤ x * y := mul_le_mul hu.1 hvle (by positivity) (hu0.trans hu.1)
  · calc x * y ≤ (u + d) * y := mul_le_mul_of_nonneg_right hu.2 hy
      _ ≤ u * y + d := by nlinarith
      _ ≤ u * (v / scale + e / scale) + d := by gcongr
      _ = u * v / scale + u * e / scale + d := by ring
      _ ≤ TruncatedPower.product scale u v + (d + u * e / scale + 1) := by linarith

/-! ## Powers -/

/-- A power of the fraction, short by one less than the exponent; the power zero
is the scale. -/
def IsPower (scale : ℕ) (fraction : ℚ) (v n : ℕ) : Prop :=
  Below v (fraction ^ n * scale) ((n - 1 : ℕ) : ℚ) ∧ (n = 0 → v = scale)

/-- `while e > 0`, on fuel. -/
def loop (scale : ℕ) : ℕ → ℕ → ℕ → ℕ → ℕ
  | 0, result, _, _ => result
  | fuel + 1, result, b, e =>
      if e = 0 then result
      else loop scale fuel (if e % 2 = 1 then product scale result b else result)
        (product scale b b) (e / 2)

section

variable {fraction : ℚ} (hscale : 0 < scale) (h0 : 0 ≤ fraction) (h1 : fraction ≤ 1)

include h0 h1 in
theorem IsPower.le_scale {v n : ℕ} (h : IsPower scale fraction v n) : v ≤ scale := by
  have hpow : fraction ^ n * scale ≤ 1 * scale :=
    mul_le_mul_of_nonneg_right (pow_le_one₀ h0 h1) (Nat.cast_nonneg _)
  have hle := h.1.1.trans hpow
  rw [one_mul] at hle
  exact_mod_cast hle

include hscale h0 h1

theorem IsPower.product {u v i j : ℕ} (hu : IsPower scale fraction u i)
    (hv : IsPower scale fraction v j) (hj : 1 ≤ j) :
    IsPower scale fraction (product scale u v) (i + j) := by
  have hs : (0 : ℚ) < scale := by exact_mod_cast hscale
  refine ⟨?_, fun h => by omega⟩
  rcases Nat.eq_zero_or_pos i with rfl | hi
  · rw [hu.2 rfl, TruncatedPower.product, Nat.mul_div_cancel_left _ hscale, Nat.zero_add]
    exact hv.1
  · have hle : (u : ℚ) ≤ scale := by exact_mod_cast hu.le_scale h0 h1
    have hproduct := hu.1.product hscale hv.1 (pow_nonneg h0 j) (pow_le_one₀ h0 h1)
    have hshort : (u : ℚ) * ((j - 1 : ℕ) : ℚ) / scale ≤ ((j - 1 : ℕ) : ℚ) := by
      rw [div_le_iff₀ hs, mul_comm]
      exact mul_le_mul_of_nonneg_left hle (Nat.cast_nonneg _)
    have hsum : ((i - 1 : ℕ) : ℚ) + ((j - 1 : ℕ) : ℚ) + 1 = ((i + j - 1 : ℕ) : ℚ) := by
      have : i - 1 + (j - 1) + 1 = i + j - 1 := by omega
      exact_mod_cast this
    have hexact : fraction ^ i * scale * fraction ^ j = fraction ^ (i + j) * scale := by ring
    rw [hexact] at hproduct
    exact hproduct.mono (by linarith)

/-- What the loop has still to multiply in is the power of the base that the
exponent counts. -/
theorem isPower_loop {fuel result b e i j : ℕ} (hfuel : e < 2 ^ fuel)
    (hresult : IsPower scale fraction result i) (hb : IsPower scale fraction b j) (hj : 1 ≤ j) :
    IsPower scale fraction (loop scale fuel result b e) (i + j * e) := by
  induction fuel generalizing result b e i j with
  | zero =>
      obtain rfl : e = 0 := by omega
      exact hresult
  | succ fuel ih =>
      unfold loop
      by_cases he : e = 0
      · rw [if_pos he, he]
        exact hresult
      · rw [if_neg he]
        have hsquare := hb.product hscale h0 h1 hb hj
        have hhalf : e / 2 < 2 ^ fuel := by omega
        by_cases hodd : e % 2 = 1
        · rw [if_pos hodd]
          have hnext := ih hhalf (hresult.product hscale h0 h1 hb hj) hsquare (by omega)
          have hcount : i + j + (j + j) * (e / 2) = i + j * e := by
            have hsplit : e = 2 * (e / 2) + 1 := by omega
            conv_rhs => rw [hsplit]
            ring
          rwa [hcount] at hnext
        · rw [if_neg hodd]
          have hnext := ih hhalf hresult hsquare (by omega)
          have hcount : i + (j + j) * (e / 2) = i + j * e := by
            have hsplit : e = 2 * (e / 2) := by omega
            conv_rhs => rw [hsplit]
            ring
          rwa [hcount] at hnext

end

/-- The power of a base by squaring. -/
theorem isPower_power {base fuel n : ℕ} (hscale : 0 < scale) (hbase : base ≤ scale)
    (hfuel : n < 2 ^ fuel) :
    IsPower scale ((base : ℚ) / scale) (loop scale fuel scale base n) n := by
  have hs : (0 : ℚ) < scale := by exact_mod_cast hscale
  have h0 : (0 : ℚ) ≤ base / scale := by positivity
  have h1 : (base : ℚ) / scale ≤ 1 := by
    rw [div_le_one₀ hs]
    exact_mod_cast hbase
  have hone : IsPower scale ((base : ℚ) / scale) scale 0 := by
    refine ⟨?_, fun _ => rfl⟩
    rw [pow_zero, one_mul]
    exact (below_self scale).mono (Nat.cast_nonneg _)
  have hfirst : IsPower scale ((base : ℚ) / scale) base 1 := by
    refine ⟨?_, fun h => absurd h one_ne_zero⟩
    rw [pow_one, div_mul_cancel₀ _ hs.ne']
    exact (below_self base).mono (Nat.cast_nonneg _)
  have hpower := isPower_loop hscale h0 h1 hfuel hone hfirst le_rfl
  rwa [Nat.zero_add, Nat.one_mul] at hpower

/-! ## A value that decays -/

/-- A power is multiplied in unless nothing has passed. -/
def decay (scale power n v : ℕ) : ℕ := if n = 0 then v else product scale v power

/-- What is at most one counts for nothing. -/
def prune (v : ℕ) : ℕ := if 1 < v then v else 0

theorem prune_le (v : ℕ) : prune v ≤ v := by
  unfold prune
  split_ifs <;> omega

theorem decay_le {power n v : ℕ} (h : power ≤ scale) :
    decay scale power n v ≤ v := by
  unfold decay
  split_ifs
  · exact le_rfl
  · exact Nat.div_le_of_le_mul (by rw [Nat.mul_comm]; exact Nat.mul_le_mul_right _ h)

theorem Below.prune {v : ℕ} {x e : ℚ} (h : Below v x e) : Below (prune v) x (e + 1) := by
  have hv : (v : ℚ) ≤ TruncatedPower.prune v + 1 := by
    have : v ≤ TruncatedPower.prune v + 1 := by
      unfold TruncatedPower.prune
      split_ifs <;> omega
    exact_mod_cast this
  have hle : (TruncatedPower.prune v : ℚ) ≤ v := by exact_mod_cast prune_le v
  exact ⟨hle.trans h.1, h.2.trans (by linarith)⟩

/-- One decay over `n` adds at most `n` times a unit more than the value has whole
units. -/
theorem Below.decay {fraction x e : ℚ} {v r n power : ℕ} (hscale : 0 < scale) (h0 : 0 ≤ fraction)
    (h1 : fraction ≤ 1) (h : Below v x e) (hpower : IsPower scale fraction power n) (hv : v ≤ r) :
    Below (decay scale power n v) (x * fraction ^ n) (e + n * (r / scale + 1 : ℕ)) := by
  unfold TruncatedPower.decay
  rcases Nat.eq_zero_or_pos n with rfl | hn
  · rw [if_pos rfl, pow_zero, mul_one]
    exact h.mono (by simp)
  · have hs : (0 : ℚ) < scale := by exact_mod_cast hscale
    have hn1 : ((n - 1 : ℕ) : ℚ) = n - 1 := by rw [Nat.cast_sub hn, Nat.cast_one]
    have hfew : (0 : ℚ) ≤ ((n - 1 : ℕ) : ℚ) := Nat.cast_nonneg _
    have hunits : (v : ℚ) / scale ≤ (r / scale + 1 : ℕ) := by
      rw [div_le_iff₀ hs]
      have hlt : v ≤ (r / scale + 1) * scale := by
        rw [Nat.mul_comm]
        exact (hv.trans_lt (Nat.lt_mul_div_succ r hscale)).le
      exact_mod_cast hlt
    have hone : (1 : ℚ) ≤ (r / scale + 1 : ℕ) := by exact_mod_cast Nat.le_add_left 1 _
    rw [if_neg hn.ne']
    refine (h.product hscale hpower.1 (pow_nonneg h0 n) (pow_le_one₀ h0 h1)).mono ?_
    calc e + v * ((n - 1 : ℕ) : ℚ) / scale + 1 = e + v / scale * ((n - 1 : ℕ) : ℚ) + 1 := by ring
      _ ≤ e + (r / scale + 1 : ℕ) * ((n - 1 : ℕ) : ℚ) + 1 := by gcongr
      _ ≤ e + n * (r / scale + 1 : ℕ) := by rw [hn1]; linarith

end TruncatedPower
