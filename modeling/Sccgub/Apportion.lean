import Mathlib

/-!
# Apportionment by rounding down

A whole divided in proportion to weights, each part rounded down.  The parts add
up to at most the whole, and short of it by less than their number; they add up
to the whole exactly if no part is rounded.

Where the weights were rounded down themselves, and a part is then taken of all
the parts together, no part is off by more than what all the roundings lose.
-/

namespace Apportion

variable {whole : ℕ} {weights : List ℕ}

def quotas (whole : ℕ) (weights : List ℕ) : List ℕ :=
  weights.map fun w => w * whole / weights.sum

/-- The quotients and the remainders of a list make up its sum. -/
theorem sum_div_mul_add_sum_mod (l : List ℕ) (b : ℕ) :
    (l.map (· / b)).sum * b + (l.map (· % b)).sum = l.sum := by
  induction l with
  | nil => simp
  | cons a l ih =>
      have ha := Nat.div_add_mod a b
      simp only [List.map_cons, List.sum_cons]
      calc (a / b + (l.map (· / b)).sum) * b + (a % b + (l.map (· % b)).sum)
          = (b * (a / b) + a % b) + ((l.map (· / b)).sum * b + (l.map (· % b)).sum) := by ring
        _ = a + l.sum := by rw [ha, ih]

theorem quotas_eq (whole : ℕ) (weights : List ℕ) :
    quotas whole weights = (weights.map (· * whole)).map (· / weights.sum) := by
  rw [quotas, List.map_map]
  rfl

theorem sum_map_mul (l : List ℕ) (c : ℕ) : (l.map (· * c)).sum = l.sum * c := by
  induction l with
  | nil => simp
  | cons a l ih => rw [List.map_cons, List.sum_cons, List.sum_cons, ih, Nat.add_mul]

/-- What the parts leave of the whole, times the sum of the weights. -/
theorem sum_quotas_mul (whole : ℕ) (weights : List ℕ) :
    (quotas whole weights).sum * weights.sum
        + (weights.map (· * whole % weights.sum)).sum = weights.sum * whole := by
  have hsplit := sum_div_mul_add_sum_mod (weights.map (· * whole)) weights.sum
  rw [sum_map_mul, ← quotas_eq, List.map_map] at hsplit
  exact hsplit

theorem sum_quotas_le (h : 0 < weights.sum) : (quotas whole weights).sum ≤ whole := by
  have hsplit := sum_quotas_mul whole weights
  refine Nat.le_of_mul_le_mul_right ?_ h
  rw [Nat.mul_comm whole]
  omega

/-- Nothing is lost exactly if nothing is rounded. -/
theorem sum_quotas_eq_iff (h : 0 < weights.sum) :
    (quotas whole weights).sum = whole ↔ ∀ w ∈ weights, weights.sum ∣ w * whole := by
  have hsplit := sum_quotas_mul whole weights
  have hrest : (quotas whole weights).sum = whole
      ↔ (weights.map (· * whole % weights.sum)).sum = 0 := by
    constructor
    · intro heq
      rw [heq, Nat.mul_comm] at hsplit
      omega
    · intro hzero
      rw [hzero, Nat.add_zero, Nat.mul_comm weights.sum] at hsplit
      exact Nat.eq_of_mul_eq_mul_right h hsplit
  rw [hrest, List.sum_eq_zero_iff]
  simp [Nat.dvd_iff_mod_eq_zero]

/-! ## Weights that were rounded -/

/-- A weight of the list, rounded down to wholes, its part, and that part of all
the parts together. -/
structure Rounded (whole : ℕ) (exact : List ℕ) (w part final : ℕ) : Prop where
  mem : w ∈ exact
  part_eq : part = w / whole * whole / (exact.map (· / whole)).sum
  final_eq : final = part * whole / (quotas whole (exact.map (· / whole))).sum

namespace Rounded

variable {exact : List ℕ} {w part final : ℕ}

/-- What one weight loses to both roundings is at most what all of them lose. -/
theorem le_add_rest (h : Rounded whole exact w part final) :
    w + (quotas whole (exact.map (· / whole))).sum * (exact.map (· / whole)).sum
      ≤ part * (exact.map (· / whole)).sum + exact.sum := by
  have hwhole := sum_div_mul_add_sum_mod exact whole
  have hparts := sum_quotas_mul whole (exact.map (· / whole))
  rw [List.map_map] at hparts
  have hone : w % whole ≤ (exact.map (· % whole)).sum :=
    List.single_le_sum (fun _ _ => Nat.zero_le _) _ (List.mem_map_of_mem h.mem)
  have htwo : w / whole * whole % (exact.map (· / whole)).sum
      ≤ (exact.map ((· * whole % (exact.map (· / whole)).sum) ∘ (· / whole))).sum := by
    refine List.single_le_sum (fun _ _ => Nat.zero_le _) _ ?_
    exact List.mem_map.mpr ⟨w, h.mem, rfl⟩
  have hw := Nat.div_add_mod' w whole
  have hpart := Nat.div_add_mod' (w / whole * whole) (exact.map (· / whole)).sum
  rw [← h.part_eq] at hpart
  omega

theorem part_le (h : Rounded whole exact w part final) :
    part ≤ (quotas whole (exact.map (· / whole))).sum := by
  rw [h.part_eq]
  exact List.single_le_sum (fun _ _ => Nat.zero_le _) _
    (List.mem_map_of_mem (List.mem_map_of_mem h.mem))

theorem part_mul_le (h : Rounded whole exact w part final) :
    part * (exact.map (· / whole)).sum ≤ w := by
  rw [h.part_eq]
  exact (Nat.div_mul_le_self _ _).trans (Nat.div_mul_le_self w whole)

/-- Where the parts and the mean lose no more than `slack` means, no part is off
by more than `slack`. -/
theorem abs_sub_le {slack : ℕ} (h : Rounded whole exact w part final)
    (hmean : 0 < (exact.map (· / whole)).sum)
    (hparts : 0 < (quotas whole (exact.map (· / whole))).sum)
    (hslack : exact.sum
      ≤ ((quotas whole (exact.map (· / whole))).sum + slack) * (exact.map (· / whole)).sum) :
    |(final : ℚ) - w * whole / exact.sum| ≤ slack := by
  have hrest := h.le_add_rest
  have hpartLe := h.part_le
  have hpartMul := h.part_mul_le
  have htotalLe := @sum_quotas_le whole _ hmean
  have hexact : (exact.map (· / whole)).sum * whole ≤ exact.sum := by
    have hsplit := sum_div_mul_add_sum_mod exact whole
    omega
  have hfinal : final * (quotas whole (exact.map (· / whole))).sum ≤ part * whole := by
    rw [h.final_eq]
    exact Nat.div_mul_le_self _ _
  have hpartFinal : part ≤ final := by
    rw [h.final_eq]
    exact (Nat.le_div_iff_mul_le hparts).mpr (Nat.mul_le_mul_left _ htotalLe)
  generalize (quotas whole (exact.map (· / whole))).sum = total at *
  generalize (exact.map (· / whole)).sum = mean at *
  have hfinalLe : final ≤ whole := by
    refine Nat.le_of_mul_le_mul_right ?_ hparts
    calc final * total ≤ part * whole := hfinal
      _ ≤ total * whole := Nat.mul_le_mul_right _ hpartLe
      _ = whole * total := Nat.mul_comm _ _
  have hwLe : w ≤ (part + slack) * mean := by
    rw [Nat.add_mul] at hslack ⊢
    omega
  have hupper : w * whole ≤ (final + slack) * exact.sum := by
    calc w * whole ≤ (part + slack) * mean * whole := Nat.mul_le_mul_right _ hwLe
      _ = (part + slack) * (mean * whole) := Nat.mul_assoc _ _ _
      _ ≤ (final + slack) * exact.sum :=
        Nat.mul_le_mul (Nat.add_le_add_right hpartFinal _) hexact
  have hlower : final * exact.sum ≤ w * whole + slack * exact.sum := by
    calc final * exact.sum ≤ final * ((total + slack) * mean) := Nat.mul_le_mul_left _ hslack
      _ = final * total * mean + slack * (mean * final) := by ring
      _ ≤ part * whole * mean + slack * (mean * whole) :=
        Nat.add_le_add (Nat.mul_le_mul_right _ hfinal)
          (Nat.mul_le_mul_left _ (Nat.mul_le_mul_left _ hfinalLe))
      _ = part * mean * whole + slack * (mean * whole) := by ring
      _ ≤ w * whole + slack * exact.sum :=
        Nat.add_le_add (Nat.mul_le_mul_right _ hpartMul) (Nat.mul_le_mul_left _ hexact)
  have hpos : 0 < exact.sum := by
    have hwhole : 0 < whole := hparts.trans_le htotalLe
    exact (Nat.mul_pos hmean hwhole).trans_le hexact
  have hposQ : (0 : ℚ) < exact.sum := by exact_mod_cast hpos
  have hupperQ : (w : ℚ) * whole ≤ (final + slack) * exact.sum := by exact_mod_cast hupper
  have hlowerQ : (final : ℚ) * exact.sum ≤ w * whole + slack * exact.sum := by
    exact_mod_cast hlower
  have hle : (w : ℚ) * whole / exact.sum ≤ final + slack := (div_le_iff₀ hposQ).mpr hupperQ
  have hge : (final : ℚ) - slack ≤ w * whole / exact.sum := by
    refine (le_div_iff₀ hposQ).mpr ?_
    rw [sub_mul]
    linarith
  rw [abs_le]
  constructor <;> linarith

end Rounded

end Apportion
