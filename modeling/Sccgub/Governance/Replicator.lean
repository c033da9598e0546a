import Mathlib
import Sccgub.Governance.Norms

/-!
# Replicator dynamics

What an epoch does to the shares, over the natural numbers, and against the
exact `p * F / Σ p * F` of them.

The sum is the whole exactly if the last stage has nothing to round.  The shares
are close to the exact ones where no stage saturates and the roundings of the
first two lose little of the mean.
-/

namespace Sccgub

open FixedWidth

/-- The product of share and fitness, exact. -/
def Norm.weight (norm : Norm) : ℕ :=
  norm.populationShare.raw.val.toNat * norm.clampedFitness.raw.val.toNat

namespace NormRegistry

/-! ## The stages -/

def weights (self : NormRegistry) : List ℕ := self.active.map Norm.weight

def numerators (self : NormRegistry) : List ℕ :=
  self.active.map fun norm => norm.numerator.raw.val.toNat

def mean (self : NormRegistry) : ℕ := min self.numerators.sum (2 ^ 127 - 1)

/-- The quotient by the mean, whole part and remainder scaled apart. -/
def part (self : NormRegistry) (numerator : ℕ) : ℕ :=
  min (SplitProduct.product self.mean (2 ^ 127 - 1) numerator TensionValue.scale.toNat)
    TensionValue.scale.toNat

def parts (self : NormRegistry) : List ℕ := self.numerators.map self.part

def shares (self : NormRegistry) : List Int := self.active.map (·.populationShare.raw.val)

theorem parts_eq (self : NormRegistry) :
    self.parts = self.active.map fun norm => self.part norm.numerator.raw.val.toNat :=
  List.map_map

theorem natCast_sum_map {α : Type} (l : List α) (f : α → ℕ) :
    (((l.map f).sum : ℕ) : Int) = (l.map fun a => (f a : Int)).sum := by
  rw [Nat.cast_list_sum, List.map_map]
  rfl

theorem numerator_toNat {norm : Norm} (h : 0 ≤ norm.populationShare.raw.val) :
    (norm.numerator.raw.val.toNat : Int) = norm.numerator.raw.val :=
  Int.toNat_of_nonneg (numerator_nonneg h)

theorem meanFitness_eq_mean {self : NormRegistry} (hshares : self.SharesInRange) :
    (meanFitness self.active).raw.val = self.mean := by
  have hsum : (self.active.map fun norm => norm.numerator.raw.val).sum
      = (self.numerators.sum : Int) := by
    rw [numerators, natCast_sum_map]
    refine congrArg List.sum (List.map_congr_left fun norm hnorm => ?_)
    exact (numerator_toNat (hshares norm hnorm).1).symm
  rw [meanFitness_val fun norm hnorm => (hshares norm hnorm).1, hsum, mean]
  omega

theorem stageTwo_eq_part {self : NormRegistry} (hshares : self.SharesInRange)
    (hmean : 0 < self.mean) {norm : Norm} (h : norm ∈ self.active) :
    (self.stageTwo norm).raw.val = self.part norm.numerator.raw.val.toNat := by
  have hscale := TensionValue.scale_eq_toNat
  have hmax : TensionValue.scale.toNat ≤ 2 ^ 127 - 1 := by decide
  have hne : (self.mean : Int) ≠ 0 := by omega
  unfold stageTwo nextShare
  simp only
  rw [meanFitness_eq_mean hshares, if_pos hne, ← numerator_toNat (hshares norm h).1,
    TensionValue.splitQuotient_val, Int.toNat_natCast, part, I128.val_saturate]
  omega

theorem stageTotal_eq_sum {self : NormRegistry} (hshares : self.SharesInRange)
    (hmean : 0 < self.mean) : self.stageTotal = (self.parts.sum : Int) := by
  rw [stageTotal, parts_eq, natCast_sum_map]
  refine congrArg List.sum (List.map_congr_left fun norm hnorm => ?_)
  exact stageTwo_eq_part hshares hmean hnorm

theorem evolvedShare_eq_quota {self : NormRegistry} (hshares : self.SharesInRange)
    (hmean : 0 < self.mean) (hparts : 0 < self.parts.sum) {norm : Norm} (h : norm ∈ self.active) :
    (self.evolvedShare norm).raw.val
      = (self.part norm.numerator.raw.val.toNat * TensionValue.scale.toNat / self.parts.sum
          : ℕ) := by
  obtain ⟨h0, h1⟩ := self.stageTwo_range norm
  have hle := stageTwo_le_stageTotal h
  have htotal := stageTotal_eq_sum hshares hmean
  have hpos : 0 < self.stageTotal := by omega
  rw [evolvedShare, if_pos hpos, renormalized_val h0 h1 hle hpos, htotal,
    stageTwo_eq_part hshares hmean h, Int.natCast_ediv, Nat.cast_mul,
    ← TensionValue.scale_eq_toNat]

theorem shares_evolveEpoch {self : NormRegistry} (hshares : self.SharesInRange)
    (hmean : 0 < self.mean) :
    self.evolveEpoch.shares = self.active.map fun norm => (self.evolvedShare norm).raw.val := by
  have hpos : 0 < (meanFitness self.active).raw.val := by
    rw [meanFitness_eq_mean hshares]
    omega
  rw [evolveEpoch_eq hpos, shares, active_withShares, List.map_map]
  rfl

/-! ## The sum -/

/-- No share is left for a registry larger than the scale. -/
theorem scale_lt_length {self : NormRegistry} (hmean : 0 < self.mean)
    (hparts : self.parts.sum = 0) : TensionValue.scale.toNat < self.active.length := by
  have hscale : 0 < TensionValue.scale.toNat := by decide
  generalize hs : TensionValue.scale.toNat = scale at hscale
  have hsmall : ∀ n ∈ self.numerators, n * scale ≤ self.mean - 1 := by
    intro n hn
    have hpart : self.part n = 0 := List.sum_eq_zero_iff.mp hparts _ (List.mem_map_of_mem hn)
    rw [part, hs, SplitProduct.product] at hpart
    obtain ⟨hwhole, hfrac⟩ : n / self.mean * scale = 0
        ∧ min (n % self.mean * scale) (2 ^ 127 - 1) / self.mean = 0 := by
      generalize n / self.mean * scale = whole at hpart ⊢
      generalize min (n % self.mean * scale) (2 ^ 127 - 1) / self.mean = frac at hpart ⊢
      omega
    have hlt : n < self.mean := by
      rcases Nat.mul_eq_zero.mp hwhole with h | h
      · exact (Nat.div_eq_zero_iff_lt hmean).mp h
      · omega
    have hle : self.mean ≤ 2 ^ 127 - 1 := min_le_right _ _
    rw [Nat.mod_eq_of_lt hlt, Nat.div_eq_zero_iff_lt hmean] at hfrac
    omega
  have hsum := List.sum_le_card_nsmul (self.numerators.map (· * scale)) (self.mean - 1) (by
    intro x hx
    obtain ⟨n, hn, rfl⟩ := List.mem_map.mp hx
    exact hsmall n hn)
  have hmeanLe : self.mean ≤ self.numerators.sum := min_le_left _ _
  have hlength : self.numerators.length = self.active.length := List.length_map _
  rw [Apportion.sum_map_mul, List.length_map, hlength, smul_eq_mul] at hsum
  have hpos : 0 < self.active.length := by
    rcases Nat.eq_zero_or_pos self.active.length with h | h
    · rw [h, Nat.zero_mul] at hsum
      have := Nat.mul_pos (hmean.trans_le hmeanLe) hscale
      omega
    · exact h
  refine Nat.lt_of_mul_lt_mul_left (a := self.mean) ?_
  calc self.mean * scale ≤ self.numerators.sum * scale := Nat.mul_le_mul_right _ hmeanLe
    _ ≤ self.active.length * (self.mean - 1) := hsum
    _ < self.active.length * self.mean := Nat.mul_lt_mul_of_pos_left (by omega) hpos
    _ = self.mean * self.active.length := Nat.mul_comm _ _

/-- The last stage has nothing to round.  Without a mean it is not reached, and
the shares are those before. -/
def Divides (self : NormRegistry) : Prop :=
  if self.mean = 0 then self.shares.sum = TensionValue.scale
  else 0 < self.parts.sum
    ∧ ∀ part ∈ self.parts, self.parts.sum ∣ part * TensionValue.scale.toNat

instance (self : NormRegistry) : Decidable self.Divides :=
  inferInstanceAs (Decidable (if self.mean = 0 then self.shares.sum = TensionValue.scale
    else 0 < self.parts.sum
      ∧ ∀ part ∈ self.parts, self.parts.sum ∣ part * TensionValue.scale.toNat))

theorem sum_shares_of_parts {self : NormRegistry} (hshares : self.SharesInRange)
    (hmean : 0 < self.mean) (hparts : 0 < self.parts.sum) :
    self.evolveEpoch.shares.sum
      = ((Apportion.quotas TensionValue.scale.toNat self.parts).sum : ℕ) := by
  rw [shares_evolveEpoch hshares hmean, Apportion.quotas, natCast_sum_map]
  conv_rhs => rw [parts_eq, List.map_map, ← parts_eq]
  refine congrArg List.sum (List.map_congr_left fun norm hnorm => ?_)
  simp only [Function.comp_apply]
  exact evolvedShare_eq_quota hshares hmean hparts hnorm

theorem sum_shares_of_no_parts {self : NormRegistry} (hshares : self.SharesInRange)
    (hmean : 0 < self.mean) (hparts : self.parts.sum = 0) : self.evolveEpoch.shares.sum = 0 := by
  have htotal := stageTotal_eq_sum hshares hmean
  have hlt := scale_lt_length hmean hparts
  have hshare : ∀ norm, (self.evolvedShare norm).raw.val = 0 := by
    intro norm
    have hnot : ¬self.stageTotal > 0 := by omega
    rw [evolvedShare, if_neg hnot, Int.tdiv_eq_zero_of_lt (by decide) (by omega)]
    rfl
  rw [shares_evolveEpoch hshares hmean]
  simp only [hshare, List.map_const', List.sum_replicate, smul_zero]

theorem sum_shares_eq_iff {self : NormRegistry} (hshares : self.SharesInRange) :
    self.evolveEpoch.shares.sum = TensionValue.scale ↔ self.Divides := by
  unfold Divides
  rcases Nat.eq_zero_or_pos self.mean with hmean | hmean
  · have hle : (meanFitness self.active).raw.val ≤ 0 := by
      rw [meanFitness_eq_mean hshares]
      omega
    rw [if_pos hmean, evolveEpoch_of_mean_le hle]
  · rw [if_neg hmean.ne']
    rcases Nat.eq_zero_or_pos self.parts.sum with hparts | hparts
    · have hne : (0 : Int) ≠ TensionValue.scale := by decide
      rw [sum_shares_of_no_parts hshares hmean hparts, hparts]
      exact ⟨fun h => absurd h hne, fun h => absurd h.1 (lt_irrefl 0)⟩
    · rw [sum_shares_of_parts hshares hmean hparts, ← Apportion.sum_quotas_eq_iff hparts,
        TensionValue.scale_eq_toNat, Nat.cast_inj]
      exact ⟨fun h => ⟨hparts, h⟩, fun h => h.2⟩

/-! ## The exact shares -/

def exactShare (self : NormRegistry) (norm : Norm) : ℚ :=
  norm.weight * TensionValue.scale.toNat / self.weights.sum

/-- Neither the products nor their sum nor the quotients saturate, and what the
first two stages lose is at most two means more than the active norms. -/
structure StaysExact (registry : NormRegistry) : Prop where
  products : ∀ norm ∈ registry.active,
    TensionValue.FractionFits norm.populationShare norm.clampedFitness
  sum : registry.numerators.sum ≤ 2 ^ 127 - 1
  quotients : ∀ n ∈ registry.numerators, SplitProduct.Fits registry.mean (2 ^ 127 - 1)
    TensionValue.scale.toNat n TensionValue.scale.toNat
  roundings : registry.weights.sum ≤ (registry.parts.sum + (registry.active.length + 2)) * registry.mean

/-- What the epoch is for. -/
structure Conserves (before after : NormRegistry) : Prop extends Keeps before after where
  sum : after.shares.sum = TensionValue.scale
  close : List.Forall₂ (fun entry entry' => entry.2.active = true →
    |(entry'.2.populationShare.raw.val : ℚ) - before.exactShare entry.2|
      ≤ before.active.length + 2) before.norms after.norms

/-- The product of a share with a fitness that fits. -/
theorem numerator_eq_div {norm : Norm} (h0 : 0 ≤ norm.populationShare.raw.val)
    (h1 : norm.populationShare.raw.val ≤ TensionValue.scale)
    (hfits : TensionValue.FractionFits norm.populationShare norm.clampedFitness) :
    norm.numerator.raw.val.toNat = norm.weight / TensionValue.scale.toNat := by
  have hfitness := clampedFitness_nonneg norm
  have hmax := norm.clampedFitness.raw.le_max
  have hexact := (TensionValue.mulFp_val_eq_iff _ _).mpr hfits
  rw [TensionValue.exactProduct_eq, TensionValue.signum_of_nonneg h0,
    TensionValue.signum_of_nonneg hfitness, Int.one_mul, Int.one_mul] at hexact
  have hle : norm.populationShare.raw.val.natAbs * norm.clampedFitness.raw.val.natAbs
      / TensionValue.scale.toNat ≤ 2 ^ 127 - 1 := by
    have hshare : norm.populationShare.raw.val.natAbs ≤ TensionValue.scale.toNat := by omega
    calc _ ≤ TensionValue.scale.toNat * norm.clampedFitness.raw.val.natAbs
          / TensionValue.scale.toNat := Nat.div_le_div_right (Nat.mul_le_mul_right _ hshare)
      _ = norm.clampedFitness.raw.val.natAbs :=
        Nat.mul_div_cancel_left _ TensionValue.scale_toNat_pos
      _ ≤ 2 ^ 127 - 1 := by omega
  rw [min_eq_left hle] at hexact
  rw [Norm.numerator, hexact, Int.toNat_natCast, Norm.weight, ← Int.toNat_of_nonneg h0,
    ← Int.toNat_of_nonneg hfitness]
  simp only [Int.natAbs_natCast, Int.toNat_natCast]

namespace StaysExact

variable {self : NormRegistry}

theorem mean_eq (h : self.StaysExact) : self.mean = self.numerators.sum := min_eq_left h.sum

theorem numerators_eq (h : self.StaysExact) (hshares : self.SharesInRange) :
    self.numerators = self.weights.map (· / TensionValue.scale.toNat) := by
  rw [numerators, weights, List.map_map]
  refine List.map_congr_left fun norm hnorm => ?_
  exact numerator_eq_div (hshares norm hnorm).1 (hshares norm hnorm).2 (h.products norm hnorm)

theorem part_eq (h : self.StaysExact) (hmean : 0 < self.mean) {n : ℕ}
    (hn : n ∈ self.numerators) :
    self.part n = n * TensionValue.scale.toNat / self.numerators.sum := by
  have hle : n ≤ self.mean := by
    rw [h.mean_eq]
    exact List.single_le_sum (fun _ _ => Nat.zero_le _) _ hn
  have hquotient : n * TensionValue.scale.toNat / self.mean ≤ TensionValue.scale.toNat :=
    Nat.div_le_of_le_mul (Nat.mul_le_mul_right _ hle)
  rw [part, (SplitProduct.min_product_eq_iff hmean (by decide)).mpr (h.quotients n hn),
    min_eq_left hquotient, h.mean_eq]

theorem parts_eq (h : self.StaysExact) (hmean : 0 < self.mean) :
    self.parts = Apportion.quotas TensionValue.scale.toNat self.numerators :=
  List.map_congr_left fun _ hn => h.part_eq hmean hn

/-- With a mean of zero the roundings would have lost everything. -/
theorem mean_pos (h : self.StaysExact) (hweights : 0 < self.weights.sum) : 0 < self.mean := by
  rcases Nat.eq_zero_or_pos self.mean with hmean | hmean
  · have hroundings := h.roundings
    rw [hmean, Nat.mul_zero] at hroundings
    omega
  · exact hmean

theorem close (h : self.StaysExact) (hshares : self.SharesInRange) (hmean : 0 < self.mean)
    (hparts : 0 < self.parts.sum) {norm : Norm} (hnorm : norm ∈ self.active) :
    |((self.evolvedShare norm).raw.val : ℚ) - self.exactShare norm| ≤ self.active.length + 2 := by
  have hnumerators := h.numerators_eq hshares
  have hmeanEq := h.mean_eq
  have hpartsEq := h.parts_eq hmean
  have hmem : norm.numerator.raw.val.toNat ∈ self.numerators := List.mem_map_of_mem hnorm
  have hrounded : Apportion.Rounded TensionValue.scale.toNat self.weights norm.weight
      (self.part norm.numerator.raw.val.toNat)
      (self.part norm.numerator.raw.val.toNat * TensionValue.scale.toNat / self.parts.sum) := by
    refine ⟨List.mem_map_of_mem hnorm, ?_, ?_⟩
    · rw [h.part_eq hmean hmem, hnumerators,
        numerator_eq_div (hshares norm hnorm).1 (hshares norm hnorm).2 (h.products norm hnorm)]
    · rw [← hnumerators, ← hpartsEq]
  have hroundings := h.roundings
  rw [hpartsEq, hmeanEq, hnumerators] at hroundings
  have hle := hrounded.abs_sub_le (by rwa [← hnumerators, ← hmeanEq])
    (by rwa [← hnumerators, ← hpartsEq]) hroundings
  rw [evolvedShare_eq_quota hshares hmean hparts hnorm, Int.cast_natCast]
  rw [Nat.cast_add, Nat.cast_ofNat] at hle
  exact hle

end StaysExact

theorem conserves_of_divides {self : NormRegistry} (hshares : self.SharesInRange)
    (hweights : 0 < self.weights.sum) (hexact : self.StaysExact) (hdivides : self.Divides) :
    Conserves self self.evolveEpoch where
  toKeeps := evolveEpoch_keeps hshares
  sum := (sum_shares_eq_iff hshares).mpr hdivides
  close := by
    have hmean := hexact.mean_pos hweights
    have hpos : 0 < (meanFitness self.active).raw.val := by
      rw [meanFitness_eq_mean hshares]
      omega
    rw [Divides, if_neg hmean.ne'] at hdivides
    rw [evolveEpoch_eq hpos]
    refine List.forall₂_map_right_iff.mpr (List.forall₂_same.mpr fun entry hentry hactive => ?_)
    rw [entryWithShare, if_pos hactive]
    refine hexact.close hshares hmean hdivides.1 ?_
    exact List.mem_map_of_mem (List.mem_filter.mpr ⟨hentry, hactive⟩)

/-- Shares stay in range, inactive norms as they are, and the order of the entries
does not matter.  The sum is the whole exactly if the last stage has nothing to
round; then the shares are close as well, if nothing saturates and the roundings
are small. -/
theorem evolveEpoch_conserves (self : NormRegistry) (hshares : self.SharesInRange)
    (hweights : 0 < self.weights.sum) :
    Keeps self self.evolveEpoch
      ∧ (self.evolveEpoch.shares.sum = TensionValue.scale ↔ self.Divides)
      ∧ (self.StaysExact → (Conserves self self.evolveEpoch ↔ self.Divides)) := by
  have hsum := sum_shares_eq_iff hshares
  refine ⟨evolveEpoch_keeps hshares, hsum, fun hexact => ⟨fun h => hsum.mp h.sum, fun h => ?_⟩⟩
  exact conserves_of_divides hshares hweights hexact h

/-- A share in percent and a fitness in units. -/
def normOf (id : UInt8) (percent fitness : Int) : NormId × Norm :=
  (Hash.ofByte id, ⟨Hash.ofByte id, "norm", "", .meaning,
    ⟨I128.saturate (percent * TensionValue.scale / 100)⟩,
    ⟨I128.saturate (fitness * TensionValue.scale)⟩, .zero, true, 0⟩)

/-- One norm three times as fit as the other. -/
def halves : NormRegistry where
  norms := [normOf 1 50 1, normOf 2 50 3]
  nodup := by decide

theorem evolveEpoch_halves : Conserves halves halves.evolveEpoch := by
  have hshares : halves.SharesInRange := by
    unfold SharesInRange
    decide +kernel
  have hexact : halves.StaysExact := by
    refine ⟨?_, ?_, ?_, ?_⟩ <;> decide +kernel
  exact ((evolveEpoch_conserves halves hshares (by decide +kernel)).2.2 hexact).mpr
    (by decide +kernel)

/-- Three norms with one product. -/
def thirds : NormRegistry where
  norms := [normOf 1 50 1, normOf 2 25 2, normOf 3 25 2]
  nodup := by decide

/-- As halves, but a thousand times as fit. -/
def thousands : NormRegistry where
  norms := [normOf 1 50 1000, normOf 2 50 3000]
  nodup := by decide

/-- The three thirds add up to one less than the whole.  Of the two others, whose
remainders saturate, one gets half of the whole where a quarter is exact. -/
theorem thirds_thousands_not_conserves :
    thirds.SharesInRange ∧ 0 < thirds.weights.sum
      ∧ thirds.evolveEpoch.shares.sum = TensionValue.scale - 1
      ∧ ¬Conserves thirds thirds.evolveEpoch
      ∧ thousands.SharesInRange ∧ 0 < thousands.weights.sum
      ∧ thousands.evolveEpoch.shares = [TensionValue.scale / 2, TensionValue.scale / 2]
      ∧ ¬Conserves thousands thousands.evolveEpoch := by
  have hthirds : thirds.evolveEpoch.shares.sum = TensionValue.scale - 1 := by decide +kernel
  have hshares : thousands.evolveEpoch.shares = [TensionValue.scale / 2, TensionValue.scale / 2] := by
    decide +kernel
  have hrange : thirds.SharesInRange ∧ thousands.SharesInRange := by
    unfold SharesInRange
    decide +kernel
  refine ⟨hrange.1, by decide +kernel, hthirds, ?_, hrange.2, by decide +kernel, hshares, ?_⟩
  · intro h
    exact absurd (h.sum.symm.trans hthirds) (by decide)
  · intro h
    have hclose := h.close
    have hnorms : thousands.evolveEpoch.norms
        = thousands.norms.map (entryWithShare fun _ => ⟨I128.saturate (10 ^ 18 / 2)⟩) := by
      decide +kernel
    rw [hnorms, thousands, List.map_cons, List.forall₂_cons] at hclose
    have hfirst := hclose.1 rfl
    have hshare : (entryWithShare (fun _ => ⟨I128.saturate (10 ^ 18 / 2)⟩)
        (normOf 1 50 1000)).2.populationShare.raw.val = 5 * 10 ^ 17 := by decide +kernel
    have hexact : exactShare thousands (normOf 1 50 1000).2
        = 5 * 10 ^ 38 * 10 ^ 18 / (2 * 10 ^ 39) := by
      have hweight : (normOf 1 50 1000).2.weight = 5 * 10 ^ 38 := by decide +kernel
      have hsum : thousands.weights.sum = 2 * 10 ^ 39 := by decide +kernel
      have hscale : TensionValue.scale.toNat = 10 ^ 18 := by decide
      rw [exactShare, hweight, hsum, hscale]
      norm_num
    have hlength : thousands.active.length = 2 := by decide +kernel
    change |((entryWithShare (fun _ => ⟨I128.saturate (10 ^ 18 / 2)⟩)
        (normOf 1 50 1000)).2.populationShare.raw.val : ℚ)
        - exactShare thousands (normOf 1 50 1000).2| ≤ thousands.active.length + 2 at hfirst
    rw [hshare, hexact, hlength] at hfirst
    norm_num [abs_le] at hfirst

end NormRegistry

end Sccgub
