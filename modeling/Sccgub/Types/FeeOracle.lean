import Mathlib
import Sccgub.OrderStatistics
import Sccgub.Types.Economics
import Sccgub.Types.FixedPoint

/-!
# The fee oracles

The single-block oracle against its formula `base · (1 + α · T / B)`.  The ratio
is formed by a multiplication by the scale that saturates before the division,
so above some 170 units of tension the fee stands still: `tensionTerm` is what
the oracle adds to the base fee, `largestTerm` the most it can add.

The median oracle against a minority of arbitrary samples: the median of the
window stays between honest ones, and the fee follows it monotonically however
its multiplications saturate.
-/

namespace Sccgub

open FixedWidth

namespace EconomicState

/-! ## The tension term -/

/-- What the oracle with its defaults adds to a base fee of one unit, in raw
units. -/
def tensionTerm (tension budget : Int) : Int :=
  min (tension * TensionValue.scale) (2 ^ 127 - 1) / (10 * budget)

/-- The most that the saturated multiplication leaves of it. -/
def largestTerm (budget : Int) : Int := (2 ^ 127 - 1) / (10 * budget)

variable {t t' b : Int}

theorem tensionTerm_of_le (h : t * TensionValue.scale ≤ 2 ^ 127 - 1) :
    tensionTerm t b = 10 ^ 17 * t / b := by
  have htenth : t * TensionValue.scale = 10 * (10 ^ 17 * t) := by
    rw [TensionValue.scale]
    ring
  rw [tensionTerm, min_eq_left h, htenth, Int.mul_ediv_mul_of_pos _ _ (by norm_num)]

theorem tensionTerm_of_lt (h : 2 ^ 127 - 1 < t * TensionValue.scale) :
    tensionTerm t b = largestTerm b := by
  rw [tensionTerm, min_eq_right h.le, largestTerm]

theorem tensionTerm_le_largestTerm (hb : 0 < b) : tensionTerm t b ≤ largestTerm b :=
  Int.ediv_le_ediv (by omega) (min_le_right _ _)

theorem tensionTerm_mul_le (hb : 0 < b) : tensionTerm t b * b ≤ 10 ^ 17 * t := by
  have hdiv : tensionTerm t b * (10 * b) ≤ t * TensionValue.scale :=
    (Int.ediv_mul_le _ (by omega)).trans (min_le_left _ _)
  rw [TensionValue.scale] at hdiv
  linarith

/-- Below the largest term the multiplication did not saturate. -/
theorem mul_lt_largestTerm_mul (hb : 0 < b) (h : 10 ^ 17 * t < largestTerm b * b) :
    t * TensionValue.scale ≤ 2 ^ 127 - 1 := by
  have hdiv : largestTerm b * (10 * b) ≤ 2 ^ 127 - 1 := Int.ediv_mul_le _ (by omega)
  rw [TensionValue.scale]
  linarith

/-- Within two of the exact term: for what the oracle computes, and for the most
that it can compute. -/
theorem lt_tensionTerm_add_two_iff (hb : 0 < b) :
    10 ^ 17 * t < (tensionTerm t b + 2) * b ↔ 10 ^ 17 * t < (largestTerm b + 2) * b := by
  constructor
  · intro h
    have hle := tensionTerm_le_largestTerm (t := t) hb
    nlinarith
  · intro h
    by_cases hfits : t * TensionValue.scale ≤ 2 ^ 127 - 1
    · rw [tensionTerm_of_le hfits]
      have hlt := Int.lt_ediv_add_one_mul_self (10 ^ 17 * t) hb
      linarith
    · rwa [tensionTerm_of_lt (not_le.mp hfits)]

/-- Two raw units more show, unless the term stands still. -/
theorem tensionTerm_lt_tensionTerm_iff (hb : 0 < b) (hgap : 2 * b ≤ 10 ^ 17 * (t' - t)) :
    tensionTerm t b < tensionTerm t' b ↔ 10 ^ 17 * t < largestTerm b * b := by
  constructor
  · intro h
    have hle := tensionTerm_le_largestTerm (t := t') hb
    by_cases hfits : t * TensionValue.scale ≤ 2 ^ 127 - 1
    · rw [tensionTerm_of_le hfits] at h
      exact (Int.ediv_lt_iff_lt_mul hb).mp (h.trans_le hle)
    · rw [tensionTerm_of_lt (not_le.mp hfits)] at h
      omega
  · intro h
    have hfits := mul_lt_largestTerm_mul hb h
    have hbelow : tensionTerm t b < largestTerm b := by
      rw [tensionTerm_of_le hfits]
      exact (Int.ediv_lt_iff_lt_mul hb).mpr h
    by_cases hfits' : t' * TensionValue.scale ≤ 2 ^ 127 - 1
    · rw [tensionTerm_of_le hfits, tensionTerm_of_le hfits']
      calc 10 ^ 17 * t / b < 10 ^ 17 * t / b + 2 := by omega
        _ = (10 ^ 17 * t + 2 * b) / b := (Int.add_mul_ediv_right _ _ hb.ne').symm
        _ ≤ 10 ^ 17 * t' / b := Int.ediv_le_ediv hb (by linarith)
    · rwa [tensionTerm_of_lt (not_le.mp hfits')]

/-! ## The single-block oracle -/

/-- The formula, over the rationals and in raw units. -/
def formulaFee (self : EconomicState) (tension budget : TensionValue) : ℚ :=
  self.baseFee.raw.val
    * (1 + self.alpha.raw.val / TensionValue.scale * (tension.raw.val / budget.raw.val))

/-- The defaults of the two weights; the counters do not matter. -/
structure DefaultWeights (econ : EconomicState) : Prop where
  baseFee : econ.baseFee = ({} : EconomicState).baseFee
  alpha : econ.alpha = ({} : EconomicState).alpha

/-- A tension within a budget that is within the default bounds. -/
structure Admitted (tension budget : TensionValue) : Prop where
  nonneg : 0 ≤ tension.raw.val
  budget_pos : 0 < budget.raw.val
  le_budget : tension.raw.val ≤ budget.raw.val
  le_max : budget.raw.val ≤ (TensionValue.fromInteger 10000).raw.val

variable {econ : EconomicState} {tension tension' budget : TensionValue}

/-- No step before the ratio's own multiplication loses anything but what the
divisions drop. -/
theorem effectiveFee_val (hecon : econ.DefaultWeights) (h : Admitted tension budget) :
    (econ.effectiveFee tension budget).raw.val
      = TensionValue.scale + tensionTerm tension.raw.val budget.raw.val := by
  have hnonneg := h.nonneg
  have hbudget := h.budget_pos
  have hle := h.le_budget
  -- the saturated product and the ratio, which is at most one unit
  let product : Int := min (tension.raw.val * TensionValue.scale) (2 ^ 127 - 1)
  let ratio : TensionValue := ⟨I128.saturate
    ((I128.saturate (tension.raw.val * TensionValue.scale)).val.tdiv budget.raw.val)⟩
  have hproduct : 0 ≤ product := le_min (mul_nonneg hnonneg (by decide)) (by decide)
  have hratio_nonneg : 0 ≤ product / budget.raw.val := Int.ediv_nonneg hproduct hbudget.le
  have hratio_le : product / budget.raw.val ≤ TensionValue.scale := by
    refine Int.ediv_le_of_le_mul hbudget ((min_le_left _ _).trans ?_)
    rw [Int.mul_comm TensionValue.scale]
    exact Int.mul_le_mul_of_nonneg_right hle (by decide)
  have hratio : ratio.raw.val = product / budget.raw.val := by
    have hsaturated : (I128.saturate (tension.raw.val * TensionValue.scale)).val = product := by
      rw [I128.val_saturate, min_comm]
      exact max_eq_right (hproduct.trans' (by decide))
    show (I128.saturate (Int.tdiv _ _)).val = _
    rw [hsaturated, Int.tdiv_eq_ediv_of_nonneg hproduct, I128.val_saturate_of_range]
    · exact hratio_nonneg.trans' (by decide)
    · exact hratio_le.trans (by decide)
  have halpha : econ.alpha.raw.val = 10 ^ 17 := by
    rw [hecon.alpha]
    decide
  have hterm : (econ.alpha.mulFp ratio).raw.val = tensionTerm tension.raw.val budget.raw.val := by
    rw [TensionValue.mulFp_of_lt_one (by rw [halpha]; decide) (by rw [halpha]; decide)
      (by rw [hratio]; exact hratio_nonneg) (by rw [hratio]; exact hratio_le), halpha, hratio,
      show TensionValue.scale = 10 ^ 17 * 10 by decide, Int.mul_ediv_mul_of_pos _ _ (by decide),
      Int.ediv_ediv_of_nonneg hbudget.le, Int.mul_comm budget.raw.val]
    rfl
  have hterm_nonneg : 0 ≤ tensionTerm tension.raw.val budget.raw.val :=
    Int.ediv_nonneg hproduct (by omega)
  have hterm_le : tensionTerm tension.raw.val budget.raw.val ≤ TensionValue.scale := by
    refine le_trans ?_ hratio_le
    rw [tensionTerm, Int.mul_comm 10, ← Int.ediv_ediv_of_nonneg hbudget.le]
    exact Int.ediv_le_self _ hratio_nonneg
  let one : TensionValue := ⟨I128.saturate TensionValue.scale⟩
  have hsum : (one + econ.alpha.mulFp ratio).raw.val
      = TensionValue.scale + tensionTerm tension.raw.val budget.raw.val := by
    show (I128.saturate (one.raw.val + (econ.alpha.mulFp ratio).raw.val)).val = _
    rw [hterm, show one.raw.val = TensionValue.scale by decide, I128.val_saturate_of_range]
    · unfold TensionValue.scale
      omega
    · unfold TensionValue.scale at *
      omega
  have hbase : econ.baseFee.raw.val = TensionValue.scale := by
    rw [hecon.baseFee]
    decide
  rw [effectiveFee, if_neg (not_le.mpr hbudget)]
  show (econ.baseFee.mulFp (one + econ.alpha.mulFp ratio)).raw.val = _
  rw [TensionValue.one_mulFp hbase, hsum]
  rw [hsum]
  unfold TensionValue.scale
  omega

/-- The gap between the oracle and its formula is that of the tension term. -/
theorem formulaFee_sub_effectiveFee (hecon : econ.DefaultWeights) (h : Admitted tension budget) :
    econ.formulaFee tension budget - (econ.effectiveFee tension budget).raw.val
      = 10 ^ 17 * tension.raw.val / budget.raw.val
        - tensionTerm tension.raw.val budget.raw.val := by
  have hbase : econ.baseFee.raw.val = 10 ^ 18 := by
    rw [hecon.baseFee]
    decide
  have halpha : econ.alpha.raw.val = 10 ^ 17 := by
    rw [hecon.alpha]
    decide
  rw [effectiveFee_val hecon h, formulaFee, hbase, halpha, TensionValue.scale]
  push_cast
  ring

/-- The oracle is within two raw units of its formula exactly up to some 170
units of tension, and up to there a larger tension costs more. -/
theorem effectiveFee_close_iff (hecon : econ.DefaultWeights) (h : Admitted tension budget) :
    (|(econ.effectiveFee tension budget).raw.val - econ.formulaFee tension budget| < 2 ↔
      10 ^ 17 * tension.raw.val < (largestTerm budget.raw.val + 2) * budget.raw.val)
      ∧ ∀ tension', Admitted tension' budget →
        2 * budget.raw.val ≤ 10 ^ 17 * (tension'.raw.val - tension.raw.val) →
        (econ.effectiveFee tension budget < econ.effectiveFee tension' budget ↔
          10 ^ 17 * tension.raw.val < largestTerm budget.raw.val * budget.raw.val) := by
  have hbudget := h.budget_pos
  constructor
  · have hbudget' : (0 : ℚ) < budget.raw.val := by exact_mod_cast hbudget
    have hnot_above : (tensionTerm tension.raw.val budget.raw.val : ℚ)
        ≤ 10 ^ 17 * tension.raw.val / budget.raw.val := by
      rw [le_div_iff₀ hbudget']
      exact_mod_cast tensionTerm_mul_le hbudget
    rw [abs_sub_comm, formulaFee_sub_effectiveFee hecon h, abs_of_nonneg (sub_nonneg.mpr hnot_above),
      sub_lt_iff_lt_add', div_lt_iff₀ hbudget', ← lt_tensionTerm_add_two_iff hbudget]
    exact_mod_cast Iff.rfl
  · intro tension' h' hgap
    show (econ.effectiveFee tension budget).raw.val < (econ.effectiveFee tension' budget).raw.val ↔ _
    rw [effectiveFee_val hecon h, effectiveFee_val hecon h', Int.add_lt_add_iff_left,
      tensionTerm_lt_tensionTerm_iff hbudget hgap]

theorem admitted_fromInteger (tension budget : Int) (hnonneg : 0 ≤ tension) (hpos : 0 < budget)
    (hle : tension ≤ budget) (hmax : budget ≤ 10000) :
    Admitted (TensionValue.fromInteger tension) (TensionValue.fromInteger budget) := by
  have hval : ∀ n : Int, 0 ≤ n → n ≤ 10000 →
      (TensionValue.fromInteger n).raw.val = n * 10 ^ 18 := by
    intro n hlo hhi
    exact I128.val_saturate_of_range (by unfold TensionValue.scale; omega)
      (by unfold TensionValue.scale; omega)
  constructor
  · rw [hval tension hnonneg (hle.trans hmax)]
    omega
  · rw [hval budget hpos.le hmax]
    omega
  · rw [hval tension hnonneg (hle.trans hmax), hval budget hpos.le hmax]
    omega
  · rw [hval budget hpos.le hmax, hval 10000 (by decide) le_rfl]
    omega

theorem effectiveFee_close_iff_hundred :
    |(({} : EconomicState).effectiveFee (.fromInteger 100) (.fromInteger 1000)).raw.val
        - ({} : EconomicState).formulaFee (.fromInteger 100) (.fromInteger 1000)| < 2
      ∧ ({} : EconomicState).effectiveFee (.fromInteger 100) (.fromInteger 1000)
        < ({} : EconomicState).effectiveFee (.fromInteger 150) (.fromInteger 1000) := by
  have hdefault : DefaultWeights {} := ⟨rfl, rfl⟩
  have h := effectiveFee_close_iff hdefault
    (admitted_fromInteger 100 1000 (by decide) (by decide) (by decide) (by decide))
  have h150 := admitted_fromInteger 150 1000 (by decide) (by decide) (by decide) (by decide)
  exact ⟨h.1.mpr (by decide +kernel), (h.2 _ h150 (by decide +kernel)).mpr (by decide +kernel)⟩

/-- At a budget of a thousand units, five hundred units of tension cost what a
thousand do, and a thousand are charged less than their formula. -/
theorem fee_stands_still :
    Admitted (.fromInteger 500) (.fromInteger 1000)
      ∧ Admitted (.fromInteger 1000) (.fromInteger 1000)
      ∧ ({} : EconomicState).effectiveFee (.fromInteger 500) (.fromInteger 1000)
        = ({} : EconomicState).effectiveFee (.fromInteger 1000) (.fromInteger 1000)
      ∧ (({} : EconomicState).effectiveFee (.fromInteger 1000) (.fromInteger 1000)).raw.val + 2
        < ({} : EconomicState).formulaFee (.fromInteger 1000) (.fromInteger 1000) := by
  refine ⟨admitted_fromInteger 500 1000 (by decide) (by decide) (by decide) (by decide),
    admitted_fromInteger 1000 1000 (by decide) (by decide) (by decide) (by decide),
    by decide +kernel, ?_⟩
  decide +kernel

/-! ## The median oracle -/

/-- The factor on the base fee grows with the tension. -/
theorem multiplier_le {alpha : TensionValue} (halpha : 0 ≤ alpha.raw.val)
    (hbudget : 0 < budget.raw.val) (h : tension ≤ tension') :
    ∃ multiplier multiplier' : TensionValue, multiplier ≤ multiplier'
      ∧ ∀ econ : EconomicState, econ.scaledFee alpha tension budget = econ.baseFee.mulFp multiplier
        ∧ econ.scaledFee alpha tension' budget = econ.baseFee.mulFp multiplier' := by
  refine ⟨_, _, ?_, fun econ => ⟨rfl, rfl⟩⟩
  refine saturate_le_saturate (Int.add_le_add_left ?_ _)
  refine TensionValue.mulFp_le_mulFp halpha (saturate_le_saturate ?_)
  refine Int.tdiv_le_tdiv hbudget (saturate_le_saturate ?_)
  exact Int.mul_le_mul_of_nonneg_right h (by decide)

theorem scaledFee_le_scaledFee {alpha : TensionValue} (halpha : 0 ≤ alpha.raw.val)
    (hbudget : 0 < budget.raw.val) (hbase : 0 ≤ econ.baseFee.raw.val) (h : tension ≤ tension') :
    econ.scaledFee alpha tension budget ≤ econ.scaledFee alpha tension' budget := by
  obtain ⟨m, m', hle, hfees⟩ := multiplier_le halpha hbudget h
  rw [(hfees econ).1, (hfees econ).2]
  exact TensionValue.mulFp_le_mulFp hbase hle

/-- A negative base fee turns the order round. -/
theorem scaledFee_le_scaledFee_of_neg {alpha : TensionValue} (halpha : 0 ≤ alpha.raw.val)
    (hbudget : 0 < budget.raw.val) (hbase : econ.baseFee.raw.val < 0) (h : tension ≤ tension') :
    econ.scaledFee alpha tension' budget ≤ econ.scaledFee alpha tension budget := by
  obtain ⟨m, m', hle, hfees⟩ := multiplier_le halpha hbudget h
  rw [(hfees econ).1, (hfees econ).2]
  exact TensionValue.mulFp_le_mulFp_of_neg hbase hle

end EconomicState

/-! ### Medians -/

instance : IsTrans TensionValue (· ≤ ·) := ⟨fun _ _ _ h h' => Int.le_trans h h'⟩

instance : Std.Total (α := TensionValue) (· ≤ ·) := ⟨fun a b => Int.le_total a.raw.val b.raw.val⟩

/-- The median is at a middle place of the sorted window. -/
theorem medianOfTensions_eq {window : List TensionValue} (h : window ≠ []) :
    ∃ k, ∃ hk : k < (window.insertionSort (· ≤ ·)).length,
      OrderStatistics.Middle k (window.insertionSort (· ≤ ·)).length
        ∧ medianOfTensions window = (window.insertionSort (· ≤ ·))[k] := by
  have hpos : 0 < (window.insertionSort (· ≤ ·)).length := by
    rw [List.length_insertionSort]
    exact List.length_pos_of_ne_nil h
  unfold medianOfTensions OrderStatistics.Middle
  generalize window.insertionSort (· ≤ ·) = sorted at hpos ⊢
  dsimp only
  by_cases heven : sorted.length % 2 = 0
  · refine ⟨sorted.length / 2 - 1, by omega, by omega, ?_⟩
    rw [if_pos heven, List.getElem?_eq_getElem (by omega), Option.getD_some]
  · refine ⟨sorted.length / 2, by omega, by omega, ?_⟩
    rw [if_neg heven, List.getElem?_eq_getElem (by omega), Option.getD_some]

@[simp] theorem medianOfTensions_singleton (t : TensionValue) : medianOfTensions [t] = t := by
  simp [medianOfTensions]

/-- A window with an honest majority, whatever the other samples and wherever
they stand, and the bounds of the honest ones. -/
structure HonestMajority (window honest adversarial : List TensionValue) (lo hi : TensionValue) :
    Prop where
  split : window.Perm (honest ++ adversarial)
  fewer : adversarial.length < honest.length
  lo_mem : lo ∈ honest
  lo_le : ∀ t ∈ honest, lo ≤ t
  hi_mem : hi ∈ honest
  le_hi : ∀ t ∈ honest, t ≤ hi

section

variable {window honest adversarial : List TensionValue} {lo hi budget : TensionValue}

theorem HonestMajority.ne_nil (h : HonestMajority window honest adversarial lo hi) :
    window ≠ [] := by
  rintro rfl
  have hlength := h.split.length_eq
  have hfewer := h.fewer
  rw [List.length_append, List.length_nil] at hlength
  omega

theorem HonestMajority.median_between (h : HonestMajority window honest adversarial lo hi) :
    lo ≤ medianOfTensions window ∧ medianOfTensions window ≤ hi := by
  obtain ⟨k, hk, hmiddle, hmedian⟩ := medianOfTensions_eq h.ne_nil
  have hsorted : (window.insertionSort (· ≤ ·)).Pairwise (· ≤ ·) :=
    List.pairwise_insertionSort _ window
  have hperm := (List.perm_insertionSort (· ≤ ·) window).trans h.split
  rw [hmedian]
  constructor
  · have hbelow := OrderStatistics.not_of_downward (p := fun t => decide (t < lo)) hsorted hperm
      h.fewer hmiddle hk
      (fun x y hxy hy => decide_eq_true (Int.lt_of_le_of_lt hxy (of_decide_eq_true hy)))
      (fun t ht => decide_eq_false (Int.not_lt.mpr (h.lo_le t ht)))
    exact Int.not_lt.mp (of_decide_eq_false hbelow)
  · have habove := OrderStatistics.not_of_upward (p := fun t => decide (hi < t)) hsorted hperm
      h.fewer hmiddle hk
      (fun x y hxy hx => decide_eq_true (Int.lt_of_lt_of_le (of_decide_eq_true hx) hxy))
      (fun t ht => decide_eq_false (Int.not_lt.mpr (h.le_hi t ht)))
    exact Int.not_lt.mp (of_decide_eq_false habove)

namespace EconomicState

/-- A window in use. -/
theorem effectiveFeeMedian_eq (econ : EconomicState) {window : List TensionValue}
    (hwindow : window ≠ []) (hbudget : 0 < budget.raw.val) (params : ConsensusParams) :
    econ.effectiveFeeMedian window budget params
      = econ.scaledFee ⟨params.feeTensionAlpha⟩ (medianOfTensions window) budget := by
  rw [effectiveFeeMedian, if_neg (not_le.mpr hbudget),
    if_neg (by rwa [List.isEmpty_iff])]

theorem effectiveFeeMedian_of_budget (econ : EconomicState) (window : List TensionValue)
    (hbudget : budget.raw.val ≤ 0) (params : ConsensusParams) :
    econ.effectiveFeeMedian window budget params = econ.baseFee := if_pos hbudget

/-- A minority of samples cannot move the fee out of what the honest ones alone
would give; the floor holds besides. -/
theorem effectiveFeeMedian_bounded (h : HonestMajority window honest adversarial lo hi)
    (econ : EconomicState) (budget : TensionValue) (params : ConsensusParams)
    (halpha : 0 ≤ params.feeTensionAlpha.val) (ceilings : ConstitutionalCeilings) :
    (0 ≤ econ.baseFee.raw.val →
        econ.effectiveFeeMedian [lo] budget params ≤ econ.effectiveFeeMedian window budget params
          ∧ econ.effectiveFeeMedian window budget params
            ≤ econ.effectiveFeeMedian [hi] budget params)
      ∧ (econ.baseFee.raw.val < 0 →
        econ.effectiveFeeMedian [hi] budget params ≤ econ.effectiveFeeMedian window budget params
          ∧ econ.effectiveFeeMedian window budget params
            ≤ econ.effectiveFeeMedian [lo] budget params)
      ∧ (⟨ceilings.minEffectiveFeeFloor⟩ : TensionValue)
        ≤ econ.effectiveFeeMedianFloored window budget params ceilings := by
  have hfloor : (⟨ceilings.minEffectiveFeeFloor⟩ : TensionValue)
      ≤ econ.effectiveFeeMedianFloored window budget params ceilings := by
    unfold effectiveFeeMedianFloored
    dsimp only
    split
    · exact Int.le_refl _
    · rename_i hnot
      exact Int.not_lt.mp hnot
  by_cases hbudget : 0 < budget.raw.val
  · obtain ⟨hlo, hhi⟩ := h.median_between
    rw [effectiveFeeMedian_eq econ h.ne_nil hbudget,
      effectiveFeeMedian_eq econ (List.cons_ne_nil lo []) hbudget,
      effectiveFeeMedian_eq econ (List.cons_ne_nil hi []) hbudget, medianOfTensions_singleton,
      medianOfTensions_singleton]
    exact ⟨fun hbase => ⟨scaledFee_le_scaledFee halpha hbudget hbase hlo,
        scaledFee_le_scaledFee halpha hbudget hbase hhi⟩,
      fun hbase => ⟨scaledFee_le_scaledFee_of_neg halpha hbudget hbase hhi,
        scaledFee_le_scaledFee_of_neg halpha hbudget hbase hlo⟩, hfloor⟩
  · have hnone := not_lt.mp hbudget
    rw [effectiveFeeMedian_of_budget econ _ hnone, effectiveFeeMedian_of_budget econ _ hnone,
      effectiveFeeMedian_of_budget econ _ hnone]
    exact ⟨fun _ => ⟨Int.le_refl _, Int.le_refl _⟩, fun _ => ⟨Int.le_refl _, Int.le_refl _⟩, hfloor⟩

/-- Two honest samples and a flood of tension beside them. -/
theorem effectiveFeeMedian_bounded_flood :
    let honest : List TensionValue := [.fromInteger 3, .fromInteger 5]
    let flood : TensionValue := ⟨I128.saturate (2 ^ 127 - 1)⟩
    ({} : EconomicState).effectiveFeeMedian [.fromInteger 3] (.fromInteger 1000) {}
        ≤ ({} : EconomicState).effectiveFeeMedian (flood :: honest) (.fromInteger 1000) {}
      ∧ ({} : EconomicState).effectiveFeeMedian (flood :: honest) (.fromInteger 1000) {}
        ≤ ({} : EconomicState).effectiveFeeMedian [.fromInteger 5] (.fromInteger 1000) {} := by
  intro honest flood
  have h : HonestMajority (flood :: honest) honest [flood] (.fromInteger 3) (.fromInteger 5) :=
    ⟨by decide +kernel, by decide, by decide +kernel, by decide +kernel, by decide +kernel,
      by decide +kernel⟩
  exact (effectiveFeeMedian_bounded h {} (.fromInteger 1000) {} (by decide +kernel) {}).1
    (by decide +kernel)

end EconomicState

end

end Sccgub
