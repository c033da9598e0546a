import Mathlib
import Sccgub.Governance.Responsibility
import Sccgub.TruncatedPower
import Sccgub.Types.Quotient

/-!
# Decay in one step and in two

What a decay makes of a single contribution, against the exact power of the
factor.  Every call falls short of it by what its products truncate, and by one
unit for an entry it drops.

A call never decays over more than two hundred blocks.  Up to there it makes no
difference, but for the truncation, whether the blocks are passed at once or in
two parts; beyond, two parts decay over more blocks than the one does.
-/

namespace Sccgub

open FixedWidth TruncatedPower

/-! ## Powers of a factor -/

/-- A product with at most one unit is rounded down and never saturates. -/
theorem mulFp_of_le_one {a b : TensionValue} {m n : ℕ} (ha : a.raw.val = m) (hb : b.raw.val = n)
    (hle : n ≤ TensionValue.scale.toNat) :
    (a.mulFp b).raw.val = product TensionValue.scale.toNat m n := by
  have hfits : TensionValue.FractionFits a b := by
    left
    rw [ha, hb, Int.natAbs_natCast, Int.natAbs_natCast]
    refine Nat.div_le_div_right ?_
    calc m % TensionValue.scale.toNat * n
        ≤ TensionValue.scale.toNat * TensionValue.scale.toNat :=
          Nat.mul_le_mul (Nat.mod_lt _ TensionValue.scale_toNat_pos).le hle
      _ ≤ TensionValue.u128Max := by decide
  have hquotient : product TensionValue.scale.toNat m n ≤ m := by
    refine Nat.div_le_of_le_mul ?_
    rw [Nat.mul_comm]
    exact Nat.mul_le_mul_right _ hle
  have hmax := a.raw.le_max
  have hdiv : ((m : Int) * n).tdiv TensionValue.scale
      = product TensionValue.scale.toNat m n := by
    rw [TensionValue.scale_eq_toNat]
    rfl
  rw [(TensionValue.mulFp_val_eq_iff a b).mpr hfits, TensionValue.exactProduct, ha, hb, hdiv]
  omega

theorem expLoop_val {fuel e m n : ℕ} {result b : TensionValue} (hresult : result.raw.val = m)
    (hb : b.raw.val = n) (hm : m ≤ TensionValue.scale.toNat) (hn : n ≤ TensionValue.scale.toNat) :
    (expLoop fuel result b e).raw.val = loop TensionValue.scale.toNat fuel m n e := by
  have hle {x y : ℕ} (hx : x ≤ TensionValue.scale.toNat) (hy : y ≤ TensionValue.scale.toNat) :
      product TensionValue.scale.toNat x y ≤ TensionValue.scale.toNat :=
    Nat.div_le_of_le_mul (Nat.mul_le_mul hx hy)
  induction fuel generalizing e m n result b with
  | zero => exact hresult
  | succ fuel ih =>
      unfold expLoop loop
      by_cases he : e = 0
      · rw [if_pos he, if_pos he]
        exact hresult
      · rw [if_neg he, if_neg he]
        by_cases hodd : e % 2 = 1
        · rw [if_pos hodd, if_pos hodd]
          exact ih (mulFp_of_le_one hresult hb hn) (mulFp_of_le_one hb hb hn) (hle hm hn) (hle hn hn)
        · rw [if_neg hodd, if_neg hodd]
          exact ih hresult (mulFp_of_le_one hb hb hn) hm (hle hn hn)

/-- The power of a factor, as a number of raw units. -/
def powerOf (factor n : ℕ) : ℕ :=
  loop TensionValue.scale.toNat 64 TensionValue.scale.toNat factor n

theorem expBySquaring_val {base : TensionValue} {factor : ℕ} (hbase : base.raw.val = factor)
    (hle : factor ≤ TensionValue.scale.toNat) (exp : UInt64) :
    (expBySquaring base exp).raw.val = powerOf factor exp.toNat := by
  have hone : TensionValue.one.raw.val = TensionValue.scale.toNat := by decide
  unfold expBySquaring powerOf
  by_cases hexp : exp = 0
  · rw [if_pos hexp, hexp, hone]
    rfl
  · rw [if_neg hexp]
    exact expLoop_val hone hbase le_rfl hle

theorem isPower_powerOf {factor n : ℕ} (hle : factor ≤ TensionValue.scale.toNat) (hn : n ≤ 200) :
    IsPower TensionValue.scale.toNat (factor / TensionValue.scale.toNat) (powerOf factor n) n :=
  isPower_power TensionValue.scale_toNat_pos hle (by omega)

theorem div_scale_le_one {factor : ℕ} (hle : factor ≤ TensionValue.scale.toNat) :
    (factor : ℚ) / TensionValue.scale.toNat ≤ 1 := by
  have hscale : (0 : ℚ) < TensionValue.scale.toNat := by
    exact_mod_cast TensionValue.scale_toNat_pos
  rw [div_le_one₀ hscale]
  exact_mod_cast hle

theorem powerOf_le {factor n : ℕ} (hle : factor ≤ TensionValue.scale.toNat) (hn : n ≤ 200) :
    powerOf factor n ≤ TensionValue.scale.toNat :=
  (isPower_powerOf hle hn).le_scale (by positivity) (div_scale_le_one hle)

/-! ## A single contribution -/

/-- How many blocks a call decays over. -/
def span (since current : UInt64) : ℕ := min (current.toNat - since.toNat) 200

/-- What a call over so many blocks leaves of a value. -/
def lessened (factor n v : ℕ) : ℕ :=
  prune (decay TensionValue.scale.toNat (powerOf factor n) n v)

/-- At most one entry, last decayed at a height, with all that is left of a value. -/
def Bears (entries : List ResponsibilityEntry) (v : ℕ) (height : UInt64) : Prop :=
  (entries = [] ∧ v = 0)
    ∨ ∃ entry, entries = [entry] ∧ entry.rValue.raw.val = v ∧ entry.blockHeight = height

theorem toNat_min (a b : UInt64) : (min a b).toNat = min a.toNat b.toNat := by
  show (if a ≤ b then a else b).toNat = _
  have hiff : a ≤ b ↔ a.toNat ≤ b.toNat := UInt64.le_iff_toNat_le
  split_ifs with h
  · rw [min_eq_left (hiff.mp h)]
  · rw [min_eq_right (Nat.le_of_not_le fun hle => h (hiff.mpr hle))]

theorem decayEntry_bears {factor : TensionValue} {f v : ℕ} {entry : ResponsibilityEntry}
    {current : UInt64} (hfactor : factor.raw.val = f) (hle : f ≤ TensionValue.scale.toNat)
    (hvalue : entry.rValue.raw.val = v) (hheight : entry.blockHeight ≤ current) :
    (decayEntry factor current entry).rValue.raw.val
        = decay TensionValue.scale.toNat (powerOf f (span entry.blockHeight current))
          (span entry.blockHeight current) v
      ∧ (decayEntry factor current entry).blockHeight = current := by
  have hage : (saturatingSub current entry.blockHeight).toNat
      = current.toNat - entry.blockHeight.toNat := toNat_saturatingSub _ _
  have hspan : (min (saturatingSub current entry.blockHeight) 200).toNat
      = span entry.blockHeight current := by
    rw [toNat_min, hage]
    rfl
  have hexp := expBySquaring_val hfactor hle (min (saturatingSub current entry.blockHeight) 200)
  rw [hspan] at hexp
  have hpower : powerOf f (span entry.blockHeight current) ≤ TensionValue.scale.toNat :=
    powerOf_le hle (min_le_right _ _)
  have hle' := UInt64.le_iff_toNat_le.mp hheight
  unfold decayEntry decay
  by_cases hpositive : saturatingSub current entry.blockHeight > 0
  · have hpos : 0 < (saturatingSub current entry.blockHeight).toNat :=
      UInt64.lt_iff_toNat_lt.mp hpositive
    have hne : span entry.blockHeight current ≠ 0 := by
      unfold span
      omega
    simp only [if_pos hpositive, if_neg hne]
    exact ⟨mulFp_of_le_one hvalue hexp hpower, trivial⟩
  · have hzero : (saturatingSub current entry.blockHeight).toNat = 0 := by
      rw [gt_iff_lt, UInt64.lt_iff_toNat_lt] at hpositive
      exact Nat.eq_zero_of_not_pos hpositive
    have hspanZero : span entry.blockHeight current = 0 := by
      unfold span
      omega
    simp only [if_neg hpositive, if_pos hspanZero]
    exact ⟨hvalue, UInt64.toNat_inj.mp (by omega)⟩

theorem capped_singleton (entry : ResponsibilityEntry) : capped [entry] = [entry] := by
  have hpos := maxContributions_pos
  rw [capped, List.length_singleton, Nat.sub_eq_zero_of_le hpos, List.drop_zero]

theorem capped_nil : capped [] = [] := List.drop_nil

theorem Bears.decayed {factor : TensionValue} {f v : ℕ} {entries : List ResponsibilityEntry}
    {since current : UInt64} (hfactor : factor.raw.val = f) (hle : f ≤ TensionValue.scale.toNat)
    (h : Bears entries v since) (hheight : since ≤ current) :
    Bears (decayed factor current entries) (lessened f (span since current) v) current := by
  rcases h with ⟨rfl, rfl⟩ | ⟨entry, rfl, hvalue, rfl⟩
  · have hzero : lessened f (span since current) 0 = 0 := by
      unfold lessened decay product
      rw [Nat.zero_mul, Nat.zero_div, ite_self]
      rfl
    exact .inl ⟨capped_nil, hzero⟩
  · obtain ⟨hleft, hlast⟩ := decayEntry_bears hfactor hle hvalue hheight
    unfold Sccgub.decayed lessened
    rw [List.map_singleton]
    generalize decayEntry factor current entry = after at hleft hlast ⊢
    generalize decay TensionValue.scale.toNat (powerOf f (span entry.blockHeight current))
      (span entry.blockHeight current) v = w at hleft ⊢
    have hkept : isKept after = decide (1 < w) := by
      rw [isKept, hleft, Int.natAbs_natCast]
    by_cases hw : 1 < w
    · have hkeep : prune w = w := if_pos hw
      rw [List.filter_cons_of_pos (by rw [hkept]; exact decide_eq_true hw), List.filter_nil,
        capped_singleton, hkeep]
      exact .inr ⟨after, rfl, hleft, hlast⟩
    · have hdrop : prune w = 0 := if_neg hw
      rw [List.filter_cons_of_neg (by rw [hkept]; simpa using hw), List.filter_nil, capped_nil,
        hdrop]
      exact .inl ⟨rfl, rfl⟩

theorem Bears.sumOf_val {entries : List ResponsibilityEntry} {v : ℕ} {height : UInt64}
    (h : Bears entries v height) : (sumOf entries).raw.val = v := by
  rcases h with ⟨rfl, rfl⟩ | ⟨entry, rfl, hvalue, -⟩
  · rfl
  · show (I128.saturate (0 + entry.rValue.raw.val)).val = v
    rw [Int.zero_add, TensionValue.saturate_val, hvalue]

/-! ## One call and two -/

/-- The only contribution is the entry, for or against. -/
def HasOnly (state : ResponsibilityState) (entry : ResponsibilityEntry) : Prop :=
  (state.positiveContributions = [entry] ∧ state.negativeContributions = [])
    ∨ (state.positiveContributions = [] ∧ state.negativeContributions = [entry])

/-- One side bears a value, the other one nothing. -/
def BearsNet (state : ResponsibilityState) (against : Bool) (v : ℕ) (height : UInt64) : Prop :=
  if against then state.positiveContributions = [] ∧ Bears state.negativeContributions v height
  else Bears state.positiveContributions v height ∧ state.negativeContributions = []

def factorRaw (state : ResponsibilityState) : ℕ :=
  TensionValue.scale.toNat - state.decayFactor.raw.val.toNat

section

variable {state : ResponsibilityState} {against : Bool} {v : ℕ} {since current : UInt64}

theorem factor_val (hlo : 0 ≤ state.decayFactor.raw.val)
    (hhi : state.decayFactor.raw.val ≤ TensionValue.scale) :
    (TensionValue.one - state.decayFactor).raw.val = factorRaw state := by
  have hone : TensionValue.one.raw.val = TensionValue.scale := by decide
  rw [TensionValue.sub_val (by omega) hlo, hone, factorRaw, TensionValue.scale_eq_toNat]
  rw [TensionValue.scale_eq_toNat] at hhi
  omega

theorem BearsNet.applyDecay (hlo : 0 ≤ state.decayFactor.raw.val)
    (hhi : state.decayFactor.raw.val ≤ TensionValue.scale) (h : BearsNet state against v since)
    (hheight : since ≤ current) :
    BearsNet (state.applyDecay current) against
      (lessened (factorRaw state) (span since current) v) current := by
  have hfactor := factor_val hlo hhi
  have hle : factorRaw state ≤ TensionValue.scale.toNat := Nat.sub_le _ _
  have hnil : decayed (.one - state.decayFactor) current [] = [] := capped_nil
  unfold BearsNet at *
  rw [ResponsibilityState.positiveContributions_applyDecay,
    ResponsibilityState.negativeContributions_applyDecay]
  split_ifs at h ⊢
  · rw [h.1]
    exact ⟨hnil, h.2.decayed hfactor hle hheight⟩
  · rw [h.2]
    exact ⟨h.1.decayed hfactor hle hheight, hnil⟩

/-- The net sum that a call leaves. -/
def signed (against : Bool) (v : ℕ) : Int := if against then -v else v

theorem net_applyDecay (h : BearsNet (state.applyDecay current) against v current) :
    (state.applyDecay current).netResponsibility.raw.val = signed against v := by
  have hnil : (sumOf []).raw.val = 0 := rfl
  unfold BearsNet at h
  unfold signed
  rw [ResponsibilityState.netResponsibility_applyDecay]
  split_ifs at h ⊢
  · have hv : (v : Int) ≤ i128Max := h.2.sumOf_val ▸ (sumOf _).raw.le_max
    rw [sub_val_of_inRange, h.1, hnil, h.2.sumOf_val, Int.zero_sub]
    rw [h.1, hnil, h.2.sumOf_val, InRange]
    unfold i128Max at hv ⊢
    omega
  · have hv : (v : Int) ≤ i128Max := h.1.sumOf_val ▸ (sumOf _).raw.le_max
    rw [sub_val_of_inRange, h.2, hnil, h.1.sumOf_val, Int.sub_zero]
    rw [h.2, hnil, h.1.sumOf_val, InRange]
    omega

end

/-- The net sum after decays at the heights, one after the other. -/
def netAfter (state : ResponsibilityState) (heights : List UInt64) : Int :=
  (heights.foldl ResponsibilityState.applyDecay state).netResponsibility.raw.val

def factorRat (state : ResponsibilityState) : ℚ :=
  1 - state.decayFactor.raw.val / TensionValue.scale

theorem factorRat_eq {state : ResponsibilityState} (hlo : 0 ≤ state.decayFactor.raw.val)
    (hhi : state.decayFactor.raw.val ≤ TensionValue.scale) :
    factorRat state = factorRaw state / TensionValue.scale.toNat := by
  obtain ⟨d, hd⟩ := Int.eq_ofNat_of_zero_le hlo
  have hs : (TensionValue.scale.toNat : ℚ) ≠ 0 := by
    exact_mod_cast TensionValue.scale_toNat_pos.ne'
  have hle : d ≤ TensionValue.scale.toNat := by
    rw [hd, TensionValue.scale_eq_toNat] at hhi
    exact_mod_cast hhi
  rw [factorRat, factorRaw, hd, Int.toNat_natCast, Nat.cast_sub hle, sub_div, div_self hs,
    TensionValue.scale_eq_toNat]
  rfl

theorem lessened_le {f n v : ℕ} (hf : f ≤ TensionValue.scale.toNat) (hn : n ≤ 200) :
    lessened f n v ≤ v :=
  (prune_le _).trans (decay_le (powerOf_le hf hn))

/-- A call adds to what a value is short by, for every block the whole units of
it, and one. -/
theorem below_lessened {f n v r : ℕ} {x e : ℚ} (hf : f ≤ TensionValue.scale.toNat) (hn : n ≤ 200)
    (h : Below v x e) (hv : v ≤ r) :
    Below (lessened f n v) (x * (f / TensionValue.scale.toNat) ^ n)
      (e + n * (r / TensionValue.scale.toNat + 1 : ℕ) + 1) :=
  (h.decay TensionValue.scale_toNat_pos (by positivity) (div_scale_le_one hf)
    (isPower_powerOf hf hn) hv).prune

theorem HasOnly.bearsNet {state : ResponsibilityState} {entry : ResponsibilityEntry} {r : ℕ}
    (h : HasOnly state entry) (hr : entry.rValue.raw.val = r) :
    ∃ against, BearsNet state against r entry.blockHeight := by
  have hbears : Bears [entry] r entry.blockHeight := .inr ⟨entry, rfl, hr, rfl⟩
  rcases h with ⟨hpositive, hnegative⟩ | ⟨hpositive, hnegative⟩
  · exact ⟨false, ⟨hpositive ▸ hbears, hnegative⟩⟩
  · exact ⟨true, ⟨hpositive, hnegative ▸ hbears⟩⟩

theorem natAbs_signed (against : Bool) (v : ℕ) : (signed against v).natAbs = v := by
  cases against <;> simp [signed]

theorem abs_signed_sub (against : Bool) (v w : ℕ) :
    |signed against v - signed against w| = |(v : Int) - w| := by
  cases against
  · rfl
  · show |-(v : Int) - -(w : Int)| = _
    rw [← abs_neg]
    congr 1
    ring

/-- What one call and two calls leave. -/
theorem netAfter_eq {state : ResponsibilityState} {entry : ResponsibilityEntry} {r : ℕ}
    {h1 h2 : UInt64} (hone : HasOnly state entry) (hr : entry.rValue.raw.val = r)
    (hlo : 0 ≤ state.decayFactor.raw.val) (hhi : state.decayFactor.raw.val ≤ TensionValue.scale)
    (h01 : entry.blockHeight ≤ h1) (h12 : h1 ≤ h2) :
    ∃ against, netAfter state [h2]
        = signed against (lessened (factorRaw state) (span entry.blockHeight h2) r)
      ∧ netAfter state [h1, h2] = signed against (lessened (factorRaw state) (span h1 h2)
          (lessened (factorRaw state) (span entry.blockHeight h1) r)) := by
  obtain ⟨against, hstart⟩ := hone.bearsNet hr
  have honce := hstart.applyDecay hlo hhi (UInt64.le_trans h01 h12)
  have hfirst := hstart.applyDecay hlo hhi h01
  have htwice := @BearsNet.applyDecay (state.applyDecay h1) against _ h1 h2 hlo hhi hfirst h12
  exact ⟨against, net_applyDecay honce, net_applyDecay htwice⟩

/-- Spans add up as long as the cap is not in the way. -/
theorem span_add_span {h0 h1 h2 : UInt64} (h01 : h0 ≤ h1) (h12 : h1 ≤ h2)
    (hshort : h2.toNat - h0.toNat ≤ 200 ∨ h1 = h0 ∨ h1 = h2) :
    span h0 h1 + span h1 h2 = span h0 h2 := by
  have hle := UInt64.le_iff_toNat_le.mp h01
  have hle' := UInt64.le_iff_toNat_le.mp h12
  unfold span
  rcases hshort with hshort | rfl | rfl
  · omega
  · omega
  · omega

/-- One call and two calls fall short of the exact power of the factor by what is
truncated.  Without the cap in the way they differ by no more than that. -/
theorem applyDecay_split (state : ResponsibilityState) (entry : ResponsibilityEntry)
    (h1 h2 : UInt64) (hone : HasOnly state entry) (hr : 0 ≤ entry.rValue.raw.val)
    (hlo : 0 ≤ state.decayFactor.raw.val) (hhi : state.decayFactor.raw.val ≤ TensionValue.scale)
    (h01 : entry.blockHeight ≤ h1) (h12 : h1 ≤ h2) :
    Below (netAfter state [h2]).natAbs
        (entry.rValue.raw.val * factorRat state ^ span entry.blockHeight h2)
        (span entry.blockHeight h2 * (entry.rValue.raw.val / TensionValue.scale + 1 : Int) + 2)
      ∧ Below (netAfter state [h1, h2]).natAbs
        (entry.rValue.raw.val
          * factorRat state ^ (span entry.blockHeight h1 + span h1 h2))
        ((span entry.blockHeight h1 + span h1 h2 : ℕ)
          * (entry.rValue.raw.val / TensionValue.scale + 1 : Int) + 2)
      ∧ (h2.toNat - entry.blockHeight.toNat ≤ 200 ∨ h1 = entry.blockHeight ∨ h1 = h2 →
        |netAfter state [h2] - netAfter state [h1, h2]|
          ≤ (h2.toNat - entry.blockHeight.toNat : Int)
            * (entry.rValue.raw.val / TensionValue.scale + 1) + 2) := by
  obtain ⟨r, hval⟩ := Int.eq_ofNat_of_zero_le hr
  obtain ⟨against, honce, htwice⟩ := netAfter_eq hone hval hlo hhi h01 h12
  have hf : factorRaw state ≤ TensionValue.scale.toNat := Nat.sub_le _ _
  have hcap (a b : UInt64) : span a b ≤ 200 := min_le_right _ _
  have hunits : entry.rValue.raw.val / TensionValue.scale + 1
      = ((r / TensionValue.scale.toNat + 1 : ℕ) : Int) := by
    rw [hval]
    rfl
  have hexact : (entry.rValue.raw.val : ℚ) = r := by
    rw [hval]
    rfl
  have hshortOnce := below_lessened hf (hcap entry.blockHeight h2) (below_self r) le_rfl
  have hshortFirst := below_lessened hf (hcap entry.blockHeight h1) (below_self r) le_rfl
  have hshortTwice := below_lessened hf (hcap h1 h2) hshortFirst
    (lessened_le hf (hcap entry.blockHeight h1))
  rw [← factorRat_eq hlo hhi] at hshortOnce hshortTwice
  rw [mul_assoc, ← pow_add] at hshortTwice
  rw [hunits, hexact, honce, htwice, natAbs_signed, natAbs_signed, abs_signed_sub]
  generalize lessened (factorRaw state) (span entry.blockHeight h2) r = once at *
  generalize lessened (factorRaw state) (span h1 h2)
    (lessened (factorRaw state) (span entry.blockHeight h1) r) = twice at *
  generalize r / TensionValue.scale.toNat + 1 = units at *
  refine ⟨hshortOnce.mono ?_, hshortTwice.mono ?_, fun hshort => ?_⟩
  · push_cast
    linarith
  · push_cast
    linarith
  · have hsum := span_add_span h01 h12 hshort
    have hblocks : (span entry.blockHeight h2 : Int) ≤ h2.toNat - entry.blockHeight.toNat := by
      have hle := UInt64.le_iff_toNat_le.mp (UInt64.le_trans h01 h12)
      unfold span
      omega
    have htwiceError : (0 : ℚ) + span entry.blockHeight h1 * units + 1 + span h1 h2 * units + 1
        = span entry.blockHeight h2 * units + 2 := by
      rw [← hsum]
      push_cast
      ring
    rw [hsum, htwiceError] at hshortTwice
    have hup : (once : ℚ) ≤ twice + (span entry.blockHeight h2 * units + 2) :=
      hshortOnce.1.trans hshortTwice.2
    have hdown : (twice : ℚ) ≤ once + (span entry.blockHeight h2 * units + 2) :=
      hshortTwice.1.trans (hshortOnce.2.trans (by linarith))
    have hupNat : once ≤ twice + (span entry.blockHeight h2 * units + 2) := by exact_mod_cast hup
    have hdownNat : twice ≤ once + (span entry.blockHeight h2 * units + 2) := by
      exact_mod_cast hdown
    have hspan : (span entry.blockHeight h2 * units : Int)
        ≤ (h2.toNat - entry.blockHeight.toNat) * units :=
      Int.mul_le_mul_of_nonneg_right hblocks (Int.natCast_nonneg _)
    rw [abs_le]
    constructor <;> zify at hupNat hdownNat <;> linarith

/-! ## More than two hundred blocks -/

/-- A hundred units at height zero, with a hundredth of decay. -/
def hundredUnits : ResponsibilityState :=
  { (default : ResponsibilityState) with
    positiveContributions := [⟨zeroHash, .fromInteger 100, 0⟩]
    netResponsibility := .fromInteger 100
    decayFactor := ⟨I128.saturate (TensionValue.scale / 100)⟩ }

/-- Two calls over two hundred blocks each decay twice as far as one over four
hundred. -/
theorem hundredUnits_differs :
    HasOnly hundredUnits ⟨zeroHash, .fromInteger 100, 0⟩
      ∧ netAfter hundredUnits [400] - netAfter hundredUnits [200, 400]
        > 400 * (100 * TensionValue.scale / TensionValue.scale + 1) + 2 := by
  refine ⟨.inl ⟨rfl, rfl⟩, ?_⟩
  decide +kernel

/-- A hundred blocks in two halves. -/
theorem hundredUnits_split :
    |netAfter hundredUnits [100] - netAfter hundredUnits [50, 100]|
      ≤ (100 - 0) * (100 * TensionValue.scale / TensionValue.scale + 1) + 2 :=
  (applyDecay_split hundredUnits ⟨zeroHash, .fromInteger 100, 0⟩ 50 100 (.inl ⟨rfl, rfl⟩)
    (by decide) (by decide) (by decide) (by decide) (by decide)).2.2 (.inl (by decide))

end Sccgub
