import Mathlib
import Sccgub.Types.Quotient

/-!
# Adversarial containment

A node is held back while the deltas it takes away outweigh those it brings.
The ratio of the two is a division split at the denominator: quotient and
remainder are scaled separately, each product saturating.  The product of the
remainder leaves 128 bits for denominators of a few hundred units, and what is
left of it after the division is then too small.
-/

namespace Sccgub

open FixedWidth

/-! ## Profiles -/

inductive ContainmentLevel where
  | none
  | reducedThroughput (maxTxsPerBlock : UInt32)
  | increasedProofRequirements
  | quarantine (blocksRemaining : UInt64)
  deriving DecidableEq, Inhabited

structure NodeBehaviorProfile where
  nodeId : Hash
  positiveDelta : TensionValue := .zero
  negativeDelta : TensionValue := .zero
  containment : ContainmentLevel := .none
  invalidCount : UInt64 := 0
  validCount : UInt64 := 0
  deriving DecidableEq

/-- Negative over positive, whole and fractional part apart. -/
def NodeBehaviorProfile.hostilityIndex (self : NodeBehaviorProfile) (epsilon : TensionValue) :
    TensionValue :=
  let d := (self.positiveDelta + epsilon).raw.val
  if d ≤ 0 then .zero
  else
    let n := self.negativeDelta.raw.val
    let whole := (I128.saturate (n.tdiv d * TensionValue.scale)).val
    let frac := (I128.saturate (n.tmod d * TensionValue.scale)).val.tdiv d
    ⟨I128.saturate (whole + frac)⟩

structure ContainmentState where
  nodes : Std.ExtTreeMap Hash NodeBehaviorProfile := ∅
  hostilityThreshold : TensionValue := .fromInteger 2
  epsilon : TensionValue := ⟨1⟩

def maxTrackedNodes : Nat := 10000

namespace ContainmentState

/-- New nodes are not tracked once there are too many. -/
def update (self : ContainmentState) (nodeId : Hash)
    (f : NodeBehaviorProfile → NodeBehaviorProfile) : ContainmentState :=
  match self.nodes[nodeId]? with
  | some profile => { self with nodes := self.nodes.insert nodeId (f profile) }
  | none =>
      if maxTrackedNodes ≤ self.nodes.size then self
      else { self with nodes := self.nodes.insert nodeId (f { nodeId }) }

def recordValid (self : ContainmentState) (nodeId : Hash) (delta : TensionValue) :
    ContainmentState :=
  self.update nodeId fun profile =>
    { profile with
      positiveDelta := profile.positiveDelta + delta
      validCount := saturatingAdd profile.validCount 1 }

def recordInvalid (self : ContainmentState) (nodeId : Hash) (delta : TensionValue) :
    ContainmentState :=
  self.update nodeId fun profile =>
    { profile with
      negativeDelta := profile.negativeDelta + delta
      invalidCount := saturatingAdd profile.invalidCount 1 }

def escalate : ContainmentLevel → ContainmentLevel
  | .none => .reducedThroughput 1
  | .reducedThroughput _ => .increasedProofRequirements
  | .increasedProofRequirements => .quarantine 100
  | .quarantine _ => .quarantine 100

def deescalate : ContainmentLevel → ContainmentLevel
  | .quarantine _ => .increasedProofRequirements
  | .increasedProofRequirements => .reducedThroughput 5
  | .reducedThroughput _ => .none
  | .none => .none

/-- Up one level above the threshold, down one below half of it. -/
def evaluateProfile (self : ContainmentState) (profile : NodeBehaviorProfile) :
    NodeBehaviorProfile :=
  let hostility := profile.hostilityIndex self.epsilon
  let release : TensionValue := ⟨I128.saturate (self.hostilityThreshold.raw.val.tdiv 2)⟩
  if self.hostilityThreshold < hostility then
    { profile with containment := escalate profile.containment }
  else if hostility ≤ release && profile.containment ≠ .none then
    { profile with containment := deescalate profile.containment }
  else profile

def evaluate (self : ContainmentState) : ContainmentState :=
  { self with nodes := self.nodes.map fun _ profile => self.evaluateProfile profile }

def isAllowed (self : ContainmentState) (nodeId : Hash) : Bool :=
  match self.nodes[nodeId]? with
  | none => true
  | some profile =>
      match profile.containment with
      | .quarantine _ => false
      | _ => true

/-- A quarantine that is counted down ends in reduced throughput. -/
def tickProfile (profile : NodeBehaviorProfile) : NodeBehaviorProfile :=
  let decay : TensionValue := ⟨I128.saturate (profile.negativeDelta.raw.val.tdiv 100)⟩
  let containment :=
    match profile.containment with
    | .quarantine blocksRemaining =>
        let left := if blocksRemaining > 0 then blocksRemaining - 1 else blocksRemaining
        if left = 0 then .reducedThroughput 1 else .quarantine left
    | level => level
  { profile with negativeDelta := profile.negativeDelta - decay, containment }

def tickBlock (self : ContainmentState) : ContainmentState :=
  { self with nodes := self.nodes.map fun _ profile => tickProfile profile }

end ContainmentState

/-! ## The documented ratio -/

namespace ContainmentState

/-- What an evaluation makes of a profile whose index is given. -/
def evaluateWith (self : ContainmentState) (hostility : TensionValue)
    (profile : NodeBehaviorProfile) : NodeBehaviorProfile :=
  let release : TensionValue := ⟨I128.saturate (self.hostilityThreshold.raw.val.tdiv 2)⟩
  if self.hostilityThreshold < hostility then
    { profile with containment := escalate profile.containment }
  else if hostility ≤ release && profile.containment ≠ .none then
    { profile with containment := deescalate profile.containment }
  else profile

theorem getElem?_evaluate (self : ContainmentState) (id : Hash) :
    self.evaluate.nodes[id]? = self.nodes[id]?.map fun profile =>
      self.evaluateWith (profile.hostilityIndex self.epsilon) profile :=
  Std.ExtTreeMap.getElem?_map

end ContainmentState

namespace NodeBehaviorProfile


def denominator (self : NodeBehaviorProfile) (epsilon : TensionValue) : Int :=
  (self.positiveDelta + epsilon).raw.val

/-- Rounded down over the integers, then clamped. -/
def documentedIndex (self : NodeBehaviorProfile) (epsilon : TensionValue) : TensionValue :=
  ⟨I128.saturate (self.negativeDelta.raw.val * TensionValue.scale / self.denominator epsilon)⟩

/-- There is something to divide by and nothing negative to divide. -/
structure HasRatio (profile : NodeBehaviorProfile) (epsilon : TensionValue) : Prop where
  negativeDelta_nonneg : 0 ≤ profile.negativeDelta.raw.val
  denominator_pos : 0 < profile.denominator epsilon

/-- The scaled remainder stays within 128 bits, but for what the division drops;
or the result is at the largest value anyway. -/
def RemainderFits (self : NodeBehaviorProfile) (epsilon : TensionValue) : Prop :=
  SplitProduct.Fits (self.denominator epsilon).toNat (2 ^ 127 - 1) (2 ^ 127 - 1)
    self.negativeDelta.raw.val.toNat TensionValue.scale.toNat

instance (self : NodeBehaviorProfile) (epsilon : TensionValue) :
    Decidable (self.RemainderFits epsilon) :=
  inferInstanceAs (Decidable (SplitProduct.Fits ..))

/-- Where there is a ratio the index is a split product over the natural
numbers. -/
theorem hostilityIndex_val {self : NodeBehaviorProfile} {epsilon : TensionValue}
    (h : self.HasRatio epsilon) :
    (self.hostilityIndex epsilon).raw.val
      = SplitProduct.product (self.denominator epsilon).toNat (2 ^ 127 - 1)
          self.negativeDelta.raw.val.toNat TensionValue.scale.toNat := by
  obtain ⟨n, hn⟩ := Int.eq_ofNat_of_zero_le h.negativeDelta_nonneg
  obtain ⟨d, hd⟩ := Int.eq_ofNat_of_zero_le h.denominator_pos.le
  have hpos : ¬ self.denominator epsilon ≤ 0 := not_le.mpr h.denominator_pos
  unfold denominator at hd hpos
  unfold hostilityIndex denominator
  simp only [if_neg hpos]
  rw [hn, hd, TensionValue.splitQuotient_val]
  rfl

theorem documentedIndex_val {self : NodeBehaviorProfile} {epsilon : TensionValue}
    (h : self.HasRatio epsilon) :
    (self.documentedIndex epsilon).raw.val
      = (min (self.negativeDelta.raw.val.toNat * TensionValue.scale.toNat
          / (self.denominator epsilon).toNat) (2 ^ 127 - 1) : Nat) := by
  obtain ⟨n, hn⟩ := Int.eq_ofNat_of_zero_le h.negativeDelta_nonneg
  obtain ⟨d, hd⟩ := Int.eq_ofNat_of_zero_le h.denominator_pos.le
  have hdiv : (n : Int) * TensionValue.scale / d = (n * TensionValue.scale.toNat / d : Nat) := rfl
  unfold documentedIndex
  rw [hn, hd, hdiv, TensionValue.saturate_natCast_val]
  rfl

theorem hostilityIndex_eq_iff {self : NodeBehaviorProfile} {epsilon : TensionValue}
    (h : self.HasRatio epsilon) :
    self.hostilityIndex epsilon = self.documentedIndex epsilon ↔ self.RemainderFits epsilon := by
  have hpos : 0 < (self.denominator epsilon).toNat := by
    have := h.denominator_pos
    omega
  have hcap (a b : Nat) : SplitProduct.product (self.denominator epsilon).toNat (2 ^ 127 - 1) a b
      = min (SplitProduct.product (self.denominator epsilon).toNat (2 ^ 127 - 1) a b)
        (2 ^ 127 - 1) :=
    (min_eq_left (min_le_right _ _)).symm
  rw [RemainderFits, ← SplitProduct.min_product_eq_iff hpos le_rfl, ← hcap]
  constructor
  · intro heq
    have hval := congrArg (·.raw.val) heq
    simp only [hostilityIndex_val h, documentedIndex_val h] at hval
    exact Int.ofNat_inj.mp hval
  · intro heq
    refine TensionValue.ext_val ?_
    rw [hostilityIndex_val h, documentedIndex_val h, heq]

/-! ## Order of the documented ratio -/

/-- More taken away, or less brought, is no smaller a ratio. -/
theorem documentedIndex_le {p q : NodeBehaviorProfile} {epsilon epsilon' : TensionValue}
    (hp : p.HasRatio epsilon) (hq : q.HasRatio epsilon')
    (hn : p.negativeDelta ≤ q.negativeDelta) (hd : q.denominator epsilon' ≤ p.denominator epsilon) :
    p.documentedIndex epsilon ≤ q.documentedIndex epsilon' := by
  show (p.documentedIndex epsilon).raw.val ≤ (q.documentedIndex epsilon').raw.val
  rw [documentedIndex_val hp, documentedIndex_val hq, Nat.cast_le]
  have hpos := hq.denominator_pos
  have hdelta : p.negativeDelta.raw.val.toNat ≤ q.negativeDelta.raw.val.toNat :=
    Int.toNat_le_toNat hn
  have hdenominator : (q.denominator epsilon').toNat ≤ (p.denominator epsilon).toNat :=
    Int.toNat_le_toNat hd
  exact min_le_min_right _
    (Nat.div_le_div (Nat.mul_le_mul_right _ hdelta) hdenominator (by omega))

/-- The index is the documented ratio, is ordered as it, and decides as it would
in every evaluation. -/
structure AsDocumented (p q : NodeBehaviorProfile) (epsilon epsilon' : TensionValue) : Prop where
  exact : p.hostilityIndex epsilon = p.documentedIndex epsilon
    ∧ q.hostilityIndex epsilon' = q.documentedIndex epsilon'
  ordered : p.negativeDelta ≤ q.negativeDelta → q.denominator epsilon' ≤ p.denominator epsilon →
    p.hostilityIndex epsilon ≤ q.hostilityIndex epsilon'
  decides : ∀ threshold, (threshold < p.hostilityIndex epsilon
      ↔ threshold < p.documentedIndex epsilon)
    ∧ (p.hostilityIndex epsilon ≤ threshold ↔ p.documentedIndex epsilon ≤ threshold)
  evaluates : ∀ (state : ContainmentState) (id : Hash), state.epsilon = epsilon →
    state.nodes[id]? = some p →
      state.evaluate.nodes[id]? = some (state.evaluateWith (p.documentedIndex epsilon) p)

/-- The index is as documented exactly where the scaled remainder fits. -/
theorem asDocumented_iff (p q : NodeBehaviorProfile) (epsilon epsilon' : TensionValue)
    (hp : p.HasRatio epsilon) (hq : q.HasRatio epsilon') :
    AsDocumented p q epsilon epsilon' ↔ p.RemainderFits epsilon ∧ q.RemainderFits epsilon' := by
  rw [← hostilityIndex_eq_iff hp, ← hostilityIndex_eq_iff hq]
  constructor
  · intro h
    exact h.exact
  · rintro ⟨hpExact, hqExact⟩
    refine ⟨⟨hpExact, hqExact⟩, ?_, ?_, ?_⟩
    · rw [hpExact, hqExact]
      exact documentedIndex_le hp hq
    · intro threshold
      rw [hpExact]
      exact ⟨Iff.rfl, Iff.rfl⟩
    · rintro state id rfl hnode
      rw [← hpExact, ContainmentState.getElem?_evaluate, hnode]
      rfl

/-! ## A remainder that does not fit -/

def profileOf (positive negative : Int) : NodeBehaviorProfile where
  nodeId := Hash.ofByte 1
  positiveDelta := TensionValue.fromInteger positive
  negativeDelta := TensionValue.fromInteger negative
  containment := .none

/-- Three units against ten. -/
theorem profileOf_three_ten :
    AsDocumented (profileOf 10 3) (profileOf 10 3) ⟨1⟩ ⟨1⟩ :=
  (asDocumented_iff (profileOf 10 3) (profileOf 10 3) ⟨1⟩ ⟨1⟩ ⟨by decide, by decide⟩
    ⟨by decide, by decide⟩).mpr (by decide)

/-- Three hundred units against four hundred: the index is below a half, and a
threshold of a half does not see the node. -/
theorem profileOf_three_hundred :
    (profileOf 400 300).HasRatio ⟨1⟩
      ∧ (profileOf 400 300).hostilityIndex ⟨1⟩ ≠ (profileOf 400 300).documentedIndex ⟨1⟩
      ∧ ⟨I128.saturate (TensionValue.scale / 2)⟩ < (profileOf 400 300).documentedIndex ⟨1⟩
      ∧ ¬ ⟨I128.saturate (TensionValue.scale / 2)⟩ < (profileOf 400 300).hostilityIndex ⟨1⟩ := by
  refine ⟨⟨by decide, by decide⟩, ?_⟩
  decide +kernel

end NodeBehaviorProfile

end Sccgub
