import Mathlib
import Sccgub.Crypto
import Sccgub.OrderedMap

/-!
# Partition detection

Validators report heights.  When these lie too far apart, the validators are
split at the middle between the lowest and the highest one, and the larger group
is the canonical one.

The middle is half of a sum, and the sum of two heights need not be a height.
Whether an addition out of range stops the program or wraps around is up to how
it was built, so it is a parameter here.
-/

namespace Sccgub

/-- For the lemmas on the largest element of a list. -/
instance lawfulOrderMaxUInt64 : Std.LawfulOrderMax UInt64 where
  max_le_iff a b c := by
    show (if a ≤ b then b else a) ≤ c ↔ a ≤ c ∧ b ≤ c
    by_cases hle : a ≤ b
    · rw [if_pos hle]
      exact ⟨fun h => ⟨UInt64.le_trans hle h, h⟩, And.right⟩
    · rw [if_neg hle]
      have hge : b ≤ a := UInt64.le_of_lt (UInt64.not_le.mp hle)
      exact ⟨fun h => ⟨h, UInt64.le_trans hge h⟩, And.left⟩
  max_eq_or a b := by
    show (if a ≤ b then b else a) = a ∨ (if a ≤ b then b else a) = b
    split_ifs
    · exact Or.inr rfl
    · exact Or.inl rfl

structure PartitionConfig where
  divergenceThreshold : UInt64 := 10
  maxRollbackDepth : UInt64 := 100
  deriving DecidableEq

structure ValidatorGroup where
  validators : List Hash := []
  maxHeight : UInt64 := 0
  blockHashAtMax : Option Hash := none
  deriving DecidableEq

inductive PartitionStatus where
  | healthy (minHeight maxHeight : UInt64)
  | partitioned (groups : List ValidatorGroup) (canonicalGroupIndex : Nat)
  deriving DecidableEq

structure PartitionDetector where
  validatorHeights : Std.ExtTreeMap Hash UInt64 := ∅

/-- A sum that is out of range stops a build that checks for it. -/
def plus (overflowChecks : Bool) (a b : UInt64) : Option UInt64 :=
  if overflowChecks && decide (2 ^ 64 ≤ a.toNat + b.toNat) then none else some (a + b)

def ValidatorGroup.report (group : ValidatorGroup) (validator : Hash) (height : UInt64) :
    ValidatorGroup :=
  { group with
    validators := group.validators ++ [validator]
    maxHeight := max group.maxHeight height }

namespace PartitionDetector

def reportHeight (detector : PartitionDetector) (validator : Hash) (height : UInt64) :
    PartitionDetector :=
  { validatorHeights := detector.validatorHeights.insert validator height }

def heights (detector : PartitionDetector) : List UInt64 :=
  detector.validatorHeights.toList.map Prod.snd

/-- Low group first. -/
def place (midpoint : UInt64) (groups : ValidatorGroup × ValidatorGroup) (entry : Hash × UInt64) :
    ValidatorGroup × ValidatorGroup :=
  if entry.2 ≤ midpoint then (groups.1.report entry.1 entry.2, groups.2)
  else (groups.1, groups.2.report entry.1 entry.2)

def splitAt (midpoint : UInt64) (detector : PartitionDetector) : ValidatorGroup × ValidatorGroup :=
  detector.validatorHeights.toList.foldl (place midpoint) ({}, {})

/-- Nothing is returned where the program stops. -/
def detect (overflowChecks : Bool) (detector : PartitionDetector) (config : PartitionConfig) :
    Option PartitionStatus :=
  match detector.heights.min?, detector.heights.max? with
  | some min, some max =>
      if max - min ≤ config.divergenceThreshold then some (.healthy min max)
      else (plus overflowChecks min max).map fun sum =>
        let (low, high) := detector.splitAt (sum / 2)
        .partitioned [low, high] (if high.validators.length ≤ low.validators.length then 0 else 1)
  | _, _ => some (.healthy 0 0)

/-! ## The split -/

theorem validators_foldl_place (midpoint : UInt64) (entries : List (Hash × UInt64))
    (groups : ValidatorGroup × ValidatorGroup) :
    (entries.foldl (place midpoint) groups).1.validators
        = groups.1.validators ++ (entries.filter (·.2 ≤ midpoint)).map Prod.fst
      ∧ (entries.foldl (place midpoint) groups).2.validators
        = groups.2.validators ++ (entries.filter (midpoint < ·.2)).map Prod.fst := by
  induction entries generalizing groups with
  | nil => simp
  | cons entry entries ih =>
      rw [List.foldl_cons]
      obtain ⟨hlow, hhigh⟩ := ih (place midpoint groups entry)
      rw [hlow, hhigh]
      unfold place
      by_cases hle : entry.2 ≤ midpoint
      · simp [hle, UInt64.not_lt.mpr hle, ValidatorGroup.report]
      · simp [hle, UInt64.not_le.mp hle, ValidatorGroup.report]

theorem low_splitAt (midpoint : UInt64) (detector : PartitionDetector) :
    (detector.splitAt midpoint).1.validators
      = (detector.validatorHeights.toList.filter (·.2 ≤ midpoint)).map Prod.fst := by
  simpa [splitAt] using
    (validators_foldl_place midpoint detector.validatorHeights.toList ({}, {})).1

theorem high_splitAt (midpoint : UInt64) (detector : PartitionDetector) :
    (detector.splitAt midpoint).2.validators
      = (detector.validatorHeights.toList.filter (midpoint < ·.2)).map Prod.fst := by
  simpa [splitAt] using
    (validators_foldl_place midpoint detector.validatorHeights.toList ({}, {})).2

/-- The lowest and the highest height that is reported. -/
structure Extremes (detector : PartitionDetector) (low high : UInt64) : Prop where
  low_mem : low ∈ detector.heights
  high_mem : high ∈ detector.heights
  low_le : ∀ height ∈ detector.heights, low ≤ height
  le_high : ∀ height ∈ detector.heights, height ≤ high

theorem exists_extremes {detector : PartitionDetector} (hne : detector.validatorHeights ≠ ∅) :
    ∃ low high, detector.Extremes low high ∧ detector.heights.min? = some low
      ∧ detector.heights.max? = some high := by
  have hnil : detector.heights ≠ [] := by
    intro hnil
    have hempty := List.map_eq_nil_iff.mp hnil
    exact hne (Std.ExtTreeMap.isEmpty_iff.mp (by rw [← Std.ExtTreeMap.isEmpty_toList, hempty]; rfl))
  obtain ⟨low, hlow⟩ := Option.isSome_iff_exists.mp (List.isSome_min?_of_ne_nil hnil)
  obtain ⟨high, hhigh⟩ := Option.isSome_iff_exists.mp (List.isSome_max?_of_ne_nil hnil)
  obtain ⟨hlowMem, hlowLe⟩ := List.min?_eq_some_iff.mp hlow
  obtain ⟨hhighMem, hleHigh⟩ := List.max?_eq_some_iff.mp hhigh
  exact ⟨low, high, ⟨hlowMem, hhighMem, hlowLe, hleHigh⟩, hlow, hhigh⟩

/-- Two groups that share the validators out, one strictly below the other. -/
structure Split (detector : PartitionDetector) (low high : ValidatorGroup) : Prop where
  low_nonempty : low.validators ≠ []
  high_nonempty : high.validators ≠ []
  whole : (low.validators ++ high.validators).Perm detector.validatorHeights.keys
  apart : ∀ validator ∈ low.validators, ∀ validator' ∈ high.validators, ∀ height height',
    detector.validatorHeights[validator]? = some height →
      detector.validatorHeights[validator']? = some height' → height < height'

/-- What a status has to say of heights that lie this far apart. -/
def Describes (detector : PartitionDetector) (config : PartitionConfig) (spread : Nat) :
    PartitionStatus → Prop
  | .healthy _ _ => spread ≤ config.divergenceThreshold.toNat
  | .partitioned groups canonicalGroupIndex =>
      config.divergenceThreshold.toNat < spread
        ∧ (∃ low high, groups = [low, high] ∧ detector.Split low high)
        ∧ ∃ canonical, groups[canonicalGroupIndex]? = some canonical
          ∧ ∀ group ∈ groups, group.validators.length ≤ canonical.validators.length

theorem mem_low_splitAt {midpoint : UInt64} {detector : PartitionDetector} {validator : Hash} :
    validator ∈ (detector.splitAt midpoint).1.validators
      ↔ ∃ height, detector.validatorHeights[validator]? = some height ∧ height ≤ midpoint := by
  simp [low_splitAt, Std.ExtTreeMap.mem_toList_iff_getElem?_eq_some]

theorem mem_high_splitAt {midpoint : UInt64} {detector : PartitionDetector} {validator : Hash} :
    validator ∈ (detector.splitAt midpoint).2.validators
      ↔ ∃ height, detector.validatorHeights[validator]? = some height ∧ midpoint < height := by
  simp [high_splitAt, Std.ExtTreeMap.mem_toList_iff_getElem?_eq_some]

theorem mem_heights {detector : PartitionDetector} {height : UInt64} :
    height ∈ detector.heights
      ↔ ∃ validator : Hash, detector.validatorHeights[validator]? = some height := by
  simp [heights, Std.ExtTreeMap.mem_toList_iff_getElem?_eq_some]

/-- Any midpoint from the lowest height to below the highest one splits. -/
theorem split_splitAt {detector : PartitionDetector} {low high midpoint : UInt64}
    (h : detector.Extremes low high) (hlow : low ≤ midpoint) (hhigh : midpoint < high) :
    detector.Split (detector.splitAt midpoint).1 (detector.splitAt midpoint).2 where
  low_nonempty := by
    obtain ⟨validator, hvalidator⟩ := mem_heights.mp h.low_mem
    exact List.ne_nil_of_mem (mem_low_splitAt.mpr ⟨low, hvalidator, hlow⟩)
  high_nonempty := by
    obtain ⟨validator, hvalidator⟩ := mem_heights.mp h.high_mem
    exact List.ne_nil_of_mem (mem_high_splitAt.mpr ⟨high, hvalidator, hhigh⟩)
  whole := by
    rw [low_splitAt, high_splitAt, ← List.map_append, ← Std.ExtTreeMap.map_fst_toList_eq_keys]
    have hnot : (fun entry : Hash × UInt64 => decide (midpoint < entry.2))
        = fun entry => !decide (entry.2 ≤ midpoint) := by
      funext entry
      rw [← decide_not, decide_eq_decide, UInt64.not_le]
    rw [hnot]
    exact (List.filter_append_perm _ _).map _
  apart validator hvalidator validator' hvalidator' height height' hheight hheight' := by
    obtain ⟨a, ha, hle⟩ := mem_low_splitAt.mp hvalidator
    obtain ⟨b, hb, hlt⟩ := mem_high_splitAt.mp hvalidator'
    obtain rfl := Option.some.inj (ha.symm.trans hheight)
    obtain rfl := Option.some.inj (hb.symm.trans hheight')
    exact UInt64.lt_of_le_of_lt hle hlt

/-! ## The middle -/

theorem toNat_middle {low high : UInt64} (h : low.toNat + high.toNat < 2 ^ 64) :
    ((low + high) / 2).toNat = (low.toNat + high.toNat) / 2 := by
  rw [UInt64.toNat_div, UInt64.toNat_add, Nat.mod_eq_of_lt h]
  rfl

/-- Half of a sum that wrapped around lies below the lowest height. -/
theorem middle_lt {low high : UInt64} (h : 2 ^ 64 ≤ low.toNat + high.toNat) :
    (low + high) / 2 < low := by
  have hlow := low.toNat_lt
  have hhigh := high.toNat_lt
  rw [UInt64.lt_iff_toNat_lt, UInt64.toNat_div, UInt64.toNat_add]
  have htwo : (2 : UInt64).toNat = 2 := rfl
  rw [htwo]
  omega

theorem low_splitAt_eq_nil {detector : PartitionDetector} {low high midpoint : UInt64}
    (h : detector.Extremes low high) (hmid : midpoint < low) :
    (detector.splitAt midpoint).1.validators = [] := by
  refine List.eq_nil_iff_forall_not_mem.mpr fun validator hvalidator => ?_
  obtain ⟨height, hheight, hle⟩ := mem_low_splitAt.mp hvalidator
  have hlow := h.low_le height (mem_heights.mpr ⟨validator, hheight⟩)
  exact UInt64.not_le.mpr hmid (UInt64.le_trans hlow hle)

theorem detect_eq {detector : PartitionDetector} {low high : UInt64}
    (hmin : detector.heights.min? = some low) (hmax : detector.heights.max? = some high)
    (overflowChecks : Bool) (config : PartitionConfig) :
    detector.detect overflowChecks config
      = if high - low ≤ config.divergenceThreshold then some (.healthy low high)
        else (plus overflowChecks low high).map fun sum =>
          .partitioned [(detector.splitAt (sum / 2)).1, (detector.splitAt (sum / 2)).2]
            (if (detector.splitAt (sum / 2)).2.validators.length
                ≤ (detector.splitAt (sum / 2)).1.validators.length then 0 else 1) := by
  unfold detect
  rw [hmin, hmax]

/-- On any map of reports, detection comes to an answer that describes it exactly
when the heights are close together or the middle is computed within range. -/
theorem detect_describes_iff {detector : PartitionDetector}
    (hne : detector.validatorHeights ≠ ∅) :
    ∃ low high, detector.Extremes low high ∧ ∀ overflowChecks config,
      (∃ status, detector.detect overflowChecks config = some status
          ∧ detector.Describes config (high.toNat - low.toNat) status)
        ↔ high.toNat - low.toNat ≤ config.divergenceThreshold.toNat
          ∨ low.toNat + high.toNat < 2 ^ 64 := by
  obtain ⟨low, high, hextremes, hmin, hmax⟩ := exists_extremes hne
  refine ⟨low, high, hextremes, fun overflowChecks config => ?_⟩
  have hle : low ≤ high := hextremes.low_le high hextremes.high_mem
  have hspread : (high - low).toNat = high.toNat - low.toNat := UInt64.toNat_sub_of_le _ _ hle
  rw [detect_eq hmin hmax]
  by_cases hclose : high - low ≤ config.divergenceThreshold
  · have hnat := UInt64.le_iff_toNat_le.mp hclose
    rw [hspread] at hnat
    rw [if_pos hclose]
    exact ⟨fun _ => Or.inl hnat, fun _ => ⟨_, rfl, hnat⟩⟩
  · have hfar := hclose
    rw [UInt64.le_iff_toNat_le, hspread] at hfar
    rw [if_neg hclose]
    by_cases hrange : low.toNat + high.toNat < 2 ^ 64
    · refine ⟨fun _ => Or.inr hrange, fun _ => ?_⟩
      have hplus : plus overflowChecks low high = some (low + high) := by
        unfold plus
        rw [decide_eq_false (by omega), Bool.and_false]
        rfl
      rw [hplus]
      have hmiddle := toNat_middle hrange
      have hsplit : detector.Split (detector.splitAt ((low + high) / 2)).1
          (detector.splitAt ((low + high) / 2)).2 :=
        split_splitAt hextremes (by rw [UInt64.le_iff_toNat_le]; omega)
          (by rw [UInt64.lt_iff_toNat_lt]; omega)
      refine ⟨_, rfl, by omega, ⟨_, _, rfl, hsplit⟩, ?_⟩
      split_ifs with hlarger
      · exact ⟨_, rfl, by simpa using hlarger⟩
      · exact ⟨_, rfl, by simpa using Nat.le_of_not_le hlarger⟩
    · refine ⟨?_, fun h => absurd h (by omega)⟩
      rintro ⟨status, hstatus, hdescribes⟩
      obtain ⟨sum, hsum, rfl⟩ := Option.map_eq_some_iff.mp hstatus
      have hwrapped : sum = low + high := by
        unfold plus at hsum
        split_ifs at hsum
        exact (Option.some.inj hsum).symm
      obtain ⟨-, ⟨lowGroup, highGroup, hgroups, hsplit⟩, -⟩ :
          _ ∧ (∃ lowGroup highGroup, _ = [lowGroup, highGroup] ∧ _) ∧ _ := hdescribes
      obtain ⟨rfl, -⟩ := List.cons.inj hgroups
      refine absurd ?_ hsplit.low_nonempty
      rw [hwrapped]
      exact low_splitAt_eq_nil hextremes (middle_lt (by omega))

/-- Two peers that report heights in the upper half of the range. -/
def farPeers : PartitionDetector :=
  (reportHeight {} (.ofByte 1) 0x8000000000000000).reportHeight (.ofByte 2) 0xFFFFFFFFFFFFFFFF

theorem farPeers_ne_empty : farPeers.validatorHeights ≠ ∅ := by
  intro hempty
  have hsize := congrArg Std.ExtTreeMap.size hempty
  revert hsize
  decide +kernel

theorem detect_farPeers_describes_iff :
    ∃ low high, farPeers.Extremes low high ∧ ∀ overflowChecks config,
      (∃ status, farPeers.detect overflowChecks config = some status
          ∧ farPeers.Describes config (high.toNat - low.toNat) status)
        ↔ high.toNat - low.toNat ≤ config.divergenceThreshold.toNat
          ∨ low.toNat + high.toNat < 2 ^ 64 :=
  detect_describes_iff farPeers_ne_empty

/-- One build stops, the other one puts both peers into the high group. -/
theorem farPeers_not_described :
    (¬ ∃ status, farPeers.detect true {} = some status
        ∧ farPeers.Describes {} (0xFFFFFFFFFFFFFFFF - 0x8000000000000000) status)
      ∧ ¬ ∃ status, farPeers.detect false {} = some status
        ∧ farPeers.Describes {} (0xFFFFFFFFFFFFFFFF - 0x8000000000000000) status := by
  constructor
  · rintro ⟨status, hstatus, -⟩
    have hstops : farPeers.detect true {} = none := by decide +kernel
    rw [hstops] at hstatus
    cases hstatus
  · rintro ⟨status, hstatus, hdescribes⟩
    have hgroups : farPeers.detect false {}
        = some (.partitioned [{}, ⟨[.ofByte 1, .ofByte 2], 0xFFFFFFFFFFFFFFFF, none⟩] 1) := by
      decide +kernel
    rw [hgroups] at hstatus
    obtain rfl := Option.some.inj hstatus
    obtain ⟨-, ⟨low, high, hsplit, hgood⟩, -⟩ := hdescribes
    obtain ⟨rfl, -⟩ := List.cons.inj hsplit
    exact hgood.low_nonempty rfl

end PartitionDetector

end Sccgub
