import Mathlib
import Sccgub.Crypto
import Sccgub.FixedWidth

/-!
# Agents

The identity record that every transition carries, with what it is made of:
fixed-point tension values, the Mfidel seal from the 34 × 8 grid, and the
governance precedence levels, where a lower number outranks a higher one.
-/

namespace Sccgub

open Bincode FixedWidth

abbrev SymbolAddress := Bytes
abbrev AgentId := Hash
abbrev TransitionId := Hash
abbrev NormId := Hash
abbrev ConstraintId := Hash
abbrev RuleId := Hash

/-! ## Tension values -/

/-- Fixed-point value with eighteen decimal places.  All arithmetic saturates. -/
structure TensionValue where
  raw : I128
  deriving DecidableEq, Inhabited

namespace TensionValue

def zero : TensionValue := ⟨0⟩

/-- One unit, `10 ^ 18`. -/
def scale : Int := 1000000000000000000

def fromInteger (n : Int) : TensionValue := ⟨I128.saturate (n * scale)⟩

instance : Add TensionValue := ⟨fun a b => ⟨a.raw.saturatingAdd b.raw⟩⟩

instance : Sub TensionValue := ⟨fun a b => ⟨a.raw.saturatingSub b.raw⟩⟩

instance : LE TensionValue := ⟨fun a b => a.raw ≤ b.raw⟩

instance : LT TensionValue := ⟨fun a b => a.raw < b.raw⟩

instance (a b : TensionValue) : Decidable (a ≤ b) := inferInstanceAs (Decidable (a.raw ≤ b.raw))

instance (a b : TensionValue) : Decidable (a < b) := inferInstanceAs (Decidable (a.raw < b.raw))

theorem ext_val {a b : TensionValue} (h : a.raw.val = b.raw.val) : a = b := by
  cases a
  cases b
  exact congrArg TensionValue.mk (I128.ext h)

theorem saturate_val (a : I128) : I128.saturate a.val = a :=
  I128.ext (I128.val_saturate_of_range a.ge_min a.le_max)

@[simp] theorem add_zero (a : TensionValue) : a + zero = a := by
  show (⟨I128.saturate (a.raw.val + 0)⟩ : TensionValue) = a
  rw [Int.add_zero, saturate_val]

@[simp] theorem sub_zero (a : TensionValue) : a - zero = a := by
  show (⟨I128.saturate (a.raw.val - 0)⟩ : TensionValue) = a
  rw [Int.sub_zero, saturate_val]

/-- Products above this saturate inside the split multiplication. -/
def u128Max : Nat := 2 ^ 128 - 1

/-- Fixed-point product: the whole part and the fractional part of the first
factor are multiplied separately, on absolute values. -/
def mulFp (self other : TensionValue) : TensionValue :=
  let a := self.raw.val
  let b := other.raw.val
  let sign : Int := if (a < 0) != (b < 0) then -1 else 1
  let whole := min (a.natAbs / scale.toNat * b.natAbs) u128Max
  let frac := min (a.natAbs % scale.toNat * b.natAbs) u128Max / scale.toNat
  let result := min (min (whole + frac) u128Max) (2 ^ 127 - 1)
  ⟨I128.saturate (result * sign)⟩

def codec : Codec TensionValue :=
  I128.codec.iso TensionValue.mk raw (fun _ => rfl) (fun _ => rfl)

@[simp] theorem codec_complete (t : TensionValue) : codec.Complete t := I128.codec_complete t.raw

@[simp] theorem codec_fits (t : TensionValue) : codec.Fits t := I128.codec_fits t.raw

end TensionValue

/-! ## Mfidel seals -/

/-- A cell of the 34 × 8 grid, one-indexed. -/
structure MfidelAtomicSeal where
  row : UInt8
  column : UInt8
  deriving DecidableEq, Inhabited

namespace MfidelAtomicSeal

/-- Seal of a block height; the genesis block takes the vowel origin. -/
def fromHeight (height : UInt64) : MfidelAtomicSeal :=
  if height = 0 then ⟨17, 8⟩
  else
    let h := height.toNat - 1
    ⟨UInt8.ofNat (h / 8 % 34 + 1), UInt8.ofNat (h % 8 + 1)⟩

/-- Registration seal that folds in the prior block, so that a registrant
cannot choose its cell. -/
def fromHeightV4 [Crypto] (height : UInt64) (priorBlockHash : Hash) : MfidelAtomicSeal :=
  let hash := Crypto.blake3 ("sccgub-mfidel-seal-v4".toUTF8.data.toList
    ++ priorBlockHash.toList ++ leBytes 8 height.toNat)
  ⟨UInt8.ofNat ((hash.get 0).toNat % 34 + 1), UInt8.ofNat ((hash.get 1).toNat % 8 + 1)⟩

def isValid (self : MfidelAtomicSeal) : Bool :=
  1 ≤ self.row && self.row ≤ 34 && 1 ≤ self.column && self.column ≤ 8

def codec : Codec MfidelAtomicSeal :=
  (Codec.u8.pair Codec.u8).iso (fun p => ⟨p.1, p.2⟩) (fun s => (s.row, s.column))
    (fun _ => rfl) (fun _ => rfl)

@[simp] theorem codec_complete (s : MfidelAtomicSeal) : codec.Complete s := by simp [codec]

@[simp] theorem codec_fits (s : MfidelAtomicSeal) : codec.Fits s := by simp [codec]

end MfidelAtomicSeal

/-! ## Precedence levels -/

inductive PrecedenceLevel where
  | genesis
  | safety
  | meaning
  | emotion
  | optimization
  deriving DecidableEq, Inhabited

namespace PrecedenceLevel

/-- The `repr(u8)` number of the level. -/
def asU8 : PrecedenceLevel → UInt8
  | genesis => 0
  | safety => 1
  | meaning => 2
  | emotion => 3
  | optimization => 4

def debug : PrecedenceLevel → String
  | genesis => "Genesis"
  | safety => "Safety"
  | meaning => "Meaning"
  | emotion => "Emotion"
  | optimization => "Optimization"

def ofIndex : Nat → Option PrecedenceLevel
  | 0 => some genesis
  | 1 => some safety
  | 2 => some meaning
  | 3 => some emotion
  | 4 => some optimization
  | _ => none

def codec : Codec PrecedenceLevel :=
  Codec.fieldless ofIndex (fun l => l.asU8.toNat) (by intro l; cases l <;> rfl)

@[simp] theorem codec_complete (l : PrecedenceLevel) : codec.Complete l :=
  Codec.fieldless_complete l

@[simp] theorem codec_fits (l : PrecedenceLevel) : codec.Fits l := by
  cases l <;> simp [codec, asU8]

theorem asU8_injective : Function.Injective asU8 := by
  intro a b h
  cases a <;> cases b <;> first | rfl | cases h

end PrecedenceLevel

/-! ## Identities -/

structure ResponsibilityEntry where
  transitionId : TransitionId
  rValue : TensionValue
  blockHeight : UInt64
  deriving DecidableEq, Inhabited

def ResponsibilityEntry.codec : Codec ResponsibilityEntry :=
  ((Codec.bytes 32).pair <| TensionValue.codec.pair Codec.u64).iso
    (fun p => ⟨p.1, p.2.1, p.2.2⟩) (fun e => (e.transitionId, e.rValue, e.blockHeight))
    (fun _ => rfl) (fun _ => rfl)

@[simp] theorem ResponsibilityEntry.codec_complete (e : ResponsibilityEntry) :
    codec.Complete e := by simp [codec]

structure ResponsibilityState where
  positiveContributions : List ResponsibilityEntry
  negativeContributions : List ResponsibilityEntry
  netResponsibility : TensionValue
  reliabilityScore : TensionValue
  normComplianceScore : TensionValue
  decayFactor : TensionValue
  deriving DecidableEq

instance : Inhabited ResponsibilityState where
  default :=
    { positiveContributions := []
      negativeContributions := []
      netResponsibility := .zero
      reliabilityScore := .fromInteger 1
      normComplianceScore := .fromInteger 1
      decayFactor := ⟨I128.saturate (TensionValue.scale / 10)⟩ }

def ResponsibilityState.codec : Codec ResponsibilityState :=
  (ResponsibilityEntry.codec.list.pair <| ResponsibilityEntry.codec.list.pair <|
    TensionValue.codec.pair <| TensionValue.codec.pair <| TensionValue.codec.pair
    TensionValue.codec).iso
    (fun p => ⟨p.1, p.2.1, p.2.2.1, p.2.2.2.1, p.2.2.2.2.1, p.2.2.2.2.2⟩)
    (fun r => (r.positiveContributions, r.negativeContributions, r.netResponsibility,
      r.reliabilityScore, r.normComplianceScore, r.decayFactor))
    (fun _ => rfl) (fun _ => rfl)

@[simp] theorem ResponsibilityState.codec_complete (r : ResponsibilityState) :
    codec.Complete r := by simp [codec]

/-- Agent identity; `agent_id` is to be the hash of key and seal. -/
structure AgentIdentity where
  agentId : AgentId
  publicKey : Hash
  mfidelSeal : MfidelAtomicSeal
  registrationBlock : UInt64
  governanceLevel : PrecedenceLevel
  normSet : HashSet
  responsibility : ResponsibilityState
  deriving DecidableEq

def AgentIdentity.codec : Codec AgentIdentity :=
  ((Codec.bytes 32).pair <| (Codec.bytes 32).pair <| MfidelAtomicSeal.codec.pair <|
    Codec.u64.pair <| PrecedenceLevel.codec.pair <| hashSetCodec.pair
    ResponsibilityState.codec).iso
    (fun p => ⟨p.1, p.2.1, p.2.2.1, p.2.2.2.1, p.2.2.2.2.1, p.2.2.2.2.2.1, p.2.2.2.2.2.2⟩)
    (fun a => (a.agentId, a.publicKey, a.mfidelSeal, a.registrationBlock, a.governanceLevel,
      a.normSet, a.responsibility))
    (fun _ => rfl) (fun _ => rfl)

@[simp] theorem AgentIdentity.codec_complete (a : AgentIdentity) : codec.Complete a := by
  simp [codec]

end Sccgub
