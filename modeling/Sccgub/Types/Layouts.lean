import Mathlib
import Sccgub.Types.Ceilings

/-!
# Older layouts

Parameters and ceilings are stored without a tag, and each layout that was ever
written is tried from the newest to the oldest.  What keeps them apart is their
length: every layout is longer than the one before, and a decoder that runs out
of bytes fails.

The parameters have a decoder for each of their layouts.  The ceilings lack one
for their first layout, the thirteen fields of the third block version.
-/

namespace Bincode.Codec

variable {α β : Type} {c : Codec α} {d : Codec β} {m n : Nat}

/-- A layout whose values all take the same number of bytes. -/
def Takes (c : Codec α) (n : Nat) : Prop := ∀ a, c.size a = n

theorem takes_u32 : u32.Takes 4 := fun _ => rfl

theorem takes_u64 : u64.Takes 8 := fun _ => rfl

theorem Takes.pair (hc : c.Takes m) (hd : d.Takes n) : (c.pair d).Takes (m + n) :=
  fun p => congrArg₂ (· + ·) (hc p.1) (hd p.2)

theorem Takes.iso (hc : c.Takes n) {f : α → β} {g : β → α} (hfg : ∀ b, f (g b) = b)
    (hgf : ∀ a, g (f a) = a) : (c.iso f g hfg hgf).Takes n :=
  fun b => hc (g b)

/-- It is not read from fewer bytes than it takes. -/
theorem Takes.ofBytes_eq_none (hc : c.Takes n) {bs : Bytes} (h : bs.length < n) :
    c.ofBytes bs = none := by
  unfold ofBytes
  rcases hdec : c.dec bs with _ | ⟨a, rest⟩
  · rfl
  · have hread := c.size_le hdec
    rw [hc a] at hread
    omega

/-- What it writes is as long as it takes, and is read back. -/
theorem Takes.length_enc (hc : c.Takes n) {a : α} (h : c.Complete a) : (c.enc a).length = n :=
  h.trans (hc a)

theorem ofBytes_enc {a : α} (h : c.Fits a ∧ c.Complete a) : c.ofBytes (c.enc a) = some a :=
  (c.ofBytes_enc_iff h.1).mpr h.2

end Bincode.Codec

namespace Sccgub

open Bincode FixedWidth

open Codec (takes_u32 takes_u64)

theorem takes_i64 : i64Codec.Takes 8 := fun _ => rfl

theorem takes_i128 : I128.codec.Takes 16 := fun _ => rfl

/-! ## Consensus parameters -/

theorem LegacyConsensusParamsV1.takes : LegacyConsensusParamsV1.codec.Takes 120 :=
  (takes_u32.pair <| takes_u32.pair <| takes_u64.pair <| takes_u64.pair <| takes_u64.pair <|
    takes_u64.pair <| takes_u64.pair <| takes_u64.pair <| takes_u64.pair <| takes_u64.pair <|
    takes_u64.pair <| takes_u64.pair <| takes_u64.pair <| takes_u64.pair <| takes_u64.pair <|
    takes_u32.pair takes_u32).iso _ _

theorem LegacyConsensusParamsV2.takes : LegacyConsensusParamsV2.codec.Takes 140 :=
  (takes_u32.pair <| takes_u32.pair <| takes_u64.pair <| takes_u32.pair <| takes_u64.pair <|
    takes_u64.pair <| takes_u64.pair <| takes_u64.pair <| takes_u64.pair <| takes_u64.pair <|
    takes_u64.pair <| takes_u64.pair <| takes_u64.pair <| takes_u64.pair <| takes_u64.pair <|
    takes_u64.pair <| takes_u64.pair <| takes_u32.pair <| takes_u32.pair takes_i64).iso _ _

theorem LegacyConsensusParamsV3.takes : LegacyConsensusParamsV3.codec.Takes 164 :=
  (LegacyConsensusParamsV2.takes.pair <| takes_u32.pair <| takes_u32.pair <| takes_u32.pair <|
    takes_u32.pair <| takes_u32.pair takes_u32).iso _ _

theorem LegacyConsensusParamsV4.takes : LegacyConsensusParamsV4.codec.Takes 196 :=
  (LegacyConsensusParamsV3.takes.pair <| takes_u32.pair <| takes_i128.pair <| takes_u64.pair
    takes_u32).iso _ _

theorem ConsensusParams.takes : ConsensusParams.codec.Takes 200 :=
  (LegacyConsensusParamsV4.takes.pair takes_u32).iso _ _

@[simp] theorem LegacyConsensusParamsV1.codec_fits (v : LegacyConsensusParamsV1) :
    codec.Fits v ∧ codec.Complete v := by
  simp [codec]

@[simp] theorem ConsensusParams.codec_fits (p : ConsensusParams) :
    codec.Fits p ∧ codec.Complete p := by
  simp [codec]

/-- A record in the layout that it was written in. -/
inductive StoredParams where
  | v1 (v : LegacyConsensusParamsV1)
  | v2 (v : LegacyConsensusParamsV2)
  | v3 (v : LegacyConsensusParamsV3)
  | v4 (v : LegacyConsensusParamsV4)
  | current (p : ConsensusParams)

namespace StoredParams

def bytes : StoredParams → Bytes
  | .v1 v => LegacyConsensusParamsV1.codec.enc v
  | .v2 v => LegacyConsensusParamsV2.codec.enc v
  | .v3 v => LegacyConsensusParamsV3.codec.enc v
  | .v4 v => LegacyConsensusParamsV4.codec.enc v
  | .current p => p.toCanonicalBytes

/-- The fields it has, over the defaults. -/
def overDefaults : StoredParams → ConsensusParams
  | .v1 v => { ({} : ConsensusParams) with
      maxProofDepth := v.maxProofDepth
      maxActivatedSymbols := v.maxActivatedSymbols
      maxScanPerSymbol := v.maxScanPerSymbol
      maxConstraintsPerSymbol := v.maxConstraintsPerSymbol
      defaultMaxSteps := v.defaultMaxSteps
      defaultTxGasLimit := v.defaultTxGasLimit
      defaultBlockGasLimit := v.defaultBlockGasLimit
      gasTxBase := v.gasTxBase
      gasComputeStep := v.gasComputeStep
      gasStateRead := v.gasStateRead
      gasStateWrite := v.gasStateWrite
      gasSigVerify := v.gasSigVerify
      gasHashOp := v.gasHashOp
      gasProofByte := v.gasProofByte
      gasPayloadByte := v.gasPayloadByte
      maxSymbolAddressLen := v.maxSymbolAddressLen
      maxStateEntrySize := v.maxStateEntrySize }
  | .v2 v => { ({} : ConsensusParams) with toLegacyConsensusParamsV2 := v }
  | .v3 v => { ({} : ConsensusParams) with toLegacyConsensusParamsV3 := v }
  | .v4 v => { ({} : ConsensusParams) with toLegacyConsensusParamsV4 := v }
  | .current p => p

/-- Every newer layout runs out of bytes. -/
theorem decode_bytes (stored : StoredParams) :
    ConsensusParams.decode stored.bytes = some stored.overDefaults := by
  have h1 := LegacyConsensusParamsV1.takes
  have h2 := LegacyConsensusParamsV2.takes
  have h3 := LegacyConsensusParamsV3.takes
  have h4 := LegacyConsensusParamsV4.takes
  have h5 := ConsensusParams.takes
  unfold ConsensusParams.decode
  cases stored with
  | v1 v =>
      have hfits := v.codec_fits
      have hlen : (StoredParams.v1 v).bytes.length = 120 := h1.length_enc hfits.2
      rw [h5.ofBytes_eq_none (by omega), h4.ofBytes_eq_none (by omega),
        h3.ofBytes_eq_none (by omega), h2.ofBytes_eq_none (by omega), bytes,
        Codec.ofBytes_enc hfits]
      rfl
  | v2 v =>
      have hfits := v.codec_fits
      have hlen : (StoredParams.v2 v).bytes.length = 140 := h2.length_enc hfits.2
      rw [h5.ofBytes_eq_none (by omega), h4.ofBytes_eq_none (by omega),
        h3.ofBytes_eq_none (by omega), bytes, Codec.ofBytes_enc hfits]
      rfl
  | v3 v =>
      have hfits := v.codec_fits
      have hlen : (StoredParams.v3 v).bytes.length = 164 := h3.length_enc hfits.2
      rw [h5.ofBytes_eq_none (by omega), h4.ofBytes_eq_none (by omega), bytes,
        Codec.ofBytes_enc hfits]
      rfl
  | v4 v =>
      have hfits := v.codec_fits
      have hlen : (StoredParams.v4 v).bytes.length = 196 := h4.length_enc hfits.2
      rw [h5.ofBytes_eq_none (by omega), bytes, Codec.ofBytes_enc hfits]
      rfl
  | current p =>
      rw [bytes, ConsensusParams.toCanonicalBytes, Codec.ofBytes_enc p.codec_fits]
      rfl

/-- Every layout that was ever written is read back with its own fields, the
others at their defaults. -/
theorem fromCanonicalBytes_bytes (stored : StoredParams)
    (h : stored.overDefaults.validate = .ok ()) :
    ConsensusParams.fromCanonicalBytes stored.bytes = .ok stored.overDefaults := by
  rw [ConsensusParams.fromCanonicalBytes, stored.decode_bytes]
  show (stored.overDefaults.validate >>= fun _ => pure stored.overDefaults) = _
  rw [h]
  rfl

def firstParams : LegacyConsensusParamsV1 where
  maxProofDepth := 300
  maxActivatedSymbols := 16
  maxScanPerSymbol := 1000
  maxConstraintsPerSymbol := 64
  defaultMaxSteps := 10000
  defaultTxGasLimit := 1000000
  defaultBlockGasLimit := 50000000
  gasTxBase := 1000
  gasComputeStep := 10
  gasStateRead := 100
  gasStateWrite := 500
  gasSigVerify := 3000
  gasHashOp := 50
  gasProofByte := 5
  gasPayloadByte := 2
  maxSymbolAddressLen := 4096
  maxStateEntrySize := 1048576

theorem fromCanonicalBytes_bytes_firstParams :
    ConsensusParams.fromCanonicalBytes (StoredParams.v1 firstParams).bytes
      = .ok { ({} : ConsensusParams) with maxProofDepth := 300 } :=
  fromCanonicalBytes_bytes (.v1 firstParams) (by decide +kernel)

end StoredParams

/-! ## Constitutional ceilings -/

/-- The layout of the third block version, as the specification lists it. -/
structure Patch04ConstitutionalCeilings where
  maxProofDepthCeiling : UInt32
  maxTxGasCeiling : UInt64
  maxBlockGasCeiling : UInt64
  maxContractStepsCeiling : UInt64
  maxAddressLengthCeiling : UInt32
  maxStateEntrySizeCeiling : UInt32
  maxTensionSwingCeiling : Int64
  maxBlockBytesCeiling : UInt32
  maxActiveProposalsCeiling : UInt32
  maxViewChangeBaseTimeoutMs : UInt32
  maxViewChangeMaxTimeoutMs : UInt32
  maxValidatorSetSizeCeiling : UInt32
  maxValidatorSetChangesPerBlock : UInt32
  deriving DecidableEq, Inhabited

def Patch04ConstitutionalCeilings.codec : Codec Patch04ConstitutionalCeilings :=
  (Codec.u32.pair <| Codec.u64.pair <| Codec.u64.pair <| Codec.u64.pair <| Codec.u32.pair <|
    Codec.u32.pair <| i64Codec.pair <| Codec.u32.pair <| Codec.u32.pair <| Codec.u32.pair <|
    Codec.u32.pair <| Codec.u32.pair Codec.u32).iso
    (fun ⟨a, b, c, d, e, f, g, h, i, j, k, l, m⟩ => ⟨a, b, c, d, e, f, g, h, i, j, k, l, m⟩)
    (fun ⟨a, b, c, d, e, f, g, h, i, j, k, l, m⟩ => (a, b, c, d, e, f, g, h, i, j, k, l, m))
    (fun _ => rfl) (fun _ => rfl)

theorem Patch04ConstitutionalCeilings.takes : Patch04ConstitutionalCeilings.codec.Takes 68 :=
  (takes_u32.pair <| takes_u64.pair <| takes_u64.pair <| takes_u64.pair <| takes_u32.pair <|
    takes_u32.pair <| takes_i64.pair <| takes_u32.pair <| takes_u32.pair <| takes_u32.pair <|
    takes_u32.pair <| takes_u32.pair takes_u32).iso _ _

theorem LegacyConstitutionalCeilingsV1.takes : LegacyConstitutionalCeilingsV1.codec.Takes 100 :=
  (takes_u32.pair <| takes_u64.pair <| takes_u64.pair <| takes_u64.pair <| takes_u32.pair <|
    takes_u32.pair <| takes_i64.pair <| takes_u32.pair <| takes_u32.pair <| takes_u32.pair <|
    takes_u32.pair <| takes_u32.pair <| takes_u32.pair <| takes_i128.pair <| takes_u32.pair <|
    takes_u64.pair takes_u32).iso _ _

theorem LegacyConstitutionalCeilingsV2.takes : LegacyConstitutionalCeilingsV2.codec.Takes 116 :=
  (LegacyConstitutionalCeilingsV1.takes.pair takes_i128).iso _ _

theorem ConstitutionalCeilings.takes : ConstitutionalCeilings.codec.Takes 120 :=
  (LegacyConstitutionalCeilingsV2.takes.pair takes_u32).iso _ _

@[simp] theorem Patch04ConstitutionalCeilings.codec_fits (c : Patch04ConstitutionalCeilings) :
    codec.Fits c ∧ codec.Complete c := by
  simp [codec]

@[simp] theorem LegacyConstitutionalCeilingsV1.codec_fits (c : LegacyConstitutionalCeilingsV1) :
    codec.Fits c ∧ codec.Complete c := by
  simp [codec]

@[simp] theorem LegacyConstitutionalCeilingsV2.codec_fits (c : LegacyConstitutionalCeilingsV2) :
    codec.Fits c ∧ codec.Complete c := by
  simp [codec]

@[simp] theorem ConstitutionalCeilings.codec_fits (c : ConstitutionalCeilings) :
    codec.Fits c ∧ codec.Complete c := by
  simp [codec]

inductive StoredCeilings where
  | patch04 (c : Patch04ConstitutionalCeilings)
  | v1 (c : LegacyConstitutionalCeilingsV1)
  | v2 (c : LegacyConstitutionalCeilingsV2)
  | current (c : ConstitutionalCeilings)

namespace StoredCeilings

def bytes : StoredCeilings → Bytes
  | .patch04 c => Patch04ConstitutionalCeilings.codec.enc c
  | .v1 c => LegacyConstitutionalCeilingsV1.codec.enc c
  | .v2 c => LegacyConstitutionalCeilingsV2.codec.enc c
  | .current c => c.toCanonicalBytes

def overDefaults : StoredCeilings → ConstitutionalCeilings
  | .patch04 c => { ({} : ConstitutionalCeilings) with
      maxProofDepthCeiling := c.maxProofDepthCeiling
      maxTxGasCeiling := c.maxTxGasCeiling
      maxBlockGasCeiling := c.maxBlockGasCeiling
      maxContractStepsCeiling := c.maxContractStepsCeiling
      maxAddressLengthCeiling := c.maxAddressLengthCeiling
      maxStateEntrySizeCeiling := c.maxStateEntrySizeCeiling
      maxTensionSwingCeiling := c.maxTensionSwingCeiling
      maxBlockBytesCeiling := c.maxBlockBytesCeiling
      maxActiveProposalsCeiling := c.maxActiveProposalsCeiling
      maxViewChangeBaseTimeoutMs := c.maxViewChangeBaseTimeoutMs
      maxViewChangeMaxTimeoutMs := c.maxViewChangeMaxTimeoutMs
      maxValidatorSetSizeCeiling := c.maxValidatorSetSizeCeiling
      maxValidatorSetChangesPerBlock := c.maxValidatorSetChangesPerBlock }
  | .v1 c => { ({} : ConstitutionalCeilings) with toLegacyConstitutionalCeilingsV1 := c }
  | .v2 c => { ({} : ConstitutionalCeilings) with toLegacyConstitutionalCeilingsV2 := c }
  | .current c => c

/-- A record of the first layout. -/
def IsPatch04 : StoredCeilings → Prop
  | .patch04 _ => True
  | _ => False

/-- All layouts but the first are read back; the first is shorter than any that
is tried. -/
theorem fromCanonicalBytes_bytes_iff (stored : StoredCeilings) :
    ConstitutionalCeilings.fromCanonicalBytes stored.bytes = .ok stored.overDefaults
      ↔ ¬ stored.IsPatch04 := by
  have h0 := Patch04ConstitutionalCeilings.takes
  have h1 := LegacyConstitutionalCeilingsV1.takes
  have h2 := LegacyConstitutionalCeilingsV2.takes
  have h3 := ConstitutionalCeilings.takes
  unfold ConstitutionalCeilings.fromCanonicalBytes
  cases stored with
  | patch04 c =>
      have hlen : (StoredCeilings.patch04 c).bytes.length = 68 := h0.length_enc c.codec_fits.2
      rw [h3.ofBytes_eq_none (by omega), h2.ofBytes_eq_none (by omega),
        h1.ofBytes_eq_none (by omega)]
      exact ⟨fun h => (nomatch h), fun h => absurd trivial h⟩
  | v1 c =>
      have hlen : (StoredCeilings.v1 c).bytes.length = 100 := h1.length_enc c.codec_fits.2
      rw [h3.ofBytes_eq_none (by omega), h2.ofBytes_eq_none (by omega), bytes,
        Codec.ofBytes_enc c.codec_fits]
      exact ⟨fun _ h => h, fun _ => rfl⟩
  | v2 c =>
      have hlen : (StoredCeilings.v2 c).bytes.length = 116 := h2.length_enc c.codec_fits.2
      rw [h3.ofBytes_eq_none (by omega), bytes, Codec.ofBytes_enc c.codec_fits]
      exact ⟨fun _ h => h, fun _ => rfl⟩
  | current c =>
      rw [bytes, ConstitutionalCeilings.toCanonicalBytes, Codec.ofBytes_enc c.codec_fits]
      exact ⟨fun _ h => h, fun _ => rfl⟩

/-- The ceilings of a default genesis of the third version are not read. -/
theorem patch04_unreadable :
    ConstitutionalCeilings.fromCanonicalBytes (StoredCeilings.patch04
      { maxProofDepthCeiling := 512
        maxTxGasCeiling := 16000000
        maxBlockGasCeiling := 800000000
        maxContractStepsCeiling := 40000
        maxAddressLengthCeiling := 4096
        maxStateEntrySizeCeiling := 4194304
        maxTensionSwingCeiling := 4000000
        maxBlockBytesCeiling := 8388608
        maxActiveProposalsCeiling := 256
        maxViewChangeBaseTimeoutMs := 60000
        maxViewChangeMaxTimeoutMs := 3600000
        maxValidatorSetSizeCeiling := 128
        maxValidatorSetChangesPerBlock := 8 }).bytes
      = .error "ConstitutionalCeilings deserialize" := by
  decide +kernel

end StoredCeilings

end Sccgub
