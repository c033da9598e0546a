import Mathlib
import Sccgub.Types.Namespace
import Sccgub.Types.ValidatorSet

/-!
# Vetoes against a removal

A removal that was synthesized from equivocation evidence can be vetoed while
its activation delay runs.  A veto carries two signatures over the same bytes
that the plain verifier takes and not both of which the strict one takes, and
the attestations of validators with more than a third of the power.

`Authorized` lists what the admission asks for.  The target, the window and the
attesters are tied to the removal; the key and the bytes of the two signatures
are whatever the veto says (`groundsRelevant_iff`).
-/

namespace Sccgub

open Bincode FixedWidth

open TensionValue (u128Max)

/-- `b"sccgub-forgery-veto-v5"`. -/
def forgeryVetoDomainSeparator : Bytes := utf8 "sccgub-forgery-veto-v5"

structure OwnedForgeryProof where
  canonicalBytes : Bytes
  publicKey : Ed25519PublicKey
  signatureA : Ed25519Signature
  signatureB : Ed25519Signature
  deriving DecidableEq, Inhabited

def OwnedForgeryProof.codec : Codec OwnedForgeryProof :=
  (Codec.blob.pair <| (Codec.bytes 32).pair <| Codec.blob.pair Codec.blob).iso
    (fun ⟨a, b, c, d⟩ => ⟨a, b, c, d⟩) (fun ⟨a, b, c, d⟩ => (a, b, c, d))
    (fun _ => rfl) (fun _ => rfl)

structure VetoAttestation where
  signer : Ed25519PublicKey
  signature : Ed25519Signature
  deriving DecidableEq, Inhabited

structure ForgeryVeto where
  proof : OwnedForgeryProof
  targetChangeId : Hash
  submittedAtHeight : UInt64
  attestations : List VetoAttestation
  deriving DecidableEq, Inhabited

namespace ForgeryVeto

def canonicalVetoBytes (self : ForgeryVeto) : Bytes :=
  (OwnedForgeryProof.codec.pair <| (Codec.bytes 32).pair Codec.u64).enc
    (self.proof, self.targetChangeId, self.submittedAtHeight)

def signingBytes (self : ForgeryVeto) : Bytes :=
  forgeryVetoDomainSeparator ++ self.canonicalVetoBytes

end ForgeryVeto

/-! ## The proof -/

inductive ForgeryCheckError where
  | signaturesIdentical
  | signatureANotValid
  | signatureBNotValid
  | bothPassStrictVerify
  deriving DecidableEq

def ForgeryCheckError.display : ForgeryCheckError → String
  | .signaturesIdentical => "signatures are byte-identical — no malleability demonstrated"
  | .signatureANotValid => "signature A fails non-strict verify"
  | .signatureBNotValid => "signature B fails non-strict verify"
  | .bothPassStrictVerify => "both signatures pass verify_strict — no malleability exposed"

inductive ForgeryVetoRejection where
  | targetChangeNotFound (changeId : Hash)
  | targetChangeNotSynthetic
  | outsideActivationWindow (submittedAt hAdmit hAdmitPlusDelay : UInt64)
  | proofInvalid (reason : String)
  | attestationSignatureInvalid (signer : Ed25519PublicKey)
  | attesterNotInActiveSet (signer : Ed25519PublicKey) (height : UInt64)
  | attestationsNotCanonical
  | insufficientAttestationPower (attestedPower oneThirdThreshold totalPower : Nat)
  deriving DecidableEq

inductive ForgeryVetoAdmissionResult where
  | admitted
  | rejected (rejection : ForgeryVetoRejection)
  deriving DecidableEq

/-- A removal for equivocation that no validator signed. -/
def isSyntheticRemove (target : ValidatorSetChange) : Bool :=
  match target.kind with
  | .remove _ .equivocation _ => target.quorumSignatures.isEmpty
  | _ => false

/-- In the order of their signers, no signer twice. -/
def attestationsCanonical : List VetoAttestation → Bool
  | a :: b :: rest =>
      decide (compare a.signer b.signer = .lt) && attestationsCanonical (b :: rest)
  | _ => true

theorem isSyntheticRemove_iff {target : ValidatorSetChange} :
    isSyntheticRemove target = true ↔ ∃ agentId effectiveHeight,
      target.kind = .remove agentId .equivocation effectiveHeight
        ∧ target.quorumSignatures = [] := by
  rw [isSyntheticRemove]
  split
  · rename_i agentId effectiveHeight hkind
    simp [hkind]
  · rename_i hkind
    refine iff_of_false Bool.false_ne_true ?_
    rintro ⟨agentId, effectiveHeight, heq, -⟩
    exact hkind agentId effectiveHeight heq

theorem nodup_of_attestationsCanonical {attestations : List VetoAttestation}
    (h : attestationsCanonical attestations = true) :
    (attestations.map VetoAttestation.signer).Nodup := by
  have hsorted : (attestations.map VetoAttestation.signer).Pairwise
      fun a b => compare a b = .lt := by
    have htrans : Trans (fun a b : Hash => compare a b = .lt) (fun a b : Hash => compare a b = .lt)
        (fun a b : Hash => compare a b = .lt) := ⟨Std.TransCmp.lt_trans⟩
    rw [← List.isChain_iff_pairwise]
    induction attestations with
    | nil => exact List.isChain_nil
    | cons a rest ih =>
        rcases rest with _ | ⟨b, rest⟩
        · exact List.isChain_singleton _
        · simp only [attestationsCanonical, Bool.and_eq_true, decide_eq_true_eq] at h
          exact List.isChain_cons_cons.mpr ⟨h.1, ih h.2⟩
  refine hsorted.imp fun {a b} hlt => ?_
  rintro rfl
  have hself : compare a a = .eq := Std.ReflCmp.compare_self
  rw [hself] at hlt
  cases hlt

/-- The records of the attesters, one for each attestation of an active validator. -/
def attesters (activeSet : ValidatorSet) (height : UInt64) (attestations : List VetoAttestation) :
    List ValidatorRecord :=
  attestations.filterMap fun att => activeSet.findActiveByValidatorId att.signer height

def attestedPower (activeSet : ValidatorSet) (height : UInt64)
    (attestations : List VetoAttestation) : Nat :=
  ((attesters activeSet height attestations).map (·.votingPower.toNat)).sum

theorem mem_attesters {activeSet : ValidatorSet} {height : UInt64} {attestations : List VetoAttestation}
    {record : ValidatorRecord} (h : record ∈ attesters activeSet height attestations) :
    record ∈ activeSet.records ∧ record.isActiveAt height = true := by
  obtain ⟨att, -, hfind⟩ := List.mem_filterMap.mp h
  obtain ⟨hmem, -, hactive⟩ := ValidatorSet.findActiveByValidatorId_spec hfind
  exact ⟨hmem, hactive⟩

section

variable [Crypto]

def checkForgeryProof (proof : OwnedForgeryProof) : Except ForgeryCheckError Unit :=
  if proof.signatureA = proof.signatureB then .error .signaturesIdentical
  else if !verify proof.publicKey proof.canonicalBytes proof.signatureA then
    .error .signatureANotValid
  else if !verify proof.publicKey proof.canonicalBytes proof.signatureB then
    .error .signatureBNotValid
  else if verifyStrict proof.publicKey proof.canonicalBytes proof.signatureA
      && verifyStrict proof.publicKey proof.canonicalBytes proof.signatureB then
    .error .bothPassStrictVerify
  else .ok ()

/-- The loop over the attestations, adding up power. -/
def tallyAttestations (activeSet : ValidatorSet) (height : UInt64) (signingBytes : Bytes) :
    List VetoAttestation → Nat → Except ForgeryVetoRejection Nat
  | [], attestedPower => .ok attestedPower
  | att :: rest, attestedPower =>
      match activeSet.findActiveByValidatorId att.signer height with
      | none => .error (.attesterNotInActiveSet att.signer height)
      | some record =>
          if !verifyStrict att.signer signingBytes att.signature then
            .error (.attestationSignatureInvalid att.signer)
          else tallyAttestations activeSet height signingBytes rest
            (min (attestedPower + record.votingPower.toNat) u128Max)

def validateForgeryVetoAdmission (veto : ForgeryVeto) (targetChange : Option ValidatorSetChange)
    (hAdmit activationDelay : UInt64) (activeSet : ValidatorSet) : ForgeryVetoAdmissionResult :=
  match targetChange with
  | none => .rejected (.targetChangeNotFound veto.targetChangeId)
  | some target =>
      if target.changeId ≠ veto.targetChangeId then
        .rejected (.targetChangeNotFound veto.targetChangeId)
      else if !isSyntheticRemove target then .rejected .targetChangeNotSynthetic
      else
        let upper := saturatingAdd hAdmit activationDelay
        if veto.submittedAtHeight < hAdmit || veto.submittedAtHeight ≥ upper then
          .rejected (.outsideActivationWindow veto.submittedAtHeight hAdmit upper)
        else
          match checkForgeryProof veto.proof with
          | .error e => .rejected (.proofInvalid e.display)
          | .ok () =>
              if !attestationsCanonical veto.attestations then .rejected .attestationsNotCanonical
              else
                match tallyAttestations activeSet veto.submittedAtHeight veto.signingBytes
                    veto.attestations 0 with
                | .error e => .rejected e
                | .ok attestedPower =>
                    let totalPower := activeSet.totalPowerAt veto.submittedAtHeight
                    let oneThirdThreshold := totalPower / 3 + 1
                    if attestedPower < oneThirdThreshold then
                      .rejected (.insufficientAttestationPower attestedPower oneThirdThreshold
                        totalPower)
                    else .admitted

/-! ## What admission asks for -/

/-- An active validator that signed. -/
def Attests (activeSet : ValidatorSet) (height : UInt64) (signingBytes : Bytes)
    (att : VetoAttestation) : Prop :=
  (activeSet.findActiveByValidatorId att.signer height).isSome = true
    ∧ verifyStrict att.signer signingBytes att.signature = true

structure Authorized (veto : ForgeryVeto) (targetChange : Option ValidatorSetChange)
    (hAdmit activationDelay : UInt64) (activeSet : ValidatorSet) : Prop where
  target : ∃ target, targetChange = some target ∧ target.changeId = veto.targetChangeId
    ∧ isSyntheticRemove target = true
  window : hAdmit ≤ veto.submittedAtHeight
    ∧ veto.submittedAtHeight < saturatingAdd hAdmit activationDelay
  malleable : checkForgeryProof veto.proof = .ok ()
  canonical : attestationsCanonical veto.attestations = true
  attested : ∀ att ∈ veto.attestations,
    Attests activeSet veto.submittedAtHeight veto.signingBytes att
  power : activeSet.totalPowerAt veto.submittedAtHeight / 3 + 1
    ≤ min (attestedPower activeSet veto.submittedAtHeight veto.attestations) u128Max

variable {veto : ForgeryVeto} {targetChange : Option ValidatorSetChange}
  {hAdmit activationDelay height : UInt64} {activeSet : ValidatorSet} {signingBytes : Bytes}

theorem tallyAttestations_eq_ok_iff {attestations : List VetoAttestation} {power total : Nat}
    (hpower : power ≤ u128Max) :
    tallyAttestations activeSet height signingBytes attestations power = .ok total
      ↔ (∀ att ∈ attestations, Attests activeSet height signingBytes att)
        ∧ total = min (power + attestedPower activeSet height attestations) u128Max := by
  induction attestations generalizing power with
  | nil =>
      have hmin : min power u128Max = power := by omega
      simp [tallyAttestations, attestedPower, attesters, hmin, eq_comm]
  | cons att rest ih =>
      rw [tallyAttestations, List.forall_mem_cons]
      rcases hfind : activeSet.findActiveByValidatorId att.signer height with _ | record
      · simp [Attests, hfind]
      · by_cases hsig : verifyStrict att.signer signingBytes att.signature = true
        · have hsum : attestedPower activeSet height (att :: rest)
              = record.votingPower.toNat + attestedPower activeSet height rest := by
            simp [attestedPower, attesters, hfind]
          have hmin : min (min (power + record.votingPower.toNat) u128Max
              + attestedPower activeSet height rest) u128Max
              = min (power + (record.votingPower.toNat + attestedPower activeSet height rest))
                u128Max := by omega
          simp only [hsig, Bool.not_true, Bool.false_eq_true, if_false]
          rw [ih (by omega), hsum, hmin]
          simp [Attests, hfind, hsig]
        · simp [Attests, hfind, hsig]

/-- Admission is the conjunction of its checks. -/
theorem validateForgeryVetoAdmission_eq_admitted_iff :
    validateForgeryVetoAdmission veto targetChange hAdmit activationDelay activeSet = .admitted
      ↔ Authorized veto targetChange hAdmit activationDelay activeSet := by
  have htally := @tallyAttestations_eq_ok_iff _ veto.submittedAtHeight activeSet veto.signingBytes
    veto.attestations 0
  constructor
  · intro h
    rcases targetChange with _ | target
    · cases h
    simp only [validateForgeryVetoAdmission] at h
    split at h
    · cases h
    rename_i hid
    split at h
    · cases h
    rename_i hsynthetic
    split at h
    · cases h
    rename_i hwindow
    rcases hproof : checkForgeryProof veto.proof with e | u
    · rw [hproof] at h
      cases h
    rw [hproof] at h
    simp only at h
    split at h
    · cases h
    rename_i hcanonical
    rcases hpower : tallyAttestations activeSet veto.submittedAtHeight veto.signingBytes
        veto.attestations 0 with e | attested
    · rw [hpower] at h
      cases h
    rw [hpower] at h
    simp only at h
    split at h
    · cases h
    rename_i henough
    obtain ⟨hattested, htotal⟩ := (htally (Nat.zero_le _)).mp hpower
    simp only [Bool.or_eq_true, decide_eq_true_eq, not_or, ge_iff_le, UInt64.not_lt,
      UInt64.not_le] at hwindow
    rw [Nat.zero_add] at htotal
    exact ⟨⟨target, rfl, not_not.mp hid, by simpa using hsynthetic⟩, hwindow, hproof,
      by simpa using hcanonical, hattested, by omega⟩
  · rintro ⟨⟨target, rfl, hid, hsynthetic⟩, ⟨hfrom, hto⟩, hproof, hcanonical, hattested, hpower⟩
    have htotal := (htally (Nat.zero_le _)).mpr ⟨hattested, rfl⟩
    rw [Nat.zero_add] at htotal
    simp [validateForgeryVetoAdmission, hid, hsynthetic, UInt64.not_lt.mpr hfrom,
      UInt64.not_le.mpr hto, hproof,
      hcanonical, htotal, not_lt.mpr hpower]

end

/-! ## What the veto is about -/

section

variable [Crypto] (veto : ForgeryVeto) (targetChange : Option ValidatorSetChange)
  (hAdmit activationDelay : UInt64) (activeSet : ValidatorSet)

/-- The two signatures are under the key of the validator that is to be removed. -/
def ConcernsRemoved : Prop :=
  ∃ target agentId reason effectiveHeight record, targetChange = some target
    ∧ target.kind = .remove agentId reason effectiveHeight
    ∧ activeSet.findByAgent agentId = some record ∧ veto.proof.publicKey = record.validatorId

/-- An admitted veto is against a removal for equivocation with the id it names, in time,
signed by distinct active validators with more than a third of the power, and it is about the
validator that is to be removed. -/
def GroundsRelevant : Prop :=
  validateForgeryVetoAdmission veto targetChange hAdmit activationDelay activeSet = .admitted →
    (∃ target agentId effectiveHeight, targetChange = some target
      ∧ target.changeId = veto.targetChangeId
      ∧ target.kind = .remove agentId .equivocation effectiveHeight
      ∧ target.quorumSignatures = [])
    ∧ hAdmit.toNat ≤ veto.submittedAtHeight.toNat
    ∧ veto.submittedAtHeight.toNat < hAdmit.toNat + activationDelay.toNat
    ∧ (∃ signers : List ValidatorRecord,
      signers.map ValidatorRecord.validatorId = veto.attestations.map VetoAttestation.signer
      ∧ (signers.map ValidatorRecord.validatorId).Nodup
      ∧ (∀ record ∈ signers, record ∈ activeSet.records
        ∧ record.isActiveAt veto.submittedAtHeight = true)
      ∧ (∀ att ∈ veto.attestations,
        verifyStrict att.signer veto.signingBytes att.signature = true)
      ∧ activeSet.totalPowerAt veto.submittedAtHeight / 3 + 1
        ≤ (signers.map (·.votingPower.toNat)).sum)
    ∧ ConcernsRemoved veto targetChange activeSet

variable {veto targetChange hAdmit activationDelay activeSet}

theorem map_attesters {height : UInt64} {signingBytes : Bytes} {attestations : List VetoAttestation}
    (h : ∀ att ∈ attestations, Attests activeSet height signingBytes att) :
    (attesters activeSet height attestations).map ValidatorRecord.validatorId
      = attestations.map VetoAttestation.signer := by
  induction attestations with
  | nil => rfl
  | cons att rest ih =>
      obtain ⟨⟨hactive, -⟩, hrest⟩ := List.forall_mem_cons.mp h
      obtain ⟨record, hrecord⟩ := Option.isSome_iff_exists.mp hactive
      have hid := (ValidatorSet.findActiveByValidatorId_spec hrecord).2.1
      have hcons : attesters activeSet height (att :: rest)
          = record :: attesters activeSet height rest := by
        simp [attesters, hrecord]
      rw [hcons, List.map_cons, List.map_cons, hid, ih hrest]

end

/-- Everything but whom the proof is about is checked. -/
theorem groundsRelevant_iff [Crypto] (veto : ForgeryVeto)
    (targetChange : Option ValidatorSetChange) (hAdmit activationDelay : UInt64)
    (activeSet : ValidatorSet) :
    GroundsRelevant veto targetChange hAdmit activationDelay activeSet
      ↔ (Authorized veto targetChange hAdmit activationDelay activeSet →
        ConcernsRemoved veto targetChange activeSet) := by
  rw [GroundsRelevant, validateForgeryVetoAdmission_eq_admitted_iff]
  refine imp_congr_right fun hauthorized => ⟨fun h => h.2.2.2.2, fun hconcerns => ?_⟩
  obtain ⟨⟨target, htarget, hid, hsynthetic⟩, ⟨hfrom, hto⟩, -, hcanonical, hattested, hpower⟩ :=
    hauthorized
  obtain ⟨agentId, effectiveHeight, hkind, hunsigned⟩ := isSyntheticRemove_iff.mp hsynthetic
  have hto := UInt64.lt_iff_toNat_lt.mp hto
  rw [toNat_saturatingAdd] at hto
  refine ⟨⟨target, agentId, effectiveHeight, htarget, hid, hkind, hunsigned⟩,
    UInt64.le_iff_toNat_le.mp hfrom, by omega,
    ⟨attesters activeSet veto.submittedAtHeight veto.attestations, map_attesters hattested, ?_,
      fun record hrecord => mem_attesters hrecord, fun att hatt => (hattested att hatt).2,
      hpower.trans (min_le_left _ _)⟩, hconcerns⟩
  rw [map_attesters hattested]
  exact nodup_of_attestationsCanonical hcanonical

/-! ## A veto about somebody else -/

/-- The small instance of the packages, with a plain verifier that leaves the last byte out. -/
@[reducible] def malleableCrypto : Crypto where
  blake3 := polyCrypto.polyDigest
  verifyingKeyFromBytes _ := true
  verify key data sig := sig.toList.dropLast = (polySign key data).dropLast
  verifyStrict key data sig := sig.toList = polySign key data

def setMember (b : UInt8) : ValidatorRecord where
  agentId := Hash.ofByte b
  validatorId := Hash.ofByte (b + 16)
  mfidelSeal := .fromHeight 0
  votingPower := 10
  activeFrom := 0
  activeUntil := none

def threeMembers : ValidatorSet := ⟨[setMember 1, setMember 2, setMember 3]⟩

/-- The removal of the first member. -/
def removalOfFirst : ValidatorSetChange where
  changeId := Hash.ofByte 7
  kind := .remove (Hash.ofByte 1) .equivocation 23
  proposedAt := 20
  quorumSignatures := []

/-- Two signatures under a key that no validator has. -/
def strangersProof : OwnedForgeryProof where
  canonicalBytes := [1]
  publicKey := Hash.ofByte 99
  signatureA := polySign (Hash.ofByte 99) [1]
  signatureB := (polySign (Hash.ofByte 99) [1]).dropLast ++ [255]

def strangersVeto : ForgeryVeto :=
  let unsigned : ForgeryVeto := ⟨strangersProof, Hash.ofByte 7, 21, []⟩
  { unsigned with
    attestations := [Hash.ofByte 18, Hash.ofByte 19].map fun key =>
      ⟨key, polySign key unsigned.signingBytes⟩ }

theorem strangersVeto_admitted :
    @validateForgeryVetoAdmission malleableCrypto strangersVeto (some removalOfFirst) 20 3
        threeMembers = .admitted
      ∧ threeMembers.findByAgent (Hash.ofByte 1) = some (setMember 1)
      ∧ strangersVeto.proof.publicKey ≠ (setMember 1).validatorId := by
  decide +kernel

/-- A validator's removal is vetoed by signatures that are not about any validator. -/
theorem strangersVeto_irrelevant :
    ¬ @GroundsRelevant malleableCrypto strangersVeto (some removalOfFirst) 20 3 threeMembers := by
  intro h
  obtain ⟨hadmitted, hrecord, hother⟩ := strangersVeto_admitted
  obtain ⟨target, agentId, reason, effectiveHeight, record, htarget, hkind, hfind, hkey⟩ :=
    (h hadmitted).2.2.2.2
  cases htarget
  cases hkind
  rw [hrecord] at hfind
  cases hfind
  exact hother hkey

end Sccgub
