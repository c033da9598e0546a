import Mathlib
import Sccgub.Consensus.Equivocation

/-!
# Admission of validator-set changes

A block body carries validator-set changes of two origins.  A change with
quorum signatures is proposer-sourced and goes through
`validateAllValidatorSetChanges`: activation delay, change id, distinct active
signers, strict signatures, quorum power of the current set.  A change without
signatures is evidence-sourced and goes through `validateEvidenceAdmission`,
which pairs removals with the removals synthesized from the body's evidence.

The two checks split the list by different tests: the first takes every change
with signatures, the second only the *removals* without, and it compares
change ids and no other field.  `admission_origin_iff` says what that leaves.
-/

namespace Sccgub

open Bincode FixedWidth

/-- `clamp(k + 1, 2, k + 8)`. -/
def activationDelay (confirmationDepth : UInt64) : UInt64 :=
  let raw := saturatingAdd confirmationDepth 1
  let upper := saturatingAdd confirmationDepth 8
  if raw < 2 then 2 else if raw > upper then upper else raw

/-! ## Proposer-sourced changes -/

inductive ValidatorSetChangeRejection where
  | activationTooSoon (effective admittedAt delay raw : UInt64)
  | changeIdMismatch
  | duplicateSigner
  | signerNotInActiveSet (signer : Hash)
  | signatureInvalid (signer : Hash)
  | quorumNotReached (got need : Nat)
  deriving DecidableEq

section

variable [Crypto]

/-- The loop over the quorum signatures, tallying voting power.  Powers are
64-bit and the source's sum is 128-bit, so it does not saturate. -/
def tallySigners (currentSet : ValidatorSet) (hAdmit : UInt64) (payload : Bytes) :
    List (Ed25519PublicKey × Ed25519Signature) → Nat → Except ValidatorSetChangeRejection Nat
  | [], signerPower => .ok signerPower
  | (signer, sig) :: rest, signerPower =>
      match currentSet.findActiveByValidatorId signer hAdmit with
      | none => .error (.signerNotInActiveSet signer)
      | some record =>
          if !verifyStrict signer payload sig then .error (.signatureInvalid signer)
          else tallySigners currentSet hAdmit payload rest
            (signerPower + record.votingPower.toNat)

/-- One proposer-sourced change against the set as of `hAdmit`. -/
def validateValidatorSetChange (change : ValidatorSetChange) (currentSet : ValidatorSet)
    (hAdmit confirmationDepth : UInt64) : Except ValidatorSetChangeRejection Unit :=
  let effective := change.kind.effectiveHeight
  let delay := activationDelay confirmationDepth
  let rawLower := saturatingAdd hAdmit delay
  if effective < rawLower then .error (.activationTooSoon effective hAdmit delay rawLower)
  else if !change.changeIdIsConsistent then .error .changeIdMismatch
  else if (firstAdjacentDuplicate (sortByHash id (change.quorumSignatures.map Prod.fst))).isSome then
    .error .duplicateSigner
  else
    let payload := ValidatorSetChange.canonicalChangeBytes change.kind change.proposedAt
    match tallySigners currentSet hAdmit payload change.quorumSignatures 0 with
    | .error e => .error e
    | .ok signerPower =>
        let needed := currentSet.quorumPowerAt hAdmit
        if signerPower < needed then .error (.quorumNotReached signerPower needed) else .ok ()

/-- All of them; the first rejection is the verdict. -/
def validateAllValidatorSetChanges (currentSet : ValidatorSet)
    (hAdmit confirmationDepth : UInt64) :
    List ValidatorSetChange → Except ValidatorSetChangeRejection Unit
  | [] => .ok ()
  | change :: rest =>
      match validateValidatorSetChange change currentSet hAdmit confirmationDepth with
      | .error e => .error e
      | .ok () => validateAllValidatorSetChanges currentSet hAdmit confirmationDepth rest

/-- A quorum stands behind the change: distinct active validators whose strict
signatures over its bytes it carries, with the power the height demands. -/
def QuorumBacked (currentSet : ValidatorSet) (hAdmit : UInt64) (change : ValidatorSetChange) :
    Prop :=
  ∃ signers : List ValidatorRecord, (signers.map ValidatorRecord.validatorId).Nodup ∧
    (∀ r ∈ signers, r ∈ currentSet.records ∧ r.isActiveAt hAdmit = true ∧
      ∃ sig, (r.validatorId, sig) ∈ change.quorumSignatures ∧
        verifyStrict r.validatorId
          (ValidatorSetChange.canonicalChangeBytes change.kind change.proposedAt) sig = true) ∧
    currentSet.quorumPowerAt hAdmit ≤ (signers.map (·.votingPower.toNat)).sum

/-- The tally finds, for every signature, an active record of the signer whose
strict signature it is. -/
theorem tallySigners_eq_ok {set : ValidatorSet} {hAdmit : UInt64} {payload : Bytes}
    {sigs : List (Ed25519PublicKey × Ed25519Signature)} {power total : Nat}
    (h : tallySigners set hAdmit payload sigs power = .ok total) :
    ∃ signers : List ValidatorRecord,
      signers.map ValidatorRecord.validatorId = sigs.map Prod.fst ∧
      (∀ r ∈ signers, r ∈ set.records ∧ r.isActiveAt hAdmit = true ∧
        ∃ sig, (r.validatorId, sig) ∈ sigs ∧ verifyStrict r.validatorId payload sig = true) ∧
      total = power + (signers.map (·.votingPower.toNat)).sum := by
  induction sigs generalizing power with
  | nil =>
      obtain rfl : power = total := by simpa [tallySigners] using h
      exact ⟨[], rfl, by simp, by simp⟩
  | cons entry rest ih =>
      obtain ⟨signer, sig⟩ := entry
      simp only [tallySigners] at h
      split at h
      · cases h
      · rename_i record hrecord
        split at h
        · cases h
        · rename_i hsig
          obtain ⟨hmem, rfl, hactive⟩ := ValidatorSet.findActiveByValidatorId_spec hrecord
          obtain ⟨signers, hids, hsigners, htotal⟩ := ih h
          refine ⟨record :: signers, by simp [hids], ?_, by simp [htotal, Nat.add_assoc]⟩
          refine List.forall_mem_cons.mpr ⟨⟨hmem, hactive, sig, List.mem_cons_self, ?_⟩, ?_⟩
          · simpa using hsig
          · intro r hr
            obtain ⟨hrmem, hractive, sig', hsig', hverify⟩ := hsigners r hr
            exact ⟨hrmem, hractive, sig', List.mem_cons_of_mem _ hsig', hverify⟩

theorem validateValidatorSetChange_quorumBacked {change : ValidatorSetChange}
    {set : ValidatorSet} {hAdmit k : UInt64}
    (h : validateValidatorSetChange change set hAdmit k = .ok ()) :
    QuorumBacked set hAdmit change := by
  unfold validateValidatorSetChange at h
  simp only at h
  split at h
  · cases h
  · split at h
    · cases h
    · split at h
      · cases h
      · rename_i hdup
        split at h
        · cases h
        · rename_i signerPower htally
          split at h
          · cases h
          · rename_i hquorum
            obtain ⟨signers, hids, hsigners, htotal⟩ := tallySigners_eq_ok htally
            refine ⟨signers, ?_, hsigners, by omega⟩
            rw [hids, ← firstAdjacentDuplicate_sortByHash]
            simpa using hdup

theorem validateAllValidatorSetChanges_eq_ok {set : ValidatorSet} {hAdmit k : UInt64}
    {changes : List ValidatorSetChange}
    (h : validateAllValidatorSetChanges set hAdmit k changes = .ok ()) :
    ∀ c ∈ changes, validateValidatorSetChange c set hAdmit k = .ok () := by
  induction changes with
  | nil => simp
  | cons c rest ih =>
      simp only [validateAllValidatorSetChanges] at h
      split at h
      · cases h
      · rename_i hc
        exact List.forall_mem_cons.mpr ⟨hc, ih h⟩

/-- A quorum is at least one, so nothing without signatures has one. -/
theorem not_quorumBacked_of_unsigned {set : ValidatorSet} {hAdmit : UInt64}
    {change : ValidatorSetChange} (hsigs : change.quorumSignatures = []) :
    ¬ QuorumBacked set hAdmit change := by
  rintro ⟨signers, -, hsigners, hpower⟩
  have hnone : signers = [] := by
    cases signers with
    | nil => rfl
    | cons r rest =>
        obtain ⟨-, -, sig, hsig, -⟩ := hsigners r List.mem_cons_self
        rw [hsigs] at hsig
        cases hsig
  simp [hnone, ValidatorSet.quorumPowerAt] at hpower

end

/-! ## Evidence-sourced changes -/

inductive EvidenceAdmissionRejection where
  | evidenceSourcedHasQuorumSigs (idx : Nat)
  | orphanEvidenceSourcedRemove (idx : Nat)
  | evidenceMissingSyntheticRemove (idx : Nat)
  | synthesisFailed (idx : Nat) (reason : String)
  | changeIdMismatch (admitted expected : Hash)
  deriving DecidableEq

/-- An unsigned removal. -/
def ValidatorSetChange.isEvidenceSourced (change : ValidatorSetChange) : Bool :=
  change.quorumSignatures.isEmpty && change.kind.isRemove

section

variable [Crypto]

/-- Step 1: the removal of every evidence record, with the record's index. -/
def expectedSynthetics (currentSet : ValidatorSet) (hAdmit activationDelay : UInt64) :
    Nat → List EquivocationEvidence →
      Except EvidenceAdmissionRejection (List (Nat × ValidatorSetChange))
  | _, [] => .ok []
  | idx, ev :: rest =>
      match synthesizeEquivocationRemoval ev currentSet hAdmit activationDelay with
      | .synthesized change =>
          (expectedSynthetics currentSet hAdmit activationDelay (idx + 1) rest).map
            ((idx, change) :: ·)
      | .notStructuralEquivocation =>
          .error (.synthesisFailed idx "not structurally an equivocation")
      | .signatureInvalid =>
          .error (.synthesisFailed idx "vote signature fails verify_strict")
      | .signerNotInActiveSet =>
          .error (.synthesisFailed idx "signing validator not in active_set(H_admit)")

/-- Pairs the unsigned removals of a block body with its evidence. -/
def validateEvidenceAdmission (changes : List ValidatorSetChange)
    (evidence : List EquivocationEvidence) (currentSet : ValidatorSet)
    (hAdmit activationDelay : UInt64) : Except EvidenceAdmissionRejection Unit :=
  match expectedSynthetics currentSet hAdmit activationDelay 0 evidence with
  | .error e => .error e
  | .ok expected =>
      let isExpected (change : ValidatorSetChange) : Bool :=
        expected.any fun e => e.2.changeId = change.changeId
      -- step 3: an unsigned removal matches a synthetic by change id
      match (changes.zipIdx.filter (·.1.isEvidenceSourced)).find? (!isExpected ·.1) with
      | some p => .error (.orphanEvidenceSourcedRemove p.2)
      | none =>
          -- step 4: every synthetic is in the body as an unsigned removal
          match expected.find? fun e =>
              !changes.any fun c => c.changeId = e.2.changeId && c.isEvidenceSourced with
          | some e => .error (.evidenceMissingSyntheticRemove e.1)
          | none =>
              -- step 5: no synthetic in the body carries signatures
              match changes.zipIdx.find? fun p =>
                  !p.1.quorumSignatures.isEmpty && isExpected p.1 with
              | some p => .error (.evidenceSourcedHasQuorumSigs p.2)
              | none => .ok ()

/-- The change is, field for field, the removal synthesized from a record. -/
def EvidenceDerived (evidence : List EquivocationEvidence) (currentSet : ValidatorSet)
    (hAdmit delay : UInt64) (change : ValidatorSetChange) : Prop :=
  ∃ ev ∈ evidence, synthesizeEquivocationRemoval ev currentSet hAdmit delay = .synthesized change

theorem expectedSynthetics_derived {set : ValidatorSet} {hAdmit delay : UInt64} {idx : Nat}
    {evidence : List EquivocationEvidence} {expected : List (Nat × ValidatorSetChange)}
    (h : expectedSynthetics set hAdmit delay idx evidence = .ok expected) :
    ∀ e ∈ expected, EvidenceDerived evidence set hAdmit delay e.2 := by
  induction evidence generalizing idx expected with
  | nil =>
      obtain rfl : expected = [] := by simpa [expectedSynthetics] using h.symm
      simp
  | cons ev rest ih =>
      unfold expectedSynthetics at h
      split at h
      · rename_i change hchange
        rcases hrest : expectedSynthetics set hAdmit delay (idx + 1) rest with err | tail
        · rw [hrest] at h
          cases h
        · rw [hrest] at h
          obtain rfl : (idx, change) :: tail = expected := by simpa [Except.map] using h
          refine List.forall_mem_cons.mpr ⟨⟨ev, List.mem_cons_self, hchange⟩, ?_⟩
          intro e he
          obtain ⟨ev', hmem, hev'⟩ := ih hrest e he
          exact ⟨ev', List.mem_cons_of_mem _ hmem, hev'⟩
      · cases h
      · cases h
      · cases h

/-- What evidence admission establishes about a removal without signatures:
its change id is that of a synthesized removal. -/
theorem validateEvidenceAdmission_eq_ok {changes : List ValidatorSetChange}
    {evidence : List EquivocationEvidence} {set : ValidatorSet} {hAdmit delay : UInt64}
    (h : validateEvidenceAdmission changes evidence set hAdmit delay = .ok ()) :
    ∀ c ∈ changes, c.isEvidenceSourced = true →
      ∃ synthetic, EvidenceDerived evidence set hAdmit delay synthetic ∧
        synthetic.changeId = c.changeId := by
  unfold validateEvidenceAdmission at h
  split at h
  · cases h
  · rename_i expected hexpected
    simp only at h
    split at h
    · cases h
    · rename_i horphan
      intro c hc hsourced
      obtain ⟨i, hi⟩ : ∃ i, (c, i) ∈ changes.zipIdx := by
        obtain ⟨i, hlt, rfl⟩ := List.mem_iff_getElem.mp hc
        exact ⟨i, List.mem_zipIdx_iff_getElem?.mpr (by simp [hlt])⟩
      have hmatched := List.find?_eq_none.mp horphan (c, i) (List.mem_filter.mpr ⟨hi, hsourced⟩)
      simp only [Bool.not_eq_true', Bool.not_eq_false, List.any_eq_true, decide_eq_true_eq]
        at hmatched
      obtain ⟨e, he, hid⟩ := hmatched
      exact ⟨e.2, expectedSynthetics_derived hexpected e he, hid⟩

/-! ## Where an admitted change comes from -/

/-- The byte strings whose hashes admission compares: those of the body's
changes and those of the removals it may synthesize. -/
def admissionBytes (changes : List ValidatorSetChange) (currentSet : ValidatorSet)
    (hAdmit delay : UInt64) : List Bytes :=
  (changes.map fun c => ValidatorSetChange.canonicalChangeBytes c.kind c.proposedAt) ++
    currentSet.records.map fun r =>
      ValidatorSetChange.canonicalChangeBytes (slashingRemoval r.agentId hAdmit delay).kind hAdmit

theorem EvidenceDerived.eq_slashingRemoval {evidence : List EquivocationEvidence}
    {set : ValidatorSet} {hAdmit delay : UInt64} {change : ValidatorSetChange}
    (h : EvidenceDerived evidence set hAdmit delay change) :
    ∃ record ∈ set.records, change = slashingRemoval record.agentId hAdmit delay := by
  obtain ⟨ev, -, hev⟩ := h
  obtain ⟨record, hrecord, rfl⟩ := synthesizeEquivocationRemoval_eq_synthesized hev
  exact ⟨record, (ValidatorSet.findActiveByValidatorId_spec hrecord).1, rfl⟩

/-- A removal without signatures whose change id is consistent and that of a
synthesized removal is that removal, hashes at hand being distinct. -/
theorem evidenceDerived_of_consistent {changes : List ValidatorSetChange}
    {evidence : List EquivocationEvidence} {set : ValidatorSet} {hAdmit delay : UInt64}
    {c synthetic : ValidatorSetChange}
    (hinj : ∀ x ∈ admissionBytes changes set hAdmit delay,
      ∀ y ∈ admissionBytes changes set hAdmit delay, Crypto.blake3 x = Crypto.blake3 y → x = y)
    (hc : c ∈ changes) (hsigs : c.quorumSignatures = []) (hid : c.changeIdIsConsistent = true)
    (hsyn : EvidenceDerived evidence set hAdmit delay synthetic)
    (hmatch : synthetic.changeId = c.changeId) :
    EvidenceDerived evidence set hAdmit delay c := by
  obtain ⟨record, hrecord, hsynthetic⟩ := hsyn.eq_slashingRemoval
  have hbytes : ValidatorSetChange.canonicalChangeBytes c.kind c.proposedAt =
      ValidatorSetChange.canonicalChangeBytes (slashingRemoval record.agentId hAdmit delay).kind
        hAdmit := by
    apply hinj
    · exact List.mem_append_left _ (List.mem_map.mpr ⟨c, hc, rfl⟩)
    · exact List.mem_append_right _ (List.mem_map.mpr ⟨record, hrecord, rfl⟩)
    · have hhash : c.changeId = ValidatorSetChange.computeChangeId c.kind c.proposedAt := by
        simpa [ValidatorSetChange.changeIdIsConsistent] using hid
      rw [hsynthetic, hhash] at hmatch
      exact hmatch.symm
  obtain ⟨hkind, hproposed⟩ := ValidatorSetChange.canonicalChangeBytes_inj hbytes
  have heq : c = synthetic := by
    rw [hsynthetic]
    obtain ⟨id, kind, proposedAt, sigs⟩ := c
    simp only at hkind hproposed hsigs hmatch
    subst hkind hproposed hsigs
    rw [hsynthetic] at hmatch
    rw [← hmatch]
    rfl
  exact heq ▸ hsyn

/-- With both checks passed, every change of the body has a quorum or a record
of the body behind it exactly when every change without signatures is a removal
whose change id is the hash of its own bytes. -/
theorem admission_origin_iff (changes : List ValidatorSetChange)
    (evidence : List EquivocationEvidence) (set : ValidatorSet) (hAdmit k : UInt64)
    (hevidence : validateEvidenceAdmission changes evidence set hAdmit (activationDelay k) = .ok ())
    (hquorum : validateAllValidatorSetChanges set hAdmit k
      (changes.filter fun c => !c.quorumSignatures.isEmpty) = .ok ())
    (hinj : ∀ x ∈ admissionBytes changes set hAdmit (activationDelay k),
      ∀ y ∈ admissionBytes changes set hAdmit (activationDelay k),
        Crypto.blake3 x = Crypto.blake3 y → x = y) :
    (∀ c ∈ changes, QuorumBacked set hAdmit c ∨
        EvidenceDerived evidence set hAdmit (activationDelay k) c) ↔
      ∀ c ∈ changes, c.quorumSignatures = [] →
        c.kind.isRemove = true ∧ c.changeIdIsConsistent = true := by
  constructor
  · intro horigin c hc hsigs
    rcases horigin c hc with hbacked | hderived
    · exact absurd hbacked (not_quorumBacked_of_unsigned hsigs)
    · obtain ⟨record, -, rfl⟩ := hderived.eq_slashingRemoval
      exact ⟨rfl, decide_eq_true rfl⟩
  · intro hunsigned c hc
    by_cases hsigs : c.quorumSignatures = []
    · obtain ⟨hremove, hid⟩ := hunsigned c hc hsigs
      obtain ⟨synthetic, hsyn, hmatch⟩ := validateEvidenceAdmission_eq_ok hevidence c hc
        (by simp [ValidatorSetChange.isEvidenceSourced, hsigs, hremove])
      exact Or.inr (evidenceDerived_of_consistent hinj hc hsigs hid hsyn hmatch)
    · have hmem : c ∈ changes.filter fun c => !c.quorumSignatures.isEmpty := by
        simp [hc, hsigs]
      exact Or.inl (validateValidatorSetChange_quorumBacked
        (validateAllValidatorSetChanges_eq_ok hquorum c hmem))

end

/-- An `Add` that nobody signed. -/
def unsignedAdd : ValidatorSetChange where
  changeId := zeroHash
  kind := .add ⟨.ofByte 66, .ofByte 66, .fromHeight 0, 1000, 8, none⟩
  proposedAt := 5
  quorumSignatures := []

/-- Neither check looks at an unsigned `Add`. -/
theorem unsignedAdd_admitted :
    ¬ (@validateEvidenceAdmission polyCrypto [unsignedAdd] [] soloSet 5 (activationDelay 2) = .ok () →
      @validateAllValidatorSetChanges polyCrypto soloSet 5 2
        ([unsignedAdd].filter fun c => !c.quorumSignatures.isEmpty) = .ok () →
      ∀ c ∈ [unsignedAdd], @QuorumBacked polyCrypto soloSet 5 c ∨
        @EvidenceDerived polyCrypto [] soloSet 5 (activationDelay 2) c) := by
  intro h
  rcases h (by decide +kernel) (by decide +kernel) unsignedAdd List.mem_cons_self with hb | hd
  · exact @not_quorumBacked_of_unsigned polyCrypto _ _ _ rfl hb
  · obtain ⟨ev, hev, -⟩ := hd
    cases hev

/-- A prevote signed over the bytes that synthesis rebuilds. -/
def rebuiltPrevote (blockHash : Hash) : EquivocationVote :=
  let vote : EquivocationVote := ⟨.ofByte 1, blockHash, 4, 0, .prevote, []⟩
  { vote with
    signature := (Hash.ofByte 1).toList ++
      (polyCrypto.polyDigest (voteCanonicalBytes vote)).toList }

theorem admission_origin_iff_slashed :
    (∀ c ∈ [@slashingRemoval polyCrypto (.ofByte 7) 5 (activationDelay 2)],
        @QuorumBacked polyCrypto soloSet 5 c ∨
          @EvidenceDerived polyCrypto
            [.new (rebuiltPrevote (.ofByte 0xAA)) (rebuiltPrevote (.ofByte 0xBB))]
            soloSet 5 (activationDelay 2) c) ↔
      ∀ c ∈ [@slashingRemoval polyCrypto (.ofByte 7) 5 (activationDelay 2)],
        c.quorumSignatures = [] → c.kind.isRemove = true ∧
          @ValidatorSetChange.changeIdIsConsistent polyCrypto c = true :=
  @admission_origin_iff polyCrypto
    [@slashingRemoval polyCrypto (.ofByte 7) 5 (activationDelay 2)]
    [.new (rebuiltPrevote (.ofByte 0xAA)) (rebuiltPrevote (.ofByte 0xBB))] soloSet 5 2
    (by decide +kernel) (by decide +kernel) (by decide +kernel)

end Sccgub
