import Mathlib
import Sccgub.Consensus.Safety

/-!
# Fork accountability

Two accepted certificates for different blocks at one height convict their
common signers: `extractFromFork` pairs up the precommits, `submitEvidence`
verifies each pair and records it.

Verification rebuilds the signed message a second time.  It encodes block,
height, round and the tag two, forty-five bytes, while the precommits of a
certificate are over the eighty-five bytes of `voteSignData`.  The two
encoders agree on no input (`evidenceData_ne_voteData`), so a fork is
accounted for only as far as its signatures happen to be good for both
messages (`forkAccountable_iff`).
-/

namespace Sccgub.Safety

open Bincode Quorum

/-! ## Evidence -/

/-- Cryptographic proof of equivocation: two conflicting signed votes. -/
structure EquivocationEvidence where
  validatorId : Hash
  height : UInt64
  roundA : UInt32
  roundB : UInt32
  blockHashA : Hash
  blockHashB : Hash
  signatureA : Bytes
  signatureB : Bytes
  deriving DecidableEq, Inhabited

structure EquivocationStore where
  evidence : Std.ExtTreeMap Hash (List EquivocationEvidence)
  confirmedEquivocators : Std.ExtTreeSet Hash
  deriving DecidableEq

/-- What `verify` takes a vote to have been signed over: block, height, round
and the tag two. -/
def evidenceData (blockHash : Hash) (height : UInt64) (round : UInt32) : Bytes :=
  canonicalBytes ((Codec.bytes 32).pair <| Codec.u64.pair <| Codec.u32.pair Codec.u8)
    (blockHash, height, round, 2)

theorem evidenceData_length (blockHash : Hash) (height : UInt64) (round : UInt32) :
    (evidenceData blockHash height round).length = 45 := by
  simp [evidenceData, canonicalBytes, Codec.u64, Codec.u32, Codec.u8]

/-- The evidence encoder and the vote encoder disagree on every input. -/
theorem evidenceData_ne_voteData (blockHash : Hash) (height : UInt64) (round : UInt32)
    (c : SafetyCertificate) : evidenceData blockHash height round ≠ c.voteData := by
  intro h
  have hlen := congrArg List.length h
  rw [evidenceData_length, SafetyCertificate.voteData, voteSignData_length] at hlen
  omega

section

variable [Crypto]

def EquivocationEvidence.verify (self : EquivocationEvidence) (publicKey : Hash) :
    Except String Unit :=
  if self.blockHashA = self.blockHashB then .error "Not equivocation: same block hash"
  else if !verifyStrict publicKey (evidenceData self.blockHashA self.height self.roundA)
      self.signatureA then
    .error "Signature A verification failed"
  else if !verifyStrict publicKey (evidenceData self.blockHashB self.height self.roundB)
      self.signatureB then
    .error "Signature B verification failed"
  else .ok ()

theorem EquivocationEvidence.verify_eq_ok_iff {e : EquivocationEvidence} {publicKey : Hash} :
    e.verify publicKey = .ok () ↔
      e.blockHashA ≠ e.blockHashB ∧
        verifyStrict publicKey (evidenceData e.blockHashA e.height e.roundA) e.signatureA = true ∧
        verifyStrict publicKey (evidenceData e.blockHashB e.height e.roundB) e.signatureB = true := by
  unfold verify
  by_cases hsame : e.blockHashA = e.blockHashB
  · simp [hsame]
  · rcases hA : verifyStrict publicKey (evidenceData e.blockHashA e.height e.roundA)
        e.signatureA with _ | _
    · simp [hsame]
    · rcases hB : verifyStrict publicKey (evidenceData e.blockHashB e.height e.roundB)
          e.signatureB with _ | _ <;> simp [hsame]

end

/-! ## The store and its runs -/

namespace EquivocationStore

def new : EquivocationStore := ⟨∅, ∅⟩

def evidenceFor (self : EquivocationStore) (validatorId : Hash) : List EquivocationEvidence :=
  (self.evidence[validatorId]?).getD []

/-- Evidence from two conflicting certificates: one record for every signer of
the second that is also a signer of the first. -/
def extractFromFork (certA certB : SafetyCertificate) : List EquivocationEvidence :=
  if certA.height ≠ certB.height ∨ certA.blockHash = certB.blockHash then []
  else
    let sigsA : Std.ExtTreeMap Hash Bytes := Std.ExtTreeMap.ofList certA.precommitSignatures
    certB.precommitSignatures.filterMap fun entry =>
      (sigsA[entry.1]?).map fun sigA =>
        { validatorId := entry.1
          height := certA.height
          roundA := certA.round
          roundB := certB.round
          blockHashA := certA.blockHash
          blockHashB := certB.blockHash
          signatureA := sigA
          signatureB := entry.2 }

theorem evidenceFor_insert (m : Std.ExtTreeMap Hash (List EquivocationEvidence))
    (c : Std.ExtTreeSet Hash) (id id' : Hash) (es : List EquivocationEvidence) :
    (EquivocationStore.mk (m.insert id es) c).evidenceFor id' =
      if id = id' then es else (m[id']?).getD [] := by
  simp only [evidenceFor, Std.ExtTreeMap.getElem?_insert, Std.LawfulEqCmp.compare_eq_iff_eq]
  split <;> rfl

section

variable [Crypto]

/-- Verified evidence is recorded once; the flag says whether it is new. -/
def submitEvidence (self : EquivocationStore) (evidence : EquivocationEvidence)
    (publicKey : Hash) : Except String (Bool × EquivocationStore) :=
  match evidence.verify publicKey with
  | .error e => .error e
  | .ok () =>
      let validator := evidence.validatorId
      let entries := self.evidenceFor validator
      let duplicate := entries.any fun e =>
        e.height = evidence.height && e.blockHashA = evidence.blockHashA
          && e.blockHashB = evidence.blockHashB
      if duplicate then .ok (false, { self with evidence := self.evidence.insert validator entries })
      else
        .ok (true,
          { evidence := self.evidence.insert validator (entries ++ [evidence])
            confirmedEquivocators := self.confirmedEquivocators.insert validator })

/-- Submit under the offending validators' own keys, keeping the store when a
record is refused. -/
def submitAll (validatorSet : ValidatorKeys) :
    EquivocationStore → List EquivocationEvidence → EquivocationStore
  | self, [] => self
  | self, e :: rest =>
      match validatorSet[e.validatorId]? with
      | none => submitAll validatorSet self rest
      | some publicKey =>
          match self.submitEvidence e publicKey with
          | .error _ => submitAll validatorSet self rest
          | .ok r => submitAll validatorSet r.2 rest

/-- The stores that submissions lead to from the empty one. -/
inductive Reachable : EquivocationStore → Prop
  | new : Reachable new
  | submit {s s' : EquivocationStore} {e : EquivocationEvidence} {publicKey : Hash} {b : Bool} :
      Reachable s → s.submitEvidence e publicKey = .ok (b, s') → Reachable s'

/-- Whoever has evidence on record is confirmed. -/
def Confirms (s : EquivocationStore) : Prop :=
  ∀ id, s.evidenceFor id ≠ [] → id ∈ s.confirmedEquivocators

/-- Everything a submission can do: it is refused with the verdict of `verify`,
it repeats a record that is there, or it appends one and confirms. -/
theorem submitEvidence_cases {s s' : EquivocationStore} {e : EquivocationEvidence}
    {publicKey : Hash} {b : Bool} (h : s.submitEvidence e publicKey = .ok (b, s')) :
    e.verify publicKey = .ok () ∧
      ((s.evidenceFor e.validatorId ≠ [] ∧
          s' = { s with
            evidence := s.evidence.insert e.validatorId (s.evidenceFor e.validatorId) }) ∨
        s' = { evidence := s.evidence.insert e.validatorId (s.evidenceFor e.validatorId ++ [e])
               confirmedEquivocators := s.confirmedEquivocators.insert e.validatorId }) := by
  unfold submitEvidence at h
  split at h
  · cases h
  · rename_i hverify
    simp only at h
    split at h
    · rename_i hdup
      obtain ⟨-, rfl⟩ := by simpa only [Except.ok.injEq, Prod.mk.injEq] using h
      refine ⟨hverify, Or.inl ⟨?_, rfl⟩⟩
      intro hnil
      simp [hnil] at hdup
    · obtain ⟨-, rfl⟩ := by simpa only [Except.ok.injEq, Prod.mk.injEq] using h
      exact ⟨hverify, Or.inr rfl⟩

/-- A submission is accepted exactly when the evidence verifies. -/
theorem submitEvidence_isOk_iff {s : EquivocationStore} {e : EquivocationEvidence}
    {publicKey : Hash} :
    (∃ r, s.submitEvidence e publicKey = .ok r) ↔ e.verify publicKey = .ok () := by
  constructor
  · rintro ⟨⟨b, s'⟩, h⟩
    exact (submitEvidence_cases h).1
  · intro h
    unfold submitEvidence
    rw [h]
    simp only
    split <;> exact ⟨_, rfl⟩

/-- One submission keeps `Confirms`, forgets nobody, and leaves the validator
of the record confirmed. -/
theorem submitEvidence_confirms {s s' : EquivocationStore} {e : EquivocationEvidence}
    {publicKey : Hash} {b : Bool} (h : s.submitEvidence e publicKey = .ok (b, s'))
    (hs : s.Confirms) :
    s'.Confirms ∧ (∀ id ∈ s.confirmedEquivocators, id ∈ s'.confirmedEquivocators) ∧
      e.validatorId ∈ s'.confirmedEquivocators := by
  obtain ⟨-, ⟨hne, rfl⟩ | rfl⟩ := submitEvidence_cases h
  · refine ⟨?_, fun _ hid => hid, hs e.validatorId hne⟩
    intro id hid
    rw [evidenceFor_insert] at hid
    split at hid
    · rename_i heq
      exact heq ▸ hs e.validatorId hne
    · exact hs id hid
  · refine ⟨?_, fun id hid => Std.ExtTreeSet.mem_insert.mpr (Or.inr hid),
      Std.ExtTreeSet.mem_insert_self⟩
    intro id hid
    rw [evidenceFor_insert] at hid
    split at hid
    · rename_i heq
      exact heq ▸ Std.ExtTreeSet.mem_insert_self
    · exact Std.ExtTreeSet.mem_insert.mpr (Or.inr (hs id hid))

theorem Reachable.confirms {s : EquivocationStore} (h : Reachable s) : s.Confirms := by
  induction h with
  | new =>
      intro id hid
      simp [evidenceFor, EquivocationStore.new] at hid
  | submit _ hsubmit ih => exact (submitEvidence_confirms hsubmit ih).1

/-- Along a whole list of submissions nobody is forgotten, and whoever has an
acceptable record in it ends up confirmed. -/
theorem submitAll_confirms {V : ValidatorKeys} (l : List EquivocationEvidence)
    {s : EquivocationStore} (hs : s.Confirms) :
    (∀ id ∈ s.confirmedEquivocators, id ∈ (s.submitAll V l).confirmedEquivocators) ∧
      ∀ e ∈ l, ∀ publicKey, V[e.validatorId]? = some publicKey → e.verify publicKey = .ok () →
        e.validatorId ∈ (s.submitAll V l).confirmedEquivocators := by
  induction l generalizing s with
  | nil => simp [submitAll]
  | cons e rest ih =>
      cases hkey : V[e.validatorId]? with
      | none =>
          obtain ⟨hmono, hrest⟩ := ih hs
          simp only [submitAll, hkey]
          refine ⟨hmono, List.forall_mem_cons.mpr ⟨?_, hrest⟩⟩
          intro publicKey hsome
          cases hkey.symm.trans hsome
      | some publicKey =>
          cases hsubmit : s.submitEvidence e publicKey with
          | error msg =>
              obtain ⟨hmono, hrest⟩ := ih hs
              simp only [submitAll, hkey, hsubmit]
              refine ⟨hmono, List.forall_mem_cons.mpr ⟨?_, hrest⟩⟩
              intro publicKey' hsome hverify
              obtain rfl := Option.some_inj.mp (hkey.symm.trans hsome)
              obtain ⟨r, hr⟩ := submitEvidence_isOk_iff.mpr hverify
              cases hsubmit.symm.trans hr
          | ok r =>
              obtain ⟨b, s'⟩ := r
              obtain ⟨hs', hmono', hself⟩ := submitEvidence_confirms hsubmit hs
              obtain ⟨hmono, hrest⟩ := ih hs'
              simp only [submitAll, hkey, hsubmit]
              exact ⟨fun id hid => hmono id (hmono' id hid),
                List.forall_mem_cons.mpr ⟨fun _ _ _ => hmono _ hself, hrest⟩⟩

end

end EquivocationStore

/-! ## From a fork to the store -/

namespace SafetyCertificate

def signers (self : SafetyCertificate) : List Hash := self.precommitSignatures.map Prod.fst

/-- What is extracted from a fork of two accepted certificates: a record for
each common signer, with that signer's two precommits. -/
theorem mem_extractFromFork {a b : SafetyCertificate} {e : EquivocationEvidence}
    (hnodup : (a.precommitSignatures.map Prod.fst).Nodup)
    (hheight : a.height = b.height) (hhash : a.blockHash ≠ b.blockHash) :
    e ∈ EquivocationStore.extractFromFork a b ↔
      (e.validatorId, e.signatureA) ∈ a.precommitSignatures ∧
        (e.validatorId, e.signatureB) ∈ b.precommitSignatures ∧
        e.height = a.height ∧ e.roundA = a.round ∧ e.roundB = b.round ∧
        e.blockHashA = a.blockHash ∧ e.blockHashB = b.blockHash := by
  unfold EquivocationStore.extractFromFork
  rw [if_neg (by simp [hheight, hhash])]
  simp only [List.mem_filterMap, Option.map_eq_some_iff]
  constructor
  · rintro ⟨⟨id, sigB⟩, hmem, sigA, hsigA, rfl⟩
    exact ⟨(getElem?_ofList_eq_some_iff hnodup).mp hsigA, hmem, rfl, rfl, rfl, rfl, rfl⟩
  · rintro ⟨hA, hB, hh, hrA, hrB, hbA, hbB⟩
    refine ⟨(e.validatorId, e.signatureB), hB, e.signatureA,
      (getElem?_ofList_eq_some_iff hnodup).mpr hA, ?_⟩
    cases e
    simp_all

section

variable [Crypto]

/-- The accountability of a fork end to end: each record extracted from the two
certificates is accepted under the validator's key, and submitting them all,
from any store that submissions lead to, confirms every common signer. -/
def ForkAccountable (validatorSet : ValidatorKeys) (a b : SafetyCertificate) : Prop :=
  (∀ s : EquivocationStore, ∀ e ∈ EquivocationStore.extractFromFork a b, ∀ publicKey,
    validatorSet[e.validatorId]? = some publicKey → ∃ r, s.submitEvidence e publicKey = .ok r) ∧
  ∀ s : EquivocationStore, s.Reachable → ∀ id ∈ a.signers, id ∈ b.signers →
    id ∈ (s.submitAll validatorSet (EquivocationStore.extractFromFork a b)).confirmedEquivocators

/-- Every common signer's two precommits are also signatures over the message
that evidence verification rebuilds. -/
def SignedAsEvidence (validatorSet : ValidatorKeys) (a b : SafetyCertificate) : Prop :=
  ∀ id sigA sigB publicKey, (id, sigA) ∈ a.precommitSignatures →
    (id, sigB) ∈ b.precommitSignatures → validatorSet[id]? = some publicKey →
    verifyStrict publicKey (evidenceData a.blockHash a.height a.round) sigA = true ∧
      verifyStrict publicKey (evidenceData b.blockHash a.height b.round) sigB = true

/-- A fork of accepted certificates is accounted for exactly when every common
signer's precommits are good for the rebuilt message as well.  Where no
precommit of the first certificate is, because a signature is good for the
message it was made for and that is another one (`evidenceData_ne_voteData`),
the fork is accounted for exactly when nobody signed both blocks. -/
theorem forkAccountable_iff (V : ValidatorKeys) (a b : SafetyCertificate)
    (ha : a.verifyCryptographic V = .ok ()) (_hb : b.verifyCryptographic V = .ok ())
    (hheight : a.height = b.height) (hhash : a.blockHash ≠ b.blockHash) :
    (ForkAccountable V a b ↔ SignedAsEvidence V a b) ∧
      ((∀ entry ∈ a.precommitSignatures, ∀ publicKey, V[entry.1]? = some publicKey →
          verifyStrict publicKey (evidenceData a.blockHash a.height a.round) entry.2 = false) →
        (ForkAccountable V a b ↔ ∀ id ∈ a.signers, id ∉ b.signers)) := by
  obtain ⟨hstructA, hentriesA⟩ := verifyCryptographic_eq_ok ha
  obtain ⟨-, -, hnodup⟩ := verifyStructure_eq_ok hstructA
  have hiff : ForkAccountable V a b ↔ SignedAsEvidence V a b := by
    constructor
    · -- the record of a common signer is accepted, so it verifies
      rintro ⟨haccept, -⟩ id sigA sigB publicKey hA hB hkey
      have hmem : (⟨id, a.height, a.round, b.round, a.blockHash, b.blockHash, sigA, sigB⟩ :
          EquivocationEvidence) ∈ EquivocationStore.extractFromFork a b :=
        (mem_extractFromFork hnodup hheight hhash).mpr ⟨hA, hB, rfl, rfl, rfl, rfl, rfl⟩
      have hverify := EquivocationStore.submitEvidence_isOk_iff.mp
        (haccept .new _ hmem publicKey hkey)
      exact (EquivocationEvidence.verify_eq_ok_iff.mp hverify).2
    · intro hsigned
      have hverify : ∀ e ∈ EquivocationStore.extractFromFork a b, ∀ publicKey,
          V[e.validatorId]? = some publicKey → e.verify publicKey = .ok () := by
        intro e hmem publicKey hkey
        obtain ⟨hA, hB, hh, hrA, hrB, hbA, hbB⟩ :=
          (mem_extractFromFork hnodup hheight hhash).mp hmem
        obtain ⟨hsigA, hsigB⟩ := hsigned _ _ _ publicKey hA hB hkey
        rw [EquivocationEvidence.verify_eq_ok_iff, hbA, hbB, hh, hrA, hrB]
        exact ⟨hhash, hsigA, hsigB⟩
      refine ⟨fun s e hmem publicKey hkey =>
        EquivocationStore.submitEvidence_isOk_iff.mpr (hverify e hmem publicKey hkey), ?_⟩
      intro s hs id hidA hidB
      obtain ⟨⟨_, sigA⟩, hA, rfl⟩ := List.mem_map.mp hidA
      obtain ⟨⟨_, sigB⟩, hB, hid⟩ := List.mem_map.mp hidB
      obtain ⟨publicKey, hkey, -⟩ := hentriesA _ hA
      simp only at hid hkey ⊢
      subst hid
      have hmem : (⟨_, a.height, a.round, b.round, a.blockHash, b.blockHash, sigA, sigB⟩ :
          EquivocationEvidence) ∈ EquivocationStore.extractFromFork a b :=
        (mem_extractFromFork hnodup hheight hhash).mpr ⟨hA, hB, rfl, rfl, rfl, rfl, rfl⟩
      exact (EquivocationStore.submitAll_confirms _ hs.confirms).2 _ hmem publicKey hkey
        (hverify _ hmem publicKey hkey)
  refine ⟨hiff, fun honly => hiff.trans ⟨?_, ?_⟩⟩
  · intro hsigned id hidA hidB
    obtain ⟨⟨_, sigA⟩, hA, rfl⟩ := List.mem_map.mp hidA
    obtain ⟨⟨_, sigB⟩, hB, hid⟩ := List.mem_map.mp hidB
    obtain ⟨publicKey, hkey, -⟩ := hentriesA _ hA
    simp only at hid hkey
    subst hid
    have hsigA := (hsigned _ sigA sigB publicKey hA hB hkey).1
    rw [honly _ hA publicKey hkey] at hsigA
    cases hsigA
  · intro hdisjoint id sigA sigB publicKey hA hB _
    exact absurd (List.mem_map.mpr ⟨_, hB, rfl⟩) (hdisjoint id (List.mem_map.mpr ⟨_, hA, rfl⟩))

end

/-- Validators two and three sign both blocks; the record against validator two
is refused all the same. -/
theorem doubleSigned_not_accountable :
    ¬ (@verifyCryptographic polyCrypto (selfDeclared [1, 2, 3] (.ofByte 9)) fourKeys = .ok () →
      @verifyCryptographic polyCrypto (selfDeclared [2, 3, 4] (.ofByte 8)) fourKeys = .ok () →
      (selfDeclared [1, 2, 3] (.ofByte 9)).height = (selfDeclared [2, 3, 4] (.ofByte 8)).height →
      (selfDeclared [1, 2, 3] (.ofByte 9)).blockHash ≠
        (selfDeclared [2, 3, 4] (.ofByte 8)).blockHash →
      @ForkAccountable polyCrypto fourKeys (selfDeclared [1, 2, 3] (.ofByte 9))
        (selfDeclared [2, 3, 4] (.ofByte 8))) := by
  intro h
  obtain ⟨haccept, -⟩ := h (by decide +kernel) (by decide +kernel) rfl (by decide +kernel)
  let e : EquivocationEvidence := ⟨.ofByte 2, 0, 0, 0, .ofByte 9, .ofByte 8,
    (signedPrecommit 2 (.ofByte 9)).2, (signedPrecommit 2 (.ofByte 8)).2⟩
  obtain ⟨r, hr⟩ := haccept .new e (by decide +kernel) (.ofByte 2) (by decide +kernel)
  have herror : @EquivocationStore.submitEvidence polyCrypto .new e (.ofByte 2) =
      .error "Signature A verification failed" := by decide +kernel
  cases herror.symm.trans hr

theorem forkAccountable_iff_doubleSigned :
    @ForkAccountable polyCrypto fourKeys (selfDeclared [1, 2, 3] (.ofByte 9))
        (selfDeclared [2, 3, 4] (.ofByte 8)) ↔
      ∀ id ∈ (selfDeclared [1, 2, 3] (.ofByte 9)).signers,
        id ∉ (selfDeclared [2, 3, 4] (.ofByte 8)).signers :=
  (@forkAccountable_iff polyCrypto fourKeys (selfDeclared [1, 2, 3] (.ofByte 9))
    (selfDeclared [2, 3, 4] (.ofByte 8)) (by decide +kernel) (by decide +kernel) rfl
    (by decide +kernel)).2 (by
      intro entry hmem publicKey hkey
      have hself : ∀ entry ∈ (selfDeclared [1, 2, 3] (.ofByte 9)).precommitSignatures,
          fourKeys[entry.1]? = some entry.1 ∧
            @verifyStrict polyCrypto entry.1 (evidenceData (.ofByte 9) 0 0) entry.2 = false := by
        decide +kernel
      obtain ⟨hown, hfalse⟩ := hself entry hmem
      obtain rfl := Option.some_inj.mp (hown.symm.trans hkey)
      exact hfalse)

end SafetyCertificate

end Sccgub.Safety
