import Mathlib
import Sccgub.Quorum
import Sccgub.Consensus.Protocol

/-!
# Safety certificates and fork accountability

A certificate carries the precommits that finalized a block.
`verifyCryptographic` checks the quorum the certificate declares for itself,
that no signer is listed twice, that every signer is a member of the given
validator map, and every signature.  It does not compare the declared
validator count with the size of the map, so what acceptance gives is exactly:
the listed signers are distinct members with valid precommits
(`validSigners_card`), as many as there are entries.
-/

namespace Sccgub.Safety

open Bincode Quorum

structure SafetyCertificate where
  chainId : Hash
  epoch : UInt64
  height : UInt64
  blockHash : Hash
  round : UInt32
  precommitSignatures : List (Hash × Bytes)
  quorum : UInt32
  validatorCount : UInt32
  deriving DecidableEq, Inhabited

/-- Maximum Byzantine validators tolerated. -/
def maxByzantine (validatorCount : UInt32) : UInt32 :=
  if validatorCount < 4 then 0 else (validatorCount - 1) / 3

/-- A set built from a list is as long as the list exactly when no element
repeats. -/
theorem nodup_of_size_ofList {l : List Hash} (h : (Std.ExtTreeSet.ofList l).size = l.length) :
    l.Nodup := by
  have hset : (Std.ExtTreeSet.ofList l).toList.toFinset = l.toFinset := by
    ext x
    simp [Std.ExtTreeSet.mem_ofList]
  have hnodup : (Std.ExtTreeSet.ofList l).toList.Nodup := by
    refine Std.ExtTreeSet.distinct_toList.imp ?_
    rintro a _ hne rfl
    exact hne Std.ReflCmp.compare_self
  have hcard : (Std.ExtTreeSet.ofList l).toList.toFinset.card = (Std.ExtTreeSet.ofList l).size := by
    rw [List.toFinset_card_of_nodup hnodup, Std.ExtTreeSet.length_toList]
  rw [← Multiset.coe_nodup, ← Multiset.toFinset_card_eq_card_iff_nodup]
  show l.toFinset.card = l.length
  rw [← hset, hcard, h]

namespace SafetyCertificate

/-- Quorum size and duplicates, against the certificate's own counts. -/
def verifyStructure (self : SafetyCertificate) : Except String Unit :=
  let expectedQuorum := 2 * self.validatorCount.toNat / 3 + 1
  let ids := self.precommitSignatures.map Prod.fst
  if self.quorum.toNat ≠ expectedQuorum then
    .error (s!"Quorum mismatch: claimed {self.quorum} but expected {expectedQuorum} for n=" ++
      toString self.validatorCount)
  else if clampU32 self.precommitSignatures.length < self.quorum then
    .error (s!"Insufficient signatures: {self.precommitSignatures.length} < quorum " ++
      toString self.quorum)
  else if (Std.ExtTreeSet.ofList ids).size ≠ self.precommitSignatures.length then
    .error "Duplicate signer detected in safety certificate"
  else .ok ()

/-- What the structural checks establish: the declared quorum is the one of
the declared count, it is met, and no signer repeats. -/
theorem verifyStructure_eq_ok {c : SafetyCertificate} (h : c.verifyStructure = .ok ()) :
    c.quorum.toNat = threshold c.validatorCount.toNat ∧
      c.quorum.toNat ≤ c.precommitSignatures.length ∧
      (c.precommitSignatures.map Prod.fst).Nodup := by
  unfold verifyStructure at h
  simp only at h
  split at h
  · cases h
  · rename_i hquorum
    split at h
    · cases h
    · rename_i hlen
      split at h
      · cases h
      · rename_i hsize
        push Not at hquorum hsize
        refine ⟨hquorum, ?_, nodup_of_size_ofList (by rw [hsize, List.length_map])⟩
        rw [UInt32.lt_iff_toNat_lt, toNat_clampU32] at hlen
        omega

/-- The message every precommit of the certificate is over. -/
def voteData (self : SafetyCertificate) : Bytes :=
  voteSignData self.chainId self.epoch self.blockHash self.height self.round .precommit

section

variable [Crypto]

/-- One entry of the signature list. -/
def verifyEntry (self : SafetyCertificate) (validatorSet : ValidatorKeys)
    (entry : Hash × Bytes) : Except String Unit :=
  match validatorSet[entry.1]? with
  | none => .error ("Signer " ++ hexEncode entry.1.toList ++ " not in validator set")
  | some publicKey =>
      if entry.2.length < 64 then
        .error (s!"Signature too short ({entry.2.length} bytes) from validator " ++
          hexEncode entry.1.toList)
      else if verifyStrict publicKey self.voteData entry.2 then .ok ()
      else .error ("Invalid signature from validator " ++ hexEncode entry.1.toList)

/-- The loop over the signatures; the first failure is the result. -/
def verifyEntries (self : SafetyCertificate) (validatorSet : ValidatorKeys) :
    List (Hash × Bytes) → Except String Unit
  | [] => .ok ()
  | entry :: rest =>
      match self.verifyEntry validatorSet entry with
      | .error e => .error e
      | .ok () => self.verifyEntries validatorSet rest

def verifyCryptographic (self : SafetyCertificate) (validatorSet : ValidatorKeys) :
    Except String Unit :=
  match self.verifyStructure with
  | .error e => .error e
  | .ok () => self.verifyEntries validatorSet self.precommitSignatures

/-- The members of the validator map whose precommit in the certificate is
valid. -/
def validSigners (self : SafetyCertificate) (validatorSet : ValidatorKeys) : Finset Hash :=
  ((self.precommitSignatures.filter fun entry =>
    match validatorSet[entry.1]? with
    | some publicKey => verifyStrict publicKey self.voteData entry.2
    | none => false).map Prod.fst).toFinset

theorem verifyEntry_eq_ok {c : SafetyCertificate} {V : ValidatorKeys} {entry : Hash × Bytes}
    (h : c.verifyEntry V entry = .ok ()) :
    ∃ publicKey, V[entry.1]? = some publicKey ∧
      verifyStrict publicKey c.voteData entry.2 = true := by
  unfold verifyEntry at h
  split at h
  · cases h
  · rename_i publicKey hkey
    split at h
    · cases h
    · split at h
      · rename_i hsig
        exact ⟨publicKey, hkey, hsig⟩
      · cases h

theorem verifyEntries_eq_ok {c : SafetyCertificate} {V : ValidatorKeys} {l : List (Hash × Bytes)}
    (h : c.verifyEntries V l = .ok ()) : ∀ entry ∈ l, c.verifyEntry V entry = .ok () := by
  induction l with
  | nil => simp
  | cons entry rest ih =>
      simp only [verifyEntries] at h
      split at h
      · cases h
      · rename_i hentry
        exact List.forall_mem_cons.mpr ⟨hentry, ih h⟩

/-- Acceptance in one piece. -/
theorem verifyCryptographic_eq_ok {c : SafetyCertificate} {V : ValidatorKeys}
    (h : c.verifyCryptographic V = .ok ()) :
    c.verifyStructure = .ok () ∧
      ∀ entry ∈ c.precommitSignatures, ∃ publicKey, V[entry.1]? = some publicKey ∧
        verifyStrict publicKey c.voteData entry.2 = true := by
  unfold verifyCryptographic at h
  split at h
  · cases h
  · rename_i hstruct
    exact ⟨hstruct, fun entry hmem => verifyEntry_eq_ok (verifyEntries_eq_ok h entry hmem)⟩

/-- Of an accepted certificate every listed signer counts. -/
theorem validSigners_eq {c : SafetyCertificate} {V : ValidatorKeys}
    (h : c.verifyCryptographic V = .ok ()) :
    c.validSigners V = (c.precommitSignatures.map Prod.fst).toFinset := by
  obtain ⟨-, hentries⟩ := verifyCryptographic_eq_ok h
  unfold validSigners
  rw [List.filter_eq_self.mpr]
  intro entry hmem
  obtain ⟨publicKey, hkey, hsig⟩ := hentries entry hmem
  rw [hkey]
  exact hsig

theorem validSigners_card {c : SafetyCertificate} {V : ValidatorKeys}
    (h : c.verifyCryptographic V = .ok ()) :
    (c.validSigners V).card = c.precommitSignatures.length := by
  obtain ⟨hstruct, -⟩ := verifyCryptographic_eq_ok h
  obtain ⟨-, -, hnodup⟩ := verifyStructure_eq_ok hstruct
  rw [validSigners_eq h, List.toFinset_card_of_nodup hnodup, List.length_map]

theorem validSigners_subset (c : SafetyCertificate) (V : ValidatorKeys) :
    c.validSigners V ⊆ V.keys.toFinset := by
  intro id hid
  simp only [validSigners, List.mem_toFinset, List.mem_map, List.mem_filter] at hid
  obtain ⟨entry, ⟨-, hvalid⟩, rfl⟩ := hid
  rw [List.mem_toFinset, Std.ExtTreeMap.mem_keys, Std.ExtTreeMap.mem_iff_isSome_getElem?]
  cases hkey : V[entry.1]? with
  | none => simp [hkey] at hvalid
  | some publicKey => rfl

end

/-- Build a certificate from a finalized round. -/
def fromRound (chainId : Hash) (epoch : UInt64) (blockHash : Hash) (height : UInt64)
    (round : UInt32) (precommits : VoteMap) (validatorCount : UInt32) : SafetyCertificate :=
  { chainId, epoch, height, blockHash, round
    precommitSignatures := (precommits.values.filter fun v => v.blockHash = blockHash).map
      fun v => (v.validatorId, v.signature)
    quorum := clampU32 (2 * validatorCount.toNat / 3 + 1)
    validatorCount }

/-! ## Quorums of the validator map -/

theorem card_keys_toFinset (V : ValidatorKeys) : V.keys.toFinset.card = V.size := by
  rw [List.toFinset_card_of_nodup Std.ExtTreeMap.nodup_keys, Std.ExtTreeMap.length_keys]

/-- The overlap of two supermajorities is beyond what may be Byzantine. -/
theorem maxByzantine_lt (n : Nat) :
    (maxByzantine (clampU32 n)).toNat < 2 * threshold n - n := by
  unfold maxByzantine threshold
  split
  · simp only [UInt32.toNat_zero]
    omega
  · rename_i hge
    rw [UInt32.lt_iff_toNat_lt, toNat_clampU32] at hge
    have hsub : (clampU32 n - 1).toNat = (clampU32 n).toNat - 1 := by
      apply UInt32.toNat_sub_of_le
      rw [UInt32.le_iff_toNat_le, toNat_clampU32]
      simp only [UInt32.toNat_ofNat] at hge ⊢
      omega
    have hthree : (3 : UInt32).toNat = 3 := rfl
    have hfour : (4 : UInt32).toNat = 4 := rfl
    rw [UInt32.toNat_div, hsub, toNat_clampU32, hthree]
    omega

section

variable [Crypto]

/-- The declared count decides how many precommits are demanded: with at least
as many validators declared as the map has, a quorum of the map is there. -/
theorem threshold_le_of_validatorCount {c : SafetyCertificate} {V : ValidatorKeys}
    (h : c.verifyCryptographic V = .ok ()) (hcount : V.size ≤ c.validatorCount.toNat) :
    threshold V.size ≤ c.precommitSignatures.length := by
  obtain ⟨hstruct, -⟩ := verifyCryptographic_eq_ok h
  obtain ⟨hquorum, hlen, -⟩ := verifyStructure_eq_ok hstruct
  calc threshold V.size ≤ threshold c.validatorCount.toNat := threshold_mono hcount
    _ = c.quorum.toNat := hquorum.symm
    _ ≤ c.precommitSignatures.length := hlen

/-- An accepted certificate proves a quorum of the validator map exactly when
it lists as many precommits as that map's quorum; the count it declares forces
this once it is not below the map's size, and two such certificates share more
signers than may be Byzantine. -/
theorem verifyCryptographic_quorum_iff (c : SafetyCertificate) (V : ValidatorKeys)
    (h : c.verifyCryptographic V = .ok ()) :
    (threshold V.size ≤ (c.validSigners V).card ↔
        threshold V.size ≤ c.precommitSignatures.length) ∧
      (V.size ≤ c.validatorCount.toNat → threshold V.size ≤ c.precommitSignatures.length) ∧
      ∀ c' : SafetyCertificate, c'.verifyCryptographic V = .ok () →
        c'.height = c.height → c'.round = c.round → c'.blockHash ≠ c.blockHash →
        threshold V.size ≤ c.precommitSignatures.length →
        threshold V.size ≤ c'.precommitSignatures.length →
        2 * threshold V.size - V.size ≤ (c.validSigners V ∩ c'.validSigners V).card ∧
          (maxByzantine (clampU32 V.size)).toNat < 2 * threshold V.size - V.size := by
  refine ⟨by rw [validSigners_card h], threshold_le_of_validatorCount h, ?_⟩
  intro c' h' _ _ _ hlen hlen'
  refine ⟨?_, maxByzantine_lt V.size⟩
  rw [← validSigners_card h] at hlen
  rw [← validSigners_card h'] at hlen'
  have hoverlap := card_inter_of_threshold (c.validSigners_subset V) (c'.validSigners_subset V)
    (by rwa [card_keys_toFinset]) (by rwa [card_keys_toFinset])
  rwa [card_keys_toFinset] at hoverlap

end

/-- Four validators that are their own keys. -/
def fourKeys : ValidatorKeys :=
  Std.ExtTreeMap.ofList ([1, 2, 3, 4].map fun b => (Hash.ofByte b, Hash.ofByte b))

/-- The precommit of the validator with key `[b; 32]` on a block, at height and
round zero of chain zero. -/
def signedPrecommit (b : UInt8) (blockHash : Hash) : Hash × Bytes :=
  (.ofByte b, (Hash.ofByte b).toList ++ (polyCrypto.polyDigest
    (voteSignData zeroHash 0 blockHash 0 0 .precommit)).toList)

/-- A certificate that declares as many validators as it has signers. -/
def selfDeclared (signers : List UInt8) (blockHash : Hash) : SafetyCertificate where
  chainId := zeroHash
  epoch := 0
  height := 0
  blockHash
  round := 0
  precommitSignatures := signers.map (signedPrecommit · blockHash)
  quorum := clampU32 (threshold signers.length)
  validatorCount := clampU32 signers.length

/-- One signature out of four validators is accepted when the certificate says
there is one validator. -/
theorem selfDeclared_one_accepted :
    ¬ (@verifyCryptographic polyCrypto (selfDeclared [1] (.ofByte 9)) fourKeys = .ok () →
      threshold fourKeys.size ≤
        (@validSigners polyCrypto (selfDeclared [1] (.ofByte 9)) fourKeys).card) := by
  decide +kernel

theorem verifyCryptographic_quorum_iff_four :
    (threshold fourKeys.size ≤
        (@validSigners polyCrypto (selfDeclared [1, 2, 3, 4] (.ofByte 9)) fourKeys).card ↔
      threshold fourKeys.size ≤ (selfDeclared [1, 2, 3, 4] (.ofByte 9)).precommitSignatures.length) :=
  (@verifyCryptographic_quorum_iff polyCrypto (selfDeclared [1, 2, 3, 4] (.ofByte 9)) fourKeys
    (by decide +kernel)).1

end SafetyCertificate

end Sccgub.Safety
