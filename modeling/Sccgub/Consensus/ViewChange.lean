import Mathlib
import Sccgub.Crypto
import Sccgub.OrderedMap
import Sccgub.Quorum
import Sccgub.Types.ValidatorSet

/-!
# Round advancement

A `NewRound` message says that its signer is ready for a round.  `RoundAdvance`
keeps the first one admitted of each signer and advances once their power
reaches the quorum of the active set.

Which message is kept depends on the order of arrival, whose message is kept does
not: the signers are those with a message that passes the checks.  Validator ids
do not repeat in a set, so each signer is one active record and the power admitted
is that of a set of records.
-/

namespace Sccgub

open Bincode

/-! ## Messages -/

structure NewRoundMessage where
  height : UInt64
  round : UInt32
  lastPrevote : Option Hash
  signer : Ed25519PublicKey
  signature : Ed25519Signature
  deriving DecidableEq

namespace NewRoundMessage

def canonicalBytes (height : UInt64) (round : UInt32) (lastPrevote : Option Hash)
    (signer : Ed25519PublicKey) : Bytes :=
  (Codec.u64.pair <| Codec.u32.pair <| (Codec.bytes 32).option.pair (Codec.bytes 32)).enc
    (height, round, lastPrevote, signer)

def payloadBytes (self : NewRoundMessage) : Bytes :=
  canonicalBytes self.height self.round self.lastPrevote self.signer

end NewRoundMessage

inductive NewRoundRejection
  | heightMismatch (got want : UInt64)
  | roundMismatch (got want : UInt32)
  | signerNotInActiveSet (signer : Ed25519PublicKey)
  | signatureInvalid (signer : Ed25519PublicKey)
  | duplicateSigner (signer : Ed25519PublicKey)
  deriving DecidableEq

/-! ## Admission -/

structure RoundAdvance where
  admitted : Std.ExtTreeMap Ed25519PublicKey NewRoundMessage := ∅

namespace RoundAdvance

/-- The power a signer brings in. -/
def powerOf (set : ValidatorSet) (height : UInt64) (signer : Ed25519PublicKey) : Nat :=
  match set.findActiveByValidatorId signer height with
  | some record => record.votingPower.toNat
  | none => 0

/-- The source adds in `u128` and saturates; the total power of the set is below
that. -/
def admittedPower (self : RoundAdvance) (set : ValidatorSet) (height : UInt64) : Nat :=
  self.admitted.keys.foldl (fun sum signer => sum + powerOf set height signer) 0

def hasQuorum (self : RoundAdvance) (set : ValidatorSet) (height : UInt64) : Bool :=
  set.quorumPowerAt height ≤ self.admittedPower set height

section

variable [Crypto]

/-- The advance after the call, and what the call returns. -/
def admitMessage (self : RoundAdvance) (msg : NewRoundMessage) (set : ValidatorSet)
    (targetHeight : UInt64) (targetRound : UInt32) :
    RoundAdvance × Except NewRoundRejection Unit :=
  if msg.height ≠ targetHeight then (self, .error (.heightMismatch msg.height targetHeight))
  else if msg.round ≠ targetRound then (self, .error (.roundMismatch msg.round targetRound))
  else if (set.findActiveByValidatorId msg.signer targetHeight).isNone then
    (self, .error (.signerNotInActiveSet msg.signer))
  else if !verifyStrict msg.signer msg.payloadBytes msg.signature then
    (self, .error (.signatureInvalid msg.signer))
  else if msg.signer ∈ self.admitted then (self, .error (.duplicateSigner msg.signer))
  else (⟨self.admitted.insert msg.signer msg⟩, .ok ())

/-- One call for each message. -/
def admitAll (set : ValidatorSet) (height : UInt64) (round : UInt32) (self : RoundAdvance)
    (msgs : List NewRoundMessage) : RoundAdvance :=
  msgs.foldl (fun advance msg => (advance.admitMessage msg set height round).1) self

/-- The messages whose call returned without an error. -/
def accepted (set : ValidatorSet) (height : UInt64) (round : UInt32) :
    RoundAdvance → List NewRoundMessage → List NewRoundMessage
  | _, [] => []
  | self, msg :: rest =>
      let result := self.admitMessage msg set height round
      if result.2.isOk then msg :: accepted set height round result.1 rest
      else accepted set height round result.1 rest

/-- The active records with an accepted message. -/
def holders (set : ValidatorSet) (height : UInt64) (round : UInt32)
    (msgs : List NewRoundMessage) : Finset ValidatorRecord :=
  (set.activeAt height).toFinset.filter fun record =>
    record.validatorId ∈ (accepted set height round {} msgs).map NewRoundMessage.signer

/-- What every call asks of a message. -/
structure Valid (set : ValidatorSet) (height : UInt64) (round : UInt32)
    (msg : NewRoundMessage) : Prop where
  atHeight : msg.height = height
  atRound : msg.round = round
  active : (set.findActiveByValidatorId msg.signer height).isSome = true
  signed : verifyStrict msg.signer msg.payloadBytes msg.signature = true

variable {set : ValidatorSet} {height : UInt64} {round : UInt32}

/-- What a call can do. -/
theorem admitMessage_cases (self : RoundAdvance) (msg : NewRoundMessage) (set : ValidatorSet)
    (height : UInt64) (round : UInt32) :
    (Valid set height round msg ∧ msg.signer ∉ self.admitted
        ∧ self.admitMessage msg set height round = (⟨self.admitted.insert msg.signer msg⟩, .ok ()))
      ∨ ((Valid set height round msg → msg.signer ∈ self.admitted)
        ∧ ∃ e, self.admitMessage msg set height round = (self, .error e)) := by
  unfold admitMessage
  by_cases hheight : msg.height = height
  · by_cases hround : msg.round = round
    · rcases hfind : set.findActiveByValidatorId msg.signer height with _ | record
      · exact Or.inr ⟨fun hv => absurd hv.active (by simp [hfind]),
          .signerNotInActiveSet msg.signer, by simp [hheight, hround]⟩
      · by_cases hsigned : verifyStrict msg.signer msg.payloadBytes msg.signature = true
        · by_cases hmem : msg.signer ∈ self.admitted
          · exact Or.inr ⟨fun _ => hmem, .duplicateSigner msg.signer, by
              simp [hheight, hround, hsigned, hmem]⟩
          · exact Or.inl ⟨⟨hheight, hround, by simp [hfind], hsigned⟩, hmem, by
              simp [hheight, hround, hsigned, hmem]⟩
        · exact Or.inr ⟨fun hv => absurd hv.signed hsigned, .signatureInvalid msg.signer, by
            simp [hheight, hround, hsigned]⟩
    · exact Or.inr ⟨fun hv => absurd hv.atRound hround, .roundMismatch msg.round round, by
        simp [hheight, hround]⟩
  · exact Or.inr ⟨fun hv => absurd hv.atHeight hheight, .heightMismatch msg.height height, by
      simp [hheight]⟩

theorem admitMessage_of_error {self : RoundAdvance} {msg : NewRoundMessage} {e : NewRoundRejection}
    (h : (self.admitMessage msg set height round).2 = .error e) :
    (self.admitMessage msg set height round).1 = self := by
  rcases self.admitMessage_cases msg set height round
    with ⟨-, -, hcall⟩ | ⟨-, e', hcall⟩
  · rw [hcall] at h
    cases h
  · rw [hcall]

omit [Crypto] in
theorem mem_insert_admitted {self : RoundAdvance} {msg : NewRoundMessage}
    {signer : Ed25519PublicKey} :
    signer ∈ self.admitted.insert msg.signer msg ↔ signer = msg.signer ∨ signer ∈ self.admitted := by
  rw [Std.ExtTreeMap.mem_insert, Std.compare_eq_iff_eq, eq_comm]

/-- A call lets in the signer of a message that passes the checks. -/
theorem mem_admitMessage_iff (self : RoundAdvance) (msg : NewRoundMessage) (signer : Ed25519PublicKey) :
    signer ∈ (self.admitMessage msg set height round).1.admitted
      ↔ signer ∈ self.admitted ∨ Valid set height round msg ∧ msg.signer = signer := by
  rcases self.admitMessage_cases msg set height round
    with ⟨hvalid, -, hcall⟩ | ⟨hold, e, hcall⟩
  · rw [hcall, mem_insert_admitted, or_comm, eq_comm]
    simp [hvalid]
  · rw [hcall]
    refine ⟨Or.inl, ?_⟩
    rintro (hmem | ⟨hvalid, rfl⟩)
    · exact hmem
    · exact hold hvalid

theorem mem_admitAll_iff (self : RoundAdvance) (msgs : List NewRoundMessage)
    (signer : Ed25519PublicKey) :
    signer ∈ (admitAll set height round self msgs).admitted
      ↔ signer ∈ self.admitted ∨ ∃ msg ∈ msgs, Valid set height round msg ∧ msg.signer = signer := by
  induction msgs generalizing self with
  | nil => simp [admitAll]
  | cons msg rest ih =>
      show signer ∈ (admitAll set height round (self.admitMessage msg set height round).1 rest).admitted ↔ _
      rw [ih, mem_admitMessage_iff, or_assoc, List.exists_mem_cons_iff]

/-- The signers let in are those of the accepted messages. -/
theorem mem_admitAll_iff_accepted (self : RoundAdvance) (msgs : List NewRoundMessage)
    (signer : Ed25519PublicKey) :
    signer ∈ (admitAll set height round self msgs).admitted
      ↔ signer ∈ self.admitted
        ∨ signer ∈ (accepted set height round self msgs).map NewRoundMessage.signer := by
  induction msgs generalizing self with
  | nil => simp [admitAll, accepted]
  | cons msg rest ih =>
      show signer ∈ (admitAll set height round (self.admitMessage msg set height round).1 rest).admitted ↔ _
      rw [ih, accepted]
      rcases self.admitMessage_cases msg set height round
        with ⟨-, -, hcall⟩ | ⟨-, e, hcall⟩
      · rw [hcall, mem_insert_admitted]
        simp only [Except.isOk, Except.toBool, if_true, List.map_cons, List.mem_cons]
        exact ⟨fun h => by tauto, fun h => by tauto⟩
      · rw [hcall]
        simp [Except.isOk, Except.toBool]

/-- What is accepted has passed every check. -/
theorem valid_of_mem_accepted (self : RoundAdvance) (msgs : List NewRoundMessage)
    {msg : NewRoundMessage} (h : msg ∈ accepted set height round self msgs) :
    msg ∈ msgs ∧ Valid set height round msg := by
  induction msgs generalizing self with
  | nil => cases h
  | cons first rest ih =>
      rw [accepted] at h
      rcases self.admitMessage_cases first set height round
        with ⟨hvalid, -, hcall⟩ | ⟨-, e, hcall⟩
      · rw [hcall] at h
        rcases List.mem_cons.mp h with rfl | hrest
        · exact ⟨List.mem_cons_self, hvalid⟩
        · exact (ih _ hrest).imp_left (List.mem_cons_of_mem _)
      · rw [hcall] at h
        exact (ih _ h).imp_left (List.mem_cons_of_mem _)

/-- Whose message is accepted can be told from the messages alone. -/
theorem mem_signers_accepted_iff (msgs : List NewRoundMessage) (signer : Ed25519PublicKey) :
    signer ∈ (accepted set height round {} msgs).map NewRoundMessage.signer
      ↔ ∃ msg ∈ msgs, Valid set height round msg ∧ msg.signer = signer := by
  have hnone : signer ∉ ({} : RoundAdvance).admitted := Std.ExtTreeMap.not_mem_empty
  have haccepted := @mem_admitAll_iff_accepted _ set height round {} msgs signer
  rw [mem_admitAll_iff] at haccepted
  simpa [hnone] using haccepted.symm

/-! ## Power -/

omit [Crypto] in
theorem admittedPower_eq (self : RoundAdvance) (set : ValidatorSet) (height : UInt64) :
    self.admittedPower set height = ∑ signer ∈ self.admitted.keys.toFinset, powerOf set height signer := by
  have hfold : ∀ (l : List Ed25519PublicKey) (start : Nat),
      l.foldl (fun sum signer => sum + powerOf set height signer) start
        = start + (l.map (powerOf set height)).sum := by
    intro l
    induction l with
    | nil => simp
    | cons signer rest ih =>
        intro start
        rw [List.foldl_cons, ih, List.map_cons, List.sum_cons, Nat.add_assoc]
  rw [admittedPower, hfold, Nat.zero_add, List.sum_toFinset _ Std.ExtTreeMap.nodup_keys]

omit [Crypto] in
/-- The same signers, the same power. -/
theorem admittedPower_congr {self self' : RoundAdvance}
    (h : ∀ signer, signer ∈ self.admitted ↔ signer ∈ self'.admitted) (set : ValidatorSet)
    (height : UInt64) : self.admittedPower set height = self'.admittedPower set height := by
  rw [admittedPower_eq, admittedPower_eq]
  refine Finset.sum_congr (Finset.ext fun signer => ?_) fun _ _ => rfl
  rw [List.mem_toFinset, List.mem_toFinset, Std.ExtTreeMap.mem_keys, Std.ExtTreeMap.mem_keys, h]

end

end RoundAdvance

/-! ## One record for each id -/

namespace ValidatorSet

theorem nodup_of_new {records : List ValidatorRecord} {set : ValidatorSet}
    (h : ValidatorSet.new records = .ok set) :
    (set.records.map ValidatorRecord.validatorId).Nodup := by
  unfold ValidatorSet.new at h
  dsimp only at h
  split at h
  · cases h
  · split at h
    · cases h
    · rename_i hids
      cases h
      exact (firstAdjacentDuplicate_sortByHash _).mp hids

variable {set : ValidatorSet} {height : UInt64}

theorem find_eq_of_mem (hids : (set.records.map ValidatorRecord.validatorId).Nodup)
    {record : ValidatorRecord} (h : record ∈ set.activeAt height) :
    set.findActiveByValidatorId record.validatorId height = some record := by
  obtain ⟨hmem, hactive⟩ := List.mem_filter.mp h
  have hsome : (set.findActiveByValidatorId record.validatorId height).isSome := by
    rw [findActiveByValidatorId, List.find?_isSome]
    exact ⟨record, hmem, by simp [hactive]⟩
  obtain ⟨found, hfound⟩ := Option.isSome_iff_exists.mp hsome
  obtain ⟨hfmem, hid, -⟩ := findActiveByValidatorId_spec hfound
  rw [hfound, List.inj_on_of_nodup_map hids hfmem hmem hid]

theorem totalPowerAt_eq (hids : (set.records.map ValidatorRecord.validatorId).Nodup)
    (height : UInt64) :
    set.totalPowerAt height = ∑ record ∈ (set.activeAt height).toFinset, record.votingPower.toNat :=
  (List.sum_toFinset _ ((hids.of_map _).filter _)).symm

end ValidatorSet

namespace RoundAdvance

variable [Crypto] {set : ValidatorSet} {height : UInt64} {round : UInt32}

theorem holders_subset (msgs : List NewRoundMessage) :
    holders set height round msgs ⊆ (set.activeAt height).toFinset :=
  Finset.filter_subset _ _

/-- The power admitted is that of the active records with an accepted message,
each of them once. -/
theorem admittedPower_admitAll (hids : (set.records.map ValidatorRecord.validatorId).Nodup)
    (msgs : List NewRoundMessage) :
    (admitAll set height round {} msgs).admittedPower set height
      = ∑ record ∈ holders set height round msgs, record.votingPower.toNat := by
  rw [admittedPower_eq]
  have hkey : ∀ signer, signer ∈ (admitAll set height round {} msgs).admitted.keys.toFinset
      ↔ signer ∈ (accepted set height round {} msgs).map NewRoundMessage.signer := by
    intro signer
    rw [List.mem_toFinset, Std.ExtTreeMap.mem_keys, mem_admitAll_iff_accepted]
    simp
  have hholder : ∀ {record}, record ∈ holders set height round msgs ↔
      record ∈ set.activeAt height
        ∧ record.validatorId ∈ (accepted set height round {} msgs).map NewRoundMessage.signer := by
    intro record
    rw [holders, Finset.mem_filter, List.mem_toFinset]
  symm
  refine Finset.sum_nbij ValidatorRecord.validatorId ?_ ?_ ?_ ?_
  · intro record hrecord
    exact (hkey _).mpr (hholder.mp hrecord).2
  · intro record hrecord record' hrecord' heq
    have hmem := List.mem_of_mem_filter (hholder.mp hrecord).1
    have hmem' := List.mem_of_mem_filter (hholder.mp hrecord').1
    exact List.inj_on_of_nodup_map hids hmem hmem' heq
  · intro signer hsigner
    have haccepted := (hkey signer).mp hsigner
    rw [Finset.mem_coe, List.mem_toFinset, Std.ExtTreeMap.mem_keys, mem_admitAll_iff] at hsigner
    rcases hsigner with hnone | ⟨msg, -, hvalid, rfl⟩
    · simp at hnone
    · obtain ⟨record, hfind⟩ := Option.isSome_iff_exists.mp hvalid.active
      obtain ⟨hmem, hid, hactive⟩ := ValidatorSet.findActiveByValidatorId_spec hfind
      refine ⟨record, hholder.mpr ⟨List.mem_filter.mpr ⟨hmem, hactive⟩, ?_⟩, hid⟩
      rwa [hid]
  · intro record hrecord
    rw [powerOf, ValidatorSet.find_eq_of_mem hids (hholder.mp hrecord).1]

theorem hasQuorum_iff (hids : (set.records.map ValidatorRecord.validatorId).Nodup)
    (msgs : List NewRoundMessage) :
    (admitAll set height round {} msgs).hasQuorum set height = true
      ↔ 2 * set.totalPowerAt height / 3 + 1
        ≤ ∑ record ∈ holders set height round msgs, record.votingPower.toNat := by
  rw [hasQuorum, decide_eq_true_eq, admittedPower_admitAll hids, ValidatorSet.quorumPowerAt,
    Nat.mul_comm]

/-- A rejected message changes nothing; an accepted one is for the height and the
round, from an active signer and signed by it, and a signer with such a message
has one accepted.  The power admitted does not depend on the order or the
repetition of messages and counts every active record once; it is a quorum as soon
as the records with an accepted message hold one; and two quorums share more than
a third of the power. -/
theorem admitAll_safe {records : List ValidatorRecord} (hset : ValidatorSet.new records = .ok set)
    (height : UInt64) (round : UInt32) :
    (∀ (self : RoundAdvance) (msg : NewRoundMessage) (e : NewRoundRejection),
        (self.admitMessage msg set height round).2 = .error e →
        (self.admitMessage msg set height round).1 = self)
      ∧ (∀ msgs : List NewRoundMessage, ∀ msg ∈ accepted set height round {} msgs,
        msg ∈ msgs ∧ Valid set height round msg)
      ∧ (∀ (msgs : List NewRoundMessage) (signer : Ed25519PublicKey),
        signer ∈ (accepted set height round {} msgs).map NewRoundMessage.signer
          ↔ ∃ msg ∈ msgs, Valid set height round msg ∧ msg.signer = signer)
      ∧ (∀ msgs msgs' : List NewRoundMessage, (∀ msg, msg ∈ msgs ↔ msg ∈ msgs') →
        (admitAll set height round {} msgs).admittedPower set height
          = (admitAll set height round {} msgs').admittedPower set height)
      ∧ (∀ msgs : List NewRoundMessage,
        (admitAll set height round {} msgs).admittedPower set height
          = ∑ record ∈ holders set height round msgs, record.votingPower.toNat)
      ∧ (∀ msgs : List NewRoundMessage,
        (admitAll set height round {} msgs).hasQuorum set height = true
          ↔ 2 * set.totalPowerAt height / 3 + 1
            ≤ ∑ record ∈ holders set height round msgs, record.votingPower.toNat)
      ∧ ∀ msgs msgs' : List NewRoundMessage,
        (admitAll set height round {} msgs).hasQuorum set height = true →
        (admitAll set height round {} msgs').hasQuorum set height = true →
        set.totalPowerAt height
          < 3 * ∑ record ∈ holders set height round msgs ∩ holders set height round msgs',
              record.votingPower.toNat := by
  have hids := ValidatorSet.nodup_of_new hset
  refine ⟨fun _ _ _ => admitMessage_of_error, fun msgs _ => valid_of_mem_accepted {} msgs,
    mem_signers_accepted_iff, fun msgs msgs' hsame => ?_, admittedPower_admitAll hids,
    hasQuorum_iff hids, fun msgs msgs' hquorum hquorum' => ?_⟩
  · refine admittedPower_congr (fun signer => ?_) set height
    rw [mem_admitAll_iff, mem_admitAll_iff]
    simp only [hsame]
  · rw [hasQuorum_iff hids, ValidatorSet.totalPowerAt_eq hids] at hquorum hquorum'
    rw [ValidatorSet.totalPowerAt_eq hids]
    exact Quorum.weight_inter_of_threshold _ (holders_subset msgs) (holders_subset msgs') hquorum
      hquorum'

end RoundAdvance

/-- Three validators of equal power. -/
def threeValidators : List ValidatorRecord :=
  [⟨Hash.ofByte 1, Hash.ofByte 11, ⟨1, 1⟩, 1, 0, none⟩,
    ⟨Hash.ofByte 2, Hash.ofByte 12, ⟨1, 1⟩, 1, 0, none⟩,
    ⟨Hash.ofByte 3, Hash.ofByte 13, ⟨1, 1⟩, 1, 0, none⟩]

/-- Ready for round 1 at height 5, as the small instance of the packages signs. -/
def readyMessage (signer : Hash) : NewRoundMessage where
  height := 5
  round := 1
  lastPrevote := none
  signer
  signature := signer.toList
    ++ (polyCrypto.polyDigest (NewRoundMessage.canonicalBytes 5 1 none signer)).toList

def readyMessages : List NewRoundMessage :=
  [readyMessage (Hash.ofByte 11), readyMessage (Hash.ofByte 11), readyMessage (Hash.ofByte 13),
    readyMessage (Hash.ofByte 12)]

theorem admitAll_safe_three :
    (@RoundAdvance.admitAll polyCrypto ⟨threeValidators⟩ 5 1 {} readyMessages).hasQuorum
        ⟨threeValidators⟩ 5 = true
      ∧ ValidatorSet.totalPowerAt ⟨threeValidators⟩ 5
        < 3 * ∑ record ∈ @RoundAdvance.holders polyCrypto ⟨threeValidators⟩ 5 1 readyMessages
            ∩ @RoundAdvance.holders polyCrypto ⟨threeValidators⟩ 5 1 readyMessages.reverse,
          record.votingPower.toNat := by
  have hset : ValidatorSet.new threeValidators = .ok ⟨threeValidators⟩ := by decide +kernel
  have hquorum : (@RoundAdvance.admitAll polyCrypto ⟨threeValidators⟩ 5 1 {}
      readyMessages).hasQuorum ⟨threeValidators⟩ 5 = true := by
    decide +kernel
  refine ⟨hquorum, (@RoundAdvance.admitAll_safe polyCrypto _ _ hset 5 1).2.2.2.2.2.2 _ _ hquorum ?_⟩
  decide +kernel

end Sccgub
