import Mathlib
import Sccgub.Execution.Authorization
import Sccgub.Node.Governance

/-!
# What a signature binds

Two valid transitions with the same signed bytes.  Payload, target, nonce and
agent agree: the tuple carries them, or a digest of them, and the checks rule
out that two kinds of payload meet in one digest.  So does everything that
block application reads.

The actor's governance level is not in the tuple.  The WH binding, which is,
bounds it from one side only, so a transition can be given another level and
keep its signature.  Governance replay reads the level.
-/

namespace Sccgub

open Bincode

/-! ## Payloads by their digest -/

/-- What stands for the payload is the digest of this, or zeros. -/
def payloadMessage : OperationPayload → Option Bytes
  | .write key value => some (concatParts [key, value])
  | .noop => none
  | payload => some (canonicalBytes OperationPayload.codec payload)

/-- Which payloads a kind may carry. -/
def carries : TransitionKind → OperationPayload → Bool
  | .stateWrite, .write .. | .contractInvoke, .write .. | .governanceUpdate, .write .. => true
  | .assetTransfer, .assetTransfer .. => true
  | .agentRegistration, .registerAgent _ => true
  | .normProposal, .proposeNorm .. => true
  | .contractDeploy, .deployContract _ => true
  | .contractInvoke, .invokeContract .. => true
  | _, .noop => true
  | _, _ => false

theorem carries_of_consistent {tx : SymbolicTransition}
    (h : checkPayloadConsistency tx = .consistent) : carries tx.intent.kind tx.payload = true := by
  unfold checkPayloadConsistency at h
  rcases hkind : tx.intent.kind <;> rcases hpayload : tx.payload <;>
    simp_all [carries]

/-- A write is not confused with another payload: the one kind that may carry a
write and something else tells them apart by the mechanism. -/
theorem write_of_write {kind : TransitionKind} {how : TransitionMechanism} {key value : Bytes}
    {payload : OperationPayload} (hw : carries kind (.write key value) = true)
    (hhow : howMatches how (.write key value) = true) (hp : carries kind payload = true)
    (hhow' : howMatches how payload = true) (hne : payload ≠ .noop) :
    ∃ key' value', payload = .write key' value' := by
  cases payload with
  | write key' value' => exact ⟨key', value', rfl⟩
  | noop => exact absurd rfl hne
  | invokeContract contractId method args =>
      cases how <;> simp [howMatches] at hhow hhow'
  | _ => cases kind <;> simp [carries] at hw hp

theorem payloadMessage_of_ne {payload : OperationPayload} (hne : payload ≠ .noop)
    (hw : ∀ key value, payload ≠ .write key value) :
    payloadMessage payload = some (canonicalBytes OperationPayload.codec payload) := by
  cases payload with
  | write key value => exact absurd rfl (hw key value)
  | noop => exact absurd rfl hne
  | _ => rfl

theorem payloadMessage_eq_none_iff {payload : OperationPayload} :
    payloadMessage payload = none ↔ payload = .noop := by
  cases payload <;> simp [payloadMessage]

theorem write_fits {key value : Bytes} (h : OperationPayload.codec.Fits (.write key value)) :
    ∀ part ∈ [key, value], part.length < 2 ^ 64 := by
  have hparts : (Codec.blob.pair Codec.blob).Fits (key, value) := h.2
  rw [Codec.pair_fits, Codec.blob_fits, Codec.blob_fits] at hparts
  intro part hpart
  rcases List.mem_cons.mp hpart with rfl | hpart
  · exact hparts.1
  · rw [List.mem_singleton.mp hpart]
    exact hparts.2

theorem payloadMessage_inj {kind : TransitionKind} {how : TransitionMechanism}
    {p q : OperationPayload} (hp : carries kind p = true) (hq : carries kind q = true)
    (hhp : howMatches how p = true) (hhq : howMatches how q = true)
    (hfp : OperationPayload.codec.Fits p) (hfq : OperationPayload.codec.Fits q)
    (h : payloadMessage p = payloadMessage q) : p = q := by
  by_cases hpn : p = .noop
  · rw [hpn, payloadMessage_eq_none_iff.mpr rfl] at h
    rw [hpn, payloadMessage_eq_none_iff.mp h.symm]
  · have hqn : q ≠ .noop := fun hq => hpn
      (payloadMessage_eq_none_iff.mp (h.trans (payloadMessage_eq_none_iff.mpr hq)))
    by_cases hw : ∃ key value, p = .write key value
    · obtain ⟨key, value, rfl⟩ := hw
      obtain ⟨key', value', rfl⟩ := write_of_write hp hhp hq hhq hqn
      have hparts := concatParts_inj (write_fits hfp) (write_fits hfq) (Option.some_inj.mp h)
      simp only [List.cons.injEq, and_true] at hparts
      rw [hparts.1, hparts.2]
    · have hw' : ∀ key value, q ≠ .write key value := by
        rintro key value rfl
        exact hw (write_of_write hq hhq hp hhp hpn)
      rw [payloadMessage_of_ne hpn fun key value hpw => hw ⟨key, value, hpw⟩,
        payloadMessage_of_ne hqn hw', Option.some_inj] at h
      exact OperationPayload.codec.enc_inj hfp hfq (OperationPayload.codec_complete p)
        (OperationPayload.codec_complete q) h

/-! ## Valid transitions with the same signed bytes -/

/-- The strings whose digests stand in the signed tuple and decide the effect. -/
def hashedMessages (tx : SymbolicTransition) : List Bytes :=
  canonicalBytes WHBindingIntent.codec tx.whBindingIntent :: (payloadMessage tx.payload).toList

theorem binding_mem_hashedMessages (tx : SymbolicTransition) :
    canonicalBytes WHBindingIntent.codec tx.whBindingIntent ∈ hashedMessages tx :=
  List.mem_cons_self

theorem payload_mem_hashedMessages {tx : SymbolicTransition} {m : Bytes}
    (h : m ∈ payloadMessage tx.payload) : m ∈ hashedMessages tx :=
  List.mem_cons_of_mem _ (Option.mem_toList.mpr h)

theorem SymbolicTransition.fits_payload {tx : SymbolicTransition} (h : codec.Fits tx) :
    OperationPayload.codec.Fits tx.payload := h.2.2.2.2.2.1

theorem SymbolicTransition.fits_binding {tx : SymbolicTransition} (h : codec.Fits tx) :
    WHBindingIntent.codec.Fits tx.whBindingIntent := h.2.2.2.2.2.2.2.1

/-- The part of a transition that its effect depends on. -/
structure SameBody (t t' : SymbolicTransition) : Prop where
  txId : t'.txId = t.txId
  kind : t'.intent.kind = t.intent.kind
  target : t'.intent.target = t.intent.target
  payload : t'.payload = t.payload
  nonce : t'.nonce = t.nonce
  agentId : t'.actor.agentId = t.actor.agentId
  whBindingIntent : t'.whBindingIntent = t.whBindingIntent

section

variable [Crypto]

/-- The digest tells these messages apart, and from the zeros that stand for no
operation. -/
structure HashSound (messages : List Bytes) : Prop where
  free : CollisionFree {m | m ∈ messages}
  ne_zero : ∀ m ∈ messages, Crypto.blake3 m ≠ zeroHash

theorem HashSound.subset {messages fewer : List Bytes} (h : HashSound messages)
    (hmem : ∀ m ∈ fewer, m ∈ messages) : HashSound fewer :=
  ⟨fun m hm m' hm' heq => h.free (hmem m hm) (hmem m' hm') heq, fun m hm => h.ne_zero m (hmem m hm)⟩

/-- Values with the same digest, as far as the codec keeps them apart. -/
theorem HashSound.eq_of_digest {α : Type} {messages : List Bytes} (h : HashSound messages)
    {c : Codec α} {a b : α} (hfit : c.Fits a) (hfit' : c.Fits b) (hcomplete : c.Complete a)
    (hcomplete' : c.Complete b) (ha : canonicalBytes c a ∈ messages)
    (hb : canonicalBytes c b ∈ messages)
    (heq : Crypto.blake3 (canonicalBytes c a) = Crypto.blake3 (canonicalBytes c b)) : a = b :=
  c.enc_inj hfit hfit' hcomplete hcomplete' (h.free ha hb heq)

theorem HashSound.append_self {messages : List Bytes} (h : HashSound messages) :
    HashSound (messages ++ messages) :=
  h.subset (by simp)

theorem payloadTag_eq (payload : OperationPayload) :
    payloadTag payload = ((payloadMessage payload).map Crypto.blake3).getD zeroHash := by
  cases payload <;> rfl

theorem payloadMessage_of_payloadTag {p q : OperationPayload} {messages : List Bytes}
    (hsound : HashSound messages) (hp : ∀ m ∈ payloadMessage p, m ∈ messages)
    (hq : ∀ m ∈ payloadMessage q, m ∈ messages) (h : payloadTag p = payloadTag q) :
    payloadMessage p = payloadMessage q := by
  rw [payloadTag_eq, payloadTag_eq] at h
  rcases hpm : payloadMessage p with _ | m <;> rcases hqm : payloadMessage q with _ | m'
  · rfl
  · rw [hpm, hqm] at h
    exact absurd h.symm (hsound.ne_zero m' (hq m' hqm))
  · rw [hpm, hqm] at h
    exact absurd h (hsound.ne_zero m (hp m hpm))
  · rw [hpm, hqm] at h
    exact congrArg some (hsound.free (hp m hpm) (hq m' hqm) h)

/-- The tuple itself is recovered from its bytes. -/
theorem signedTuple_inj {t t' : SymbolicTransition} (ht : t.intent.target.length < 2 ^ 64)
    (ht' : t'.intent.target.length < 2 ^ 64) (h : canonicalTxBytes t' = canonicalTxBytes t) :
    t'.actor.agentId = t.actor.agentId ∧ t'.intent.kind = t.intent.kind
      ∧ t'.intent.target = t.intent.target ∧ t'.nonce = t.nonce
      ∧ payloadTag t'.payload = payloadTag t.payload
      ∧ Crypto.blake3 (canonicalBytes Constraint.codec.list t'.preconditions)
        = Crypto.blake3 (canonicalBytes Constraint.codec.list t.preconditions)
      ∧ Crypto.blake3 (canonicalBytes Constraint.codec.list t'.postconditions)
        = Crypto.blake3 (canonicalBytes Constraint.codec.list t.postconditions)
      ∧ Crypto.blake3 (canonicalBytes WHBindingIntent.codec t'.whBindingIntent)
        = Crypto.blake3 (canonicalBytes WHBindingIntent.codec t.whBindingIntent)
      ∧ Crypto.blake3 (canonicalBytes (Codec.bytes 32).list t'.causalChain)
        = Crypto.blake3 (canonicalBytes (Codec.bytes 32).list t.causalChain) := by
  have htuple := signedTupleCodec.enc_inj (by simpa [signedTupleCodec] using ht')
    (by simpa [signedTupleCodec] using ht) (by simp [signedTupleCodec])
    (by simp [signedTupleCodec]) h
  simp only [Prod.mk.injEq] at htuple
  obtain ⟨hagent, hkind, htarget, hnonce, hpayload, hpre, hpost, hwh, hcausal⟩ := htuple
  refine ⟨hagent, ?_, htarget, hnonce, hpayload, hpre, hpost, hwh, hcausal⟩
  refine TransitionKind.index_injective ?_
  have hindex := congrArg UInt8.toNat hkind
  have hsmall : ∀ k : TransitionKind, (UInt8.ofNat k.index).toNat = k.index := by
    intro k
    cases k <;> rfl
  rwa [hsmall, hsmall] at hindex

/-- The checks that every transition of a block passes, one by one. -/
def PassesPhases (t : SymbolicTransition) (state : ManagedWorldState) : Prop :=
  ∀ phase, isPerTxPhase phase = true → (phiCheckSingleTx phase t state).passed = true

omit [Crypto] in
theorem PassesPhases.target_lt {t : SymbolicTransition} {state : ManagedWorldState}
    (h : PassesPhases t state) : t.intent.target.length < 2 ^ 64 :=
  calc t.intent.target.length ≤ state.consensusParams.maxSymbolAddressLen.toNat :=
        (form_passed_iff.mp (h .form rfl)).2
    _ < 2 ^ 32 := state.consensusParams.maxSymbolAddressLen.toNat_lt
    _ < 2 ^ 64 := by decide

/-- Everything but the level is bound. -/
theorem sameBody_of_signed {state : ManagedWorldState} {t t' : SymbolicTransition}
    (h : PassesPhases t state) (h' : PassesPhases t' state)
    (hfit : SymbolicTransition.codec.Fits t) (hfit' : SymbolicTransition.codec.Fits t')
    (hsound : HashSound (hashedMessages t ++ hashedMessages t')) (hid : t'.txId = t.txId)
    (hbytes : canonicalTxBytes t' = canonicalTxBytes t) : SameBody t t' := by
  obtain ⟨hagent, hkind, htarget, hnonce, htag, _, _, hdigest, _⟩ :=
    signedTuple_inj h.target_lt h'.target_lt hbytes
  have hwh : t'.whBindingIntent = t.whBindingIntent :=
    hsound.eq_of_digest (SymbolicTransition.fits_binding hfit')
      (SymbolicTransition.fits_binding hfit) (by simp) (by simp)
      (List.mem_append_right _ (binding_mem_hashedMessages t'))
      (List.mem_append_left _ (binding_mem_hashedMessages t)) hdigest
  have hmessage : payloadMessage t'.payload = payloadMessage t.payload :=
    payloadMessage_of_payloadTag hsound
      (fun m hm => List.mem_append_right _ (payload_mem_hashedMessages hm))
      (fun m hm => List.mem_append_left _ (payload_mem_hashedMessages hm)) htag
  have hcarries := carries_of_consistent (execution_passed_iff.mp (h .execution rfl)).1
  have hcarries' := carries_of_consistent (execution_passed_iff.mp (h' .execution rfl)).1
  have hhow := (checkTransitionWh_eq_ok_iff.mp (bound_of_distinction (h .distinction rfl))).how
  have hhow' := (checkTransitionWh_eq_ok_iff.mp (bound_of_distinction (h' .distinction rfl))).how
  rw [hkind] at hcarries'
  rw [hwh] at hhow'
  exact ⟨hid, hkind, htarget, payloadMessage_inj hcarries' hcarries hhow' hhow
    (SymbolicTransition.fits_payload hfit') (SymbolicTransition.fits_payload hfit) hmessage, hnonce, hagent, hwh⟩

/-! ## Effects -/

/-- The two leave the same behind wherever they stand in a block. -/
structure SameEffect (t t' : SymbolicTransition) : Prop where
  payload : t'.payload = t.payload
  target : t'.intent.target = t.intent.target
  nonce : t'.nonce = t.nonce
  agentId : t'.actor.agentId = t.actor.agentId
  governanceLevel : t'.actor.governanceLevel = t.actor.governanceLevel
  applied : ∀ (state : ManagedWorldState) (balances : BalanceLedger)
    (before after : List SymbolicTransition),
    applyBlockTransitions state balances (before ++ t' :: after)
      = applyBlockTransitions state balances (before ++ t :: after)
  replayed : ∀ (changeValidators : ValidatorChange) (ceilings : Option ConstitutionalCeilings)
    (height : UInt64) (ctx : GovernanceContext) (before after : List SymbolicTransition),
    replayGovernanceFromTransitions changeValidators ceilings (before ++ t' :: after) height ctx
      = replayGovernanceFromTransitions changeValidators ceilings (before ++ t :: after) height ctx

omit [Crypto] in
theorem SameBody.applyTransition {t t' : SymbolicTransition} (h : SameBody t t')
    (run : TransitionRun) : applyTransition run t' = applyTransition run t := by
  simp only [Sccgub.applyTransition, h.txId, h.payload]

theorem SameBody.replayTransition {t t' : SymbolicTransition} (h : SameBody t t')
    (hlevel : t'.actor.governanceLevel = t.actor.governanceLevel) (height : UInt64)
    (proposals : ProposalRegistry) :
    replayTransition height proposals t' = replayTransition height proposals t := by
  simp only [Sccgub.replayTransition, submitOrKeep, h.payload, h.kind, h.agentId, hlevel]

theorem SameBody.sameEffect {t t' : SymbolicTransition} (h : SameBody t t')
    (hlevel : t'.actor.governanceLevel = t.actor.governanceLevel) : SameEffect t t' where
  payload := h.payload
  target := h.target
  nonce := h.nonce
  agentId := h.agentId
  governanceLevel := hlevel
  applied state balances before after := by
    simp only [applyBlockTransitions, List.foldl_append, List.foldl_cons, h.applyTransition]
  replayed changeValidators ceilings height ctx before after := by
    simp only [replayGovernanceFromTransitions, List.foldl_append, List.foldl_cons,
      h.replayTransition hlevel]

/-! ## Another level -/

omit [Crypto] in
/-- Meaning is the highest level any check of a transition asks for. -/
theorem evaluateGovernanceValue_of_le {tx : SymbolicTransition}
    (h : tx.actor.governanceLevel.asU8 ≤ PrecedenceLevel.meaning.asU8) :
    evaluateGovernanceValue tx = true := by
  have htop : tx.actor.governanceLevel.asU8 ≤ PrecedenceLevel.optimization.asU8 :=
    UInt8.le_trans h (by decide)
  unfold evaluateGovernanceValue
  split <;> exact decide_eq_true (by assumption)

omit [Crypto] in
theorem organization_passed_of_le {tx : SymbolicTransition} {state : ManagedWorldState}
    (h : tx.actor.governanceLevel.asU8 ≤ PrecedenceLevel.meaning.asU8) :
    (phiCheckSingleTx .organization tx state).passed = true := by
  show (phaseOrganization tx).passed = true
  unfold phaseOrganization
  rw [show decide (tx.actor.governanceLevel.asU8 > PrecedenceLevel.meaning.asU8) = false from
    decide_eq_false (UInt8.not_lt.mpr h), Bool.and_false]
  rfl

omit [Crypto] in
/-- The walk over the constraints does not look at the actor. -/
theorem scceValidate_valid_of_level {t t' : SymbolicTransition} {state : ManagedWorldState}
    {maxDepth : UInt32} {maxSteps : UInt64} (hkind : t'.intent.kind = t.intent.kind)
    (htarget : t'.intent.target = t.intent.target) (hvalue : evaluateGovernanceValue t' = true)
    (h : (scceValidate t state maxDepth maxSteps).valid = true) :
    (scceValidate t' state maxDepth maxSteps).valid = true := by
  unfold scceValidate at h ⊢
  rw [hkind, htarget, hvalue]
  dsimp only at h ⊢
  split at h
  · cases h
  · rename_i hsteps
    split at h
    · cases h
    · rename_i hconsistent
      split at h
      · cases h
      · rename_i hgrounded
        rw [if_neg hsteps, if_neg hconsistent, if_neg hgrounded]
        rfl

/-- The transition with another governance level for its actor. -/
def relevel (t : SymbolicTransition) (level : PrecedenceLevel) : SymbolicTransition :=
  { t with actor.governanceLevel := level }

omit [Crypto] in
theorem fits_relevel {t : SymbolicTransition} (h : SymbolicTransition.codec.Fits t)
    (level : PrecedenceLevel) : SymbolicTransition.codec.Fits (relevel t level) := by
  obtain ⟨hid, ⟨hagent, hkey, hseal, hblock, _, hrest⟩, hbody⟩ := h
  exact ⟨hid, ⟨hagent, hkey, hseal, hblock, PrecedenceLevel.codec_fits level, hrest⟩, hbody⟩

omit [Crypto] in
theorem fits_resign {t : SymbolicTransition} (h : SymbolicTransition.codec.Fits t)
    {f : SymbolicTransition → Bytes} (hlen : (f t).length < 2 ^ 64) :
    SymbolicTransition.codec.Fits (resign f t) := by
  obtain ⟨hid, hactor, hintent, hpre, hpost, hpayload, hcausal, hbinding, hnonce, _⟩ := h
  exact ⟨hid, hactor, hintent, hpre, hpost, hpayload, hcausal, hbinding, hnonce,
    (Codec.blob_fits _).mpr hlen⟩

omit [Crypto] in
theorem fits_plainTransition {agentId publicKey : Hash} {kind : TransitionKind} {target : Bytes}
    {payload : OperationPayload} {signature : Bytes} (htarget : target.length < 2 ^ 64)
    (hpayload : OperationPayload.codec.Fits payload) (hsignature : signature.length < 2 ^ 64) :
    SymbolicTransition.codec.Fits
      (plainTransition (plainActor agentId publicKey) kind target payload signature) := by
  have hkind : kind.index < 4294967296 := by cases kind <;> decide
  simp only [SymbolicTransition.codec, AgentIdentity.codec, TransitionIntent.codec,
    TransitionKind.codec, WHBindingIntent.codec, CausalTimestamp.codec, CausalJustification.codec,
    TransitionMechanism.codec, ResponsibilityState.codec, hashSetCodec, plainTransition, plainActor]
  simp [Variants.cons, hkind, hpayload]
  refine ⟨⟨⟨by decide, fun a ha => absurd ha List.not_mem_nil⟩, by decide,
    fun a ha => absurd ha List.not_mem_nil⟩, ⟨htarget, by decide⟩, ⟨by decide, htarget, by decide⟩,
    hsignature⟩

omit [Crypto] in
theorem phases_relevel {t : SymbolicTransition} {state : ManagedWorldState}
    {level : PrecedenceLevel} (hlevel : level.asU8 ≤ PrecedenceLevel.safety.asU8)
    (hbound : checkTransitionWh (relevel t level) = .ok ())
    (h : ∀ phase, isPerTxPhase phase = true → (phiCheckSingleTx phase t state).passed = true)
    (phase : PhiPhase) (hphase : isPerTxPhase phase = true) :
    (phiCheckSingleTx phase (relevel t level) state).passed = true := by
  have hmeaning : (relevel t level).actor.governanceLevel.asU8 ≤ PrecedenceLevel.meaning.asU8 :=
    UInt8.le_trans hlevel (by decide)
  cases phase with
  | distinction => simp only [phiCheckSingleTx, hbound]
  | constraint =>
      have hvalid : (scceValidate t state state.consensusParams.maxConstraintPropagationDepth
          state.consensusParams.maxConstraintPropagationSteps).valid = true := h .constraint rfl
      exact scceValidate_valid_of_level (t := t) rfl rfl (evaluateGovernanceValue_of_le hmeaning) hvalid
  | organization => exact organization_passed_of_le hmeaning
  | _ => exact h _ hphase

theorem TransitionValid.relevel {t : SymbolicTransition} {state : ManagedWorldState}
    {level : PrecedenceLevel} (h : TransitionValid t state)
    (hlevel : level.asU8 ≤ PrecedenceLevel.safety.asU8)
    (hprecedence : level.asU8 ≤ t.whBindingIntent.why.precedenceLevel.asU8) :
    TransitionValid (relevel t level) state := by
  have hwh := checkTransitionWh_eq_ok_iff.mp h.bound
  have hbound : checkTransitionWh (Sccgub.relevel t level) = .ok () :=
    checkTransitionWh_eq_ok_iff.mpr
      ⟨hwh.complete, hwh.who, hwh.target, hprecedence, hwh.depth, hwh.how, hwh.which⟩
  exact ⟨hbound, h.norm, h.signed, h.agentId, h.nonce_ne_zero, h.nonce, h.target, h.source, h.size,
    phases_relevel hlevel hbound h.phases⟩

omit [Crypto] in
/-- Below the highest precedence there is another level to give. -/
theorem exists_other_level {precedence : PrecedenceLevel} (h : precedence ≠ .genesis)
    (level : PrecedenceLevel) :
    ∃ other, other ≠ level ∧ other.asU8 ≤ PrecedenceLevel.safety.asU8
      ∧ other.asU8 ≤ precedence.asU8 := by
  by_cases hlevel : level = .genesis
  · refine ⟨.safety, by simp [hlevel], by decide, ?_⟩
    cases precedence with
    | genesis => exact absurd rfl h
    | _ => decide
  · exact ⟨.genesis, fun heq => hlevel heq.symm, by decide, by cases precedence <;> decide⟩

/-- A signed transition fixes its effect exactly when its binding claims the
genesis precedence. -/
theorem sameEffect_of_signed_iff {state : ManagedWorldState} {t : SymbolicTransition}
    (hvalid : validateTransition t state = .ok ()) (hfit : SymbolicTransition.codec.Fits t)
    (hsound : HashSound (hashedMessages t)) :
    (∀ t', t'.txId = t.txId → t'.signature = t.signature →
        canonicalTxBytes t' = canonicalTxBytes t → validateTransition t' state = .ok () →
        SymbolicTransition.codec.Fits t' → HashSound (hashedMessages t ++ hashedMessages t') →
        SameEffect t t')
      ↔ t.whBindingIntent.why.precedenceLevel = .genesis := by
  have ht := validateTransition_eq_ok_iff.mp hvalid
  constructor
  · intro h
    by_contra hprecedence
    obtain ⟨other, hother, hsafety, hbelow⟩ :=
      exists_other_level hprecedence t.actor.governanceLevel
    have hrelevel := validateTransition_eq_ok_iff.mpr (ht.relevel hsafety hbelow)
    have hsound' : HashSound (hashedMessages t ++ hashedMessages (relevel t other)) :=
      hsound.append_self
    exact hother
      (h (relevel t other) rfl rfl rfl hrelevel (fits_relevel hfit other) hsound').governanceLevel
  · intro hprecedence t' hid _ hbytes hvalid' hfit' hsound'
    have ht' := validateTransition_eq_ok_iff.mp hvalid'
    have hsame := sameBody_of_signed ht.phases ht'.phases hfit hfit' hsound' hid hbytes
    refine hsame.sameEffect ?_
    have hlevel := (checkTransitionWh_eq_ok_iff.mp ht.bound).level
    have hlevel' := (checkTransitionWh_eq_ok_iff.mp ht'.bound).level
    rw [hsame.whBindingIntent, hprecedence] at hlevel'
    rw [hprecedence] at hlevel
    exact PrecedenceLevel.asU8_injective
      (UInt8.le_antisymm (UInt8.le_trans hlevel' UInt8.zero_le)
        (UInt8.le_trans hlevel UInt8.zero_le))

end

/-! ## A vote under another level -/

def votingAgent : AgentId := @expectedAgentId polyCrypto (Hash.ofByte 3) ⟨1, 1⟩

/-- An agent of the safety level has proposed to change a parameter. -/
def openProposal : Hash × ProposalRegistry :=
  match @ProposalRegistry.submit polyCrypto {} (Hash.ofByte 5) .safety
      (.modifyParameter "finality.confirmation_depth" "3") 0 5 with
  | .ok submitted => submitted
  | .error _ => (zeroHash, {})

/-- A vote on it by an agent of the meaning level, which may not. -/
def ballot : SymbolicTransition :=
  let key := utf8 "norms/governance/proposals/1"
  let actor := { plainActor votingAgent (Hash.ofByte 3) with governanceLevel := .meaning }
  let tx := plainTransition actor .governanceUpdate key
    (.write key openProposal.1.toList) []
  { tx with
    signature := (Hash.ofByte 3).toList
      ++ (polyCrypto.polyDigest (@canonicalTxBytes polyCrypto tx)).toList }

def ballotContext : GovernanceContext where
  proposals := openProposal.2
  governanceState := default
  governanceLimits := {}
  finalityConfig := {}
  validatorSet := []
  consensusParams := {}

/-- Votes in favour after a block with one transition. -/
def votesAfter (tx : SymbolicTransition) : List UInt32 :=
  ((@replayGovernanceFromTransitions polyCrypto applyValidatorChange none [tx] 1
    ballotContext).proposals.proposals).map (·.votesFor)

theorem ballot_hashSound : @HashSound polyCrypto (hashedMessages ballot) := by
  have hfree : ∀ m ∈ hashedMessages ballot, ∀ m' ∈ hashedMessages ballot,
      polyCrypto.polyDigest m = polyCrypto.polyDigest m' → m = m' := by
    decide +kernel
  have hzero : ∀ m ∈ hashedMessages ballot, polyCrypto.polyDigest m ≠ zeroHash := by
    decide +kernel
  exact @HashSound.mk polyCrypto _ (fun m hm m' hm' h => hfree m hm m' hm' h) hzero

/-- Same signature, same signed bytes, both valid, and only one of them counts. -/
theorem ballot_releveled :
    (relevel ballot .genesis).txId = ballot.txId
      ∧ (relevel ballot .genesis).signature = ballot.signature
      ∧ @canonicalTxBytes polyCrypto (relevel ballot .genesis) = @canonicalTxBytes polyCrypto ballot
      ∧ @HashSound polyCrypto (hashedMessages ballot ++ hashedMessages (relevel ballot .genesis))
      ∧ @validateTransition polyCrypto ballot {} = .ok ()
      ∧ @validateTransition polyCrypto (relevel ballot .genesis) {} = .ok ()
      ∧ (relevel ballot .genesis).actor.governanceLevel ≠ ballot.actor.governanceLevel
      ∧ votesAfter ballot = [0] ∧ votesAfter (relevel ballot .genesis) = [1] := by
  refine ⟨rfl, rfl, rfl, @HashSound.append_self polyCrypto _ ballot_hashSound, ?_, ?_, ?_, ?_, ?_⟩
    <;> decide +kernel

theorem sameEffect_of_signed_iff_ballot :
    ¬ ∀ t', t'.txId = ballot.txId → t'.signature = ballot.signature →
        @canonicalTxBytes polyCrypto t' = @canonicalTxBytes polyCrypto ballot →
        @validateTransition polyCrypto t' {} = .ok () →
        SymbolicTransition.codec.Fits t' →
        @HashSound polyCrypto (hashedMessages ballot ++ hashedMessages t') →
        @SameEffect polyCrypto ballot t' := by
  have hpayload : OperationPayload.codec.Fits ballot.payload := by
    simp only [OperationPayload.codec, ballot, plainTransition]
    simp [Variants.cons]
    decide +kernel
  have hfit : SymbolicTransition.codec.Fits ballot :=
    fits_resign (f := fun _ => ballot.signature) (fits_relevel (@fits_plainTransition _ _ _ _ _ []
      (by decide +kernel) hpayload (by decide)) .meaning) (by decide +kernel)
  rw [@sameEffect_of_signed_iff polyCrypto {} ballot (by decide +kernel) hfit ballot_hashSound]
  decide

end Sccgub
