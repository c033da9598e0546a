import Mathlib
import Sccgub.Execution.Cpog
import Sccgub.Execution.Validate

/-!
# Producer and validator on the same transition

Transitions are checked twice, by different code.  A producer runs
`validateTransition` on each of them before it builds a block; everybody else
runs `validateCpog` on the block.  This module compares the two.

A block that passes the gate has transitions that would pass the producer's
checks, up to a short list that the gate leaves out: signature, agent id, the
source of a transfer, the invoked norm, and the size of a write
(`validateTransition_iff_of_cpogValid`).  The first three decide who may do
what.  The gate only asks how long a signature is, so with a byte more on every
signature an accepted block is accepted still, and none of its transitions is
authorised (`accepted_unauthorised`).
-/

namespace Sccgub

open Bincode

/-! ## Frames -/

/-- A nonce that the state accepts is the one it expects. -/
theorem expectedNonce_of_checkNonce {state state' : ManagedWorldState} {agentId : AgentId}
    {nonce : BitVec 128} (h : state.checkNonce agentId nonce = .ok state') :
    nonce ≠ 0 ∧ expectedNonce state agentId = some nonce := by
  unfold ManagedWorldState.checkNonce at h
  unfold expectedNonce
  split at h
  · cases h
  · rename_i hzero
    dsimp only at h ⊢
    split at h
    · cases h
    · rename_i hmax
      split at h
      · cases h
      · rename_i hseq
        refine ⟨hzero, ?_⟩
        rw [if_neg hmax]
        have hlt := (state.agentNonces[agentId]?.getD 0).isLt
        refine congrArg some (BitVec.eq_of_toNat_eq ?_)
        rw [BitVec.toNat_add, not_not.mp hseq]
        exact Nat.mod_eq_of_lt (show (state.agentNonces[agentId]?.getD 0).toNat + 1 < 2 ^ 128 by omega)

/-- Where a run over a list succeeds, it does so up to every position. -/
theorem validateNonces_at {state final : ManagedWorldState} {before after : List SymbolicTransition}
    {tx : SymbolicTransition}
    (h : state.validateNonces (before ++ tx :: after) = .ok final) :
    ∃ reached next, state.validateNonces before = .ok reached
      ∧ reached.checkNonce tx.actor.agentId tx.nonce = .ok next := by
  unfold ManagedWorldState.validateNonces at h ⊢
  rw [List.foldlM_append] at h
  rcases hb : before.foldlM (fun s tx => s.checkNonce tx.actor.agentId tx.nonce) state
    with e | reached
  · rw [hb] at h
    cases h
  · rw [hb] at h
    simp only [bind, Except.bind, List.foldlM_cons] at h
    rcases hc : reached.checkNonce tx.actor.agentId tx.nonce with e | next
    · rw [hc] at h
      cases h
    · exact ⟨reached, next, hb, hc⟩

/-! ## Phases read back -/

theorem bound_of_distinction {tx : SymbolicTransition} {state : ManagedWorldState}
    (h : (phiCheckSingleTx .distinction tx state).passed = true) :
    checkTransitionWh tx = .ok () := by
  unfold phiCheckSingleTx at h
  rcases hwh : checkTransitionWh tx with e | ⟨⟩
  · rw [hwh] at h
    cases h
  · rfl

theorem form_passed_iff {tx : SymbolicTransition} {state : ManagedWorldState} :
    (phiCheckSingleTx .form tx state).passed = true ↔
      64 ≤ tx.signature.length
        ∧ tx.intent.target.length ≤ state.consensusParams.maxSymbolAddressLen.toNat := by
  unfold phiCheckSingleTx phaseForm
  dsimp only
  by_cases hlen : tx.signature.length < 64
  · rw [if_pos hlen]
    simp [hlen]
  · rw [if_neg hlen]
    by_cases htarget : tx.intent.target.length ≤ state.consensusParams.maxSymbolAddressLen.toNat
    · simp [htarget, not_lt.mp hlen]
    · simp [htarget]

theorem execution_passed_iff {tx : SymbolicTransition} {state : ManagedWorldState} :
    (phiCheckSingleTx .execution tx state).passed = true ↔
      checkPayloadConsistency tx = .consistent ∧ tx.intent.target.isEmpty = false ∧ tx.nonce ≠ 0
        ∧ checkTxSupersededKey tx state state.height = .ok := by
  unfold phiCheckSingleTx phaseExecution
  dsimp only
  rcases checkPayloadConsistency tx with _ | reason
  · by_cases htarget : tx.intent.target.isEmpty = true
    · simp [htarget]
    · by_cases hnonce : tx.nonce = 0
      · rw [if_neg htarget]
        simp [hnonce]
      · rcases checkTxSupersededKey tx state state.height with _ | _ | _ <;> simp_all
  · simp

/-- The key check of the execution phase runs at the height of the state. -/
theorem key_of_execution {tx : SymbolicTransition} {state : ManagedWorldState}
    (h : (phiCheckSingleTx .execution tx state).passed = true) :
    checkTxSupersededKey tx state state.height = .ok :=
  (execution_passed_iff.mp h).2.2.2

/-! ## Authorisation -/

theorem debitsOwnAccount_iff {tx : SymbolicTransition} :
    debitsOwnAccount tx = true ↔
      ∀ source target amount, tx.payload = .assetTransfer source target amount →
        source = tx.actor.agentId ∨ source = tx.actor.publicKey := by
  unfold debitsOwnAccount
  split
  · rename_i source target amount hpayload
    rw [hpayload]
    simp
  · rename_i hne
    simp only [true_iff]
    intro source target amount hpayload
    exact absurd hpayload (hne source target amount)

section

variable [Crypto]

/-- The signature is the actor's over the signed bytes, the agent id belongs to
the key, and a transfer debits the actor or the signer. -/
structure Authorised (tx : SymbolicTransition) : Prop where
  signed : verifyStrict tx.actor.publicKey (canonicalTxBytes tx) tx.signature = true
  agentId : tx.actor.agentId = expectedAgentId tx.actor.publicKey tx.actor.mfidelSeal
  source : ∀ source target amount, tx.payload = .assetTransfer source target amount →
    source = tx.actor.agentId ∨ source = tx.actor.publicKey

theorem CpogValid.validateNonces {block : Block} {state : ManagedWorldState} {parentId : Hash}
    (h : CpogValid block state parentId) (hheight : block.header.height > 0) :
    ∃ final, state.validateNonces block.body.transitions = .ok final := by
  obtain ⟨applied, happlied⟩ := h.replay hheight
  have hreplay := happlied.replay
  unfold replayBlock at hreplay
  rcases hi : replayInputs block state with e | inputs
  · rw [hi] at hreplay
    cases hreplay
  · exact ⟨inputs.state, (replayInputs_eq_ok hi).2.2.1⟩

/-- What the phases of an accepted block say about one of its transitions. -/
theorem CpogValid.perTx {block : Block} {state : ManagedWorldState} {parentId : Hash}
    (h : CpogValid block state parentId) {tx : SymbolicTransition}
    (htx : tx ∈ block.body.transitions) {phase : PhiPhase} (hphase : isPerTxPhase phase = true) :
    (phiCheckSingleTx phase tx state).passed = true := by
  have hp := h.phases phase
  have heq : executeBlockPhase phase block state = perTxPhase phase block state := by
    cases phase <;> first | rfl | cases hphase
  rw [heq] at hp
  exact perTxPhase_passed.mp hp tx htx

theorem authorised_iff {tx : SymbolicTransition} :
    Authorised tx ↔
      verifyStrict tx.actor.publicKey (canonicalTxBytes tx) tx.signature = true
        ∧ tx.actor.agentId = expectedAgentId tx.actor.publicKey tx.actor.mfidelSeal
        ∧ debitsOwnAccount tx = true := by
  rw [debitsOwnAccount_iff]
  exact ⟨fun h => ⟨h.signed, h.agentId, h.source⟩, fun h => ⟨h.1, h.2.1, h.2.2⟩⟩

/-- At every position of an accepted block, validation by the producer comes
down to what the gate leaves out. -/
theorem validateTransition_iff_of_cpogValid {block : Block} {state reached : ManagedWorldState}
    {parentId : Hash} (h : CpogValid block state parentId) (hheight : block.header.height > 0)
    {before after : List SymbolicTransition} {tx : SymbolicTransition}
    (hsplit : block.body.transitions = before ++ tx :: after)
    (hreached : state.validateNonces before = .ok reached) :
    validateTransition tx reached = .ok () ↔
      Authorised tx ∧ invokesActiveNorm tx state = true
        ∧ writeWithin state.consensusParams.maxStateEntrySize.toNat tx.payload = true := by
  have htx : tx ∈ block.body.transitions := by
    rw [hsplit]
    exact List.mem_append_right _ List.mem_cons_self
  have hframe := ManagedWorldState.validateNonces_frame hreached
  have hphases : ∀ phase, isPerTxPhase phase = true →
      (phiCheckSingleTx phase tx reached).passed = true := by
    intro phase hphase
    -- only the nonces have moved, and no phase reads them
    have hsame : phiCheckSingleTx phase tx reached = phiCheckSingleTx phase tx state := by
      rw [hframe]
      exact phiCheckSingleTx_onto phase tx state { state with agentNonces := reached.agentNonces }
    rw [hsame]
    exact h.perTx htx hphase
  rw [validateTransition_eq_ok_iff, authorised_iff]
  constructor
  · intro hv
    have hnorm := hv.norm
    have hsize := hv.size
    rw [hframe] at hnorm hsize
    exact ⟨⟨hv.signed, hv.agentId, hv.source⟩, hnorm, hsize⟩
  · rintro ⟨⟨hsigned, hid, hsource⟩, hnorm, hsize⟩
    obtain ⟨final, hfinal⟩ := h.validateNonces hheight
    rw [hsplit] at hfinal
    obtain ⟨reached', next, hreached', hnext⟩ := validateNonces_at hfinal
    rw [← Except.ok.inj (hreached.symm.trans hreached')] at hnext
    obtain ⟨hzero, hnonce⟩ := expectedNonce_of_checkNonce hnext
    have hbound := bound_of_distinction (hphases .distinction rfl)
    have hform : (phiCheckSingleTx .form tx state).passed = true := h.perTx htx rfl
    have htarget := (form_passed_iff.mp hform).2
    refine ⟨hbound, ?_, hsigned, hid, hzero, hnonce, ?_, hsource, ?_, hphases⟩
    · rw [hframe]
      exact hnorm
    · rw [hframe]
      exact htarget
    · rw [hframe]
      exact hsize

end

/-! ## The gate does not read signatures

Beyond their length, that is: an accepted block stays accepted when its
signatures are exchanged for any others that are long enough. -/

def resign (f : SymbolicTransition → Bytes) (tx : SymbolicTransition) : SymbolicTransition :=
  { tx with signature := f tx }

def Block.resign (block : Block) (f : SymbolicTransition → Bytes) : Block :=
  { block with
    body := { block.body with transitions := block.body.transitions.map (Sccgub.resign f) } }

section

variable (f : SymbolicTransition → Bytes)

theorem validateNonces_resign (state : ManagedWorldState) (transitions : List SymbolicTransition) :
    state.validateNonces (transitions.map (resign f)) = state.validateNonces transitions := by
  unfold ManagedWorldState.validateNonces
  rw [List.foldlM_map]
  rfl

theorem chargeFees_resign (balances : BalanceLedger) (treasury : Treasury)
    (transitions : List SymbolicTransition) (receipts : List CausalReceipt) (version : UInt32)
    (gasPrice : TensionValue) :
    chargeFees balances treasury (transitions.map (resign f)) receipts version gasPrice
      = chargeFees balances treasury transitions receipts version gasPrice := by
  unfold chargeFees
  rw [List.length_map, List.map_map, List.map_map, List.map_map, List.zip_map_left, List.foldlM_map]
  rfl

theorem phaseArchitecture_resign (block : Block) (state : ManagedWorldState) :
    phaseArchitecture (block.resign f) state = phaseArchitecture block state := by
  unfold phaseArchitecture Block.resign
  dsimp only
  rw [List.length_map, List.isEmpty_map]

theorem phaseEvolution_resign (block : Block) :
    phaseEvolution (block.resign f) = phaseEvolution block := by
  have hsource : unknownEdgeSource (block.resign f) = unknownEdgeSource block := by
    unfold unknownEdgeSource Block.resign
    dsimp only
    simp only [List.any_map]
    rfl
  unfold phaseEvolution
  rw [hsource]
  rfl

variable [Crypto]

theorem applyBlock_resign (state : ManagedWorldState) (balances : BalanceLedger)
    (treasury : Treasury) (transitions : List SymbolicTransition) (receipts : List CausalReceipt)
    (version : UInt32) (validator : Hash) (gasPrice : TensionValue) (height : UInt64) :
    applyBlock state balances treasury (transitions.map (resign f)) receipts version validator
        gasPrice height
      = applyBlock state balances treasury transitions receipts version validator gasPrice
        height := by
  unfold applyBlock applyBlockEconomics applyBlockTransitions
  rw [chargeFees_resign]
  simp only [List.foldl_map]
  rfl

theorem replayBlock_resign (block : Block) (state : ManagedWorldState) :
    replayBlock (block.resign f) state = replayBlock block state := by
  unfold replayBlock replayInputs Block.resign
  dsimp only
  simp only [validateNonces_resign, applyBlock_resign]

theorem CpogValid.resign {block : Block} {state : ManagedWorldState} {parentId : Hash}
    (h : CpogValid block state parentId)
    (hlen : ∀ tx ∈ block.body.transitions, 64 ≤ (f tx).length) :
    CpogValid (block.resign f) state parentId := by
  have hheader : headerRows (block.resign f) state parentId = headerRows block state parentId := by
    unfold headerRows Block.resign
    dsimp only
    rw [List.map_map, List.length_map]
    rfl
  have hperTx : ∀ phase, isPerTxPhase phase = true →
      (perTxPhase phase (block.resign f) state).passed = true := by
    intro phase hphase
    rw [perTxPhase_passed]
    intro tx htx
    obtain ⟨original, horiginal, rfl⟩ := List.mem_map.mp htx
    have hpassed := h.perTx horiginal hphase
    cases phase <;> try exact hpassed
    -- form is the one phase that looks at the signature, for its length
    exact form_passed_iff.mpr ⟨hlen original horiginal, (form_passed_iff.mp hpassed).2⟩
  refine ⟨hheader ▸ h.header, fun hheight => ?_, h.capture, fun phase => ?_⟩
  · obtain ⟨applied, happlied⟩ := h.replay hheight
    exact ⟨applied, (replayBlock_resign f block state).trans happlied.replay,
      happlied.tensionBefore, happlied.stateRoot, happlied.balanceRoot⟩
  · cases phase with
    | topology => exact h.phases .topology
    | body => exact h.phases .body
    | architecture =>
        show (phaseArchitecture (block.resign f) state).passed = true
        rw [phaseArchitecture_resign]
        exact h.phases .architecture
    | performance =>
        obtain ⟨hseal, hground⟩ := phasePerformance_passed.mp (h.phases .performance)
        refine phasePerformance_passed.mpr ⟨hseal, fun hversion tx htx => ?_⟩
        obtain ⟨original, horiginal, rfl⟩ := List.mem_map.mp htx
        exact hground hversion original horiginal
    | feedback => exact h.phases .feedback
    | evolution =>
        show (phaseEvolution (block.resign f)).passed = true
        rw [phaseEvolution_resign]
        exact h.phases .evolution
    | _ => exact hperTx _ rfl

/-- So no block that the gate accepts is safe: with a byte more on every
signature it is accepted still, and no transition of it is authorised. -/
theorem accepted_unauthorised {block : Block} {state : ManagedWorldState} {parentId : Hash}
    (h : validateCpog block state parentId = .valid) :
    validateCpog (block.resign fun tx => tx.signature ++ [0]) state parentId = .valid
      ∧ ∀ tx ∈ (block.resign fun tx => tx.signature ++ [0]).body.transitions, ¬ Authorised tx := by
  have hvalid := validateCpog_eq_valid_iff.mp h
  have hlen : ∀ tx ∈ block.body.transitions, 64 ≤ tx.signature.length :=
    fun tx htx => (form_passed_iff.mp (hvalid.perTx htx rfl)).1
  refine ⟨validateCpog_eq_valid_iff.mpr (hvalid.resign _ fun tx htx => ?_), fun tx htx hauth => ?_⟩
  · rw [List.length_append]
    exact Nat.le_add_right_of_le (hlen tx htx)
  · obtain ⟨original, horiginal, rfl⟩ := List.mem_map.mp htx
    have h64 := length_of_verifyStrict hauth.signed
    have hlonger : (original.signature ++ [(0 : UInt8)]).length = 64 := h64
    rw [List.length_append, List.length_singleton] at hlonger
    have := hlen original horiginal
    omega

/-- Over a state the accepted blocks are all authorised exactly if none of them
carries a transition.  What the gate leaves out is authorisation, a norm and the
size of a write: an authorised transition of an accepted block passes the
producer's validation up to the other two. -/
theorem authorised_iff_of_accepted (state : ManagedWorldState) (parentId : Hash) :
    ((∀ block, block.header.height > 0 → validateCpog block state parentId = .valid →
        ∀ tx ∈ block.body.transitions, Authorised tx) ↔
        ∀ block, block.header.height > 0 → validateCpog block state parentId = .valid →
          block.body.transitions = [])
      ∧ ∀ block, block.header.height > 0 → validateCpog block state parentId = .valid →
          ∀ before tx after reached, block.body.transitions = before ++ tx :: after →
            state.validateNonces before = .ok reached →
            (validateTransition tx reached = .ok () ↔
              Authorised tx ∧ invokesActiveNorm tx state = true
                ∧ writeWithin state.consensusParams.maxStateEntrySize.toNat tx.payload = true) := by
  refine ⟨⟨fun hall block hheight h => ?_, fun hnone block hheight h tx htx => ?_⟩,
    fun block hheight h before tx after reached hsplit hreached => ?_⟩
  · -- the block with its signatures spoiled is accepted too
    obtain ⟨haccepted, hunauthorised⟩ := accepted_unauthorised h
    rcases htransitions : block.body.transitions with _ | ⟨tx, rest⟩
    · rfl
    · have hmem : resign (fun tx => tx.signature ++ [0]) tx
          ∈ (block.resign fun tx => tx.signature ++ [0]).body.transitions :=
        List.mem_map_of_mem (htransitions ▸ List.mem_cons_self)
      exact absurd (hall (block.resign _) hheight haccepted _ hmem) (hunauthorised _ hmem)
  · rw [hnone block hheight h] at htx
    exact absurd htx List.not_mem_nil
  · exact validateTransition_iff_of_cpogValid (validateCpog_eq_valid_iff.mp h) hheight hsplit
      hreached

end

/-! ## Somebody else's balance -/

/-- A transition of an agent that holds nothing, with the given body. -/
def plainTransition (actor : AgentIdentity) (kind : TransitionKind) (target : Bytes)
    (payload : OperationPayload) (signature : Bytes) : SymbolicTransition where
  txId := Hash.ofByte 9
  actor
  intent := ⟨kind, target, "transfer"⟩
  preconditions := []
  postconditions := []
  payload
  causalChain := []
  whBindingIntent :=
    { who := actor.agentId
      when := .genesis
      «where» := target
      why := ⟨Hash.ofByte 1, .optimization, [], []⟩
      how := .directStateWrite
      which := ∅
      whatDeclared := "transfer" }
  nonce := 1
  signature

def plainActor (agentId publicKey : Hash) : AgentIdentity where
  agentId
  publicKey
  mfidelSeal := ⟨1, 1⟩
  registrationBlock := 0
  governanceLevel := .optimization
  normSet := ∅
  responsibility := default

/-- An account with a hundred tokens. -/
def fundedState : ManagedWorldState :=
  { trie := StateTrie.new.insert (balanceKey (Hash.ofByte 7))
      (leBytes 16 (TensionValue.fromInteger 100).raw.toBits) }

/-- All of it moved by a stranger, under a signature of zeros. -/
def theft : SymbolicTransition :=
  plainTransition (plainActor (Hash.ofByte 2) (Hash.ofByte 1)) .assetTransfer
    (balanceKey (Hash.ofByte 7))
    (.assetTransfer (Hash.ofByte 7) (Hash.ofByte 2) (TensionValue.fromInteger 100).raw)
    (List.replicate 64 0)

def theftBlock : Block := @replayedBlock polyCrypto 1 zeroHash [theft] fundedState

theorem theft_accepted :
    theftBlock.header.height > 0
      ∧ @validateCpog polyCrypto theftBlock fundedState zeroHash = .valid
      ∧ theftBlock.body.transitions = [theft]
      ∧ ¬ @Authorised polyCrypto theft := by
  refine ⟨by decide +kernel, by decide +kernel, by decide +kernel, fun h => ?_⟩
  have hsource := @Authorised.source polyCrypto theft h (Hash.ofByte 7) (Hash.ofByte 2)
    (TensionValue.fromInteger 100).raw rfl
  revert hsource
  decide +kernel

/-- So over that state the gate does not keep blocks authorised. -/
theorem authorised_iff_of_accepted_theftBlock :
    ¬ ∀ block, block.header.height > 0 →
      @validateCpog polyCrypto block fundedState zeroHash = .valid →
      ∀ tx ∈ block.body.transitions, @Authorised polyCrypto tx := by
  rw [(@authorised_iff_of_accepted polyCrypto fundedState zeroHash).1]
  intro hnone
  have hempty := hnone theftBlock (by decide +kernel) (by decide +kernel)
  revert hempty
  decide +kernel

end Sccgub
