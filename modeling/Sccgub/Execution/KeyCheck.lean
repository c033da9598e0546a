import Mathlib
import Sccgub.Execution.Authorization

/-!
# Keys around a rotation

Three checks look at the key of a transition: the agent id is the hash of key
and seal, the key is the one active for the agent, and the signature is made
with it.  The first ties an agent to one key for good; the second asks for the
key of the latest rotation.  After a rotation they cannot be met together.

Within a block the second check runs at the height of the state the block is
applied to and not at the height of the block.
-/

namespace Sccgub

open Bincode

/-- What an agent id is the hash of. -/
def identityBytes (publicKey : Hash) (mfidelSeal : MfidelAtomicSeal) : Bytes :=
  concatParts [publicKey.toList, canonicalBytes MfidelAtomicSeal.codec mfidelSeal]

theorem identityBytes_inj {k k' : Hash} {mfidelSeal : MfidelAtomicSeal}
    (h : identityBytes k mfidelSeal = identityBytes k' mfidelSeal) : k = k' := by
  have hsmall : ∀ k : Hash, ∀ p ∈ [k.toList, canonicalBytes MfidelAtomicSeal.codec mfidelSeal],
      p.length < 2 ^ 64 := by
    intro k p hp
    rcases List.mem_cons.mp hp with rfl | hp
    · rw [List.Vector.toList_length]
      decide
    · rw [List.mem_singleton.mp hp]
      have hlen : (canonicalBytes MfidelAtomicSeal.codec mfidelSeal).length = 2 :=
        MfidelAtomicSeal.codec_complete mfidelSeal
      omega
  have hparts := concatParts_inj (hsmall k) (hsmall k') h
  exact Hash.toList_injective (List.cons.inj hparts).1

section

variable [Crypto]

/-- Agent id, active key, and signature. -/
structure IdentityChecks (tx : SymbolicTransition) (state : ManagedWorldState) (height : UInt64) :
    Prop where
  agentId : tx.actor.agentId = expectedAgentId tx.actor.publicKey tx.actor.mfidelSeal
  activeKey : checkTxSupersededKey tx state height = .ok
  signed : verifyStrict tx.actor.publicKey (canonicalTxBytes tx) tx.signature = true

/-- An agent id belongs to one key only. -/
theorem expectedAgentId_inj {k k' : Hash} {mfidelSeal : MfidelAtomicSeal}
    (hfree : CollisionFree {identityBytes k mfidelSeal, identityBytes k' mfidelSeal})
    (h : expectedAgentId k mfidelSeal = expectedAgentId k' mfidelSeal) : k = k' :=
  identityBytes_inj (hfree (by simp) (by simp) h)

/-- A transition under the active key passes exactly when that key is still the
one the agent id was made from. -/
theorem identityChecks_iff {state : ManagedWorldState} {registered active : Hash}
    {mfidelSeal : MfidelAtomicSeal} {height : UInt64} {tx : SymbolicTransition}
    (hfree : CollisionFree {identityBytes registered mfidelSeal, identityBytes active mfidelSeal})
    (hagent : tx.actor.agentId = expectedAgentId registered mfidelSeal)
    (hseal : tx.actor.mfidelSeal = mfidelSeal) (hkey : tx.actor.publicKey = active)
    (hactive : activePublicKey state tx.actor.agentId height = .ok (some active))
    (hsigned : verifyStrict active (canonicalTxBytes tx) tx.signature = true) :
    IdentityChecks tx state height ↔ active = registered := by
  constructor
  · intro h
    have hid := h.agentId
    rw [hagent, hkey, hseal] at hid
    exact (expectedAgentId_inj hfree hid).symm
  · intro heq
    refine ⟨?_, ?_, ?_⟩
    · rw [hagent, hkey, hseal, heq]
    · rw [checkTxSupersededKey_eq_ok_iff, hkey]
      exact Or.inr hactive
    · rw [hkey]
      exact hsigned

/-- In an accepted block, the key of an indexed agent is the one of the block's
height as far as that is the one of the state's height. -/
theorem activeKey_iff_of_accepted {block : Block} {state : ManagedWorldState} {parentId : Hash}
    (h : validateCpog block state parentId = .valid) {tx : SymbolicTransition}
    (htx : tx ∈ block.body.transitions) {active : Hash}
    (hactive : activePublicKey state tx.actor.agentId block.header.height = .ok (some active)) :
    tx.actor.publicKey = active ↔
      activePublicKey state tx.actor.agentId state.height
          = activePublicKey state tx.actor.agentId block.header.height
        ∨ activePublicKey state tx.actor.agentId state.height = .ok none
          ∧ tx.actor.publicKey = active := by
  have hexec := (validateCpog_eq_valid_iff.mp h).perTx htx (show isPerTxPhase .execution = true from rfl)
  rcases checkTxSupersededKey_eq_ok_iff.mp (key_of_execution hexec) with hnone | hsome
  · rw [hactive, hnone]
    simp
  · rw [hactive, hsome]
    simp

/-- Both halves: one transition at any height, and the transitions of an
accepted block at the block's height. -/
theorem rotatedKey_usable_iff :
    (∀ (state : ManagedWorldState) (agentId registered active : Hash)
        (mfidelSeal : MfidelAtomicSeal) (height : UInt64) (tx : SymbolicTransition),
      CollisionFree {identityBytes registered mfidelSeal, identityBytes active mfidelSeal} →
      agentId = expectedAgentId registered mfidelSeal →
      activePublicKey state agentId height = .ok (some active) →
      tx.actor.agentId = agentId → tx.actor.mfidelSeal = mfidelSeal →
      tx.actor.publicKey = active →
      verifyStrict active (canonicalTxBytes tx) tx.signature = true →
      (IdentityChecks tx state height ↔ active = registered))
    ∧ ∀ (block : Block) (state : ManagedWorldState) (parentId : Hash),
      validateCpog block state parentId = .valid →
      ∀ tx ∈ block.body.transitions, ∀ active,
        activePublicKey state tx.actor.agentId block.header.height = .ok (some active) →
        (tx.actor.publicKey = active ↔
          activePublicKey state tx.actor.agentId state.height
              = activePublicKey state tx.actor.agentId block.header.height
            ∨ activePublicKey state tx.actor.agentId state.height = .ok none
              ∧ tx.actor.publicKey = active) := by
  constructor
  · intro state agentId registered active mfidelSeal height tx hfree hid hactive hagent hseal hkey
      hsigned
    exact identityChecks_iff hfree (hagent.trans hid) hseal hkey (hagent ▸ hactive) hsigned
  · intro block state parentId h tx htx active hactive
    exact activeKey_iff_of_accepted h htx hactive

end

/-! ## An agent that rotates -/

def firstKey : Hash := Hash.ofByte 3

def secondKey : Hash := Hash.ofByte 4

def rotatingAgent : AgentId := @expectedAgentId polyCrypto firstKey ⟨1, 1⟩

def rotationBytes : Bytes :=
  KeyRotation.canonicalRotationBytes rotatingAgent firstKey secondKey 5

def rotation : KeyRotation where
  agentId := rotatingAgent
  oldPublicKey := firstKey
  newPublicKey := secondKey
  rotationHeight := 5
  signatureByOldKey := polySign firstKey rotationBytes
  signatureByNewKey := polySign secondKey rotationBytes

/-- The agent registers its first key and rotates to the second at height 5. -/
def rotatedState : Except KeyRotationStateError ManagedWorldState := do
  let registered ← registerOriginalKey {} rotatingAgent firstKey 0
  @applyKeyRotation polyCrypto registered rotation

/-- A transition of the agent, signed with the key it is to use. -/
def signedWith (key : Hash) : SymbolicTransition :=
  let tx := plainTransition (plainActor rotatingAgent key) .stateWrite (utf8 "data/a") .noop []
  { tx with signature := polySign key (@canonicalTxBytes polyCrypto tx) }

theorem rotatedState_activeKey :
    (match rotatedState with
      | .ok state => activePublicKey state rotatingAgent 5
      | .error _ => .ok none) = .ok (some secondKey) := by
  decide +kernel

/-- From the rotation on, the key the agent has to use is one it cannot use. -/
theorem rotated_agent_locked_out :
    ∃ state, rotatedState = .ok state
      ∧ rotatingAgent = @expectedAgentId polyCrypto firstKey ⟨1, 1⟩
      ∧ activePublicKey state rotatingAgent 5 = .ok (some secondKey)
      ∧ (signedWith secondKey).actor.agentId = rotatingAgent
      ∧ (signedWith secondKey).actor.publicKey = secondKey
      ∧ @verifyStrict polyCrypto secondKey (@canonicalTxBytes polyCrypto (signedWith secondKey))
          (signedWith secondKey).signature = true
      ∧ ¬ @IdentityChecks polyCrypto (signedWith secondKey) state 5 := by
  have hactive := rotatedState_activeKey
  rcases hs : rotatedState with e | state
  · rw [hs] at hactive
    cases hactive
  · rw [hs] at hactive
    refine ⟨state, rfl, rfl, hactive, by decide +kernel, by decide +kernel, by decide +kernel,
      fun h => ?_⟩
    have hid := @IdentityChecks.agentId polyCrypto _ _ _ h
    revert hid
    decide +kernel

/-- The active keys about the rotation, and the block that the gate takes at its height. -/
theorem rotatedState_firstKey :
    (match rotatedState with
      | .ok state => decide (activePublicKey state rotatingAgent 4 = .ok (some firstKey)
          ∧ activePublicKey state rotatingAgent 5 = .ok (some secondKey)
          ∧ @validateCpog polyCrypto (@replayedBlock polyCrypto 5 zeroHash [signedWith firstKey] state)
              state zeroHash = .valid)
      | .error _ => false) = true := by
  decide +kernel

/-- Up to the rotation the first key is good, and at its height the gate still
takes it. -/
theorem rotatedKey_usable_iff_rotatedState :
    ∃ state, rotatedState = .ok state
      ∧ @IdentityChecks polyCrypto (signedWith firstKey) state 4
      ∧ ¬ (activePublicKey state rotatingAgent state.height
          = activePublicKey state rotatingAgent 5
        ∨ activePublicKey state rotatingAgent state.height = .ok none
          ∧ firstKey = secondKey) := by
  have hfacts := rotatedState_firstKey
  rcases hs : rotatedState with e | state
  · rw [hs] at hfacts
    cases hfacts
  · rw [hs] at hfacts
    obtain ⟨hfour, hfive, haccepted⟩ := of_decide_eq_true hfacts
    have hfree : @CollisionFree polyCrypto
        {identityBytes firstKey ⟨1, 1⟩, identityBytes firstKey ⟨1, 1⟩} := by
      rintro a (rfl | rfl) b (rfl | rfl) _ <;> rfl
    refine ⟨state, rfl, ?_, ?_⟩
    · refine ((@rotatedKey_usable_iff polyCrypto).1 state rotatingAgent firstKey firstKey ⟨1, 1⟩ 4
        (signedWith firstKey) hfree rfl hfour rfl rfl rfl ?_).mpr rfl
      decide +kernel
    · have htx : signedWith firstKey ∈
          (@replayedBlock polyCrypto 5 zeroHash [signedWith firstKey] state).body.transitions := by
        unfold replayedBlock
        split <;> exact List.mem_singleton_self _
      have hheight : (@replayedBlock polyCrypto 5 zeroHash [signedWith firstKey] state).header.height
          = 5 := by
        unfold replayedBlock
        split <;> rfl
      have hiff := (@rotatedKey_usable_iff polyCrypto).2 _ state zeroHash haccepted _ htx secondKey
        (by rw [hheight]; exact hfive)
      rw [hheight] at hiff
      exact fun h => absurd (hiff.mpr h) (by decide +kernel)

end Sccgub
