import Mathlib
import Sccgub.State.World
import Sccgub.Types.ValidatorSet

/-!
# Key rotation

An agent keeps its id when its signing key changes.  Two records in the trie
cooperate: the append-only registry of rotations, ordered by agent and height,
and the index of every key ever bound to an agent.

`activePublicKey` resolves the key of an agent at a height: the new key of its
latest rotation up to there, or else the earliest key in the index that is not
superseded.
-/

namespace Sccgub

open Bincode

/-! ## Registry and index -/

structure KeyRotation where
  agentId : AgentId
  oldPublicKey : Ed25519PublicKey
  newPublicKey : Ed25519PublicKey
  rotationHeight : UInt64
  signatureByOldKey : Ed25519Signature
  signatureByNewKey : Ed25519Signature
  deriving DecidableEq, Inhabited

namespace KeyRotation

def codec : Codec KeyRotation :=
  ((Codec.bytes 32).pair <| (Codec.bytes 32).pair <| (Codec.bytes 32).pair <| Codec.u64.pair <|
    Codec.blob.pair Codec.blob).iso
    (fun ⟨a, b, c, d, e, f⟩ => ⟨a, b, c, d, e, f⟩) (fun ⟨a, b, c, d, e, f⟩ => (a, b, c, d, e, f))
    (fun _ => rfl) (fun _ => rfl)

/-- What both keys sign. -/
def canonicalRotationBytes (agentId : AgentId) (oldPublicKey newPublicKey : Ed25519PublicKey)
    (rotationHeight : UInt64) : Bytes :=
  ((Codec.bytes 32).pair <| (Codec.bytes 32).pair <| (Codec.bytes 32).pair Codec.u64).enc
    (agentId, oldPublicKey, newPublicKey, rotationHeight)

def payloadBytes (self : KeyRotation) : Bytes :=
  canonicalRotationBytes self.agentId self.oldPublicKey self.newPublicKey self.rotationHeight

end KeyRotation

inductive KeyRotationError where
  | duplicateAtHeight (agentId : AgentId) (rotationHeight : UInt64)
  | keyAlreadyIndexed (publicKey : Ed25519PublicKey)
  | keyNotIndexed (publicKey : Ed25519PublicKey)
  deriving DecidableEq, Inhabited

structure KeyRotationRegistry where
  rotations : List KeyRotation := []
  deriving DecidableEq, Inhabited

def keyRotationsTrieKey : Bytes := utf8 "system/key_rotations"

namespace KeyRotationRegistry

/-- By agent, then by height. -/
def order (a b : KeyRotation) : Prop :=
  ((compare a.agentId b.agentId).then (compare a.rotationHeight b.rotationHeight)).isLE = true

instance : DecidableRel order := fun a b =>
  inferInstanceAs (Decidable (((compare a.agentId b.agentId).then
    (compare a.rotationHeight b.rotationHeight)).isLE = true))

def append (self : KeyRotationRegistry) (rotation : KeyRotation) :
    Except KeyRotationError KeyRotationRegistry :=
  if self.rotations.any fun r =>
      r.agentId = rotation.agentId && r.rotationHeight = rotation.rotationHeight then
    .error (.duplicateAtHeight rotation.agentId rotation.rotationHeight)
  else .ok ⟨(self.rotations ++ [rotation]).insertionSort order⟩

def rotationsForAt (self : KeyRotationRegistry) (agentId : AgentId) (h : UInt64) :
    List KeyRotation :=
  self.rotations.filter fun r => r.agentId = agentId && r.rotationHeight ≤ h

def activeRotationAt (self : KeyRotationRegistry) (agentId : AgentId) (h : UInt64) :
    Option KeyRotation :=
  (self.rotationsForAt agentId h).getLast?

def codec : Codec KeyRotationRegistry :=
  KeyRotation.codec.list.iso KeyRotationRegistry.mk rotations (fun _ => rfl) (fun _ => rfl)

end KeyRotationRegistry

structure KeyIndexEntry where
  publicKey : Ed25519PublicKey
  agentId : AgentId
  activeFrom : UInt64
  supersededAt : Option UInt64
  deriving DecidableEq, Inhabited

def KeyIndexEntry.codec : Codec KeyIndexEntry :=
  ((Codec.bytes 32).pair <| (Codec.bytes 32).pair <| Codec.u64.pair Codec.u64.option).iso
    (fun ⟨a, b, c, d⟩ => ⟨a, b, c, d⟩) (fun ⟨a, b, c, d⟩ => (a, b, c, d))
    (fun _ => rfl) (fun _ => rfl)

structure KeyIndex where
  entries : List KeyIndexEntry := []
  deriving DecidableEq, Inhabited

def keyIndexTrieKey : Bytes := utf8 "system/key_index"

namespace KeyIndex

/-- By key, then by the height the key became active. -/
def order (a b : KeyIndexEntry) : Prop :=
  ((compare a.publicKey b.publicKey).then (compare a.activeFrom b.activeFrom)).isLE = true

instance : DecidableRel order := fun a b =>
  inferInstanceAs (Decidable (((compare a.publicKey b.publicKey).then
    (compare a.activeFrom b.activeFrom)).isLE = true))

def containsKey (self : KeyIndex) (publicKey : Ed25519PublicKey) : Bool :=
  self.entries.any fun e => e.publicKey = publicKey

def register (self : KeyIndex) (publicKey : Ed25519PublicKey) (agentId : AgentId)
    (activeFrom : UInt64) : Except KeyRotationError KeyIndex :=
  if self.containsKey publicKey then .error (.keyAlreadyIndexed publicKey)
  else
    let entry : KeyIndexEntry := ⟨publicKey, agentId, activeFrom, none⟩
    .ok ⟨(self.entries ++ [entry]).insertionSort order⟩

/-- The first entry of the key is marked. -/
def markFirst (publicKey : Ed25519PublicKey) (supersededAt : UInt64) :
    List KeyIndexEntry → Option (List KeyIndexEntry)
  | [] => none
  | entry :: rest =>
      if entry.publicKey = publicKey then
        some ({ entry with supersededAt := some supersededAt } :: rest)
      else (markFirst publicKey supersededAt rest).map (entry :: ·)

def markSuperseded (self : KeyIndex) (publicKey : Ed25519PublicKey) (supersededAt : UInt64) :
    Except KeyRotationError KeyIndex :=
  match markFirst publicKey supersededAt self.entries with
  | some entries => .ok ⟨entries⟩
  | none => .error (.keyNotIndexed publicKey)

def codec : Codec KeyIndex :=
  KeyIndexEntry.codec.list.iso KeyIndex.mk entries (fun _ => rfl) (fun _ => rfl)

end KeyIndex

/-! ## In the trie -/

inductive KeyRotationStateError where
  | noOp
  | oldKeySignatureInvalid
  | newKeySignatureInvalid
  | agentNotRegistered
  | oldKeyNotCurrent
  | newKeyAlreadyIndexed
  | registryAppend (error : KeyRotationError)
  | keyIndex (error : KeyRotationError)
  | storage (error : String)
  deriving DecidableEq, Inhabited

/-- Empty before the first rotation. -/
def keyRotationRegistryFromTrie (state : ManagedWorldState) :
    Except String KeyRotationRegistry :=
  match state.get keyRotationsTrieKey with
  | some bytes =>
      match KeyRotationRegistry.codec.ofBytes bytes with
      | some registry => .ok registry
      | none => .error "KeyRotationRegistry deserialize"
  | none => .ok {}

def commitKeyRotationRegistry (state : ManagedWorldState) (registry : KeyRotationRegistry) :
    ManagedWorldState :=
  state.applyDelta ⟨[⟨keyRotationsTrieKey, KeyRotationRegistry.codec.enc registry⟩], []⟩

/-- Empty before the first registration. -/
def keyIndexFromTrie (state : ManagedWorldState) : Except String KeyIndex :=
  match state.get keyIndexTrieKey with
  | some bytes =>
      match KeyIndex.codec.ofBytes bytes with
      | some index => .ok index
      | none => .error "KeyIndex deserialize"
  | none => .ok {}

def commitKeyIndex (state : ManagedWorldState) (index : KeyIndex) : ManagedWorldState :=
  state.applyDelta ⟨[⟨keyIndexTrieKey, KeyIndex.codec.enc index⟩], []⟩

def registerOriginalKey (state : ManagedWorldState) (agentId : AgentId)
    (publicKey : Ed25519PublicKey) (activeFrom : UInt64) :
    Except KeyRotationStateError ManagedWorldState := do
  let index ← (keyIndexFromTrie state).mapError .storage
  let index ← (index.register publicKey agentId activeFrom).mapError .keyIndex
  return commitKeyIndex state index

/-- The first of the entries with the smallest `active_from`. -/
def minByActiveFrom : List KeyIndexEntry → Option KeyIndexEntry
  | [] => none
  | entry :: rest =>
      match minByActiveFrom rest with
      | some best => some (if best.activeFrom < entry.activeFrom then best else entry)
      | none => some entry

def activePublicKeyFromIndexAndRegistry (index : KeyIndex) (registry : KeyRotationRegistry)
    (agentId : AgentId) (height : UInt64) : Option Ed25519PublicKey :=
  match registry.activeRotationAt agentId height with
  | some rotation => some rotation.newPublicKey
  | none =>
      (minByActiveFrom (index.entries.filter fun e =>
        (e.agentId = agentId && e.activeFrom ≤ height) &&
          match e.supersededAt with
          | some s => s > height
          | none => true)).map (·.publicKey)

def activePublicKey (state : ManagedWorldState) (agentId : AgentId) (height : UInt64) :
    Except String (Option Ed25519PublicKey) := do
  let registry ← keyRotationRegistryFromTrie state
  let index ← keyIndexFromTrie state
  return activePublicKeyFromIndexAndRegistry index registry agentId height

/-- Both keys sign, the old key is the active one, and the new key has never
been bound to anybody. -/
def applyKeyRotation [Crypto] (state : ManagedWorldState) (rotation : KeyRotation) :
    Except KeyRotationStateError ManagedWorldState := do
  if rotation.oldPublicKey = rotation.newPublicKey then throw .noOp
  let payload := rotation.payloadBytes
  if !verifyStrict rotation.oldPublicKey payload rotation.signatureByOldKey then
    throw .oldKeySignatureInvalid
  if !verifyStrict rotation.newPublicKey payload rotation.signatureByNewKey then
    throw .newKeySignatureInvalid
  let registry ← (keyRotationRegistryFromTrie state).mapError .storage
  let index ← (keyIndexFromTrie state).mapError .storage
  match activePublicKeyFromIndexAndRegistry index registry rotation.agentId
      rotation.rotationHeight with
  | none => throw .agentNotRegistered
  | some currentActive =>
      if currentActive ≠ rotation.oldPublicKey then throw .oldKeyNotCurrent
      if index.containsKey rotation.newPublicKey then throw .newKeyAlreadyIndexed
      let registry ← (registry.append rotation).mapError .registryAppend
      let index ← (index.markSuperseded rotation.oldPublicKey rotation.rotationHeight).mapError
        .keyIndex
      let index ← (index.register rotation.newPublicKey rotation.agentId
        rotation.rotationHeight).mapError .keyIndex
      return commitKeyIndex (commitKeyRotationRegistry state registry) index

end Sccgub
