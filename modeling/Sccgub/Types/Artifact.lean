import Mathlib
import Sccgub.Types.Namespace

/-!
# External artifacts

The chain keeps a reference to an artifact and never its content.  The bytes its
id is taken from are the two digests and then the name and the version of the
schema, with nothing between these two.  So a part of the version can stand at
the end of the name instead, and two references that differ in this way only
share their id.
-/

namespace Sccgub

open Bincode

theorem utf8_injective : Function.Injective utf8 := by
  intro s t h
  have hdata : s.toUTF8.data = t.toUTF8.data := Array.toList_inj.mp h
  have hbytes : s.toUTF8 = t.toUTF8 := by
    cases hs : s.toUTF8
    cases ht : t.toUTF8
    rw [hs, ht] at hdata
    exact congrArg ByteArray.mk hdata
  exact String.toByteArray_inj.mp hbytes

/-! ## References -/

def maxStringLen : Nat := 4096

def maxLocatorLen : Nat := 2048

inductive ArtifactKind where
  | captureSession
  | vrcFile
  | mlvffFile
  | reconstructionOutput
  | intelligenceOutput
  | deliveryBundle
  | policyBundle
  | dataset
  | model
  | custom (s : String)
  deriving DecidableEq

inductive StorageScheme where
  | uri
  | ipfs
  | objectStore
  | localFile
  | vrc
  | mlvff
  | custom (s : String)
  deriving DecidableEq

structure ArtifactRef where
  artifactId : Hash
  kind : ArtifactKind
  schemaName : String
  schemaVersion : String
  contentHash : Hash
  manifestHash : Hash
  signatureHash : Option Hash
  storageScheme : StorageScheme
  locator : String
  byteLength : UInt64
  createdBy : AgentId
  createdAtBlock : UInt64
  deriving DecidableEq

/-- The bytes that the id is the digest of. -/
def canonicalIdPreimage (contentHash manifestHash : Hash) (schemaName schemaVersion : String) :
    Bytes :=
  contentHash.toList ++ manifestHash.toList ++ utf8 schemaName ++ utf8 schemaVersion

namespace ArtifactRef

/-- The caps are on bytes and not on characters. -/
def validate (self : ArtifactRef) : Except String Unit := do
  if self.artifactId = zeroHash then throw "artifact_id is required"
  if self.contentHash = zeroHash then throw "content_hash is required"
  if self.manifestHash = zeroHash then throw "manifest_hash is required"
  if self.schemaName.isEmpty then throw "schema_name is required"
  if self.schemaVersion.isEmpty then throw "schema_version is required"
  if self.createdBy = zeroHash then throw "created_by (producer identity) is required"
  if self.locator.isEmpty then throw "locator is required"
  if self.locator.utf8ByteSize > maxLocatorLen then
    throw s!"locator too long: {self.locator.utf8ByteSize} > {maxLocatorLen}"
  if self.schemaName.utf8ByteSize > maxStringLen then throw "schema_name too long"
  if self.schemaVersion.utf8ByteSize > maxStringLen then throw "schema_version too long"
  if let .custom s := self.kind then
    if s.utf8ByteSize > maxStringLen then
      throw s!"ArtifactKind::Custom string too long: {s.utf8ByteSize} > {maxStringLen}"
  if let .custom s := self.storageScheme then
    if s.utf8ByteSize > maxStringLen then
      throw s!"StorageScheme::Custom string too long: {s.utf8ByteSize} > {maxStringLen}"
  if self.byteLength = 0 then throw "byte_length must be > 0"
  return ()

def preimage (self : ArtifactRef) : Bytes :=
  canonicalIdPreimage self.contentHash self.manifestHash self.schemaName self.schemaVersion

/-- What an id is to stand for. -/
def SameBinding (a b : ArtifactRef) : Prop :=
  a.contentHash = b.contentHash ∧ a.manifestHash = b.manifestHash
    ∧ a.schemaName = b.schemaName ∧ a.schemaVersion = b.schemaVersion

/-- The digests are the same, and what the first version begins with stands at
the end of the second name instead. -/
def ShiftedTo (a b : ArtifactRef) : Prop :=
  a.contentHash = b.contentHash ∧ a.manifestHash = b.manifestHash
    ∧ ∃ moved ≠ [], utf8 b.schemaName = utf8 a.schemaName ++ moved
      ∧ utf8 a.schemaVersion = moved ++ utf8 b.schemaVersion

/-- A reference that the checks accept. -/
abbrev Validated : Type := { self : ArtifactRef // self.validate = .ok () }

/-! ## The bytes and what they stand for -/

theorem preimage_inj_iff (a b : ArtifactRef) :
    a.preimage = b.preimage ↔ a.contentHash = b.contentHash ∧ a.manifestHash = b.manifestHash
      ∧ utf8 a.schemaName ++ utf8 a.schemaVersion = utf8 b.schemaName ++ utf8 b.schemaVersion := by
  unfold preimage canonicalIdPreimage
  rw [List.append_assoc, List.append_assoc, List.append_assoc, List.append_assoc]
  constructor
  · intro h
    obtain ⟨hcontent, hrest⟩ := List.append_inj h (by rw [List.Vector.toList_length,
      List.Vector.toList_length])
    obtain ⟨hmanifest, htext⟩ := List.append_inj hrest (by rw [List.Vector.toList_length,
      List.Vector.toList_length])
    exact ⟨Hash.toList_injective hcontent, Hash.toList_injective hmanifest, htext⟩
  · rintro ⟨hcontent, hmanifest, htext⟩
    rw [hcontent, hmanifest, htext]

theorem SameBinding.not_shiftedTo {a b : ArtifactRef} (h : SameBinding a b) : ¬ a.ShiftedTo b := by
  rintro ⟨-, -, moved, hne, hname, -⟩
  rw [h.2.2.1] at hname
  exact hne (List.self_eq_append_right.mp hname)

theorem SameBinding.symm {a b : ArtifactRef} (h : SameBinding a b) : SameBinding b a :=
  ⟨h.1.symm, h.2.1.symm, h.2.2.1.symm, h.2.2.2.symm⟩

/-- References with the same bytes stand for the same, or the text between name
and version is parted in two ways. -/
theorem preimage_eq_iff (a b : ArtifactRef) :
    a.preimage = b.preimage ↔ SameBinding a b ∨ a.ShiftedTo b ∨ b.ShiftedTo a := by
  rw [preimage_inj_iff]
  constructor
  · rintro ⟨hcontent, hmanifest, htext⟩
    rcases List.append_eq_append_iff.mp htext with ⟨moved, hname, hversion⟩ | ⟨moved, hname, hversion⟩
    · by_cases hmoved : moved = []
      · rw [hmoved, List.append_nil] at hname
        rw [hmoved, List.nil_append] at hversion
        exact .inl ⟨hcontent, hmanifest, utf8_injective hname.symm, utf8_injective hversion⟩
      · exact .inr (.inl ⟨hcontent, hmanifest, moved, hmoved, hname, hversion⟩)
    · by_cases hmoved : moved = []
      · rw [hmoved, List.append_nil] at hname
        rw [hmoved, List.nil_append] at hversion
        exact .inl ⟨hcontent, hmanifest, utf8_injective hname, utf8_injective hversion.symm⟩
      · exact .inr (.inr ⟨hcontent.symm, hmanifest.symm, moved, hmoved, hname, hversion⟩)
  · rintro (⟨hcontent, hmanifest, hname, hversion⟩ | ⟨hcontent, hmanifest, moved, -, hname, hversion⟩
      | ⟨hcontent, hmanifest, moved, -, hname, hversion⟩)
    · exact ⟨hcontent, hmanifest, by rw [hname, hversion]⟩
    · exact ⟨hcontent, hmanifest, by rw [hname, hversion, List.append_assoc]⟩
    · exact ⟨hcontent.symm, hmanifest.symm, by rw [hname, hversion, List.append_assoc]⟩

/-- Neither the bytes nor the digest taken from them stand for two bindings. -/
def Unambiguous [Crypto] (a b : ArtifactRef) : Prop :=
  (a.preimage = b.preimage → SameBinding a b)
    ∧ (blake3Hash a.preimage = blake3Hash b.preimage → SameBinding a b)

/-- Two references are told apart exactly if neither is the other one with the
name and the version parted elsewhere. -/
theorem unambiguous_iff [Crypto] (a b : Validated)
    (hfree : CollisionFree {a.1.preimage, b.1.preimage}) :
    Unambiguous a.1 b.1 ↔ ¬ a.1.ShiftedTo b.1 ∧ ¬ b.1.ShiftedTo a.1 := by
  constructor
  · rintro ⟨hbytes, -⟩
    refine ⟨fun hshift => ?_, fun hshift => ?_⟩
    · have hsame := hbytes ((preimage_eq_iff a.1 b.1).mpr (.inr (.inl hshift)))
      exact hsame.not_shiftedTo hshift
    · have hsame := hbytes ((preimage_eq_iff a.1 b.1).mpr (.inr (.inr hshift)))
      exact hsame.symm.not_shiftedTo hshift
  · rintro ⟨hab, hba⟩
    have hbytes : a.1.preimage = b.1.preimage → SameBinding a.1 b.1 := by
      intro heq
      rcases (preimage_eq_iff a.1 b.1).mp heq with hsame | hshift | hshift
      · exact hsame
      · exact absurd hshift hab
      · exact absurd hshift hba
    refine ⟨hbytes, fun hdigest => hbytes ?_⟩
    exact hfree (Set.mem_insert _ _) (Set.mem_insert_of_mem _ rfl) hdigest

/-! ## Two bindings of one id -/

def sampleArtifact (schemaName schemaVersion : String) : ArtifactRef where
  artifactId := Hash.ofByte 9
  kind := .dataset
  schemaName := schemaName
  schemaVersion := schemaVersion
  contentHash := Hash.ofByte 1
  manifestHash := Hash.ofByte 2
  signatureHash := none
  storageScheme := .ipfs
  locator := "cid"
  byteLength := 7
  createdBy := Hash.ofByte 3
  createdAtBlock := 1

theorem sampleArtifact_validate :
    (sampleArtifact "capture1" "0").validate = .ok ()
      ∧ (sampleArtifact "capture" "10").validate = .ok ()
      ∧ (sampleArtifact "capture" "20").validate = .ok () := by
  decide +kernel

/-- Version 10 of one schema has the id of version 0 of another one. -/
theorem capture_ambiguous :
    (sampleArtifact "capture" "10").validate = .ok ()
      ∧ (sampleArtifact "capture1" "0").validate = .ok ()
      ∧ (sampleArtifact "capture" "10").preimage = (sampleArtifact "capture1" "0").preimage
      ∧ ¬ SameBinding (sampleArtifact "capture" "10") (sampleArtifact "capture1" "0") := by
  refine ⟨sampleArtifact_validate.2.1, sampleArtifact_validate.1, by decide +kernel, ?_⟩
  rintro ⟨-, -, hname, -⟩
  exact absurd hname (by decide)

/-- Two versions of one schema. -/
theorem capture_unambiguous :
    @Unambiguous polyCrypto (sampleArtifact "capture" "10") (sampleArtifact "capture" "20") := by
  have hfree : @CollisionFree polyCrypto
      {(sampleArtifact "capture" "10").preimage, (sampleArtifact "capture" "20").preimage} := by
    have hdigests : @blake3Hash polyCrypto (sampleArtifact "capture" "10").preimage
        ≠ @blake3Hash polyCrypto (sampleArtifact "capture" "20").preimage := by
      decide +kernel
    rintro m (rfl | rfl) m' (rfl | rfl) hdigest
    · rfl
    · exact absurd hdigest hdigests
    · exact absurd hdigest.symm hdigests
    · rfl
  refine (@unambiguous_iff polyCrypto ⟨_, sampleArtifact_validate.2.1⟩
    ⟨_, sampleArtifact_validate.2.2⟩ hfree).mpr ⟨?_, ?_⟩
  · rintro ⟨-, -, moved, hne, hname, -⟩
    exact hne (List.self_eq_append_right.mp hname)
  · rintro ⟨-, -, moved, hne, hname, -⟩
    exact hne (List.self_eq_append_right.mp hname)

end ArtifactRef

end Sccgub
