import Mathlib
import Sccgub.Consensus.ViewChange

/-!
# Leader selection

The leader of a round is picked by a digest of 256 bits modulo the number of active
validators.  The digest is reduced byte by byte in 128 bits: what is kept is below the
number of validators, so a byte more still fits, and at the end it is the residue of the
digest read as one number.
-/

namespace Sccgub

open Bincode

/-! ## The source -/

/-- The number with one byte more at its end. -/
def pushByte (acc : BitVec 128) (b : UInt8) : BitVec 128 := acc <<< 8 ||| b.toBitVec.setWidth 128

def reduceByte (n acc : BitVec 128) (b : UInt8) : BitVec 128 := pushByte acc b % n

section

variable [Crypto]

def leaderDigest (height : UInt64) (round : UInt32) (priorBlockHash : Hash) : Hash :=
  blake3Hash (priorBlockHash.toList ++ leBytes 8 height.toNat ++ leBytes 4 round.toNat)

/-- Without an active validator there is none; an index beyond them would be none too. -/
def selectLeader (set : ValidatorSet) (height : UInt64) (round : UInt32) (priorBlockHash : Hash) :
    Option ValidatorRecord :=
  let active := set.activeAt height
  if active.isEmpty then none
  else
    let digest := leaderDigest height round priorBlockHash
    let n := BitVec.ofNat 128 active.length
    let acc := digest.toList.foldl (reduceByte n) 0
    active[acc.toNat % 2 ^ 64]?

end

/-! ## The residue -/

/-- The bytes as a number, the first one on top. -/
def ofBeBytes (bytes : Bytes) : Nat := ofLeBytes bytes.reverse

theorem ofBeBytes_append_singleton (bytes : Bytes) (b : UInt8) :
    ofBeBytes (bytes ++ [b]) = ofBeBytes bytes * 256 + b.toNat := by
  rw [ofBeBytes, List.reverse_append, List.reverse_singleton, List.singleton_append, ofLeBytes,
    ← ofBeBytes]
  omega

/-- The shift drops nothing from a number below `2 ^ 120`. -/
theorem toNat_pushByte {acc : BitVec 128} (b : UInt8) (h : acc.toNat < 2 ^ 120) :
    (pushByte acc b).toNat = acc.toNat * 256 + b.toNat := by
  have hb : b.toNat < 2 ^ 8 := b.toNat_lt
  have hwide : (b.toBitVec.setWidth 128).toNat = b.toNat := by
    rw [BitVec.toNat_setWidth, UInt8.toNat_toBitVec]
    omega
  have hshift : (acc <<< 8).toNat = acc.toNat <<< 8 := by
    rw [BitVec.toNat_shiftLeft, Nat.shiftLeft_eq]
    omega
  rw [pushByte, BitVec.toNat_or, hwide, hshift, ← Nat.shiftLeft_add_eq_or_of_lt hb,
    Nat.shiftLeft_eq]

/-- After every byte what is kept is the residue of the bytes so far. -/
theorem toNat_foldl_reduceByte {n : BitVec 128} (hpos : 0 < n.toNat) (hn : n.toNat ≤ 2 ^ 120)
    (bytes : Bytes) :
    (bytes.foldl (reduceByte n) 0).toNat = ofBeBytes bytes % n.toNat := by
  induction bytes using List.reverseRecOn with
  | nil => exact (Nat.zero_mod _).symm
  | append_singleton bytes b ih =>
      have hlt : ofBeBytes bytes % n.toNat < n.toNat := Nat.mod_lt _ hpos
      rw [List.foldl_concat, reduceByte, BitVec.toNat_umod, toNat_pushByte b (by omega), ih,
        ofBeBytes_append_singleton]
      exact ((Nat.mod_modEq _ _).mul_right 256).add_right b.toNat

/-- No turn of the reduction drops a bit. -/
def ReducesExactly (n : BitVec 128) (bytes : Bytes) : Prop :=
  ∀ earlier b later, bytes = earlier ++ b :: later →
    (pushByte (earlier.foldl (reduceByte n) 0) b).toNat
      = (earlier.foldl (reduceByte n) 0).toNat * 256 + b.toNat

theorem reducesExactly {n : BitVec 128} (hpos : 0 < n.toNat) (hn : n.toNat ≤ 2 ^ 120)
    (bytes : Bytes) : ReducesExactly n bytes := by
  intro earlier b later _
  refine toNat_pushByte b ?_
  have hlt : ofBeBytes earlier % n.toNat < n.toNat := Nat.mod_lt _ hpos
  rw [toNat_foldl_reduceByte hpos hn]
  omega

/-- The leader is the active validator at the residue of the digest. -/
theorem selectLeader_eq [Crypto] (set : ValidatorSet) (height : UInt64) (round : UInt32)
    (priorBlockHash : Hash) (hactive : set.activeAt height ≠ [])
    (hlength : (set.activeAt height).length < 2 ^ 64) :
    (∃ h : ofBeBytes (leaderDigest height round priorBlockHash).toList
          % (set.activeAt height).length < (set.activeAt height).length,
        selectLeader set height round priorBlockHash = some ((set.activeAt height).get ⟨_, h⟩))
      ∧ ReducesExactly (BitVec.ofNat 128 (set.activeAt height).length)
        (leaderDigest height round priorBlockHash).toList := by
  set n := BitVec.ofNat 128 (set.activeAt height).length with hdef
  have hpos : 0 < (set.activeAt height).length := List.length_pos_of_ne_nil hactive
  have hn : n.toNat = (set.activeAt height).length := by
    rw [hdef, BitVec.toNat_ofNat]
    omega
  refine ⟨⟨Nat.mod_lt _ hpos, ?_⟩, reducesExactly (by omega) (by omega) _⟩
  have hlt : ∀ bytes : Bytes,
      ofBeBytes bytes % (set.activeAt height).length < (set.activeAt height).length :=
    fun bytes => Nat.mod_lt _ hpos
  unfold selectLeader
  dsimp only
  rw [if_neg (by simpa using hactive), ← hdef, toNat_foldl_reduceByte (by omega) (by omega), hn,
    Nat.mod_eq_of_lt ((hlt _).trans hlength), List.getElem?_eq_getElem (hlt _)]
  rfl

/-- Three active validators. -/
theorem selectLeader_three :
    ∃ h : ofBeBytes (@leaderDigest polyCrypto 1 0 zeroHash).toList
        % ((⟨threeValidators⟩ : ValidatorSet).activeAt 1).length
          < ((⟨threeValidators⟩ : ValidatorSet).activeAt 1).length,
      @selectLeader polyCrypto ⟨threeValidators⟩ 1 0 zeroHash
        = some (((⟨threeValidators⟩ : ValidatorSet).activeAt 1).get ⟨_, h⟩) :=
  (@selectLeader_eq polyCrypto ⟨threeValidators⟩ 1 0 zeroHash (by decide +kernel)
    (by decide +kernel)).1

end Sccgub
