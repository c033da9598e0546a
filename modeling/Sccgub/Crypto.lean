import Mathlib
import Sccgub.Bincode

/-!
# Hashes, signatures and the Merkle tree

BLAKE3 and Ed25519 come from third-party packages, so they are the fields of
`Crypto`, a class the rest of the development is parametric in.  Nothing is
assumed of them here; a result that needs collision freeness or unforgeability
states it for the messages it is about, since no function into thirty-two
bytes is injective on all of them.

What `sccgub-crypto` itself computes on top of the packages is defined: the
length-prefixed `blake3HashConcat`, the two signature wrappers with their key
and length checks, and the Merkle tree with its promoted odd leaf.
-/

namespace Sccgub

open Bincode

/-- A 32-byte string: block and transition ids, agent ids, roots, keys. -/
abbrev Hash := List.Vector UInt8 32

/-- A byte repeated, as the source writes `[b; 32]`. -/
def Hash.ofByte (b : UInt8) : Hash := List.Vector.replicate 32 b

def zeroHash : Hash := Hash.ofByte 0

theorem Hash.toList_injective : Function.Injective (List.Vector.toList : Hash → Bytes) :=
  fun _ _ h => List.Vector.eq _ _ h

/-! ## Byte-wise order

Arrays compare lexicographically, byte by byte. -/

instance : Ord Hash := ⟨compareOn List.Vector.toList⟩

instance : Std.TransOrd Hash := inferInstanceAs (Std.TransCmp (compareOn _))

instance : Std.LawfulEqOrd Hash where
  eq_of_compare h := Hash.toList_injective (Std.LawfulEqOrd.eq_of_compare (α := Bytes) h)

/-- Sorted, as `sort` and `sort_by_key` leave a vector. -/
def sortByHash {α : Type} (key : α → Hash) (l : List α) : List α :=
  l.insertionSort fun a b => (compare (key a) (key b)).isLE = true

/-- The first element equal to its right neighbour. -/
def firstAdjacentDuplicate : List Hash → Option Hash
  | a :: b :: rest => if a = b then some a else firstAdjacentDuplicate (b :: rest)
  | _ => none

instance : Std.Total fun a b : Hash => (compare a b).isLE = true where
  total a b := by
    rcases h : compare a b with _ | _ | _
    · exact Or.inl rfl
    · exact Or.inl rfl
    · refine Or.inr ?_
      have hswap : compare b a = (compare a b).swap := Std.OrientedCmp.eq_swap
      rw [hswap, h]
      rfl

instance : IsTrans Hash fun a b : Hash => (compare a b).isLE = true where
  trans _ _ _ := Std.TransCmp.isLE_trans

/-- Sorting brings equal hashes next to each other, so a scan of neighbours
finds every duplicate. -/
theorem firstAdjacentDuplicate_eq_none_iff {l : List Hash}
    (hl : l.Pairwise fun a b : Hash => (compare a b).isLE = true) :
    firstAdjacentDuplicate l = none ↔ l.Nodup := by
  induction l with
  | nil => simp [firstAdjacentDuplicate]
  | cons a l ih =>
      cases l with
      | nil => simp [firstAdjacentDuplicate]
      | cons b rest =>
          obtain ⟨ha, hrest⟩ := List.pairwise_cons.mp hl
          have hmem : a ∈ b :: rest → a = b := by
            intro hmem
            rcases List.mem_cons.mp hmem with h | h
            · exact h
            · have hab := ha b List.mem_cons_self
              have hba := (List.pairwise_cons.mp hrest).1 a h
              exact Std.LawfulEqCmp.eq_of_compare (Std.OrientedCmp.isLE_antisymm hab hba)
          simp only [firstAdjacentDuplicate]
          split
          · rename_i hab
            simp [hab]
          · rename_i hab
            rw [ih hrest, List.nodup_cons (a := a)]
            exact ⟨fun h => ⟨fun hm => hab (hmem hm), h⟩, fun h => h.2⟩

theorem mem_sortByHash {α : Type} {key : α → Hash} {l : List α} {a : α} :
    a ∈ sortByHash key l ↔ a ∈ l :=
  (List.perm_insertionSort _ l).mem_iff

theorem pairwise_sortByHash {α : Type} (key : α → Hash) (l : List α) :
    (sortByHash key l).Pairwise fun a b => (compare (key a) (key b)).isLE = true := by
  have htotal : Std.Total fun a b => (compare (key a) (key b)).isLE = true :=
    ⟨fun a b => Std.Total.total (r := fun a b : Hash => (compare a b).isLE = true) (key a) (key b)⟩
  have htrans : IsTrans α fun a b => (compare (key a) (key b)).isLE = true :=
    ⟨fun _ _ _ hab hbc => Std.TransCmp.isLE_trans hab hbc⟩
  exact List.pairwise_insertionSort _ l

theorem firstAdjacentDuplicate_sortByHash (l : List Hash) :
    firstAdjacentDuplicate (sortByHash id l) = none ↔ l.Nodup := by
  have hsorted := firstAdjacentDuplicate_eq_none_iff (List.pairwise_insertionSort
    (fun a b : Hash => (compare a b).isLE = true) l)
  exact hsorted.trans (List.perm_insertionSort _ l).nodup_iff

/-- A map collected from pairs with distinct keys holds exactly the pairs. -/
theorem getElem?_ofList_eq_some_iff {β : Type} {l : List (Hash × β)}
    (hnodup : (l.map Prod.fst).Nodup) {k : Hash} {v : β} :
    (Std.ExtTreeMap.ofList l (compare : Hash → Hash → Ordering))[k]? = some v ↔ (k, v) ∈ l := by
  have hdistinct : l.Pairwise fun a b => ¬ compare a.1 b.1 = .eq :=
    (List.pairwise_map.mp hnodup).imp fun hne heq => hne (Std.LawfulEqCmp.eq_of_compare heq)
  have hof : ∀ {w : β}, (k, w) ∈ l →
      (Std.ExtTreeMap.ofList l (compare : Hash → Hash → Ordering))[k]? = some w :=
    fun hw => Std.ExtTreeMap.getElem?_ofList_of_mem Std.ReflCmp.compare_self hdistinct hw
  refine ⟨fun h => ?_, hof⟩
  by_cases hk : k ∈ l.map Prod.fst
  · obtain ⟨⟨k', w⟩, hw, rfl⟩ := List.mem_map.mp hk
    rwa [← Option.some_inj.mp ((hof hw).symm.trans h)]
  · rw [Std.ExtTreeMap.getElem?_ofList_of_contains_eq_false (by simpa using hk)] at h
    cases h

abbrev HashSet := Std.ExtTreeSet Hash

theorem ofList_toList_hashSet (set : HashSet) :
    some (Std.ExtTreeSet.ofList set.toList) = some set := by
  refine congrArg some (Std.ExtTreeSet.ext_mem fun x => ?_)
  rw [Std.ExtTreeSet.mem_ofList, List.contains_iff_mem, Std.ExtTreeSet.mem_toList]

theorem sizeSeq_bytes (l : List Hash) : Codec.sizeSeq (Codec.bytes 32) l = 32 * l.length := by
  induction l with
  | nil => rfl
  | cons x l ih =>
      have hx : (Codec.bytes 32).size x = 32 := rfl
      rw [Codec.sizeSeq, ih, hx, List.length_cons]
      omega

theorem size_toList_hashSet_le (l : List Hash) (set : HashSet)
    (h : some (Std.ExtTreeSet.ofList l) = some set) :
    (Codec.bytes 32).list.size set.toList ≤ (Codec.bytes 32).list.size l := by
  have hle : set.toList.length ≤ l.length := by
    rw [← Option.some_inj.mp h, Std.ExtTreeSet.length_toList]
    exact Std.ExtTreeSet.size_ofList_le
  show 8 + _ ≤ 8 + _
  rw [sizeSeq_bytes, sizeSeq_bytes]
  omega

/-- An ordered set is written as the sequence of its elements; a repeated
element read back is the same set. -/
def hashSetCodec : Codec HashSet :=
  (Codec.bytes 32).list.refine (fun l => some (Std.ExtTreeSet.ofList l)) (·.toList)
    ofList_toList_hashSet size_toList_hashSet_le

@[simp] theorem hashSetCodec_complete (set : HashSet) : hashSetCodec.Complete set := by
  simp [hashSetCodec]

/-! ## The packages -/

/-- What the BLAKE3 and Ed25519 packages supply: a digest, whether 32 bytes
decompress to a verifying key, and the plain and strict verifiers on a
64-byte signature. -/
class Crypto where
  blake3 : Bytes → Hash
  verifyingKeyFromBytes : Hash → Bool
  verify : Hash → Bytes → List.Vector UInt8 64 → Bool
  verifyStrict : Hash → Bytes → List.Vector UInt8 64 → Bool

/-- A small instance to evaluate closed cases with.  The digest is a polynomial
in the bytes; a signature is the key followed by the digest of what was signed,
so it verifies for that key and, digests being distinct, for that message. -/
@[reducible] def polyCrypto : Crypto where
  blake3 := polyDigest
  verifyingKeyFromBytes _ := true
  verify key data sig := sig.toList = key.toList ++ (polyDigest data).toList
  verifyStrict key data sig := sig.toList = key.toList ++ (polyDigest data).toList
where
  polyDigest (data : Bytes) : Hash :=
    ⟨leBytes 32 (data.foldl (fun acc b => (acc * 257 + b.toNat + 1) % 2 ^ 256) 1),
      length_leBytes 32 _⟩

/-- What the small instance of the packages takes for a signature. -/
def polySign (key : Hash) (data : Bytes) : Bytes :=
  key.toList ++ (polyCrypto.polyDigest data).toList

/-- Every part goes in behind its own length. -/
def concatParts : List Bytes → Bytes
  | [] => []
  | part :: rest => leBytes 8 part.length ++ part ++ concatParts rest

/-- The lengths keep the parts apart. -/
theorem concatParts_inj {ps qs : List Bytes} (hp : ∀ p ∈ ps, p.length < 2 ^ 64)
    (hq : ∀ q ∈ qs, q.length < 2 ^ 64) (h : concatParts ps = concatParts qs) : ps = qs := by
  induction ps generalizing qs with
  | nil =>
      rcases qs with _ | ⟨q, qs⟩
      · rfl
      · have hlen := congrArg List.length h
        simp only [concatParts, List.length_nil, List.length_append, length_leBytes] at hlen
        omega
  | cons p ps ih =>
      rcases qs with _ | ⟨q, qs⟩
      · have hlen := congrArg List.length h
        simp only [concatParts, List.length_nil, List.length_append, length_leBytes] at hlen
        omega
      · simp only [concatParts, List.append_assoc] at h
        obtain ⟨hcount, hrest⟩ := List.append_inj h (by simp)
        have hlen : p.length = q.length :=
          leBytes_inj (hp p List.mem_cons_self) (hq q List.mem_cons_self) hcount
        obtain ⟨hpart, htail⟩ := List.append_inj hrest hlen
        rw [hpart, ih (fun p hp' => hp p (List.mem_cons_of_mem _ hp'))
          (fun q hq' => hq q (List.mem_cons_of_mem _ hq')) htail]

section

variable [Crypto]

def blake3Hash (data : Bytes) : Hash := Crypto.blake3 data

def blake3HashConcat (parts : List Bytes) : Hash := Crypto.blake3 (concatParts parts)

/-- No two of the messages have the same digest. -/
def CollisionFree (messages : Set Bytes) : Prop := Set.InjOn Crypto.blake3 messages

theorem collisionFree_of_forall {messages : List Bytes}
    (h : ∀ m ∈ messages, ∀ m' ∈ messages, blake3Hash m = blake3Hash m' → m = m') :
    CollisionFree {m | m ∈ messages} :=
  fun m hm m' hm' => h m hm m' hm'

/-- `Signature::from_slice` takes 64 bytes and nothing else. -/
def signatureFromSlice (signature : Bytes) : Option (List.Vector UInt8 64) :=
  if h : signature.length = 64 then some ⟨signature, h⟩ else none

def verify (publicKey : Hash) (data signature : Bytes) : Bool :=
  if Crypto.verifyingKeyFromBytes publicKey then
    match signatureFromSlice signature with
    | some sig => Crypto.verify publicKey data sig
    | none => false
  else false

def verifyStrict (publicKey : Hash) (data signature : Bytes) : Bool :=
  if Crypto.verifyingKeyFromBytes publicKey then
    match signatureFromSlice signature with
    | some sig => Crypto.verifyStrict publicKey data sig
    | none => false
  else false

/-- A strict signature is 64 bytes long, whatever the verifier says. -/
theorem length_of_verifyStrict {publicKey : Hash} {data signature : Bytes}
    (h : verifyStrict publicKey data signature = true) : signature.length = 64 := by
  simp only [verifyStrict, signatureFromSlice] at h
  by_contra hlen
  simp [hlen] at h

def canonicalBytes {α : Type} (c : Codec α) (value : α) : Bytes := c.enc value

def canonicalHash {α : Type} (c : Codec α) (value : α) : Hash := blake3Hash (c.enc value)

/-! ## Merkle tree -/

def hashLeaf (data : Hash) : Hash := blake3HashConcat [[0x00], data.toList]

def hashInternal (left right : Hash) : Hash :=
  blake3HashConcat [[0x01], left.toList, right.toList]

/-- One level up: neighbours are hashed together, an odd last one is promoted. -/
def nextLevel : List Hash → List Hash
  | left :: right :: rest => hashInternal left right :: nextLevel rest
  | level => level

/-- The levels up to the root.  Every level of at least two halves, so as many
steps as there are hashes are enough. -/
def climb : Nat → List Hash → List Hash
  | 0, level => level
  | fuel + 1, level => if level.length > 1 then climb fuel (nextLevel level) else level

def computeMerkleRoot (leaves : List Hash) : Hash :=
  match leaves with
  | [] => zeroHash
  | [leaf] => hashLeaf leaf
  | _ => (climb leaves.length (leaves.map hashLeaf)).headD zeroHash

def merkleRootOfBytes (items : List Bytes) : Hash :=
  computeMerkleRoot (items.map fun item => blake3HashConcat [leBytes 8 item.length, item])

end

end Sccgub
