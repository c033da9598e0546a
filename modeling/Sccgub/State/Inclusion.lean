import Mathlib
import Sccgub.MerkleTree
import Sccgub.State.Commitment

/-!
# Inclusion proofs

A proof lists the siblings a leaf meets on its way to the root; a level on which
it is promoted contributes none.  Following them leads to the root, and without
collisions nothing leads there but what starts at a leaf: a path of any length
can be held against the tree of the root from the top down.
-/

namespace Sccgub

open Bincode MerkleTree

/-- Siblings from leaf to root, each with whether it stands on the right. -/
structure MerkleProof where
  siblings : List (Hash × Bool)
  deriving DecidableEq

section

variable [Crypto]

def proofSiblings : Nat → List Hash → Nat → List (Hash × Bool)
  | 0, _, _ => []
  | fuel + 1, currentLevel, proofIndex =>
      if currentLevel.length > 1 then
        let siblingIndex := if proofIndex % 2 = 0 then proofIndex + 1 else proofIndex - 1
        let here := match currentLevel[siblingIndex]? with
          | some sibling => [(sibling, decide (proofIndex % 2 = 0))]
          | none => []
        here ++ proofSiblings fuel (nextLevel currentLevel) (proofIndex / 2)
      else []

def generateProof (leaves : List Hash) (index : Nat) : Option MerkleProof :=
  if leaves.length ≤ index ∨ leaves = [] then none
  else some ⟨proofSiblings leaves.length (leaves.map hashLeaf) index⟩

def verifyProof (root leaf : Hash) (proof : MerkleProof) : Bool :=
  proof.siblings.foldl (fun current (sibling, isRight) =>
    if isRight then hashInternal current sibling else hashInternal sibling current)
    (hashLeaf leaf) = root

/-! ## Paths of the library -/

theorem proofSiblings_eq (fuel : Nat) (level : List Hash) (index : Nat) :
    proofSiblings fuel level index = siblings hashInternal fuel level index := by
  induction fuel generalizing level index with
  | zero => rfl
  | succ fuel ih =>
      simp only [proofSiblings, siblings, nextLevel_eq, ih]
      rcases level[if index % 2 = 0 then index + 1 else index - 1]? with _ | sibling
      · rfl
      · rfl

theorem foldl_eq_follow (current : Hash) (path : List (Hash × Bool)) :
    path.foldl (fun current (sibling, isRight) =>
        if isRight then hashInternal current sibling else hashInternal sibling current) current
      = follow hashInternal current path := by
  induction path generalizing current with
  | nil => rfl
  | cons step path ih =>
      obtain ⟨sibling, isRight⟩ := step
      rw [List.foldl_cons, ih]
      cases isRight with
      | true => rfl
      | false => rfl

theorem verifyProof_iff {root leaf : Hash} {proof : MerkleProof} :
    verifyProof root leaf proof = true
      ↔ follow hashInternal (hashLeaf leaf) proof.siblings = root := by
  rw [verifyProof, foldl_eq_follow, decide_eq_true_iff]

/-! ## What is hashed -/

/-- For the check of a proof. -/
def hashedForProof (leaf : Hash) (proof : MerkleProof) : List Bytes :=
  leafMessage leaf
    :: (joinedAlong hashInternal (hashLeaf leaf) proof.siblings).map internalMessage

theorem verifyProof_generateProof {leaves : List Hash} {index : Nat}
    (hindex : index < leaves.length) :
    ∃ proof, generateProof leaves index = some proof
      ∧ verifyProof (computeMerkleRoot leaves) leaves[index] proof = true := by
  have hne : leaves ≠ [] := List.ne_nil_of_length_pos (by omega)
  have hinside : ¬ (leaves.length ≤ index ∨ leaves = []) :=
    fun h => h.elim (by omega) hne
  refine ⟨⟨proofSiblings leaves.length (leaves.map hashLeaf) index⟩, ?_, ?_⟩
  · rw [generateProof, if_neg hinside]
  · rw [verifyProof_iff, proofSiblings_eq]
    refine follow_siblings (computeMerkleRoot_eq hne) ?_
    rw [List.getElem?_map, List.getElem?_eq_getElem hindex]
    rfl

theorem mem_of_verifyProof {leaves : List Hash} (hne : leaves ≠ []) {leaf : Hash}
    {proof : MerkleProof}
    (hfree : CollisionFree {m | m ∈ hashedForRoot leaves ∨ m ∈ hashedForProof leaf proof})
    (h : verifyProof (computeMerkleRoot leaves) leaf proof = true) : leaf ∈ leaves := by
  obtain ⟨t, hroot, hfringe, hjoins⟩ := exists_tree hashLeaf hashInternal hne (Nat.le_succ _)
  rw [computeMerkleRoot_eq hne] at hroot
  rw [verifyProof_iff, List.singleton_inj.mp hroot] at h
  have hmem := @mem_fringe_of_follow _ _ hashLeaf hashInternal
    {data | leafMessage data ∈ hashedForRoot leaves ∨ leafMessage data ∈ hashedForProof leaf proof}
    {children | internalMessage children ∈ hashedForRoot leaves
      ∨ internalMessage children ∈ hashedForProof leaf proof}
    (fun data hdata data' hdata' heq => leafMessage_inj (hfree hdata hdata' heq))
    (fun children hc children' hc' heq => internalMessage_inj (hfree hc hc' heq))
    (fun data hdata children hc heq =>
      leafMessage_ne_internalMessage data children (hfree hdata hc heq))
    t leaf proof.siblings ?_ (Or.inr List.mem_cons_self) ?_ ?_ h
  · rwa [hfringe] at hmem
  · intro data hdata
    rw [hfringe] at hdata
    exact Or.inl (List.mem_append_left _ (List.mem_map_of_mem hdata))
  · intro children hchildren
    exact Or.inl (List.mem_append_right _ (List.mem_map_of_mem (hjoins _ hchildren)))
  · intro children hchildren
    exact Or.inr (List.mem_cons_of_mem _ (List.mem_map_of_mem hchildren))

/-- Every leaf has a proof that is accepted, and only leaves have one. -/
theorem inclusion_proofs {leaves : List Hash} (hne : leaves ≠ []) :
    (∀ index (hindex : index < leaves.length), ∃ proof,
        generateProof leaves index = some proof
          ∧ verifyProof (computeMerkleRoot leaves) leaves[index] proof = true)
      ∧ ∀ leaf proof,
        CollisionFree {m | m ∈ hashedForRoot leaves ∨ m ∈ hashedForProof leaf proof} →
          verifyProof (computeMerkleRoot leaves) leaf proof = true → leaf ∈ leaves :=
  ⟨fun _ hindex => verifyProof_generateProof hindex,
    fun _ _ hfree h => mem_of_verifyProof hne hfree h⟩

end

def threeLeaves : List Hash := [.ofByte 1, .ofByte 2, .ofByte 3]

/-- The last leaf is promoted to the second level and meets its sibling there. -/
def lastProof : MerkleProof :=
  ⟨[(@hashInternal polyCrypto (@hashLeaf polyCrypto (.ofByte 1)) (@hashLeaf polyCrypto (.ofByte 2)),
    false)]⟩

theorem inclusion_proofs_threeLeaves :
    (∃ proof, @generateProof polyCrypto threeLeaves 2 = some proof
        ∧ @verifyProof polyCrypto (@computeMerkleRoot polyCrypto threeLeaves) (.ofByte 3) proof = true)
      ∧ .ofByte 3 ∈ threeLeaves := by
  have hsub : ∀ m ∈ @hashedForProof polyCrypto (.ofByte 3) lastProof,
      m ∈ @hashedForRoot polyCrypto threeLeaves := by
    decide +kernel
  have hfree : ∀ m ∈ @hashedForRoot polyCrypto threeLeaves,
      ∀ m' ∈ @hashedForRoot polyCrypto threeLeaves,
        polyCrypto.blake3 m = polyCrypto.blake3 m' → m = m' := by
    decide +kernel
  obtain ⟨hcomplete, hsound⟩ := @inclusion_proofs polyCrypto threeLeaves (by decide)
  refine ⟨hcomplete 2 (by decide), hsound (.ofByte 3) lastProof ?_ (by decide +kernel)⟩
  intro m hm m' hm'
  exact hfree m (hm.elim id (hsub m)) m' (hm'.elim id (hsub m'))

end Sccgub
