import Mathlib
import Sccgub.Execution.Receipts
import Sccgub.Node.FinalityAgreement
import Sccgub.Node.Persistence

/-!
# Blocks that do not come back

A node reads its blocks from disk with a check of their format that import does
not make.  What the gate has let through passes it, with two exceptions: the
place for the parameters of genesis, which no signature covers and nobody looks
at in a later block, and a parent under the zero id.  A chain with such a block
goes on growing and is saved, and cannot be read again.
-/

namespace Sccgub

open Bincode FixedWidth Fallible Runs

section

variable [Crypto]

/-- What the gate leaves open of the format of a later block. -/
theorem isStructurallyValid_iff_of_valid {block : Block} {state : ManagedWorldState}
    {parentId : Hash} (hvalid : validateCpog block state parentId = .valid)
    (hpos : block.header.height > 0) :
    block.isStructurallyValid = true
      ↔ block.body.genesisConsensusParams = none ∧ block.header.parentId ≠ zeroHash := by
  have hgate := validateCpog_eq_valid_iff.mp hvalid
  have hseal : block.header.mfidelSeal = MfidelAtomicSeal.fromHeight block.header.height :=
    (phasePerformance_passed.mp (hgate.phases .performance)).1
  have hcount : block.body.transitions.length = block.body.transitionCount.toNat := by
    have hrow := hgate.header _ (List.mem_cons_of_mem _ (List.mem_cons_of_mem _
      (List.mem_cons_of_mem _ (List.mem_cons_of_mem _ (List.mem_cons_of_mem _
        List.mem_cons_self)))))
    exact not_not.mp (of_decide_eq_false hrow)
  have hversion : isSupportedBlockVersion block.header.version = true := by
    have hphase := hgate.phases .architecture
    by_contra hunsupported
    rw [Bool.not_eq_true] at hunsupported
    simp only [executeBlockPhase, phaseArchitecture, hunsupported, Bool.not_false, if_true] at hphase
    split_ifs at hphase
  have hreceipts : (!block.receipts.isEmpty
      && decide (block.receipts.length ≠ block.body.transitions.length)) = false := by
    obtain ⟨applied, happlied⟩ := hgate.replay hpos
    obtain ⟨inputs, settled, -, hcharge⟩ := chargeFees_of_replayBlock happlied.replay
    by_cases hempty : block.receipts = []
    · rw [hempty]
      rfl
    · have hlength := (chargeFees_spec hcharge (Or.inl hempty)).1.length_eq
      simp [hlength]
  have hheight : block.header.height ≠ 0 := UInt64.pos_iff_ne_zero.mp hpos
  unfold Block.isStructurallyValid
  rw [hreceipts, hversion]
  by_cases hparams : block.body.genesisConsensusParams = none
  · by_cases hparent : block.header.parentId = zeroHash
    · simp [hheight, hpos, hparent]
    · simp [hheight, hseal, hcount, hparent, hparams]
  · have hsome : block.body.genesisConsensusParams.isSome = true := Option.isSome_iff_ne_none.mpr hparams
    simp [hheight, hpos, hparams, hsome]

/-! ## Blocks of a node -/

namespace Chain

/-- The blocks are the same, or one more, which the gate has found valid on the
last. -/
def Gated (self next : Chain) : Prop :=
  next.blocks = self.blocks
    ∨ ∃ parent block state, self.blocks.getLast? = some parent
      ∧ block.header.height = saturatingAdd parent.header.height 1
      ∧ validateCpog block state parent.header.blockId = .valid
      ∧ next.blocks = self.blocks ++ [block]

theorem gated_importBlock (self : Chain) (block : Block) : self.Gated (self.importBlock block).2 := by
  have hchain := self.validateCandidateBlock_chain block
  unfold importBlock
  rcases hverdict : self.validateCandidateBlock block with ⟨e | ⟨⟩, chain⟩
  · rw [hverdict] at hchain
    obtain rfl : chain = _ := hchain
    exact Or.inl rfl
  · obtain ⟨parent, htip, hcandidate, hvalid⟩ := validateCandidateBlock_eq_ok_iff.mp
      (congrArg Prod.fst hverdict)
    rw [hverdict] at hchain
    obtain rfl : chain = _ := hchain
    dsimp only
    split
    · exact Or.inl rfl
    · split
      · exact Or.inl rfl
      · exact Or.inr ⟨parent, block, _, htip, hcandidate.height, hvalid, rfl⟩

theorem gated_produceBlock (self : Chain) (wallHint : UInt64) :
    self.Gated (self.produceBlock wallHint).2 := by
  unfold produceBlock
  split
  · exact Or.inl rfl
  · rename_i parent htip
    dsimp only
    split
    · exact Or.inl rfl
    · split
      · exact Or.inl rfl
      · unfold produceOn
        rcases self.admission with ⟨loop, mempool⟩
        dsimp only
        split
        · exact Or.inl rfl
        · rename_i applied hspec
          split
          · exact Or.inl rfl
          · rename_i block hassemble
            split
            · exact Or.inl rfl
            · rename_i hgate
              obtain ⟨receipts, -, rfl⟩ := assemble_eq_ok hassemble
              exact Or.inr ⟨parent, _, _, htip, rfl, cpogResult_eq_ok_iff.mp hgate, rfl⟩

theorem gated_act (self : Chain) (op : BlockOp) : self.Gated (self.act op) := by
  cases op with
  | gate block parentId => exact Or.inl rfl
  | candidate block =>
      show self.Gated (self.validateCandidateBlock block).2
      rw [validateCandidateBlock_chain]
      exact Or.inl rfl
  | build wallHint => exact Or.inl rfl
  | produce wallHint => exact self.gated_produceBlock wallHint
  | importBlock block => exact self.gated_importBlock block

theorem gated_replica (self : Chain) (op : ReplicaOp) : self.Gated (self.replica op) := by
  cases op with
  | block op => exact self.gated_act op
  | submit tx =>
      left
      show (orKeep self (self.submitTransition tx)).blocks = _
      unfold submitTransition
      rcases self.mempool.add tx with e | mempool <;> rfl
  | validators validators => exact Or.inl rfl
  | restart validatorKey =>
      left
      show (orKeep self (fromBlocks validatorKey self.blocks)).blocks = _
      rcases hblocks : self.blocks with _ | ⟨genesis, rest⟩
      · exact hblocks
      · rcases hrebuilt : fromBlocks validatorKey (genesis :: rest) with e | rebuilt
        · exact hblocks
        · obtain ⟨start, replayed, -, -, rfl⟩ := fromBlocks_cons_eq_ok_iff.mp hrebuilt
          rfl

/-! ## From genesis on -/

/-- What a chain says about its blocks: each but the first is one above the last
and went through the gate on it. -/
structure Stacked (genesis : Block) (blocks : List Block) : Prop where
  first : blocks[0]? = some genesis
  height : ∀ i (a b : Block), blocks[i]? = some a → blocks[i + 1]? = some b →
    b.header.height = saturatingAdd a.header.height 1
  valid : ∀ i (a b : Block), blocks[i]? = some a → blocks[i + 1]? = some b →
    ∃ state, validateCpog b state a.header.blockId = .valid

theorem Stacked.gated {genesis : Block} {self next : Chain} (h : Stacked genesis self.blocks)
    (hnext : self.Gated next) : Stacked genesis next.blocks := by
  rcases hnext with hsame | ⟨parent, block, state, htip, hheight, hvalid, hmore⟩
  · exact hsame ▸ h
  · have hlast : ∀ i a b, (self.blocks ++ [block])[i]? = some a →
        (self.blocks ++ [block])[i + 1]? = some b →
          self.blocks[i]? = some a ∧ self.blocks[i + 1]? = some b ∨ a = parent ∧ b = block := by
      intro i a b ha hb
      have hlt := (List.getElem?_eq_some_iff.mp hb).1
      rw [List.length_append, List.length_singleton] at hlt
      rw [List.getElem?_append_left (by omega)] at ha
      rcases Nat.lt_or_ge (i + 1) self.blocks.length with hin | hend
      · rw [List.getElem?_append_left hin] at hb
        exact Or.inl ⟨ha, hb⟩
      · have hi : i + 1 = self.blocks.length := by omega
        rw [hi, List.getElem?_concat_length] at hb
        rw [List.getLast?_eq_getElem?, ← hi, Nat.add_sub_cancel, ha] at htip
        exact Or.inr ⟨Option.some.inj htip, (Option.some.inj hb).symm⟩
    have hpos := (List.getElem?_eq_some_iff.mp h.first).1
    rw [hmore]
    refine ⟨?_, fun i a b ha hb => ?_, fun i a b ha hb => ?_⟩
    · rw [List.getElem?_append_left hpos]
      exact h.first
    · rcases hlast i a b ha hb with ⟨ha, hb⟩ | ⟨rfl, rfl⟩
      · exact h.height i a b ha hb
      · exact hheight
    · rcases hlast i a b ha hb with ⟨ha, hb⟩ | ⟨rfl, rfl⟩
      · exact h.valid i a b ha hb
      · exact ⟨state, hvalid⟩

theorem Stacked.toNat_height {genesis : Block} {blocks : List Block} (h : Stacked genesis blocks)
    (hgenesis : genesis.header.height = 0) (hwide : blocks.length ≤ 2 ^ 64) (i : Nat) (b : Block)
    (hb : blocks[i]? = some b) : b.header.height.toNat = i := by
  induction i generalizing b with
  | zero =>
      rw [h.first] at hb
      rw [← Option.some.inj hb, hgenesis]
      rfl
  | succ i ih =>
      have hlt := (List.getElem?_eq_some_iff.mp hb).1
      have ha : blocks[i]? = some blocks[i] := List.getElem?_eq_getElem (by omega)
      have hone : (1 : UInt64).toNat = 1 := rfl
      rw [h.height i _ b ha hb, toNat_saturatingAdd, ih _ ha, hone]
      omega

/-- Whether the blocks of a chain pass the check on reading. -/
theorem Stacked.gapless_iff {genesis : Block} {blocks : List Block} (h : Stacked genesis blocks)
    (hgenesis : Follows [] genesis) (hwide : blocks.length ≤ 2 ^ 64) :
    Gapless blocks ↔ ∀ block ∈ blocks.tail,
      block.body.genesisConsensusParams = none ∧ block.header.parentId ≠ zeroHash := by
  have hheight := h.toNat_height hgenesis.height hwide
  have hlater : ∀ i b, blocks[i + 1]? = some b → (b.isStructurallyValid = true
      ↔ b.body.genesisConsensusParams = none ∧ b.header.parentId ≠ zeroHash) := by
    intro i b hb
    have hlt := (List.getElem?_eq_some_iff.mp hb).1
    obtain ⟨state, hvalid⟩ := h.valid i _ b (List.getElem?_eq_getElem (by omega)) hb
    refine isStructurallyValid_iff_of_valid hvalid ?_
    rw [GT.gt, UInt64.lt_iff_toNat_lt, hheight _ b hb]
    exact Nat.succ_pos i
  constructor
  · intro hgapless block hblock
    obtain ⟨i, hi⟩ := List.getElem?_of_mem hblock
    rw [List.getElem?_tail] at hi
    exact (hlater i block hi).mp (hgapless _ block hi).structure_valid
  · intro hclean i block hi
    cases i with
    | zero =>
        rw [h.first] at hi
        obtain rfl := Option.some.inj hi
        exact hgenesis
    | succ i =>
        have hlt := (List.getElem?_eq_some_iff.mp hi).1
        have ha : blocks[i]? = some blocks[i] := List.getElem?_eq_getElem (by omega)
        have hmem : block ∈ blocks.tail := List.mem_of_getElem? (i := i) (by rwa [List.getElem?_tail])
        refine ⟨(hlater i block hi).mpr (hclean block hmem), ?_, fun prev hprev => ?_⟩
        · rw [List.length_take, Nat.min_eq_left hlt.le, ← hheight _ block hi, UInt64.ofNat_toNat]
        · obtain ⟨state, hvalid⟩ := h.valid i _ block ha hi
          have hpos : block.header.height ≠ 0 := by
            intro hzero
            have hnat := hheight _ block hi
            rw [hzero] at hnat
            cases hnat
          rw [List.getLast?_take, if_neg (Nat.succ_ne_zero i), Nat.add_sub_cancel, ha] at hprev
          rw [parentId_of_cpogValid (validateCpog_eq_valid_iff.mp hvalid) hpos]
          exact congrArg (·.header.blockId) (Option.some.inj hprev)

theorem stacked_run {start : Chain} {genesis : Block} (hstart : start.blocks = [genesis])
    (ops : List ReplicaOp) : Stacked genesis (ops.foldl replica start).blocks := by
  have hfirst : Stacked genesis start.blocks := by
    rw [hstart]
    refine ⟨rfl, fun i a b _ hb => ?_, fun i a b _ hb => ?_⟩ <;> simp at hb
  exact (throughout_of_step (I := fun chain : Chain => Stacked genesis chain.blocks)
    (fun self op h => h.gated (self.gated_replica op)) hfirst).last

/-- A node that saved its chain can read it again unless a block carries what only
genesis may, or names the zero id as its parent. -/
theorem loadAllBlocks_run_iff {Text : Type} {format : BlockFormat Text} {start : Chain}
    {genesis : Block} (hstart : start.blocks = [genesis]) (hgenesis : Follows [] genesis)
    (ops : List ReplicaOp) (hroom : (ops.foldl replica start).blocks.length ≤ 10 ^ 10)
    {files : Std.ExtTreeMap Bytes Text} (hfiles : Holds format files (ops.foldl replica start).blocks) :
    loadAllBlocks format files = .ok (ops.foldl replica start).blocks
      ↔ ∀ block ∈ (ops.foldl replica start).blocks.tail,
        block.body.genesisConsensusParams = none ∧ block.header.parentId ≠ zeroHash := by
  have hstacked := stacked_run hstart ops
  have hwide := hroom.trans (by norm_num : 10 ^ 10 ≤ 2 ^ 64)
  rw [← hstacked.gapless_iff hgenesis hwide]
  exact ⟨gapless_of_loadAllBlocks hfiles,
    fun hgapless => (loadAllBlocks_eq_ok_iff hfiles hgapless hroom (List.Sublist.refl _)).mpr
      ⟨rfl, List.prefix_refl _⟩⟩

end Chain

end

/-! ## Parameters where none belong -/

/-- A block as a peer may pass it on: header, proof and signature are untouched. -/
def smuggling (block : Block) : Block :=
  { block with body := { block.body with genesisConsensusParams := some [] } }

/-- The second block comes in as it is, or with parameters of genesis. -/
def honestRun : List Chain.ReplicaOp := [.block (.importBlock secondBlock)]

def smuggledRun : List Chain.ReplicaOp := [.block (.importBlock (smuggling secondBlock))]

/-- Both are imported. -/
theorem smuggled_imported :
    genesisChain.blocks = [firstBlock] ∧ Follows [] firstBlock
      ∧ (honestRun.foldl (@Chain.replica polyCrypto) genesisChain).blocks = [firstBlock, secondBlock]
      ∧ (smuggledRun.foldl (@Chain.replica polyCrypto) genesisChain).blocks
        = [firstBlock, smuggling secondBlock]
      ∧ firstBlock.header.height < secondBlock.header.height
      ∧ firstBlock.header.height < (smuggling secondBlock).header.height
      ∧ secondBlock.body.genesisConsensusParams = none ∧ secondBlock.header.parentId ≠ zeroHash
      ∧ (smuggling secondBlock).body.genesisConsensusParams ≠ none := by
  decide +kernel

/-- Only one of the two chains is read again. -/
theorem loadAllBlocks_run_iff_smuggled :
    loadAllBlocks plainFormat (filesOf plainFormat [firstBlock, secondBlock])
        = .ok [firstBlock, secondBlock]
      ∧ (smuggledRun.foldl (@Chain.replica polyCrypto) genesisChain).blocks
        = [firstBlock, smuggling secondBlock]
      ∧ loadAllBlocks plainFormat (filesOf plainFormat [firstBlock, smuggling secondBlock])
        ≠ .ok [firstBlock, smuggling secondBlock] := by
  obtain ⟨hstart, hgenesis, hhonest, hsmuggled, hlt, hlt', hnone, hparent, hsome⟩ := smuggled_imported
  have hreads (ops : List Chain.ReplicaOp) (last : Block)
      (hblocks : (ops.foldl (@Chain.replica polyCrypto) genesisChain).blocks = [firstBlock, last])
      (hrising : firstBlock.header.height < last.header.height) :
      loadAllBlocks plainFormat (filesOf plainFormat [firstBlock, last]) = .ok [firstBlock, last]
        ↔ last.body.genesisConsensusParams = none ∧ last.header.parentId ≠ zeroHash := by
    have hfiles : Holds plainFormat (filesOf plainFormat [firstBlock, last])
        (ops.foldl (@Chain.replica polyCrypto) genesisChain).blocks := by
      rw [hblocks]
      exact holds_filesOf (List.pairwise_pair.mpr hrising)
    have hroom : (ops.foldl (@Chain.replica polyCrypto) genesisChain).blocks.length ≤ 10 ^ 10 := by
      rw [hblocks]
      norm_num
    have hiff := @Chain.loadAllBlocks_run_iff polyCrypto _ _ _ _ hstart hgenesis ops hroom _ hfiles
    rw [hblocks] at hiff
    simpa using hiff
  refine ⟨(hreads honestRun secondBlock hhonest hlt).mpr ⟨hnone, hparent⟩, hsmuggled, fun hload => ?_⟩
  exact hsome ((hreads smuggledRun (smuggling secondBlock) hsmuggled hlt').mp hload).1

end Sccgub
