import Mathlib
import Sccgub.Execution.KeyCheck
import Sccgub.Node.Produce
import Sccgub.Node.Reconstruct

/-!
# Linkage of reconstructed chains

What a list of blocks that a chain was reconstructed from says about itself.
Every later block went through the gate against the one before it, and the gate
asks for the parent link of every block above height zero.  Heights and ids are
not compared with anything, so the blocks are linked when these are as they
should be.
-/

namespace Sccgub

open Bincode FixedWidth Fallible

section

variable [Crypto]

/-- The id that the rest of a header stands for. -/
def headerId (header : BlockHeader) : Hash :=
  canonicalHash BlockHeader.codec { header with blockId := zeroHash }

/-- Heights count up from zero; every later block names the one before it and
is named by its own contents.  None but the first is at height zero, where the
gate skips the replay. -/
structure Linked (blocks : List Block) : Prop where
  height : ∀ i (b : Block), blocks[i]? = some b → b.header.height.toNat = i
  parent : ∀ i (a b : Block), blocks[i]? = some a → blocks[i + 1]? = some b →
    b.header.parentId = a.header.blockId
  blockId : ∀ i (b : Block), blocks[i + 1]? = some b → b.header.blockId = headerId b.header
  replayed : ∀ i (b : Block), blocks[i + 1]? = some b → b.header.height > 0

/-- Every block one above the block before it. -/
def Consecutive (blocks : List Block) : Prop :=
  ∀ i (a b : Block), blocks[i]? = some a → blocks[i + 1]? = some b →
    b.header.height.toNat = a.header.height.toNat + 1

/-- Every later block under the id of its own contents. -/
def Named (blocks : List Block) : Prop :=
  ∀ i (b : Block), blocks[i + 1]? = some b → b.header.blockId = headerId b.header

/-- Above height zero the gate asks for the parent link. -/
theorem parentId_of_cpogValid {block : Block} {state : ManagedWorldState} {parentId : Hash}
    (h : CpogValid block state parentId) (hheight : block.header.height ≠ 0) :
    block.header.parentId = parentId := by
  have hrow := h.header (parentRow block parentId) List.mem_cons_self
  rw [parentRow, if_neg hheight] at hrow
  exact not_not.mp (of_decide_eq_false hrow)

/-- Each block of a replay went through the gate with the id of the one before
it. -/
theorem validateCpog_of_replayAll {chainId : Hash} {blockVersion : UInt32} {parent : Block}
    {acc replayed : Replayed} {rest : List Block}
    (h : replayAll chainId blockVersion parent.header.blockId acc rest = .ok replayed)
    {i : Nat} {a b : Block} (ha : (parent :: rest)[i]? = some a)
    (hb : (parent :: rest)[i + 1]? = some b) :
    ∃ state, validateCpog b state a.header.blockId = .valid := by
  induction rest generalizing parent acc i with
  | nil => simp at hb
  | cons block rest ih =>
      obtain ⟨next, hnext, hrest⟩ := replayAll_cons_eq_ok_iff.mp h
      cases i with
      | zero =>
          obtain rfl : parent = a := by simpa using ha
          obtain rfl : block = b := by simpa using hb
          exact ⟨acc.state, (replayNext_eq_ok_iff.mp hnext).2.2.2.1⟩
      | succ i => exact ih hrest (by simpa using ha) (by simpa using hb)

omit [Crypto] in
theorem height_of_consecutive {blocks : List Block} (hconsecutive : Consecutive blocks)
    (hfirst : ∀ b, blocks[0]? = some b → b.header.height = 0) (i : Nat) (b : Block)
    (hb : blocks[i]? = some b) : b.header.height.toNat = i := by
  induction i generalizing b with
  | zero => rw [hfirst b hb, UInt64.toNat_zero]
  | succ i ih =>
      have hlt : i < blocks.length := by
        have := (List.getElem?_eq_some_iff.mp hb).1
        omega
      have ha : blocks[i]? = some blocks[i] := List.getElem?_eq_getElem hlt
      rw [hconsecutive i _ b ha hb, ih _ ha]

/-- The blocks of a reconstructed chain are linked exactly when their heights
leave no gap and repeat none, and their ids are those of their contents: the
parent links then hold by the gate. -/
theorem linked_iff_of_fromBlocks {validatorKey : ValidatorKey} {blocks : List Block}
    {chain : Chain} (h : Chain.fromBlocks validatorKey blocks = .ok chain) :
    Linked blocks ↔ Consecutive blocks ∧ Named blocks := by
  constructor
  · intro hlinked
    refine ⟨fun i a b ha hb => ?_, hlinked.blockId⟩
    rw [hlinked.height i a ha, hlinked.height (i + 1) b hb]
  · rintro ⟨hconsecutive, hnamed⟩
    rcases blocks with _ | ⟨genesis, rest⟩
    · cases h
    obtain ⟨start, replayed, hstart, hreplay, -⟩ := Chain.fromBlocks_cons_eq_ok_iff.mp h
    have hheight := height_of_consecutive hconsecutive fun b hb => by
      obtain rfl : genesis = b := by simpa using hb
      exact (replayGenesis_eq_ok_iff.mp hstart).1
    have hpos : ∀ i b, (genesis :: rest)[i + 1]? = some b → b.header.height ≠ 0 := by
      intro i b hb hzero
      have hnat := hheight (i + 1) b hb
      rw [hzero, UInt64.toNat_zero] at hnat
      omega
    refine ⟨hheight, fun i a b ha hb => ?_, hnamed, fun i b hb => UInt64.pos_iff_ne_zero.mpr
      (hpos i b hb)⟩
    obtain ⟨state, hvalid⟩ := validateCpog_of_replayAll hreplay ha hb
    exact parentId_of_cpogValid (validateCpog_eq_valid_iff.mp hvalid) (hpos i b hb)

end

/-! ## A block on genesis, and genesis on itself -/

/-- Signs as `polyCrypto` verifies. -/
def polyKey (publicKey : Hash) : ValidatorKey where
  publicKey
  sign := polySign publicKey

def nodeKey : ValidatorKey := polyKey (Hash.ofByte 9)

def genesisChain : Chain :=
  @Chain.init polyCrypto canonicalAgentBlockVersion .deterministic nodeKey

/-- Genesis with an empty block on it. -/
def twoBlocks : List Block := (@Chain.produceBlock polyCrypto genesisChain 0).2.blocks

/-- The first block once more: it passes the gate as a second block. -/
def repeatedGenesis : List Block := genesisChain.blocks ++ genesisChain.blocks

theorem linked_iff_of_fromBlocks_twoBlocks :
    twoBlocks.length = 2
      ∧ (∃ chain, @Chain.fromBlocks polyCrypto nodeKey twoBlocks = .ok chain)
      ∧ @Linked polyCrypto twoBlocks := by
  have hlength : twoBlocks.length = 2 := by decide +kernel
  have hheights : twoBlocks.map (·.header.height.toNat) = [0, 1] := by decide +kernel
  have hids : (twoBlocks.drop 1).map (·.header.blockId)
      = (twoBlocks.drop 1).map fun b => @headerId polyCrypto b.header := by decide +kernel
  obtain ⟨chain, hchain⟩ : ∃ chain, @Chain.fromBlocks polyCrypto nodeKey twoBlocks = .ok chain :=
    exists_ok_of_isOk (by decide +kernel)
  refine ⟨hlength, ⟨chain, hchain⟩,
    (@linked_iff_of_fromBlocks polyCrypto _ _ _ hchain).mpr ⟨fun i a b ha hb => ?_, fun i b hb => ?_⟩⟩
  · have hi : i = 0 := by
      have := (List.getElem?_eq_some_iff.mp hb).1
      omega
    subst hi
    have h₀ := congrArg (fun l => l[0]?) hheights
    have h₁ := congrArg (fun l => l[1]?) hheights
    simp only [List.getElem?_map, ha, hb] at h₀ h₁
    simp_all
  · have hi := congrArg (fun l => l[i]?) hids
    simp only [List.getElem?_map, List.getElem?_drop, Nat.add_comm 1 i, hb] at hi
    simpa using hi

theorem repeatedGenesis_accepted :
    (∃ chain, @Chain.fromBlocks polyCrypto nodeKey repeatedGenesis = .ok chain)
      ∧ ¬ @Linked polyCrypto repeatedGenesis := by
  refine ⟨exists_ok_of_isOk (by decide +kernel), fun hlinked => ?_⟩
  have hpos := @Linked.replayed polyCrypto _ hlinked 0 _ (show repeatedGenesis[1]? = some _ from rfl)
  exact absurd hpos (by decide +kernel)

end Sccgub
