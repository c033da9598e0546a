import Mathlib
import Sccgub.Node.GovernanceReplay
import Sccgub.Node.GovernanceRuns
import Sccgub.Node.Linkage
import Sccgub.Node.Steps

/-!
# Finality as a function of the blocks

The node that produces a block looks for final blocks after governance, with the
block in place; a node that imports it looks before governance, without the
block; a node that is rebuilt from its blocks looks once, by the settings that the
last block carries.  As long as the depth is two or more and does not move under
them, the three find the same height.

What an operation does to the finalized height is said once, by
`importBlock_looks` and `produceBlock_looks`.  A chain is `Settled` when the height
is what one look from its last block finds; rebuilding starts like that
(`settled_fromBlocks`), and steady operations keep it (`settled_act`,
`settled_replica`, `settled_run`).  `depth_one_disagrees` has the two nodes that part at
depth one.
-/

namespace Sccgub

open Bincode FixedWidth Fallible Runs FinalityTracker

/-! ## Settled heights -/

def snapshotDepth (block : Block) : UInt64 := block.governance.finalityConfig.confirmationDepth

/-- The height that is final under a tip when all blocks are known. -/
def settledAt (height depth : UInt64) : Nat :=
  min (height.toNat + 1 - depth.toNat) height.toNat

/-- At this height nothing tells the two depths apart: they are the same, or too
large for anything to be final. -/
def Alike (height depth depth' : UInt64) : Prop :=
  depth' = depth ∨ height < depth ∧ height < depth'

instance decidableAlike (height depth depth' : UInt64) : Decidable (Alike height depth depth') :=
  inferInstanceAs (Decidable (depth' = depth ∨ height < depth ∧ height < depth'))

theorem settledAt_alike {height depth depth' : UInt64} (h : Alike height depth depth') :
    settledAt height depth' = settledAt height depth := by
  rcases h with rfl | ⟨hlt, hlt'⟩
  · rfl
  · have hlt := UInt64.lt_iff_toNat_lt.mp hlt
    have hlt' := UInt64.lt_iff_toNat_lt.mp hlt'
    unfold settledAt
    omega

theorem knownBelow_blockIdAt (blocks : List Block) :
    KnownBelow (Chain.blockIdAt blocks) blocks.length := by
  intro height
  simp [Chain.blockIdAt]

/-- Where finality by depth arrives. -/
theorem finalizedHeight_advanceFinality {finality : FinalityTracker} {mode : FinalityMode}
    (hmode : mode = .deterministic) (config : FinalityConfig) (blocks : List Block)
    {height : UInt64} (htip : height.toNat < 2 ^ 64 - 1) :
    (Chain.advanceFinality finality mode config blocks height).finalizedHeight.toNat
      = max finality.finalizedHeight.toNat (reach config blocks.length height) := by
  subst hmode
  exact finalizedHeight_checkFinality (knownBelow_blockIdAt blocks) (finality.onNewBlock height)
    htip

/-- The depth is large enough for a block that is not there yet not to matter. -/
theorem reach_of_deep {config : FinalityConfig} (hdeep : 2 ≤ config.confirmationDepth)
    (height : UInt64) : reach config height.toNat height = settledAt height config.confirmationDepth := by
  have hdeep := UInt64.le_iff_toNat_le.mp hdeep
  have htwo : (2 : UInt64).toNat = 2 := rfl
  unfold reach settledAt
  omega

/-! ## Governance of the blocks -/

section

variable [Crypto]

def noGovernance : GovernanceContext where
  proposals := {}
  governanceState := default
  governanceLimits := {}
  finalityConfig := {}
  validatorSet := []
  consensusParams := {}

def replayOn (ctx : GovernanceContext) (block : Block) : GovernanceContext :=
  replayGovernanceFromTransitions keepValidators none block.body.transitions block.header.height ctx

/-- Of the blocks after the first; registry and mode are what it is about. -/
def governanceOf (blocks : List Block) : GovernanceContext :=
  blocks.tail.foldl replayOn noGovernance

theorem governanceOf_concat {blocks : List Block} (hne : blocks ≠ []) (block : Block) :
    governanceOf (blocks ++ [block]) = replayOn (governanceOf blocks) block := by
  rw [governanceOf, List.tail_append_of_ne_nil hne, List.foldl_append]
  rfl

def Replayed.governanceContext (self : Replayed) : GovernanceContext where
  proposals := self.proposals
  governanceState := self.state.governanceState
  governanceLimits := self.governanceLimits
  finalityConfig := self.finalityConfig
  validatorSet := []
  consensusParams := self.state.consensusParams

theorem sameMode_governed {ctx : GovernanceContext} {self : Replayed}
    (h : SameMode ctx self.governanceContext) (block : Block) :
    SameMode (replayOn ctx block)
      (self.governed block.body.transitions block.header.height).governanceContext := by
  obtain ⟨hproposals, hmode⟩ := h.replay keepValidators keepValidators none
    (Chain.ceilingsOf self.state) block.body.transitions block.header.height
  refine ⟨hproposals, ?_⟩
  rw [← replayOn] at hmode
  rw [← hmode]
  exact congrArg GovernanceState.finalityMode (Chain.governedState_fields self.state _).1

theorem sameMode_replayNext {chainId : Hash} {blockVersion : UInt32} {parentId : Hash}
    {ctx : GovernanceContext} {acc next : Replayed} {block : Block}
    (h : SameMode ctx acc.governanceContext)
    (hnext : replayNext chainId blockVersion parentId acc block = .ok next) :
    SameMode (replayOn ctx block) next.governanceContext := by
  obtain ⟨-, -, -, -, state, applied, hnonces, happly, rfl⟩ := replayNext_eq_ok_iff.mp hnext
  have happlied : applied.state.governanceState = acc.state.governanceState := by
    rw [applyBlock_eq happly, ManagedWorldState.validateNonces_frame hnonces]
    rfl
  have hmode : applied.state.governanceState.finalityMode = ctx.governanceState.finalityMode := by
    rw [happlied]
    exact h.finalityMode
  exact @sameMode_governed _ ctx { acc with
    state := applied.state.setHeight block.header.height
    balances := applied.balances
    treasury := applied.treasury } ⟨h.proposals, hmode⟩ block

theorem sameMode_replayAll {chainId : Hash} {blockVersion : UInt32} {parentId : Hash}
    {ctx : GovernanceContext} {acc replayed : Replayed} {rest : List Block}
    (h : SameMode ctx acc.governanceContext)
    (hall : replayAll chainId blockVersion parentId acc rest = .ok replayed) :
    SameMode (rest.foldl replayOn ctx) replayed.governanceContext := by
  induction rest generalizing parentId ctx acc with
  | nil =>
      obtain rfl := Except.ok.inj hall
      exact h
  | cons block rest ih =>
      obtain ⟨next, hnext, hrest⟩ := replayAll_cons_eq_ok_iff.mp hall
      exact ih (sameMode_replayNext h hnext) hrest

theorem finalityMode_initializeGenesisState (blockVersion : UInt32) (validatorPublicKey : Hash)
    (params : ConsensusParams) (mode : FinalityMode) :
    (initializeGenesisState blockVersion validatorPublicKey params mode).1.governanceState.finalityMode
      = mode := by
  unfold initializeGenesisState applyGenesisMint commitConsensusParams
  simp only [ManagedWorldState.applyDelta_writes]
  rfl

theorem sameMode_replayGenesis {genesis : Block} {start : Replayed}
    (h : replayGenesis genesis = .ok start) : SameMode noGovernance start.governanceContext := by
  obtain ⟨-, -, params, -, -, state, balances, hinit, -, rfl⟩ := replayGenesis_eq_ok_iff.mp h
  refine ⟨rfl, ?_⟩
  have hmode := finalityMode_initializeGenesisState genesis.header.version
    genesis.header.validatorId params .deterministic
  rw [hinit] at hmode
  exact hmode

namespace Chain

/-! ## Settled chains -/

/-- Finality as the last block has it: the finalized height goes by the depth that
the block carries, and the depth in force makes no difference to it. -/
structure Settled (chain : Chain) (last : Block) : Prop where
  tip : chain.blocks.getLast? = some last
  position : chain.blocks.length = last.header.height.toNat + 1
  bounded : last.header.height.toNat < 2 ^ 64 - 1
  finalized : chain.finality.finalizedHeight.toNat
    = settledAt last.header.height (snapshotDepth last)
  depth : settledAt last.header.height chain.finalityConfig.confirmationDepth
    = settledAt last.header.height (snapshotDepth last)
  governed : SameMode (governanceOf chain.blocks) chain.governanceContext

/-- A chain rebuilt from blocks that count up is settled. -/
theorem settled_fromBlocks {validatorKey : ValidatorKey} {blocks : List Block} {rebuilt : Chain}
    (h : fromBlocks validatorKey blocks = .ok rebuilt) {last : Block}
    (hlast : blocks.getLast? = some last) (hposition : blocks.length = last.header.height.toNat + 1)
    (hbounded : last.header.height.toNat < 2 ^ 64 - 1)
    (hmode : (governanceOf blocks).governanceState.finalityMode = .deterministic) :
    rebuilt.Settled last ∧ rebuilt.blocks = blocks := by
  rcases blocks with _ | ⟨genesis, rest⟩
  · cases h
  obtain ⟨start, replayed, hstart, hreplay, rfl⟩ := fromBlocks_cons_eq_ok_iff.mp h
  have hsame := sameMode_replayAll (sameMode_replayGenesis hstart) hreplay
  obtain rfl : rest.getLast?.getD genesis = last := by
    rw [List.getLast?_cons] at hlast
    exact Option.some_inj.mp hlast
  have hdeterministic : replayed.state.governanceState.finalityMode = .deterministic :=
    hsame.finalityMode.trans hmode
  refine ⟨⟨hlast, hposition, hbounded, ?_, rfl, hsame.proposals, hsame.finalityMode⟩, rfl⟩
  unfold ofReplayed
  dsimp only
  rw [finalizedHeight_advanceFinality hdeterministic _ _ hbounded, reach, hposition]
  exact Nat.zero_max _

/-! ## Blocks -/

/-- What an operation on blocks does to finality: nothing without a block more,
and otherwise one of two things. -/
inductive Advances (self next : Chain) : Prop
  | stayed (blocks : next.blocks = self.blocks) (finality : next.finality = self.finality)
  | imported (parent block : Block) (tip : self.blocks.getLast? = some parent)
      (height : block.header.height = saturatingAdd parent.header.height 1)
      (blocks : next.blocks = self.blocks ++ [block])
      (finality : next.finality = advanceFinality self.finality
        self.state.governanceState.finalityMode self.finalityConfig self.blocks block.header.height)
  | produced (parent block : Block) (tip : self.blocks.getLast? = some parent)
      (height : block.header.height = saturatingAdd parent.header.height 1)
      (blocks : next.blocks = self.blocks ++ [block])
      (finality : next.finality = advanceFinality self.finality
        next.state.governanceState.finalityMode next.finalityConfig next.blocks block.header.height)

/-- An import looks for final blocks as the chain was: by its depth, among the
blocks below the new one. -/
theorem importBlock_looks (self : Chain) (block : Block) :
    ((self.importBlock block).2.blocks = self.blocks
        ∧ (self.importBlock block).2.finality = self.finality)
      ∨ ∃ parent, self.blocks.getLast? = some parent
        ∧ block.header.height = saturatingAdd parent.header.height 1
        ∧ (self.importBlock block).2.blocks = self.blocks ++ [block]
        ∧ (self.importBlock block).2.finality = advanceFinality self.finality
          self.state.governanceState.finalityMode self.finalityConfig self.blocks
          block.header.height := by
  have hchain := self.validateCandidateBlock_chain block
  unfold importBlock
  rcases hverdict : self.validateCandidateBlock block with ⟨e | ⟨⟩, chain⟩
  · rw [hverdict] at hchain
    obtain rfl : chain = _ := hchain
    exact Or.inl ⟨rfl, rfl⟩
  · obtain ⟨parent, htip, hcandidate, -⟩ := validateCandidateBlock_eq_ok_iff.mp
      (congrArg Prod.fst hverdict)
    rw [hverdict] at hchain
    obtain rfl : chain = _ := hchain
    dsimp only
    split
    · exact Or.inl ⟨rfl, rfl⟩
    · rename_i state hnonces
      split
      · exact Or.inl ⟨rfl, rfl⟩
      · rename_i applied happly
        refine Or.inr ⟨parent, htip, hcandidate.height, rfl, ?_⟩
        have hmode : (recordTension block.header.version block.header.tensionAfter
            applied.state).governanceState = self.state.governanceState := by
          rw [recordTension_eq, applyBlock_eq happly, ManagedWorldState.validateNonces_frame hnonces]
          rfl
        show advanceFinality self.finality (recordTension block.header.version
          block.header.tensionAfter applied.state).governanceState.finalityMode _ _ _ = _
        rw [hmode]
        rfl

theorem advances_importBlock (self : Chain) (block : Block) :
    self.Advances (self.importBlock block).2 := by
  rcases self.importBlock_looks block with ⟨hblocks, hfinality⟩ |
    ⟨parent, htip, hheight, hblocks, hfinality⟩
  · exact .stayed hblocks hfinality
  · exact .imported parent block htip hheight hblocks hfinality

/-- Production looks with the block in place, by the depth after its governance. -/
theorem produceBlock_looks (self : Chain) (wallHint : UInt64) :
    ((self.produceBlock wallHint).2.blocks = self.blocks
        ∧ (self.produceBlock wallHint).2.finality = self.finality)
      ∨ ∃ parent block, self.blocks.getLast? = some parent
        ∧ block.header.height = saturatingAdd parent.header.height 1
        ∧ (self.produceBlock wallHint).2.blocks = self.blocks ++ [block]
        ∧ (self.produceBlock wallHint).2.finality = advanceFinality self.finality
          (self.produceBlock wallHint).2.state.governanceState.finalityMode
          (self.produceBlock wallHint).2.finalityConfig (self.produceBlock wallHint).2.blocks
          block.header.height := by
  unfold produceBlock
  split
  · exact Or.inl ⟨rfl, rfl⟩
  · rename_i parent htip
    dsimp only
    split
    · exact Or.inl ⟨rfl, rfl⟩
    · split
      · exact Or.inl ⟨rfl, rfl⟩
      · unfold produceOn
        rcases self.admission with ⟨loop, mempool⟩
        dsimp only
        split
        · exact Or.inl ⟨rfl, rfl⟩
        · rename_i applied hspec
          split
          · exact Or.inl ⟨rfl, rfl⟩
          · rename_i block hassemble
            split
            · exact Or.inl ⟨rfl, rfl⟩
            · obtain ⟨receipts, -, rfl⟩ := assemble_eq_ok hassemble
              exact Or.inr ⟨parent, _, htip, rfl, rfl, rfl⟩

theorem advances_produceBlock (self : Chain) (wallHint : UInt64) :
    self.Advances (self.produceBlock wallHint).2 := by
  rcases self.produceBlock_looks wallHint with ⟨hblocks, hfinality⟩ |
    ⟨parent, block, htip, hheight, hblocks, hfinality⟩
  · exact .stayed hblocks hfinality
  · exact .produced parent block htip hheight hblocks hfinality

theorem advances_act (self : Chain) (op : BlockOp) : self.Advances (self.act op) := by
  cases op with
  | gate block parentId => exact .stayed rfl rfl
  | candidate block =>
      show self.Advances (self.validateCandidateBlock block).2
      rw [validateCandidateBlock_chain]
      exact .stayed rfl rfl
  | build wallHint => exact .stayed rfl rfl
  | produce wallHint => exact self.advances_produceBlock wallHint
  | importBlock block => exact self.advances_importBlock block

/-- The depth after the governance of a block. -/
def governedDepth (self : Chain) (block : Block) : UInt64 :=
  (replayGovernanceFromTransitions applyValidatorChange none block.body.transitions
    block.header.height self.governanceContext).finalityConfig.confirmationDepth

/-- A block under which finality stands still: two blocks of depth at least, and no
other depth that counts, neither on the block nor by its governance. -/
structure SteadyUnder (chain : Chain) (block : Block) : Prop where
  bounded : block.header.height.toNat < 2 ^ 64 - 1
  deep : 2 ≤ chain.finalityConfig.confirmationDepth
  carried : Alike block.header.height chain.finalityConfig.confirmationDepth (snapshotDepth block)
  governed : Alike block.header.height chain.finalityConfig.confirmationDepth
    (chain.governedDepth block)

instance decidableSteadyUnder (self : Chain) (block : Block) : Decidable (self.SteadyUnder block) :=
  decidable_of_iff (block.header.height.toNat < 2 ^ 64 - 1
      ∧ 2 ≤ self.finalityConfig.confirmationDepth
      ∧ Alike block.header.height self.finalityConfig.confirmationDepth (snapshotDepth block)
      ∧ Alike block.header.height self.finalityConfig.confirmationDepth (self.governedDepth block))
    ⟨fun ⟨hbounded, hdeep, hcarried, hgoverned⟩ => ⟨hbounded, hdeep, hcarried, hgoverned⟩,
      fun h => ⟨h.bounded, h.deep, h.carried, h.governed⟩⟩

/-- With one block more the height that was final under the last one moves up by
one at most, so that nothing is lost in taking the larger of the two. -/
theorem Settled.max_settledAt {self : Chain} {last block : Block} (h : self.Settled last)
    (hheight : block.header.height = saturatingAdd last.header.height 1) {depth : UInt64}
    (hdepth : settledAt block.header.height depth
      = settledAt block.header.height self.finalityConfig.confirmationDepth) :
    max self.finality.finalizedHeight.toNat (settledAt block.header.height depth)
      = settledAt block.header.height self.finalityConfig.confirmationDepth := by
  have hone : (1 : UInt64).toNat = 1 := rfl
  have hbounded := h.bounded
  rw [h.finalized, ← h.depth, hdepth, hheight]
  unfold settledAt
  rw [toNat_saturatingAdd]
  omega

theorem Settled.position_succ {self : Chain} {last block : Block} (h : self.Settled last)
    (hheight : block.header.height = saturatingAdd last.header.height 1) :
    block.header.height.toNat = self.blocks.length := by
  have hbounded := h.bounded
  have hone : (1 : UInt64).toNat = 1 := rfl
  rw [hheight, toNat_saturatingAdd, h.position]
  omega

/-- Both ways of taking a block arrive at what its height and the depth say. -/
theorem Settled.finalizedHeight_next {self next : Chain} {last block : Block}
    (h : self.Settled last) (hadvances : self.Advances next)
    (hblocks : next.blocks = self.blocks ++ [block])
    (hmode : self.state.governanceState.finalityMode = .deterministic)
    (hnext : next.state.governanceState.finalityMode = .deterministic)
    (hbounded : block.header.height.toNat < 2 ^ 64 - 1)
    (hdeep : 2 ≤ self.finalityConfig.confirmationDepth)
    (hafter : settledAt block.header.height next.finalityConfig.confirmationDepth
      = settledAt block.header.height self.finalityConfig.confirmationDepth) :
    block.header.height = saturatingAdd last.header.height 1
      ∧ next.finality.finalizedHeight.toNat
        = settledAt block.header.height self.finalityConfig.confirmationDepth := by
  have hthese : ∀ parent b, self.blocks.getLast? = some parent →
      next.blocks = self.blocks ++ [b] → parent = last ∧ b = block := by
    intro parent b hparent hb
    rw [h.tip] at hparent
    rw [hblocks] at hb
    exact ⟨(Option.some_inj.mp hparent).symm, by simpa using hb.symm⟩
  cases hadvances with
  | stayed hb _ =>
      rw [hblocks] at hb
      simp at hb
  | imported parent b htip hheight hb hfinality =>
      obtain ⟨rfl, rfl⟩ := hthese parent b htip hb
      refine ⟨hheight, ?_⟩
      rw [hfinality, finalizedHeight_advanceFinality hmode _ _ hbounded,
        ← h.position_succ hheight, reach_of_deep hdeep]
      exact h.max_settledAt hheight rfl
  | produced parent b htip hheight hb hfinality =>
      obtain ⟨rfl, rfl⟩ := hthese parent b htip hb
      refine ⟨hheight, ?_⟩
      have hknown : next.blocks.length = b.header.height.toNat + 1 := by
        rw [hblocks, List.length_append, h.position_succ hheight, List.length_singleton]
      rw [hfinality, finalizedHeight_advanceFinality hnext _ _ hbounded, hknown]
      exact h.max_settledAt hheight hafter

/-- An operation that adds no block. -/
theorem Settled.stay {self next : Chain} {last : Block} (h : self.Settled last)
    (hblocks : next.blocks = self.blocks) (hfinality : next.finality = self.finality)
    (hctx : next.governanceContext = self.governanceContext) : next.Settled last := by
  have hconfig : next.finalityConfig = self.finalityConfig :=
    congrArg GovernanceContext.finalityConfig hctx
  refine ⟨?_, ?_, h.bounded, ?_, ?_, ?_⟩
  · rw [hblocks]
    exact h.tip
  · rw [hblocks]
    exact h.position
  · rw [hfinality]
    exact h.finalized
  · rw [hconfig]
    exact h.depth
  · rw [hblocks, hctx]
    exact h.governed

theorem settledAt_governed {self next : Chain} {block : Block} (hsteady : self.SteadyUnder block)
    (hctx : next.governanceContext = { replayGovernanceFromTransitions applyValidatorChange
      (ceilingsOf next.state) block.body.transitions block.header.height
      self.governanceContext with mutatedParams := false }) :
    settledAt block.header.height next.finalityConfig.confirmationDepth
      = settledAt block.header.height self.finalityConfig.confirmationDepth := by
  have hlimits : SameLimits self.governanceContext self.governanceContext := ⟨rfl, rfl, rfl⟩
  have hsame := (hlimits.replay applyValidatorChange applyValidatorChange none
    (ceilingsOf next.state) block.body.transitions block.header.height).finalityConfig
  have hconfig : next.finalityConfig = _ := congrArg GovernanceContext.finalityConfig hctx
  rw [hconfig]
  dsimp only
  rw [hsame]
  exact settledAt_alike hsteady.governed

theorem settled_act {self : Chain} {last : Block} (h : self.Settled last) {op : BlockOp}
    (hmode : self.state.governanceState.finalityMode = .deterministic)
    (hnext : (self.act op).state.governanceState.finalityMode = .deterministic)
    (hsteady : ∀ block, (self.act op).blocks = self.blocks ++ [block] → self.SteadyUnder block) :
    ∃ last', (self.act op).Settled last' := by
  have hadvances := self.advances_act op
  rcases self.governed_act op with ⟨hblocks, hctx⟩ | ⟨block, hblocks, hctx⟩
  · refine ⟨last, h.stay hblocks ?_ hctx⟩
    cases hadvances with
    | stayed _ hfinality => exact hfinality
    | imported _ b _ _ hb _ =>
        rw [hblocks] at hb
        simp at hb
    | produced _ b _ _ hb _ =>
        rw [hblocks] at hb
        simp at hb
  · have hsteady := hsteady block hblocks
    have hafter := settledAt_governed hsteady hctx
    have hcarried := settledAt_alike hsteady.carried
    obtain ⟨hheight, hfinalized⟩ := h.finalizedHeight_next hadvances hblocks hmode hnext
      hsteady.bounded hsteady.deep hafter
    refine ⟨block, ?_, ?_, hsteady.bounded, ?_, ?_, ?_⟩
    · rw [hblocks]
      exact List.getLast?_concat
    · rw [hblocks, List.length_append, h.position_succ hheight, List.length_singleton]
    · rw [hfinalized, hcarried]
    · rw [hafter, hcarried]
    · have hne : self.blocks ≠ [] := List.ne_nil_of_mem (List.mem_of_getLast? h.tip)
      rw [hblocks, governanceOf_concat hne, hctx]
      have hreplay := h.governed.replay keepValidators applyValidatorChange none
        (ceilingsOf (self.act op).state) block.body.transitions block.header.height
      exact ⟨hreplay.proposals, hreplay.finalityMode⟩

/-! ## Nodes -/

/-- What a node does: operations on blocks, a transition or a validator set from
outside, and a restart from its own blocks. -/
inductive ReplicaOp where
  | block (op : BlockOp)
  | submit (tx : SymbolicTransition)
  | validators (validators : List ValidatorAuthority)
  | restart (validatorKey : ValidatorKey)

def replica (self : Chain) : ReplicaOp → Chain
  | .block op => self.act op
  | .submit tx => orKeep self (self.submitTransition tx)
  | .validators validators => self.setValidatorSet validators
  | .restart validatorKey => orKeep self (fromBlocks validatorKey self.blocks)

/-- Blocks are taken under `SteadyUnder`. -/
def Steady (self : Chain) : ReplicaOp → Prop
  | .block op =>
      match (self.act op).blocks[self.blocks.length]? with
      | some block => self.SteadyUnder block
      | none => True
  | _ => True

instance decidableSteady (self : Chain) : (op : ReplicaOp) → Decidable (self.Steady op)
  | .block op =>
      match h : (self.act op).blocks[self.blocks.length]? with
      | some block =>
          decidable_of_iff (self.SteadyUnder block) (by simp only [Steady, h])
      | none => .isTrue (by simp only [Steady, h])
  | .submit _ | .validators _ | .restart _ => .isTrue trivial

def Deterministic (self : Chain) : Prop :=
  self.state.governanceState.finalityMode = .deterministic

theorem settled_replica {self : Chain} {last : Block} (h : self.Settled last) {op : ReplicaOp}
    (hmode : self.Deterministic) (hnext : (self.replica op).Deterministic)
    (hsteady : self.Steady op) : ∃ last', (self.replica op).Settled last' := by
  cases op with
  | block op =>
      refine settled_act h hmode hnext fun block hblock => ?_
      have hlast : (self.act op).blocks[self.blocks.length]? = some block := by
        rw [hblock, List.getElem?_concat_length]
      simp only [Steady, hlast] at hsteady
      exact hsteady
  | submit tx =>
      refine ⟨last, ?_⟩
      show (orKeep self (self.submitTransition tx)).Settled last
      unfold submitTransition
      rcases self.mempool.add tx with e | mempool
      · exact h
      · exact h.stay rfl rfl rfl
  | validators validators =>
      exact ⟨last, h.tip, h.position, h.bounded, h.finalized, h.depth,
        h.governed.proposals, h.governed.finalityMode⟩
  | restart validatorKey =>
      refine ⟨last, ?_⟩
      show (orKeep self (fromBlocks validatorKey self.blocks)).Settled last
      rcases hrebuilt : fromBlocks validatorKey self.blocks with e | rebuilt
      · exact h
      · exact (settled_fromBlocks hrebuilt h.tip h.position h.bounded
          (h.governed.finalityMode.symm.trans hmode)).1

theorem settled_run {self : Chain} {last : Block} (h : self.Settled last) {ops : List ReplicaOp}
    (hmode : Throughout replica Deterministic self ops) (hsteady : Along replica Steady self ops) :
    ∃ last', (ops.foldl replica self).Settled last' := by
  induction ops generalizing self last with
  | nil => exact ⟨last, h⟩
  | cons op ops ih =>
      obtain ⟨last', hlast'⟩ := settled_replica h hmode.1 hmode.2.first hsteady.1
      exact ih hlast' hmode.2 hsteady.2

/-- A new chain, or one rebuilt from its first block. -/
def Begins (self : Chain) : Prop :=
  (∃ blockVersion validatorKey, self = init blockVersion .deterministic validatorKey)
    ∨ ∃ validatorKey genesis, fromBlocks validatorKey [genesis] = .ok self

/-- A chain of one block, without proposals. -/
theorem settled_single {self : Chain} {genesis : Block} (hblocks : self.blocks = [genesis])
    (hheight : genesis.header.height = 0) (hfinalized : self.finality.finalizedHeight = 0)
    (hdepth : self.finalityConfig.confirmationDepth = snapshotDepth genesis)
    (hproposals : self.proposals = {})
    (hmode : self.state.governanceState.finalityMode = .deterministic) : self.Settled genesis := by
  refine ⟨?_, ?_, ?_, ?_, ?_, ?_⟩
  · rw [hblocks]
    rfl
  · rw [hblocks, hheight]
    rfl
  · rw [hheight]
    decide
  · rw [hfinalized, hheight, settledAt, UInt64.toNat_zero, Nat.min_zero]
  · rw [hdepth]
  · rw [hblocks]
    exact ⟨hproposals, hmode⟩

theorem settled_of_begins {self : Chain} (h : self.Begins) : ∃ genesis, self.Settled genesis := by
  rcases h with ⟨blockVersion, validatorKey, rfl⟩ | ⟨validatorKey, genesis, hrebuilt⟩
  · have hmode : (init blockVersion .deterministic
        validatorKey).state.governanceState.finalityMode = .deterministic := by
      unfold init
      exact finalityMode_initializeGenesisState blockVersion validatorKey.publicKey _ .deterministic
    exact ⟨_, settled_single rfl rfl rfl rfl rfl hmode⟩
  · obtain ⟨start, replayed, hstart, -, -⟩ := fromBlocks_cons_eq_ok_iff.mp hrebuilt
    have hzero := (replayGenesis_eq_ok_iff.mp hstart).1
    have hposition : [genesis].length = genesis.header.height.toNat + 1 := by
      rw [hzero]
      rfl
    have hbounded : genesis.header.height.toNat < 2 ^ 64 - 1 := by
      rw [hzero]
      decide
    exact ⟨genesis, (settled_fromBlocks hrebuilt rfl hposition hbounded rfl).1⟩

/-- Two nodes with the same blocks have the same height final, whichever way each
came by its blocks, and so has a node that is rebuilt from them. -/
theorem finality_of_blocks {a b : Chain} (ha : a.Begins) (hb : b.Begins)
    (opsA opsB : List ReplicaOp) (hmodeA : Throughout replica Deterministic a opsA)
    (hmodeB : Throughout replica Deterministic b opsB) (hsteadyA : Along replica Steady a opsA)
    (hsteadyB : Along replica Steady b opsB)
    (hblocks : (opsA.foldl replica a).blocks = (opsB.foldl replica b).blocks) :
    (opsA.foldl replica a).finality.finalizedHeight
        = (opsB.foldl replica b).finality.finalizedHeight
      ∧ ∀ validatorKey rebuilt,
        fromBlocks validatorKey (opsA.foldl replica a).blocks = .ok rebuilt →
        rebuilt.finality.finalizedHeight = (opsA.foldl replica a).finality.finalizedHeight := by
  obtain ⟨_, hstartA⟩ := settled_of_begins ha
  obtain ⟨_, hstartB⟩ := settled_of_begins hb
  obtain ⟨lastA, hA⟩ := settled_run hstartA hmodeA hsteadyA
  obtain ⟨lastB, hB⟩ := settled_run hstartB hmodeB hsteadyB
  obtain rfl : lastA = lastB := by
    have htip := hB.tip
    rw [← hblocks, hA.tip] at htip
    exact Option.some_inj.mp htip
  refine ⟨UInt64.toNat_inj.mp (hA.finalized.trans hB.finalized.symm),
    fun validatorKey rebuilt hrebuilt => ?_⟩
  have hsettled := (settled_fromBlocks hrebuilt hA.tip hA.position hA.bounded
    (hA.governed.finalityMode.symm.trans hmodeA.last)).1
  exact UInt64.toNat_inj.mp (hsettled.finalized.trans hA.finalized.symm)

end Chain

end

/-! ## Depth one -/

/-- A first block that carries a depth of one. -/
def shallowGenesis : Block :=
  let genesis := @buildGenesisBlock polyCrypto genesisChain.chainId nodeKey.publicKey
    canonicalAgentBlockVersion nodeKey (@ManagedWorldState.stateRoot polyCrypto genesisChain.state)
    (@BalanceLedger.balanceRoot polyCrypto genesisChain.balances)
    (some ({} : ConsensusParams).toCanonicalBytes)
  let governance : GovernanceSnapshot :=
    { genesis.governance with finalityConfig.confirmationDepth := 1 }
  let governanceHash := @canonicalHash polyCrypto _ GovernanceSnapshot.codec governance
  let header : BlockHeader := { genesis.header with governanceHash }
  let proof : CausalProof :=
    { genesis.proof with governanceSnapshotHash := governanceHash, validatorSignature := [] }
  let validatorSignature := nodeKey.sign (@blockSigningPayload polyCrypto header proof)
  { genesis with header, governance, proof := { proof with validatorSignature } }

def shallowChain : Chain :=
  orKeep genesisChain (@Chain.fromBlocks polyCrypto nodeKey [shallowGenesis])

/-- The block that a node produces next. -/
def nextBlock (chain : Chain) : Block :=
  orKeep shallowGenesis (@Chain.produceBlock polyCrypto chain 0).1

def producing : List Chain.ReplicaOp := [.block (.produce 0)]

def importing (chain : Chain) : List Chain.ReplicaOp := [.block (.importBlock (nextBlock chain))]

instance (chain : Chain) : Decidable chain.Deterministic :=
  inferInstanceAs (Decidable (chain.state.governanceState.finalityMode = .deterministic))

/-- The producer has its block final at once, the node that imports it does not. -/
theorem depth_one_disagrees :
    @Chain.Begins polyCrypto shallowChain
      ∧ (@Chain.produceBlock polyCrypto shallowChain 0).1 = .ok (nextBlock shallowChain)
      ∧ Throughout (@Chain.replica polyCrypto) Chain.Deterministic shallowChain producing
      ∧ Throughout (@Chain.replica polyCrypto) Chain.Deterministic shallowChain
        (importing shallowChain)
      ∧ ((importing shallowChain).foldl (@Chain.replica polyCrypto) shallowChain).blocks
        = (producing.foldl (@Chain.replica polyCrypto) shallowChain).blocks
      ∧ (producing.foldl (@Chain.replica polyCrypto) shallowChain).finality.finalizedHeight = 1
      ∧ ((importing shallowChain).foldl (@Chain.replica polyCrypto)
        shallowChain).finality.finalizedHeight = 0 := by
  refine ⟨Or.inr ⟨nodeKey, shallowGenesis, eq_ok_orKeep (by decide +kernel)⟩,
    eq_ok_orKeep (by decide +kernel), ?_⟩
  decide +kernel

/-- Two blocks, one after the other. -/
def producingTwice : List Chain.ReplicaOp := [.block (.produce 0), .block (.produce 0)]

def twiceProduced : Chain := producingTwice.foldl (@Chain.replica polyCrypto) genesisChain

def blockOf (chain : Chain) (height : Nat) : Block := (chain.blocks[height]?).getD shallowGenesis

/-- The same blocks from outside, with a new start between them. -/
def importingTwice : List Chain.ReplicaOp :=
  [.block (.importBlock (blockOf twiceProduced 1)), .restart nodeKey,
    .block (.importBlock (blockOf twiceProduced 2))]

def twiceImported : Chain := importingTwice.foldl (@Chain.replica polyCrypto) genesisChain

def twiceRebuilt : Chain :=
  orKeep genesisChain (@Chain.fromBlocks polyCrypto nodeKey twiceProduced.blocks)

/-- At the depth that a chain starts with all three agree. -/
theorem finality_of_blocks_genesisChain :
    twiceProduced.blocks.length = 3
      ∧ twiceProduced.finality.finalizedHeight = 1
      ∧ twiceProduced.finality.finalizedHeight = twiceImported.finality.finalizedHeight
      ∧ @Chain.fromBlocks polyCrypto nodeKey twiceProduced.blocks = .ok twiceRebuilt
      ∧ twiceRebuilt.finality.finalizedHeight = twiceProduced.finality.finalizedHeight := by
  have hbegins : @Chain.Begins polyCrypto genesisChain := Or.inl ⟨_, _, rfl⟩
  have hrebuilt : @Chain.fromBlocks polyCrypto nodeKey twiceProduced.blocks = .ok twiceRebuilt :=
    eq_ok_orKeep (by decide +kernel)
  obtain ⟨hlength, hfinal, hblocks, hproduced, hsteady, himported, hsteady'⟩ :
      twiceProduced.blocks.length = 3
        ∧ twiceProduced.finality.finalizedHeight = 1
        ∧ twiceProduced.blocks = twiceImported.blocks
        ∧ Throughout (@Chain.replica polyCrypto) Chain.Deterministic genesisChain producingTwice
        ∧ Along (@Chain.replica polyCrypto) (@Chain.Steady polyCrypto) genesisChain producingTwice
        ∧ Throughout (@Chain.replica polyCrypto) Chain.Deterministic genesisChain importingTwice
        ∧ Along (@Chain.replica polyCrypto) (@Chain.Steady polyCrypto) genesisChain
          importingTwice := by
    decide +kernel
  unfold twiceProduced at *
  unfold twiceImported at *
  obtain ⟨hsame, hstart⟩ := @Chain.finality_of_blocks polyCrypto genesisChain genesisChain hbegins
    hbegins producingTwice importingTwice hproduced himported hsteady hsteady' hblocks
  exact ⟨hlength, hfinal, hsame, hrebuilt, hstart nodeKey twiceRebuilt hrebuilt⟩

end Sccgub
