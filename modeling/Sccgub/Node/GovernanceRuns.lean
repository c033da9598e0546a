import Mathlib
import Sccgub.Governance.Lifecycle
import Sccgub.Node.Reconstruct
import Sccgub.Node.Speculation

/-!
# Governance along a chain

The governance of a block, move by move: the calls that its transitions make on
the registry, the deadlines, and each proposal that may be due.  A chain that
imports and produces blocks, or takes over a snapshot, is a run of such moves, so
that what every move keeps is kept by every chain.
-/

namespace Sccgub

open Bincode FixedWidth Fallible WriteThrough

/-! ## Calls of a transition -/

def submissionCall (tx : SymbolicTransition) (kind : ProposalKind) : RegistryCall :=
  .submit tx.actor.agentId tx.actor.governanceLevel kind 5

/-- What a transition asks of the registry. -/
def callsOf (tx : SymbolicTransition) : List RegistryCall :=
  match tx.payload with
  | .proposeNorm name description =>
      [submissionCall tx (.addNorm name description (.fromInteger 5) (.fromInteger 1))]
  | .write key value =>
      if tx.intent.kind = .governanceUpdate then
        (if startsWith key (utf8 "norms/governance/params/propose") then
          match parseGovernanceParamWrite value with
          | some (paramKey, paramValue) => [submissionCall tx (.modifyParameter paramKey paramValue)]
          | none => []
        else [])
        ++ if startsWith key (utf8 "governance/proposals/")
              || startsWith key (utf8 "norms/governance/proposals/") then
            if h : value.length = 32 then
              [.vote ⟨value, h⟩ tx.actor.agentId tx.actor.governanceLevel true]
            else []
          else []
      else []
  | _ => []

section

variable [Crypto]

/-- A call that fails is logged and skipped. -/
def ProposalRegistry.attempt (self : ProposalRegistry) (height : UInt64) (call : RegistryCall) :
    ProposalRegistry :=
  orKeep self (self.call height call)

def ProposalRegistry.attemptAll (self : ProposalRegistry) (height : UInt64)
    (calls : List RegistryCall) : ProposalRegistry :=
  calls.foldl (fun registry call => registry.attempt height call) self

theorem replayTransition_eq_attempts (height : UInt64) (proposals : ProposalRegistry)
    (tx : SymbolicTransition) :
    replayTransition height proposals tx = proposals.attemptAll height (callsOf tx) := by
  unfold replayTransition callsOf ProposalRegistry.attemptAll
  cases tx.payload with
  | proposeNorm name description => rfl
  | write key value =>
      dsimp only
      by_cases hkind : tx.intent.kind = .governanceUpdate
      · rw [if_pos hkind, if_pos hkind, List.foldl_append]
        by_cases hparam : startsWith key (utf8 "norms/governance/params/propose") = true
        · rw [if_pos hparam, if_pos hparam]
          rcases parseGovernanceParamWrite value with _ | ⟨paramKey, paramValue⟩
          all_goals
            dsimp only
            split
            · split <;> rfl
            · rfl
        · rw [if_neg hparam, if_neg hparam]
          split
          · split <;> rfl
          · rfl
      · rw [if_neg hkind, if_neg hkind]
        rfl
  | _ => rfl

end

/-! ## Taking effect -/

theorem takeEffect_proposals (change : ValidatorChange) (ceilings : Option ConstitutionalCeilings)
    (ctx : GovernanceContext) (kind : ProposalKind) :
    (takeEffect change ceilings ctx kind).proposals = ctx.proposals := by
  cases kind with
  | addNorm name description fitness cost => rfl
  | deactivateNorm normId =>
      simp only [takeEffect]
      split <;> rfl
  | modifyParameter key value =>
      simp only [takeEffect]
      split
      · rfl
      · split <;> rfl
  | activateEmergency => rfl
  | deactivateEmergency => rfl
  | modifyConsensusParam field newValue activationHeight =>
      simp only [takeEffect]
      split <;> rfl

/-- A proposal that is due and that the registry lets through takes effect;
nothing else changes anything. -/
theorem activateDue_cases (change : ValidatorChange) (ceilings : Option ConstitutionalCeilings)
    (height : UInt64) (ctx : GovernanceContext) (p : GovernanceProposal) :
    activateDue change ceilings height ctx p = ctx
      ∨ ∃ norm registry, p.status = .timelocked ∧ p.timelockUntil ≤ height
        ∧ ctx.proposals.activate p.id height = .ok (norm, registry)
        ∧ ((∃ n, norm = some n ∧ activateDue change ceilings height ctx p = { ctx with
              proposals := registry
              governanceState.activeNorms := ctx.governanceState.activeNorms.insert n.id n })
          ∨ activateDue change ceilings height ctx p
              = takeEffect change ceilings { ctx with proposals := registry } p.kind) := by
  unfold activateDue
  split
  · rename_i hdue
    split
    · exact Or.inl rfl
    · rename_i norm registry hactivate
      exact Or.inr ⟨_, _, hdue.1, hdue.2, hactivate, Or.inl ⟨norm, rfl, rfl⟩⟩
    · rename_i registry hactivate
      exact Or.inr ⟨_, _, hdue.1, hdue.2, hactivate, Or.inr rfl⟩
  · exact Or.inl rfl

theorem proposals_activateDue (change : ValidatorChange) (ceilings : Option ConstitutionalCeilings)
    (height : UInt64) (ctx : GovernanceContext) (p : GovernanceProposal) :
    (activateDue change ceilings height ctx p).proposals = ctx.proposals
      ∨ ∃ norm, ctx.proposals.activate p.id height
        = .ok (norm, (activateDue change ceilings height ctx p).proposals) := by
  rcases activateDue_cases change ceilings height ctx p with
    hsame | ⟨norm, registry, -, -, hactivate, ⟨n, rfl, hnext⟩ | hnext⟩
  · exact Or.inl (congrArg _ hsame)
  · rw [hnext]
    exact Or.inr ⟨_, hactivate⟩
  · rw [hnext, takeEffect_proposals]
    exact Or.inr ⟨_, hactivate⟩

/-! ## Moves -/

inductive GovernanceMove where
  | call (height : UInt64) (call : RegistryCall)
  | due (ceilings : Option ConstitutionalCeilings) (height : UInt64)
      (proposal : GovernanceProposal)
  /-- Changed parameters are on their way to the trie. -/
  | commit
  /-- A snapshot of another context: of its registry the list alone. -/
  | restore (snapshot : GovernanceContext)

namespace GovernanceContext

variable [Crypto]

def move (self : GovernanceContext) : GovernanceMove → GovernanceContext
  | .call height call => { self with proposals := self.proposals.attempt height call }
  | .due ceilings height proposal =>
      activateDue applyValidatorChange ceilings height self proposal
  | .commit => { self with mutatedParams := false }
  | .restore snapshot =>
      { snapshot with
        proposals := { self.proposals with proposals := snapshot.proposals.proposals } }

/-- The moves of a block: what is due is seen after the deadlines. -/
def replayMoves (self : GovernanceContext) (ceilings : Option ConstitutionalCeilings)
    (transitions : List SymbolicTransition) (height : UInt64) : List GovernanceMove :=
  let seen := (transitions.foldl (replayTransition height) self.proposals).finalize height
  (transitions.flatMap callsOf).map (.call height) ++ .call height .finalize
    :: seen.proposals.map (.due ceilings height)

theorem foldl_calls (self : GovernanceContext) (height : UInt64) (calls : List RegistryCall) :
    (calls.map (GovernanceMove.call height)).foldl move self
      = { self with proposals := self.proposals.attemptAll height calls } := by
  induction calls generalizing self with
  | nil => rfl
  | cons call rest ih => exact ih _

theorem foldl_replayTransition (height : UInt64) (transitions : List SymbolicTransition)
    (proposals : ProposalRegistry) :
    transitions.foldl (replayTransition height) proposals
      = proposals.attemptAll height (transitions.flatMap callsOf) := by
  induction transitions generalizing proposals with
  | nil => rfl
  | cons tx rest ih =>
      rw [List.foldl_cons, ih, replayTransition_eq_attempts, List.flatMap_cons]
      exact List.foldl_append.symm

/-- A replay is the run of its moves. -/
theorem foldl_replayMoves (self : GovernanceContext) (ceilings : Option ConstitutionalCeilings)
    (transitions : List SymbolicTransition) (height : UInt64) :
    (self.replayMoves ceilings transitions height).foldl move self
      = replayGovernanceFromTransitions applyValidatorChange ceilings transitions height self := by
  unfold replayMoves replayGovernanceFromTransitions
  rw [List.foldl_append, List.foldl_cons, foldl_calls, ← foldl_replayTransition, List.foldl_map]
  rfl

end GovernanceContext

/-! ## Moves of a chain -/

theorem constitutionalCeilingsFromTrie_governedState (state : ManagedWorldState)
    (ctx : GovernanceContext) :
    constitutionalCeilingsFromTrie (Chain.governedState state ctx)
      = constitutionalCeilingsFromTrie state := by
  have hkey : ConsensusParams.trieKey ≠ ConstitutionalCeilings.trieKey := by decide +kernel
  have hother : ∀ w ∈ paramWrites state ctx, w.1 ≠ ConstitutionalCeilings.trieKey := by
    intro w hw
    unfold paramWrites at hw
    split at hw
    · simp only [ManagedWorldState.admitted, List.mem_map, List.mem_filter,
        List.mem_singleton] at hw
      obtain ⟨write, ⟨rfl, -⟩, rfl⟩ := hw
      exact hkey
    · cases hw
  have hget : (Chain.governedState state ctx).get ConstitutionalCeilings.trieKey
      = state.get ConstitutionalCeilings.trieKey := by
    rw [ManagedWorldState.get, ManagedWorldState.get, StateTrie.get, StateTrie.get,
      governedState_trie, StateTrie.store_insertAll, getElem?_putAll, lastWrite_eq_none hother]
    rfl
  rw [constitutionalCeilingsFromTrie, constitutionalCeilingsFromTrie, hget]

theorem ceilingsOf_governedState (state : ManagedWorldState) (ctx : GovernanceContext) :
    Chain.ceilingsOf (Chain.governedState state ctx) = Chain.ceilingsOf state := by
  rw [Chain.ceilingsOf, Chain.ceilingsOf, constitutionalCeilingsFromTrie_governedState]

namespace Chain

variable [Crypto]

/-- Either no block more and governance as it was, or one block more and its
governance replayed. -/
def Governed (self next : Chain) : Prop :=
  next.blocks = self.blocks ∧ next.governanceContext = self.governanceContext
    ∨ ∃ block, next.blocks = self.blocks ++ [block]
      ∧ next.governanceContext = { replayGovernanceFromTransitions applyValidatorChange
          (ceilingsOf next.state) block.body.transitions block.header.height
          self.governanceContext with mutatedParams := false }

theorem governed_of_replay (self chain : Chain) (block : Block)
    (hctx : chain.governanceContext = self.governanceContext) :
    ((chain.replayGovernanceTransitions block.body.transitions block.header.height)).governanceContext
      = { replayGovernanceFromTransitions applyValidatorChange
          (ceilingsOf (chain.replayGovernanceTransitions block.body.transitions
            block.header.height).state) block.body.transitions block.header.height
          self.governanceContext with mutatedParams := false } := by
  rw [← hctx]
  unfold replayGovernanceTransitions
  rw [ceilingsOf_governedState]
  unfold governanceContext governedState
  dsimp only
  split
  · rw [commitConsensusParams, ManagedWorldState.applyDelta_writes]
    rfl
  · rfl

theorem governed_importBlock (self : Chain) (block : Block) :
    self.Governed (self.importBlock block).2 := by
  have hchain := self.validateCandidateBlock_chain block
  unfold importBlock
  rcases hverdict : self.validateCandidateBlock block with ⟨e | ⟨⟩, chain⟩
  · rw [hverdict] at hchain
    obtain rfl : chain = _ := hchain
    exact Or.inl ⟨rfl, rfl⟩
  · rw [hverdict] at hchain
    obtain rfl : chain = _ := hchain
    dsimp only
    split
    · exact Or.inl ⟨rfl, rfl⟩
    · rename_i state hnonces
      have hframe := ManagedWorldState.validateNonces_frame hnonces
      split
      · refine Or.inl ⟨rfl, ?_⟩
        rw [hframe]
        rfl
      · rename_i applied happly
        have happlied := applyBlock_eq happly
        refine Or.inr ⟨block, rfl, ?_⟩
        refine governed_of_replay self _ block ?_
        rw [recordTension_eq, happlied, hframe]
        rfl

theorem governed_produceOn (self : Chain) (parent : Block) (height wallHint : UInt64) :
    self.Governed (self.produceOn parent height wallHint).2 := by
  unfold produceOn
  rcases self.admission with ⟨loop, mempool⟩
  dsimp only
  split
  · exact Or.inl ⟨rfl, rfl⟩
  · rename_i applied hspec
    split
    · exact Or.inl ⟨rfl, rfl⟩
    · rename_i block hassemble
      split
      · exact Or.inl ⟨rfl, rfl⟩
      · refine Or.inr ⟨block, rfl, ?_⟩
        have hheight : block.header.height = height := by
          unfold assemble at hassemble
          simp only [bind_eq_ok_iff, pure_eq_ok_iff] at hassemble
          obtain ⟨_, -, _, -, rfl⟩ := hassemble
          rfl
        have happlied := applyBlock_eq (mapError_eq_ok_iff.mp hspec)
        have hclone : (orKeep self.state (self.state.validateNonces loop.accepted)).governanceState
              = self.state.governanceState
            ∧ (orKeep self.state (self.state.validateNonces loop.accepted)).consensusParams
              = self.state.consensusParams := by
          rcases hnonces : self.state.validateNonces loop.accepted with e | state
          · exact ⟨rfl, rfl⟩
          · have hframe := ManagedWorldState.validateNonces_frame hnonces
            show state.governanceState = _ ∧ state.consensusParams = _
            rw [hframe]
            exact ⟨rfl, rfl⟩
        rw [← hheight]
        refine governed_of_replay self _ block ?_
        simp only [governanceContext, ManagedWorldState.setHeight, ManagedWorldState.sharing,
          happlied, ManagedWorldState.writeAll, hclone.1, hclone.2]
        rfl

theorem governed_produceBlock (self : Chain) (wallHint : UInt64) :
    self.Governed (self.produceBlock wallHint).2 := by
  unfold produceBlock
  split
  · exact Or.inl ⟨rfl, rfl⟩
  · dsimp only
    split
    · exact Or.inl ⟨rfl, rfl⟩
    · split
      · exact Or.inl ⟨rfl, rfl⟩
      · exact self.governed_produceOn _ _ wallHint

/-- Everything that a node does with blocks. -/
theorem governed_act (self : Chain) (op : BlockOp) : self.Governed (self.act op) := by
  cases op with
  | gate block parentId => exact Or.inl ⟨rfl, rfl⟩
  | candidate block =>
      show self.Governed (self.validateCandidateBlock block).2
      rw [validateCandidateBlock_chain]
      exact Or.inl ⟨rfl, rfl⟩
  | build wallHint => exact Or.inl ⟨rfl, rfl⟩
  | produce wallHint => exact self.governed_produceBlock wallHint
  | importBlock block => exact self.governed_importBlock block

/-- The moves of an operation: those of the block it adds. -/
def movesOf (self : Chain) (op : BlockOp) : List GovernanceMove :=
  match (self.act op).blocks[self.blocks.length]? with
  | none => []
  | some block =>
      self.governanceContext.replayMoves (ceilingsOf (self.act op).state) block.body.transitions
        block.header.height ++ [.commit]

theorem foldl_movesOf (self : Chain) (op : BlockOp) :
    (self.movesOf op).foldl GovernanceContext.move self.governanceContext
      = (self.act op).governanceContext := by
  unfold movesOf
  rcases self.governed_act op with ⟨hblocks, hctx⟩ | ⟨block, hblocks, hctx⟩
  · rw [hblocks, List.getElem?_eq_none le_rfl, hctx]
    rfl
  · rw [hblocks, List.getElem?_concat_length, hctx]
    dsimp only
    rw [List.foldl_append, GovernanceContext.foldl_replayMoves]
    rfl

/-! ## Blocks and snapshots -/

/-- An operation on blocks, or a snapshot of a chain restored into this one. -/
inductive NodeOp where
  | block (op : BlockOp)
  | restore (source : Chain)

def operate (self : Chain) : NodeOp → Chain
  | .block op => self.act op
  | .restore source => orKeep self (self.restoreFromSnapshot source.createSnapshot)

def nodeMoves (self : Chain) : NodeOp → List GovernanceMove
  | .block op => self.movesOf op
  | .restore source =>
      match self.restoreFromSnapshot source.createSnapshot with
      | .ok chain => [.restore chain.governanceContext]
      | .error _ => []

theorem foldl_nodeMoves (self : Chain) (op : NodeOp) :
    (self.nodeMoves op).foldl GovernanceContext.move self.governanceContext
      = (self.operate op).governanceContext := by
  cases op with
  | block op => exact self.foldl_movesOf op
  | restore source =>
      unfold nodeMoves operate restoreFromSnapshot
      dsimp only
      split
      · rename_i hrestored
        split at hrestored
        · cases hrestored
        · obtain rfl := Except.ok.inj hrestored
          rename_i hroot
          rw [if_neg hroot]
          rfl
      · rename_i hrestored
        rw [hrestored]
        rfl

/-- The moves of a run, one operation after the other. -/
def nodeTrace (self : Chain) : List NodeOp → List GovernanceMove
  | [] => []
  | op :: ops => self.nodeMoves op ++ (self.operate op).nodeTrace ops

theorem foldl_nodeTrace (self : Chain) (ops : List NodeOp) :
    (self.nodeTrace ops).foldl GovernanceContext.move self.governanceContext
      = (ops.foldl operate self).governanceContext := by
  induction ops generalizing self with
  | nil => rfl
  | cons op ops ih => rw [nodeTrace, List.foldl_append, foldl_nodeMoves, ih, List.foldl_cons]

/-- A run over blocks alone. -/
def trace (self : Chain) (ops : List BlockOp) : List GovernanceMove :=
  self.nodeTrace (ops.map .block)

theorem foldl_trace (self : Chain) (ops : List BlockOp) :
    (self.trace ops).foldl GovernanceContext.move self.governanceContext
      = (ops.foldl act self).governanceContext := by
  rw [trace, foldl_nodeTrace, List.foldl_map]
  rfl

end Chain

end Sccgub
