import Mathlib
import Sccgub.Node.Linkage
import Sccgub.Node.Produce
import Sccgub.Runs

/-!
# Speculation and the store

Validation and production work on clones of the state, and a clone of the trie
writes to the same store as the trie itself.  So the store may come to hold what
the live trie never saw.

For every operation this module names what it sends to the store and what of it
reaches the live trie, its `Footprint`.  Store and trie stay together along a run
exactly when every operation is quiet: what strays from a clone is written over
by what the operation commits, or was there before.
-/

namespace Sccgub

open Bincode FixedWidth WriteThrough Runs

/-! ## Footprints -/

/-- The strays go to the store alone; what comes before and after them goes to
the live trie as well. -/
structure Footprint where
  base : List (Bytes × Bytes) := []
  strays : List (Bytes × Bytes) := []
  commits : List (Bytes × Bytes) := []

namespace Footprint

/-- Every stray entry is written over by a commit or was there with that value. -/
def Quiet (self : Footprint) (entries : Entries) : Prop :=
  ∀ k v, lastWrite self.strays k = some v →
    (lastWrite self.commits k).isSome ∨ (putAll entries self.base)[k]? = some v

instance decidableQuiet (self : Footprint) (entries : Entries) : Decidable (self.Quiet entries) :=
  decidable_of_iff (∀ w ∈ self.strays, lastWrite self.strays w.1 = some w.2 →
      (lastWrite self.commits w.1).isSome ∨ (putAll entries self.base)[w.1]? = some w.2)
    ⟨fun h k v hv => h (k, v) (mem_of_lastWrite hv) hv, fun h w _ hw => h w.1 w.2 hw⟩

/-- The trie and its store after the operation. -/
def apply (self : Footprint) (trie : StateTrie) : StateTrie :=
  (trie.insertAll (self.base ++ self.commits)).sharing
    (trie.durable.map (putAll · (self.base ++ self.strays ++ self.commits)))

end Footprint

/-- A clone that writes nothing leaves the store alone. -/
theorem StateTrie.sharing_putAll_nil (t : StateTrie) :
    t.sharing (t.durable.map (putAll · [])) = t := by
  show t.sharing (t.durable.map id) = t
  rw [Option.map_id]
  rfl

theorem StateTrie.insertAll_sharing (t : StateTrie) (durable : Option Entries)
    (ws : List (Bytes × Bytes)) :
    (t.sharing durable).insertAll ws = (t.insertAll ws).sharing (durable.map (putAll · ws)) := by
  induction ws generalizing t durable with
  | nil => exact ((t.sharing durable).sharing_putAll_nil).symm
  | cons w ws ih =>
      show ((t.insert w.1 w.2).sharing (durable.map (·.insert w.1 w.2))).insertAll ws = _
      rw [ih, Option.map_map]
      rfl

/-- One after the other: the base, the strays behind the trie's back, the
commits. -/
theorem Footprint.apply_eq (self : Footprint) (t : StateTrie) :
    self.apply t = ((t.insertAll self.base).sharing
      ((t.insertAll self.base).durable.map (putAll · self.strays))).insertAll self.commits := by
  rw [StateTrie.insertAll_sharing, ← StateTrie.insertAll_append, StateTrie.durable_insertAll,
    Option.map_map, Option.map_map, Footprint.apply]
  congr 2
  funext m
  simp [putAll_append]

section

variable [Crypto]

/-- The store holds the entries of the trie, and a trie loaded from it has the
live root. -/
structure StateTrie.InSync (t : StateTrie) : Prop where
  entries : t.durable = some t.store
  root : (StateTrie.withStore t.store).rootReadonly = t.rootReadonly

theorem StateTrie.InSync.cacheValid {t : StateTrie} (h : t.InSync) : t.CacheValid := by
  intro r hr
  have hroot := h.root
  rw [(cacheValid_withStore t.store).rootReadonly_eq, rootReadonly, hr] at hroot
  exact hroot.symm

/-- A state bound to a store starts in step with it. -/
theorem inSync_bindStore (state : ManagedWorldState) (store : Entries) :
    (state.bindStore store).trie.InSync := ⟨rfl, rfl⟩

/-- After an operation store and trie are together exactly when it was quiet. -/
theorem inSync_apply_iff {t : StateTrie} (h : t.InSync) (footprint : Footprint) :
    (footprint.apply t).InSync ↔ footprint.Quiet t.store := by
  have hstore : (footprint.apply t).store
      = putAll (putAll t.store footprint.base) footprint.commits := by
    show (t.insertAll _).store = _
    rw [StateTrie.store_insertAll, putAll_append]
  have hdurable : (footprint.apply t).durable = some (putAll (putAll (putAll t.store footprint.base)
      footprint.strays) footprint.commits) := by
    show t.durable.map _ = _
    rw [h.entries, Option.map_some, putAll_append, putAll_append]
  have hcache : (footprint.apply t).CacheValid :=
    h.cacheValid.insertAll (footprint.base ++ footprint.commits)
  constructor
  · intro hsync
    have heq := hsync.entries
    rw [hstore, hdurable, Option.some_inj] at heq
    exact (putAll_spec_commit_iff _ _ _).mp heq
  · intro hquiet
    refine ⟨?_, ?_⟩
    · rw [hstore, hdurable, (putAll_spec_commit_iff _ _ _).mpr hquiet]
    · rw [(StateTrie.cacheValid_withStore _).rootReadonly_eq, hcache.rootReadonly_eq]
      rfl

end

/-! ## After the gate -/

/-- What recording the tension writes. -/
def recordedTension (version : UInt32) (tensionAfter : TensionValue) (state : ManagedWorldState) :
    List StateWrite :=
  if version ≥ patch05BlockVersion then
    match tensionHistoryFromTrie state with
    | .error _ => []
    | .ok history =>
        let grown := history ++ [tensionAfter]
        [⟨tensionHistoryTrieKey,
          TensionValue.codec.list.enc (grown.drop (grown.length - tensionHistoryMaxLen))⟩]
  else []

theorem recordTension_eq (version : UInt32) (tensionAfter : TensionValue)
    (state : ManagedWorldState) :
    Chain.recordTension version tensionAfter state
      = state.writeAll (recordedTension version tensionAfter state) := by
  unfold Chain.recordTension recordedTension
  split
  · unfold appendAndTrim
    rcases tensionHistoryFromTrie state with e | history
    · rfl
    · exact ManagedWorldState.applyDelta_writes _ _
  · rfl

/-- What committing changed parameters writes, under the limit of the changed
parameters. -/
def paramWrites (state : ManagedWorldState) (ctx : GovernanceContext) : List (Bytes × Bytes) :=
  if ctx.mutatedParams then
    ({ state with consensusParams := ctx.consensusParams } : ManagedWorldState).admitted
      [⟨ConsensusParams.trieKey, ctx.consensusParams.toCanonicalBytes⟩]
  else []

theorem governedState_trie (state : ManagedWorldState) (ctx : GovernanceContext) :
    (Chain.governedState state ctx).trie = state.trie.insertAll (paramWrites state ctx) := by
  unfold Chain.governedState paramWrites
  dsimp only
  split
  · rw [commitConsensusParams, ManagedWorldState.applyDelta_writes]
    rfl
  · rfl

namespace Chain

section

variable [Crypto]

/-- Governance of the transitions, on the chain with another state. -/
def governedWrites (self : Chain) (state : ManagedWorldState)
    (transitions : List SymbolicTransition) (height : UInt64) : List (Bytes × Bytes) :=
  paramWrites state (replayGovernanceFromTransitions applyValidatorChange (ceilingsOf state)
    transitions height { self with state }.governanceContext)

/-- What a candidate's validation replays: nothing before the checks are passed. -/
def candidateWrites (self : Chain) (block : Block) : List StateWrite :=
  match self.blocks.getLast? with
  | none => []
  | some parent =>
      match self.checkCandidate parent block none with
      | .error _ => []
      | .ok () => speculativeWrites block self.state

theorem validateCandidateBlock_chain (self : Chain) (block : Block) :
    (self.validateCandidateBlock block).2 = self.sharing
      (self.state.trie.durable.map (putAll · (self.state.admitted (self.candidateWrites block)))) := by
  have hself : self = self.sharing
      (self.state.trie.durable.map (putAll · (self.state.admitted []))) := by
    rw [ManagedWorldState.admitted_nil, sharing, ManagedWorldState.sharing,
      StateTrie.sharing_putAll_nil]
  unfold validateCandidateBlock validateCandidateBlockForRound candidateWrites
  rcases self.blocks.getLast? with _ | parent
  · exact hself
  · dsimp only
    rcases self.checkCandidate parent block none with e | ⟨⟩
    · exact hself
    · dsimp only
      rw [durable_runCpog]

/-- What an import commits once the candidate is found valid. -/
def importCommits (self : Chain) (block : Block) : List (Bytes × Bytes) :=
  match self.state.validateNonces block.body.transitions with
  | .error _ => []
  | .ok state =>
      let gasPrice := self.economics.effectiveFee state.tensionField.total
        state.tensionField.currentBudget
      match applyBlock state self.balances self.treasury block.body.transitions block.receipts
          self.blockVersion block.header.validatorId gasPrice block.header.height with
      | .error _ => []
      | .ok applied =>
          let recorded := recordTension block.header.version block.header.tensionAfter applied.state
          state.admitted (blockWrites state self.balances self.treasury block.body.transitions
              block.receipts self.blockVersion block.header.validatorId gasPrice
              block.header.height)
            ++ applied.state.admitted
              (recordedTension block.header.version block.header.tensionAfter applied.state)
            ++ self.governedWrites (recorded.setHeight block.header.height) block.body.transitions
              block.header.height

def importFootprint (self : Chain) (block : Block) : Footprint where
  strays := self.state.admitted (self.candidateWrites block)
  commits :=
    match self.validateCandidateBlock block with
    | (.error _, _) => []
    | (.ok (), chain) => chain.importCommits block

/-- What the producer's clone writes. -/
def speculatedWrites (self : Chain) (loop : GasLoop) (height : UInt64) : List (Bytes × Bytes) :=
  let clone := orKeep self.state (self.state.validateNonces loop.accepted)
  clone.admitted (blockWrites clone self.balances self.treasury loop.accepted loop.receipts
    self.blockVersion self.localValidatorId self.producerGasPrice height)

/-- The clone's writes first, then those of the gate, then the parameters. -/
def produceOnFootprint (self : Chain) (parent : Block) (height wallHint : UInt64) : Footprint :=
  let (loop, mempool) := self.admission
  match self.speculate loop height with
  | .error _ => {}
  | .ok applied =>
      let written := self.speculatedWrites loop height
      let drained := { self with mempool }.sharing applied.state.trie.durable
      match self.assemble parent loop applied height wallHint with
      | .error _ => { strays := written }
      | .ok block =>
          let replayed := drained.state.admitted (speculativeWrites block drained.state)
          let run := runCpog block drained.state parent.header.blockId
          match cpogResult run.result with
          | .error _ => { strays := written ++ replayed }
          | .ok () =>
              { base := written
                strays := replayed
                commits := self.governedWrites
                  ((applied.state.sharing run.durable).setHeight height) block.body.transitions
                  height }

def produceFootprint (self : Chain) (wallHint : UInt64) : Footprint :=
  match self.blocks.getLast? with
  | none => {}
  | some parent =>
      let height := saturatingAdd parent.header.height 1
      if !self.isProposerForHeight height then {}
      else
        match self.powerTracker.checkProposal self.localValidatorId self.governanceLimits with
        | .error _ => {}
        | .ok () => self.produceOnFootprint parent height wallHint

/-! ## Operations -/

/-- What a node does with blocks: the gate alone, candidates checked or built,
blocks produced and imported, each with whatever outcome. -/
inductive BlockOp where
  | gate (block : Block) (parentId : Hash)
  | candidate (block : Block)
  | build (wallHint : UInt64)
  | produce (wallHint : UInt64)
  | importBlock (block : Block)

def act (self : Chain) : BlockOp → Chain
  | .gate block parentId => self.sharing (runCpog block self.state parentId).durable
  | .candidate block => (self.validateCandidateBlock block).2
  | .build wallHint => (self.buildCandidateBlock wallHint).2
  | .produce wallHint => (self.produceBlock wallHint).2
  | .importBlock block => (self.importBlock block).2

def footprint (self : Chain) : BlockOp → Footprint
  | .gate block _ => { strays := self.state.admitted (speculativeWrites block self.state) }
  | .candidate block => { strays := self.state.admitted (self.candidateWrites block) }
  | .build wallHint =>
      let produced := self.produceFootprint wallHint
      { strays := produced.base ++ produced.strays ++ produced.commits }
  | .produce wallHint => self.produceFootprint wallHint
  | .importBlock block => self.importFootprint block

/-- What the operation lets stray leaves the store as the live trie is. -/
def Quiet (self : Chain) (op : BlockOp) : Prop := (self.footprint op).Quiet self.state.trie.store

instance (chain : Chain) (op : BlockOp) : Decidable (chain.Quiet op) :=
  inferInstanceAs (Decidable (Footprint.Quiet _ _))

omit [Crypto] in
theorem sharing_trie (self : Chain) (durable : Option Entries) :
    (self.sharing durable).state.trie = self.state.trie.sharing durable := rfl

/-- Governance commits its parameters and nothing else. -/
theorem replayGovernanceTransitions_trie (self : Chain) (transitions : List SymbolicTransition)
    (height : UInt64) :
    (self.replayGovernanceTransitions transitions height).state.trie
      = self.state.trie.insertAll (self.governedWrites self.state transitions height) :=
  governedState_trie _ _

theorem commitImported_trie {self : Chain} {block : Block} {state : ManagedWorldState}
    {applied : AppliedBlock} (hnonces : self.state.validateNonces block.body.transitions = .ok state)
    (happly : applyBlock state self.balances self.treasury block.body.transitions block.receipts
      self.blockVersion block.header.validatorId (self.economics.effectiveFee
        state.tensionField.total state.tensionField.currentBudget) block.header.height
        = .ok applied) :
    (self.commitImported block applied).state.trie
      = self.state.trie.insertAll (self.importCommits block) := by
  have htrie : state.trie = self.state.trie := by
    rw [ManagedWorldState.validateNonces_frame hnonces]
  simp only [importCommits, hnonces, happly]
  rw [StateTrie.insertAll_append, StateTrie.insertAll_append]
  unfold commitImported
  dsimp only
  rw [replayGovernanceTransitions_trie]
  have happlied : applied.state.trie = self.state.trie.insertAll (state.admitted
      (blockWrites state self.balances self.treasury block.body.transitions block.receipts
        self.blockVersion block.header.validatorId (self.economics.effectiveFee
        state.tensionField.total state.tensionField.currentBudget) block.header.height)) := by
    rw [applyBlock_eq happly, ← htrie]
    rfl
  rw [← happlied]
  have hrecorded : ((recordTension block.header.version block.header.tensionAfter
      applied.state).setHeight block.header.height).trie = applied.state.trie.insertAll
        (applied.state.admitted (recordedTension block.header.version block.header.tensionAfter
          applied.state)) := by
    rw [recordTension_eq]
    rfl
  rw [← hrecorded]
  rfl

theorem importBlock_trie (self : Chain) (block : Block) :
    (self.importBlock block).2.state.trie = (self.importFootprint block).apply self.state.trie := by
  have hchain := self.validateCandidateBlock_chain block
  rw [Footprint.apply_eq]
  show _ = (self.state.trie.sharing (self.state.trie.durable.map
    (putAll · (self.state.admitted (self.candidateWrites block))))).insertAll
      (self.importFootprint block).commits
  rw [← sharing_trie, ← hchain]
  unfold importBlock importFootprint
  rcases self.validateCandidateBlock block with ⟨e | ⟨⟩, chain⟩
  · rfl
  · dsimp only
    rcases hnonces : chain.state.validateNonces block.body.transitions with e | state
    · simp only [importCommits, hnonces]
      rfl
    · dsimp only
      rcases happly : applyBlock state chain.balances chain.treasury block.body.transitions
        block.receipts chain.blockVersion block.header.validatorId (chain.economics.effectiveFee
        state.tensionField.total state.tensionField.currentBudget) block.header.height
        with e | applied
      · simp only [importCommits, hnonces, happly]
        -- the nonces have moved, the trie has not
        show state.trie = chain.state.trie
        rw [ManagedWorldState.validateNonces_frame hnonces]
      · exact commitImported_trie hnonces happly

theorem speculate_trie {self : Chain} {loop : GasLoop} {height : UInt64} {applied : AppliedBlock}
    (h : self.speculate loop height = .ok applied) :
    applied.state.trie = self.state.trie.insertAll (self.speculatedWrites loop height) := by
  have hclone : (orKeep self.state (self.state.validateNonces loop.accepted)).trie
      = self.state.trie := by
    rcases hnonces : self.state.validateNonces loop.accepted with e | state
    · rfl
    · show state.trie = self.state.trie
      rw [ManagedWorldState.validateNonces_frame hnonces]
  rw [speculate, Fallible.mapError_eq_ok_iff] at h
  rw [applyBlock_eq h, ← hclone]
  rfl

theorem produceOn_trie (self : Chain) (parent : Block) (height wallHint : UInt64) :
    (self.produceOn parent height wallHint).2.state.trie
      = (self.produceOnFootprint parent height wallHint).apply self.state.trie := by
  rw [Footprint.apply_eq]
  unfold produceOn produceOnFootprint
  rcases self.admission with ⟨loop, mempool⟩
  dsimp only
  rcases hspec : self.speculate loop height with e | applied
  · exact (StateTrie.sharing_putAll_nil _).symm
  have htrie := speculate_trie hspec
  have hdurable := congrArg StateTrie.durable htrie
  rw [StateTrie.durable_insertAll] at hdurable
  dsimp only
  rcases self.assemble parent loop applied height wallHint with e | block
  · show self.state.trie.sharing applied.state.trie.durable = _
    rw [hdurable]
    rfl
  dsimp only
  rcases cpogResult (runCpog block (({ self with mempool } : Chain).sharing
    applied.state.trie.durable).state parent.header.blockId).result with e | ⟨⟩
  · show self.state.trie.sharing (runCpog _ _ _).durable = _
    rw [durable_runCpog]
    show self.state.trie.sharing (applied.state.trie.durable.map _) = self.state.trie.sharing
      (self.state.trie.durable.map _)
    rw [hdurable, Option.map_map]
    congr 2
    funext m
    rw [Function.comp_apply, putAll_append]
  · rw [← htrie]
    unfold commitProduced
    dsimp only
    rw [replayGovernanceTransitions_trie]
    show (applied.state.trie.sharing (runCpog _ _ _).durable).insertAll _ = _
    rw [durable_runCpog]
    rfl

theorem produceBlock_trie (self : Chain) (wallHint : UInt64) :
    (self.produceBlock wallHint).2.state.trie
      = (self.produceFootprint wallHint).apply self.state.trie := by
  have hnone : self.state.trie = ({} : Footprint).apply self.state.trie :=
    (StateTrie.sharing_putAll_nil _).symm
  unfold produceBlock produceFootprint
  rcases self.blocks.getLast? with _ | parent
  · exact hnone
  dsimp only
  split
  · exact hnone
  · rcases self.powerTracker.checkProposal self.localValidatorId self.governanceLimits
      with e | ⟨⟩
    · exact hnone
    · exact self.produceOn_trie parent _ wallHint

/-- What an operation does to the trie and its store is its footprint. -/
theorem act_trie (self : Chain) (op : BlockOp) :
    (self.act op).state.trie = (self.footprint op).apply self.state.trie := by
  cases op with
  | gate block parentId =>
      rw [Footprint.apply_eq]
      show self.state.trie.sharing (runCpog block self.state parentId).durable = _
      rw [durable_runCpog]
      rfl
  | candidate block =>
      rw [Footprint.apply_eq]
      show (self.validateCandidateBlock block).2.state.trie = _
      rw [validateCandidateBlock_chain]
      rfl
  | build wallHint =>
      rw [Footprint.apply_eq]
      show self.state.trie.sharing (self.produceBlock wallHint).2.state.trie.durable = _
      rw [produceBlock_trie]
      rfl
  | produce wallHint => exact self.produceBlock_trie wallHint
  | importBlock block => exact self.importBlock_trie block

/-- Along a run of operations the store holds the live trie in every state
exactly when every operation is quiet. -/
theorem inSync_throughout_iff {chain : Chain} (hsync : chain.state.trie.InSync)
    (ops : List BlockOp) :
    Throughout act (fun c => c.state.trie.InSync) chain ops ↔ Along act Quiet chain ops := by
  refine throughout_iff_along (fun c op hc => ?_) hsync
  rw [act_trie, inSync_apply_iff hc]
  rfl

end

end Chain

/-! ## Transfers on an empty store -/

/-- The agent that holds what the first block mints. -/
def holder : AgentIdentity :=
  { plainActor (@expectedAgentId polyCrypto (Hash.ofByte 9) (.fromHeight 0)) (Hash.ofByte 9) with
    mfidelSeal := .fromHeight 0
    governanceLevel := .safety }

/-- A transition of the holder that goes through the governance mechanism, with
its id and its signature. -/
def signedByHolder (nonce : BitVec 128) (kind : TransitionKind) (target : Bytes)
    (payload : OperationPayload) (how : TransitionMechanism) : SymbolicTransition :=
  let plain := plainTransition holder kind target payload []
  let tx := { plain with
    nonce
    whBindingIntent := { plain.whBindingIntent with how } }
  let bytes := @canonicalTxBytes polyCrypto tx
  { tx with txId := @blake3Hash polyCrypto bytes, signature := polySign (Hash.ofByte 9) bytes }

def transferOut (nonce : BitVec 128) (amount : Int) : SymbolicTransition :=
  signedByHolder nonce .assetTransfer (balanceKey (Hash.ofByte 9))
    (.assetTransfer (Hash.ofByte 9) (Hash.ofByte 5) (TensionValue.fromInteger amount).raw)
    .directStateWrite

/-- The chain with transitions in its mempool. -/
def withPending (chain : Chain) (transitions : List SymbolicTransition) : Chain :=
  transitions.foldl (fun chain tx => orKeep chain (chain.submitTransition tx)) chain

theorem state_withPending (chain : Chain) (transitions : List SymbolicTransition) :
    (withPending chain transitions).state = chain.state := by
  unfold withPending
  induction transitions generalizing chain with
  | nil => rfl
  | cons tx rest ih =>
      rw [List.foldl_cons, ih, Chain.submitTransition]
      rcases chain.mempool.add tx with e | mempool
      · rfl
      · rfl

/-- The first block on an empty store. -/
def boundChain : Chain := { genesisChain with state := genesisChain.state.bindStore ∅ }

/-- A transfer waits on it. -/
def boundHolder : Chain :=
  let chain := @Chain.init polyCrypto legacyBlockVersion .deterministic nodeKey
  withPending { chain with state := chain.state.bindStore ∅ } [transferOut 1 960000]

/-- A second transfer, in a block from outside. -/
def secondTransfer : Block :=
  let chain := withPending (@Chain.produceBlock polyCrypto boundHolder 0).2 [transferOut 2 1]
  (@Chain.produceBlock polyCrypto chain 0).2.blocks.getLastD
    (boundHolder.blocks.get ⟨0, by decide +kernel⟩)

def twoTransfers : List Chain.BlockOp := [.produce 0, .importBlock secondTransfer]

theorem twoTransfers_run :
    (twoTransfers.foldl (@Chain.act polyCrypto) boundHolder).blocks.length = 3
      ∧ (twoTransfers.foldl (@Chain.act polyCrypto) boundHolder).state.trie.store.toList
        ≠ boundHolder.state.trie.store.toList
      ∧ Along (@Chain.act polyCrypto) (@Chain.Quiet polyCrypto) boundHolder twoTransfers := by
  decide +kernel

/-- The blocks of two transfers write to the trie, and what the gate writes for
them is written again when they are committed. -/
theorem inSync_throughout_iff_boundHolder :
    (twoTransfers.foldl (@Chain.act polyCrypto) boundHolder).blocks.length = 3
      ∧ (twoTransfers.foldl (@Chain.act polyCrypto) boundHolder).state.trie.store.toList
        ≠ boundHolder.state.trie.store.toList
      ∧ Throughout (@Chain.act polyCrypto) (fun c => @StateTrie.InSync polyCrypto c.state.trie)
        boundHolder twoTransfers := by
  have hsync : @StateTrie.InSync polyCrypto boundHolder.state.trie := by
    unfold boundHolder
    rw [state_withPending]
    exact @inSync_bindStore polyCrypto _ ∅
  obtain ⟨hlength, hwrites, hquiet⟩ := twoTransfers_run
  exact ⟨hlength, hwrites,
    (@Chain.inSync_throughout_iff polyCrypto boundHolder hsync twoTransfers).mpr hquiet⟩

/-! ## An epoch that was never committed -/

/-- The tip of an epoch with wrong roots. -/
def epochBlock : Block := @plainBlock polyCrypto 100 zeroHash [] zeroHash zeroHash

/-- The gate turns the block down and leaves the new epoch in the store. -/
theorem epochBlock_strays :
    @StateTrie.InSync polyCrypto boundChain.state.trie
      ∧ (@validateCpog polyCrypto epochBlock boundChain.state zeroHash).isValid = false
      ∧ ¬ @StateTrie.InSync polyCrypto
        (@Chain.act polyCrypto boundChain (.gate epochBlock zeroHash)).state.trie := by
  refine ⟨@inSync_bindStore polyCrypto genesisChain.state ∅, by decide +kernel, fun hsync => ?_⟩
  exact absurd (@StateTrie.InSync.entries polyCrypto _ hsync) (by decide +kernel)

end Sccgub
