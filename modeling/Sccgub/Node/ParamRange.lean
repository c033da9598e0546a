import Mathlib
import Sccgub.Governance.TypedProposals
import Sccgub.Node.GovernanceRuns
import Sccgub.Node.Linkage
import Sccgub.Node.Steps

/-!
# The range of the parameters

A typed change is checked against the ceilings and the bounds once more when it
takes effect, so that the live parameters never leave their range.  They are kept
in memory and in the trie.  The write that brings them to the trie is subject to
the size limit for entries, and that limit is one of the parameters.
-/

namespace Sccgub

open Bincode FixedWidth Fallible WriteThrough Runs

/-! ## The entry in the trie -/

/-- Bytes of the stored parameters, whatever they are. -/
def consensusParamsLen : Nat := 200

theorem length_i64 (n : Int64) : (i64Codec.enc n).length = 8 := length_leBytes 8 _

theorem length_i128 (n : I128) : (I128.codec.enc n).length = 16 := length_leBytes 16 _

theorem LegacyConsensusParamsV2.length_enc (p : LegacyConsensusParamsV2) :
    (codec.enc p).length = 140 := by
  simp only [codec, Codec.iso_enc, Codec.pair_enc, List.length_append, length_u32, length_u64,
    length_i64]

theorem LegacyConsensusParamsV3.length_enc (p : LegacyConsensusParamsV3) :
    (codec.enc p).length = 164 := by
  simp only [codec, Codec.iso_enc, Codec.pair_enc, List.length_append, length_u32,
    LegacyConsensusParamsV2.length_enc]

theorem LegacyConsensusParamsV4.length_enc (p : LegacyConsensusParamsV4) :
    (codec.enc p).length = 196 := by
  simp only [codec, Codec.iso_enc, Codec.pair_enc, List.length_append, length_u32, length_u64,
    length_i128, LegacyConsensusParamsV3.length_enc]

theorem ConsensusParams.length_toCanonicalBytes (p : ConsensusParams) :
    p.toCanonicalBytes.length = consensusParamsLen := by
  simp only [toCanonicalBytes, codec, Codec.iso_enc, Codec.pair_enc, List.length_append,
    length_u32, LegacyConsensusParamsV4.length_enc, consensusParamsLen]

/-- There is room for the parameters under their own limit. -/
def ConsensusParams.Roomy (self : ConsensusParams) : Prop :=
  consensusParamsLen ≤ self.maxStateEntrySize.toNat

theorem consensusParamsFromTrie_commit {state : ManagedWorldState}
    (hroom : state.consensusParams.Roomy) (hbounds : state.consensusParams.validate = .ok ()) :
    consensusParamsFromTrie (commitConsensusParams state) = .ok (some state.consensusParams) := by
  have hkey : ConsensusParams.trieKey.length ≤ consensusParamsLen := by decide +kernel
  have hadmitted : state.admitted [⟨ConsensusParams.trieKey, state.consensusParams.toCanonicalBytes⟩]
      = [(ConsensusParams.trieKey, state.consensusParams.toCanonicalBytes)] := by
    have hadmits : state.admits ⟨ConsensusParams.trieKey, state.consensusParams.toCanonicalBytes⟩
        = true := by
      simp only [ManagedWorldState.admits, Bool.and_eq_true, decide_eq_true_eq,
        ConsensusParams.length_toCanonicalBytes]
      exact ⟨hkey.trans hroom, hroom⟩
    simp [ManagedWorldState.admitted, hadmits]
  have hget : (commitConsensusParams state).get ConsensusParams.trieKey
      = some state.consensusParams.toCanonicalBytes := by
    rw [commitConsensusParams, ManagedWorldState.applyDelta_writes, ManagedWorldState.writeAll,
      ManagedWorldState.get, StateTrie.get, StateTrie.store_insertAll, hadmitted, getElem?_putAll]
    simp [lastWrite]
  rw [consensusParamsFromTrie, hget]
  show (ConsensusParams.fromCanonicalBytes state.consensusParams.toCanonicalBytes).map some = _
  rw [ConsensusParams.fromCanonicalBytes_toCanonicalBytes hbounds]
  rfl

/-! ## Taking effect -/

/-- The bounds leave out a limit of zero. -/
theorem maxStateEntrySize_ne_zero {params : ConsensusParams} (h : params.validate = .ok ()) :
    params.maxStateEntrySize ≠ 0 := by
  intro hzero
  have hrow := firstError_eq_ok_iff.mp h (params.maxStateEntrySize = 0
    || params.maxStateEntrySize > 16777216,
    s!"max_state_entry_size {params.maxStateEntrySize} out of bounds (1..16777216)")
    (by simp [ConsensusParams.limitChecks])
  simp [hzero] at hrow

/-- What is set as the size limit, where a kind sets it, is zero and will not be
taken, or leaves room for the parameters. -/
def KeepsEntrySize : ProposalKind → Prop
  | .modifyConsensusParam .maxStateEntrySize (.u32 n) _ => n = 0 ∨ consensusParamsLen ≤ n.toNat
  | _ => True

/-- A typed change that is taken is within ceilings and bounds, and it changes one
field. -/
theorem applyConsensusParamsChange_eq_some {C : ConstitutionalCeilings}
    {base params : ConsensusParams} {field : ConsensusParamField} {newValue : ConsensusParamValue}
    (h : applyConsensusParamsChange (some C) base field newValue = some params) :
    C.validate params = .ok () ∧ params.validate = .ok ()
      ∧ ∀ other, params.read other = if other = field then newValue else base.read other := by
  unfold applyConsensusParamsChange at h
  split at h
  · cases h
  · rename_i hypothetical happly
    split at h
    · rename_i hchecks
      obtain rfl := Option.some_inj.mp h
      rw [Bool.and_eq_true] at hchecks
      have hok : ∀ {ε : Type} {result : Except ε Unit}, result.toBool = true → result = .ok () := by
        intro ε result hresult
        rcases result with e | ⟨⟩
        · cases hresult
        · rfl
      exact ⟨hok hchecks.1, hok hchecks.2, read_applyTypedParam happly⟩
    · cases h

theorem roomy_of_change {C : ConstitutionalCeilings} {base params : ConsensusParams}
    {field : ConsensusParamField} {newValue : ConsensusParamValue} {activationHeight : UInt64}
    (h : applyConsensusParamsChange (some C) base field newValue = some params)
    (hbase : base.Roomy)
    (hkeeps : KeepsEntrySize (.modifyConsensusParam field newValue activationHeight)) :
    params.Roomy := by
  obtain ⟨-, hbounds, hread⟩ := applyConsensusParamsChange_eq_some h
  have hsize : ConsensusParamValue.u32 params.maxStateEntrySize
      = if .maxStateEntrySize = field then newValue else .u32 base.maxStateEntrySize :=
    hread .maxStateEntrySize
  split at hsize
  · rename_i hfield
    subst hfield
    subst hsize
    rcases hkeeps with hzero | hroom
    · exact absurd hzero (maxStateEntrySize_ne_zero hbounds)
    · exact hroom
  · rw [ConsensusParams.Roomy, ConsensusParamValue.u32.inj hsize]
    exact hbase

/-- Everything but a typed change leaves the parameters alone. -/
theorem consensusParams_takeEffect (change : ValidatorChange)
    (ceilings : Option ConstitutionalCeilings) (ctx : GovernanceContext) (kind : ProposalKind) :
    SameParams ctx (takeEffect change ceilings ctx kind)
      ∨ ∃ field newValue activationHeight params,
        kind = .modifyConsensusParam field newValue activationHeight
          ∧ applyConsensusParamsChange ceilings ctx.consensusParams field newValue = some params
          ∧ takeEffect change ceilings ctx kind
            = { ctx with consensusParams := params, mutatedParams := true } := by
  cases hkind : kind with
  | modifyConsensusParam field newValue activationHeight =>
      simp only [takeEffect]
      split
      · rename_i params hparams
        exact Or.inr ⟨field, newValue, activationHeight, params, rfl, hparams, rfl⟩
      · exact Or.inl ⟨rfl, rfl, rfl⟩
  | _ => exact Or.inl (takeEffect_untyped change ceilings ctx rfl)

/-- What a due proposal can do to the parameters: nothing, or a typed change that
is taken. -/
theorem consensusParams_activateDue (ceilings : Option ConstitutionalCeilings) (height : UInt64)
    (ctx : GovernanceContext) (p : GovernanceProposal) :
    (activateDue applyValidatorChange ceilings height ctx p).consensusParams = ctx.consensusParams
        ∧ (activateDue applyValidatorChange ceilings height ctx p).mutatedParams
          = ctx.mutatedParams
      ∨ ∃ field newValue activationHeight params,
        p.kind = .modifyConsensusParam field newValue activationHeight
          ∧ applyConsensusParamsChange ceilings ctx.consensusParams field newValue = some params
          ∧ (activateDue applyValidatorChange ceilings height ctx p).consensusParams = params
          ∧ (activateDue applyValidatorChange ceilings height ctx p).mutatedParams = true := by
  rcases activateDue_cases applyValidatorChange ceilings height ctx p with
    hsame | ⟨norm, registry, -, -, -, ⟨n, -, hnext⟩ | hnext⟩
  · rw [hsame]
    exact Or.inl ⟨rfl, rfl⟩
  · rw [hnext]
    exact Or.inl ⟨rfl, rfl⟩
  · rw [hnext]
    rcases consensusParams_takeEffect applyValidatorChange ceilings
      { ctx with proposals := registry } p.kind with
      hsame | ⟨field, newValue, activationHeight, params, hkind, hparams, heffect⟩
    · exact Or.inl ⟨hsame.consensusParams, hsame.mutatedParams⟩
    · rw [heffect]
      exact Or.inr ⟨field, newValue, activationHeight, params, hkind, hparams, rfl, rfl⟩

/-! ## Replays -/

/-- The parameters of a context that started with given ones: in their range, with
room for themselves, and marked when they have changed. -/
structure GovernanceContext.InRange (C : ConstitutionalCeilings) (start : ConsensusParams)
    (ctx : GovernanceContext) : Prop where
  bounds : ctx.consensusParams.validate = .ok ()
  within : C.validate ctx.consensusParams = .ok ()
  roomy : ctx.consensusParams.Roomy
  marked : ctx.mutatedParams = false → ctx.consensusParams = start

namespace GovernanceMove

/-- A typed change of the size limit that falls due leaves room. -/
def KeepsEntrySize : GovernanceMove → Prop
  | .due _ height p =>
      p.status = .timelocked → p.timelockUntil ≤ height → Sccgub.KeepsEntrySize p.kind
  | _ => True

/-- A move of a replay under the ceilings. -/
def Under (C : ConstitutionalCeilings) : GovernanceMove → Prop
  | .call .. => True
  | .due ceilings _ _ => ceilings = some C
  | .commit | .restore _ => False

end GovernanceMove

section

variable [Crypto]

theorem GovernanceContext.inRange_move {C : ConstitutionalCeilings} {start : ConsensusParams}
    {ctx : GovernanceContext} (h : ctx.InRange C start) {m : GovernanceMove}
    (hm : m.KeepsEntrySize) (hunder : m.Under C) : (ctx.move m).InRange C start := by
  cases m with
  | call height request => exact ⟨h.bounds, h.within, h.roomy, h.marked⟩
  | due ceilings height p =>
      obtain rfl : ceilings = some C := hunder
      show (activateDue applyValidatorChange (some C) height ctx p).InRange C start
      by_cases hdue : p.status = .timelocked ∧ p.timelockUntil ≤ height
      · rcases consensusParams_activateDue (some C) height ctx p with
          ⟨hparams, hmutated⟩ |
            ⟨field, newValue, activationHeight, params, hkind, hchange, hparams, hmutated⟩
        · refine ⟨?_, ?_, ?_, ?_⟩
          · rw [hparams]
            exact h.bounds
          · rw [hparams]
            exact h.within
          · rw [hparams]
            exact h.roomy
          · rw [hparams, hmutated]
            exact h.marked
        · have hkeeps := hm hdue.1 hdue.2
          rw [hkind] at hkeeps
          obtain ⟨hwithin, hbounds, -⟩ := applyConsensusParamsChange_eq_some hchange
          refine ⟨?_, ?_, ?_, ?_⟩
          · rw [hparams]
            exact hbounds
          · rw [hparams]
            exact hwithin
          · rw [hparams]
            exact roomy_of_change hchange h.roomy hkeeps
          · rw [hmutated]
            exact fun hfalse => nomatch hfalse
      · unfold activateDue
        rw [if_neg hdue]
        exact h
  | commit => exact hunder.elim
  | restore snapshot => exact hunder.elim

theorem GovernanceContext.under_replayMoves (ctx : GovernanceContext) (C : ConstitutionalCeilings)
    (transitions : List SymbolicTransition) (height : UInt64) :
    ∀ m ∈ ctx.replayMoves (some C) transitions height, m.Under C := by
  intro m hm
  unfold replayMoves at hm
  rcases List.mem_append.mp hm with hcall | hrest
  · obtain ⟨request, -, rfl⟩ := List.mem_map.mp hcall
    trivial
  · rcases List.mem_cons.mp hrest with rfl | hdue
    · trivial
    · obtain ⟨p, -, rfl⟩ := List.mem_map.mp hdue
      rfl

/-! ## Chains -/

/-- The live parameters are within their bounds and under the ceilings of the
trie, and the trie holds the same. -/
structure Chain.ParamsSound (C : ConstitutionalCeilings) (chain : Chain) : Prop where
  ceilings : constitutionalCeilingsFromTrie chain.state = .ok (some C)
  bounds : chain.state.consensusParams.validate = .ok ()
  within : C.validate chain.state.consensusParams = .ok ()
  stored : consensusParamsFromTrie chain.state = .ok (some chain.state.consensusParams)

/-- Proposals entered in either way, votes and whatever else is asked of the
registry, and the governance of blocks. -/
inductive ParamOp where
  | call (height : UInt64) (request : RegistryCall)
  | submitTyped (proposer : AgentId) (proposerLevel : PrecedenceLevel)
      (currentParams : ConsensusParams) (currentCeilings : ConstitutionalCeilings)
      (field : ConsensusParamField) (newValue : ConsensusParamValue)
      (activationHeight currentHeight votingPeriod : UInt64)
  | replay (transitions : List SymbolicTransition) (height : UInt64)

namespace Chain

def paramStep (self : Chain) : ParamOp → Chain
  | .call height request => { self with proposals := self.proposals.attempt height request }
  | .submitTyped proposer proposerLevel currentParams currentCeilings field newValue
      activationHeight currentHeight votingPeriod =>
      let submitted := self.proposals.submitTypedConsensusParamProposal proposer proposerLevel
        currentParams currentCeilings field newValue activationHeight currentHeight votingPeriod
      { self with proposals := orKeep self.proposals (submitted.map Prod.snd) }
  | .replay transitions height => self.replayGovernanceTransitions transitions height

/-- No change of the size limit that falls due takes the room for the parameters. -/
def KeepsEntrySize (self : Chain) : ParamOp → Prop
  | .replay transitions height => ∀ m ∈ self.governanceContext.replayMoves
      (ceilingsOf self.state) transitions height, m.KeepsEntrySize
  | _ => True

theorem paramsSound_replay {C : ConstitutionalCeilings} {chain : Chain} (h : chain.ParamsSound C)
    (hroomy : chain.state.consensusParams.Roomy) {transitions : List SymbolicTransition}
    {height : UInt64} (hkeeps : chain.KeepsEntrySize (.replay transitions height)) :
    (chain.replayGovernanceTransitions transitions height).ParamsSound C
      ∧ (chain.replayGovernanceTransitions transitions height).state.consensusParams.Roomy := by
  have hceilings : ceilingsOf chain.state = some C := by
    rw [ceilingsOf, h.ceilings]
  have hstart : chain.governanceContext.InRange C chain.state.consensusParams :=
    ⟨h.bounds, h.within, hroomy, fun _ => rfl⟩
  unfold KeepsEntrySize at hkeeps
  rw [hceilings] at hkeeps
  have hrange : Throughout GovernanceContext.move
      (fun ctx => ctx.InRange C chain.state.consensusParams) chain.governanceContext
      (chain.governanceContext.replayMoves (some C) transitions height) := by
    refine throughout_of_along (C := fun _ m => m.KeepsEntrySize ∧ m.Under C)
      (fun ctx m hctx hm => ctx.inRange_move hctx hm.1 hm.2) hstart ?_
    exact along_of_forall fun m hm =>
      ⟨hkeeps m hm, chain.governanceContext.under_replayMoves C transitions height m hm⟩
  have hlast := hrange.last
  rw [GovernanceContext.foldl_replayMoves] at hlast
  unfold replayGovernanceTransitions
  rw [hceilings]
  generalize replayGovernanceFromTransitions applyValidatorChange (some C) transitions height
    chain.governanceContext = ctx at hlast ⊢
  have hparams := (governedState_fields chain.state ctx).2
  refine ⟨⟨?_, ?_, ?_, ?_⟩, ?_⟩
  · exact (constitutionalCeilingsFromTrie_governedState _ _).trans h.ceilings
  · rw [hparams]
    exact hlast.bounds
  · rw [hparams]
    exact hlast.within
  · dsimp only
    rw [hparams]
    unfold governedState
    dsimp only
    split
    · exact consensusParamsFromTrie_commit hlast.roomy hlast.bounds
    · rename_i hmutated
      rw [hlast.marked (by simpa using hmutated)]
      exact h.stored
  · rw [hparams]
    exact hlast.roomy

theorem paramsSound_paramStep {C : ConstitutionalCeilings} {chain : Chain}
    (h : chain.ParamsSound C) (hroomy : chain.state.consensusParams.Roomy) {op : ParamOp}
    (hkeeps : chain.KeepsEntrySize op) :
    (chain.paramStep op).ParamsSound C ∧ (chain.paramStep op).state.consensusParams.Roomy := by
  cases op with
  | call height request => exact ⟨⟨h.ceilings, h.bounds, h.within, h.stored⟩, hroomy⟩
  | submitTyped => exact ⟨⟨h.ceilings, h.bounds, h.within, h.stored⟩, hroomy⟩
  | replay transitions height => exact paramsSound_replay h hroomy hkeeps

/-- What an activation does to the parameters: one field takes the proposed value,
or they stay.  A typed change that is turned down leaves everything but the status
of the proposal; only a proposal whose id leads to another one could bring that
one's norm. -/
structure ActivationContained (ceilings : Option ConstitutionalCeilings) (height : UInt64)
    (ctx : GovernanceContext) (p : GovernanceProposal) : Prop where
  oneField : ∀ other, (activateDue applyValidatorChange ceilings height ctx p).consensusParams.read
      other = ctx.consensusParams.read other
    ∨ ∃ newValue activationHeight, p.kind = .modifyConsensusParam other newValue activationHeight
  rejected : ∀ field newValue activationHeight,
    p.kind = .modifyConsensusParam field newValue activationHeight →
    applyConsensusParamsChange ceilings ctx.consensusParams field newValue = none →
    ∃ proposals activeNorms, activateDue applyValidatorChange ceilings height ctx p
        = { ctx with
            proposals := proposals
            governanceState := { ctx.governanceState with activeNorms := activeNorms } }
      ∧ ∀ i, ctx.proposals.lookup p.id = .ok (i, p) → activeNorms = ctx.governanceState.activeNorms

omit [Crypto] in
theorem read_of_change {ceilings : Option ConstitutionalCeilings} {base params : ConsensusParams}
    {field : ConsensusParamField} {newValue : ConsensusParamValue}
    (h : applyConsensusParamsChange ceilings base field newValue = some params)
    (other : ConsensusParamField) :
    params.read other = if other = field then newValue else base.read other := by
  unfold applyConsensusParamsChange at h
  split at h
  · cases h
  · rename_i hypothetical happly
    split at h
    · obtain rfl := Option.some_inj.mp h
      exact read_applyTypedParam happly other
    · cases h

omit [Crypto] in
theorem activationContained (ceilings : Option ConstitutionalCeilings) (height : UInt64)
    (ctx : GovernanceContext) (p : GovernanceProposal) :
    ActivationContained ceilings height ctx p := by
  constructor
  · intro other
    rcases consensusParams_activateDue ceilings height ctx p with
      ⟨hparams, -⟩ | ⟨field, newValue, activationHeight, params, hkind, hchange, hparams, -⟩
    · rw [hparams]
      exact Or.inl rfl
    · rw [hparams, read_of_change hchange]
      by_cases hfield : other = field
      · subst hfield
        exact Or.inr ⟨newValue, activationHeight, hkind⟩
      · rw [if_neg hfield]
        exact Or.inl rfl
  · intro field newValue activationHeight hkind hnone
    rcases activateDue_cases applyValidatorChange ceilings height ctx p with
      hsame | ⟨norm, registry, -, -, hactivate, ⟨n, hnorm, hnext⟩ | hnext⟩
    · exact ⟨ctx.proposals, ctx.governanceState.activeNorms, hsame, fun _ _ => rfl⟩
    · refine ⟨registry, _, hnext, fun i hlookup => ?_⟩
      obtain ⟨j, q, hfound, -, -, hbrought, -⟩ := ProposalRegistry.activate_eq_ok hactivate
      rw [hlookup] at hfound
      obtain ⟨-, rfl⟩ := Prod.mk.inj (Except.ok.inj hfound)
      rw [hnorm, ProposalRegistry.normOf, hkind] at hbrought
      cases hbrought
    · refine ⟨registry, ctx.governanceState.activeNorms, ?_, fun _ _ => rfl⟩
      rw [hnext, hkind]
      simp only [takeEffect, hnone]

/-- Within bounds and ceilings, and the same in memory and in the trie, as long as
the parameters leave room for themselves in an entry of the trie; and an activation
changes one field at most. -/
theorem paramsSound_of_keepsEntrySize {C : ConstitutionalCeilings} {chain : Chain}
    (h : chain.ParamsSound C) (hroomy : chain.state.consensusParams.Roomy) (ops : List ParamOp)
    (hkeeps : Along paramStep KeepsEntrySize chain ops) :
    (ops.foldl paramStep chain).ParamsSound C
      ∧ ∀ ceilings height ctx p, ActivationContained ceilings height ctx p := by
  have hrun : Throughout paramStep
      (fun c => c.ParamsSound C ∧ c.state.consensusParams.Roomy) chain ops :=
    throughout_of_along (I := fun c : Chain => c.ParamsSound C ∧ c.state.consensusParams.Roomy)
      (fun c op hc hop => paramsSound_paramStep hc.1 hc.2 hop) ⟨h, hroomy⟩ hkeeps
  exact ⟨hrun.last.1, activationContained⟩

end Chain

end

/-! ## A limit below the size of the parameters -/

/-- The first block, with the default ceilings in the trie. -/
def ceilingChain : Chain :=
  let committed := commitConstitutionalCeilingsAtGenesis genesisChain.state {}
  { genesisChain with state := orKeep genesisChain.state committed }

/-- A typed change that three agents vote for and that is due at height 207. -/
def typedRun (field : ConsensusParamField) (newValue : ConsensusParamValue) : List ParamOp :=
  let id := @ProposalRegistry.proposalId polyCrypto (Hash.ofByte 1)
    (.modifyConsensusParam field newValue 300) 1
  .submitTyped (Hash.ofByte 1) .safety {} {} field newValue 300 1 5
    :: (([1, 2, 3] : List UInt8).map fun b => .call 2 (.vote id (Hash.ofByte b) .safety true))
    ++ [.replay [] 7, .replay [] 207]

instance decidableKeepsEntrySizeKind (kind : ProposalKind) : Decidable (KeepsEntrySize kind) := by
  unfold KeepsEntrySize
  split <;> infer_instance

instance GovernanceMove.decidableKeepsEntrySize :
    (m : GovernanceMove) → Decidable m.KeepsEntrySize
  | .due _ height p => inferInstanceAs (Decidable (p.status = .timelocked →
      p.timelockUntil ≤ height → Sccgub.KeepsEntrySize p.kind))
  | .call .. | .commit | .restore _ => inferInstanceAs (Decidable True)

instance Chain.decidableKeepsEntrySize [Crypto] (self : Chain) :
    (op : ParamOp) → Decidable (self.KeepsEntrySize op)
  | .replay transitions height => inferInstanceAs (Decidable
      (∀ m ∈ self.governanceContext.replayMoves (ceilingsOf self.state) transitions height,
        m.KeepsEntrySize))
  | .call .. | .submitTyped .. => inferInstanceAs (Decidable True)

theorem paramsSound_ceilingChain : ceilingChain.ParamsSound {} where
  ceilings := by decide +kernel
  bounds := by decide +kernel
  within := by decide +kernel
  stored := by decide +kernel

/-- The live limit is a hundred bytes, and the trie still holds the limit of
before. -/
theorem small_entry_limit_not_stored :
    ceilingChain.ParamsSound {}
      ∧ (((typedRun .maxStateEntrySize (.u32 100)).foldl (@Chain.paramStep polyCrypto)
          ceilingChain).state.consensusParams.maxStateEntrySize = 100)
      ∧ ¬ Chain.ParamsSound {} ((typedRun .maxStateEntrySize (.u32 100)).foldl
          (@Chain.paramStep polyCrypto) ceilingChain) := by
  refine ⟨paramsSound_ceilingChain, by decide +kernel, fun h => ?_⟩
  exact absurd h.stored (by decide +kernel)

theorem paramsSound_of_keepsEntrySize_depth :
    Chain.ParamsSound {} ((typedRun .confirmationDepth (.u64 3)).foldl
      (@Chain.paramStep polyCrypto) ceilingChain) :=
  (@Chain.paramsSound_of_keepsEntrySize polyCrypto {} ceilingChain paramsSound_ceilingChain
    (by unfold ConsensusParams.Roomy; decide +kernel) (typedRun .confirmationDepth (.u64 3))
    (by decide +kernel)).1

end Sccgub
