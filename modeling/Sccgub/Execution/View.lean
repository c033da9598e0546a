import Mathlib
import Sccgub.Execution.Cpog

/-!
# What the gate reads

A verdict on a block depends on the entries and the root of the trie, the
nonces, the parameters, the tension and the height.  Two states that have these
in common take every block to the same verdict and to states that have them in
common again.
-/

namespace Sccgub

open Bincode FixedWidth WriteThrough Fallible

section

variable [Crypto]

structure SameView (s s' : ManagedWorldState) : Prop where
  entries : s'.trie.store = s.trie.store
  root : s'.stateRoot = s.stateRoot
  nonces : s'.agentNonces = s.agentNonces
  params : s'.consensusParams = s.consensusParams
  tension : s'.tensionField = s.tensionField
  height : s'.height = s.height

namespace SameView

variable {s s' : ManagedWorldState}

theorem refl (s : ManagedWorldState) : SameView s s := ⟨rfl, rfl, rfl, rfl, rfl, rfl⟩

theorem symm (h : SameView s s') : SameView s' s :=
  ⟨h.entries.symm, h.root.symm, h.nonces.symm, h.params.symm, h.tension.symm, h.height.symm⟩

theorem trans {s'' : ManagedWorldState} (h : SameView s s') (h' : SameView s' s'') :
    SameView s s'' :=
  ⟨h'.entries.trans h.entries, h'.root.trans h.root, h'.nonces.trans h.nonces,
    h'.params.trans h.params, h'.tension.trans h.tension, h'.height.trans h.height⟩

theorem eq_onto (h : SameView s s') : s' = s.onto s' := by
  rw [ManagedWorldState.onto, ← h.tension, ← h.height, ← h.params, ← h.entries]

theorem get (h : SameView s s') (key : Bytes) : s'.get key = s.get key := by
  rw [h.eq_onto]
  rfl

theorem balancesFromTrie (h : SameView s s') :
    Sccgub.balancesFromTrie s' = Sccgub.balancesFromTrie s := by
  rw [h.eq_onto]
  rfl

theorem treasuryFromTrie (h : SameView s s') :
    Sccgub.treasuryFromTrie s' = Sccgub.treasuryFromTrie s := by
  rw [h.eq_onto]
  rfl

theorem admitted (h : SameView s s') (ws : List StateWrite) : s'.admitted ws = s.admitted ws := by
  rw [h.eq_onto]
  rfl

theorem setHeight (h : SameView s s') (height : UInt64) :
    SameView (s.setHeight height) (s'.setHeight height) :=
  ⟨h.entries, h.root, h.nonces, h.params, h.tension, rfl⟩

end SameView

/-! ## Writes -/

/-- Equal entries and an equal root stay equal under insertions: the first one
drops the cached root on both sides. -/
theorem insertAll_congr {t t' : StateTrie} (hstore : t'.store = t.store)
    (hroot : t'.rootReadonly = t.rootReadonly) (ws : List (Bytes × Bytes)) :
    (t'.insertAll ws).store = (t.insertAll ws).store
      ∧ (t'.insertAll ws).rootReadonly = (t.insertAll ws).rootReadonly := by
  induction ws generalizing t t' with
  | nil => exact ⟨hstore, hroot⟩
  | cons w ws ih =>
      have hinsert : (t'.insert w.1 w.2).store = (t.insert w.1 w.2).store := by
        show t'.store.insert w.1 w.2 = t.store.insert w.1 w.2
        rw [hstore]
      refine ih hinsert ?_
      rw [(StateTrie.cacheValid_insert _ _ _).rootReadonly_eq,
        (StateTrie.cacheValid_insert _ _ _).rootReadonly_eq, StateTrie.computeRoot,
        StateTrie.computeRoot, hinsert]

namespace SameView

variable {s s' : ManagedWorldState}

theorem writeAll (h : SameView s s') (ws : List StateWrite) :
    SameView (s.writeAll ws) (s'.writeAll ws) := by
  obtain ⟨hstore, hroot⟩ := insertAll_congr h.entries h.root (s.admitted ws)
  refine ⟨?_, ?_, h.nonces, h.params, h.tension, h.height⟩
  · show (s'.trie.insertAll (s'.admitted ws)).store = _
    rw [h.admitted]
    exact hstore
  · show (s'.trie.insertAll (s'.admitted ws)).rootReadonly = _
    rw [h.admitted]
    exact hroot

theorem checkNonce (h : SameView s s') (agentId : AgentId) (nonce : BitVec 128) :
    Agree SameView (s.checkNonce agentId nonce) (s'.checkNonce agentId nonce) := by
  unfold ManagedWorldState.checkNonce
  rw [h.nonces]
  split
  · exact .error _
  · dsimp only
    split
    · exact .error _
    · split
      · exact .error _
      · exact .ok ⟨h.entries, h.root, rfl, h.params, h.tension, h.height⟩

theorem validateNonces (h : SameView s s') (transitions : List SymbolicTransition) :
    Agree SameView (s.validateNonces transitions) (s'.validateNonces transitions) :=
  Agree.foldlM (fun _ _ tx hab => hab.checkNonce tx.actor.agentId tx.nonce) transitions h

/-! ## A block -/

theorem settlementWrites (h : SameView s s') (acc : Settlement) :
    Sccgub.settlementWrites s' acc = Sccgub.settlementWrites s acc := by
  have hkeys : stateHasTreasuryKeys (s'.writeAll (accountWrites acc.balances acc.changed))
      = stateHasTreasuryKeys (s.writeAll (accountWrites acc.balances acc.changed)) := by
    rw [stateHasTreasuryKeys, stateHasTreasuryKeys, (h.writeAll _).entries]
  simp only [Sccgub.settlementWrites, hkeys]

theorem applyBlockTransitions (h : SameView s s') (balances : BalanceLedger)
    (transitions : List SymbolicTransition) :
    SameView (Sccgub.applyBlockTransitions s balances transitions).1
        (Sccgub.applyBlockTransitions s' balances transitions).1
      ∧ (Sccgub.applyBlockTransitions s' balances transitions).2
        = (Sccgub.applyBlockTransitions s balances transitions).2 := by
  obtain ⟨state', hrun⟩ := foldl_applyTransition_withState transitions { state := s, balances } s'
  rw [← ManagedWorldState.writeAll_nil s, ← ManagedWorldState.writeAll_nil s',
    applyBlockTransitions_writeAll, applyBlockTransitions_writeAll, hrun]
  exact ⟨h.writeAll _, rfl⟩

end SameView

/-- Applied blocks whose states have the view in common. -/
structure SameApplied (a a' : AppliedBlock) : Prop where
  state : SameView a.state a'.state
  balances : a'.balances = a.balances
  treasury : a'.treasury = a.treasury
  outcome : a'.outcome = a.outcome
  deltas : a'.deltas = a.deltas

theorem SameView.applyBlock {s s' : ManagedWorldState} (h : SameView s s')
    (balances : BalanceLedger) (treasury : Treasury) (transitions : List SymbolicTransition)
    (receipts : List CausalReceipt) (blockVersion : UInt32) (validatorPublicKey : Hash)
    (gasPrice : TensionValue) (height : UInt64) :
    Agree SameApplied
      (Sccgub.applyBlock s balances treasury transitions receipts blockVersion validatorPublicKey
        gasPrice height)
      (Sccgub.applyBlock s' balances treasury transitions receipts blockVersion validatorPublicKey
        gasPrice height) := by
  have heconomics : Agree (fun a a' : ManagedWorldState × Settlement => SameView a.1 a'.1
      ∧ a'.2 = a.2)
      (applyBlockEconomics s balances treasury transitions receipts blockVersion validatorPublicKey
        gasPrice defaultBlockReward)
      (applyBlockEconomics s' balances treasury transitions receipts blockVersion
        validatorPublicKey gasPrice defaultBlockReward) := by
    unfold applyBlockEconomics
    refine (Agree.refl (chargeFees balances treasury transitions receipts blockVersion
      gasPrice)).bind ?_
    rintro charged _ rfl
    refine .ok ⟨?_, rfl⟩
    rw [commitSettlement_eq, commitSettlement_eq, h.settlementWrites]
    exact h.writeAll _
  unfold Sccgub.applyBlock
  refine heconomics.bind ?_
  rintro ⟨state₁, settled⟩ ⟨state₁', settled'⟩ ⟨hview, hsettled⟩
  dsimp only at hview hsettled ⊢
  rw [hsettled]
  obtain ⟨hrun, hrest⟩ := hview.applyBlockTransitions settled.balances transitions
  generalize Sccgub.applyBlockTransitions state₁ settled.balances transitions = run at *
  generalize Sccgub.applyBlockTransitions state₁' settled.balances transitions = run' at *
  have hbalances : run'.2.1 = run.2.1 := by rw [hrest]
  have hdeltas : run'.2.2 = run.2.2 := by rw [hrest]
  split
  · refine .ok ⟨?_, hbalances, rfl, rfl, hdeltas⟩
    dsimp only
    rw [commitTreasuryState, commitTreasuryState, ManagedWorldState.applyDelta_writes,
      ManagedWorldState.applyDelta_writes]
    exact hrun.writeAll _
  · exact .ok ⟨hrun, hbalances, rfl, rfl, hdeltas⟩

/-! ## The gate -/

namespace SameView

variable {s s' : ManagedWorldState}

theorem replayInputs (h : SameView s s') (block : Block) :
    Agree (fun i i' : ReplayInputs => SameView i.state i'.state ∧ i'.balances = i.balances
      ∧ i'.treasury = i.treasury ∧ i'.gasPrice = i.gasPrice)
      (Sccgub.replayInputs block s) (Sccgub.replayInputs block s') := by
  have hprice : replayGasPrice s' block.header.version = replayGasPrice s block.header.version := by
    rw [h.eq_onto]
    rfl
  unfold Sccgub.replayInputs
  rw [h.balancesFromTrie, h.treasuryFromTrie, hprice]
  refine (Agree.refl _).bind ?_
  rintro balances _ rfl
  refine (Agree.refl _).bind ?_
  rintro treasury _ rfl
  refine ((h.validateNonces block.body.transitions).mapError _).bind ?_
  intro state state' hstate
  refine (Agree.refl _).bind ?_
  rintro gasPrice _ rfl
  exact .ok ⟨hstate, rfl, rfl, rfl⟩

theorem replayBlock (h : SameView s s') (block : Block) :
    Agree SameApplied (Sccgub.replayBlock block s) (Sccgub.replayBlock block s') := by
  unfold Sccgub.replayBlock
  refine (h.replayInputs block).bind ?_
  rintro ⟨state, balances, treasury, gasPrice⟩ ⟨state', _, _, _⟩ ⟨hstate, rfl, rfl, rfl⟩
  exact (hstate.applyBlock _ _ _ _ _ _ _ _).mapError _

theorem executeBlockPhase (h : SameView s s') (phase : PhiPhase) (block : Block) :
    Sccgub.executeBlockPhase phase block s' = Sccgub.executeBlockPhase phase block s := by
  have hperTx : perTxPhase phase block s' = perTxPhase phase block s := by
    have htx : ∀ tx, phiCheckSingleTx phase tx s' = phiCheckSingleTx phase tx s := fun tx => by
      rw [h.eq_onto]
      exact phiCheckSingleTx_onto phase tx s s'
    unfold perTxPhase
    simp only [htx]
  cases phase with
  | topology => rfl
  | performance => rfl
  | evolution => rfl
  | body =>
      rw [h.eq_onto]
      rfl
  | architecture =>
      rw [h.eq_onto]
      rfl
  | feedback =>
      rw [h.eq_onto]
      rfl
  | _ => exact hperTx

theorem phiTraversalErrors (h : SameView s s') (block : Block) :
    Sccgub.phiTraversalErrors block s' = Sccgub.phiTraversalErrors block s := by
  have htraverse : ∀ phases, traverse block s' phases = traverse block s phases := by
    intro phases
    induction phases with
    | nil => rfl
    | cons phase rest ih => simp only [traverse, h.executeBlockPhase, ih]
  have hlog : phiTraversalBlock block s' = phiTraversalBlock block s := by
    simp only [phiTraversalBlock, htraverse]
  rw [Sccgub.phiTraversalErrors, hlog]
  rfl

/-- The verdict on a block is a matter of the view. -/
theorem validateCpog (h : SameView s s') (block : Block) (parentBlockId : Hash) :
    Sccgub.validateCpog block s' parentBlockId = Sccgub.validateCpog block s parentBlockId := by
  have hheader : headerErrors block s' parentBlockId = headerErrors block s parentBlockId := by
    rw [h.eq_onto]
    rfl
  have htension : tensionBeforeErrors block s' = tensionBeforeErrors block s := by
    rw [h.eq_onto]
    rfl
  have hcapture : capturePreventionErrors block s' = capturePreventionErrors block s := by
    rw [h.eq_onto]
    rfl
  have hreplay := h.replayBlock block
  unfold Sccgub.validateCpog runCpog
  rw [hheader, htension, hcapture, h.phiTraversalErrors]
  generalize Sccgub.replayBlock block s = replay at *
  generalize Sccgub.replayBlock block s' = replay' at *
  cases hreplay with
  | error e =>
      dsimp only
      split <;> rfl
  | ok happlied =>
      dsimp only
      rw [rootRows, rootRows, happlied.balances, happlied.state.root]
      split <;> rfl

end SameView

end

end Sccgub
