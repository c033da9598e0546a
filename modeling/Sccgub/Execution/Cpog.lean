import Mathlib
import Sccgub.Execution.Phi
import Sccgub.State.Apply
import Sccgub.Types.Economics

/-!
# Causal proof of governance

The gate every block passes: header checks, the replay of the block on a clone
of the state, the validator-set check, and the phases.

The clone shares the state's store, so the replay's writes go there whether the
block is accepted or not.  `runCpog` returns the verdict together with what the
store holds afterwards; `validateCpog` is the verdict alone.

Two theorems say what a run does.  `validateCpog_eq_valid_iff` takes a valid
verdict apart; `durable_runCpog` says what reaches the store.
-/

namespace Sccgub

open Bincode FixedWidth WriteThrough

inductive CpogResult where
  | valid
  | invalid (errors : List String)
  deriving DecidableEq, Inhabited

def CpogResult.isValid : CpogResult → Bool
  | valid => true
  | invalid _ => false

def CpogResult.ofErrors : List String → CpogResult
  | [] => valid
  | errors => invalid errors

theorem CpogResult.ofErrors_eq_valid {errors : List String} :
    ofErrors errors = valid ↔ errors = [] := by
  cases errors <;> simp [ofErrors]

/-! ## Header -/

section

variable [Crypto]

/-- Root of a section of the block; an empty one is zero. -/
def sectionRoot (items : List Bytes) : Hash :=
  if items.isEmpty then zeroHash else merkleRootOfBytes items

def parentRow (block : Block) (parentBlockId : Hash) : Bool × String :=
  if block.header.height = 0 then
    (block.header.parentId ≠ zeroHash, "Genesis block must have ZERO_HASH parent")
  else
    (block.header.parentId ≠ parentBlockId,
      s!"Parent ID mismatch: expected {hexEncode parentBlockId.toList}, got {hexEncode block.header.parentId.toList}")

/-- Parent, seal, proof depth, tension, and the roots over the sections. -/
def headerRows (block : Block) (state : ManagedWorldState) (parentBlockId : Hash) :
    List (Bool × String) :=
  let header := block.header
  let maxProofDepth := state.consensusParams.maxProofDepth
  [parentRow block parentBlockId,
    (header.mfidelSeal ≠ MfidelAtomicSeal.fromHeight header.height,
      s!"Mfidel seal mismatch at height {header.height}"),
    (maxProofDepth < block.proof.recursionDepth,
      s!"Proof recursion depth {block.proof.recursionDepth} exceeds max {maxProofDepth}"),
    (header.tensionBefore + state.tensionField.currentBudget < header.tensionAfter,
      "Tension exceeds budget"),
    (header.transitionRoot ≠ merkleRootOfBytes (block.body.transitions.map (·.txId.toList)),
      "Transition root mismatch"),
    (block.body.transitions.length ≠ block.body.transitionCount.toNat,
      "Transition count mismatch"),
    (header.receiptRoot ≠ sectionRoot (block.receipts.map (canonicalBytes CausalReceipt.codec)),
      if block.receipts.isEmpty then "Non-zero receipt root for empty receipts"
      else "Receipt root mismatch"),
    (header.governanceHash ≠ canonicalHash GovernanceSnapshot.codec block.governance,
      "Governance hash mismatch"),
    (header.causalRoot
        ≠ sectionRoot (block.causalDelta.newEdges.map (canonicalBytes CausalEdge.codec)),
      if block.causalDelta.newEdges.isEmpty then "Non-zero causal root for empty edges"
      else "Causal root mismatch")]

def headerErrors (block : Block) (state : ManagedWorldState) (parentBlockId : Hash) :
    List String :=
  allErrors (headerRows block state parentBlockId)

end

/-! ## Replay -/

/-- The fee oracle of validation.  From the fourth version on the tension is a
median, with a floor once ceilings are committed. -/
def replayGasPrice (state : ManagedWorldState) (version : UInt32) :
    Except String TensionValue :=
  let econ : EconomicState := {}
  let budget := state.tensionField.currentBudget
  if version ≥ patch05BlockVersion then
    match tensionHistoryFromTrie state with
    | .error e => .error s!"tension_history unreadable for v4 fee oracle: {e}"
    | .ok history =>
        let samples := tensionWindow history state.consensusParams.medianTensionWindow.toNat
        match constitutionalCeilingsFromTrie state with
        | .ok (some ceilings) =>
            .ok (econ.effectiveFeeMedianFloored samples budget state.consensusParams ceilings)
        | _ => .ok (econ.effectiveFeeMedian samples budget state.consensusParams)
  else .ok (econ.effectiveFee state.tensionField.total budget)

/-- An error with the step it comes from. -/
def during {α : Type} (label : String) (result : Except String α) : Except String α :=
  result.mapError fun e => label ++ ": " ++ e

def tensionBeforeErrors (block : Block) (state : ManagedWorldState) : List String :=
  allErrors [(block.header.tensionBefore ≠ state.tensionField.total,
    s!"tension_before mismatch: header={block.header.tensionBefore.display}, parent_state={state.tensionField.total.display}")]

theorem tensionBeforeErrors_eq_nil_iff {block : Block} {state : ManagedWorldState} :
    tensionBeforeErrors block state = [] ↔
      block.header.tensionBefore = state.tensionField.total := by
  rw [tensionBeforeErrors, allErrors_eq_nil_iff]
  simp

/-- What the replay starts from. -/
structure ReplayInputs where
  state : ManagedWorldState
  balances : BalanceLedger
  treasury : Treasury
  gasPrice : TensionValue

/-- A clone of the state with the nonces moved on; ledger and treasury are read
back from the trie. -/
def replayInputs (block : Block) (state : ManagedWorldState) : Except String ReplayInputs := do
  let balances ← during "Malformed balance trie" (balancesFromTrie state)
  let treasury ← during "Malformed treasury trie" (treasuryFromTrie state)
  let state' ← during "Nonce violation during replay"
    (state.validateNonces block.body.transitions)
  let gasPrice ← replayGasPrice state block.header.version
  return { state := state', balances, treasury, gasPrice }

/-- Everything the inputs are taken from. -/
theorem replayInputs_eq_ok {block : Block} {state : ManagedWorldState} {inputs : ReplayInputs}
    (h : replayInputs block state = .ok inputs) :
    balancesFromTrie state = .ok inputs.balances ∧ treasuryFromTrie state = .ok inputs.treasury
      ∧ state.validateNonces block.body.transitions = .ok inputs.state
      ∧ replayGasPrice state block.header.version = .ok inputs.gasPrice := by
  unfold replayInputs during at h
  rcases hb : balancesFromTrie state with e | balances
  · rw [hb] at h
    cases h
  rcases ht : treasuryFromTrie state with e | treasury
  · rw [hb, ht] at h
    cases h
  rcases hn : state.validateNonces block.body.transitions with e | state'
  · rw [hb, ht, hn] at h
    cases h
  rcases hp : replayGasPrice state block.header.version with e | gasPrice
  · rw [hb, ht, hn, hp] at h
    cases h
  rw [hb, ht, hn, hp] at h
  cases h
  exact ⟨rfl, rfl, rfl, rfl⟩

theorem replayInputs_state {block : Block} {state : ManagedWorldState} {inputs : ReplayInputs}
    (h : replayInputs block state = .ok inputs) :
    inputs.state = { state with agentNonces := inputs.state.agentNonces } :=
  ManagedWorldState.validateNonces_frame (replayInputs_eq_ok h).2.2.1

/-- The block applied to the clone. -/
def replayBlock [Crypto] (block : Block) (state : ManagedWorldState) :
    Except String AppliedBlock := do
  let inputs ← replayInputs block state
  during "Economics replay failed"
    (applyBlock inputs.state inputs.balances inputs.treasury block.body.transitions block.receipts
      block.header.version block.header.validatorId inputs.gasPrice block.header.height)

section

variable [Crypto]

/-- The roots the header claims against those of the replay. -/
def rootRows (block : Block) (applied : AppliedBlock) : List (Bool × String) :=
  let stateRoot := applied.state.stateRoot
  let balanceRoot := applied.balances.balanceRoot
  [(block.header.stateRoot ≠ stateRoot,
      s!"State root mismatch: header={hexEncode block.header.stateRoot.toList}, computed={hexEncode stateRoot.toList}"),
    (block.header.balanceRoot ≠ balanceRoot,
      s!"Balance root mismatch: header={hexEncode block.header.balanceRoot.toList}, computed={hexEncode balanceRoot.toList}")]

/-! ## Validator set and phases -/

/-- Changes that a proposer brings are checked against the current set; those
that evidence brings are left to the phases. -/
def capturePreventionErrors (block : Block) (state : ManagedWorldState) : List String :=
  let changes := block.body.validatorSetChanges.getD []
  if changes.isEmpty then []
  else
    match validatorSetFromTrie state with
    | .ok (some currentSet) =>
        match validateAllValidatorSetChanges currentSet block.header.height
            state.consensusParams.confirmationDepth
            (changes.filter fun c => !c.quorumSignatures.isEmpty) with
        | .ok () => []
        | .error rejection =>
            [s!"CPoG #12 (validator set capture-prevention): {rejection.display}"]
    | .ok none =>
        ["CPoG #12: block carries ValidatorSetChange events but system/validator_set is not initialized"]
    | .error e => [s!"CPoG #12: validator set unreadable during check: {e}"]

def phiTraversalErrors (block : Block) (state : ManagedWorldState) : List String :=
  let log := phiTraversalBlock block state
  if log.isAllPassed then []
  else (log.phasesCompleted.filter fun r => !r.passed).map fun r =>
    s!"Phi {r.phase.display}: {r.details}"

/-! ## The gate -/

structure CpogRun where
  result : CpogResult
  durable : Option Entries

/-- A replay that fails ends the run with its error; it fails before its first
write. -/
def runCpog (block : Block) (state : ManagedWorldState) (parentBlockId : Hash) : CpogRun :=
  let header := headerErrors block state parentBlockId
  let closing := capturePreventionErrors block state ++ phiTraversalErrors block state
  if block.header.height > 0 then
    let before := header ++ tensionBeforeErrors block state
    match replayBlock block state with
    | .error e => ⟨.invalid (before ++ [e]), state.trie.durable⟩
    | .ok applied =>
        ⟨.ofErrors (before ++ allErrors (rootRows block applied) ++ closing),
          applied.state.trie.durable⟩
  else ⟨.ofErrors (header ++ closing), state.trie.durable⟩

def validateCpog (block : Block) (state : ManagedWorldState) (parentBlockId : Hash) : CpogResult :=
  (runCpog block state parentBlockId).result

/-! ## What reaches the store -/

/-- What a replay writes; nothing if it fails on the way. -/
def replayWrites (block : Block) (state : ManagedWorldState) : List StateWrite :=
  match replayInputs block state with
  | .error _ => []
  | .ok inputs =>
      blockWrites inputs.state inputs.balances inputs.treasury block.body.transitions
        block.receipts block.header.version block.header.validatorId inputs.gasPrice
        block.header.height

/-- The genesis block is not replayed. -/
def speculativeWrites (block : Block) (state : ManagedWorldState) : List StateWrite :=
  if block.header.height > 0 then replayWrites block state else []

/-- A replay that succeeds lets its writes through. -/
theorem replayBlock_state {block : Block} {state : ManagedWorldState} {applied : AppliedBlock}
    (h : replayBlock block state = .ok applied) :
    applied.state.trie = state.trie.insertAll (state.admitted (replayWrites block state)) := by
  unfold replayBlock during at h
  unfold replayWrites
  rcases hi : replayInputs block state with e | inputs
  · rw [hi] at h
    cases h
  · rw [hi] at h
    dsimp only
    rcases ha : applyBlock inputs.state inputs.balances inputs.treasury block.body.transitions
        block.receipts block.header.version block.header.validatorId inputs.gasPrice
        block.header.height with e | applied'
    · simp only [bind, Except.bind, ha] at h
      cases h
    · simp only [bind, Except.bind, ha] at h
      cases h
      rw [applyBlock_eq ha]
      -- the nonces are the only difference between the clone and the state
      generalize blockWrites inputs.state inputs.balances inputs.treasury block.body.transitions
        block.receipts block.header.version block.header.validatorId inputs.gasPrice
        block.header.height = writes
      rw [replayInputs_state hi]
      rfl

/-- A replay that fails has written nothing. -/
theorem replayWrites_of_error {block : Block} {state : ManagedWorldState} {e : String}
    (h : replayBlock block state = .error e) : replayWrites block state = [] := by
  unfold replayBlock during at h
  unfold replayWrites
  rcases hi : replayInputs block state with e | inputs
  · rfl
  · rw [hi] at h
    dsimp only
    rcases ha : applyBlock inputs.state inputs.balances inputs.treasury block.body.transitions
        block.receipts block.header.version block.header.validatorId inputs.gasPrice
        block.header.height with e' | applied
    · exact blockWrites_of_error ha
    · simp only [bind, Except.bind, ha] at h
      cases h

/-- Whatever the verdict, the store has the replay's writes. -/
theorem durable_runCpog (block : Block) (state : ManagedWorldState) (parentBlockId : Hash) :
    (runCpog block state parentBlockId).durable
      = state.trie.durable.map (putAll · (state.admitted (speculativeWrites block state))) := by
  have hself : state.trie.durable = state.trie.durable.map (putAll · (state.admitted [])) := by
    show state.trie.durable = state.trie.durable.map id
    rw [Option.map_id]
    rfl
  unfold runCpog speculativeWrites
  dsimp only
  split
  · rcases hr : replayBlock block state with e | applied
    · rw [replayWrites_of_error hr]
      exact hself
    · dsimp only
      rw [replayBlock_state hr, StateTrie.durable_insertAll]
  · exact hself

/-! ## What a valid verdict says -/

/-- The header's claims about the replayed state. -/
structure ReplayMatches (block : Block) (state : ManagedWorldState) (applied : AppliedBlock) :
    Prop where
  replay : replayBlock block state = .ok applied
  tensionBefore : block.header.tensionBefore = state.tensionField.total
  stateRoot : block.header.stateRoot = applied.state.stateRoot
  balanceRoot : block.header.balanceRoot = applied.balances.balanceRoot

structure CpogValid (block : Block) (state : ManagedWorldState) (parentBlockId : Hash) :
    Prop where
  header : ∀ row ∈ headerRows block state parentBlockId, row.1 = false
  replay : block.header.height > 0 → ∃ applied, ReplayMatches block state applied
  capture : capturePreventionErrors block state = []
  phases : ∀ phase, (executeBlockPhase phase block state).passed = true

theorem phiTraversalErrors_eq_nil_iff {block : Block} {state : ManagedWorldState} :
    phiTraversalErrors block state = []
      ↔ ∀ phase, (executeBlockPhase phase block state).passed = true := by
  rw [← isAllPassed_phiTraversalBlock]
  unfold phiTraversalErrors
  by_cases hall : (phiTraversalBlock block state).isAllPassed = true
  · simp [hall]
  · simp only [hall, Bool.false_eq_true, if_false, iff_false]
    intro hnone
    refine hall (isAllPassed_of_all_passed ?_)
    simpa [List.filter_eq_nil_iff] using hnone

theorem rootRows_pass_iff {block : Block} {applied : AppliedBlock} :
    allErrors (rootRows block applied) = [] ↔
      block.header.stateRoot = applied.state.stateRoot
        ∧ block.header.balanceRoot = applied.balances.balanceRoot := by
  rw [allErrors_eq_nil_iff]
  simp [rootRows]

theorem validateCpog_eq_valid_iff {block : Block} {state : ManagedWorldState}
    {parentBlockId : Hash} :
    validateCpog block state parentBlockId = .valid ↔ CpogValid block state parentBlockId := by
  unfold validateCpog runCpog
  dsimp only
  split
  · rename_i hheight
    rcases hr : replayBlock block state with e | applied
    · refine ⟨fun h => ?_, fun h => ?_⟩
      · cases h
      · obtain ⟨applied, happlied⟩ := h.replay hheight
        rw [happlied.replay] at hr
        cases hr
    · dsimp only
      rw [CpogResult.ofErrors_eq_valid, List.append_eq_nil_iff, List.append_eq_nil_iff,
        List.append_eq_nil_iff, List.append_eq_nil_iff, rootRows_pass_iff, headerErrors,
        allErrors_eq_nil_iff, phiTraversalErrors_eq_nil_iff, tensionBeforeErrors_eq_nil_iff]
      constructor
      · rintro ⟨⟨⟨hheader, htension⟩, hstate, hbalance⟩, hcapture, hphases⟩
        exact ⟨hheader, fun _ => ⟨applied, hr, htension, hstate, hbalance⟩, hcapture, hphases⟩
      · intro h
        obtain ⟨applied', happlied⟩ := h.replay hheight
        have heq : applied' = applied := Except.ok.inj (happlied.replay.symm.trans hr)
        rw [heq] at happlied
        exact ⟨⟨⟨h.header, happlied.tensionBefore⟩, happlied.stateRoot, happlied.balanceRoot⟩,
          h.capture, h.phases⟩
  · rename_i hheight
    rw [CpogResult.ofErrors_eq_valid, List.append_eq_nil_iff, List.append_eq_nil_iff, headerErrors,
      allErrors_eq_nil_iff, phiTraversalErrors_eq_nil_iff]
    constructor
    · rintro ⟨hheader, hcapture, hphases⟩
      exact ⟨hheader, fun h => absurd h hheight, hcapture, hphases⟩
    · intro h
      exact ⟨h.header, h.capture, h.phases⟩

/-! ## Plain blocks -/

def plainSnapshot : GovernanceSnapshot := ⟨zeroHash, 0, false, .deterministic, {}, {}⟩

/-- A block with nothing in it but transitions, to evaluate closed cases with. -/
def plainBlock (height : UInt64) (parentId : Hash) (transitions : List SymbolicTransition)
    (stateRoot balanceRoot : Hash) : Block where
  header :=
    { chainId := zeroHash
      blockId := zeroHash
      parentId
      height
      timestamp := .genesis
      stateRoot
      transitionRoot := merkleRootOfBytes (transitions.map (·.txId.toList))
      receiptRoot := zeroHash
      causalRoot := zeroHash
      proofRoot := zeroHash
      governanceHash := canonicalHash GovernanceSnapshot.codec plainSnapshot
      tensionBefore := .zero
      tensionAfter := .zero
      mfidelSeal := .fromHeight height
      balanceRoot
      validatorId := Hash.ofByte 1
      version := canonicalAgentBlockVersion
      roundHistoryRoot := zeroHash }
  body :=
    { transitions
      transitionCount := UInt32.ofNat transitions.length
      totalTensionDelta := .zero
      constraintSatisfaction := []
      genesisConsensusParams := none
      validatorSetChanges := none
      equivocationEvidence := none }
  receipts := []
  causalDelta := ⟨[], [], zeroHash⟩
  proof :=
    { blockHeight := height
      transitionsProven := []
      phiTraversalLog := ⟨[], false, 13⟩
      governanceSnapshotHash := zeroHash
      tensionBefore := .zero
      tensionAfter := .zero
      constraintResults := []
      recursionDepth := 0
      validatorSignature := []
      causalHash := zeroHash }
  governance := plainSnapshot

/-- A plain block with the roots of its own replay. -/
def replayedBlock (height : UInt64) (parentId : Hash) (transitions : List SymbolicTransition)
    (state : ManagedWorldState) : Block :=
  match replayBlock (plainBlock height parentId transitions zeroHash zeroHash) state with
  | .ok applied =>
      plainBlock height parentId transitions applied.state.stateRoot applied.balances.balanceRoot
  | .error _ => plainBlock height parentId transitions zeroHash zeroHash

end

end Sccgub
