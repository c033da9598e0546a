import Mathlib
import Sccgub.Execution.Checks
import Sccgub.Execution.Scce
import Sccgub.Execution.ValidatorSetAdmission
import Sccgub.Types.CausalGraph

/-!
# Phi traversal

Thirteen phases over a block.  Seven of them check the transitions one by one,
with the same function that admission uses; the other six look at the block.
The traversal stops at the first phase that fails.

`isAllPassed_phiTraversalBlock` says that a block passes exactly when every
phase does.
-/

namespace Sccgub

open Bincode FixedWidth

/-! ## Rejections as text -/

def ValidatorSetChangeRejection.display : ValidatorSetChangeRejection → String
  | activationTooSoon effective admittedAt delay raw =>
      s!"effective_height {effective} < H_admit {admittedAt} + activation_delay {delay} (raw {raw})"
  | changeIdMismatch => "change_id does not match canonical hash of (kind, proposed_at)"
  | duplicateSigner => "quorum_signatures contains duplicate signer"
  | signerNotInActiveSet signer =>
      s!"signer {debugBytes signer.toList} is not in active_set(H_admit)"
  | signatureInvalid signer => s!"signature by {debugBytes signer.toList} fails verify_strict"
  | quorumNotReached got need => s!"signer voting power sum {got} < quorum threshold {need}"

def EvidenceAdmissionRejection.display : EvidenceAdmissionRejection → String
  | evidenceSourcedHasQuorumSigs idx =>
      s!"evidence-sourced Remove at index {idx} has non-empty quorum_signatures (should be empty per §15.7 bypass)"
  | orphanEvidenceSourcedRemove idx =>
      s!"ValidatorSetChange at index {idx} has empty quorum_signatures but does not match any EquivocationEvidence in the block"
  | evidenceMissingSyntheticRemove idx =>
      s!"EquivocationEvidence at index {idx} has no matching synthetic Remove in body.validator_set_changes (§22.4 INV-SLASHING-LIVENESS)"
  | synthesisFailed idx reason => s!"evidence at index {idx} failed synthesis: {reason}"
  | changeIdMismatch admitted expected =>
      s!"evidence-sourced Remove change_id {debugBytes admitted.toList} does not match synthesized change_id {debugBytes expected.toList}"

/-! ## One transition -/

def requiresMeaning : TransitionKind → Bool
  | .governanceUpdate | .normProposal | .constraintAddition => true
  | _ => false

/-- Phase 5: the signature's length and the target's. -/
def phaseForm (tx : SymbolicTransition) (state : ManagedWorldState) : PhiPhaseResult :=
  if tx.signature.length < 64 then
    ⟨.form, false, s!"Signature too short ({tx.signature.length} bytes, need >= 64)"⟩
  else if tx.intent.target.length ≤ state.consensusParams.maxSymbolAddressLen.toNat then
    ⟨.form, true, "Form validated"⟩
  else ⟨.form, false, "Address exceeds max length"⟩

/-- Phase 6: governance operations need at least the meaning level. -/
def phaseOrganization (tx : SymbolicTransition) : PhiPhaseResult :=
  if requiresMeaning tx.intent.kind
      && tx.actor.governanceLevel.asU8 > PrecedenceLevel.meaning.asU8 then
    ⟨.organization, false,
      s!"Requires Meaning precedence but actor has {tx.actor.governanceLevel.debug}"⟩
  else ⟨.organization, true, "Governance invariants verified"⟩

/-- Phase 8: payload, target, nonce, and the key at the height of the state. -/
def phaseExecution (tx : SymbolicTransition) (state : ManagedWorldState) : PhiPhaseResult :=
  match checkPayloadConsistency tx with
  | .inconsistent reason => ⟨.execution, false, s!"Payload inconsistent: {reason}"⟩
  | .consistent =>
      if tx.intent.target.isEmpty then ⟨.execution, false, "Missing target"⟩
      else if tx.nonce = 0 then ⟨.execution, false, "Zero nonce"⟩
      else
        match checkTxSupersededKey tx state state.height with
        | .ok => ⟨.execution, true, "Execution verified: payload consistent"⟩
        | .superseded _ _ activeKey =>
            ⟨.execution, false, s!"Superseded signing key: active key at height {state.height} is {hexEncode activeKey.toList}"⟩
        | .storageError e => ⟨.execution, false, s!"Key rotation registry unreadable: {e}"⟩

def phiCheckSingleTx (phase : PhiPhase) (tx : SymbolicTransition) (state : ManagedWorldState) :
    PhiPhaseResult :=
  match phase with
  | .distinction =>
      match checkTransitionWh tx with
      | .ok () => ⟨phase, true, "WHBinding complete"⟩
      | .error e => ⟨phase, false, e⟩
  | .constraint =>
      let result := scceValidate tx state state.consensusParams.maxConstraintPropagationDepth
        state.consensusParams.maxConstraintPropagationSteps
      ⟨phase, result.valid, result.details⟩
  | .ontology =>
      match checkOntology tx with
      | .allowed => ⟨phase, true, "Ontology verified"⟩
      | .rejected kind target allowed =>
          ⟨phase, false, s!"Kind {kind.debug} cannot target {fromUtf8Lossy target} (allowed: {debugList (allowed.map fromUtf8Lossy)})"⟩
  | .form => phaseForm tx state
  | .organization => phaseOrganization tx
  | .module => ⟨phase, true, "Module boundaries respected"⟩
  | .execution => phaseExecution tx state
  -- the callers filter with `isPerTxPhase`; the source panics here
  | .topology | .body | .architecture | .performance | .feedback | .evolution =>
      ⟨phase, false, s!"Block-only phase {phase.display} passed to phi_check_single_tx"⟩

def isPerTxPhase : PhiPhase → Bool
  | .distinction | .constraint | .ontology | .form | .organization | .module | .execution => true
  | _ => false

/-- The phases read what `onto` carries over. -/
theorem phiCheckSingleTx_onto (phase : PhiPhase) (tx : SymbolicTransition)
    (state other : ManagedWorldState) :
    phiCheckSingleTx phase tx (state.onto other) = phiCheckSingleTx phase tx state := by
  cases phase with
  | constraint =>
      simp only [phiCheckSingleTx, scceValidate_onto]
      rfl
  | _ => rfl

/-! ## Block phases -/

/-- Phase 4: no cycle among the edges the block adds. -/
def phaseTopology (block : Block) : PhiPhaseResult :=
  let delta := block.causalDelta
  let graph := delta.newEdges.foldl CausalGraph.addEdge
    (delta.newVertices.foldl CausalGraph.addVertex {})
  if delta.newEdges.isEmpty || graph.isAcyclic then
    ⟨.topology, true, "Causal graph is acyclic"⟩
  else ⟨.topology, false, "CYCLE DETECTED in causal graph"⟩

/-- Phase 9: tension grows by no more than the budget. -/
def phaseBody (block : Block) (state : ManagedWorldState) : PhiPhaseResult :=
  let budget := state.tensionField.currentBudget
  let header := block.header
  if header.tensionAfter ≤ header.tensionBefore + budget then
    ⟨.body, true, s!"Tension {header.tensionAfter.display} within budget"⟩
  else
    ⟨.body, false, s!"Tension {header.tensionAfter.display} exceeds {header.tensionBefore.display} + budget {budget.display}"⟩

/-- Phase 10: producer, version, ceilings, and the counts of the body. -/
def phaseArchitecture (block : Block) (state : ManagedWorldState) : PhiPhaseResult :=
  let transitions := block.body.transitions
  if block.header.validatorId = zeroHash then
    ⟨.architecture, false, "Block validator_id is zero (unassigned)"⟩
  else if !isSupportedBlockVersion block.header.version then
    ⟨.architecture, false, s!"Unsupported block version {block.header.version}, expected 1, 2, or 3"⟩
  else
    match validateCeilingsForBlock state block.header with
    | .ceilingsMissing =>
        ⟨.architecture, false, "v3 chain missing system/constitutional_ceilings at phase-10 check (§19.1 requires it at genesis)"⟩
    | .violation v => ⟨.architecture, false, s!"Constitutional ceiling violated: {v.display}"⟩
    | .error e => ⟨.architecture, false, s!"Constitutional ceilings unreadable: {e}"⟩
    | .valid | .notV3 =>
        if transitions.length ≠ block.body.transitionCount.toNat then
          ⟨.architecture, false, s!"Transition count mismatch: header says {block.body.transitionCount} but body has {transitions.length}"⟩
        else if !transitions.isEmpty && !block.receipts.isEmpty
            && block.receipts.length ≠ transitions.length then
          ⟨.architecture, false, s!"Receipt count {block.receipts.length} != transition count {transitions.length}"⟩
        else
          ⟨.architecture, true, s!"Architecture verified: v{block.header.version}, {transitions.length} signed transitions"⟩

/-- Phase 11: the header's seal, and from the fourth version on the seals of
agent registrations. -/
def phasePerformance [Crypto] (block : Block) : PhiPhaseResult :=
  let header := block.header
  let expected := MfidelAtomicSeal.fromHeight header.height
  if header.mfidelSeal ≠ expected then
    ⟨.performance, false, s!"Mfidel seal mismatch: expected f[{expected.row}][{expected.column}], got f[{header.mfidelSeal.row}][{header.mfidelSeal.column}]"⟩
  else
    let expectedReg := MfidelAtomicSeal.fromHeightV4 header.height header.parentId
    let ground := block.body.transitions.zipIdx.find? fun (tx, _) =>
      tx.intent.kind = .agentRegistration && tx.actor.mfidelSeal ≠ expectedReg
    match if header.version ≥ patch05BlockVersion then ground else none with
    | some (tx, i) =>
        ⟨.performance, false, s!"INV-SEAL-NO-GRIND: AgentRegistration tx {i} has seal f[{tx.actor.mfidelSeal.row}][{tx.actor.mfidelSeal.column}], expected f[{expectedReg.row}][{expectedReg.column}] at height {header.height} under v4"⟩
    | none => ⟨.performance, true, s!"Mfidel seal f[{expected.row}][{expected.column}] correct"⟩

/-- The changes and the evidence of the body against the current set. -/
def checkValidatorSetEvents [Crypto] (block : Block) (state : ManagedWorldState) :
    Except String Unit :=
  let changes := block.body.validatorSetChanges.getD []
  let evidence := block.body.equivocationEvidence.getD []
  if changes.isEmpty && evidence.isEmpty then .ok ()
  else
    match validatorSetFromTrie state with
    | .error e => .error s!"ValidatorSet unreadable: {e}"
    | .ok none =>
        .error "Block contains validator-set events or equivocation evidence but system/validator_set is not initialized"
    | .ok (some currentSet) =>
        let maxChanges := state.consensusParams.maxValidatorSetChangesPerBlockParam.toNat
        let maxEvidence := state.consensusParams.maxEquivocationEvidencePerBlockParam.toNat
        let confirmationDepth := state.consensusParams.confirmationDepth
        if maxChanges < changes.length then
          .error s!"Block carries {changes.length} ValidatorSetChange events, exceeds max_validator_set_changes_per_block {maxChanges}"
        else if maxEvidence < evidence.length then
          .error s!"Block carries {evidence.length} EquivocationEvidence records, exceeds max_equivocation_evidence_per_block_param {maxEvidence}"
        else
          match validateEvidenceAdmission changes evidence currentSet block.header.height
              (activationDelay confirmationDepth) with
          | .error rejection => .error s!"Evidence admission rejected: {rejection.display}"
          | .ok () =>
              match validateAllValidatorSetChanges currentSet block.header.height confirmationDepth
                  (changes.filter fun c => !c.quorumSignatures.isEmpty) with
              | .error rejection => .error s!"ValidatorSetChange rejected: {rejection.display}"
              | .ok () => .ok ()

/-- Phase 12: the swing of the tension, the receipts, and the validator set. -/
def phaseFeedback [Crypto] (block : Block) (state : ManagedWorldState) : PhiPhaseResult :=
  let header := block.header
  let delta := if header.tensionBefore ≤ header.tensionAfter then
    header.tensionAfter - header.tensionBefore else header.tensionBefore - header.tensionAfter
  let maxSwing := TensionValue.fromInteger state.consensusParams.maxTensionSwing.toInt
  if maxSwing < delta then
    ⟨.feedback, false, s!"Tension swing {delta.display} exceeds max {maxSwing.display}"⟩
  else
    match block.receipts.zipIdx.find? fun (receipt, _) => !receipt.verdict.isAccepted with
    | some (receipt, i) =>
        ⟨.feedback, false, s!"Receipt {i} has non-accepted verdict in committed block: {receipt.verdict.display}"⟩
    | none =>
        match checkValidatorSetEvents block state with
        | .error e => ⟨.feedback, false, e⟩
        | .ok () =>
            ⟨.feedback, true, s!"Feedback stable: tension delta {delta.display}, {block.receipts.length} receipts all accepted"⟩

/-- The transition an edge starts from, if it is one the block does not have. -/
def unknownEdgeSource (block : Block) : Option TransitionId :=
  block.causalDelta.newEdges.findSome? fun edge =>
    let source := edge.endpoints.1
    if source.kind = .transition && !block.body.transitions.any (·.txId = source.id)
        && block.header.height ≠ 0 then some source.id
    else none

/-- Phase 13: the proof is about this height, and edges start at transitions of
the block. -/
def phaseEvolution (block : Block) : PhiPhaseResult :=
  let header := block.header
  if header.height > 0 && block.proof.blockHeight ≠ header.height then
    ⟨.evolution, false, s!"Proof height {block.proof.blockHeight} != header height {header.height}"⟩
  else
    match unknownEdgeSource block with
    | some txId => ⟨.evolution, false, s!"Causal edge references unknown tx {hexEncode txId.toList}"⟩
    | none =>
        ⟨.evolution, true, s!"Evolution: height {header.height}, {block.causalDelta.newEdges.length} causal edges consistent"⟩

/-! ## Traversal -/

/-- A per-transition phase over the whole body; the first failure is reported
with its index. -/
def perTxPhase (phase : PhiPhase) (block : Block) (state : ManagedWorldState) : PhiPhaseResult :=
  match block.body.transitions.zipIdx.find? fun (tx, _) =>
      !(phiCheckSingleTx phase tx state).passed with
  | some (tx, i) => ⟨phase, false, s!"Tx {i}: {(phiCheckSingleTx phase tx state).details}"⟩
  | none =>
      ⟨phase, true, s!"{phase.display} verified for {block.body.transitions.length} transitions"⟩

theorem perTxPhase_passed {phase : PhiPhase} {block : Block} {state : ManagedWorldState} :
    (perTxPhase phase block state).passed = true ↔
      ∀ tx ∈ block.body.transitions, (phiCheckSingleTx phase tx state).passed = true := by
  unfold perTxPhase
  split
  · rename_i tx i hfind
    have hbad := List.find?_some hfind
    have hmem := List.mem_of_find?_eq_some hfind
    have htx : tx ∈ block.body.transitions := (List.mem_zipIdx' hmem).2 ▸ List.getElem_mem _
    simp only [Bool.not_eq_true'] at hbad
    simp only [Bool.false_eq_true, false_iff]
    intro hall
    rw [hall tx htx] at hbad
    cases hbad
  · rename_i hfind
    rw [List.find?_eq_none] at hfind
    simp only [true_iff]
    intro tx htx
    obtain ⟨i, hi, rfl⟩ := List.getElem_of_mem htx
    have hmem : (block.body.transitions[i], i) ∈ block.body.transitions.zipIdx := by
      rw [List.mk_mem_zipIdx_iff_getElem?, List.getElem?_eq_getElem hi]
    simpa using hfind _ hmem

section

variable [Crypto]

def executeBlockPhase (phase : PhiPhase) (block : Block) (state : ManagedWorldState) :
    PhiPhaseResult :=
  match phase with
  | .topology => phaseTopology block
  | .body => phaseBody block state
  | .architecture => phaseArchitecture block state
  | .performance => phasePerformance block
  | .feedback => phaseFeedback block state
  | .evolution => phaseEvolution block
  | perTx => perTxPhase perTx block state

/-- Results up to and including the first failure. -/
def traverse (block : Block) (state : ManagedWorldState) : List PhiPhase → List PhiPhaseResult
  | [] => []
  | phase :: rest =>
      let result := executeBlockPhase phase block state
      if result.passed then result :: traverse block state rest else [result]

def phiTraversalBlock (block : Block) (state : ManagedWorldState) : PhiTraversalLog :=
  let log : PhiTraversalLog := ⟨traverse block state PhiPhase.all, false, 13⟩
  { log with allPhasesPassed := log.isAllPassed }

theorem traverse_all_passed {block : Block} {state : ManagedWorldState} {phases : List PhiPhase} :
    (phases.length ≤ (traverse block state phases).length
        ∧ (traverse block state phases).all (·.passed) = true)
      ↔ ∀ phase ∈ phases, (executeBlockPhase phase block state).passed = true := by
  induction phases with
  | nil => simp [traverse]
  | cons phase rest ih =>
      simp only [traverse]
      split
      · rename_i hp
        simp only [List.length_cons, Nat.add_le_add_iff_right, List.all_cons, hp, Bool.true_and,
          List.forall_mem_cons, true_and]
        exact ih
      · rename_i hp
        simp only [List.all_cons, hp, Bool.false_and, List.forall_mem_cons]
        simp

/-- A block passes the traversal exactly when it passes every phase. -/
theorem isAllPassed_phiTraversalBlock {block : Block} {state : ManagedWorldState} :
    (phiTraversalBlock block state).isAllPassed = true
      ↔ ∀ phase, (executeBlockPhase phase block state).passed = true := by
  have hall : (phiTraversalBlock block state).isAllPassed = true ↔
      ∀ phase ∈ PhiPhase.all, (executeBlockPhase phase block state).passed = true := by
    have hlen : (13 : UInt8).toNat = PhiPhase.all.length := rfl
    rw [← traverse_all_passed, ← hlen]
    unfold phiTraversalBlock PhiTraversalLog.isAllPassed
    rw [Bool.and_eq_true]
    exact and_congr_left' decide_eq_true_iff
  refine hall.trans ⟨fun h phase => h phase ?_, fun h phase _ => h phase⟩
  cases phase <;> decide

/-- What the performance phase asks. -/
theorem phasePerformance_passed {block : Block} :
    (phasePerformance block).passed = true ↔
      block.header.mfidelSeal = MfidelAtomicSeal.fromHeight block.header.height
        ∧ (block.header.version ≥ patch05BlockVersion → ∀ tx ∈ block.body.transitions,
            tx.intent.kind = .agentRegistration → tx.actor.mfidelSeal
              = MfidelAtomicSeal.fromHeightV4 block.header.height block.header.parentId) := by
  unfold phasePerformance
  dsimp only
  by_cases hseal : block.header.mfidelSeal = MfidelAtomicSeal.fromHeight block.header.height
  · rw [if_neg (not_not.mpr hseal)]
    by_cases hversion : block.header.version ≥ patch05BlockVersion
    · rw [if_pos hversion]
      simp only [hseal, hversion, true_and, true_implies]
      split
      · rename_i tx i hfind
        have hbad := List.find?_some hfind
        have hmem := List.mem_of_find?_eq_some hfind
        have htx : tx ∈ block.body.transitions := (List.mem_zipIdx' hmem).2 ▸ List.getElem_mem _
        simp only [Bool.and_eq_true, decide_eq_true_eq] at hbad
        simp only [Bool.false_eq_true, false_iff]
        intro hall
        exact hbad.2 (hall tx htx hbad.1)
      · rename_i hfind
        rw [List.find?_eq_none] at hfind
        simp only [true_iff]
        intro tx htx hkind
        obtain ⟨i, hi, rfl⟩ := List.getElem_of_mem htx
        have hmem : (block.body.transitions[i], i) ∈ block.body.transitions.zipIdx := by
          rw [List.mk_mem_zipIdx_iff_getElem?, List.getElem?_eq_getElem hi]
        simpa [hkind] using hfind _ hmem
    · rw [if_neg hversion]
      simp [hseal, hversion]
  · rw [if_pos hseal]
    simp [hseal]

/-- The traversal is cut short only by a failure. -/
theorem isAllPassed_of_all_passed {block : Block} {state : ManagedWorldState}
    (h : ∀ result ∈ (phiTraversalBlock block state).phasesCompleted, result.passed = true) :
    (phiTraversalBlock block state).isAllPassed = true := by
  have hlength : ∀ phases : List PhiPhase,
      (∀ result ∈ traverse block state phases, result.passed = true) →
        (traverse block state phases).length = phases.length := by
    intro phases
    induction phases with
    | nil => exact fun _ => rfl
    | cons phase rest ih =>
        intro hall
        simp only [traverse] at hall ⊢
        split
        · rename_i hp
          rw [if_pos hp] at hall
          rw [List.length_cons, List.length_cons, ih fun r hr => hall r (List.mem_cons_of_mem _ hr)]
        · rename_i hp
          rw [if_neg hp] at hall
          exact absurd (hall _ List.mem_cons_self) hp
  unfold PhiTraversalLog.isAllPassed
  rw [Bool.and_eq_true]
  exact ⟨decide_eq_true (hlength PhiPhase.all h).ge, List.all_eq_true.mpr h⟩

end

end Sccgub
