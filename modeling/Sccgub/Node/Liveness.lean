import Mathlib
import Sccgub.Execution.Attribution
import Sccgub.Node.GasLoop
import Sccgub.Node.Reload
import Sccgub.Node.Replays
import Sccgub.Node.TrieLedger
import Sccgub.Types.Acyclicity

/-!
# What keeps a node from producing

The gas loop admits a transition only with everything that the gate asks of it,
and a block is built so that its header says what the gate finds.  Two things are
left that can make a block of admitted transitions fail.  The fees of the block
are charged in one go before its transfers are made, while the loop lets a
transfer pay for the fees behind it; and causes may run in a circle.

Both are conditions on what the loop admitted.  The speculative execution
succeeds exactly if the fees are covered (`Constant.speculate_isOk_iff`), the
graph of the block has no cycle exactly if its causes are grounded
(`isAcyclic_iff_grounded`), and the gate finds nothing else
(`Booked.valid_iff`).  `Booked.produces_iff` says the same of `produce_block`.

A block that fails takes its transitions with it, so the next one passes
(`Booked.recovers`).
-/

namespace Sccgub

open Bincode FixedWidth Fallible Relation Runs

section

variable [Crypto]

namespace Chain

variable {self : Chain}

/-! ## From the loop to the gate -/

/-- The fees of what the loop has admitted, charged one after the other. -/
def CoversAdmitted (self : Chain) : Prop :=
  FeesCovered self.blockVersion self.producerGasPrice self.balances
    (self.admission.1.accepted.zip self.admission.1.receipts)

instance (self : Chain) : Decidable self.CoversAdmitted := decidableFeesCovered _ _ _ _

/-- Nothing but the fees keeps the admitted transitions from being applied. -/
theorem Constant.speculate_isOk_iff (h : self.Constant) (height : UInt64) :
    (∃ applied, self.speculate self.admission.1 height = .ok applied) ↔ self.CoversAdmitted := by
  have hadmitted := h.tallied.admitted
  have hlength := hadmitted.length_eq
  have haccepts : ∀ paired ∈ self.admission.1.accepted.zip self.admission.1.receipts,
      Accepts paired := by
    intro paired hpaired
    have hreceipt := List.forall₂_zip hadmitted hpaired
    exact ⟨hreceipt.txId, by rw [hreceipt.verdict]; rfl⟩
  unfold speculate CoversAdmitted
  simp only [mapError_eq_ok_iff]
  rw [applyBlock_isOk_iff, chargeFees]
  by_cases hempty : self.admission.1.receipts = []
  · rw [hempty, List.zip_nil_right]
    exact ⟨fun _ => trivial, fun _ => ⟨_, rfl⟩⟩
  · rw [if_neg (by simp [hlength]), if_neg (by simpa using hempty)]
    exact foldlM_chargeFee_isOk_iff haccepts _

/-- One delta of each kind for each transition. -/
theorem combineReceiptDeltas_of_applyBlock {state : ManagedWorldState} {balances : BalanceLedger}
    {treasury : Treasury} {transitions : List SymbolicTransition} {receipts : List CausalReceipt}
    {blockVersion : UInt32} {validatorPublicKey : Hash} {gasPrice : TensionValue}
    {height : UInt64} {applied : AppliedBlock}
    (h : applyBlock state balances treasury transitions receipts blockVersion validatorPublicKey
      gasPrice height = .ok applied) :
    ∃ deltas, combineReceiptDeltas applied.outcome.txDeltas applied.deltas = .ok deltas := by
  have hlengths : applied.outcome.txDeltas.length = transitions.length
      ∧ applied.deltas.length = transitions.length := by
    unfold applyBlock applyBlockEconomics at h
    rcases hcharge : chargeFees balances treasury transitions receipts blockVersion gasPrice
      with e | charged
    · rw [hcharge] at h
      cases h
    · have hfees := (chargeFees_deltas hcharge).1
      rw [← (payReward_cases (validatorSpendAccount blockVersion validatorPublicKey)
        defaultBlockReward charged).1] at hfees
      rw [hcharge] at h
      have hrun : ∀ state balances,
          (applyBlockTransitions state balances transitions).2.2.length = transitions.length := by
        intro state balances
        obtain ⟨deltas, hdeltas, hlength, -⟩ := foldl_applyTransition_deltas transitions
          { state, balances }
        show (transitions.foldl applyTransition { state, balances }).deltas.length = _
        rw [hdeltas, ← hlength]
        rfl
      dsimp only [bind, Except.bind, pure, Except.pure] at h
      split at h
      · obtain rfl := Except.ok.inj h
        exact ⟨hfees, hrun _ _⟩
      · obtain rfl := Except.ok.inj h
        exact ⟨hfees, hrun _ _⟩
  unfold combineReceiptDeltas
  rw [if_neg (not_not.mpr (hlengths.1.trans hlengths.2.symm))]
  exact ⟨_, rfl⟩

omit [Crypto] in
theorem exists_mapM_ok {α β ε : Type} {f : α → Except ε β} {l : List α}
    (h : ∀ a ∈ l, ∃ b, f a = .ok b) : ∃ bs, l.mapM f = .ok bs := by
  induction l with
  | nil => exact ⟨[], rfl⟩
  | cons a rest ih =>
      obtain ⟨⟨b, hb⟩, hrest⟩ := List.forall_mem_cons.mp h
      obtain ⟨bs, hbs⟩ := ih hrest
      refine ⟨b :: bs, ?_⟩
      rw [List.mapM_cons, hb, hbs]
      rfl

omit [Crypto] in
/-- A receipt in the block is one of the loop, but for the delta. -/
theorem mem_attachDeltas {receipts : List CausalReceipt} {deltas : List StateDelta}
    {receipt : CausalReceipt} (h : receipt ∈ attachDeltas receipts deltas) :
    ∃ metered ∈ receipts, receipt.verdict = metered.verdict
      ∧ receipt.postStateRoot = metered.postStateRoot := by
  induction receipts generalizing deltas with
  | nil => cases h
  | cons first rest ih =>
      cases deltas with
      | nil => exact ⟨receipt, h, rfl, rfl⟩
      | cons delta deltas =>
          rcases List.mem_cons.mp h with rfl | hrest
          · exact ⟨first, List.mem_cons_self, rfl, rfl⟩
          · obtain ⟨metered, hmem, hsame⟩ := ih hrest
            exact ⟨metered, List.mem_cons_of_mem _ hmem, hsame⟩

omit [Crypto] in
/-- Receipts that accept and have no root yet can be sealed, whatever deltas are
put into them. -/
theorem sealReceipts_isOk {start : ManagedWorldState} {transitions : List SymbolicTransition}
    {receipts : List CausalReceipt} (h : List.Forall₂ (AdmittedOn start) transitions receipts)
    (postRoot : Hash) (deltas : List StateDelta) :
    ∃ sealed, sealReceipts postRoot (attachDeltas receipts deltas) = .ok sealed := by
  refine exists_mapM_ok fun receipt hreceipt => ?_
  obtain ⟨metered, hmetered, hverdict, hroot⟩ := mem_attachDeltas hreceipt
  obtain ⟨tx, -, hadmitted⟩ := exists_left_of_mem h hmetered
  rw [hadmitted.verdict] at hverdict
  rw [hadmitted.unsealed] at hroot
  refine ⟨{ receipt with postStateRoot := postRoot }, ?_⟩
  rw [mapError_eq_ok_iff, sealReceiptPostState, hverdict, hroot]
  rfl

/-- So what applies is assembled. -/
theorem Constant.exists_assembles (h : self.Constant) {wallHint : UInt64} {parent : Block}
    {applied : AppliedBlock} (htip : self.blocks.getLast? = some parent)
    (hspec : self.speculate self.admission.1 (saturatingAdd parent.header.height 1) = .ok applied) :
    ∃ block, self.Assembles wallHint parent block applied := by
  obtain ⟨deltas, hdeltas⟩ := combineReceiptDeltas_of_applyBlock (mapError_eq_ok_iff.mp hspec)
  obtain ⟨receipts, hreceipts⟩ := sealReceipts_isOk h.tallied.admitted
    (applied.state.setHeight (saturatingAdd parent.header.height 1)).stateRoot deltas
  have hassemble : ∃ block, self.assemble parent self.admission.1 applied
      (saturatingAdd parent.header.height 1) wallHint = .ok block := by
    unfold assemble
    dsimp only
    rw [hdeltas]
    dsimp only [Except.mapError, bind, Except.bind]
    rw [hreceipts]
    exact ⟨_, rfl⟩
  obtain ⟨block, hblock⟩ := hassemble
  exact ⟨block, htip, hspec, hblock⟩

end Chain

/-! ## Causes -/

/-- The first transition names the second among its causes. -/
def Cites (transitions : List SymbolicTransition) (a b : Hash) : Prop :=
  ∃ tx ∈ transitions, tx.txId = a ∧ b ∈ tx.causalChain

/-- No transition is behind itself. -/
def Grounded (transitions : List SymbolicTransition) : Prop :=
  ∀ id, ¬ TransGen (Cites transitions) id id

omit [Crypto] in
theorem points_causalEdges {blockVertex : CausalVertex} (hblock : blockVertex.kind = .block)
    {transitions : List SymbolicTransition} {graph : CausalGraph}
    (hedges : graph.edges = transitions.flatMap (causalEdgesOf blockVertex)) {v w : CausalVertex} :
    graph.Points v w →
      v.kind = .transition ∧ (w.kind = .transition → Cites transitions v.id w.id) := by
  rintro ⟨e, he, hends⟩
  rw [hedges, List.mem_flatMap] at he
  obtain ⟨tx, htx, he⟩ := he
  simp only [causalEdgesOf, List.mem_cons, List.mem_map] at he
  rcases he with rfl | rfl | ⟨ancestor, hancestor, rfl⟩
  · obtain ⟨rfl, rfl⟩ := Prod.mk.inj hends
    exact ⟨rfl, fun hkind => by rw [hblock] at hkind; cases hkind⟩
  · obtain ⟨rfl, rfl⟩ := Prod.mk.inj hends
    exact ⟨rfl, fun hkind => nomatch hkind⟩
  · obtain ⟨rfl, rfl⟩ := Prod.mk.inj hends
    exact ⟨rfl, fun _ => ⟨tx, htx, rfl, hancestor⟩⟩

omit [Crypto] in
theorem points_of_cites {blockVertex : CausalVertex} {transitions : List SymbolicTransition}
    {graph : CausalGraph} (hedges : graph.edges = transitions.flatMap (causalEdgesOf blockVertex))
    {a b : Hash} (h : Cites transitions a b) :
    graph.Points ⟨.transition, a⟩ ⟨.transition, b⟩ := by
  obtain ⟨tx, htx, rfl, hb⟩ := h
  refine ⟨.plain .causedBy ⟨.transition, tx.txId⟩ ⟨.transition, b⟩, ?_, rfl⟩
  rw [hedges, List.mem_flatMap]
  refine ⟨tx, htx, List.mem_cons_of_mem _ (List.mem_cons_of_mem _ ?_)⟩
  exact List.mem_map.mpr ⟨b, hb, rfl⟩

omit [Crypto] in
/-- Blocks and actors lead nowhere, so a cycle is one of causes. -/
theorem isAcyclic_iff_grounded {blockVertex : CausalVertex} (hblock : blockVertex.kind = .block)
    {transitions : List SymbolicTransition} {graph : CausalGraph}
    (hedges : graph.edges = transitions.flatMap (causalEdgesOf blockVertex)) :
    graph.isAcyclic = true ↔ Grounded transitions := by
  have hpath : ∀ {v w}, TransGen graph.Points v w → v.kind = .transition
      ∧ (w.kind = .transition → TransGen (Cites transitions) v.id w.id) := by
    intro v w hvw
    induction hvw with
    | single hstep =>
        obtain ⟨hkind, hcites⟩ := points_causalEdges hblock hedges hstep
        exact ⟨hkind, fun hw => .single (hcites hw)⟩
    | tail _ hstep ih =>
        obtain ⟨hkind, hcites⟩ := points_causalEdges hblock hedges hstep
        exact ⟨ih.1, fun hw => (ih.2 hkind).tail (hcites hw)⟩
  rw [CausalGraph.isAcyclic_iff]
  constructor
  · intro hacyclic id hcycle
    refine hacyclic ⟨.transition, id⟩ ?_
    exact hcycle.lift (CausalVertex.mk .transition) fun a b hab => points_of_cites hedges hab
  · intro hgrounded v hcycle
    obtain ⟨hkind, hcites⟩ := hpath hcycle
    exact hgrounded v.id (hcites hkind)

/-! ## The gate on a block that was assembled -/

theorem merkleRootOfBytes_eq_sectionRoot (items : List Bytes) :
    merkleRootOfBytes items = sectionRoot items := by
  cases items with
  | nil => rfl
  | cons item rest => rfl

namespace Chain

variable {self : Chain} {wallHint : UInt64} {parent block : Block} {applied : AppliedBlock}

/-- What is known about a block that production has assembled. -/
structure Built (chain : Chain) (wallHint : UInt64) (parent : Block) (applied : AppliedBlock)
    (receipts : List CausalReceipt) (block : Block) : Prop where
  eq : block = buildBlock (chain.buildParams parent chain.admission.1 applied receipts
    (saturatingAdd parent.header.height 1)) wallHint
  receipts : List.Forall₂ SameCharge chain.admission.1.receipts receipts
  tension : applied.state.tensionField = {}

theorem Booked.built (h : self.Booked) (ha : self.Assembles wallHint parent block applied) :
    ∃ receipts, self.Built wallHint parent applied receipts block := by
  obtain ⟨receipts, hreceipts, heq⟩ := assemble_eq_ok ha.assemble
  refine ⟨receipts, heq, hreceipts, ?_⟩
  have hspec := ha.speculate
  rw [speculate, mapError_eq_ok_iff, self.validateNonces_admission] at hspec
  rw [tensionField_applyBlock hspec]
  exact (h.state.validateNonces self.validateNonces_admission).tensionField

/-- Every row of the header check is met. -/
theorem Built.header {receipts : List CausalReceipt}
    (hb : self.Built wallHint parent applied receipts block) (h : self.Constant) :
    ∀ row ∈ headerRows block self.state parent.header.blockId, row.1 = false := by
  obtain ⟨rfl, -, htension⟩ := hb
  set params := self.buildParams parent self.admission.1 applied receipts
    (saturatingAdd parent.header.height 1) with hparams
  have hheight : (buildBlock params wallHint).header.height ≠ 0 :=
    UInt64.pos_iff_ne_zero.mp (saturatingAdd_one_pos _)
  have hcount : (clampU32 self.admission.1.accepted.length).toNat
      = self.admission.1.accepted.length := by
    have := h.accepted_lt
    rw [toNat_clampU32]
    omega
  have hbudget : ¬ TensionField.total {} + TensionField.currentBudget {} < TensionField.total {} := by
    decide +kernel
  have hcausal : (causalDeltaOf params).causalRoot
      = sectionRoot ((causalDeltaOf params).newEdges.map (canonicalBytes CausalEdge.codec)) := by
    unfold causalDeltaOf
    dsimp only
    rw [merkleRootOfBytes_eq_sectionRoot]
    split
    · rename_i hempty
      rw [List.isEmpty_iff.mp hempty]
      rfl
    · rfl
  simp only [headerRows, List.forall_mem_cons, List.not_mem_nil, false_implies, implies_true,
    and_true, decide_eq_false_iff_not, not_not]
  refine ⟨?_, rfl, Nat.not_lt_zero _ ∘ UInt32.lt_iff_toNat_lt.mp, ?_, rfl, hcount.symm, ?_, rfl,
    hcausal⟩
  · rw [parentRow, if_neg hheight]
    exact decide_eq_false (not_not.mpr rfl)
  · show ¬ applied.state.tensionField.total + self.state.tensionField.currentBudget
      < applied.state.tensionField.total
    rw [htension, h.state.tensionField]
    exact hbudget
  · exact merkleRootOfBytes_eq_sectionRoot _

/-! ### Block phases -/

omit [Crypto] in
theorem edges_foldl_addEdge (edges : List CausalEdge) (graph : CausalGraph) :
    (edges.foldl CausalGraph.addEdge graph).edges = graph.edges ++ edges := by
  induction edges generalizing graph with
  | nil => exact (List.append_nil _).symm
  | cons edge rest ih =>
      rw [List.foldl_cons, ih, CausalGraph.addEdge, List.append_assoc]
      rfl

omit [Crypto] in
theorem edges_foldl_addVertex (vertices : List CausalVertex) (graph : CausalGraph) :
    (vertices.foldl CausalGraph.addVertex graph).edges = graph.edges := by
  induction vertices generalizing graph with
  | nil => rfl
  | cons v rest ih => exact ih (graph.addVertex v)

/-- The graph that a block adds. -/
def graphOf (delta : CausalGraphDelta) : CausalGraph :=
  delta.newEdges.foldl CausalGraph.addEdge (delta.newVertices.foldl CausalGraph.addVertex {})

omit [Crypto] in
theorem edges_graphOf (delta : CausalGraphDelta) : (graphOf delta).edges = delta.newEdges := by
  rw [graphOf, edges_foldl_addEdge, edges_foldl_addVertex]
  rfl

omit [Crypto] in
/-- A block without edges has nothing to search. -/
theorem phaseTopology_passed_iff {block : Block} :
    (phaseTopology block).passed = true ↔ (graphOf block.causalDelta).isAcyclic = true := by
  have hnone : block.causalDelta.newEdges.isEmpty = true →
      (graphOf block.causalDelta).isAcyclic = true := by
    intro hempty
    refine CausalGraph.isAcyclic_iff.mpr fun v hcycle => ?_
    obtain ⟨w, ⟨e, he, -⟩, -⟩ := TransGen.head'_iff.mp hcycle
    rw [edges_graphOf, List.isEmpty_iff.mp hempty] at he
    cases he
  have hphase : (phaseTopology block).passed = true ↔ (block.causalDelta.newEdges.isEmpty
      || (graphOf block.causalDelta).isAcyclic) = true := by
    unfold phaseTopology
    dsimp only
    split
    · rename_i hpassed
      exact ⟨fun _ => hpassed, fun _ => rfl⟩
    · rename_i hfailed
      exact ⟨fun h => (nomatch h), fun h => absurd h hfailed⟩
  rw [hphase, Bool.or_eq_true]
  exact ⟨fun h => h.elim hnone id, Or.inr⟩

theorem Built.topology_iff {receipts : List CausalReceipt}
    (hb : self.Built wallHint parent applied receipts block) :
    (executeBlockPhase .topology block self.state).passed = true
      ↔ Grounded self.admission.1.accepted := by
  obtain ⟨rfl, -, -⟩ := hb
  exact phaseTopology_passed_iff.trans (isAcyclic_iff_grounded rfl (edges_graphOf _))

theorem Built.architecture_iff {receipts : List CausalReceipt}
    (hb : self.Built wallHint parent applied receipts block) (h : self.Constant) :
    (executeBlockPhase .architecture block self.state).passed = true
      ↔ self.localValidatorId ≠ zeroHash ∧ isSupportedBlockVersion self.blockVersion = true
        ∧ self.blockVersion < patch04BlockVersion := by
  have hlength := hb.receipts.length_eq
  have hadmitted := h.tallied.admitted.length_eq
  obtain ⟨rfl, -, -⟩ := hb
  set params := self.buildParams parent self.admission.1 applied receipts
    (saturatingAdd parent.header.height 1) with hparams
  have hcount : (clampU32 self.admission.1.accepted.length).toNat
      = self.admission.1.accepted.length := by
    have := h.accepted_lt
    rw [toNat_clampU32]
    omega
  have hceilings : validateCeilingsForBlock self.state (buildBlock params wallHint).header
      = if self.blockVersion < patch04BlockVersion then .notV3 else .ceilingsMissing := by
    unfold validateCeilingsForBlock
    rw [h.state.ceilings]
    rfl
  show (phaseArchitecture (buildBlock params wallHint) self.state).passed = true ↔ _
  unfold phaseArchitecture
  rw [hceilings]
  have hsame : (buildBlock params wallHint).receipts.length
      = (buildBlock params wallHint).body.transitions.length := hlength.symm.trans hadmitted.symm
  have hexact : ¬ (buildBlock params wallHint).body.transitions.length
      ≠ (buildBlock params wallHint).body.transitionCount.toNat := not_not.mpr hcount.symm
  by_cases hkey : self.localValidatorId = zeroHash
  · rw [if_pos (show (buildBlock params wallHint).header.validatorId = zeroHash from hkey)]
    simp [hkey]
  rw [if_neg (show (buildBlock params wallHint).header.validatorId ≠ zeroHash from hkey)]
  rcases hsupported : isSupportedBlockVersion self.blockVersion with _ | _
  · rw [if_pos (by
      show (!isSupportedBlockVersion self.blockVersion) = true
      rw [hsupported]
      rfl)]
    simp
  rw [if_neg (by
    show ¬ (!isSupportedBlockVersion self.blockVersion) = true
    rw [hsupported]
    exact Bool.false_ne_true)]
  by_cases hearly : self.blockVersion < patch04BlockVersion
  · rw [if_pos hearly]
    dsimp only
    rw [if_neg hexact, if_neg (by rw [hsame]; simp)]
    simp [hkey, hearly]
  · rw [if_neg hearly]
    simp [hearly]

theorem Built.body {receipts : List CausalReceipt}
    (hb : self.Built wallHint parent applied receipts block) (h : self.Constant) :
    (executeBlockPhase .body block self.state).passed = true := by
  obtain ⟨rfl, -, htension⟩ := hb
  have hbudget : TensionField.total {} ≤ TensionField.total {} + TensionField.currentBudget {} := by
    decide +kernel
  show (phaseBody (buildBlock _ wallHint) self.state).passed = true
  unfold phaseBody
  dsimp only
  rw [if_pos]
  show applied.state.tensionField.total
    ≤ applied.state.tensionField.total + self.state.tensionField.currentBudget
  rw [htension, h.state.tensionField]
  exact hbudget

theorem Built.performance {receipts : List CausalReceipt}
    (hb : self.Built wallHint parent applied receipts block)
    (hversion : self.blockVersion < patch04BlockVersion) :
    (executeBlockPhase .performance block self.state).passed = true := by
  obtain ⟨rfl, -, -⟩ := hb
  refine phasePerformance_passed.mpr ⟨rfl, fun hlate => ?_⟩
  have hle : patch04BlockVersion ≤ patch05BlockVersion := by decide
  exact absurd (UInt32.lt_of_lt_of_le hversion hle) (UInt32.not_lt.mpr hlate)

theorem Built.feedback {receipts : List CausalReceipt}
    (hb : self.Built wallHint parent applied receipts block) (h : self.Constant) :
    (executeBlockPhase .feedback block self.state).passed = true := by
  have hadmitted := h.tallied.admitted
  obtain ⟨rfl, hreceipts, htension⟩ := hb
  have hswing : ¬ TensionValue.fromInteger ({} : ConsensusParams).maxTensionSwing.toInt
      < (if TensionField.total {} ≤ TensionField.total {} then
        TensionField.total {} - TensionField.total {}
        else TensionField.total {} - TensionField.total {}) := by
    decide +kernel
  set params := self.buildParams parent self.admission.1 applied receipts
    (saturatingAdd parent.header.height 1) with hparams
  have hbefore : (buildBlock params wallHint).header.tensionBefore = TensionField.total {} :=
    congrArg TensionField.total htension
  have hafter : (buildBlock params wallHint).header.tensionAfter = TensionField.total {} :=
    congrArg TensionField.total htension
  show (phaseFeedback (buildBlock params wallHint) self.state).passed = true
  unfold phaseFeedback
  dsimp only
  rw [hbefore, hafter, h.state.consensusParams, if_neg hswing,
    show (buildBlock params wallHint).receipts = receipts from rfl, List.find?_eq_none.mpr]
  · rfl
  · rintro ⟨receipt, i⟩ hmem
    have hreceipt : receipt ∈ receipts := (List.mem_zipIdx' hmem).2 ▸ List.getElem_mem _
    obtain ⟨metered, hmetered, hsame⟩ := exists_left_of_mem hreceipts hreceipt
    obtain ⟨tx, -, hin⟩ := exists_left_of_mem hadmitted hmetered
    dsimp only
    rw [hsame.verdict, hin.verdict]
    exact Bool.false_ne_true

theorem Built.evolution {receipts : List CausalReceipt}
    (hb : self.Built wallHint parent applied receipts block) :
    (executeBlockPhase .evolution block self.state).passed = true := by
  obtain ⟨rfl, -, -⟩ := hb
  have hsources : unknownEdgeSource (buildBlock (self.buildParams parent self.admission.1 applied
      receipts (saturatingAdd parent.header.height 1)) wallHint) = none := by
    refine List.findSome?_eq_none_iff.mpr fun edge hedge => ?_
    obtain ⟨tx, htx, hedge⟩ := List.mem_flatMap.mp hedge
    have hsource : edge.endpoints.1 = ⟨.transition, tx.txId⟩ := by
      simp only [causalEdgesOf, List.mem_cons, List.mem_map] at hedge
      rcases hedge with rfl | rfl | ⟨ancestor, -, rfl⟩ <;> rfl
    have hknown : self.admission.1.accepted.any (fun other => other.txId = tx.txId) = true :=
      List.any_eq_true.mpr ⟨tx, htx, decide_eq_true rfl⟩
    dsimp only
    rw [hsource, if_neg]
    show ¬ (_ && !self.admission.1.accepted.any (fun other => other.txId = tx.txId) && _) = true
    rw [hknown]
    simp
  show (phaseEvolution (buildBlock _ wallHint)).passed = true
  unfold phaseEvolution
  dsimp only
  rw [hsources, if_neg]
  show ¬ (_ && decide (saturatingAdd parent.header.height 1 ≠ saturatingAdd parent.header.height 1))
    = true
  simp

/-- The gate lets an assembled block through where the node may produce at all and
no cause is behind itself. -/
theorem Booked.valid_iff (h : self.Booked) (ha : self.Assembles wallHint parent block applied) :
    validateCpog block self.state parent.header.blockId = .valid ↔
      self.localValidatorId ≠ zeroHash ∧ isSupportedBlockVersion self.blockVersion = true
        ∧ self.blockVersion < patch04BlockVersion ∧ Grounded self.admission.1.accepted := by
  obtain ⟨receipts, hb⟩ := h.built ha
  have harchitecture := hb.architecture_iff h.toConstant
  rw [validateCpog_eq_valid_iff]
  constructor
  · intro hvalid
    obtain ⟨hkey, hsupported, hearly⟩ := harchitecture.mp (hvalid.phases .architecture)
    exact ⟨hkey, hsupported, hearly, hb.topology_iff.mp (hvalid.phases .topology)⟩
  · rintro ⟨hkey, hsupported, hearly, hgrounded⟩
    have hperTx : ∀ phase, isPerTxPhase phase = true → (perTxPhase phase block self.state).passed
        = true := by
      intro phase hphase
      refine perTxPhase_passed.mpr fun tx htx => ?_
      rw [hb.eq] at htx
      obtain ⟨i, hi, rfl⟩ := List.getElem_of_mem htx
      have hadmitted := h.toConstant.tallied.admitted
      exact ((List.forall₂_iff_get.mp hadmitted).2 i hi (hadmitted.length_eq ▸ hi)).phases phase
        hphase
    refine ⟨hb.header h.toConstant, fun _ => ⟨applied, h.replayMatches ha⟩, ?_, fun phase => ?_⟩
    · rw [hb.eq]
      rfl
    · cases phase with
      | topology => exact hb.topology_iff.mpr hgrounded
      | architecture => exact harchitecture.mpr ⟨hkey, hsupported, hearly⟩
      | body => exact hb.body h.toConstant
      | performance => exact hb.performance hearly
      | feedback => exact hb.feedback h.toConstant
      | evolution => exact hb.evolution
      | _ => exact hperTx _ rfl

/-! ## Turns -/

/-- It is the turn of the node, and of a kind of node that can produce. -/
structure OnTurn (chain : Chain) : Prop where
  key : chain.localValidatorId ≠ zeroHash
  supported : isSupportedBlockVersion chain.blockVersion = true
  early : chain.blockVersion < patch04BlockVersion
  proposer : chain.isProposerForHeight (saturatingAdd chain.height 1) = true
  dispersed : chain.powerTracker.checkProposal chain.localValidatorId chain.governanceLimits = .ok ()

/-- A block can be made of what the loop admits. -/
structure Producible (chain : Chain) : Prop where
  covered : chain.CoversAdmitted
  grounded : Grounded chain.admission.1.accepted

omit [Crypto] in
theorem height_of_tip (htip : self.blocks.getLast? = some parent) :
    self.height = parent.header.height := by
  rw [Chain.height, htip]
  rfl

theorem Booked.passes_iff (h : self.Booked) (htip : self.blocks.getLast? = some parent)
    (wallHint : UInt64) :
    self.Passes parent (saturatingAdd parent.header.height 1) wallHint ↔
      self.CoversAdmitted ∧ self.localValidatorId ≠ zeroHash
        ∧ isSupportedBlockVersion self.blockVersion = true
        ∧ self.blockVersion < patch04BlockVersion ∧ Grounded self.admission.1.accepted := by
  constructor
  · rintro ⟨applied, block, hspec, hassemble, hvalid⟩
    exact ⟨(h.toConstant.speculate_isOk_iff _).mp ⟨applied, hspec⟩,
      (h.valid_iff ⟨htip, hspec, hassemble⟩).mp hvalid⟩
  · rintro ⟨hcovers, hrest⟩
    obtain ⟨applied, hspec⟩ := (h.toConstant.speculate_isOk_iff
      (saturatingAdd parent.header.height 1)).mpr hcovers
    obtain ⟨block, ha⟩ := h.toConstant.exists_assembles htip hspec
    exact ⟨applied, block, hspec, ha.assemble, (h.valid_iff ha).mpr hrest⟩

/-- On its turn the node goes to the mempool. -/
theorem OnTurn.produceBlock (h : self.OnTurn) (htip : self.blocks.getLast? = some parent)
    (wallHint : UInt64) : self.produceBlock wallHint
      = self.produceOn parent (saturatingAdd parent.header.height 1) wallHint := by
  have hproposer := h.proposer
  rw [height_of_tip htip] at hproposer
  unfold Chain.produceBlock
  rw [htip]
  dsimp only
  rw [hproposer, h.dispersed]
  rfl

/-- What production comes to. -/
theorem Booked.produces_iff (h : self.Booked) (hne : self.blocks ≠ []) (wallHint : UInt64) :
    (∃ block, (self.produceBlock wallHint).1 = .ok block) ↔ self.OnTurn ∧ self.Producible := by
  obtain ⟨parent, htip⟩ : ∃ parent, self.blocks.getLast? = some parent :=
    ⟨_, List.getLast?_eq_getLast_of_ne_nil hne⟩
  have hpasses := h.passes_iff htip wallHint
  have hcases := (self.produceOn_cases parent (saturatingAdd parent.header.height 1) wallHint).2
  constructor
  · rintro ⟨block, hblock⟩
    -- a block that came out has been through the gate
    rcases h.inMemory.produceBlock_cases wallHint with ⟨e, mempool, herror⟩ |
      ⟨parent', applied, built, htip', hspec, hassemble, hvalid, hrun⟩
    · rw [herror] at hblock
      cases hblock
    · obtain rfl : parent = parent' := Option.some.inj (htip.symm.trans htip')
      obtain ⟨hcovers, hkey, hsupported, hearly, hgrounded⟩ :=
        hpasses.mp ⟨applied, built, hspec, hassemble, hvalid⟩
      unfold Chain.produceBlock at hblock
      rw [htip] at hblock
      dsimp only at hblock
      split at hblock
      · cases hblock
      · rename_i hproposer
        split at hblock
        · cases hblock
        · rename_i hdispersed
          refine ⟨⟨hkey, hsupported, hearly, ?_, hdispersed⟩, hcovers, hgrounded⟩
          rw [height_of_tip htip]
          simpa using hproposer
  · rintro ⟨hturn, hcovers, hgrounded⟩
    rw [hturn.produceBlock htip]
    rcases hcases with ⟨-, ⟨block, hblock, -⟩⟩ | ⟨hnot, -⟩
    · exact ⟨block, hblock⟩
    · exact absurd (hpasses.mpr ⟨hcovers, hturn.key, hturn.supported, hturn.early, hgrounded⟩) hnot

/-- Nothing waits, and a block can be made of it. -/
theorem producible_of_idle (h : self.mempool.pending = []) : self.Producible := by
  have hdrained : self.drained = [] := by
    have hsub := self.mempool.drainValidated_subset self.state
    rw [h] at hsub
    exact List.subset_nil.mp hsub
  have hnone : self.admission.1.accepted = [] := by
    rw [admission_fst, hdrained]
    rfl
  refine ⟨?_, ?_⟩
  · rw [CoversAdmitted, hnone]
    trivial
  · rintro id hcycle
    obtain ⟨b, ⟨tx, htx, -⟩, -⟩ := TransGen.head'_iff.mp hcycle
    rw [hnone] at htx
    cases htx

/-- A block that fails on its turn has emptied the mempool, and the next one does
not fail. -/
theorem Booked.recovers (h : self.Booked) (hne : self.blocks ≠ []) (hturn : self.OnTurn)
    (wallHint again : UInt64) :
    (self.produceBlock wallHint).2.mempool.pending = []
      ∧ ∃ block, (self.produceBlock wallHint).1 = .ok block
        ∨ ((self.produceBlock wallHint).2.produceBlock again).1 = .ok block := by
  obtain ⟨parent, htip⟩ : ∃ parent, self.blocks.getLast? = some parent :=
    ⟨_, List.getLast?_eq_getLast_of_ne_nil hne⟩
  have hempty : (self.produceBlock wallHint).2.mempool.pending = [] := by
    rw [hturn.produceBlock htip]
    exact (self.produceOn_cases parent _ wallHint).1
  refine ⟨hempty, ?_⟩
  rcases h.inMemory.produceBlock_cases wallHint with ⟨e, mempool, hrun⟩ |
    ⟨_, _, block, -, -, -, -, hrun⟩
  · rw [hrun] at hempty ⊢
    have hbooked : ({ self with mempool } : Chain).Booked :=
      ⟨h.toConstant.congr rfl rfl rfl rfl, h.inTrie, h.tip⟩
    have hagain : ({ self with mempool } : Chain).OnTurn :=
      ⟨hturn.key, hturn.supported, hturn.early, hturn.proposer, hturn.dispersed⟩
    obtain ⟨block, hblock⟩ := (hbooked.produces_iff hne again).mpr
      ⟨hagain, producible_of_idle hempty⟩
    exact ⟨block, Or.inr hblock⟩
  · exact ⟨block, Or.inl (by rw [hrun])⟩

/-! ## Over runs -/

theorem blocks_settle_ne_nil (h : self.blocks ≠ []) (op : LedgerOp) :
    (self.settle op).blocks ≠ [] := by
  cases op with
  | block op =>
      rcases self.gated_act op with hsame | ⟨_, block, _, -, -, -, hmore⟩
      · show (self.act op).blocks ≠ []
        rw [hsame]
        exact h
      · show (self.act op).blocks ≠ []
        rw [hmore]
        exact List.append_ne_nil_of_left_ne_nil h _
  | submit tx =>
      obtain ⟨mempool, hnext⟩ := self.submit_frame tx
      show (orKeep self (self.submitTransition tx)).blocks ≠ []
      rw [hnext]
      exact h
  | penalize validatorId penalty =>
      obtain ⟨balances, treasury, hnext⟩ := self.penalty_frame validatorId penalty
      show (self.executeSlashingPenalty validatorId penalty).2.blocks ≠ []
      rw [hnext]
      exact h
  | restore =>
      show (self.restoreInPlace self.createSnapshot).2.blocks ≠ []
      unfold restoreInPlace
      rcases hrun : self.restoreFromSnapshot self.createSnapshot with e | chain
      · exact h
      · exact (state_of_restore hrun).2.1 ▸ h

/-- When production comes out with a block. -/
def ProducesExactly (self : Chain) : Prop :=
  ∀ wallHint, (∃ block, (self.produceBlock wallHint).1 = .ok block)
    ↔ self.OnTurn ∧ self.Producible

/-- On its turn the node empties the mempool, whether it comes out with a block or
not, and a failure is not followed by another. -/
def NeverStuck (self : Chain) : Prop :=
  self.OnTurn → ∀ wallHint again, (self.produceBlock wallHint).2.mempool.pending = []
    ∧ ∃ block, (self.produceBlock wallHint).1 = .ok block
      ∨ ((self.produceBlock wallHint).2.produceBlock again).1 = .ok block

theorem booked_nonempty_run {blockVersion : UInt32} {finalityMode : FinalityMode}
    {validatorKey : ValidatorKey} {ops : List LedgerOp}
    (h : Along settle KeepsBooks (init blockVersion finalityMode validatorKey) ops) :
    Throughout settle (fun chain => chain.Booked ∧ chain.blocks ≠ [])
      (init blockVersion finalityMode validatorKey) ops :=
  throughout_of_along (fun _ op hboth hkeeps =>
    ⟨hboth.1.step hkeeps, blocks_settle_ne_nil hboth.2 op⟩)
    ⟨booked_init blockVersion finalityMode validatorKey, List.cons_ne_nil _ _⟩ h

/-- Wherever a node has got to with its books kept, production succeeds exactly on
its turn, where the fees of what the loop admits are covered before any transfer
and no cause is behind itself. -/
theorem producesExactly_of_keepsBooks {blockVersion : UInt32} {finalityMode : FinalityMode}
    {validatorKey : ValidatorKey} {ops : List LedgerOp}
    (h : Along settle KeepsBooks (init blockVersion finalityMode validatorKey) ops) :
    Throughout settle ProducesExactly (init blockVersion finalityMode validatorKey) ops :=
  (booked_nonempty_run h).mono fun _ hboth wallHint => hboth.1.produces_iff hboth.2 wallHint

/-- And no transitions, whatever they are, keep it from producing twice. -/
theorem neverStuck_of_keepsBooks {blockVersion : UInt32} {finalityMode : FinalityMode}
    {validatorKey : ValidatorKey} {ops : List LedgerOp}
    (h : Along settle KeepsBooks (init blockVersion finalityMode validatorKey) ops) :
    Throughout settle NeverStuck (init blockVersion finalityMode validatorKey) ops :=
  (booked_nonempty_run h).mono fun _ hboth hturn => hboth.1.recovers hboth.2 hturn

end Chain

end

/-! ## A transfer and a penalty -/

theorem producesExactly_quietRun :
    (quietRun.foldl (@Chain.settle polyCrypto) holderChain).blocks.length = 2
      ∧ Throughout (@Chain.settle polyCrypto) (@Chain.ProducesExactly polyCrypto) holderChain
        quietRun :=
  ⟨quietRun_keepsBooks.1, @Chain.producesExactly_of_keepsBooks polyCrypto legacyBlockVersion
    .deterministic nodeKey quietRun quietRun_keepsBooks.2⟩

theorem neverStuck_quietRun :
    (quietRun.foldl (@Chain.settle polyCrypto) holderChain).blocks.length = 2
      ∧ Throughout (@Chain.settle polyCrypto) (@Chain.NeverStuck polyCrypto) holderChain
        quietRun :=
  ⟨quietRun_keepsBooks.1, @Chain.neverStuck_of_keepsBooks polyCrypto legacyBlockVersion
    .deterministic nodeKey quietRun quietRun_keepsBooks.2⟩

end Sccgub
