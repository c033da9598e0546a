import Mathlib
import Sccgub.Node.Addressing

/-!
# Who may produce blocks

The validator set of a chain says who produces blocks, one validator by turn; an
empty set says that everybody does.  Governance adds and removes validators, and
removes the last one as readily as any other.
-/

namespace Sccgub

open Bincode FixedWidth Runs

/-! ## Turns -/

def SomeActive (validators : List ValidatorAuthority) : Prop := ∃ v ∈ validators, v.active = true

instance decidableSomeActive (validators : List ValidatorAuthority) :
    Decidable (SomeActive validators) :=
  inferInstanceAs (Decidable (∃ v ∈ validators, v.active = true))

theorem roundRobinProposer_mem {validators : List ValidatorAuthority} {round : UInt64}
    {v : ValidatorAuthority} (h : roundRobinProposer validators round = some v) :
    v ∈ validators ∧ v.active = true := by
  unfold roundRobinProposer at h
  dsimp only at h
  split at h
  · cases h
  · simpa using mem_sortByHash.mp (List.mem_of_getElem? h)

/-- Somebody's turn comes at every height. -/
theorem exists_roundRobinProposer {validators : List ValidatorAuthority}
    (h : SomeActive validators) (round : UInt64) :
    ∃ v, roundRobinProposer validators round = some v := by
  obtain ⟨v, hv, hactive⟩ := h
  have hmem : v ∈ sortByHash ValidatorAuthority.nodeId (validators.filter (·.active)) :=
    mem_sortByHash.mpr (List.mem_filter.mpr ⟨hv, hactive⟩)
  have hpos := List.length_pos_of_mem hmem
  unfold roundRobinProposer
  dsimp only
  rw [if_neg (by simpa using List.ne_nil_of_mem hmem)]
  exact ⟨_, List.getElem?_eq_getElem (Nat.mod_lt _ hpos)⟩

/-! ## A closed set -/

namespace Chain

variable [Crypto]

/-- Production is for members of the set: some are active, no block of anybody
else is taken, and at every height it is the turn of exactly one key. -/
structure ProducersClosed (chain : Chain) : Prop where
  active : SomeActive chain.validatorSet
  member : ∀ block round, (chain.validateCandidateBlockForRound block round).1 = .ok () →
    ∃ v ∈ chain.validatorSet, v.nodeId = block.header.validatorId
  turn : ∀ height, ∃ v ∈ chain.validatorSet, v.active = true ∧ ∀ key : ValidatorKey,
    ({ chain with validatorKey := key } : Chain).isProposerForHeight height = true
      ↔ key.publicKey = v.nodeId

omit [Crypto] in
/-- With a set that is not empty the proposer check asks for a member. -/
theorem member_of_checkProposer {self : Chain} (hset : self.validatorSet ≠ []) {block : Block}
    {round : Option UInt32} (h : self.checkProposer block round = .ok ()) :
    ∃ v ∈ self.validatorSet, v.nodeId = block.header.validatorId := by
  unfold checkProposer at h
  rw [if_neg (by simpa using hset)] at h
  cases round with
  | some round =>
      dsimp only at h
      split at h
      · cases h
      · rename_i expected hexpected
        split at h
        · cases h
        · rename_i hid
          exact ⟨expected, (roundRobinProposer_mem hexpected).1, not_not.mp hid⟩
  | none =>
      dsimp only at h
      split at h
      · cases h
      · rename_i hany
        simpa using hany

theorem checkProposer_of_validate {self : Chain} {block : Block} {round : Option UInt32}
    (h : (self.validateCandidateBlockForRound block round).1 = .ok ()) :
    self.checkProposer block round = .ok () := by
  unfold validateCandidateBlockForRound at h
  split at h
  · cases h
  · split at h
    · cases h
    · rename_i hcheck
      unfold checkCandidate at hcheck
      simp only [Fallible.bind_eq_ok_iff, Fallible.guard_eq_ok_iff] at hcheck
      obtain ⟨-, -, -, -, -, ⟨⟩, hproposer, -⟩ := hcheck
      exact hproposer

/-- One active member is all it takes. -/
theorem producersClosed_iff (self : Chain) :
    self.ProducersClosed ↔ SomeActive self.validatorSet := by
  refine ⟨fun h => h.active, fun h => ⟨h, fun block round hok => ?_, fun height => ?_⟩⟩
  · obtain ⟨v, hv, -⟩ := h
    exact member_of_checkProposer (List.ne_nil_of_mem hv) (checkProposer_of_validate hok)
  · obtain ⟨v, hv⟩ := exists_roundRobinProposer h height
    obtain ⟨hmem, hactive⟩ := roundRobinProposer_mem hv
    refine ⟨v, hmem, hactive, fun key => ?_⟩
    have hnonempty : self.validatorSet.isEmpty = false := by
      simpa using List.ne_nil_of_mem hmem
    unfold isProposerForHeight localValidatorId
    simp only [hnonempty, hv, Bool.false_eq_true, if_false, decide_eq_true_eq]
    exact eq_comm

end Chain

/-! ## Changes of the set -/

/-- Some validator is active besides the one that is named. -/
def ActiveWithout (validators : List ValidatorAuthority) : Except String Hash → Prop
  | .ok nodeId => SomeActive (validators.filter fun v => v.nodeId ≠ nodeId)
  | .error _ => True

instance decidableActiveWithout (validators : List ValidatorAuthority) :
    (named : Except String Hash) → Decidable (ActiveWithout validators named)
  | .ok nodeId => inferInstanceAs (Decidable (SomeActive (validators.filter
      fun v => v.nodeId ≠ nodeId)))
  | .error _ => inferInstanceAs (Decidable True)

/-- A change that removes a validator leaves another one active. -/
def LeavesActive (validators : List ValidatorAuthority) : ProposalKind → Prop
  | .modifyParameter key value =>
      key = "validators.remove" → ActiveWithout validators (parseNodeId value)
  | _ => True

instance decidableLeavesActive (validators : List ValidatorAuthority) :
    (kind : ProposalKind) → Decidable (LeavesActive validators kind)
  | .modifyParameter key value => inferInstanceAs (Decidable (key = "validators.remove" →
      ActiveWithout validators (parseNodeId value)))
  | .addNorm .. | .deactivateNorm _ | .activateEmergency | .deactivateEmergency
  | .modifyConsensusParam .. => inferInstanceAs (Decidable True)

theorem someActive_of_subset {validators validators' : List ValidatorAuthority}
    (h : SomeActive validators) (hsub : validators ⊆ validators') : SomeActive validators' := by
  obtain ⟨v, hv, hactive⟩ := h
  exact ⟨v, hsub hv, hactive⟩

theorem someActive_applyValidatorChange {validators changed : List ValidatorAuthority}
    (h : SomeActive validators) {key value : String}
    (hleaves : LeavesActive validators (.modifyParameter key value))
    (hchange : applyValidatorChange validators key value = .ok changed) : SomeActive changed := by
  unfold applyValidatorChange at hchange
  split at hchange
  · rw [Fallible.bind_eq_ok_iff] at hchange
    obtain ⟨nodeId, -, hchange⟩ := hchange
    split at hchange
    · obtain rfl := Fallible.pure_eq_ok_iff.mp hchange
      exact h
    · obtain rfl := Fallible.pure_eq_ok_iff.mp hchange
      refine someActive_of_subset h fun v hv => mem_sortByHash.mpr ?_
      exact List.mem_append_left _ hv
  · split at hchange
    · rename_i hremove
      rw [Fallible.bind_eq_ok_iff] at hchange
      obtain ⟨nodeId, hnode, hchange⟩ := hchange
      obtain rfl := Fallible.pure_eq_ok_iff.mp hchange
      have hactive := hleaves hremove
      rw [hnode] at hactive
      exact hactive
    · cases hchange

theorem someActive_takeEffect {ceilings : Option ConstitutionalCeilings} {ctx : GovernanceContext}
    (h : SomeActive ctx.validatorSet) {kind : ProposalKind}
    (hleaves : LeavesActive ctx.validatorSet kind) :
    SomeActive (takeEffect applyValidatorChange ceilings ctx kind).validatorSet := by
  cases kind with
  | addNorm name description fitness cost => exact h
  | deactivateNorm normId =>
      simp only [takeEffect]
      split <;> exact h
  | modifyParameter key value =>
      simp only [takeEffect]
      split
      · rcases hchange : applyValidatorChange ctx.validatorSet key value with e | changed
        · exact h
        · exact someActive_applyValidatorChange h hleaves hchange
      · split <;> exact h
  | activateEmergency => exact h
  | deactivateEmergency => exact h
  | modifyConsensusParam field newValue activationHeight =>
      simp only [takeEffect]
      split <;> exact h

/-- Where a removal falls due that the registry lets through, it leaves another
validator active. -/
def GovernanceMove.LeavesActive (ctx : GovernanceContext) : GovernanceMove → Prop
  | .due _ height p =>
      p.status = .timelocked → p.timelockUntil ≤ height →
        (ctx.proposals.activate p.id height).isOk = true →
        Sccgub.LeavesActive ctx.validatorSet p.kind
  | .restore snapshot => SomeActive snapshot.validatorSet
  | _ => True

instance GovernanceMove.decidableLeavesActive (ctx : GovernanceContext) :
    (m : GovernanceMove) → Decidable (m.LeavesActive ctx)
  | .due _ height p => inferInstanceAs (Decidable (p.status = .timelocked →
      p.timelockUntil ≤ height → (ctx.proposals.activate p.id height).isOk = true →
      Sccgub.LeavesActive ctx.validatorSet p.kind))
  | .restore snapshot => inferInstanceAs (Decidable (SomeActive snapshot.validatorSet))
  | .call .. | .commit => inferInstanceAs (Decidable True)

section

variable [Crypto]

theorem GovernanceContext.someActive_move {ctx : GovernanceContext}
    (h : SomeActive ctx.validatorSet) {m : GovernanceMove} (hm : m.LeavesActive ctx) :
    SomeActive (ctx.move m).validatorSet := by
  cases m with
  | call height call => exact h
  | due ceilings height p =>
      show SomeActive (activateDue applyValidatorChange ceilings height ctx p).validatorSet
      rcases activateDue_cases applyValidatorChange ceilings height ctx p with
        hsame | ⟨norm, registry, hstatus, htime, hactivate, ⟨n, -, hnext⟩ | hnext⟩
      · rw [hsame]
        exact h
      · rw [hnext]
        exact h
      · rw [hnext]
        have hleaves := hm hstatus htime (by rw [hactivate]; rfl)
        exact @someActive_takeEffect ceilings { ctx with proposals := registry } h _ hleaves
  | commit => exact h
  | restore snapshot => exact hm

/-- As long as no removal of the only active validator takes effect, production
stays closed, whatever blocks come. -/
theorem Chain.producersClosed_of_leavesActive {chain : Chain}
    (hactive : SomeActive chain.validatorSet) (ops : List BlockOp)
    (hleaves : Along GovernanceContext.move (fun ctx m => m.LeavesActive ctx)
      chain.governanceContext (chain.trace ops)) :
    (ops.foldl act chain).ProducersClosed := by
  have hrun : Throughout GovernanceContext.move (fun ctx => SomeActive ctx.validatorSet)
      chain.governanceContext (chain.trace ops) :=
    throughout_of_along (fun ctx m h hm => ctx.someActive_move h hm) hactive hleaves
  have hlast := hrun.last
  rw [foldl_trace] at hlast
  exact (producersClosed_iff _).mpr hlast

end

/-! ## The last validator removed -/

def removalKey : Bytes := utf8 "norms/governance/params/propose"

/-- The holder proposes to remove the validator with its own key. -/
def removalTransition : SymbolicTransition :=
  signedByHolder 1 .governanceUpdate removalKey
    (.write removalKey (utf8 "validators.remove=" ++ hexBytes (Hash.ofByte 9).toList))
    .directStateWrite

def removalKind : ProposalKind :=
  .modifyParameter "validators.remove" (hexEncode (Hash.ofByte 9).toList)

def removalId : Hash := @ProposalRegistry.proposalId polyCrypto holder.agentId removalKind 1

def ballotKey : Bytes := utf8 "norms/governance/proposals/removal"

/-- And votes for it. -/
def removalVote : SymbolicTransition :=
  signedByHolder 2 .governanceUpdate ballotKey (.write ballotKey removalId.toList)
    .directStateWrite

def authority (b : UInt8) : ValidatorAuthority where
  nodeId := Hash.ofByte b
  governanceLevel := .meaning
  normCompliance := .fromInteger 1
  causalReliability := .fromInteger 1
  active := true

/-- Two blocks with a transition each, and the block at which voting is over; the
blocks between them and after them have nothing to replay. -/
def removalBlocks : List (UInt64 × List SymbolicTransition) :=
  [(1, [removalTransition]), (2, [removalVote]), (7, [])]

/-- The chain at height 206: the proposal was accepted at height 7 and is due at
height 207. -/
def agedChain (validators : List ValidatorAuthority) : Chain :=
  let start : Chain := { genesisChain with validatorSet := validators }
  let chain := removalBlocks.foldl (fun chain (height, transitions) =>
    @Chain.replayGovernanceTransitions polyCrypto chain transitions height) start
  { chain with blocks := chain.blocks.map fun block =>
      { block with header := { block.header with height := 206 } } }

/-- The removal takes effect, and a block of a stranger is the next. -/
theorem run_lastRemoved :
    SomeActive (agedChain [authority 9]).validatorSet
      ∧ (@Chain.produceBlock polyCrypto (agedChain [authority 9]) 0).1.isOk = true
      ∧ (@Chain.act polyCrypto (agedChain [authority 9]) (.produce 0)).validatorSet.length = 0
      ∧ (match (@Chain.buildCandidateBlock polyCrypto
            { @Chain.act polyCrypto (agedChain [authority 9]) (.produce 0) with
              validatorKey := polyKey (Hash.ofByte 5) } 0).1 with
        | .ok block => (@Chain.validateCandidateBlock polyCrypto
            (@Chain.act polyCrypto (agedChain [authority 9]) (.produce 0)) block).1
        | .error e => .error e) = .ok () := by
  decide +kernel

/-- The set is empty afterwards: anybody may produce, and a block of a stranger is
taken. -/
theorem last_validator_removed :
    SomeActive (agedChain [authority 9]).validatorSet
      ∧ (@Chain.produceBlock polyCrypto (agedChain [authority 9]) 0).1.isOk = true
      ∧ (@Chain.act polyCrypto (agedChain [authority 9]) (.produce 0)).validatorSet = []
      ∧ (∃ block, (@Chain.buildCandidateBlock polyCrypto
            { @Chain.act polyCrypto (agedChain [authority 9]) (.produce 0) with
              validatorKey := polyKey (Hash.ofByte 5) } 0).1 = .ok block
          ∧ (@Chain.validateCandidateBlock polyCrypto
            (@Chain.act polyCrypto (agedChain [authority 9]) (.produce 0)) block).1 = .ok ())
      ∧ ¬ @Chain.ProducersClosed polyCrypto
        (@Chain.act polyCrypto (agedChain [authority 9]) (.produce 0)) := by
  obtain ⟨hactive, hproduced, hlength, haccepted⟩ := run_lastRemoved
  have hempty := List.eq_nil_of_length_eq_zero hlength
  refine ⟨hactive, hproduced, hempty, ?_, ?_⟩
  · split at haccepted
    · rename_i block hblock
      exact ⟨block, hblock, haccepted⟩
    · cases haccepted
  · intro h
    obtain ⟨v, hv, -⟩ := @Chain.ProducersClosed.active polyCrypto _ h
    rw [hempty] at hv
    cases hv

/-- With a second validator in the set the same removal leaves one. -/
theorem producersClosed_of_leavesActive_two :
    SomeActive (agedChain [authority 5, authority 9]).validatorSet
      ∧ @Chain.ProducersClosed polyCrypto (([.produce 0] : List Chain.BlockOp).foldl
        (@Chain.act polyCrypto) (agedChain [authority 5, authority 9])) := by
  have hactive : SomeActive (agedChain [authority 5, authority 9]).validatorSet := by
    decide +kernel
  exact ⟨hactive, @Chain.producersClosed_of_leavesActive polyCrypto _ hactive _ (by decide +kernel)⟩

end Sccgub
