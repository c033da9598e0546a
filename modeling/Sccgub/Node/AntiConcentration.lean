import Mathlib
import Sccgub.Node.Linkage
import Sccgub.Node.Speculation
import Sccgub.Node.Steps

/-!
# Blocks in a row

A validator is to propose only so many blocks in a row.  The tracker counts the
blocks of the last proposer, whoever appended them, but only production asks it:
a block that is imported needs an author from the validator set and nothing
else.

The count is the length of the last row of blocks as long as the tracker knows
the proposer of the tip, which after a start on genesis it does not.  From there
on the limit holds exactly as far as imports keep to it by themselves
(`dispersed_of_turns`).
-/

/-! ## Rows -/

namespace List

variable {α : Type} [DecidableEq α]

/-- How often a value stands at the end of a list. -/
def trailing (v : α) (l : List α) : Nat := (l.reverse.takeWhile (· = v)).length

theorem trailing_concat_self (v : α) (l : List α) : trailing v (l ++ [v]) = trailing v l + 1 := by
  simp [trailing]

theorem trailing_concat_of_ne {v w : α} (h : w ≠ v) (l : List α) : trailing v (l ++ [w]) = 0 := by
  simp [trailing, h]

theorem trailing_eq_zero {v : α} {l : List α} (h : l.getLast? ≠ some v) : trailing v l = 0 := by
  rcases List.eq_nil_or_concat' l with rfl | ⟨init, w, rfl⟩
  · rfl
  · refine trailing_concat_of_ne (fun heq => h ?_) init
    rw [List.getLast?_concat, heq]

/-- A row at the end is no longer than that. -/
theorem le_trailing {v : α} {k : Nat} {l : List α} (h : replicate k v <:+ l) : k ≤ trailing v l := by
  obtain ⟨init, rfl⟩ := h
  unfold trailing
  rw [reverse_append, reverse_replicate, takeWhile_append_of_pos (by simp), length_append,
    length_replicate]
  omega

/-- No value stands more than `n` times in a row. -/
def RowsWithin (n : Nat) (l : List α) : Prop := ∀ v k, replicate k v <:+: l → k ≤ n

omit [DecidableEq α] in
theorem RowsWithin.one_le {n : Nat} {l : List α} (h : RowsWithin n l) (hl : l ≠ []) : 1 ≤ n := by
  obtain ⟨v, rest, rfl⟩ := List.exists_cons_of_ne_nil hl
  exact h v 1 ⟨[], rest, rfl⟩

/-- One more value; only the last row has changed. -/
theorem RowsWithin.concat {n : Nat} {l : List α} (h : RowsWithin n l) {w : α}
    (hw : trailing w l + 1 ≤ n) : RowsWithin n (l ++ [w]) := by
  intro v k hrow
  rcases infix_concat_iff.mp hrow with hend | hinner
  · have hle := le_trailing hend
    by_cases hvw : w = v
    · subst hvw
      rw [trailing_concat_self] at hle
      omega
    · rw [trailing_concat_of_ne hvw] at hle
      omega
  · exact h v k hinner

end List

namespace Sccgub

open FixedWidth Runs Fallible

/-! ## The tracker -/

namespace GovernancePowerTracker

/-- The part of the tracker that is about proposals. -/
def row (self : GovernancePowerTracker) : Option AgentId × Std.ExtTreeMap Hash UInt32 :=
  (self.lastProposer, self.consecutiveProposals)

theorem row_foldl_recordAction (p : SymbolicTransition → Bool) (txs : List SymbolicTransition)
    (self : GovernancePowerTracker) :
    (txs.foldl (fun tracker tx =>
      if p tx then tracker.recordAction tx.actor.agentId else tracker) self).row = self.row := by
  induction txs generalizing self with
  | nil => rfl
  | cons tx txs ih =>
      rw [List.foldl_cons, ih]
      split_ifs <;> rfl

theorem row_resetEpoch_if (p : Prop) [Decidable p] (self : GovernancePowerTracker) :
    (if p then self.resetEpoch else self).row = self.row := by
  split_ifs <;> rfl

/-- The count is the length of the last row. -/
def Counts (self : GovernancePowerTracker) (proposers : List Hash) : Prop :=
  ∀ v, self.lastProposer = some v →
    ∃ n, self.consecutiveProposals[v]? = some n ∧ n.toNat = proposers.trailing v

theorem counts_congr {self other : GovernancePowerTracker} (h : self.row = other.row)
    {proposers : List Hash} : self.Counts proposers ↔ other.Counts proposers := by
  obtain ⟨hlast, hcount⟩ := Prod.mk.inj h
  unfold Counts
  rw [hlast, hcount]

/-- A proposer that is not over the limit, and the proposer of the tip only where
the tracker knows it. -/
structure MayPropose (tracker : GovernancePowerTracker) (limits : GovernanceLimits)
    (proposers : List Hash) (v : Hash) : Prop where
  check : tracker.checkProposal v limits = .ok ()
  known : proposers.getLast? = some v → tracker.lastProposer = some v

/-- One more block of a proposer that may propose. -/
theorem Counts.recordProposal {self : GovernancePowerTracker} {limits : GovernanceLimits}
    {proposers : List Hash} (hcounts : self.Counts proposers)
    (hrows : proposers.RowsWithin limits.maxConsecutiveProposals.toNat) (hne : proposers ≠ [])
    {v : Hash} (h : self.MayPropose limits proposers v) :
    (self.recordProposal v).Counts (proposers ++ [v])
      ∧ (proposers ++ [v]).RowsWithin limits.maxConsecutiveProposals.toNat := by
  have hmax := hrows.one_le hne
  unfold GovernancePowerTracker.recordProposal
  by_cases hlast : self.lastProposer = some v
  · rw [if_pos hlast]
    obtain ⟨n, hn, hcount⟩ := hcounts v hlast
    have hbelow : n.toNat < limits.maxConsecutiveProposals.toNat := by
      have hcheck := h.check
      unfold checkProposal at hcheck
      dsimp only at hcheck
      rw [hn] at hcheck
      split_ifs at hcheck with hover
      rw [← UInt32.lt_iff_toNat_lt]
      exact UInt32.not_le.mp fun hle => hover ⟨hlast, hle⟩
    refine ⟨fun w hw => ?_, hrows.concat (by omega)⟩
    obtain rfl : v = w := Option.some.inj (hlast.symm.trans hw)
    refine ⟨n + 1, ?_, ?_⟩
    · dsimp only
      rw [hn, Std.ExtTreeMap.getElem?_insert_self]
      rfl
    · have hwidth := limits.maxConsecutiveProposals.toNat_lt
      rw [UInt32.toNat_add, List.trailing_concat_self, ← hcount]
      exact Nat.mod_eq_of_lt (by change n.toNat + 1 < _; omega)
  · rw [if_neg hlast]
    have hzero : proposers.trailing v = 0 :=
      List.trailing_eq_zero fun htip => hlast (h.known htip)
    refine ⟨fun w hw => ?_, hrows.concat (by omega)⟩
    obtain rfl : v = w := Option.some.inj hw
    refine ⟨1, Std.ExtTreeMap.getElem?_insert_self, ?_⟩
    rw [List.trailing_concat_self, hzero]
    rfl

end GovernancePowerTracker

/-! ## Chains -/

namespace Chain

/-- Who proposed the blocks, genesis included. -/
def proposers (self : Chain) : List Hash := self.blocks.map (·.header.validatorId)

/-- Neither the blocks nor the tracker's row have changed. -/
def SameRow (self chain : Chain) : Prop :=
  chain.proposers = self.proposers ∧ chain.powerTracker.row = self.powerTracker.row

/-- One more block, by this proposer. -/
def OneMore (self chain : Chain) (v : Hash) : Prop :=
  chain.proposers = self.proposers ++ [v]
    ∧ chain.powerTracker.row = (self.powerTracker.recordProposal v).row

/-- No validator has more blocks in a row than the limit, and the tracker counts
the last row. -/
structure Dispersed (chain : Chain) : Prop where
  rows : chain.proposers.RowsWithin chain.governanceLimits.maxConsecutiveProposals.toNat
  counts : chain.powerTracker.Counts chain.proposers

theorem Dispersed.sameRow {self chain : Chain} (h : self.Dispersed) (hsame : self.SameRow chain)
    (hlimits : chain.governanceLimits = self.governanceLimits) : chain.Dispersed := by
  obtain ⟨hproposers, hrow⟩ := hsame
  constructor
  · rw [hproposers, hlimits]
    exact h.rows
  · rw [hproposers, GovernancePowerTracker.counts_congr hrow]
    exact h.counts

theorem Dispersed.oneMore {self chain : Chain} (h : self.Dispersed) {v : Hash}
    (hmore : self.OneMore chain v) (hlimits : chain.governanceLimits = self.governanceLimits)
    (hne : self.proposers ≠ [])
    (hmay : self.powerTracker.MayPropose self.governanceLimits self.proposers v) :
    chain.Dispersed := by
  obtain ⟨hproposers, hrow⟩ := hmore
  obtain ⟨hcounts, hrows⟩ := h.counts.recordProposal h.rows hne hmay
  constructor
  · rw [hproposers, hlimits]
    exact hrows
  · rw [hproposers, GovernancePowerTracker.counts_congr hrow]
    exact hcounts

/-! ## What an operation appends -/

variable [Crypto]

/-- A block that passes everything import asks for. -/
def Admits (self : Chain) (block : Block) : Prop :=
  ∃ chain state applied, self.validateCandidateBlock block = (.ok (), chain)
    ∧ chain.state.validateNonces block.body.transitions = .ok state
    ∧ applyBlock state chain.balances chain.treasury block.body.transitions block.receipts
        chain.blockVersion block.header.validatorId (chain.economics.effectiveFee
        state.tensionField.total state.tensionField.currentBudget) block.header.height = .ok applied

theorem importBlock_row (self : Chain) (block : Block) :
    self.SameRow (self.importBlock block).2 ∨ self.Admits block
      ∧ self.OneMore (self.importBlock block).2 block.header.validatorId := by
  have hchain := self.validateCandidateBlock_chain block
  unfold importBlock
  rcases hverdict : self.validateCandidateBlock block with ⟨e | ⟨⟩, chain⟩
  · rw [hverdict] at hchain
    obtain rfl : chain = _ := hchain
    exact .inl ⟨rfl, rfl⟩
  · dsimp only
    rcases hnonces : chain.state.validateNonces block.body.transitions with e | state
    · rw [hverdict] at hchain
      obtain rfl : chain = _ := hchain
      exact .inl ⟨rfl, rfl⟩
    · dsimp only
      rcases happly : applyBlock state chain.balances chain.treasury block.body.transitions
        block.receipts chain.blockVersion block.header.validatorId (chain.economics.effectiveFee
        state.tensionField.total state.tensionField.currentBudget) block.header.height
        with e | applied
      · rw [hverdict] at hchain
        obtain rfl : chain = _ := hchain
        exact .inl ⟨rfl, rfl⟩
      · refine .inr ⟨⟨chain, state, applied, hverdict, hnonces, happly⟩, ?_⟩
        rw [hverdict] at hchain
        obtain rfl : chain = _ := hchain
        refine ⟨?_, GovernancePowerTracker.row_resetEpoch_if _ _⟩
        unfold proposers commitImported replayGovernanceTransitions
        rw [List.map_append]
        rfl

theorem produceOn_row (self : Chain) (parent : Block) (height wallHint : UInt64) :
    self.SameRow (self.produceOn parent height wallHint).2
      ∨ self.OneMore (self.produceOn parent height wallHint).2 self.localValidatorId := by
  unfold produceOn
  rcases self.admission with ⟨loop, mempool⟩
  dsimp only
  split
  · exact .inl ⟨rfl, rfl⟩
  · rename_i applied hspec
    split
    · exact .inl ⟨rfl, rfl⟩
    · rename_i block hassemble
      split
      · exact .inl ⟨rfl, rfl⟩
      · have hauthor : block.header.validatorId = self.localValidatorId := by
          unfold assemble at hassemble
          simp only [bind_eq_ok_iff, pure_eq_ok_iff] at hassemble
          obtain ⟨_, -, _, -, rfl⟩ := hassemble
          rfl
        refine .inr ⟨?_, ?_⟩
        · unfold proposers commitProduced replayGovernanceTransitions
          rw [← hauthor]
          exact List.map_append
        · unfold commitProduced
          refine (GovernancePowerTracker.row_resetEpoch_if _ _).trans ?_
          exact GovernancePowerTracker.row_foldl_recordAction
            (fun tx => isGovernanceAction tx.intent.kind) _ _

/-- Production asks the tracker first. -/
theorem produceBlock_row (self : Chain) (wallHint : UInt64) :
    self.SameRow (self.produceBlock wallHint).2
      ∨ (∃ parent, self.blocks.getLast? = some parent
          ∧ self.isProposerForHeight (saturatingAdd parent.header.height 1) = true)
        ∧ self.powerTracker.checkProposal self.localValidatorId self.governanceLimits = .ok ()
        ∧ self.OneMore (self.produceBlock wallHint).2 self.localValidatorId := by
  unfold produceBlock
  rcases hparent : self.blocks.getLast? with _ | parent
  · exact .inl ⟨rfl, rfl⟩
  dsimp only
  by_cases hturn : self.isProposerForHeight (saturatingAdd parent.header.height 1) = true
  · rw [hturn]
    rcases hcheck : self.powerTracker.checkProposal self.localValidatorId self.governanceLimits
      with e | ⟨⟩
    · exact .inl ⟨rfl, rfl⟩
    · rcases self.produceOn_row parent (saturatingAdd parent.header.height 1) wallHint
        with hsame | hmore
      · exact .inl hsame
      · exact .inr ⟨⟨parent, rfl, hturn⟩, rfl, hmore⟩
  · rw [Bool.eq_false_of_not_eq_true hturn]
    exact .inl ⟨rfl, rfl⟩

/-! ## Runs -/

/-- The author of an imported block that is admitted may propose; the producer
of the tip, whose turn it is again, is one that the tracker knows. -/
def KeepsTurn (self : Chain) : BlockOp → Prop
  | .importBlock block => self.Admits block →
      self.powerTracker.MayPropose self.governanceLimits self.proposers block.header.validatorId
  | .produce _ => ∀ parent ∈ self.blocks.getLast?,
      self.isProposerForHeight (saturatingAdd parent.header.height 1) = true →
        parent.header.validatorId = self.localValidatorId →
          self.powerTracker.lastProposer = some self.localValidatorId
  | _ => True

theorem Dispersed.act {self : Chain} (h : self.Dispersed) {op : BlockOp} (hturn : self.KeepsTurn op)
    (hlimits : (self.act op).governanceLimits = self.governanceLimits) :
    (self.act op).Dispersed := by
  have hnonempty : ∀ {parent : Block}, self.blocks.getLast? = some parent → self.proposers ≠ [] := by
    intro parent hparent hnil
    rw [List.map_eq_nil_iff.mp hnil] at hparent
    cases hparent
  cases op with
  | gate block parentId => exact ⟨h.rows, h.counts⟩
  | candidate block =>
      refine h.sameRow ?_ hlimits
      show self.SameRow (self.validateCandidateBlock block).2
      rw [validateCandidateBlock_chain]
      exact ⟨rfl, rfl⟩
  | build wallHint => exact ⟨h.rows, h.counts⟩
  | produce wallHint =>
      rcases self.produceBlock_row wallHint with hsame | ⟨⟨parent, hparent, hproposer⟩, hcheck, hmore⟩
      · exact h.sameRow hsame hlimits
      · refine h.oneMore hmore hlimits (hnonempty hparent) ⟨hcheck, fun htip => ?_⟩
        refine hturn parent hparent hproposer ?_
        rw [proposers, List.getLast?_map, hparent] at htip
        exact Option.some.inj htip
  | importBlock block =>
      rcases self.importBlock_row block with hsame | ⟨hadmits, hmore⟩
      · exact h.sameRow hsame hlimits
      · refine h.oneMore hmore hlimits ?_ (hturn hadmits)
        obtain ⟨chain, _, _, hverdict, -⟩ := hadmits
        obtain ⟨parent, hparent, -⟩ :=
          validateCandidateBlock_eq_ok_iff.mp (congrArg Prod.fst hverdict)
        exact hnonempty hparent

/-- Along a run in which the limits stay and imports keep to them. -/
theorem dispersed_of_turns {chain : Chain} (hstart : chain.Dispersed) (ops : List BlockOp)
    (hops : Along act (fun c op => c.KeepsTurn op
      ∧ (c.act op).governanceLimits = c.governanceLimits) chain ops) :
    Throughout act Dispersed chain ops :=
  throughout_of_along (fun _ _ h hop => h.act hop.1 hop.2) hstart hops

/-- A chain of one block, under any set of validators. -/
theorem dispersed_init (blockVersion : UInt32) (finalityMode : FinalityMode)
    (validatorKey : ValidatorKey) (validators : List ValidatorAuthority) :
    ((init blockVersion finalityMode validatorKey).setValidatorSet validators).Dispersed := by
  refine ⟨fun v k hrow => ?_, fun v hv => (nomatch hv)⟩
  have hle := hrow.length_le
  rw [List.length_replicate] at hle
  exact hle.trans (show 1 ≤ 3 by decide)

end Chain

/-! ## Two blocks in a row -/

def memberOf (nodeId : Hash) : ValidatorAuthority where
  nodeId
  governanceLevel := .safety
  normCompliance := .fromInteger 1
  causalReliability := .fromInteger 1
  active := true

/-- The node of another validator on the same genesis. -/
def otherChain : Chain := { genesisChain with validatorKey := polyKey (Hash.ofByte 10) }

def twoMembers : List ValidatorAuthority := [memberOf (Hash.ofByte 9), memberOf (Hash.ofByte 10)]

theorem dispersed_of_turns_produce :
    Throughout (@Chain.act polyCrypto) Chain.Dispersed (otherChain.setValidatorSet twoMembers)
      [.produce 0, .produce 0] := by
  have hstart := @Chain.dispersed_init polyCrypto canonicalAgentBlockVersion .deterministic nodeKey
    twoMembers
  refine @Chain.dispersed_of_turns polyCrypto (otherChain.setValidatorSet twoMembers)
    ⟨hstart.rows, hstart.counts⟩ [.produce 0, .produce 0] ?_
  refine ⟨⟨?_, by decide +kernel⟩, ⟨?_, by decide +kernel⟩, trivial⟩
  · unfold Chain.KeepsTurn
    decide +kernel
  · unfold Chain.KeepsTurn
    decide +kernel

/-- One block in a row is allowed. -/
def strictChain : Chain :=
  { genesisChain.setValidatorSet twoMembers with
    governanceLimits := { maxConsecutiveProposals := 1 } }

/-- Two blocks of the other validator, which is by itself there. -/
def blocksInARow : List Block :=
  (([.produce 0, .produce 0] : List Chain.BlockOp).foldl (@Chain.act polyCrypto) otherChain).blocks.drop
    1

/-- Both are imported, one after the other. -/
theorem imports_in_a_row :
    let chain := (blocksInARow.map .importBlock).foldl (@Chain.act polyCrypto) strictChain
    strictChain.validatorSet.length = 2 ∧ strictChain.governanceLimits.maxConsecutiveProposals = 1
      ∧ chain.governanceLimits = strictChain.governanceLimits
      ∧ chain.proposers = [Hash.ofByte 9, Hash.ofByte 10, Hash.ofByte 10] ∧ ¬ chain.Dispersed := by
  intro chain
  have hlimits : chain.governanceLimits = strictChain.governanceLimits := by decide +kernel
  have hproposers : chain.proposers = [Hash.ofByte 9, Hash.ofByte 10, Hash.ofByte 10] := by
    decide +kernel
  refine ⟨by decide +kernel, rfl, hlimits, hproposers, fun h => ?_⟩
  have hrow := h.rows (Hash.ofByte 10) 2 (by rw [hproposers]; exact ⟨[Hash.ofByte 9], [], rfl⟩)
  rw [hlimits] at hrow
  exact absurd hrow (by decide)

end Sccgub
