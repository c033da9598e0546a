import Mathlib
import Sccgub.Execution.Receipts
import Sccgub.Node.Admission
import Sccgub.Node.Speculation
import Sccgub.State.Nonces

/-!
# No replay

A block that a chain takes up, its own or one of others, moves the record of
nonces from one transition to the next, and nothing moves it back: an import that
fails late leaves it ahead.  So along a run of block operations no agent gets a
nonce accepted twice.
-/

namespace Sccgub

open Fallible Runs ManagedWorldState

/-- Agent and nonce of each transition. -/
def claimsOf (transitions : List SymbolicTransition) : List (AgentId × BitVec 128) :=
  transitions.map fun tx => (tx.actor.agentId, tx.nonce)

/-- What is admitted lies above the record before and not above the one after, and
nothing is admitted twice. -/
theorem claimsOf_validateNonces {s s' : ManagedWorldState} {transitions : List SymbolicTransition}
    (h : s.validateNonces transitions = .ok s') :
    (claimsOf transitions).Nodup ∧ ∀ claim ∈ claimsOf transitions,
      (s.lastNonce claim.1).toNat < claim.2.toNat
        ∧ claim.2.toNat ≤ (s'.lastNonce claim.1).toNat := by
  induction transitions generalizing s with
  | nil => exact ⟨List.nodup_nil, fun _ hclaim => (nomatch hclaim)⟩
  | cons tx rest ih =>
      obtain ⟨hnonce, hrest⟩ := validateNonces_cons_iff.mp h
      obtain ⟨hnodup, hbetween⟩ := ih hrest
      have hgrown := lastNonce_validateNonces hrest tx.actor.agentId
      rw [lastNonce_take_self] at hgrown
      refine ⟨List.nodup_cons.mpr ⟨fun hmem => ?_, hnodup⟩, fun claim hclaim => ?_⟩
      · have hlater := (hbetween _ hmem).1
        rw [lastNonce_take_self] at hlater
        exact Nat.lt_irrefl _ hlater
      · rcases List.mem_cons.mp hclaim with rfl | hclaim
        · exact ⟨by dsimp only; omega, hgrown⟩
        · obtain ⟨habove, hbelow⟩ := hbetween claim hclaim
          refine ⟨Nat.lt_of_le_of_lt ?_ habove, hbelow⟩
          by_cases hagent : tx.actor.agentId = claim.1
          · rw [← hagent, lastNonce_take_self]
            omega
          · rw [lastNonce_take_of_ne s tx.nonce hagent]

namespace Chain

section

variable [Crypto]

/-- Either no block more and the record not moved back, or one block more whose
transitions moved it. -/
def Records (self next : Chain) : Prop :=
  next.blocks = self.blocks
      ∧ (∀ agentId, (self.state.lastNonce agentId).toNat ≤ (next.state.lastNonce agentId).toNat)
    ∨ ∃ (block : Block) (before after : ManagedWorldState), next.blocks = self.blocks ++ [block]
      ∧ before.agentNonces = self.state.agentNonces
      ∧ before.validateNonces block.body.transitions = .ok after
      ∧ next.state.agentNonces = after.agentNonces

omit [Crypto] in
theorem records_of_eq {self next : Chain} (hblocks : next.blocks = self.blocks)
    (hnonces : next.state.agentNonces = self.state.agentNonces) : self.Records next :=
  Or.inl ⟨hblocks, fun agentId => by rw [lastNonce, lastNonce, hnonces]⟩

theorem agentNonces_replayGovernanceTransitions (self : Chain)
    (transitions : List SymbolicTransition) (height : UInt64) :
    (self.replayGovernanceTransitions transitions height).state.agentNonces
      = self.state.agentNonces := by
  unfold replayGovernanceTransitions governedState
  dsimp only
  split
  · rw [commitConsensusParams, applyDelta_writes]
    rfl
  · rfl

theorem records_importBlock (self : Chain) (block : Block) :
    self.Records (self.importBlock block).2 := by
  have hchain := self.validateCandidateBlock_chain block
  unfold importBlock
  rcases hrun : self.validateCandidateBlock block with ⟨verdict, chain⟩
  rw [hrun] at hchain
  have hchain : chain = _ := hchain
  have hblocks : chain.blocks = self.blocks := by rw [hchain, sharing]
  have hrecord : chain.state.agentNonces = self.state.agentNonces := by
    rw [hchain, sharing, ManagedWorldState.sharing]
  rcases verdict with e | ⟨⟩
  · exact records_of_eq hblocks hrecord
  · dsimp only
    split
    · exact records_of_eq hblocks hrecord
    · rename_i state hnonces
      split
      · -- the fees failed, and the nonces have moved
        refine Or.inl ⟨hblocks, fun agentId => ?_⟩
        have hgrown := lastNonce_validateNonces hnonces agentId
        rwa [lastNonce, hrecord] at hgrown
      · rename_i applied happly
        refine Or.inr ⟨block, chain.state, state, congrArg (· ++ [block]) hblocks, hrecord,
          hnonces, ?_⟩
        unfold commitImported
        dsimp only
        rw [agentNonces_replayGovernanceTransitions, recordTension_eq, applyBlock_eq happly]
        rfl

theorem records_produceOn (self : Chain) (parent : Block) (height wallHint : UInt64) :
    self.Records (self.produceOn parent height wallHint).2 := by
  have hadmission := self.validateNonces_admission
  unfold produceOn
  rcases hloop : self.admission with ⟨loop, mempool⟩
  rw [hloop] at hadmission
  dsimp only at hadmission ⊢
  split
  · exact records_of_eq rfl rfl
  · rename_i applied hspec
    split
    · exact records_of_eq rfl rfl
    · rename_i block hassemble
      split
      · exact records_of_eq rfl rfl
      · have htransitions : block.body.transitions = loop.accepted := by
          unfold assemble at hassemble
          simp only [bind_eq_ok_iff, pure_eq_ok_iff] at hassemble
          obtain ⟨_, -, _, -, rfl⟩ := hassemble
          rfl
        refine Or.inr ⟨block, self.state, loop.state, rfl, rfl, htransitions ▸ hadmission, ?_⟩
        unfold commitProduced
        dsimp only
        rw [agentNonces_replayGovernanceTransitions]
        show applied.state.agentNonces = loop.state.agentNonces
        rw [applyBlock_eq (mapError_eq_ok_iff.mp hspec), hadmission]
        rfl

theorem records_produceBlock (self : Chain) (wallHint : UInt64) :
    self.Records (self.produceBlock wallHint).2 := by
  unfold produceBlock
  split
  · exact records_of_eq rfl rfl
  · dsimp only
    split
    · exact records_of_eq rfl rfl
    · split
      · exact records_of_eq rfl rfl
      · exact self.records_produceOn _ _ _

theorem records_act (self : Chain) (op : BlockOp) : self.Records (self.act op) := by
  cases op with
  | gate block parentId => exact records_of_eq rfl rfl
  | candidate block =>
      show self.Records (self.validateCandidateBlock block).2
      rw [validateCandidateBlock_chain]
      exact records_of_eq rfl rfl
  | build wallHint => exact records_of_eq rfl rfl
  | produce wallHint => exact self.records_produceBlock wallHint
  | importBlock block => exact self.records_importBlock block

/-- The claims of some blocks. -/
def claims (blocks : List Block) : List (AgentId × BitVec 128) :=
  blocks.flatMap fun block => claimsOf block.body.transitions

/-- The blocks since the start have no claim twice, and the record is past all
of them. -/
def ClaimedSince (start self : Chain) : Prop :=
  ∃ appended, self.blocks = start.blocks ++ appended ∧ (claims appended).Nodup
    ∧ ∀ claim ∈ claims appended, claim.2.toNat ≤ (self.state.lastNonce claim.1).toNat

omit [Crypto] in
theorem ClaimedSince.records {start self next : Chain} (h : ClaimedSince start self)
    (hrecords : self.Records next) : ClaimedSince start next := by
  obtain ⟨appended, hblocks, hnodup, hpast⟩ := h
  rcases hrecords with ⟨hsame, hgrown⟩ | ⟨block, before, after, hmore, hbefore, hnonces, hafter⟩
  · exact ⟨appended, hsame.trans hblocks, hnodup,
      fun claim hclaim => (hpast claim hclaim).trans (hgrown claim.1)⟩
  · obtain ⟨hblockNodup, hbetween⟩ := claimsOf_validateNonces hnonces
    have hlast : ∀ agentId, before.lastNonce agentId = self.state.lastNonce agentId :=
      fun agentId => by rw [lastNonce, lastNonce, hbefore]
    have hnext : ∀ agentId, next.state.lastNonce agentId = after.lastNonce agentId :=
      fun agentId => by rw [lastNonce, lastNonce, hafter]
    have hclaims : claims (appended ++ [block])
        = claims appended ++ claimsOf block.body.transitions := by
      simp [claims]
    refine ⟨appended ++ [block], by rw [hmore, hblocks, List.append_assoc], ?_, ?_⟩
    · rw [hclaims, List.nodup_append]
      refine ⟨hnodup, hblockNodup, fun claim hold claim' hnew heq => ?_⟩
      subst heq
      have habove := (hbetween claim hnew).1
      rw [hlast] at habove
      exact Nat.not_lt.mpr (hpast claim hold) habove
    · intro claim hclaim
      rw [hnext]
      rw [hclaims] at hclaim
      rcases List.mem_append.mp hclaim with hold | hnew
      · refine (hpast claim hold).trans ?_
        rw [← hlast]
        exact lastNonce_validateNonces hnonces claim.1
      · exact (hbetween claim hnew).2

/-- Along every run of block operations. -/
theorem claimedSince_throughout (chain : Chain) (ops : List BlockOp) :
    Throughout act (ClaimedSince chain) chain ops :=
  throughout_of_step (fun self op h => h.records (self.records_act op))
    ⟨[], (List.append_nil _).symm, List.nodup_nil, fun _ hclaim => (nomatch hclaim)⟩

end

end Chain

/-- Admission is exact and atomic, and no run of blocks has a claim twice. -/
theorem nonce_admission (state : ManagedWorldState) (transitions : List SymbolicTransition) :
    ((state.validateNoncesInPlace transitions).1 = .ok ()
        ↔ ∀ agentId, InSequence (state.lastNonce agentId) (noncesOf agentId transitions))
      ∧ ((state.validateNoncesInPlace transitions).1 = .ok () → ∀ agentId,
          (state.validateNoncesInPlace transitions).2.agentNonces[agentId]?
            = (noncesOf agentId transitions).getLast?.or state.agentNonces[agentId]?)
      ∧ ((state.validateNoncesInPlace transitions).1 ≠ .ok () →
          (state.validateNoncesInPlace transitions).2 = state)
      ∧ ∀ [Crypto] (chain : Chain) (ops : List Chain.BlockOp),
          Throughout Chain.act (fun reached => ∃ appended,
            reached.blocks = chain.blocks ++ appended ∧ (Chain.claims appended).Nodup) chain ops := by
  rw [validateNoncesInPlace_eq, ← exists_validateNonces_iff]
  refine ⟨?_, ?_, ?_, fun chain ops => ?_⟩
  · rcases state.validateNonces transitions with e | final
    · simp
    · simp
  · rcases hfinal : state.validateNonces transitions with e | final
    · intro h
      cases h
    · exact fun _ agentId => getElem?_agentNonces_of_validateNonces hfinal agentId
  · rcases state.validateNonces transitions with e | final
    · exact fun _ => rfl
    · exact fun h => absurd rfl h
  · refine (chain.claimedSince_throughout ops).mono ?_
    rintro reached ⟨appended, hblocks, hnodup, -⟩
    exact ⟨appended, hblocks, hnodup⟩

/-- A note and the next one of the same agent. -/
def twoNotes : List SymbolicTransition := [note, { note with nonce := note.nonce + 1 }]

theorem nonce_admission_twoNotes :
    (validateNoncesInPlace {} twoNotes).2.agentNonces[note.actor.agentId]?
      = some (note.nonce + 1) := by
  rw [(nonce_admission {} twoNotes).2.1 (by decide +kernel) note.actor.agentId]
  decide +kernel

end Sccgub
