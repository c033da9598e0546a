import Mathlib
import Sccgub.Fallible
import Sccgub.Governance.Lifecycle
import Sccgub.Node.Governance

/-!
# What a replay of governance depends on

Nodes replay the governance of a block in different surroundings: with a
validator set or without one, from other limits, under another finality mode.
The registry evolves the same way in all of them, and so does everything that
starts out the same.

Without typed proposals in the registry the parameters never change.  The
transitions of a block submit none.
-/

namespace Sccgub

open Bincode FixedWidth Fallible

/-! ## What depends on what -/

/-- A relation between contexts that share the registry and that every effect
respects holds after a replay, also where the two replay under different
ceilings and validator rules. -/
theorem replayGovernance_congr [Crypto] {R : GovernanceContext → GovernanceContext → Prop}
    {change change' : ValidatorChange} {ceilings ceilings' : Option ConstitutionalCeilings}
    (hregistry : ∀ a b, R a b → b.proposals = a.proposals)
    (hproposals : ∀ a b proposals, R a b → R { a with proposals } { b with proposals })
    (hnorm : ∀ a b norm, R a b →
      R { a with governanceState.activeNorms := a.governanceState.activeNorms.insert norm.id norm }
        { b with governanceState.activeNorms := b.governanceState.activeNorms.insert norm.id norm })
    (heffect : ∀ a b kind, R a b →
      R (takeEffect change ceilings a kind) (takeEffect change' ceilings' b kind))
    (transitions : List SymbolicTransition) (height : UInt64) {a b : GovernanceContext}
    (h : R a b) :
    R (replayGovernanceFromTransitions change ceilings transitions height a)
      (replayGovernanceFromTransitions change' ceilings' transitions height b) := by
  have hactivate : ∀ (proposal : GovernanceProposal) (a b : GovernanceContext), R a b →
      R (activateDue change ceilings height a proposal)
        (activateDue change' ceilings' height b proposal) := by
    intro proposal a b hab
    unfold activateDue
    rw [hregistry a b hab]
    split
    · rcases a.proposals.activate proposal.id height with e | ⟨_ | norm, proposals⟩
      · exact hab
      · exact heffect _ _ _ (hproposals a b proposals hab)
      · exact hnorm _ _ norm (hproposals a b proposals hab)
    · exact hab
  have hfold : ∀ (proposals : List GovernanceProposal) (a b : GovernanceContext), R a b →
      R (proposals.foldl (activateDue change ceilings height) a)
        (proposals.foldl (activateDue change' ceilings' height) b) := by
    intro proposals
    induction proposals with
    | nil => exact fun a b hab => hab
    | cons proposal rest ih => exact fun a b hab => ih _ _ (hactivate proposal a b hab)
  unfold replayGovernanceFromTransitions
  rw [hregistry a b h]
  exact hfold _ _ _ (hproposals a b _ h)

/-- Registry and parameters. -/
structure SameParams (a b : GovernanceContext) : Prop where
  proposals : b.proposals = a.proposals
  consensusParams : b.consensusParams = a.consensusParams
  mutatedParams : b.mutatedParams = a.mutatedParams

/-- Registry, limits and finality settings. -/
structure SameLimits (a b : GovernanceContext) : Prop where
  proposals : b.proposals = a.proposals
  governanceLimits : b.governanceLimits = a.governanceLimits
  finalityConfig : b.finalityConfig = a.finalityConfig

theorem SameParams.takeEffect {a b : GovernanceContext} (h : SameParams a b)
    (change change' : ValidatorChange) (ceilings : Option ConstitutionalCeilings)
    (kind : ProposalKind) :
    SameParams (takeEffect change ceilings a kind) (takeEffect change' ceilings b kind) := by
  obtain ⟨hproposals, hparams, hmutated⟩ := h
  cases kind with
  | addNorm name description fitness cost => exact ⟨hproposals, hparams, hmutated⟩
  | deactivateNorm normId =>
      simp only [Sccgub.takeEffect]
      split <;> split <;> exact ⟨hproposals, hparams, hmutated⟩
  | modifyParameter key value =>
      simp only [Sccgub.takeEffect]
      split
      · exact ⟨hproposals, hparams, hmutated⟩
      · split <;> split <;> exact ⟨hproposals, hparams, hmutated⟩
  | activateEmergency => exact ⟨hproposals, hparams, hmutated⟩
  | deactivateEmergency => exact ⟨hproposals, hparams, hmutated⟩
  | modifyConsensusParam field newValue activationHeight =>
      simp only [Sccgub.takeEffect, hparams]
      split
      · exact ⟨hproposals, rfl, rfl⟩
      · exact ⟨hproposals, hparams, hmutated⟩

/-- Whether a parameter is taken, and what it does to limits and finality
settings, does not depend on the finality mode. -/
theorem applyGovernanceParameterStatic_finalityMode (limits : GovernanceLimits)
    (finalityConfig : FinalityConfig) (mode mode' : FinalityMode) (key value : String) :
    (applyGovernanceParameterStatic ⟨limits, finalityConfig, mode⟩ key value).map
        (fun p => (p.limits, p.finalityConfig))
      = (applyGovernanceParameterStatic ⟨limits, finalityConfig, mode'⟩ key value).map
        fun p => (p.limits, p.finalityConfig) := by
  unfold applyGovernanceParameterStatic
  split <;> try rfl
  all_goals
    simp only [bind, Except.bind, pure, Except.pure]
    split <;> rfl

theorem SameLimits.takeEffect {a b : GovernanceContext} (h : SameLimits a b)
    (change change' : ValidatorChange) (ceilings ceilings' : Option ConstitutionalCeilings)
    (kind : ProposalKind) :
    SameLimits (takeEffect change ceilings a kind) (takeEffect change' ceilings' b kind) := by
  obtain ⟨hproposals, hlimits, hconfig⟩ := h
  cases kind with
  | addNorm name description fitness cost => exact ⟨hproposals, hlimits, hconfig⟩
  | deactivateNorm normId =>
      simp only [Sccgub.takeEffect]
      split <;> split <;> exact ⟨hproposals, hlimits, hconfig⟩
  | modifyParameter key value =>
      simp only [Sccgub.takeEffect, hlimits, hconfig]
      split
      · exact ⟨hproposals, rfl, rfl⟩
      · have hsame := applyGovernanceParameterStatic_finalityMode a.governanceLimits
          a.finalityConfig a.governanceState.finalityMode b.governanceState.finalityMode key value
        generalize applyGovernanceParameterStatic ⟨a.governanceLimits, a.finalityConfig,
          a.governanceState.finalityMode⟩ key value = taken at hsame ⊢
        generalize applyGovernanceParameterStatic ⟨a.governanceLimits, a.finalityConfig,
          b.governanceState.finalityMode⟩ key value = taken' at hsame ⊢
        rcases taken with e | p <;> rcases taken' with e' | p'
        · exact ⟨hproposals, hlimits, hconfig⟩
        · cases hsame
        · cases hsame
        · obtain ⟨hl, hc⟩ := Prod.mk.inj (Except.ok.inj hsame)
          exact ⟨hproposals, hl.symm, hc.symm⟩
  | activateEmergency => exact ⟨hproposals, hlimits, hconfig⟩
  | deactivateEmergency => exact ⟨hproposals, hlimits, hconfig⟩
  | modifyConsensusParam field newValue activationHeight =>
      simp only [Sccgub.takeEffect]
      split <;> split <;> exact ⟨hproposals, hlimits, hconfig⟩

theorem SameParams.replay [Crypto] {a b : GovernanceContext} (h : SameParams a b)
    (change change' : ValidatorChange) (ceilings : Option ConstitutionalCeilings)
    (transitions : List SymbolicTransition) (height : UInt64) :
    SameParams (replayGovernanceFromTransitions change ceilings transitions height a)
      (replayGovernanceFromTransitions change' ceilings transitions height b) :=
  replayGovernance_congr (fun _ _ h => h.proposals)
    (fun _ _ _ h => ⟨rfl, h.consensusParams, h.mutatedParams⟩)
    (fun _ _ _ h => ⟨h.proposals, h.consensusParams, h.mutatedParams⟩)
    (fun _ _ kind h => h.takeEffect change change' ceilings kind) transitions height h

theorem SameLimits.replay [Crypto] {a b : GovernanceContext} (h : SameLimits a b)
    (change change' : ValidatorChange) (ceilings ceilings' : Option ConstitutionalCeilings)
    (transitions : List SymbolicTransition) (height : UInt64) :
    SameLimits (replayGovernanceFromTransitions change ceilings transitions height a)
      (replayGovernanceFromTransitions change' ceilings' transitions height b) :=
  replayGovernance_congr (fun _ _ h => h.proposals)
    (fun _ _ _ h => ⟨rfl, h.governanceLimits, h.finalityConfig⟩)
    (fun _ _ _ h => ⟨h.proposals, h.governanceLimits, h.finalityConfig⟩)
    (fun _ _ kind h => h.takeEffect change change' ceilings ceilings' kind) transitions height h

/-- Registry and validators. -/
structure SameValidators (a b : GovernanceContext) : Prop where
  proposals : b.proposals = a.proposals
  validatorSet : b.validatorSet = a.validatorSet

theorem SameValidators.takeEffect {a b : GovernanceContext} (h : SameValidators a b)
    (change : ValidatorChange) (ceilings ceilings' : Option ConstitutionalCeilings)
    (kind : ProposalKind) :
    SameValidators (takeEffect change ceilings a kind) (takeEffect change ceilings' b kind) := by
  obtain ⟨hproposals, hvalidators⟩ := h
  cases kind with
  | addNorm name description fitness cost => exact ⟨hproposals, hvalidators⟩
  | deactivateNorm normId =>
      simp only [Sccgub.takeEffect]
      split <;> split <;> exact ⟨hproposals, hvalidators⟩
  | modifyParameter key value =>
      simp only [Sccgub.takeEffect]
      split
      · refine ⟨hproposals, ?_⟩
        dsimp only
        rw [hvalidators]
      · split <;> split <;> exact ⟨hproposals, hvalidators⟩
  | activateEmergency => exact ⟨hproposals, hvalidators⟩
  | deactivateEmergency => exact ⟨hproposals, hvalidators⟩
  | modifyConsensusParam field newValue activationHeight =>
      simp only [Sccgub.takeEffect]
      split <;> split <;> exact ⟨hproposals, hvalidators⟩

theorem SameValidators.replay [Crypto] {a b : GovernanceContext} (h : SameValidators a b)
    (change : ValidatorChange) (ceilings ceilings' : Option ConstitutionalCeilings)
    (transitions : List SymbolicTransition) (height : UInt64) :
    SameValidators (replayGovernanceFromTransitions change ceilings transitions height a)
      (replayGovernanceFromTransitions change ceilings' transitions height b) :=
  replayGovernance_congr (fun _ _ h => h.proposals) (fun _ _ _ h => ⟨rfl, h.validatorSet⟩)
    (fun _ _ _ h => ⟨h.proposals, h.validatorSet⟩)
    (fun _ _ kind h => h.takeEffect change ceilings ceilings' kind) transitions height h

/-- Registry and finality mode. -/
structure SameMode (a b : GovernanceContext) : Prop where
  proposals : b.proposals = a.proposals
  finalityMode : b.governanceState.finalityMode = a.governanceState.finalityMode

/-- The mode that a parameter leaves does not depend on limits and settings. -/
theorem applyGovernanceParameterStatic_settings (limits limits' : GovernanceLimits)
    (config config' : FinalityConfig) (mode : FinalityMode) (key value : String) :
    (applyGovernanceParameterStatic ⟨limits, config, mode⟩ key value).map (·.finalityMode)
      = (applyGovernanceParameterStatic ⟨limits', config', mode⟩ key value).map
        (·.finalityMode) := by
  unfold applyGovernanceParameterStatic
  split <;> try rfl
  all_goals
    simp only [bind, Except.bind, pure, Except.pure]
    split <;> rfl

theorem SameMode.takeEffect {a b : GovernanceContext} (h : SameMode a b)
    (change change' : ValidatorChange) (ceilings ceilings' : Option ConstitutionalCeilings)
    (kind : ProposalKind) :
    SameMode (takeEffect change ceilings a kind) (takeEffect change' ceilings' b kind) := by
  obtain ⟨hproposals, hmode⟩ := h
  cases kind with
  | addNorm name description fitness cost => exact ⟨hproposals, hmode⟩
  | deactivateNorm normId =>
      simp only [Sccgub.takeEffect]
      split <;> split <;> exact ⟨hproposals, hmode⟩
  | modifyParameter key value =>
      simp only [Sccgub.takeEffect, hmode]
      split
      · exact ⟨hproposals, hmode⟩
      · have hsame := applyGovernanceParameterStatic_settings a.governanceLimits
          b.governanceLimits a.finalityConfig b.finalityConfig a.governanceState.finalityMode key
          value
        generalize applyGovernanceParameterStatic ⟨a.governanceLimits, a.finalityConfig,
          a.governanceState.finalityMode⟩ key value = taken at hsame ⊢
        generalize applyGovernanceParameterStatic ⟨b.governanceLimits, b.finalityConfig,
          a.governanceState.finalityMode⟩ key value = taken' at hsame ⊢
        rcases taken with e | p <;> rcases taken' with e' | p'
        · exact ⟨hproposals, hmode⟩
        · cases hsame
        · cases hsame
        · exact ⟨hproposals, (Except.ok.inj hsame).symm⟩
  | activateEmergency => exact ⟨hproposals, hmode⟩
  | deactivateEmergency => exact ⟨hproposals, hmode⟩
  | modifyConsensusParam field newValue activationHeight =>
      simp only [Sccgub.takeEffect]
      split <;> split <;> exact ⟨hproposals, hmode⟩

theorem SameMode.replay [Crypto] {a b : GovernanceContext} (h : SameMode a b)
    (change change' : ValidatorChange) (ceilings ceilings' : Option ConstitutionalCeilings)
    (transitions : List SymbolicTransition) (height : UInt64) :
    SameMode (replayGovernanceFromTransitions change ceilings transitions height a)
      (replayGovernanceFromTransitions change' ceilings' transitions height b) :=
  replayGovernance_congr (fun _ _ h => h.proposals) (fun _ _ _ h => ⟨rfl, h.finalityMode⟩)
    (fun _ _ _ h => ⟨h.proposals, h.finalityMode⟩)
    (fun _ _ kind h => h.takeEffect change change' ceilings ceilings' kind) transitions height h

/-! ## Typed proposals -/

def ProposalKind.isTyped : ProposalKind → Bool
  | .modifyConsensusParam .. => true
  | _ => false

namespace ProposalRegistry

def kinds (self : ProposalRegistry) : List ProposalKind := self.proposals.map (·.kind)

/-- No transition of a block submits a typed proposal. -/
def Untyped (self : ProposalRegistry) : Prop := ∀ kind ∈ self.kinds, kind.isTyped = false

/-- A proposal put back in its place with its kind leaves the kinds. -/
theorem kinds_set {self : ProposalRegistry} {idx : Nat} {proposal changed : GovernanceProposal}
    (h : self.proposals[idx]? = some proposal) (hkind : changed.kind = proposal.kind) :
    ({ self with proposals := self.proposals.set idx changed } : ProposalRegistry).kinds
      = self.kinds := by
  obtain ⟨hlt, rfl⟩ := List.getElem?_eq_some_iff.mp h
  refine List.ext_getElem? fun i => ?_
  by_cases hi : idx = i
  · subst hi
    simp [kinds, hlt, hkind]
  · simp [kinds, List.getElem?_set_ne hi]

theorem kinds_vote {self voted : ProposalRegistry} {id : Hash} {voter : AgentId}
    {level : PrecedenceLevel} {approve : Bool} {height : UInt64}
    (h : self.vote id voter level approve height = .ok voted) : voted.kinds = self.kinds := by
  unfold vote at h
  obtain ⟨⟨idx, proposal⟩, hlookup, h⟩ := bind_eq_ok_iff.mp h
  simp only [guard_eq_ok_iff, pure_eq_ok_iff] at h
  obtain ⟨-, -, -, -, rfl⟩ := h
  refine kinds_set (lookup_eq_ok hlookup).2 ?_
  split <;> rfl

theorem kinds_finalize (self : ProposalRegistry) (height : UInt64) :
    (self.finalize height).kinds = self.kinds := by
  have hkind : ∀ proposal, (finalizeProposal height proposal).kind = proposal.kind := by
    intro proposal
    unfold finalizeProposal
    split
    · rfl
    · split
      · rfl
      · split <;> rfl
  simp [kinds, finalize, hkind]

theorem kinds_activate {self activated : ProposalRegistry} {id : Hash} {height : UInt64}
    {norm : Option Norm} (h : self.activate id height = .ok (norm, activated)) :
    activated.kinds = self.kinds := by
  unfold activate at h
  obtain ⟨⟨idx, proposal⟩, hlookup, h⟩ := bind_eq_ok_iff.mp h
  simp only [guard_eq_ok_iff, pure_eq_ok_iff, Prod.mk.injEq] at h
  obtain ⟨-, -, -, rfl⟩ := h
  exact kinds_set (lookup_eq_ok hlookup).2 rfl

variable [Crypto]

theorem Untyped.submitOrKeep {self : ProposalRegistry} (h : self.Untyped)
    (tx : SymbolicTransition) {kind : ProposalKind} (hkind : kind.isTyped = false)
    (height : UInt64) : (submitOrKeep self tx kind height).Untyped := by
  unfold Sccgub.submitOrKeep submit
  split
  · exact h
  · split
    · exact h
    · intro k hk
      simp only [orKeep, Except.map, kinds, List.map_append, List.mem_append, List.map_cons,
        List.map_nil, List.mem_singleton] at hk
      rcases hk with hk | rfl
      · exact h k hk
      · exact hkind

theorem Untyped.propose {self : ProposalRegistry} (h : self.Untyped) (height : UInt64)
    (tx : SymbolicTransition) (key value : Bytes) :
    (if startsWith key (utf8 "norms/governance/params/propose") then
        match parseGovernanceParamWrite value with
        | some (paramKey, paramValue) =>
            Sccgub.submitOrKeep self tx (.modifyParameter paramKey paramValue) height
        | none => self
      else self).Untyped := by
  split
  · split
    · exact h.submitOrKeep tx rfl height
    · exact h
  · exact h

omit [Crypto] in
theorem Untyped.ballot {self : ProposalRegistry} (h : self.Untyped) (height : UInt64)
    (tx : SymbolicTransition) (key value : Bytes) :
    (if startsWith key (utf8 "governance/proposals/")
          || startsWith key (utf8 "norms/governance/proposals/") then
        if h : value.length = 32 then
          orKeep self (self.vote ⟨value, h⟩ tx.actor.agentId tx.actor.governanceLevel true height)
        else self
      else self).Untyped := by
  split
  · split
    · rename_i hlen
      rcases hvote : self.vote ⟨value, hlen⟩ tx.actor.agentId tx.actor.governanceLevel true
        height with e | voted
      · exact h
      · intro k hk
        have hk : k ∈ voted.kinds := hk
        rw [kinds_vote hvote] at hk
        exact h k hk
    · exact h
  · exact h

theorem Untyped.replayTransition {self : ProposalRegistry} (h : self.Untyped) (height : UInt64)
    (tx : SymbolicTransition) : (replayTransition height self tx).Untyped := by
  unfold Sccgub.replayTransition
  split
  · exact h.submitOrKeep tx rfl height
  · rename_i key value _
    split
    · exact (h.propose height tx key value).ballot height tx key value
    · exact h
  · exact h

end ProposalRegistry

theorem takeEffect_untyped (change : ValidatorChange) (ceilings : Option ConstitutionalCeilings)
    (ctx : GovernanceContext) {kind : ProposalKind} (hkind : kind.isTyped = false) :
    SameParams ctx (takeEffect change ceilings ctx kind) := by
  have hself : SameParams ctx ctx := ⟨rfl, rfl, rfl⟩
  cases kind with
  | modifyConsensusParam field newValue activationHeight => cases hkind
  | addNorm name description fitness cost => exact hself
  | deactivateNorm normId =>
      simp only [takeEffect]
      split <;> exact ⟨rfl, rfl, rfl⟩
  | modifyParameter key value =>
      simp only [takeEffect]
      split
      · exact ⟨rfl, rfl, rfl⟩
      · split <;> exact ⟨rfl, rfl, rfl⟩
  | activateEmergency => exact ⟨rfl, rfl, rfl⟩
  | deactivateEmergency => exact ⟨rfl, rfl, rfl⟩

/-- Without typed proposals the parameters stay as they are. -/
theorem replayGovernance_untyped [Crypto] (change : ValidatorChange)
    (ceilings : Option ConstitutionalCeilings) (transitions : List SymbolicTransition)
    (height : UInt64) {ctx : GovernanceContext} (h : ctx.proposals.Untyped) :
    let after := replayGovernanceFromTransitions change ceilings transitions height ctx
    after.proposals.Untyped ∧ after.consensusParams = ctx.consensusParams
      ∧ after.mutatedParams = ctx.mutatedParams := by
  have hreplayed : ((transitions.foldl (replayTransition height) ctx.proposals).finalize
      height).Untyped := by
    have hfold : ∀ proposals : ProposalRegistry, proposals.Untyped →
        (transitions.foldl (replayTransition height) proposals).Untyped := by
      induction transitions with
      | nil => exact fun proposals hp => hp
      | cons tx rest ih => exact fun proposals hp => ih _ (hp.replayTransition height tx)
    intro kind hkind
    rw [ProposalRegistry.kinds_finalize] at hkind
    exact hfold _ h kind hkind
  have hdue : ∀ (proposals : List GovernanceProposal) (acc : GovernanceContext),
      (∀ p ∈ proposals, p.kind.isTyped = false) → acc.proposals.Untyped →
      acc.consensusParams = ctx.consensusParams → acc.mutatedParams = ctx.mutatedParams →
      let after := proposals.foldl (activateDue change ceilings height) acc
      after.proposals.Untyped ∧ after.consensusParams = ctx.consensusParams
        ∧ after.mutatedParams = ctx.mutatedParams := by
    intro proposals
    induction proposals with
    | nil => exact fun acc _ hu hp hm => ⟨hu, hp, hm⟩
    | cons proposal rest ih =>
        intro acc htyped hu hp hm
        obtain ⟨hproposal, hrest⟩ := List.forall_mem_cons.mp htyped
        have hstep : (activateDue change ceilings height acc proposal).proposals.Untyped
            ∧ (activateDue change ceilings height acc proposal).consensusParams
              = ctx.consensusParams
            ∧ (activateDue change ceilings height acc proposal).mutatedParams
              = ctx.mutatedParams := by
          unfold activateDue
          split
          · rcases hact : acc.proposals.activate proposal.id height with e | ⟨_ | norm, activated⟩
            · exact ⟨hu, hp, hm⟩
            · have heffect := takeEffect_untyped change ceilings { acc with proposals := activated }
                hproposal
              dsimp only
              refine ⟨?_, heffect.consensusParams.trans hp, heffect.mutatedParams.trans hm⟩
              rw [heffect.proposals]
              intro kind hkind
              rw [ProposalRegistry.kinds_activate hact] at hkind
              exact hu kind hkind
            · refine ⟨fun kind hkind => ?_, hp, hm⟩
              rw [ProposalRegistry.kinds_activate hact] at hkind
              exact hu kind hkind
          · exact ⟨hu, hp, hm⟩
        exact ih _ hrest hstep.1 hstep.2.1 hstep.2.2
  refine hdue _ _ (fun p hp => ?_) hreplayed rfl rfl
  exact hreplayed p.kind (List.mem_map.mpr ⟨p, hp, rfl⟩)

end Sccgub
