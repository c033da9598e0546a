import Mathlib
import Sccgub.Governance.TypedProposals
import Sccgub.Node.Proposers

/-!
# Signers of safety changes

What only the safety level may change are the limits, the finality settings, the
validators, the emergency mode and the consensus parameters.  The limits ask for
several signers of such a change and the parameters bound the number of open
proposals; `checkMultiSig` stands beside the replay and is not part of it, and
neither is the bound.
-/

namespace Sccgub

open Bincode FixedWidth Runs

/-- Distinct signers against what the level asks for. -/
def checkMultiSig (signers : List AgentId) (level : PrecedenceLevel) (limits : GovernanceLimits) :
    Except String Unit :=
  let unique : HashSet := Std.ExtTreeSet.ofList signers
  let required :=
    match level with
    | .genesis => limits.genesisChangeMinSigners
    | .safety => limits.safetyChangeMinSigners
    | _ => 1
  if clampU32 unique.size < required then
    .error s!"{level.debug}-level change requires {required} distinct signers, got {unique.size}"
  else .ok ()

/-- As many votes in favour, each of another agent, as a safety change asks for,
and enough distinct voters by the check. -/
def GovernanceProposal.Signed (self : GovernanceProposal) (limits : GovernanceLimits) : Prop :=
  limits.safetyChangeMinSigners ≤ self.votesFor
    ∧ checkMultiSig self.voters.toList .safety limits = .ok ()

instance decidableSigned (self : GovernanceProposal) (limits : GovernanceLimits) :
    Decidable (self.Signed limits) :=
  inferInstanceAs (Decidable (_ ∧ _))

/-! ## What safety proposals change -/

structure SafetySettings where
  governanceLimits : GovernanceLimits
  finalityConfig : FinalityConfig
  finalityMode : FinalityMode
  emergencyMode : Bool
  validatorSet : List ValidatorAuthority
  consensusParams : ConsensusParams
  deriving DecidableEq

def GovernanceContext.safetySettings (self : GovernanceContext) : SafetySettings where
  governanceLimits := self.governanceLimits
  finalityConfig := self.finalityConfig
  finalityMode := self.governanceState.finalityMode
  emergencyMode := self.governanceState.emergencyMode
  validatorSet := self.validatorSet
  consensusParams := self.consensusParams

/-- A kind of the meaning level leaves them alone. -/
theorem takeEffect_safetySettings (change : ValidatorChange)
    (ceilings : Option ConstitutionalCeilings) (ctx : GovernanceContext) {kind : ProposalKind}
    (hkind : kind.requiredLevel ≠ .safety) :
    (takeEffect change ceilings ctx kind).safetySettings = ctx.safetySettings := by
  cases kind with
  | addNorm name description fitness cost => rfl
  | deactivateNorm normId =>
      simp only [takeEffect]
      split <;> rfl
  | modifyParameter key value => exact absurd rfl hkind
  | activateEmergency => exact absurd rfl hkind
  | deactivateEmergency => exact absurd rfl hkind
  | modifyConsensusParam field newValue activationHeight => exact absurd rfl hkind

/-! ## Open proposals -/

def GovernanceProposal.isOpen (self : GovernanceProposal) : Bool :=
  self.status = .voting || self.status = .timelocked

namespace ProposalRegistry

def openCount (self : ProposalRegistry) : Nat := self.proposals.countP (·.isOpen)

theorem openCount_set_le {self : ProposalRegistry} {i : Nat} {p q : GovernanceProposal}
    (hp : self.proposals[i]? = some p) (hq : q.isOpen = true → p.isOpen = true) :
    ({ self with proposals := self.proposals.set i q } : ProposalRegistry).openCount
      ≤ self.openCount := by
  obtain ⟨hlt, rfl⟩ := List.getElem?_eq_some_iff.mp hp
  have hpos : self.proposals[i].isOpen = true → 0 < self.openCount := fun hopen =>
    List.countP_pos_iff.mpr ⟨_, List.getElem_mem hlt, hopen⟩
  show (self.proposals.set i q).countP (·.isOpen) ≤ self.openCount
  rw [List.countP_set hlt]
  show self.openCount - _ + _ ≤ self.openCount
  by_cases hopen : q.isOpen = true
  · have := hpos (hq hopen)
    simp only [hopen, hq hopen, if_true]
    omega
  · simp only [hopen, Bool.false_eq_true, if_false]
    omega

/-- An activation closes the proposal. -/
theorem openCount_activate {self next : ProposalRegistry} {id : Hash} {height : UInt64}
    {norm : Option Norm} (h : self.activate id height = .ok (norm, next)) :
    next.openCount + 1 ≤ self.openCount := by
  obtain ⟨i, p, hlookup, hstatus, -, -, rfl⟩ := activate_eq_ok h
  obtain ⟨hlt, rfl⟩ := List.getElem?_eq_some_iff.mp (lookup_eq_ok hlookup).2
  have hopen : self.proposals[i].isOpen = true := by
    simp [GovernanceProposal.isOpen, hstatus]
  have hpos : 0 < self.openCount := List.countP_pos_iff.mpr ⟨_, List.getElem_mem hlt, hopen⟩
  show (self.proposals.set i _).countP (·.isOpen) + 1 ≤ self.openCount
  rw [List.countP_set hlt]
  show self.openCount - _ + _ + 1 ≤ self.openCount
  rw [if_pos hopen, if_neg (by simp [GovernanceProposal.isOpen])]
  omega

theorem openCount_finalize_le (self : ProposalRegistry) (height : UInt64) :
    (self.finalize height).openCount ≤ self.openCount := by
  have hopen : ∀ p : GovernanceProposal, (finalizeProposal height p).isOpen = true →
      p.isOpen = true := by
    intro p hp
    unfold finalizeProposal at hp
    split at hp
    · exact hp
    · rename_i hstatus
      simp [GovernanceProposal.isOpen, not_not.mp hstatus]
  show (self.proposals.map (finalizeProposal height)).countP (·.isOpen) ≤ _
  rw [List.countP_map]
  exact List.countP_mono_left fun p _ => hopen p

/-- Only a submission adds an open proposal. -/
theorem openCount_call [Crypto] {self next : ProposalRegistry} {height : UInt64}
    {call : RegistryCall} (h : self.call height call = .ok next) :
    next.openCount ≤ self.openCount
      ∨ ∃ proposer level kind period, call = .submit proposer level kind period
        ∧ self.proposals.length < maxProposals ∧ level.asU8 ≤ kind.requiredLevel.asU8
        ∧ next.openCount = self.openCount + 1 := by
  cases call with
  | submit proposer level kind period =>
      rw [ProposalRegistry.call, Fallible.map_eq_ok_iff] at h
      obtain ⟨⟨id, registry⟩, hsubmit, rfl⟩ := h
      obtain ⟨hroom, hlevel, -, rfl⟩ := submit_eq_ok_iff.mp hsubmit
      refine Or.inr ⟨proposer, level, kind, period, rfl, hroom, hlevel, ?_⟩
      simp [openCount, GovernanceProposal.isOpen, submission]
  | vote id voter level approve =>
      obtain ⟨i, p, hlookup, -, -, -, -, rfl⟩ := vote_eq_ok h
      exact Or.inl (openCount_set_le (lookup_eq_ok hlookup).2 fun hopen => hopen)
  | finalize =>
      obtain rfl := Except.ok.inj h
      exact Or.inl (self.openCount_finalize_le height)
  | activate id =>
      rw [ProposalRegistry.call, Fallible.map_eq_ok_iff] at h
      obtain ⟨⟨norm, registry⟩, hactivate, rfl⟩ := h
      exact Or.inl (Nat.le_of_succ_le (openCount_activate hactivate))

end ProposalRegistry

theorem maxActiveProposals_applyTypedParam {field : ConsensusParamField}
    {newValue : ConsensusParamValue} {base params : ConsensusParams}
    (h : applyTypedParam field newValue base = .ok params) :
    params.maxActiveProposals = base.maxActiveProposals
      ∨ field = .maxActiveProposals ∧ newValue = .u32 params.maxActiveProposals := by
  have hread : ConsensusParamValue.u32 params.maxActiveProposals
      = if .maxActiveProposals = field then newValue else .u32 base.maxActiveProposals :=
    read_applyTypedParam h .maxActiveProposals
  split at hread
  · rename_i hfield
    exact Or.inr ⟨hfield.symm, hread.symm⟩
  · exact Or.inl (ConsensusParamValue.u32.inj hread)

/-! ## Checked moves -/

/-- A change of the bound leaves room for the proposals that stay open. -/
def KeepsRoom (openCount : Nat) : ProposalKind → Prop
  | .modifyConsensusParam .maxActiveProposals (.u32 n) _ => openCount ≤ n.toNat + 1
  | _ => True

namespace GovernanceMove

/-- What the replay does not check: enough signers on a safety proposal that falls
due, room for a submission, and room under a new bound. -/
def Checked (ctx : GovernanceContext) : GovernanceMove → Prop
  | .call _ (.submit _ level kind _) =>
      ctx.proposals.proposals.length < maxProposals → level.asU8 ≤ kind.requiredLevel.asU8 →
        ctx.proposals.openCount < ctx.consensusParams.maxActiveProposals.toNat
  | .due _ height p =>
      p.status = .timelocked → p.timelockUntil ≤ height →
        (ctx.proposals.activate p.id height).isOk = true →
        (p.kind.requiredLevel = .safety → p.Signed ctx.governanceLimits)
          ∧ KeepsRoom ctx.proposals.openCount p.kind
  | .restore snapshot =>
      snapshot.proposals.openCount ≤ snapshot.consensusParams.maxActiveProposals.toNat
  | _ => True

variable [Crypto]

/-- Only a safety proposal that is due and has its signers changes a safety
setting. -/
def SignedEffect (ctx : GovernanceContext) : GovernanceMove → Prop
  | .due ceilings height p =>
      (ctx.move (.due ceilings height p)).safetySettings ≠ ctx.safetySettings →
        p.kind.requiredLevel = .safety ∧ p.Signed ctx.governanceLimits
  | .restore _ => True
  | .call height request => (ctx.move (.call height request)).safetySettings = ctx.safetySettings
  | .commit => (ctx.move .commit).safetySettings = ctx.safetySettings

theorem signedEffect_of_checked {ctx : GovernanceContext} {m : GovernanceMove}
    (h : m.Checked ctx) : m.SignedEffect ctx := by
  cases m with
  | call height call => rfl
  | due ceilings height p =>
      intro hchanged
      by_cases hkind : p.kind.requiredLevel = .safety
      · refine ⟨hkind, ?_⟩
        rcases activateDue_cases applyValidatorChange ceilings height ctx p with
          hsame | ⟨norm, registry, hstatus, htime, hactivate, -⟩
        · exact absurd (congrArg _ hsame) hchanged
        · exact (h hstatus htime (by rw [hactivate]; rfl)).1 hkind
      · refine absurd ?_ hchanged
        show (activateDue applyValidatorChange ceilings height ctx p).safetySettings = _
        rcases activateDue_cases applyValidatorChange ceilings height ctx p with
          hsame | ⟨norm, registry, -, -, -, ⟨n, -, hnext⟩ | hnext⟩
        · rw [hsame]
        · rw [hnext]
          rfl
        · rw [hnext, takeEffect_safetySettings _ _ _ hkind]
          rfl
  | commit => rfl
  | restore snapshot => trivial

end GovernanceMove

namespace GovernanceContext

/-- No more proposals are open than the parameters allow. -/
def QueueBounded (self : GovernanceContext) : Prop :=
  self.proposals.openCount ≤ self.consensusParams.maxActiveProposals.toNat

/-- What takes effect keeps the bound, or sets one that leaves room. -/
theorem queueBounded_takeEffect {change : ValidatorChange}
    {ceilings : Option ConstitutionalCeilings} {ctx : GovernanceContext} {kind : ProposalKind}
    (h : ctx.QueueBounded) (hroom : KeepsRoom (ctx.proposals.openCount + 1) kind) :
    (takeEffect change ceilings ctx kind).QueueBounded := by
  have hsame : ∀ {next : GovernanceContext}, next.proposals = ctx.proposals →
      next.consensusParams = ctx.consensusParams → next.QueueBounded := by
    intro next hproposals hparams
    rw [QueueBounded, hproposals, hparams]
    exact h
  cases kind with
  | addNorm name description fitness cost => exact h
  | deactivateNorm normId =>
      simp only [takeEffect]
      split <;> exact hsame rfl rfl
  | modifyParameter key value =>
      simp only [takeEffect]
      split
      · exact hsame rfl rfl
      · split <;> exact hsame rfl rfl
  | activateEmergency => exact hsame rfl rfl
  | deactivateEmergency => exact hsame rfl rfl
  | modifyConsensusParam field newValue activationHeight =>
      simp only [takeEffect]
      split
      · rename_i params hparams
        unfold applyConsensusParamsChange at hparams
        split at hparams
        · cases hparams
        · rename_i hypothetical happly
          split at hparams
          · obtain rfl := Option.some_inj.mp hparams
            show ctx.proposals.openCount ≤ hypothetical.maxActiveProposals.toNat
            rcases maxActiveProposals_applyTypedParam happly with hmax | ⟨rfl, rfl⟩
            · rw [hmax]
              exact h
            · exact Nat.le_of_succ_le_succ hroom
          · cases hparams
      · exact h

theorem KeepsRoom.mono {m n : Nat} (hmn : m ≤ n) {kind : ProposalKind} (h : KeepsRoom n kind) :
    KeepsRoom m kind := by
  unfold KeepsRoom at h ⊢
  split
  · exact hmn.trans h
  · trivial

variable [Crypto]

theorem queueBounded_move {ctx : GovernanceContext} (h : ctx.QueueBounded) {m : GovernanceMove}
    (hm : m.Checked ctx) : (ctx.move m).QueueBounded := by
  cases m with
  | call height call =>
      show (ctx.proposals.attempt height call).openCount ≤ ctx.consensusParams.maxActiveProposals.toNat
      unfold ProposalRegistry.attempt
      rcases hcall : ctx.proposals.call height call with e | next
      · exact h
      · rcases ProposalRegistry.openCount_call hcall with
          hle | ⟨proposer, level, kind, period, rfl, hroom, hlevel, hcount⟩
        · exact hle.trans h
        · show next.openCount ≤ _
          rw [hcount]
          exact hm hroom hlevel
  | due ceilings height p =>
      show (activateDue applyValidatorChange ceilings height ctx p).QueueBounded
      rcases activateDue_cases applyValidatorChange ceilings height ctx p with
        hsame | ⟨norm, registry, hstatus, htime, hactivate, ⟨n, -, hnext⟩ | hnext⟩
      · rw [hsame]
        exact h
      · rw [hnext]
        exact (Nat.le_of_succ_le (ProposalRegistry.openCount_activate hactivate)).trans h
      · have hclosed := ProposalRegistry.openCount_activate hactivate
        rw [hnext]
        refine queueBounded_takeEffect ((Nat.le_of_succ_le hclosed).trans h) ?_
        exact KeepsRoom.mono hclosed (hm hstatus htime (by rw [hactivate]; rfl)).2
  | commit => exact h
  | restore snapshot => exact hm

end GovernanceContext

/-! ## Runs -/

section

variable [Crypto]

/-- Along the run every change of a safety setting has its signers, and in every
state the number of open proposals is within the bound. -/
structure Chain.SafetyGuarded (chain : Chain) (ops : List Chain.BlockOp) : Prop where
  signed : Along GovernanceContext.move (fun ctx m => m.SignedEffect ctx) chain.governanceContext
    (chain.trace ops)
  bounded : Throughout GovernanceContext.move GovernanceContext.QueueBounded
    chain.governanceContext (chain.trace ops)

/-- Where every move passes the checks that the replay leaves out, safety changes
have their signers and the queue stays bounded. -/
theorem Chain.safetyGuarded_of_checked {chain : Chain}
    (hbounded : chain.governanceContext.QueueBounded) (ops : List BlockOp)
    (hchecked : Along GovernanceContext.move (fun ctx m => m.Checked ctx) chain.governanceContext
      (chain.trace ops)) : chain.SafetyGuarded ops where
  signed := along_of_invariant (J := fun _ => True) (fun _ _ _ _ => trivial)
    (fun _ _ _ hm => GovernanceMove.signedEffect_of_checked hm) trivial hchecked
  bounded := throughout_of_along (fun _ _ h hm => GovernanceContext.queueBounded_move h hm)
    hbounded hchecked

theorem Chain.not_safetyGuarded_of_unsigned {chain : Chain} {ops : List BlockOp}
    (h : ¬ Along GovernanceContext.move (fun ctx m => m.SignedEffect ctx) chain.governanceContext
      (chain.trace ops)) : ¬ chain.SafetyGuarded ops :=
  fun hguarded => h hguarded.signed

theorem Chain.not_safetyGuarded_of_crowded {chain : Chain} {ops : List BlockOp}
    (h : ¬ (ops.foldl act chain).governanceContext.QueueBounded) : ¬ chain.SafetyGuarded ops := by
  intro hguarded
  have hlast := hguarded.bounded.last
  rw [foldl_trace] at hlast
  exact h hlast

end

/-! ## One signer, and one proposal too many -/

instance decidableQueueBounded (ctx : GovernanceContext) : Decidable ctx.QueueBounded :=
  inferInstanceAs (Decidable (_ ≤ _))

instance decidableKeepsRoom (openCount : Nat) :
    (kind : ProposalKind) → Decidable (KeepsRoom openCount kind) := by
  intro kind
  unfold KeepsRoom
  split <;> infer_instance

instance GovernanceMove.decidableChecked (ctx : GovernanceContext) :
    (m : GovernanceMove) → Decidable (m.Checked ctx)
  | .call _ (.submit _ level kind _) => inferInstanceAs (Decidable
      (ctx.proposals.proposals.length < maxProposals → level.asU8 ≤ kind.requiredLevel.asU8 →
        ctx.proposals.openCount < ctx.consensusParams.maxActiveProposals.toNat))
  | .due _ height p => inferInstanceAs (Decidable (p.status = .timelocked →
      p.timelockUntil ≤ height → (ctx.proposals.activate p.id height).isOk = true →
      (p.kind.requiredLevel = .safety → p.Signed ctx.governanceLimits)
        ∧ KeepsRoom ctx.proposals.openCount p.kind))
  | .restore snapshot => inferInstanceAs (Decidable
      (snapshot.proposals.openCount ≤ snapshot.consensusParams.maxActiveProposals.toNat))
  | .call _ (.vote ..) | .call _ .finalize | .call _ (.activate _) | .commit =>
      inferInstanceAs (Decidable True)

instance GovernanceMove.decidableSignedEffect [Crypto] (ctx : GovernanceContext) :
    (m : GovernanceMove) → Decidable (m.SignedEffect ctx)
  | .due ceilings height p => inferInstanceAs (Decidable
      ((ctx.move (.due ceilings height p)).safetySettings ≠ ctx.safetySettings →
        p.kind.requiredLevel = .safety ∧ p.Signed ctx.governanceLimits))
  | .restore _ => inferInstanceAs (Decidable True)
  | .call height request => inferInstanceAs (Decidable
      ((ctx.move (.call height request)).safetySettings = ctx.safetySettings))
  | .commit => inferInstanceAs (Decidable
      ((ctx.move .commit).safetySettings = ctx.safetySettings))

def removalChain : Chain := agedChain [authority 5, authority 9]

/-- A chain that allows one open proposal, and two norms on their way. -/
def crowdedChain : Chain :=
  { normTwice with
    state := { normTwice.state with
      consensusParams := { normTwice.state.consensusParams with maxActiveProposals := 1 } } }

/-- A validator is removed on the vote of one agent where the limits ask for
three; a second proposal is taken where one is allowed. -/
theorem unsigned_removal_takes_effect :
    removalChain.governanceLimits.safetyChangeMinSigners = 3
      ∧ removalChain.proposals.proposals.map (fun p => (p.status, p.votesFor))
        = [(.timelocked, 1)]
      ∧ ¬ @Chain.SafetyGuarded polyCrypto removalChain [.produce 0]
      ∧ crowdedChain.governanceContext.QueueBounded
      ∧ ¬ @Chain.SafetyGuarded polyCrypto crowdedChain [.produce 0] := by
  obtain ⟨hlimit, hvotes, hunsigned⟩ :
      removalChain.governanceLimits.safetyChangeMinSigners = 3
        ∧ removalChain.proposals.proposals.map (fun p => (p.status, p.votesFor))
          = [(.timelocked, 1)]
        ∧ ¬ Along (@GovernanceContext.move polyCrypto)
          (fun ctx m => @GovernanceMove.SignedEffect polyCrypto ctx m)
          removalChain.governanceContext (@Chain.trace polyCrypto removalChain [.produce 0]) := by
    decide +kernel
  obtain ⟨hbounded, hcrowded⟩ : crowdedChain.governanceContext.QueueBounded
      ∧ ¬ (([.produce 0] : List Chain.BlockOp).foldl (@Chain.act polyCrypto)
        crowdedChain).governanceContext.QueueBounded := by
    decide +kernel
  refine ⟨hlimit, hvotes, ?_, hbounded, ?_⟩
  · exact @Chain.not_safetyGuarded_of_unsigned polyCrypto removalChain [.produce 0] hunsigned
  · exact @Chain.not_safetyGuarded_of_crowded polyCrypto crowdedChain [.produce 0] hcrowded

/-- The same removal under limits that ask for one signer. -/
theorem safetyGuarded_of_checked_one :
    @Chain.SafetyGuarded polyCrypto
      { removalChain with governanceLimits.safetyChangeMinSigners := 1 } [.produce 0] :=
  @Chain.safetyGuarded_of_checked polyCrypto _ (by decide +kernel) _ (by decide +kernel)

end Sccgub
