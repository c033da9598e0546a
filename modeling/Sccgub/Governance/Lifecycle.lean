import Mathlib
import Sccgub.Fallible
import Sccgub.Runs
import Sccgub.Governance.Proposals

/-!
# The life of a proposal

Calls on the registry come in any order and at any height.  What one of them can
do to a proposal is said once, as a `Change`: a vote counts, voting ends in a
timelock or in rejection, a timelocked proposal is activated, or nothing happens.
Everything else about runs follows from these.  A call that is refused has written
nothing (`perform_of_error`), although a vote enters its voter before the last check.

The registry keeps sums and the names of the voters.  A `History` is kept beside
each proposal of a run, with what the sums came from and when its status changed;
it is read off the proposal before and after each call.
-/

namespace Sccgub

open Bincode FixedWidth Runs

inductive RegistryCall where
  | submit (proposer : AgentId) (proposerLevel : PrecedenceLevel) (kind : ProposalKind)
      (votingPeriod : UInt64)
  | vote (proposalId : Hash) (voter : AgentId) (voterLevel : PrecedenceLevel) (approve : Bool)
  | finalize
  | activate (proposalId : Hash)
  deriving DecidableEq

/-! ## Calls -/

namespace ProposalRegistry

def call [Crypto] (self : ProposalRegistry) (height : UInt64) :
    RegistryCall → Except String ProposalRegistry
  | .submit proposer proposerLevel kind votingPeriod =>
      (self.submit proposer proposerLevel kind height votingPeriod).map Prod.snd
  | .vote proposalId voter voterLevel approve =>
      self.vote proposalId voter voterLevel approve height
  | .finalize => .ok (self.finalize height)
  | .activate proposalId => (self.activate proposalId height).map Prod.snd

end ProposalRegistry

namespace GovernanceProposal

/-- The proposal with one more vote. -/
def withVote (self : GovernanceProposal) (voter : AgentId) (approve : Bool) : GovernanceProposal :=
  { self with
    votesFor := if approve then saturatingSucc self.votesFor else self.votesFor
    votesAgainst := if approve then self.votesAgainst else saturatingSucc self.votesAgainst
    voters := self.voters.insert voter }

/-- As it is submitted. -/
structure Submitted (p : GovernanceProposal) : Prop where
  status : p.status = .voting
  votesFor : p.votesFor = 0
  votesAgainst : p.votesAgainst = 0
  voters : p.voters = ∅
  requiredLevel : p.requiredLevel = p.kind.requiredLevel

end GovernanceProposal

/-- What a call at a height can do to a proposal. -/
inductive Change (height : UInt64) (call : RegistryCall) :
    GovernanceProposal → GovernanceProposal → Prop
  | same (p : GovernanceProposal) : Change height call p p
  | voted (p : GovernanceProposal) (proposalId : Hash) (voter : AgentId)
      (voterLevel : PrecedenceLevel) (approve : Bool)
      (hcall : call = .vote proposalId voter voterLevel approve) (hstatus : p.status = .voting)
      (hdeadline : height ≤ p.votingDeadline) (hlevel : voterLevel.asU8 ≤ p.requiredLevel.asU8)
      (hnew : voter ∉ p.voters) : Change height call p (p.withVote voter approve)
  | locked (p : GovernanceProposal) (hcall : call = .finalize) (hstatus : p.status = .voting)
      (hdeadline : p.votingDeadline < height) (hvotes : p.votesAgainst < p.votesFor) :
      Change height call p { p with
        timelockUntil := saturatingAdd height p.kind.timelockDuration
        status := .timelocked }
  | rejected (p : GovernanceProposal) (hcall : call = .finalize) (hstatus : p.status = .voting)
      (hdeadline : p.votingDeadline < height) (hvotes : ¬ p.votesAgainst < p.votesFor) :
      Change height call p { p with status := .rejected }
  | activated (p : GovernanceProposal) (proposalId : Hash) (hcall : call = .activate proposalId)
      (hstatus : p.status = .timelocked) (htime : p.timelockUntil ≤ height) :
      Change height call p { p with status := .activated }

theorem forall₂_set {α β : Type} {R : α → β → Prop} {l : List α} {l' : List β} {i : Nat} {a : α}
    {b : β} (h : List.Forall₂ R l l') (hl : l[i]? = some a) (hb : R a b) :
    List.Forall₂ R l (l'.set i b) := by
  induction h generalizing i with
  | nil => simp at hl
  | cons hx hrest ih =>
      cases i with
      | zero =>
          obtain rfl := Option.some_inj.mp hl
          exact .cons hb hrest
      | succ i => exact .cons hx (ih hl)

namespace ProposalRegistry

theorem lookup_eq_ok {self : ProposalRegistry} {id : Hash} {i : Nat} {p : GovernanceProposal}
    (h : self.lookup id = .ok (i, p)) : self.index[id]? = some i ∧ self.proposals[i]? = some p := by
  unfold lookup at h
  split at h
  · cases h
  · rename_i idx hindex
    split at h
    · cases h
    · rename_i proposal hproposal
      cases h
      exact ⟨hindex, hproposal⟩

/-- The id that a submission gives a proposal. -/
def proposalId [Crypto] (proposer : AgentId) (kind : ProposalKind) (height : UInt64) : Hash :=
  blake3Hash (((Codec.bytes 32).pair <| ProposalKind.codec.pair Codec.u64).enc
    (proposer, kind, height))

/-- What a submission puts at the end of the list. -/
def submission [Crypto] (proposer : AgentId) (kind : ProposalKind) (height votingPeriod : UInt64) :
    GovernanceProposal where
  id := proposalId proposer kind height
  proposer
  kind
  status := .voting
  submittedAt := height
  votesFor := 0
  votesAgainst := 0
  requiredLevel := kind.requiredLevel
  votingDeadline := saturatingAdd height votingPeriod
  voters := ∅
  timelockUntil := 0

theorem submit_eq_ok_iff [Crypto] {self next : ProposalRegistry} {proposer : AgentId}
    {level : PrecedenceLevel} {kind : ProposalKind} {height votingPeriod : UInt64} {id : Hash} :
    self.submit proposer level kind height votingPeriod = .ok (id, next) ↔
      self.proposals.length < maxProposals ∧ level.asU8 ≤ kind.requiredLevel.asU8
        ∧ id = proposalId proposer kind height
        ∧ next = ⟨self.proposals ++ [submission proposer kind height votingPeriod],
          self.index.insert (proposalId proposer kind height) self.proposals.length⟩ := by
  unfold submit
  rw [← not_le, ← UInt8.not_lt]
  split
  · rename_i hfull
    simp [hfull]
  · rename_i hroom
    split
    · rename_i hlevel
      simp [hlevel]
    · rename_i hlevel
      simp only [hroom, hlevel, not_false_eq_true, true_and, Except.ok.injEq, Prod.mk.injEq,
        @eq_comm _ _ id, @eq_comm _ _ next]
      rfl

/-- A vote counts on the proposal that the index points to. -/
theorem vote_eq_ok {self next : ProposalRegistry} {id : Hash} {voter : AgentId}
    {level : PrecedenceLevel} {approve : Bool} {height : UInt64}
    (h : self.vote id voter level approve height = .ok next) :
    ∃ i p, self.lookup id = .ok (i, p) ∧ p.status = .voting ∧ height ≤ p.votingDeadline
      ∧ level.asU8 ≤ p.requiredLevel.asU8 ∧ voter ∉ p.voters
      ∧ next = { self with proposals := self.proposals.set i (p.withVote voter approve) } := by
  unfold vote at h
  rw [Fallible.bind_eq_ok_iff] at h
  obtain ⟨⟨i, p⟩, hlookup, h⟩ := h
  simp only [Fallible.guard_eq_ok_iff, not_not] at h
  obtain ⟨hstatus, hdeadline, hlevel, hnew, hnext⟩ := h
  refine ⟨i, p, hlookup, hstatus, UInt64.not_lt.mp hdeadline, UInt8.not_lt.mp hlevel, hnew, ?_⟩
  rw [Fallible.pure_eq_ok_iff] at hnext
  rw [hnext, GovernanceProposal.withVote]
  cases approve <;> rfl

theorem activate_eq_ok {self next : ProposalRegistry} {id : Hash} {height : UInt64}
    {norm : Option Norm} (h : self.activate id height = .ok (norm, next)) :
    ∃ i p, self.lookup id = .ok (i, p) ∧ p.status = .timelocked ∧ p.timelockUntil ≤ height
      ∧ norm = normOf p
      ∧ next = { self with proposals := self.proposals.set i { p with status := .activated } } := by
  unfold activate at h
  rw [Fallible.bind_eq_ok_iff] at h
  obtain ⟨⟨i, p⟩, hlookup, h⟩ := h
  simp only [Fallible.guard_eq_ok_iff, not_not, Fallible.pure_eq_ok_iff] at h
  obtain ⟨hstatus, htime, hnext⟩ := h
  obtain ⟨rfl, rfl⟩ := Prod.mk.inj hnext
  exact ⟨i, p, hlookup, hstatus, UInt64.not_lt.mp htime, rfl, rfl⟩

theorem finalizeProposal_change (height : UInt64) (p : GovernanceProposal) :
    Change height .finalize p (finalizeProposal height p) := by
  unfold finalizeProposal
  split
  · exact .same p
  · rename_i hstatus
    split
    · exact .same p
    · rename_i hdeadline
      split
      · rename_i hvotes
        exact .locked p rfl (not_not.mp hstatus) (UInt64.not_le.mp hdeadline) hvotes
      · rename_i hvotes
        exact .rejected p rfl (not_not.mp hstatus) (UInt64.not_le.mp hdeadline) hvotes

/-- A call changes proposals and adds at most a new one at the end. -/
theorem call_changes [Crypto] {self next : ProposalRegistry} {height : UInt64}
    {call : RegistryCall} (h : self.call height call = .ok next) :
    ∃ changed new, next.proposals = changed ++ new
      ∧ List.Forall₂ (Change height call) self.proposals changed
      ∧ ∀ p ∈ new, p.Submitted := by
  have hsame : List.Forall₂ (Change height call) self.proposals self.proposals :=
    List.forall₂_same.mpr fun p _ => .same p
  cases call with
  | submit proposer level kind period =>
      rcases hsubmit : self.submit proposer level kind height period with e | ⟨id, registry⟩
      · rw [ProposalRegistry.call, hsubmit] at h
        cases h
      · rw [ProposalRegistry.call, hsubmit] at h
        obtain rfl := Except.ok.inj h
        obtain ⟨-, -, -, rfl⟩ := submit_eq_ok_iff.mp hsubmit
        refine ⟨self.proposals, _, rfl, hsame, fun p hp => ?_⟩
        rw [List.mem_singleton.mp hp]
        exact ⟨rfl, rfl, rfl, rfl, rfl⟩
  | vote id voter level approve =>
      obtain ⟨i, p, hlookup, hstatus, hdeadline, hlevel, hnew, rfl⟩ := vote_eq_ok h
      refine ⟨_, [], (List.append_nil _).symm, ?_, fun p hp => nomatch hp⟩
      exact forall₂_set hsame (lookup_eq_ok hlookup).2
        (.voted p id voter level approve rfl hstatus hdeadline hlevel hnew)
  | finalize =>
      obtain rfl := Except.ok.inj h
      refine ⟨_, [], (List.append_nil _).symm, ?_, fun p hp => nomatch hp⟩
      rw [finalize, List.forall₂_map_right_iff]
      exact List.forall₂_same.mpr fun p _ => finalizeProposal_change height p
  | activate id =>
      rcases hact : self.activate id height with e | ⟨norm, registry⟩
      · rw [ProposalRegistry.call, hact] at h
        cases h
      · rw [ProposalRegistry.call, hact] at h
        obtain rfl := Except.ok.inj h
        obtain ⟨i, p, hlookup, hstatus, htime, -, rfl⟩ := activate_eq_ok hact
        refine ⟨_, [], (List.append_nil _).symm, ?_, fun p hp => nomatch hp⟩
        exact forall₂_set hsame (lookup_eq_ok hlookup).2 (.activated p id rfl hstatus htime)

/-! ### In place -/

/-- A call that makes every check before it writes. -/
def answered (self : ProposalRegistry) :
    Except String ProposalRegistry → Except String Unit × ProposalRegistry
  | .ok next => (.ok (), next)
  | .error e => (.error e, self)

theorem answered_guard {self : ProposalRegistry} {p : Prop} [Decidable p] {e : String} {β : Type}
    {dead : β → Except String ProposalRegistry} {rest : Except String ProposalRegistry} :
    self.answered (if p then ((throw e : Except String β) >>= dead) else rest)
      = if p then (.error e, self) else self.answered rest := by
  split <;> rfl

/-- The vote on the registry in place.  The voter is entered before the last check, which
asks whether it was there already. -/
def voteInPlace (self : ProposalRegistry) (proposalId : Hash) (voter : AgentId)
    (voterLevel : PrecedenceLevel) (approve : Bool) (currentHeight : UInt64) :
    Except String Unit × ProposalRegistry :=
  match self.lookup proposalId with
  | .error e => (.error e, self)
  | .ok (idx, proposal) =>
      if proposal.status ≠ .voting then (.error "Proposal is not in voting state", self)
      else if proposal.votingDeadline < currentHeight then (.error "Voting period has ended", self)
      else if proposal.requiredLevel.asU8 < voterLevel.asU8 then
        (.error "Voter lacks required governance level", self)
      else
        let entered := { proposal with voters := proposal.voters.insert voter }
        let counted := if approve then { entered with votesFor := saturatingSucc proposal.votesFor }
          else { entered with votesAgainst := saturatingSucc proposal.votesAgainst }
        if voter ∈ proposal.voters then
          (.error "Agent has already voted on this proposal",
            { self with proposals := self.proposals.set idx entered })
        else (.ok (), { self with proposals := self.proposals.set idx counted })

/-- What a call answers, and the registry that it leaves. -/
def perform [Crypto] (self : ProposalRegistry) (height : UInt64) :
    RegistryCall → Except String Unit × ProposalRegistry
  | .vote proposalId voter voterLevel approve =>
      self.voteInPlace proposalId voter voterLevel approve height
  | request => self.answered (self.call height request)

/-- Entering a voter again writes nothing. -/
theorem set_entered {self : ProposalRegistry} {id : Hash} {i : Nat} {p : GovernanceProposal}
    (hlookup : self.lookup id = .ok (i, p)) {voter : AgentId} (hvoted : voter ∈ p.voters) :
    self.proposals.set i { p with voters := p.voters.insert voter } = self.proposals := by
  have hvoters : p.voters.insert voter = p.voters := by
    refine Std.ExtTreeSet.ext_mem fun agent => ?_
    rw [Std.ExtTreeSet.mem_insert, Std.LawfulEqCmp.compare_eq_iff_eq]
    exact or_iff_right_of_imp fun hagent => hagent ▸ hvoted
  obtain ⟨hi, hp⟩ := List.getElem?_eq_some_iff.mp (lookup_eq_ok hlookup).2
  rw [hvoters, ← hp]
  exact List.set_getElem_self hi

theorem voteInPlace_eq (self : ProposalRegistry) (id : Hash) (voter : AgentId)
    (level : PrecedenceLevel) (approve : Bool) (height : UInt64) :
    self.voteInPlace id voter level approve height
      = self.answered (self.vote id voter level approve height) := by
  unfold voteInPlace vote
  rcases hlookup : self.lookup id with e | ⟨i, p⟩
  · rfl
  · rw [Fallible.ok_bind]
    dsimp only
    rw [answered_guard, answered_guard, answered_guard, answered_guard]
    by_cases hvoted : voter ∈ p.voters
    · rw [if_pos hvoted, if_pos hvoted, set_entered hlookup hvoted]
    · rw [if_neg hvoted, if_neg hvoted]
      cases approve <;> rfl

theorem perform_eq [Crypto] (self : ProposalRegistry) (height : UInt64) (request : RegistryCall) :
    self.perform height request = self.answered (self.call height request) := by
  cases request with
  | vote id voter level approve => exact self.voteInPlace_eq id voter level approve height
  | submit | finalize | activate => rfl

/-- A call that is refused leaves the registry as it was. -/
theorem perform_of_error [Crypto] {self : ProposalRegistry} {height : UInt64}
    {request : RegistryCall} {e : String} (h : (self.perform height request).1 = .error e) :
    (self.perform height request).2 = self := by
  rw [perform_eq] at h ⊢
  rcases hcall : self.call height request with e' | next
  · rfl
  · rw [hcall] at h
    cases h

/-- The registry that is left has changes and at most a new proposal as well. -/
theorem perform_changes [Crypto] (self : ProposalRegistry) (height : UInt64)
    (request : RegistryCall) :
    ∃ changed new, (self.perform height request).2.proposals = changed ++ new
      ∧ List.Forall₂ (Change height request) self.proposals changed
      ∧ ∀ p ∈ new, p.Submitted := by
  rw [perform_eq]
  rcases hcall : self.call height request with e | next
  · exact ⟨self.proposals, [], (List.append_nil _).symm, List.forall₂_same.mpr fun p _ => .same p,
      fun p hp => nomatch hp⟩
  · exact call_changes hcall

end ProposalRegistry

/-! ## Histories -/

structure Ballot where
  voter : AgentId
  voterLevel : PrecedenceLevel
  approve : Bool
  height : UInt64
  deriving DecidableEq

/-- What happened to a proposal, oldest first. -/
structure History where
  ballots : List Ballot := []
  /-- The calls that timelocked it, and at which heights. -/
  lockedAt : List (UInt64 × RegistryCall) := []
  activatedAt : List (UInt64 × RegistryCall) := []
  deriving DecidableEq

namespace History

def votes (self : History) (approve : Bool) : Nat :=
  self.ballots.countP fun ballot => ballot.approve = approve

/-- A call is seen by what the proposal was before it and is after it. -/
def observe (height : UInt64) (call : RegistryCall) (before after : GovernanceProposal)
    (self : History) : History where
  ballots := match call with
    | .vote _ voter voterLevel approve =>
        if voter ∉ before.voters ∧ voter ∈ after.voters then
          self.ballots ++ [⟨voter, voterLevel, approve, height⟩]
        else self.ballots
    | _ => self.ballots
  lockedAt := if before.status ≠ .timelocked ∧ after.status = .timelocked then
      self.lockedAt ++ [(height, call)] else self.lockedAt
  activatedAt := if before.status ≠ .activated ∧ after.status = .activated then
      self.activatedAt ++ [(height, call)] else self.activatedAt

/-- Accepted by a vote that was finalized at a height, and locked from then on. -/
def Locked (self : History) (p : GovernanceProposal) (height : UInt64) : Prop :=
  self.lockedAt = [(height, .finalize)] ∧ p.votingDeadline < height ∧ p.votesAgainst < p.votesFor
    ∧ p.timelockUntil = saturatingAdd height p.kind.timelockDuration

/-- What the status says about the past. -/
def Stage (self : History) (p : GovernanceProposal) : Prop :=
  match p.status with
  | .voting | .rejected => self.lockedAt = [] ∧ self.activatedAt = []
  | .timelocked => self.activatedAt = [] ∧ ∃ height, self.Locked p height
  | .activated => ∃ height height' id, self.Locked p height
      ∧ self.activatedAt = [(height', .activate id)] ∧ p.timelockUntil ≤ height'
  | .submitted | .accepted | .expired => False

/-- The sums of a proposal come from ballots of distinct voters with the level it
asks for, cast before its deadline. -/
structure Records (history : History) (p : GovernanceProposal) : Prop where
  distinct : (history.ballots.map Ballot.voter).Nodup
  voters : ∀ agent, agent ∈ p.voters ↔ agent ∈ history.ballots.map Ballot.voter
  cast : ∀ ballot ∈ history.ballots,
    ballot.voterLevel.asU8 ≤ p.requiredLevel.asU8 ∧ ballot.height ≤ p.votingDeadline
  votesFor : p.votesFor.toNat = min (history.votes true) (2 ^ 32 - 1)
  votesAgainst : p.votesAgainst.toNat = min (history.votes false) (2 ^ 32 - 1)
  level : p.requiredLevel = p.kind.requiredLevel
  stage : history.Stage p

theorem records_submitted {p : GovernanceProposal} (h : p.Submitted) : Records {} p where
  distinct := List.nodup_nil
  voters agent := by
    rw [h.voters]
    simp
  cast ballot hballot := nomatch hballot
  votesFor := by
    rw [h.votesFor]
    rfl
  votesAgainst := by
    rw [h.votesAgainst]
    rfl
  level := h.requiredLevel
  stage := by
    rw [Stage, h.status]
    exact ⟨rfl, rfl⟩

end History

theorem toNat_saturatingSucc (n : UInt32) :
    (saturatingSucc n).toNat = min (n.toNat + 1) (2 ^ 32 - 1) := by
  unfold saturatingSucc
  split
  · rename_i hmax
    rw [hmax]
    rfl
  · rename_i hmax
    have hlt := n.toNat_lt
    have hne : n.toNat ≠ 4294967295 := fun h => hmax (UInt32.toNat_inj.mp h)
    rw [UInt32.toNat_add]
    have hone : (1 : UInt32).toNat = 1 := rfl
    rw [hone]
    omega

namespace History

variable {height : UInt64} {call : RegistryCall} {p q : GovernanceProposal} {history : History}

theorem observe_same (history : History) (p : GovernanceProposal) :
    history.observe height call p p = history := by
  unfold observe
  have hballots : (match call with
      | .vote _ voter voterLevel approve =>
          if voter ∉ p.voters ∧ voter ∈ p.voters then
            history.ballots ++ [⟨voter, voterLevel, approve, height⟩]
          else history.ballots
      | _ => history.ballots) = history.ballots := by
    cases call with
    | vote id voter level approve => exact if_neg fun h => h.1 h.2
    | _ => rfl
  rw [hballots, if_neg fun h => h.1 h.2, if_neg fun h => h.1 h.2]

/-- A call that is not a vote leaves the ballots. -/
theorem ballots_observe (hcall : ∀ id voter level approve, call ≠ .vote id voter level approve) :
    (history.observe height call p q).ballots = history.ballots := by
  cases call with
  | vote id voter level approve => exact absurd rfl (hcall id voter level approve)
  | _ => rfl

theorem countP_append_singleton (l : List Ballot) (ballot : Ballot) (approve : Bool) :
    (l ++ [ballot]).countP (fun b => b.approve = approve)
      = l.countP (fun b => b.approve = approve) + if ballot.approve = approve then 1 else 0 := by
  rw [List.countP_append, List.countP_singleton]
  simp

/-- A vote on a proposal that takes votes. -/
theorem Records.voted {id : Hash} {voter : AgentId} {level : PrecedenceLevel} {approve : Bool}
    (h : history.Records p) (hstatus : p.status = .voting) (hdeadline : height ≤ p.votingDeadline)
    (hlevel : level.asU8 ≤ p.requiredLevel.asU8) (hnew : voter ∉ p.voters) :
    (history.observe height (.vote id voter level approve) p (p.withVote voter approve)).Records
      (p.withVote voter approve) := by
  have hmem : voter ∈ (p.withVote voter approve).voters := by
    simp [GovernanceProposal.withVote]
  have hballots : (history.observe height (.vote id voter level approve) p
      (p.withVote voter approve)).ballots = history.ballots ++ [⟨voter, level, approve, height⟩] :=
    if_pos ⟨hnew, hmem⟩
  have hvotes : ∀ side, (history.observe height (.vote id voter level approve) p
      (p.withVote voter approve)).votes side
        = history.votes side + if approve = side then 1 else 0 := by
    intro side
    rw [votes, hballots, countP_append_singleton]
    rfl
  refine ⟨?_, fun agent => ?_, fun ballot hballot => ?_, ?_, ?_, h.level, ?_⟩
  · rw [hballots, List.map_append, List.nodup_append]
    refine ⟨h.distinct, List.nodup_singleton _, ?_⟩
    rintro a ha b hb rfl
    rw [List.map_singleton, List.mem_singleton] at hb
    rw [hb] at ha
    exact hnew ((h.voters voter).mpr ha)
  · rw [hballots, List.map_append, List.mem_append, ← h.voters agent]
    simp only [GovernanceProposal.withVote, Std.ExtTreeSet.mem_insert,
      Std.LawfulEqCmp.compare_eq_iff_eq, List.map_singleton, List.mem_singleton]
    exact ⟨fun hor => hor.symm.imp_right Eq.symm, fun hor => hor.symm.imp_left Eq.symm⟩
  · rw [hballots, List.mem_append] at hballot
    rcases hballot with hold | hlast
    · exact h.cast ballot hold
    · rw [List.mem_singleton.mp hlast]
      exact ⟨hlevel, hdeadline⟩
  · rw [hvotes]
    have hfor := h.votesFor
    cases approve with
    | true =>
        simp only [GovernanceProposal.withVote, if_true, toNat_saturatingSucc]
        omega
    | false => simpa [GovernanceProposal.withVote] using hfor
  · rw [hvotes]
    have hagainst := h.votesAgainst
    cases approve with
    | true => simpa [GovernanceProposal.withVote] using hagainst
    | false =>
        simp only [GovernanceProposal.withVote, Bool.false_eq_true, if_false, if_true,
          toNat_saturatingSucc]
        omega
  · have hstage := h.stage
    rw [Stage, hstatus] at hstage
    have hnext : (p.withVote voter approve).status = .voting := hstatus
    rw [Stage, hnext]
    simp only [observe, hstatus, hnext]
    exact hstage

/-- A change of status alone leaves ballots and sums. -/
theorem Records.restaged (h : history.Records p)
    (hcall : ∀ id voter level approve, call ≠ .vote id voter level approve)
    (hframe : q = { p with status := q.status, timelockUntil := q.timelockUntil })
    (hstage : (history.observe height call p q).Stage q) :
    (history.observe height call p q).Records q := by
  have hballots : (history.observe height call p q).ballots = history.ballots :=
    ballots_observe hcall
  have hvotes : ∀ side, (history.observe height call p q).votes side = history.votes side := by
    intro side
    rw [votes, hballots, votes]
  refine ⟨hballots ▸ h.distinct, ?_, ?_, ?_, ?_, ?_, hstage⟩
  · rw [hballots, hframe]
    exact h.voters
  · rw [hballots, hframe]
    exact h.cast
  · rw [hvotes, hframe]
    exact h.votesFor
  · rw [hvotes, hframe]
    exact h.votesAgainst
  · rw [hframe]
    exact h.level

/-- Whatever a call does to a proposal, its history goes on recording it. -/
theorem Records.change (h : history.Records p) (hchange : Change height call p q) :
    (history.observe height call p q).Records q := by
  have hstage := h.stage
  cases hchange with
  | same =>
      rw [observe_same]
      exact h
  | voted id voter level approve hcall hstatus hdeadline hlevel hnew =>
      rw [hcall]
      exact h.voted hstatus hdeadline hlevel hnew
  | locked hcall hstatus hdeadline hvotes =>
      refine h.restaged (by rw [hcall]; simp) rfl ?_
      rw [Stage, hstatus] at hstage
      show (observe height call p _ history).activatedAt = [] ∧ _
      simp only [observe, hstatus, Locked]
      simp [hstage.1, hstage.2, hcall, hdeadline, hvotes]
  | rejected hcall hstatus hdeadline hvotes =>
      refine h.restaged (by rw [hcall]; simp) rfl ?_
      rw [Stage, hstatus] at hstage
      show (observe height call p _ history).lockedAt = [] ∧ _
      simp only [observe]
      simpa using hstage
  | activated id hcall hstatus htime =>
      refine h.restaged (by rw [hcall]; simp) rfl ?_
      rw [Stage, hstatus] at hstage
      obtain ⟨hnone, lockedAt, hlocked, hrest⟩ := hstage
      refine ⟨lockedAt, height, id, ⟨?_, hrest⟩, ?_, htime⟩
      · simpa [observe] using hlocked
      · simp [observe, hstatus, hnone, hcall]

end History

/-! ## Runs -/

/-- A registry with the histories of its proposals. -/
structure Watched where
  registry : ProposalRegistry := {}
  histories : List History := []

namespace Watched

/-- A new proposal has no history yet. -/
def observeAll (height : UInt64) (call : RegistryCall) :
    List GovernanceProposal → List GovernanceProposal → List History → List History
  | before :: befores, after :: afters, history :: histories =>
      history.observe height call before after :: observeAll height call befores afters histories
  | [], afters, _ => afters.map fun _ => {}
  | _, _, _ => []

/-- The proposals are looked at before and after a call, whatever it answers. -/
def step [Crypto] (self : Watched) (input : UInt64 × RegistryCall) : Watched :=
  let registry := (self.registry.perform input.1 input.2).2
  { registry
    histories := observeAll input.1 input.2 self.registry.proposals registry.proposals
      self.histories }

def Sound (self : Watched) : Prop :=
  List.Forall₂ History.Records self.histories self.registry.proposals

theorem observeAll_records {height : UInt64} {call : RegistryCall}
    {befores changed new : List GovernanceProposal} {histories : List History}
    (hsound : List.Forall₂ History.Records histories befores)
    (hchanges : List.Forall₂ (Change height call) befores changed)
    (hnew : ∀ p ∈ new, p.Submitted) :
    List.Forall₂ History.Records (observeAll height call befores (changed ++ new) histories)
      (changed ++ new) := by
  induction hsound generalizing changed with
  | nil =>
      cases hchanges
      rw [observeAll, List.nil_append, List.forall₂_map_left_iff]
      exact List.forall₂_same.mpr fun p hp => History.records_submitted (hnew p hp)
  | cons hrecords hrest ih =>
      cases hchanges with
      | cons hchange hchanges => exact .cons (hrecords.change hchange) (ih hchanges)

theorem Sound.step [Crypto] {self : Watched} (h : self.Sound) (input : UInt64 × RegistryCall) :
    (self.step input).Sound := by
  obtain ⟨changed, new, hnext, hchanges, hnew⟩ :=
    self.registry.perform_changes input.1 input.2
  unfold Sound Watched.step
  dsimp only
  rw [hnext]
  exact observeAll_records h hchanges hnew

theorem sound_run [Crypto] (calls : List (UInt64 × RegistryCall)) :
    (calls.foldl step {}).Sound := by
  have hrun : Throughout step Sound {} calls :=
    throughout_of_step (fun _ input h => h.step input) .nil
  exact hrun.last

/-- At least as many blocks as the kind asks for, up to the largest height. -/
def Waited (kind : ProposalKind) (lockedAt activatedAt : UInt64) : Prop :=
  lockedAt.toNat + kind.timelockDuration.toNat ≤ activatedAt.toNat
    ∨ (2 ^ 64 ≤ lockedAt.toNat + kind.timelockDuration.toNat ∧ activatedAt.toNat = 2 ^ 64 - 1)

/-- Where an activated proposal comes from: one activation, after one timelock set
when a vote that it won was finalized. -/
structure Accounted (p : GovernanceProposal) (history : History) : Prop where
  times : ∃ lockedAt activatedAt id, history.lockedAt = [(lockedAt, .finalize)]
    ∧ history.activatedAt = [(activatedAt, .activate id)] ∧ p.votingDeadline < lockedAt
    ∧ Waited p.kind lockedAt activatedAt
  won : history.votes false < history.votes true
  distinct : (history.ballots.map Ballot.voter).Nodup
  cast : ∀ ballot ∈ history.ballots, ballot.voterLevel.asU8 ≤ p.kind.requiredLevel.asU8
    ∧ ballot.height ≤ p.votingDeadline

theorem accounted_of_records {p : GovernanceProposal} {history : History}
    (h : history.Records p) (hstatus : p.status = .activated) : Accounted p history := by
  have hstage := h.stage
  rw [History.Stage, hstatus] at hstage
  obtain ⟨lockedAt, activatedAt, id, ⟨hlocked, hdeadline, hvotes, huntil⟩, hactivated, htime⟩ :=
    hstage
  refine ⟨⟨lockedAt, activatedAt, id, hlocked, hactivated, hdeadline, ?_⟩, ?_, h.distinct, ?_⟩
  · rw [huntil, UInt64.le_iff_toNat_le, toNat_saturatingAdd] at htime
    have hmax := activatedAt.toNat_lt
    unfold Waited
    omega
  · have hfor := h.votesFor
    have hagainst := h.votesAgainst
    rw [UInt32.lt_iff_toNat_lt] at hvotes
    omega
  · rw [← h.level]
    exact h.cast

/-- Over all calls at any heights: whatever is activated was locked by a vote that
it won and has waited, each of the two once; and a refused call changes nothing. -/
theorem activated_accounted [Crypto] (calls : List (UInt64 × RegistryCall)) :
    (∀ (i : Nat) (p : GovernanceProposal),
        (calls.foldl step {}).registry.proposals[i]? = some p → p.status = .activated →
        ∃ history, (calls.foldl step {}).histories[i]? = some history ∧ Accounted p history)
      ∧ ∀ (self : Watched) (height : UInt64) (request : RegistryCall) (e : String),
        (self.registry.perform height request).1 = .error e →
          (self.step (height, request)).registry = self.registry := by
  constructor
  · intro i p hp hstatus
    have hsound := sound_run calls
    have hlength := hsound.length_eq
    have hi : i < (calls.foldl step {}).registry.proposals.length :=
      (List.getElem?_eq_some_iff.mp hp).1
    have hrecords := List.Forall₂.get hsound (hlength ▸ hi) hi
    refine ⟨_, List.getElem?_eq_getElem (hlength ▸ hi), accounted_of_records ?_ hstatus⟩
    rw [List.get_eq_getElem, List.get_eq_getElem, (List.getElem?_eq_some_iff.mp hp).2] at hrecords
    exact hrecords
  · intro self height request e herror
    exact ProposalRegistry.perform_of_error herror

def lateId : Hash := @ProposalRegistry.proposalId polyCrypto (Hash.ofByte 1) .activateEmergency 0

/-- An emergency that is voted in and finalized one block below the largest height. -/
def lateCalls : List (UInt64 × RegistryCall) :=
  [(0, .submit (Hash.ofByte 1) .genesis .activateEmergency 5),
    (1, .vote lateId (Hash.ofByte 2) .genesis true),
    (18446744073709551614, .finalize),
    (18446744073709551615, .activate lateId)]

/-- One block after the vote ended an emergency is active that had to wait for two
hundred: the sum of heights stops at the largest one. -/
theorem late_activation_not_waited :
    ∃ (p : GovernanceProposal) (history : History),
      (lateCalls.foldl (@step polyCrypto) {}).registry.proposals[0]? = some p
      ∧ (lateCalls.foldl (@step polyCrypto) {}).histories[0]? = some history
      ∧ p.status = .activated ∧ history.lockedAt = [(18446744073709551614, .finalize)]
      ∧ history.activatedAt = [(18446744073709551615, .activate lateId)]
      ∧ ¬ ∃ (lockedAt activatedAt : UInt64) (id : Hash), history.lockedAt = [(lockedAt, .finalize)]
        ∧ history.activatedAt = [(activatedAt, .activate id)]
        ∧ lockedAt.toNat + p.kind.timelockDuration.toNat ≤ activatedAt.toNat := by
  have hproposals : (lateCalls.foldl (@step polyCrypto) {}).registry.proposals.map
      (fun p => (p.status, p.kind)) = [(.activated, .activateEmergency)] := by
    decide +kernel
  have hhistories : (lateCalls.foldl (@step polyCrypto) {}).histories.map
      (fun history => (history.lockedAt, history.activatedAt))
        = [([(18446744073709551614, .finalize)], [(18446744073709551615, .activate lateId)])] := by
    decide +kernel
  obtain ⟨p, hp, hkind⟩ := List.map_eq_singleton_iff.mp hproposals
  obtain ⟨history, hhistory, htimes⟩ := List.map_eq_singleton_iff.mp hhistories
  obtain ⟨hstatus, hkind⟩ := Prod.mk.inj hkind
  obtain ⟨hlocked, hactivated⟩ := Prod.mk.inj htimes
  rw [hp, hhistory]
  refine ⟨p, history, rfl, rfl, hstatus, hlocked, hactivated, ?_⟩
  rintro ⟨lockedAt, activatedAt, id, hl, ha, hwait⟩
  obtain ⟨rfl, -⟩ := Prod.mk.inj (List.singleton_inj.mp (hlocked.symm.trans hl))
  obtain ⟨rfl, -⟩ := Prod.mk.inj (List.singleton_inj.mp (hactivated.symm.trans ha))
  rw [hkind] at hwait
  exact absurd hwait (by decide)

end Watched

end Sccgub
