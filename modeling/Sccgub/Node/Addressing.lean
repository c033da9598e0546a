import Mathlib
import Sccgub.Node.GovernanceRuns
import Sccgub.Node.Linkage

/-!
# Which proposal an id leads to

Votes and activations name a proposal by its id and reach it through the index of
the registry.  The id is the hash of who proposed what at which height, so two
submissions that agree in all three have one id, and the index leads to the later
one alone.  A snapshot carries the list of proposals and no index.
-/

namespace Sccgub

open Bincode FixedWidth Runs

/-- What is hashed into the id of a proposal. -/
def submissionBytes (proposer : AgentId) (kind : ProposalKind) (height : UInt64) : Bytes :=
  ((Codec.bytes 32).pair <| ProposalKind.codec.pair Codec.u64).enc (proposer, kind, height)

namespace GovernanceProposal

/-- Still to be voted on or to be activated. -/
def Live (self : GovernanceProposal) : Prop := self.status = .voting ∨ self.status = .timelocked

def message (self : GovernanceProposal) : Bytes :=
  submissionBytes self.proposer self.kind self.submittedAt

/-- What no call changes. -/
def identity (self : GovernanceProposal) : Hash × AgentId × ProposalKind × UInt64 :=
  (self.id, self.proposer, self.kind, self.submittedAt)

end GovernanceProposal

theorem Change.identity {height : UInt64} {call : RegistryCall} {p q : GovernanceProposal}
    (h : Change height call p q) : q.identity = p.identity := by
  cases h <;> rfl

namespace ProposalRegistry

/-! ## Found by its id -/

/-- Each proposal that is live is the one that its id leads to, and no id leads
to the proposal of another. -/
structure Addressable (registry : ProposalRegistry) : Prop where
  distinct : (registry.proposals.map (·.id)).Nodup
  found : ∀ (i : Nat) p, registry.proposals[i]? = some p → p.Live → registry.lookup p.id = .ok (i, p)
  own : ∀ id i p, registry.lookup id = .ok (i, p) → p.id = id
  voted : ∀ (i : Nat) p voter level approve height next, registry.proposals[i]? = some p → p.Live →
    registry.vote p.id voter level approve height = .ok next →
    next.proposals = registry.proposals.set i (p.withVote voter approve)
  activatable : ∀ (i : Nat) p height, registry.proposals[i]? = some p → p.status = .timelocked →
    p.timelockUntil ≤ height → registry.activate p.id height = .ok (normOf p,
      { registry with proposals := registry.proposals.set i { p with status := .activated } })

variable [Crypto]

/-- The index leads exactly to the proposals of the list, under the ids that
their submission gave them. -/
structure Indexed (registry : ProposalRegistry) : Prop where
  ids : ∀ p ∈ registry.proposals, p.id = blake3Hash p.message
  index : ∀ (id : Hash) (i : Nat), registry.index[id]? = some i ↔
    ∃ p, registry.proposals[i]? = some p ∧ p.id = id

theorem indexed_empty : ({} : ProposalRegistry).Indexed where
  ids p hp := nomatch hp
  index id i := by simp

namespace Indexed

variable {self : ProposalRegistry}

theorem lookup (h : self.Indexed) {i : Nat} {p : GovernanceProposal}
    (hp : self.proposals[i]? = some p) : self.lookup p.id = .ok (i, p) := by
  have hindex : self.index[p.id]? = some i := (h.index p.id i).mpr ⟨p, hp, rfl⟩
  simp only [ProposalRegistry.lookup, hindex, hp]

theorem distinct (h : self.Indexed) : (self.proposals.map (·.id)).Nodup := by
  rw [List.nodup_iff_injective_get]
  intro i j hij
  have hget : ∀ k : Fin (self.proposals.map (·.id)).length,
      self.index[(self.proposals.map (·.id)).get k]? = some k.val := by
    intro k
    have hk : k.val < self.proposals.length := by simpa using k.isLt
    refine (h.index _ _).mpr ⟨self.proposals[k.val], List.getElem?_eq_getElem hk, ?_⟩
    simp
  have hi := hget i
  rw [hij, hget j] at hi
  exact Fin.ext (Option.some_inj.mp hi).symm

theorem addressable (h : self.Indexed) : self.Addressable where
  distinct := h.distinct
  found i p hp _ := h.lookup hp
  own id i p hlookup := by
    obtain ⟨hindex, hp⟩ := lookup_eq_ok hlookup
    obtain ⟨q, hq, hid⟩ := (h.index id i).mp hindex
    rw [hp] at hq
    obtain rfl := Option.some_inj.mp hq
    exact hid
  voted i p voter level approve height next hp _ hvote := by
    obtain ⟨j, q, hlookup, -, -, -, -, rfl⟩ := vote_eq_ok hvote
    rw [h.lookup hp] at hlookup
    obtain ⟨rfl, rfl⟩ := Prod.mk.inj (Except.ok.inj hlookup)
    rfl
  activatable i p height hp hstatus htime := by
    unfold ProposalRegistry.activate
    rw [h.lookup hp]
    simp [bind, Except.bind, hstatus, UInt64.not_lt.mpr htime, pure, Except.pure]

/-- The index and what no call changes are all that counts. -/
theorem congr (h : self.Indexed) {next : ProposalRegistry} (hindex : next.index = self.index)
    (hids : next.proposals.map (·.identity) = self.proposals.map (·.identity)) :
    next.Indexed := by
  have hget : ∀ i : Nat, next.proposals[i]?.map (·.identity)
      = self.proposals[i]?.map (·.identity) := by
    intro i
    rw [← List.getElem?_map, ← List.getElem?_map, hids]
  have hback : ∀ {i : Nat} {p}, next.proposals[i]? = some p →
      ∃ q, self.proposals[i]? = some q ∧ q.identity = p.identity := by
    intro i p hp
    have hi := hget i
    rw [hp] at hi
    exact Option.map_eq_some_iff.mp hi.symm
  have hforth : ∀ {i : Nat} {p}, self.proposals[i]? = some p →
      ∃ q, next.proposals[i]? = some q ∧ q.identity = p.identity := by
    intro i p hp
    have hi := hget i
    rw [hp] at hi
    exact Option.map_eq_some_iff.mp hi
  constructor
  · intro p hp
    obtain ⟨i, hi⟩ := List.mem_iff_getElem?.mp hp
    obtain ⟨q, hq, hsame⟩ := hback hi
    obtain ⟨hid, hproposer, hkind, hheight⟩ : q.id = p.id ∧ q.proposer = p.proposer
        ∧ q.kind = p.kind ∧ q.submittedAt = p.submittedAt := by
      simpa [GovernanceProposal.identity] using hsame
    rw [← hid, h.ids q (List.mem_of_getElem? hq), GovernanceProposal.message,
      GovernanceProposal.message, hproposer, hkind, hheight]
  · intro id i
    rw [hindex, h.index]
    constructor
    · rintro ⟨p, hp, rfl⟩
      obtain ⟨q, hq, hsame⟩ := hforth hp
      exact ⟨q, hq, congrArg Prod.fst hsame⟩
    · rintro ⟨p, hp, rfl⟩
      obtain ⟨q, hq, hsame⟩ := hback hp
      exact ⟨q, hq, congrArg Prod.fst hsame⟩

end Indexed

/-! ## Calls -/

omit [Crypto] in
theorem map_identity_set {l : List GovernanceProposal} {i : Nat} {p q : GovernanceProposal}
    (hp : l[i]? = some p) (hq : q.identity = p.identity) :
    (l.set i q).map (·.identity) = l.map (·.identity) := by
  rw [List.map_set, hq]
  refine List.ext_getElem? fun j => ?_
  by_cases hij : i = j
  · subst hij
    obtain ⟨hlt, rfl⟩ := List.getElem?_eq_some_iff.mp hp
    simp [hlt]
  · rw [List.getElem?_set_ne hij]

omit [Crypto] in
theorem identity_finalizeProposal (height : UInt64) (p : GovernanceProposal) :
    (finalizeProposal height p).identity = p.identity :=
  (finalizeProposal_change height p).identity

omit [Crypto] in
theorem frame_activate {self next : ProposalRegistry} {id : Hash} {height : UInt64}
    {norm : Option Norm} (h : self.activate id height = .ok (norm, next)) :
    next.index = self.index
      ∧ next.proposals.map (·.identity) = self.proposals.map (·.identity) := by
  obtain ⟨i, p, hlookup, -, -, -, rfl⟩ := activate_eq_ok h
  exact ⟨rfl, map_identity_set (lookup_eq_ok hlookup).2 rfl⟩

/-- Only a submission changes the index and adds to the list. -/
theorem call_cases {self next : ProposalRegistry} {height : UInt64} {call : RegistryCall}
    (h : self.call height call = .ok next) :
    (∃ proposer level kind period, call = .submit proposer level kind period
        ∧ self.submit proposer level kind height period
          = .ok (proposalId proposer kind height, next))
      ∨ next.index = self.index
        ∧ next.proposals.map (·.identity) = self.proposals.map (·.identity) := by
  cases call with
  | submit proposer level kind period =>
      rw [ProposalRegistry.call, Fallible.map_eq_ok_iff] at h
      obtain ⟨⟨id, registry⟩, hsubmit, rfl⟩ := h
      obtain ⟨-, -, rfl, -⟩ := submit_eq_ok_iff.mp hsubmit
      exact Or.inl ⟨proposer, level, kind, period, rfl, hsubmit⟩
  | vote id voter level approve =>
      obtain ⟨i, p, hlookup, -, -, -, -, rfl⟩ := vote_eq_ok h
      exact Or.inr ⟨rfl, map_identity_set (lookup_eq_ok hlookup).2 rfl⟩
  | finalize =>
      obtain rfl := Except.ok.inj h
      refine Or.inr ⟨rfl, ?_⟩
      simp [finalize, Function.comp_def, identity_finalizeProposal]
  | activate id =>
      rw [ProposalRegistry.call, Fallible.map_eq_ok_iff] at h
      obtain ⟨⟨norm, registry⟩, hactivate, rfl⟩ := h
      exact Or.inr (frame_activate hactivate)

/-- A submission under a new id. -/
theorem Indexed.submit {self next : ProposalRegistry} (h : self.Indexed) {proposer : AgentId}
    {level : PrecedenceLevel} {kind : ProposalKind} {height period : UInt64}
    (hnew : ∀ p ∈ self.proposals, p.id ≠ proposalId proposer kind height)
    (hsubmit : self.submit proposer level kind height period
      = .ok (proposalId proposer kind height, next)) : next.Indexed := by
  obtain ⟨-, -, -, rfl⟩ := submit_eq_ok_iff.mp hsubmit
  constructor
  · intro p hp
    rcases List.mem_append.mp hp with hold | hlast
    · exact h.ids p hold
    · rw [List.mem_singleton.mp hlast]
      rfl
  · intro id i
    dsimp only
    rw [Std.ExtTreeMap.getElem?_insert]
    by_cases hid : proposalId proposer kind height = id
    · subst hid
      rw [if_pos Std.ReflCmp.compare_self, Option.some_inj]
      constructor
      · rintro rfl
        exact ⟨_, List.getElem?_concat_length, rfl⟩
      · rintro ⟨p, hp, hpid⟩
        by_contra hne
        have hold : p ∈ self.proposals := by
          have hlt := (List.getElem?_eq_some_iff.mp hp).1
          rw [List.length_append, List.length_singleton] at hlt
          rw [List.getElem?_append_left (by omega)] at hp
          exact List.mem_of_getElem? hp
        exact hnew p hold hpid
    · rw [if_neg (by simpa using hid), h.index]
      constructor
      · rintro ⟨p, hp, hpid⟩
        have hlt := (List.getElem?_eq_some_iff.mp hp).1
        exact ⟨p, by rw [List.getElem?_append_left hlt]; exact hp, hpid⟩
      · rintro ⟨p, hp, hpid⟩
        by_cases hlt : i < self.proposals.length
        · rw [List.getElem?_append_left hlt] at hp
          exact ⟨p, hp, hpid⟩
        · exfalso
          rw [List.getElem?_append_right (by omega)] at hp
          rw [List.mem_singleton.mp (List.mem_of_getElem? hp)] at hpid
          exact hid hpid

end ProposalRegistry

/-! ## Moves -/

namespace GovernanceMove

/-- What a submission hashes. -/
def message? : GovernanceMove → Option Bytes
  | .call height (.submit proposer _ kind _) => some (submissionBytes proposer kind height)
  | _ => none

/-- A submission that the registry takes repeats none in it, and a snapshot comes
from a chain with the same submissions in the same order. -/
def Distinct (ctx : GovernanceContext) : GovernanceMove → Prop
  | .call height (.submit proposer level kind _) =>
      ctx.proposals.proposals.length < maxProposals → level.asU8 ≤ kind.requiredLevel.asU8 →
        ∀ p ∈ ctx.proposals.proposals, p.message ≠ submissionBytes proposer kind height
  | .restore snapshot =>
      snapshot.proposals.proposals.map (·.identity) = ctx.proposals.proposals.map (·.identity)
  | _ => True

instance decidableDistinct (ctx : GovernanceContext) (m : GovernanceMove) :
    Decidable (m.Distinct ctx) := by
  unfold Distinct
  split <;> infer_instance

end GovernanceMove

section

variable [Crypto]

/-- The index is right, and what the ids are hashes of is among the messages. -/
structure ProposalRegistry.IndexedBy (messages : Set Bytes) (registry : ProposalRegistry) :
    Prop where
  indexed : registry.Indexed
  known : ∀ p ∈ registry.proposals, p.message ∈ messages

theorem ProposalRegistry.IndexedBy.congr {messages : Set Bytes} {self next : ProposalRegistry}
    (h : self.IndexedBy messages) (hindex : next.index = self.index)
    (hids : next.proposals.map (·.identity) = self.proposals.map (·.identity)) :
    next.IndexedBy messages := by
  refine ⟨h.indexed.congr hindex hids, fun p hp => ?_⟩
  have hmem : p.identity ∈ self.proposals.map (·.identity) := by
    rw [← hids]
    exact List.mem_map_of_mem hp
  obtain ⟨q, hq, hsame⟩ := List.mem_map.mp hmem
  have hmessage : q.message = p.message :=
    congrArg (fun t : Hash × AgentId × ProposalKind × UInt64 =>
      submissionBytes t.2.1 t.2.2.1 t.2.2.2) hsame
  rw [← hmessage]
  exact h.known q hq

theorem GovernanceContext.indexedBy_move {messages : Set Bytes} (hfree : CollisionFree messages)
    {ctx : GovernanceContext} (h : ctx.proposals.IndexedBy messages) {m : GovernanceMove}
    (hdistinct : m.Distinct ctx) (hmessage : ∀ message ∈ m.message?, message ∈ messages) :
    (ctx.move m).proposals.IndexedBy messages := by
  cases m with
  | call height call =>
      show (ctx.proposals.attempt height call).IndexedBy messages
      unfold ProposalRegistry.attempt
      rcases hcall : ctx.proposals.call height call with e | next
      · exact h
      · rcases ProposalRegistry.call_cases hcall with
          ⟨proposer, level, kind, period, rfl, hsubmit⟩ | ⟨hindex, hids⟩
        · have hmem : submissionBytes proposer kind height ∈ messages := hmessage _ rfl
          obtain ⟨hroom, hlevel, -, hnext⟩ := ProposalRegistry.submit_eq_ok_iff.mp hsubmit
          refine ⟨h.indexed.submit (fun p hp hid => ?_) hsubmit, fun p hp => ?_⟩
          · rw [h.indexed.ids p hp] at hid
            exact hdistinct hroom hlevel p hp (hfree (h.known p hp) hmem hid)
          · have hp : p ∈ next.proposals := hp
            rw [hnext] at hp
            rcases List.mem_append.mp hp with hold | hlast
            · exact h.known p hold
            · rw [List.mem_singleton.mp hlast]
              exact hmem
        · exact h.congr hindex hids
  | due ceilings height proposal =>
      rcases proposals_activateDue applyValidatorChange ceilings height ctx proposal with
        hsame | ⟨norm, hactivate⟩
      · show (activateDue applyValidatorChange ceilings height ctx proposal).proposals.IndexedBy _
        rw [hsame]
        exact h
      · obtain ⟨hindex, hids⟩ := ProposalRegistry.frame_activate hactivate
        exact h.congr hindex hids
  | commit => exact h
  | restore snapshot => exact h.congr rfl hdistinct

/-! ## Runs -/

/-- What the ids of a chain and of a run on it are hashes of. -/
def Chain.messages (self : Chain) (ops : List Chain.NodeOp) : List Bytes :=
  self.proposals.proposals.map (·.message)
    ++ (self.nodeTrace ops).filterMap GovernanceMove.message?

/-- No repeated submission, no snapshot of other submissions: every live proposal
is found by its id, whatever blocks come and whatever is restored. -/
theorem Chain.addressable_of_distinct {chain : Chain} (hchain : chain.proposals.Indexed)
    (ops : List NodeOp) (hfree : CollisionFree {m | m ∈ chain.messages ops})
    (hdistinct : Along GovernanceContext.move (fun ctx m => m.Distinct ctx)
      chain.governanceContext (chain.nodeTrace ops)) :
    (ops.foldl operate chain).proposals.Addressable := by
  have hstart : chain.proposals.IndexedBy {m | m ∈ chain.messages ops} := by
    refine ⟨hchain, fun p hp => List.mem_append_left _ ?_⟩
    exact List.mem_map_of_mem hp
  have hmessages : ∀ m ∈ chain.nodeTrace ops, ∀ message ∈ m.message?,
      message ∈ {m | m ∈ chain.messages ops} := by
    intro m hm message hmessage
    exact List.mem_append_right _ (List.mem_filterMap.mpr ⟨m, hm, hmessage⟩)
  have hrun : Throughout GovernanceContext.move
      (fun ctx => ctx.proposals.IndexedBy {m | m ∈ chain.messages ops}) chain.governanceContext
      (chain.nodeTrace ops) :=
    throughout_of_along (fun ctx m h hm => GovernanceContext.indexedBy_move hfree h hm.1 hm.2)
      hstart (hdistinct.and_of_forall hmessages)
  have hlast := hrun.last
  rw [foldl_nodeTrace] at hlast
  exact hlast.indexed.addressable

end

/-! ## The same norm twice -/

def normTransition (nonce : BitVec 128) : SymbolicTransition :=
  signedByHolder nonce .normProposal (utf8 "norms/quiet") (.proposeNorm "quiet" "no noise at night")
    .governanceAction

theorem proposals_withPending (chain : Chain) (transitions : List SymbolicTransition) :
    (withPending chain transitions).proposals = chain.proposals := by
  unfold withPending
  induction transitions generalizing chain with
  | nil => rfl
  | cons tx rest ih =>
      rw [List.foldl_cons, ih, Chain.submitTransition]
      rcases chain.mempool.add tx with e | mempool <;> rfl

theorem indexed_withPending (transitions : List SymbolicTransition) :
    @ProposalRegistry.Indexed polyCrypto (withPending genesisChain transitions).proposals := by
  rw [proposals_withPending]
  exact @ProposalRegistry.indexed_empty polyCrypto

def normOnce : Chain := withPending genesisChain [normTransition 1]

def normTwice : Chain := withPending genesisChain [normTransition 1, normTransition 2]

/-- Both are taken, under one id. -/
theorem produced_normTwice :
    (∀ m ∈ @Chain.messages polyCrypto normTwice [.block (.produce 0)],
      ∀ m' ∈ @Chain.messages polyCrypto normTwice [.block (.produce 0)],
        @blake3Hash polyCrypto m = @blake3Hash polyCrypto m' → m = m')
      ∧ ((@Chain.operate polyCrypto normTwice (.block (.produce 0))).proposals.proposals.map
          (·.status)) = [.voting, .voting]
      ∧ ¬ ((@Chain.operate polyCrypto normTwice (.block (.produce 0))).proposals.proposals.map
          (·.id)).Nodup := by
  decide +kernel

/-- The snapshot of a chain with a proposal, taken over by the chain itself and
by another. -/
theorem restored_normOnce :
    (∀ m ∈ @Chain.messages polyCrypto normOnce [.block (.produce 0), .restore
        (@Chain.operate polyCrypto normOnce (.block (.produce 0)))],
      ∀ m' ∈ @Chain.messages polyCrypto normOnce [.block (.produce 0), .restore
        (@Chain.operate polyCrypto normOnce (.block (.produce 0)))],
        @blake3Hash polyCrypto m = @blake3Hash polyCrypto m' → m = m')
      ∧ ((@Chain.operate polyCrypto genesisChain (.restore
          (@Chain.operate polyCrypto normOnce (.block (.produce 0))))).proposals.proposals).map
            (·.status) = [.voting]
      ∧ ((@Chain.operate polyCrypto genesisChain (.restore
          (@Chain.operate polyCrypto normOnce (.block (.produce 0))))).proposals.proposals).all
            (fun p => ((@Chain.operate polyCrypto genesisChain (.restore
              (@Chain.operate polyCrypto normOnce (.block (.produce 0))))).proposals.lookup
                p.id).isOk) = false := by
  decide +kernel

/-- Two submissions of a norm in one block have one id.  A chain that takes over
the snapshot of another finds none of its proposals. -/
theorem repeated_norm_unaddressable :
    @ProposalRegistry.Indexed polyCrypto normTwice.proposals
      ∧ @CollisionFree polyCrypto {m | m ∈ @Chain.messages polyCrypto normTwice
          [.block (.produce 0)]}
      ∧ ((@Chain.operate polyCrypto normTwice (.block (.produce 0))).proposals.proposals.map
          (·.status)) = [.voting, .voting]
      ∧ ¬ (@Chain.operate polyCrypto normTwice (.block (.produce 0))).proposals.Addressable
      ∧ ¬ (@Chain.operate polyCrypto genesisChain (.restore
          (@Chain.operate polyCrypto normOnce (.block (.produce 0))))).proposals.Addressable := by
  obtain ⟨hfree, hvoting, hrepeated⟩ := produced_normTwice
  obtain ⟨-, hfound, hlost⟩ := restored_normOnce
  refine ⟨indexed_withPending _, @collisionFree_of_forall polyCrypto _ hfree, hvoting, ?_, ?_⟩
  · intro h
    exact hrepeated h.distinct
  · intro h
    generalize (@Chain.operate polyCrypto genesisChain (.restore
        (@Chain.operate polyCrypto normOnce (.block (.produce 0))))).proposals = registry
      at h hfound hlost
    rw [List.all_eq_false] at hlost
    obtain ⟨p, hp, hnone⟩ := hlost
    obtain ⟨i, hi⟩ := List.mem_iff_getElem?.mp hp
    have hstatus : p.status ∈ [ProposalStatus.voting] := by
      rw [← hfound]
      exact List.mem_map_of_mem hp
    rw [h.found i p hi (Or.inl (List.mem_singleton.mp hstatus))] at hnone
    exact hnone rfl

/-- One submission, in a block and then through a snapshot of the chain itself. -/
theorem addressable_of_distinct_normOnce :
    (([.block (.produce 0), .restore (@Chain.operate polyCrypto normOnce (.block (.produce 0)))] :
      List Chain.NodeOp).foldl (@Chain.operate polyCrypto) normOnce).proposals.Addressable := by
  exact @Chain.addressable_of_distinct polyCrypto normOnce (indexed_withPending _) _
    (@collisionFree_of_forall polyCrypto _ restored_normOnce.1) (by decide +kernel)

end Sccgub
