import Mathlib
import Sccgub.Node.Admission
import Sccgub.Node.Atomicity
import Sccgub.Node.FairOrder
import Sccgub.Node.Speculation
import Sccgub.Node.Steps

/-!
# What becomes of pending transitions

Production empties the mempool before it knows what it can use.  The gas loop
accounts for every transition that it looks at, with a place in the block or with
a receipt; it stops looking when the block is full, and the receipts are kept only
if the block passes.  So a transition that was drained is lost where it comes
after a full block, or where the block fails.

`handled_meterAll` is about a loop that gets to the end, `exists_not_handled_meterAll`
about one that does not.  The ids of what is drained are distinct
(`Reached.deduplicated`), so that a place and a receipt tell transitions apart.
`produceOn_cases` says what production leaves in each of its exits.
-/

namespace Sccgub

open Fallible FixedWidth

/-! ## The loop -/

namespace GasLoop

/-- In the block, or turned away with a receipt. -/
def Handled (loop : GasLoop) (tx : SymbolicTransition) : Prop :=
  tx ∈ loop.accepted
    ∨ ∃ receipt ∈ loop.rejected, receipt.txId = tx.txId ∧ receipt.verdict.isAccepted = false

end GasLoop

section

variable {acc next : GasLoop} {tx other : SymbolicTransition}

theorem Metered.handled (h : Metered acc tx next) : next.Handled tx := by
  cases h with
  | rejected receipt txId verdict state accepted receipts rejected =>
      refine Or.inr ⟨receipt, ?_, txId, verdict⟩
      rw [rejected]
      exact List.mem_append_right _ (List.mem_singleton_self receipt)
  | accepted receipt txId nonce accepted receipts rejected =>
      refine Or.inl ?_
      rw [accepted]
      exact List.mem_append_right _ (List.mem_singleton_self tx)

/-- What is handled stays handled. -/
theorem Metered.handled_mono (h : Metered acc tx next) (hother : acc.Handled other) :
    next.Handled other := by
  cases h with
  | rejected receipt txId verdict state accepted receipts rejected =>
      rcases hother with hin | ⟨r, hr, hid⟩
      · exact Or.inl (accepted ▸ hin)
      · exact Or.inr ⟨r, rejected ▸ List.mem_append_left _ hr, hid⟩
  | accepted receipt txId nonce accepted receipts rejected =>
      rcases hother with hin | ⟨r, hr, hid⟩
      · exact Or.inl (accepted ▸ List.mem_append_left _ hin)
      · exact Or.inr ⟨r, rejected ▸ hr, hid⟩

/-- A turn handles no transition but its own. -/
theorem Metered.handled_of_ne (h : Metered acc tx next) (hother : next.Handled other)
    (hne : other.txId ≠ tx.txId) : acc.Handled other := by
  cases h with
  | rejected receipt txId verdict state accepted receipts rejected =>
      rcases hother with hin | ⟨r, hr, hid, hverdict⟩
      · exact Or.inl (accepted ▸ hin)
      · rw [rejected] at hr
        rcases List.mem_append.mp hr with hr | hr
        · exact Or.inr ⟨r, hr, hid, hverdict⟩
        · obtain rfl := List.mem_singleton.mp hr
          exact absurd (hid.symm.trans txId) hne
  | accepted receipt txId nonce accepted receipts rejected =>
      rcases hother with hin | ⟨r, hr, hid⟩
      · rw [accepted] at hin
        rcases List.mem_append.mp hin with hin | hin
        · exact Or.inl hin
        · obtain rfl := List.mem_singleton.mp hin
          exact absurd rfl hne
      · exact Or.inr ⟨r, rejected ▸ hr, hid⟩

end

section

variable [Crypto]

section

variable {blockVersion : UInt32} {stateRoot : Hash} {gasPrice : TensionValue}

/-- Each transition fits into the block when the loop looks at it. -/
def FitAll (blockVersion : UInt32) (stateRoot : Hash) (gasPrice : TensionValue) :
    GasLoop → List SymbolicTransition → Prop
  | _, [] => True
  | acc, tx :: rest => ∃ next, meterOne blockVersion stateRoot gasPrice acc tx = some next
      ∧ FitAll blockVersion stateRoot gasPrice next rest

theorem handled_meterAll_mono {acc : GasLoop} {tx : SymbolicTransition} (h : acc.Handled tx)
    (transitions : List SymbolicTransition) :
    (meterAll blockVersion stateRoot gasPrice acc transitions).Handled tx := by
  induction transitions generalizing acc with
  | nil => exact h
  | cons other rest ih =>
      rw [meterAll]
      rcases hone : meterOne blockVersion stateRoot gasPrice acc other with _ | next
      · exact h
      · exact ih ((metered_of_meterOne hone).handled_mono h)

/-- Where all fit, all are handled. -/
theorem handled_meterAll {acc : GasLoop} {transitions : List SymbolicTransition}
    (hfit : FitAll blockVersion stateRoot gasPrice acc transitions) :
    ∀ tx ∈ transitions, (meterAll blockVersion stateRoot gasPrice acc transitions).Handled tx := by
  induction transitions generalizing acc with
  | nil => exact fun tx htx => (nomatch htx)
  | cons first rest ih =>
      obtain ⟨next, hone, hrest⟩ := hfit
      intro tx htx
      rw [meterAll, hone]
      rcases List.mem_cons.mp htx with rfl | htx
      · exact handled_meterAll_mono (metered_of_meterOne hone).handled rest
      · exact ih hrest tx htx

/-- Otherwise the one that does not fit is not. -/
theorem exists_not_handled_meterAll {acc : GasLoop} {transitions : List SymbolicTransition}
    (hids : (transitions.map (·.txId)).Nodup) (hnew : ∀ tx ∈ transitions, ¬ acc.Handled tx)
    (hfit : ¬ FitAll blockVersion stateRoot gasPrice acc transitions) :
    ∃ tx ∈ transitions,
      ¬ (meterAll blockVersion stateRoot gasPrice acc transitions).Handled tx := by
  induction transitions generalizing acc with
  | nil => exact absurd trivial hfit
  | cons first rest ih =>
      obtain ⟨hfirst, hrestIds⟩ := List.nodup_cons.mp hids
      rw [meterAll]
      rcases hone : meterOne blockVersion stateRoot gasPrice acc first with _ | next
      · exact ⟨first, List.mem_cons_self, hnew first List.mem_cons_self⟩
      · obtain ⟨tx, htx, hnot⟩ := ih hrestIds
          (fun tx htx hhandled => hnew tx (List.mem_cons_of_mem _ htx)
            ((metered_of_meterOne hone).handled_of_ne hhandled fun hid =>
              hfirst (List.mem_map.mpr ⟨tx, htx, hid⟩)))
          (fun hrest => hfit ⟨next, hone, hrest⟩)
        exact ⟨tx, List.mem_cons_of_mem _ htx, hnot⟩

end

end

/-! ## The drain -/

namespace Mempool

theorem toRemove_foldl_drainStep (state : ManagedWorldState) (l : List SymbolicTransition)
    (acc : Drain) :
    (l.foldl (drainStep state) acc).toRemove = acc.toRemove ++ l.map (·.txId) := by
  induction l generalizing acc with
  | nil => simp
  | cons tx rest ih =>
      rw [List.foldl_cons, ih]
      have hstep : (drainStep state acc tx).toRemove = acc.toRemove ++ [tx.txId] := by
        unfold drainStep
        dsimp only
        split_ifs
        · rfl
        · rcases admitCheckStructural tx state with e | ⟨⟩
          · rfl
          · rfl
      rw [hstep, List.append_assoc]
      rfl

/-- Nothing stays in the mempool. -/
theorem pending_drainValidated (mempool : Mempool) (state : ManagedWorldState) :
    (mempool.drainValidated state).2.pending = [] := by
  unfold drainValidated
  dsimp only
  rw [List.filter_eq_nil_iff]
  intro tx htx
  rw [toRemove_foldl_drainStep]
  simp only [List.nil_append, Std.ExtTreeSet.mem_ofList, List.contains_iff_mem,
    decide_eq_true_eq, not_not]
  exact List.mem_map_of_mem htx

theorem validated_foldl_sublist (state : ManagedWorldState) (l : List SymbolicTransition)
    (acc : Drain) :
    (l.foldl (drainStep state) acc).validated.Sublist (acc.validated ++ l) := by
  induction l generalizing acc with
  | nil => simp
  | cons tx rest ih =>
      rw [List.foldl_cons]
      refine (ih _).trans ?_
      have hspec := drainStep_spec state acc tx
      split_ifs at hspec
      · rw [hspec.1, List.append_assoc, List.singleton_append]
      · rw [hspec.1]
        exact (List.sublist_cons_self tx rest).append_left _

theorem nodup_ids_drainValidated {mempool : Mempool}
    (hids : (mempool.pending.map (·.txId)).Nodup) (state : ManagedWorldState) :
    ((mempool.drainValidated state).1.map (·.txId)).Nodup := by
  have hperm : (mempool.drainValidated state).1.Perm (mempool.arrivals state) :=
    List.perm_insertionSort _ _
  rw [(hperm.map _).nodup_iff]
  have hsub : (mempool.arrivals state).Sublist mempool.pending :=
    validated_foldl_sublist state mempool.pending { containment := mempool.containment }
  exact (hsub.map _).nodup hids

/-- How the mempool of a node comes about. -/
inductive Reached : Mempool → Prop
  | new (maxSize : Nat) : Reached { maxSize }
  | add {mempool next : Mempool} {tx : SymbolicTransition} :
      mempool.Reached → mempool.add tx = .ok next → Reached next
  | drain {mempool : Mempool} (state : ManagedWorldState) :
      mempool.Reached → Reached (mempool.drainValidated state).2
  | confirm {mempool : Mempool} (ids : List Hash) :
      mempool.Reached → Reached (mempool.markConfirmed ids)
  | contain {mempool : Mempool} (containment : ContainmentState) :
      mempool.Reached → Reached { mempool with containment }

/-- What is pending has been seen, each id once. -/
structure Deduplicated (mempool : Mempool) : Prop where
  nodup : (mempool.pending.map (·.txId)).Nodup
  seen : ∀ tx ∈ mempool.pending, tx.txId ∈ mempool.seenIds

theorem Deduplicated.add {mempool next : Mempool} {tx : SymbolicTransition}
    (h : mempool.Deduplicated) (hadd : mempool.add tx = .ok next) : next.Deduplicated := by
  obtain ⟨hnodup, hseen⟩ := h
  unfold Mempool.add at hadd
  by_cases hblocked : (!mempool.containment.isAllowed tx.actor.agentId) = true
  · rw [if_pos hblocked] at hadd
    cases hadd
  rw [if_neg hblocked] at hadd
  by_cases hdup : tx.txId ∈ mempool.seenIds
  · rw [if_pos hdup] at hadd
    cases hadd
  rw [if_neg hdup] at hadd
  by_cases hconfirmed : tx.txId ∈ mempool.confirmedIds
  · rw [if_pos hconfirmed] at hadd
    cases hadd
  rw [if_neg hconfirmed] at hadd
  -- what is kept has other ids than the new one, all of them seen
  have hkept : ∀ (pending : List SymbolicTransition) (seenIds : HashSet),
      pending.Sublist mempool.pending → (∀ other ∈ pending, other.txId ∈ seenIds) →
      Deduplicated { mempool with
        pending := pending ++ [tx], seenIds := seenIds.insert tx.txId } := by
    intro pending seenIds hsub hin
    constructor
    · rw [List.map_append, List.nodup_append]
      refine ⟨(hsub.map _).nodup hnodup, List.nodup_singleton _, ?_⟩
      intro id hid new hnew heq
      obtain ⟨other, hother, rfl⟩ := List.mem_map.mp hid
      obtain rfl : new = tx.txId := by simpa using hnew
      exact hdup (heq ▸ hseen other (hsub.subset hother))
    · intro other hother
      rw [Std.ExtTreeSet.mem_insert]
      rcases List.mem_append.mp hother with hother | hother
      · exact Or.inr (hin other hother)
      · obtain rfl := List.mem_singleton.mp hother
        exact Or.inl (by simp)
  by_cases hfull : mempool.maxSize ≤ mempool.pending.length
  · rw [if_pos hfull] at hadd
    rcases hpending : mempool.pending with _ | ⟨evicted, rest⟩
    · rw [hpending] at hadd
      obtain rfl := Except.ok.inj hadd
      exact hkept [] mempool.seenIds (List.nil_sublist _) fun other hother => (nomatch hother)
    · rw [hpending] at hadd hnodup
      obtain rfl := Except.ok.inj hadd
      refine hkept rest (mempool.seenIds.erase evicted.txId)
        (hpending ▸ List.sublist_cons_self evicted rest) ?_
      intro other hother
      have hne : evicted.txId ≠ other.txId := fun heq =>
        (List.nodup_cons.mp hnodup).1 (List.mem_map.mpr ⟨other, hother, heq.symm⟩)
      rw [Std.ExtTreeSet.mem_erase]
      exact ⟨by simpa using hne, hseen other (hpending ▸ List.mem_cons_of_mem _ hother)⟩
  · rw [if_neg hfull] at hadd
    obtain rfl := Except.ok.inj hadd
    exact hkept mempool.pending mempool.seenIds (List.Sublist.refl _) hseen

theorem Reached.deduplicated {mempool : Mempool} (h : mempool.Reached) : mempool.Deduplicated := by
  induction h with
  | new maxSize => exact ⟨List.nodup_nil, fun tx htx => (nomatch htx)⟩
  | add _ hadd ih => exact ih.add hadd
  | drain state _ _ =>
      refine ⟨?_, ?_⟩
      · rw [pending_drainValidated]
        exact List.nodup_nil
      · rw [pending_drainValidated]
        exact fun tx htx => (nomatch htx)
  | confirm ids _ ih => exact ⟨ih.nodup, ih.seen⟩
  | contain containment _ ih => exact ⟨ih.nodup, ih.seen⟩

end Mempool

/-! ## Production -/

namespace Chain

/-- A receipt that turns the transition away. -/
def HasRejection (receipts : List CausalReceipt) (tx : SymbolicTransition) : Prop :=
  ∃ receipt ∈ receipts, receipt.txId = tx.txId ∧ receipt.verdict.isAccepted = false

section

variable [Crypto]

/-- What the drain hands to the gas loop. -/
def drained (self : Chain) : List SymbolicTransition := (self.mempool.drainValidated self.state).1

/-- The block gas is enough for all that is drained. -/
def AllFit (self : Chain) : Prop :=
  FitAll self.blockVersion self.state.stateRoot self.producerGasPrice
    { state := self.state
      balances := self.balances
      gas := { limit := self.state.consensusParams.defaultBlockGasLimit } } self.drained

/-- What the loop has accepted applies, assembles and passes the gate. -/
def Passes (self : Chain) (parent : Block) (height wallHint : UInt64) : Prop :=
  ∃ applied block, self.speculate self.admission.1 height = .ok applied
    ∧ self.assemble parent self.admission.1 applied height wallHint = .ok block
    ∧ validateCpog block self.state parent.header.blockId = .valid

theorem admission_fst (self : Chain) :
    self.admission.1 = meterAll self.blockVersion self.state.stateRoot self.producerGasPrice
      { state := self.state
        balances := self.balances
        gas := { limit := self.state.consensusParams.defaultBlockGasLimit } } self.drained := rfl

/-- Where the mempool is drained, the block is committed with what the loop has
handled, or nothing is recorded. -/
theorem produceOn_cases (self : Chain) (parent : Block) (height wallHint : UInt64) :
    (self.produceOn parent height wallHint).2.mempool.pending = []
      ∧ (self.Passes parent height wallHint ∧ (∃ block,
          (self.produceOn parent height wallHint).1 = .ok block
            ∧ block.body.transitions = self.admission.1.accepted
            ∧ (self.produceOn parent height wallHint).2.latestRejectedReceipts
              = self.admission.1.rejected)
        ∨ ¬ self.Passes parent height wallHint
          ∧ (∃ e, (self.produceOn parent height wallHint).1 = .error e)
          ∧ (self.produceOn parent height wallHint).2.latestRejectedReceipts
            = self.latestRejectedReceipts) := by
  have hpending : self.admission.2.pending = [] := self.mempool.pending_drainValidated self.state
  unfold produceOn Passes
  rcases hadmission : self.admission with ⟨loop, mempool⟩
  rw [hadmission] at hpending
  dsimp only at hpending ⊢
  rcases hspec : self.speculate loop height with e | applied
  · refine ⟨hpending, Or.inr ⟨?_, ⟨e, rfl⟩, rfl⟩⟩
    rintro ⟨_, _, hok, -⟩
    cases hok
  dsimp only
  rcases hassemble : self.assemble parent loop applied height wallHint with e | block
  · refine ⟨hpending, Or.inr ⟨?_, ⟨e, rfl⟩, rfl⟩⟩
    rintro ⟨_, _, hok, hblock, -⟩
    obtain rfl := Except.ok.inj hok
    rw [hassemble] at hblock
    cases hblock
  dsimp only
  have hview : SameView self.state
      (({ self with mempool } : Chain).sharing applied.state.trie.durable).state :=
    ⟨rfl, rfl, rfl, rfl, rfl, rfl⟩
  have hgate : (runCpog block (({ self with mempool } : Chain).sharing
      applied.state.trie.durable).state parent.header.blockId).result
        = validateCpog block self.state parent.header.blockId :=
    hview.validateCpog block parent.header.blockId
  rw [hgate]
  rcases hresult : cpogResult (validateCpog block self.state parent.header.blockId) with e | ⟨⟩
  · refine ⟨hpending, Or.inr ⟨?_, ⟨e, rfl⟩, rfl⟩⟩
    rintro ⟨_, _, hok, hblock, hvalid⟩
    obtain rfl := Except.ok.inj hok
    rw [hassemble] at hblock
    obtain rfl := Except.ok.inj hblock
    rw [hvalid] at hresult
    cases hresult
  · have htransitions : block.body.transitions = loop.accepted := by
      unfold assemble at hassemble
      simp only [bind_eq_ok_iff, pure_eq_ok_iff] at hassemble
      obtain ⟨_, -, _, -, rfl⟩ := hassemble
      rfl
    exact ⟨hpending, Or.inl ⟨⟨applied, block, rfl, hassemble, cpogResult_eq_ok_iff.mp hresult⟩,
      block, rfl, htransitions, rfl⟩⟩

/-- What is to become of a pending transition. -/
def Accounted (self : Chain) (result : Except String Block) (after : Chain)
    (tx : SymbolicTransition) : Prop :=
  (∃ block, result = .ok block ∧ tx ∈ block.body.transitions)
    ∨ HasRejection after.latestRejectedReceipts tx
    ∨ tx ∉ self.drained
    ∨ tx ∈ after.mempool.pending

def AllAccounted (self : Chain) (wallHint : UInt64) : Prop :=
  ∀ tx ∈ self.mempool.pending,
    self.Accounted (self.produceBlock wallHint).1 (self.produceBlock wallHint).2 tx

/-- The mempool is not reached; or the block passes and all that is drained fits
into it; or it fails and the receipts from before happen to be about all that is
drained. -/
def KeepsAll (self : Chain) (wallHint : UInt64) : Prop :=
  ∀ parent, self.blocks.getLast? = some parent →
    self.isProposerForHeight (saturatingAdd parent.header.height 1) = true →
    self.powerTracker.checkProposal self.localValidatorId self.governanceLimits = .ok () →
      (self.Passes parent (saturatingAdd parent.header.height 1) wallHint → self.AllFit)
        ∧ (¬ self.Passes parent (saturatingAdd parent.header.height 1) wallHint →
          ∀ tx ∈ self.drained, HasRejection self.latestRejectedReceipts tx)

theorem produceOn_accounted_iff {self : Chain}
    (hids : (self.mempool.pending.map (·.txId)).Nodup) (parent : Block)
    (height wallHint : UInt64) :
    (∀ tx ∈ self.mempool.pending, self.Accounted (self.produceOn parent height wallHint).1
        (self.produceOn parent height wallHint).2 tx)
      ↔ (self.Passes parent height wallHint → self.AllFit)
        ∧ (¬ self.Passes parent height wallHint →
          ∀ tx ∈ self.drained, HasRejection self.latestRejectedReceipts tx) := by
  have hsub : self.drained ⊆ self.mempool.pending :=
    self.mempool.drainValidated_subset self.state
  have hnodup : (self.drained.map (·.txId)).Nodup :=
    Mempool.nodup_ids_drainValidated hids self.state
  obtain ⟨hpending, ⟨hpasses, block, hok, htransitions, hreceipts⟩ |
    ⟨hfails, ⟨e, herror⟩, hreceipts⟩⟩ := self.produceOn_cases parent height wallHint
  · -- committed: what the loop has handled is accounted for, nothing else
    refine Iff.trans ?_ ⟨fun h => ⟨fun _ => h, fun hnot => absurd hpasses hnot⟩, fun h => h.1 hpasses⟩
    constructor
    · intro haccounted
      by_contra hfit
      have hnone : ∀ tx ∈ self.drained, ¬ GasLoop.Handled
          { state := self.state
            balances := self.balances
            gas := { limit := self.state.consensusParams.defaultBlockGasLimit } } tx := by
        rintro tx - (hin | ⟨receipt, hreceipt, -⟩)
        · cases hin
        · cases hreceipt
      obtain ⟨tx, htx, hnot⟩ := exists_not_handled_meterAll hnodup hnone hfit
      rw [← admission_fst] at hnot
      rcases haccounted tx (hsub htx) with ⟨found, hfound, hin⟩ | hrejected | hundrained | hkept
      · obtain rfl := Except.ok.inj (hok.symm.trans hfound)
        exact hnot (Or.inl (htransitions ▸ hin))
      · rw [hreceipts] at hrejected
        exact hnot (Or.inr hrejected)
      · exact hundrained htx
      · rw [hpending] at hkept
        cases hkept
    · intro hfit tx htx
      by_cases hdrained : tx ∈ self.drained
      · have hhandled := handled_meterAll hfit tx hdrained
        rw [← admission_fst] at hhandled
        rcases hhandled with hin | hrejected
        · exact Or.inl ⟨block, hok, htransitions ▸ hin⟩
        · exact Or.inr (Or.inl (hreceipts ▸ hrejected))
      · exact Or.inr (Or.inr (Or.inl hdrained))
  · refine Iff.trans ?_ ⟨fun h => ⟨fun hpasses => absurd hpasses hfails, fun _ => h⟩,
      fun h => h.2 hfails⟩
    constructor
    · intro haccounted tx htx
      rcases haccounted tx (hsub htx) with ⟨found, hfound, -⟩ | hrejected | hundrained | hkept
      · rw [herror] at hfound
        cases hfound
      · exact hreceipts ▸ hrejected
      · exact absurd htx hundrained
      · rw [hpending] at hkept
        cases hkept
    · intro hold tx htx
      by_cases hdrained : tx ∈ self.drained
      · exact Or.inr (Or.inl (hreceipts ▸ hold tx hdrained))
      · exact Or.inr (Or.inr (Or.inl hdrained))

/-- Production accounts for every pending transition exactly then. -/
theorem allAccounted_iff {self : Chain} (hreached : self.mempool.Reached) (wallHint : UInt64) :
    self.AllAccounted wallHint ↔ self.KeepsAll wallHint := by
  have hids := hreached.deduplicated.nodup
  have hkept : ∀ e, (∀ tx ∈ self.mempool.pending, self.Accounted (.error e) self tx) :=
    fun e tx htx => Or.inr (Or.inr (Or.inr htx))
  unfold AllAccounted KeepsAll produceBlock
  rcases hparent : self.blocks.getLast? with _ | parent
  · exact ⟨fun _ parent h => (nomatch h), fun _ => hkept _⟩
  dsimp only
  by_cases hturn : self.isProposerForHeight (saturatingAdd parent.header.height 1) = true
  · rw [hturn]
    rcases hcheck : self.powerTracker.checkProposal self.localValidatorId self.governanceLimits
      with e | ⟨⟩
    · refine ⟨fun _ _ _ _ h => (nomatch h), fun _ => hkept _⟩
    · have hon := produceOn_accounted_iff hids parent (saturatingAdd parent.header.height 1) wallHint
      refine hon.trans ⟨?_, fun h => h parent rfl hturn rfl⟩
      rintro h _ hsame - -
      obtain rfl := Option.some.inj hsame
      exact h
  · have hnot := Bool.eq_false_of_not_eq_true hturn
    rw [hnot]
    refine ⟨?_, fun _ => hkept _⟩
    rintro - _ hsame hthen
    obtain rfl := Option.some.inj hsame
    exact absurd hthen hturn

end

theorem reached_withPending {self : Chain} (h : self.mempool.Reached)
    (transitions : List SymbolicTransition) :
    (withPending self transitions).mempool.Reached := by
  unfold withPending
  induction transitions generalizing self with
  | nil => exact h
  | cons tx rest ih =>
      rw [List.foldl_cons]
      refine ih ?_
      unfold submitTransition
      rcases hadd : self.mempool.add tx with e | next
      · exact h
      · exact h.add hadd

end Chain

/-! ## A full block, and one that fails -/

/-- A new chain whose blocks have room for one transfer. -/
def narrowChain : Chain :=
  let chain := @Chain.init polyCrypto legacyBlockVersion .deterministic nodeKey
  { chain with
    state := { chain.state with
      consensusParams := { chain.state.consensusParams with
        defaultTxGasLimit := 5000
        defaultBlockGasLimit := 5000 } } }

def narrowTransfers : Chain := withPending narrowChain [transferOut 1 1, transferOut 2 1]

/-- The second transfer is in the mempool no more, and nowhere else. -/
theorem narrowTransfers_loses : ¬ @Chain.AllAccounted polyCrypto narrowTransfers 0 := by
  intro haccounted
  have hrun : (let run := @Chain.produceBlock polyCrypto narrowTransfers 0
      run.1.toOption.any (fun block => block.body.transitions.all (·.nonce = 1))
        && run.2.latestRejectedReceipts.isEmpty && run.2.mempool.pending.isEmpty) = true := by
    decide +kernel
  have hdrained : (narrowTransfers.mempool.pending.any fun tx =>
      tx.nonce = 2 && narrowTransfers.drained.contains tx) = true := by
    decide +kernel
  obtain ⟨tx, htx, hboth⟩ := List.any_eq_true.mp hdrained
  rw [Bool.and_eq_true, decide_eq_true_eq] at hboth
  obtain ⟨hnonce, hin⟩ := hboth
  dsimp only at hrun
  rw [Bool.and_eq_true, Bool.and_eq_true] at hrun
  obtain ⟨⟨hblock, hreceipts⟩, hpending⟩ := hrun
  rcases haccounted tx htx with ⟨block, hok, hmem⟩ | ⟨receipt, hreceipt, -⟩ | hundrained | hkept
  · rw [hok, Except.toOption, Option.any_some, List.all_eq_true] at hblock
    have hfirst := of_decide_eq_true (hblock tx hmem)
    rw [hnonce] at hfirst
    exact absurd hfirst (by decide)
  · rw [List.isEmpty_iff.mp hreceipts] at hreceipt
    cases hreceipt
  · exact hundrained (List.contains_iff_mem.mp hin)
  · rw [List.isEmpty_iff.mp hpending] at hkept
    cases hkept

/-- With room for both, and a signature on the second that its key has not made. -/
def mixedTransfers : Chain :=
  withPending (@Chain.init polyCrypto legacyBlockVersion .deterministic nodeKey)
    [transferOut 1 1, { transferOut 2 1 with signature := List.replicate 64 0 }]

theorem mixedTransfers_evaluated :
    (@Chain.produceBlock polyCrypto mixedTransfers 0).1.toOption.map
        (·.body.transitions.map (·.nonce)) = some [1]
      ∧ (@Chain.produceBlock polyCrypto mixedTransfers 0).2.latestRejectedReceipts.length = 1
      ∧ (mixedTransfers.mempool.pending.all fun tx =>
        (@Chain.produceBlock polyCrypto mixedTransfers 0).1.toOption.any
            (fun block => block.body.transitions.contains tx)
          || (@Chain.produceBlock polyCrypto mixedTransfers 0).2.latestRejectedReceipts.any
            fun receipt => receipt.txId = tx.txId && !receipt.verdict.isAccepted) = true := by
  decide +kernel

/-- The block takes the first transfer, and the second has a receipt. -/
theorem mixedTransfers_keepsAll : @Chain.KeepsAll polyCrypto mixedTransfers 0 := by
  obtain ⟨-, -, hall⟩ := mixedTransfers_evaluated
  refine (@Chain.allAccounted_iff polyCrypto mixedTransfers
    (Chain.reached_withPending (.new 10000) _) 0).mp fun tx htx => ?_
  have hone := List.all_eq_true.mp hall tx htx
  rw [Bool.or_eq_true] at hone
  rcases hone with hblock | hreceipt
  · refine Or.inl ?_
    rcases hproduce : (@Chain.produceBlock polyCrypto mixedTransfers 0).1 with e | block
    · rw [hproduce] at hblock
      cases hblock
    · rw [hproduce, Except.toOption, Option.any_some] at hblock
      exact ⟨block, rfl, List.contains_iff_mem.mp hblock⟩
  · obtain ⟨receipt, hmem, hboth⟩ := List.any_eq_true.mp hreceipt
    rw [Bool.and_eq_true, decide_eq_true_eq, Bool.not_eq_true'] at hboth
    exact Or.inr (Or.inl ⟨receipt, hmem, hboth⟩)

end Sccgub
