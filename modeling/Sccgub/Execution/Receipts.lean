import Mathlib
import Sccgub.Execution.Authorization
import Sccgub.State.Coherence

/-!
# Receipts of accepted blocks

A block whose receipts are there at all has one accepting receipt for each of
its transitions, in order, and each transition has paid for it: the replay pairs
them and debits the fees.  All checks step aside when there are no receipts, so
a block may leave them out and pay nothing.
-/

namespace Sccgub

open Bincode FixedWidth

/-! ## Charging -/

def debitFee (balances : BalanceLedger) (charge : Hash × TensionValue) :
    Except String BalanceLedger :=
  if charge.2.raw.val > 0 then balances.debit charge.1 charge.2 else .ok balances

/-- What a receipt says of the transition beside it. -/
def Accepts (paired : SymbolicTransition × CausalReceipt) : Prop :=
  paired.2.txId = paired.1.txId ∧ paired.2.verdict.isAccepted = true

/-- The loop over the pairs: all of them match, and the fees it records are the
ones it debits. -/
theorem foldlM_chargeFee {blockVersion : UInt32} {gasPrice : TensionValue}
    {l : List (SymbolicTransition × CausalReceipt)} {acc acc' : Settlement}
    (h : l.foldlM (chargeFee blockVersion gasPrice) acc = .ok acc') :
    (∀ paired ∈ l, Accepts paired)
      ∧ ∃ payers, payers.length = l.length
        ∧ acc'.outcome.txFeePayers = acc.outcome.txFeePayers ++ payers
        ∧ acc'.outcome.txFees = acc.outcome.txFees ++ l.map (receiptFee gasPrice ·.2)
        ∧ (payers.zip (l.map (receiptFee gasPrice ·.2))).foldlM debitFee acc.balances
          = .ok acc'.balances := by
  induction l generalizing acc with
  | nil =>
      cases h
      exact ⟨fun _ hmem => (nomatch hmem), [], rfl, by simp, by simp, rfl⟩
  | cons paired rest ih =>
      rw [List.foldlM_cons] at h
      rcases hstep : chargeFee blockVersion gasPrice acc paired with e | next
      · rw [hstep] at h
        cases h
      · rw [hstep] at h
        obtain ⟨hrest, payers, hlen, hpayers, hfees, hdebits⟩ := ih h
        obtain ⟨hid, hverdict, payer, -, hfee, hpayer, hdebit⟩ := chargeFee_cases hstep
        have hbalances : debitFee acc.balances (payer, receiptFee gasPrice paired.2)
            = .ok next.balances := by
          unfold debitFee
          rcases hdebit with ⟨hnone, hb, -⟩ | ⟨hpos, hb, -⟩
          · rw [if_neg (not_lt.mpr hnone), hb]
          · rw [if_pos hpos]
            exact hb
        refine ⟨List.forall_mem_cons.mpr ⟨⟨hid, hverdict⟩, hrest⟩, payer :: payers, ?_, ?_, ?_, ?_⟩
        · rw [List.length_cons, List.length_cons, hlen]
        · rw [hpayers, hpayer, List.append_assoc]
          rfl
        · rw [hfees, hfee, List.append_assoc]
          rfl
        · rw [List.map_cons, List.zip_cons_cons, List.foldlM_cons, hbalances]
          exact hdebits

/-- Fees recorded, one for each receipt, and debited in order. -/
structure Charged (receipts : List CausalReceipt) (gasPrice : TensionValue)
    (balances : BalanceLedger) (charged : Settlement) : Prop where
  fees : charged.outcome.txFees = receipts.map (receiptFee gasPrice)
  payers : charged.outcome.txFeePayers.length = receipts.length
  debits : (charged.outcome.txFeePayers.zip charged.outcome.txFees).foldlM debitFee balances
    = .ok charged.balances

theorem chargeFees_spec {balances : BalanceLedger} {treasury : Treasury}
    {transitions : List SymbolicTransition} {receipts : List CausalReceipt} {blockVersion : UInt32}
    {gasPrice : TensionValue} {charged : Settlement}
    (h : chargeFees balances treasury transitions receipts blockVersion gasPrice = .ok charged)
    (hcond : receipts ≠ [] ∨ transitions = []) :
    List.Forall₂ (fun tx receipt => Accepts (tx, receipt)) transitions receipts
      ∧ Charged receipts gasPrice balances charged := by
  unfold chargeFees at h
  split at h
  · cases h
  · rename_i hcount
    split at h
    · rename_i hempty
      obtain rfl := List.isEmpty_iff.mp hempty
      obtain rfl := hcond.resolve_left (not_not.mpr rfl)
      cases h
      exact ⟨List.Forall₂.nil, rfl, rfl, rfl⟩
    · rename_i hnonempty
      have hlen : receipts.length = transitions.length := by simpa [hnonempty] using hcount
      obtain ⟨haccepts, payers, hpayersLen, hpayers, hfees, hdebits⟩ := foldlM_chargeFee h
      have hmap : (transitions.zip receipts).map (receiptFee gasPrice ·.2)
          = receipts.map (receiptFee gasPrice) := by
        have hsnd : (transitions.zip receipts).map Prod.snd = receipts := List.map_snd_zip hlen.le
        calc (transitions.zip receipts).map (receiptFee gasPrice ·.2)
            = ((transitions.zip receipts).map Prod.snd).map (receiptFee gasPrice) := by
              rw [List.map_map]
              rfl
          _ = receipts.map (receiptFee gasPrice) := by rw [hsnd]
      rw [hmap] at hfees hdebits
      rw [List.nil_append] at hpayers hfees
      refine ⟨List.forall₂_iff_zip.mpr ⟨hlen.symm, fun hmem => haccepts _ hmem⟩, hfees, ?_, ?_⟩
      · rw [hpayers, hpayersLen, List.length_zip, hlen, min_self]
      · rw [hpayers, hfees]
        exact hdebits

/-! ## Accepted blocks -/

section

variable [Crypto]

/-- One accepting receipt for each transition, in order, and each transition
charged by the replay what its receipt says. -/
structure ReceiptsComplete (block : Block) (state : ManagedWorldState) : Prop where
  paired : List.Forall₂ (fun tx receipt => Accepts (tx, receipt)) block.body.transitions
    block.receipts
  charged : ∃ inputs settled, replayInputs block state = .ok inputs
    ∧ chargeFees inputs.balances inputs.treasury block.body.transitions block.receipts
        block.header.version inputs.gasPrice = .ok settled
    ∧ Charged block.receipts inputs.gasPrice inputs.balances settled

/-- A replay that succeeds charged its fees. -/
theorem chargeFees_of_replayBlock {block : Block} {state : ManagedWorldState}
    {applied : AppliedBlock} (h : replayBlock block state = .ok applied) :
    ∃ inputs settled, replayInputs block state = .ok inputs
      ∧ chargeFees inputs.balances inputs.treasury block.body.transitions block.receipts
        block.header.version inputs.gasPrice = .ok settled := by
  unfold replayBlock at h
  rcases hinputs : replayInputs block state with e | inputs
  · rw [hinputs] at h
    cases h
  · rw [hinputs] at h
    rcases hcharge : chargeFees inputs.balances inputs.treasury block.body.transitions
      block.receipts block.header.version inputs.gasPrice with e | settled
    · simp [applyBlock, applyBlockEconomics, hcharge, during, bind, Except.bind, Except.mapError] at h
    · exact ⟨inputs, settled, rfl, hcharge⟩

/-- The receipts of an accepted block are complete exactly when there are some
or nothing to have them for. -/
theorem receiptsComplete_iff_of_accepted {block : Block} {state : ManagedWorldState}
    {parentId : Hash} (hheight : block.header.height > 0)
    (hvalid : validateCpog block state parentId = .valid) :
    ReceiptsComplete block state ↔ block.receipts ≠ [] ∨ block.body.transitions = [] := by
  constructor
  · intro h
    by_cases hempty : block.receipts = []
    · right
      have hpaired := h.paired
      rw [hempty] at hpaired
      exact List.forall₂_nil_right_iff.mp hpaired
    · exact Or.inl hempty
  · intro hcond
    obtain ⟨applied, happlied⟩ := (validateCpog_eq_valid_iff.mp hvalid).replay hheight
    obtain ⟨inputs, settled, hinputs, hcharge⟩ := chargeFees_of_replayBlock happlied.replay
    obtain ⟨hpaired, hcharged⟩ := chargeFees_spec hcharge hcond
    exact ⟨hpaired, inputs, settled, hinputs, hcharge, hcharged⟩

/-- A plain block with receipts and the roots of its own replay. -/
def receiptedBlock (height : UInt64) (transitions : List SymbolicTransition)
    (receipts : List CausalReceipt) (state : ManagedWorldState) : Block :=
  let plain := plainBlock height zeroHash transitions zeroHash zeroHash
  let receiptRoot := sectionRoot (receipts.map (canonicalBytes CausalReceipt.codec))
  let block := { plain with header := { plain.header with receiptRoot }, receipts }
  match replayBlock block state with
  | .ok applied =>
      { block with header := { block.header with
          stateRoot := applied.state.stateRoot
          balanceRoot := applied.balances.balanceRoot } }
  | .error _ => block

end

/-! ## With and without -/

/-- A note by the account that holds a hundred tokens. -/
def note : SymbolicTransition :=
  plainTransition (plainActor (Hash.ofByte 7) (Hash.ofByte 1)) .stateWrite (nsData ++ utf8 "note")
    (.write (nsData ++ utf8 "note") [1]) (List.replicate 64 0)

/-- Ten steps for it. -/
def noteReceipt : CausalReceipt where
  txId := note.txId
  verdict := .accept
  preStateRoot := zeroHash
  postStateRoot := zeroHash
  readSet := []
  writeSet := []
  causes := []
  resourceUsed := ⟨10, 0, 1, 0⟩
  emittedEvents := []
  whBinding := emptyWhResolved note
  phiPhaseReached := 13
  tensionDelta := .zero

def paidBlock : Block := @receiptedBlock polyCrypto 1 [note] [noteReceipt] fundedState

def unpaidBlock : Block := @receiptedBlock polyCrypto 1 [note] [] fundedState

theorem receiptsComplete_iff_of_accepted_paidBlock :
    @validateCpog polyCrypto paidBlock fundedState zeroHash = .valid
      ∧ paidBlock.body.transitions = [note] ∧ ReceiptsComplete paidBlock fundedState := by
  have hvalid : @validateCpog polyCrypto paidBlock fundedState zeroHash = .valid := by
    decide +kernel
  refine ⟨hvalid, by decide +kernel, ?_⟩
  exact (@receiptsComplete_iff_of_accepted polyCrypto paidBlock fundedState zeroHash
    (by decide +kernel) hvalid).mpr (Or.inl (by decide +kernel))

/-- The same note without a receipt is accepted as well, and nothing is paid. -/
theorem unpaid_accepted :
    unpaidBlock.header.height > 0
      ∧ @validateCpog polyCrypto unpaidBlock fundedState zeroHash = .valid
      ∧ unpaidBlock.body.transitions = [note] ∧ unpaidBlock.receipts = []
      ∧ ¬ ReceiptsComplete unpaidBlock fundedState := by
  have htransitions : unpaidBlock.body.transitions = [note] := by decide +kernel
  have hreceipts : unpaidBlock.receipts = [] := by decide +kernel
  refine ⟨by decide +kernel, by decide +kernel, htransitions, hreceipts, fun h => ?_⟩
  have hpaired := h.paired
  rw [htransitions, hreceipts] at hpaired
  cases hpaired

end Sccgub
