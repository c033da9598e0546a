import Mathlib
import Sccgub.Fallible
import Sccgub.Runs
import Sccgub.State.Coherence
import Sccgub.State.EscrowConservation

/-!
# Conservation of supply

Value is in three places: the accounts, the pending fees of the treasury, and
what it has burned.  Fees, rewards, transfers and burns move it between them,
one saturating operation at a time.

A `Posting` is one such operation.  `Call.postings` lists those a call makes, in
order, and `Call.books_run` says that making them is what the call does.  Between
two postings of one payment the books are short of the amount under way, so the
invariant `Sound` carries the sum it accounts for; bounded by the mint, no
operation leaves its range.
-/

namespace Sccgub

open FixedWidth Fallible Runs

/-! ## Books and postings -/

structure Books where
  balances : BalanceLedger := {}
  treasury : Treasury := {}

inductive Posting
  | credit (agent : AgentId) (amount : TensionValue)
  | debit (agent : AgentId) (amount : TensionValue)
  | collectFee (amount : TensionValue)
  | distributeReward (amount : TensionValue)
  | burn (amount : TensionValue)
  | advanceEpoch

namespace Posting

/-- A posting that is refused leaves the books alone. -/
def act (books : Books) : Posting → Books
  | .credit agent amount => { books with balances := books.balances.credit agent amount }
  | .debit agent amount =>
      match books.balances.debit agent amount with
      | .ok balances => { books with balances }
      | .error _ => books
  | .collectFee amount => { books with treasury := books.treasury.collectFee amount }
  | .distributeReward amount =>
      { books with treasury := (books.treasury.distributeReward amount).2 }
  | .burn amount =>
      match books.treasury.burn amount with
      | .ok treasury => { books with treasury }
      | .error _ => books
  | .advanceEpoch => { books with treasury := books.treasury.advanceEpoch }

/-- The sums and differences a posting makes of balances, pending fees and the
burned total are those of the integers. -/
def Exact (books : Books) : Posting → Prop
  | .credit agent amount =>
      (books.balances.balanceOf agent + amount).raw.val
        = (books.balances.balanceOf agent).raw.val + amount.raw.val
  | .debit agent amount =>
      (books.balances.debit agent amount).isOk →
        (books.balances.balanceOf agent - amount).raw.val
          = (books.balances.balanceOf agent).raw.val - amount.raw.val
  | .collectFee amount =>
      (books.treasury.pendingFees + Treasury.clampNonNegative amount).raw.val
        = books.treasury.pendingFees.raw.val + (Treasury.clampNonNegative amount).raw.val
  | .distributeReward amount =>
      (books.treasury.pendingFees - (books.treasury.distributeReward amount).1).raw.val
        = books.treasury.pendingFees.raw.val - (books.treasury.distributeReward amount).1.raw.val
  | .burn amount =>
      (books.treasury.burn amount).isOk →
        (books.treasury.pendingFees - amount).raw.val
            = books.treasury.pendingFees.raw.val - amount.raw.val
          ∧ (books.treasury.totalBurned + amount).raw.val
            = books.treasury.totalBurned.raw.val + amount.raw.val
  | .advanceEpoch => True

end Posting

/-! ## The calls -/

/-- What the calls work on. -/
structure Holdings where
  state : ManagedWorldState := {}
  books : Books := {}

inductive Call
  | applyBlockEconomics (transitions : List SymbolicTransition) (receipts : List CausalReceipt)
      (blockVersion : UInt32) (validatorPublicKey : Hash) (gasPrice requestedReward : TensionValue)
  | applyBlockTransitions (transitions : List SymbolicTransition)
  | burn (amount : TensionValue)
  | advanceEpoch

/-- Fee collection on the books themselves: an error in the middle leaves the
fees collected before it. -/
def chargeFeesInPlace (books : Books) (transitions : List SymbolicTransition)
    (receipts : List CausalReceipt) (blockVersion : UInt32) (gasPrice : TensionValue) :
    Settlement × Option String :=
  if !receipts.isEmpty && receipts.length ≠ transitions.length then
    ({ balances := books.balances, treasury := books.treasury },
      some s!"Receipt count mismatch for economics replay: {transitions.length} transitions, {receipts.length} receipts")
  else if receipts.isEmpty then
    ({ balances := books.balances
       treasury := books.treasury
       outcome :=
        { txDeltas := transitions.map fun _ => default
          txFees := transitions.map fun _ => .zero
          txFeePayers := transitions.map fun tx => tx.actor.agentId } }, none)
  else
    foldlUntil (chargeFee blockVersion gasPrice)
      { balances := books.balances, treasury := books.treasury } (transitions.zip receipts)

theorem chargeFees_eq_ok_iff {books : Books} {transitions : List SymbolicTransition}
    {receipts : List CausalReceipt} {blockVersion : UInt32} {gasPrice : TensionValue}
    {charged : Settlement} :
    chargeFees books.balances books.treasury transitions receipts blockVersion gasPrice
        = .ok charged
      ↔ chargeFeesInPlace books transitions receipts blockVersion gasPrice = (charged, none) := by
  unfold chargeFees chargeFeesInPlace
  split
  · simp
  · split
    · simp
    · exact foldlM_eq_ok_iff_foldlUntil

theorem chargeFees_eq_error_iff {books : Books} {transitions : List SymbolicTransition}
    {receipts : List CausalReceipt} {blockVersion : UInt32} {gasPrice : TensionValue} {e : String} :
    chargeFees books.balances books.treasury transitions receipts blockVersion gasPrice
        = .error e
      ↔ (chargeFeesInPlace books transitions receipts blockVersion gasPrice).2 = some e := by
  unfold chargeFees chargeFeesInPlace
  split
  · simp
  · split
    · simp
    · exact foldlM_eq_error_iff_foldlUntil

/-! ## What a call posts -/

def chargePostings (blockVersion : UInt32) (gasPrice : TensionValue) (acc : Settlement)
    (paired : SymbolicTransition × CausalReceipt) : List Posting :=
  let fee := receiptFee gasPrice paired.2
  if fee.raw.val > 0 then
    match resolveFeePayer blockVersion acc.balances paired.1 fee with
    | .ok payer => [.debit payer fee, .collectFee fee]
    | .error _ => []
  else []

/-- Up to the first transition that fails. -/
def chargesPostings (blockVersion : UInt32) (gasPrice : TensionValue) :
    Settlement → List (SymbolicTransition × CausalReceipt) → List Posting
  | _, [] => []
  | acc, paired :: rest =>
      match chargeFee blockVersion gasPrice acc paired with
      | .ok acc' =>
          chargePostings blockVersion gasPrice acc paired
            ++ chargesPostings blockVersion gasPrice acc' rest
      | .error _ => []

/-- The fees of a call, with the checks in front of them. -/
def feePostings (books : Books) (transitions : List SymbolicTransition)
    (receipts : List CausalReceipt) (blockVersion : UInt32) (gasPrice : TensionValue) :
    List Posting :=
  if receipts.length ≠ transitions.length then []
  else chargesPostings blockVersion gasPrice
    { balances := books.balances, treasury := books.treasury } (transitions.zip receipts)

def rewardPostings (account : Hash) (requestedReward : TensionValue) (treasury : Treasury) :
    List Posting :=
  let actual := (treasury.distributeReward requestedReward).1
  .distributeReward requestedReward ::
    if actual.raw.val > 0 then [.credit account actual] else []

def transferPostings (run : TransitionRun) (tx : SymbolicTransition) : List Posting :=
  if tx.txId ∈ run.appliedIds then []
  else
    match tx.payload with
    | .assetTransfer source target amount =>
        match run.balances.transfer source target ⟨amount⟩ with
        | .ok _ => [.debit source ⟨amount⟩, .credit target ⟨amount⟩]
        | .error _ => []
    | _ => []

def transfersPostings : TransitionRun → List SymbolicTransition → List Posting
  | _, [] => []
  | run, tx :: rest => transferPostings run tx ++ transfersPostings (applyTransition run tx) rest

/-! ## Calls in place -/

section

variable [Crypto]

/-- The economics of a block on state and books themselves. -/
def applyBlockEconomicsInPlace (held : Holdings) (transitions : List SymbolicTransition)
    (receipts : List CausalReceipt) (blockVersion : UInt32) (validatorPublicKey : Hash)
    (gasPrice requestedReward : TensionValue) : Holdings × Except String BlockEconomicsOutcome :=
  match chargeFeesInPlace held.books transitions receipts blockVersion gasPrice with
  | (charged, some e) => ({ held with books := ⟨charged.balances, charged.treasury⟩ }, .error e)
  | (charged, none) =>
      let account := validatorSpendAccount blockVersion validatorPublicKey
      let settled := payReward account requestedReward charged
      (⟨commitSettlement held.state settled, ⟨settled.balances, settled.treasury⟩⟩,
        .ok settled.outcome)

/-- It returns what the economics of a block return, with their effects. -/
theorem applyBlockEconomicsInPlace_eq (held : Holdings) (transitions : List SymbolicTransition)
    (receipts : List CausalReceipt) (blockVersion : UInt32) (validatorPublicKey : Hash)
    (gasPrice requestedReward : TensionValue) :
    match applyBlockEconomics held.state held.books.balances held.books.treasury transitions
        receipts blockVersion validatorPublicKey gasPrice requestedReward with
    | .ok (state, settled) =>
        applyBlockEconomicsInPlace held transitions receipts blockVersion validatorPublicKey
            gasPrice requestedReward
          = (⟨state, ⟨settled.balances, settled.treasury⟩⟩, .ok settled.outcome)
    | .error e =>
        (applyBlockEconomicsInPlace held transitions receipts blockVersion validatorPublicKey
            gasPrice requestedReward).2 = .error e
          ∧ (applyBlockEconomicsInPlace held transitions receipts blockVersion validatorPublicKey
            gasPrice requestedReward).1.state = held.state := by
  unfold applyBlockEconomics applyBlockEconomicsInPlace
  rcases hc : chargeFees held.books.balances held.books.treasury transitions receipts blockVersion
    gasPrice with e | charged
  · rcases hp : chargeFeesInPlace held.books transitions receipts blockVersion gasPrice
      with ⟨charged, e'⟩
    have he := chargeFees_eq_error_iff.mp hc
    rw [hp] at he
    dsimp only at he
    subst he
    exact ⟨rfl, rfl⟩
  · rw [chargeFees_eq_ok_iff.mp hc]
    rfl

namespace Call

def run (held : Holdings) : Call → Holdings
  | .applyBlockEconomics transitions receipts blockVersion validatorPublicKey gasPrice
      requestedReward =>
      (applyBlockEconomicsInPlace held transitions receipts blockVersion validatorPublicKey
        gasPrice requestedReward).1
  | .applyBlockTransitions transitions =>
      let (state, balances, _) := Sccgub.applyBlockTransitions held.state held.books.balances
        transitions
      ⟨state, { held.books with balances }⟩
  | .burn amount =>
      match held.books.treasury.burn amount with
      | .ok treasury => { held with books := { held.books with treasury } }
      | .error _ => held
  | .advanceEpoch =>
      { held with books := { held.books with treasury := held.books.treasury.advanceEpoch } }

def postings (held : Holdings) : Call → List Posting
  | .applyBlockEconomics transitions receipts blockVersion validatorPublicKey gasPrice
      requestedReward =>
      let charged := chargeFeesInPlace held.books transitions receipts blockVersion gasPrice
      feePostings held.books transitions receipts blockVersion gasPrice
        ++ if charged.2.isNone then
            rewardPostings (validatorSpendAccount blockVersion validatorPublicKey) requestedReward
              charged.1.treasury
          else []
  | .applyBlockTransitions transitions =>
      transfersPostings { state := held.state, balances := held.books.balances } transitions
  | .burn amount => [.burn amount]
  | .advanceEpoch => [.advanceEpoch]

def runPostings : Holdings → List Call → List Posting
  | _, [] => []
  | held, call :: rest => call.postings held ++ runPostings (call.run held) rest

end Call

end

/-! ## Sound books -/

/-- No debts, and a sum that is accounted for. -/
structure Books.Sound (sum : Int) (books : Books) : Prop where
  nonneg : books.balances.NonNegative
  pending : 0 ≤ books.treasury.pendingFees.raw.val
  burned : 0 ≤ books.treasury.totalBurned.raw.val
  conserved : books.balances.supply + books.treasury.pendingFees.raw.val
    + books.treasury.totalBurned.raw.val = sum

/-- Postings made without saturating, and the sum accounted for after them. -/
def Books.Carries (books : Books) (postings : List Posting) (sum : Int) : Prop :=
  Along Posting.act Posting.Exact books postings ∧ (postings.foldl Posting.act books).Sound sum

namespace Books

variable {books : Books} {sum sum' sum'' : Int} {agent : AgentId} {amount : TensionValue}

theorem Carries.append {postings postings' : List Posting} (h : books.Carries postings sum)
    (h' : (postings.foldl Posting.act books).Carries postings' sum') :
    books.Carries (postings ++ postings') sum' :=
  ⟨along_append.mpr ⟨h.1, h'.1⟩, by rw [List.foldl_append]; exact h'.2⟩

theorem Carries.cons {posting : Posting} {postings : List Posting}
    (h : books.Carries [posting] sum) (h' : (posting.act books).Carries postings sum') :
    books.Carries (posting :: postings) sum' :=
  h.append h'

theorem Sound.supply_nonneg (h : books.Sound sum) : 0 ≤ books.balances.supply :=
  (h.nonneg zeroHash).trans (h.nonneg.balance_le zeroHash)

theorem Sound.idle (h : books.Sound sum) : books.Carries [] sum := ⟨trivial, h⟩

theorem Sound.credit (h : books.Sound sum) (agent : AgentId) (hamount : 0 ≤ amount.raw.val)
    (hfits : sum + amount.raw.val ≤ i128Max) :
    books.Carries [.credit agent amount] (sum + amount.raw.val) := by
  have hpending := h.pending
  have hburned := h.burned
  have hsum := h.conserved
  have hbalance := h.nonneg agent
  have hle := h.nonneg.balance_le agent
  obtain ⟨hsupply, hnonneg⟩ := h.nonneg.credit_spec agent hamount (by omega)
  refine ⟨⟨TensionValue.add_val (by omega) (by omega), trivial⟩, hnonneg, hpending, hburned, ?_⟩
  show (books.balances.credit agent amount).supply + books.treasury.pendingFees.raw.val
    + books.treasury.totalBurned.raw.val = sum + amount.raw.val
  omega

theorem Sound.debit (h : books.Sound sum) (hamount : 0 ≤ amount.raw.val)
    (hfunds : amount.raw ≤ (books.balances.balanceOf agent).raw) :
    books.Carries [.debit agent amount] (sum - amount.raw.val) := by
  have hsum := h.conserved
  have hle : amount.raw.val ≤ (books.balances.balanceOf agent).raw.val := hfunds
  have hexact : (books.balances.balanceOf agent - amount).raw.val
      = (books.balances.balanceOf agent).raw.val - amount.raw.val :=
    TensionValue.sub_val (by omega) hamount
  obtain ⟨hsupply, hnonneg⟩ := h.nonneg.lock_spec hamount hfunds
  have hdebit : books.balances.debit agent amount
      = .ok (books.balances.importBalance agent (books.balances.balanceOf agent - amount)) :=
    if_neg (not_lt.mpr hle)
  refine ⟨⟨fun _ => hexact, trivial⟩, ?_⟩
  simp only [List.foldl_cons, List.foldl_nil, Posting.act, hdebit]
  refine ⟨hnonneg, h.pending, h.burned, ?_⟩
  dsimp only
  omega

theorem clampNonNegative_of_nonneg (hamount : 0 ≤ amount.raw.val) :
    Treasury.clampNonNegative amount = amount :=
  if_neg (not_lt.mpr hamount)

theorem clampNonNegative_nonneg (amount : TensionValue) :
    0 ≤ (Treasury.clampNonNegative amount).raw.val := by
  unfold Treasury.clampNonNegative
  split
  · decide
  · rename_i hneg
    exact not_lt.mp hneg

theorem Sound.collectFee (h : books.Sound sum) (hamount : 0 ≤ amount.raw.val)
    (hfits : sum + amount.raw.val ≤ i128Max) :
    books.Carries [.collectFee amount] (sum + amount.raw.val) := by
  have hpending := h.pending
  have hburned := h.burned
  have hsum := h.conserved
  have hsupply := h.supply_nonneg
  have hexact : (books.treasury.pendingFees + amount).raw.val
      = books.treasury.pendingFees.raw.val + amount.raw.val :=
    TensionValue.add_val (by omega) (by omega)
  have hclamp := clampNonNegative_of_nonneg hamount
  refine ⟨⟨?_, trivial⟩, ?_⟩
  · show _ = _
    rw [hclamp, hexact]
  · simp only [List.foldl_cons, List.foldl_nil, Posting.act, Treasury.collectFee, hclamp]
    refine ⟨h.nonneg, ?_, hburned, ?_⟩
    · dsimp only
      omega
    · dsimp only
      omega

/-- What is paid is between nothing and what is pending. -/
theorem Sound.actual_range (h : books.Sound sum) (amount : TensionValue) :
    0 ≤ (books.treasury.distributeReward amount).1.raw.val
      ∧ (books.treasury.distributeReward amount).1.raw.val
        ≤ books.treasury.pendingFees.raw.val := by
  have hpending := h.pending
  have hclamp := clampNonNegative_nonneg amount
  unfold Treasury.distributeReward
  dsimp only
  split
  · exact ⟨hpending, le_refl _⟩
  · rename_i hle
    exact ⟨hclamp, not_lt.mp hle⟩

theorem Sound.distributeReward (h : books.Sound sum) (amount : TensionValue) :
    books.Carries [.distributeReward amount]
      (sum - (books.treasury.distributeReward amount).1.raw.val) := by
  have hsum := h.conserved
  obtain ⟨hlo, hhi⟩ := h.actual_range amount
  have hexact : (books.treasury.pendingFees - (books.treasury.distributeReward amount).1).raw.val
      = books.treasury.pendingFees.raw.val
        - (books.treasury.distributeReward amount).1.raw.val :=
    TensionValue.sub_val (by omega) hlo
  have hafter : (books.treasury.distributeReward amount).2.pendingFees
      = books.treasury.pendingFees - (books.treasury.distributeReward amount).1 := rfl
  refine ⟨⟨hexact, trivial⟩, h.nonneg, ?_, h.burned, ?_⟩
  · show 0 ≤ (books.treasury.distributeReward amount).2.pendingFees.raw.val
    rw [hafter]
    omega
  · show books.balances.supply + (books.treasury.distributeReward amount).2.pendingFees.raw.val
      + books.treasury.totalBurned.raw.val = _
    rw [hafter]
    omega

theorem Sound.burn (h : books.Sound sum) (hmax : sum ≤ i128Max) (amount : TensionValue) :
    books.Carries [.burn amount] sum := by
  have hsum := h.conserved
  have hburned := h.burned
  have hsupply := h.supply_nonneg
  by_cases hneg : amount.raw.val < 0
  · have hrefused : books.treasury.burn amount = .error "Cannot burn negative amount" :=
      if_pos hneg
    refine ⟨⟨fun hok => ?_, trivial⟩, ?_⟩
    · rw [hrefused] at hok
      cases hok
    · simp only [List.foldl_cons, List.foldl_nil, Posting.act, hrefused]
      exact h
  · by_cases hshort : books.treasury.pendingFees.raw < amount.raw
    · have hrefused : books.treasury.burn amount = .error "Cannot burn more than pending fees" := by
        rw [Treasury.burn, if_neg hneg, if_pos hshort]
      refine ⟨⟨fun hok => ?_, trivial⟩, ?_⟩
      · rw [hrefused] at hok
        cases hok
      · simp only [List.foldl_cons, List.foldl_nil, Posting.act, hrefused]
        exact h
    · have hle : amount.raw.val ≤ books.treasury.pendingFees.raw.val := not_lt.mp hshort
      have hpending : (books.treasury.pendingFees - amount).raw.val
          = books.treasury.pendingFees.raw.val - amount.raw.val :=
        TensionValue.sub_val (by omega) (by omega)
      have htotal : (books.treasury.totalBurned + amount).raw.val
          = books.treasury.totalBurned.raw.val + amount.raw.val :=
        TensionValue.add_val (by omega) (by omega)
      refine ⟨⟨fun _ => ⟨hpending, htotal⟩, trivial⟩, ?_⟩
      simp only [List.foldl_cons, List.foldl_nil, Posting.act, Treasury.burn, if_neg hneg,
        if_neg hshort]
      refine ⟨h.nonneg, ?_, ?_, ?_⟩ <;> dsimp only <;> omega

theorem Sound.advanceEpoch (h : books.Sound sum) : books.Carries [.advanceEpoch] sum :=
  ⟨⟨trivial, trivial⟩, h.nonneg, h.pending, h.burned, h.conserved⟩

end Books

/-! ## Fees -/

def Settlement.books (acc : Settlement) : Books := ⟨acc.balances, acc.treasury⟩

theorem debit_act (books : Books) {agent : AgentId} {amount : TensionValue}
    {balances : BalanceLedger} (h : books.balances.debit agent amount = .ok balances) :
    (Posting.debit agent amount).act books = { books with balances } := by
  simp only [Posting.act, h]

theorem debit_eq_ok_funds {balances balances' : BalanceLedger} {agent : AgentId}
    {amount : TensionValue} (h : balances.debit agent amount = .ok balances') :
    amount.raw ≤ (balances.balanceOf agent).raw := by
  unfold BalanceLedger.debit at h
  dsimp only at h
  split at h
  · cases h
  · rename_i hfunds
    exact Int.not_lt.mp hfunds

theorem chargePostings_books {blockVersion : UInt32} {gasPrice : TensionValue}
    {acc acc' : Settlement} {paired : SymbolicTransition × CausalReceipt}
    (h : chargeFee blockVersion gasPrice acc paired = .ok acc') :
    (chargePostings blockVersion gasPrice acc paired).foldl Posting.act acc.books = acc'.books := by
  obtain ⟨-, -, payer, hpayer, -, -, ⟨hfee, hb, ht, -, -⟩ | ⟨hfee, hb, ht, -, -⟩⟩ :=
    chargeFee_cases h
  · simp only [chargePostings, gt_iff_lt, if_neg (not_lt.mpr hfee), List.foldl_nil,
      Settlement.books, hb, ht]
  · simp only [chargePostings, gt_iff_lt, if_pos hfee, hpayer, List.foldl_cons, List.foldl_nil]
    rw [debit_act acc.books hb]
    simp only [Posting.act, Settlement.books, ht]

theorem chargePostings_carries {blockVersion : UInt32} {gasPrice : TensionValue}
    {acc acc' : Settlement} {paired : SymbolicTransition × CausalReceipt} {sum : Int}
    (h : chargeFee blockVersion gasPrice acc paired = .ok acc') (hs : acc.books.Sound sum)
    (hmax : sum ≤ i128Max) :
    acc.books.Carries (chargePostings blockVersion gasPrice acc paired) sum := by
  obtain ⟨-, -, payer, hpayer, -, -, ⟨hfee, -, -, -, -⟩ | ⟨hfee, hb, -, -, -⟩⟩ :=
    chargeFee_cases h
  · rw [chargePostings, if_neg (not_lt.mpr hfee)]
    exact hs.idle
  · have hdebit : acc.books.Carries [.debit payer (receiptFee gasPrice paired.2)] _ :=
      hs.debit hfee.le (debit_eq_ok_funds hb)
    have hcollect := @Books.Sound.collectFee _ _ (receiptFee gasPrice paired.2) hdebit.2 hfee.le
      (by omega)
    rw [sub_add_cancel] at hcollect
    simp only [chargePostings, gt_iff_lt, if_pos hfee, hpayer]
    exact hdebit.cons hcollect

/-- All fees up to the one that fails. -/
theorem chargesPostings_books (blockVersion : UInt32) (gasPrice : TensionValue)
    (pairs : List (SymbolicTransition × CausalReceipt)) (acc : Settlement) :
    (chargesPostings blockVersion gasPrice acc pairs).foldl Posting.act acc.books
      = (foldlUntil (chargeFee blockVersion gasPrice) acc pairs).1.books := by
  induction pairs generalizing acc with
  | nil => rfl
  | cons paired rest ih =>
      rw [chargesPostings, foldlUntil]
      rcases hc : chargeFee blockVersion gasPrice acc paired with e | acc'
      · rfl
      · dsimp only
        rw [List.foldl_append, chargePostings_books hc, ih]

theorem chargesPostings_carries {blockVersion : UInt32} {gasPrice : TensionValue}
    {pairs : List (SymbolicTransition × CausalReceipt)} (acc : Settlement) {sum : Int}
    (hs : acc.books.Sound sum) (hmax : sum ≤ i128Max) :
    acc.books.Carries (chargesPostings blockVersion gasPrice acc pairs) sum := by
  induction pairs generalizing acc with
  | nil => exact hs.idle
  | cons paired rest ih =>
      rw [chargesPostings]
      rcases hc : chargeFee blockVersion gasPrice acc paired with e | acc'
      · exact hs.idle
      · have hcharge := chargePostings_carries hc hs hmax
        have hnext : acc'.books.Sound sum := chargePostings_books hc ▸ hcharge.2
        refine hcharge.append ?_
        rw [chargePostings_books hc]
        exact ih _ hnext

theorem feePostings_books (books : Books) (transitions : List SymbolicTransition)
    (receipts : List CausalReceipt) (blockVersion : UInt32) (gasPrice : TensionValue) :
    (feePostings books transitions receipts blockVersion gasPrice).foldl Posting.act books
      = (chargeFeesInPlace books transitions receipts blockVersion gasPrice).1.books := by
  unfold feePostings chargeFeesInPlace
  by_cases hlen : receipts.length = transitions.length
  · rw [if_neg (not_not.mpr hlen), if_neg (by simp [hlen])]
    by_cases hempty : receipts.isEmpty = true
    · have hnil : receipts = [] := List.isEmpty_iff.mp hempty
      rw [if_pos hempty, hnil, List.zip_nil_right]
      rfl
    · rw [if_neg hempty]
      exact chargesPostings_books blockVersion gasPrice (transitions.zip receipts)
        { balances := books.balances, treasury := books.treasury }
  · rw [if_pos hlen]
    split
    · rfl
    · rename_i hmismatch
      have hempty : receipts.isEmpty = true := by
        simpa [hlen] using hmismatch
      rw [if_pos hempty]
      rfl

theorem feePostings_carries {books : Books} (transitions : List SymbolicTransition)
    (receipts : List CausalReceipt) (blockVersion : UInt32) (gasPrice : TensionValue) {sum : Int}
    (hs : books.Sound sum) (hmax : sum ≤ i128Max) :
    books.Carries (feePostings books transitions receipts blockVersion gasPrice) sum := by
  unfold feePostings
  split
  · exact hs.idle
  · exact chargesPostings_carries { balances := books.balances, treasury := books.treasury } hs hmax

/-! ## The reward -/

theorem rewardPostings_books (account : Hash) (requestedReward : TensionValue) (acc : Settlement) :
    (rewardPostings account requestedReward acc.treasury).foldl Posting.act acc.books
      = (payReward account requestedReward acc).books := by
  unfold rewardPostings payReward
  dsimp only
  split <;> rfl

theorem rewardPostings_carries {account : Hash} {requestedReward : TensionValue} {books : Books}
    {sum : Int} (hs : books.Sound sum) (hmax : sum ≤ i128Max) :
    books.Carries (rewardPostings account requestedReward books.treasury) sum := by
  obtain ⟨hlo, -⟩ := hs.actual_range requestedReward
  have hdistribute := hs.distributeReward requestedReward
  unfold rewardPostings
  dsimp only
  split
  · have hcredit := hdistribute.2.credit account hlo (by omega)
    rw [sub_add_cancel] at hcredit
    exact hdistribute.cons hcredit
  · rename_i hzero
    have hzero : (books.treasury.distributeReward requestedReward).1.raw.val = 0 := by omega
    rw [hzero, sub_zero] at hdistribute
    exact hdistribute

/-! ## Transfers -/

theorem transfer_eq_ok_iff {balances balances' : BalanceLedger} {source target : AgentId}
    {amount : TensionValue} :
    balances.transfer source target amount = .ok balances' ↔
      0 < amount.raw.val ∧ source ≠ target
        ∧ ∃ debited, balances.debit source amount = .ok debited
          ∧ balances' = debited.credit target amount := by
  unfold BalanceLedger.transfer
  by_cases hpos : amount.raw.val ≤ 0
  · simp [hpos]
  · by_cases hself : source = target
    · simp [hpos, hself]
    · rw [if_neg hpos, if_neg hself, bind_eq_ok_iff]
      simp only [pure_eq_ok_iff, not_le.mp hpos, ne_eq, hself, not_false_eq_true, true_and]

variable {sum : Int}

theorem transferPostings_books (run : TransitionRun) (tx : SymbolicTransition)
    (treasury : Treasury) :
    (transferPostings run tx).foldl Posting.act ⟨run.balances, treasury⟩
      = ⟨(applyTransition run tx).balances, treasury⟩ := by
  unfold transferPostings applyTransition
  split
  · rfl
  · dsimp only
    cases tx.payload with
    | assetTransfer source target amount =>
        dsimp only
        rcases ht : run.balances.transfer source target ⟨amount⟩ with e | balances
        · rfl
        · obtain ⟨-, -, debited, hdebit, rfl⟩ := transfer_eq_ok_iff.mp ht
          dsimp only
          rw [List.foldl_cons, debit_act ⟨run.balances, treasury⟩ hdebit]
          rfl
    | _ => rfl

theorem transferPostings_carries {run : TransitionRun} {treasury : Treasury}
    (hs : (Books.mk run.balances treasury).Sound sum) (hmax : sum ≤ i128Max)
    (tx : SymbolicTransition) :
    (Books.mk run.balances treasury).Carries (transferPostings run tx) sum := by
  unfold transferPostings
  split
  · exact hs.idle
  · split
    · rename_i source target amount hp
      rcases ht : run.balances.transfer source target ⟨amount⟩ with e | balances
      · exact hs.idle
      · obtain ⟨hpos, -, debited, hdebit, -⟩ := transfer_eq_ok_iff.mp ht
        have hdebited := hs.debit hpos.le (debit_eq_ok_funds hdebit)
        have hcredit := hdebited.2.credit target hpos.le (by omega)
        rw [sub_add_cancel] at hcredit
        exact hdebited.cons hcredit
    · exact hs.idle

theorem transfersPostings_books (transitions : List SymbolicTransition) (run : TransitionRun)
    (treasury : Treasury) :
    (transfersPostings run transitions).foldl Posting.act ⟨run.balances, treasury⟩
      = ⟨(transitions.foldl applyTransition run).balances, treasury⟩ := by
  induction transitions generalizing run with
  | nil => rfl
  | cons tx rest ih =>
      rw [transfersPostings, List.foldl_append, transferPostings_books, ih, List.foldl_cons]

theorem transfersPostings_carries {transitions : List SymbolicTransition} (run : TransitionRun)
    {treasury : Treasury} (hs : (Books.mk run.balances treasury).Sound sum)
    (hmax : sum ≤ i128Max) :
    (Books.mk run.balances treasury).Carries (transfersPostings run transitions) sum := by
  induction transitions generalizing run with
  | nil => exact hs.idle
  | cons tx rest ih =>
      have htransfer := transferPostings_carries hs hmax tx
      have hafter := transferPostings_books run tx treasury
      rw [transfersPostings]
      refine htransfer.append ?_
      rw [hafter]
      exact ih _ (hafter ▸ htransfer.2)

/-! ## Runs -/

namespace Call

variable [Crypto]

/-- A call is its postings. -/
theorem books_run (held : Holdings) (call : Call) :
    (call.run held).books = (call.postings held).foldl Posting.act held.books := by
  cases call with
  | applyBlockEconomics transitions receipts blockVersion validatorPublicKey gasPrice
      requestedReward =>
      have hfees := feePostings_books held.books transitions receipts blockVersion gasPrice
      simp only [run, applyBlockEconomicsInPlace, postings]
      rw [List.foldl_append, hfees]
      rcases chargeFeesInPlace held.books transitions receipts blockVersion gasPrice
        with ⟨charged, _ | e⟩
      · exact (rewardPostings_books _ requestedReward charged).symm
      · rfl
  | applyBlockTransitions transitions =>
      exact (transfersPostings_books transitions
        { state := held.state, balances := held.books.balances } held.books.treasury).symm
  | burn amount =>
      simp only [run, postings, List.foldl_cons, List.foldl_nil, Posting.act]
      split <;> rfl
  | advanceEpoch => rfl

theorem postings_carries {held : Holdings} (hs : held.books.Sound sum) (hmax : sum ≤ i128Max)
    (call : Call) : held.books.Carries (call.postings held) sum := by
  cases call with
  | applyBlockEconomics transitions receipts blockVersion validatorPublicKey gasPrice
      requestedReward =>
      have hfees := feePostings_carries transitions receipts blockVersion gasPrice hs hmax
      have hbooks := feePostings_books held.books transitions receipts blockVersion gasPrice
      refine Books.Carries.append hfees ?_
      have hsound := hfees.2
      rw [hbooks] at hsound ⊢
      split
      · exact rewardPostings_carries hsound hmax
      · exact hsound.idle
  | applyBlockTransitions transitions =>
      exact transfersPostings_carries { state := held.state, balances := held.books.balances } hs hmax
  | burn amount => exact hs.burn hmax amount
  | advanceEpoch => exact hs.advanceEpoch

theorem sound_run {held : Holdings} (hs : held.books.Sound sum) (hmax : sum ≤ i128Max)
    (call : Call) : (call.run held).books.Sound sum := by
  rw [books_run]
  exact (postings_carries hs hmax call).2

theorem runPostings_books (calls : List Call) (held : Holdings) :
    (runPostings held calls).foldl Posting.act held.books = (calls.foldl run held).books := by
  induction calls generalizing held with
  | nil => rfl
  | cons call rest ih => rw [runPostings, List.foldl_append, ← books_run, ih, List.foldl_cons]

theorem runPostings_carries {calls : List Call} {held : Holdings} (hs : held.books.Sound sum)
    (hmax : sum ≤ i128Max) : held.books.Carries (runPostings held calls) sum := by
  induction calls generalizing held with
  | nil => exact hs.idle
  | cons call rest ih =>
      rw [runPostings]
      refine (postings_carries hs hmax call).append ?_
      rw [← books_run]
      exact ih (sound_run hs hmax call)

end Call

/-- A million tokens. -/
def genesisMint : Int := 1000000 * TensionValue.scale

/-- The mint on empty state and books. -/
def mintedHoldings (validatorId : Hash) : Holdings :=
  let (state, balances) := applyGenesisMint {} {} validatorId
  { state, books := { balances } }

theorem booksSound_empty : Books.Sound 0 {} :=
  { nonneg := by
      intro agent
      have hzero : BalanceLedger.balanceOf {} agent = .zero := by simp [BalanceLedger.balanceOf]
      rw [hzero]
      decide
    pending := by decide
    burned := by decide
    conserved := by decide +kernel }

theorem mint_carries (validatorId : Hash) :
    Books.Carries {} [.credit validatorId (.fromInteger 1000000)] genesisMint := by
  have hmint : genesisMint = 0 + (TensionValue.fromInteger 1000000).raw.val := by decide +kernel
  rw [hmint]
  exact booksSound_empty.credit validatorId (by decide +kernel) (by decide +kernel)

/-- From the mint on, whatever is called and whether or not it fails: the three
places add up to the mint, nothing is negative, and no posting saturates. -/
theorem supply_conserved [Crypto] (validatorId : Hash) (calls : List Call) :
    Throughout Call.run
        (fun held =>
          held.books.balances.supply + held.books.treasury.pendingFees.raw.val
              + held.books.treasury.totalBurned.raw.val = genesisMint
            ∧ held.books.balances.NonNegative ∧ 0 ≤ held.books.treasury.pendingFees.raw.val)
        (mintedHoldings validatorId) calls
      ∧ (calls.foldl Call.run (mintedHoldings validatorId)).books
        = (.credit validatorId (.fromInteger 1000000)
            :: Call.runPostings (mintedHoldings validatorId) calls).foldl Posting.act {}
      ∧ Along Posting.act Posting.Exact {}
        (.credit validatorId (.fromInteger 1000000)
          :: Call.runPostings (mintedHoldings validatorId) calls) := by
  have hmax : genesisMint ≤ i128Max := by decide +kernel
  have hmint := mint_carries validatorId
  have hstart : (mintedHoldings validatorId).books.Sound genesisMint := hmint.2
  refine ⟨?_, (Call.runPostings_books calls (mintedHoldings validatorId)).symm,
    (hmint.cons (Call.runPostings_carries hstart hmax)).1⟩
  have hsound : Throughout Call.run (fun held => held.books.Sound genesisMint)
      (mintedHoldings validatorId) calls :=
    throughout_of_step (fun held call hs => Call.sound_run hs hmax call) hstart
  exact hsound.mono fun held hs => ⟨hs.conserved, hs.nonneg, hs.pending⟩

end Sccgub
