import Mathlib
import Sccgub.Execution.Namespaces
import Sccgub.Execution.Receipts
import Sccgub.State.Supply

/-!
# What the deltas of a block tell

Each transition of a block is attributed a delta: what its fee wrote, and then what its
payload wrote.  The fees of all transitions are charged before the first payload, so
the deltas, taken in block order, are not in the order of the writes.  The last of them
to name an account is right about it when it is the last that was made.

`AttributedRun` follows one account through the fees (`attributedRun_charges`), or
through the payloads (`attributedRun_payloads`); `entryWrite_merged` says whose record is
seen when the deltas are merged.  What the trie holds after the block is read off the
same runs (`get_applyBlockTransitions`).

Three cases then tell whether the two agree about an account:

- a fee comes last, or nothing (`get_addReward_of_deltas`): the deltas give what the
  economics wrote;
- the account is `Steady` (`get_addReward_of_steady`): they give what the block leaves;
- the entries are too narrow for a balance key (`get_addReward_of_narrow`): neither
  side writes one.

`late_fee_untold` is the fee that is charged before a payment and recorded after it.
-/

namespace Sccgub

open Bincode FixedWidth WriteThrough

/-! ## Touching an account -/

/-- What a block does to an account. -/
inductive Touch where
  | fee
  | write
  | transfer
  deriving DecidableEq

section

variable (state : ManagedWorldState) (a : Hash)

/-- A fee is charged to the account. -/
def feeTouch (blockVersion : UInt32) (gasPrice : TensionValue) (acc : Settlement)
    (paired : SymbolicTransition × CausalReceipt) : Option Touch :=
  let fee := receiptFee gasPrice paired.2
  if fee.raw.val > 0
      ∧ (resolveFeePayer blockVersion acc.balances paired.1 fee).toOption = some a then
    some .fee
  else none

def feeTouches (blockVersion : UInt32) (gasPrice : TensionValue) :
    Settlement → List (SymbolicTransition × CausalReceipt) → List (Option Touch)
  | _, [] => []
  | acc, paired :: rest =>
      feeTouch a blockVersion gasPrice acc paired ::
        match chargeFee blockVersion gasPrice acc paired with
        | .ok next => feeTouches blockVersion gasPrice next rest
        | .error _ => []

/-- The payload takes effect on the account: it writes the entry itself, or is a
transfer from or to it that succeeds. -/
def payloadTouch (run : TransitionRun) (tx : SymbolicTransition) : Option Touch :=
  if tx.txId ∈ run.appliedIds then none
  else
    match tx.payload with
    | .write key value =>
        if key = balanceKey a ∧ state.admits ⟨key, value⟩ = true then some .write else none
    | .assetTransfer source target amount =>
        match run.balances.transfer source target ⟨amount⟩ with
        | .ok _ => if a = source ∨ a = target then some .transfer else none
        | .error _ => none
    | _ => none

def payloadTouches : TransitionRun → List SymbolicTransition → List (Option Touch)
  | _, [] => []
  | run, tx :: rest => payloadTouch state a run tx :: payloadTouches (applyTransition run tx) rest

/-- The fees that are charged to the account, for each transition. -/
def chargeTouches (blockVersion : UInt32) (gasPrice : TensionValue) (balances : BalanceLedger)
    (treasury : Treasury) (transitions : List SymbolicTransition)
    (receipts : List CausalReceipt) : List (Option Touch) :=
  if receipts.isEmpty then transitions.map fun _ => none
  else feeTouches a blockVersion gasPrice { balances, treasury } (transitions.zip receipts)

/-- Both in the order of the deltas, for each transition its fee and its payload. -/
def merged (fees payloads : List (Option Touch)) : List (Option Touch) :=
  (List.zipWith (fun fee payload => [fee, payload]) fees payloads).flatten

/-- What touches it last. -/
def lastTouch : List (Option Touch) → Option Touch
  | [] => none
  | touch :: touches => (lastTouch touches).or touch

/-- The touches of an account by a block. -/
def touchesOf (balances : BalanceLedger) (treasury : Treasury)
    (transitions : List SymbolicTransition) (receipts : List CausalReceipt)
    (blockVersion : UInt32) (gasPrice : TensionValue) (settled : Settlement) :
    List (Option Touch) :=
  merged (chargeTouches a blockVersion gasPrice balances treasury transitions receipts)
    (payloadTouches state a { state, balances := settled.balances } transitions)

/-- An account that a payload touches is not charged a fee after the last of them, not
written to after a transfer, and not rewarded. -/
structure Steady (account : Hash) (reward : TensionValue) (touches : List (Option Touch)) :
    Prop where
  charged : lastTouch touches = some .fee → ∀ touch ∈ touches, touch = none ∨ touch = some .fee
  written : lastTouch touches = some .write → some .transfer ∉ touches
  rewarded : a = account → 0 < reward.raw.val → ∀ touch ∈ touches, touch = none ∨ touch = some .fee

instance decidableSteady (account : Hash) (reward : TensionValue) (touches : List (Option Touch)) :
    Decidable (Steady a account reward touches) :=
  decidable_of_iff ((lastTouch touches = some .fee →
        ∀ touch ∈ touches, touch = none ∨ touch = some .fee)
      ∧ (lastTouch touches = some .write → some .transfer ∉ touches)
      ∧ (a = account → 0 < reward.raw.val → ∀ touch ∈ touches, touch = none ∨ touch = some .fee))
    ⟨fun ⟨hcharged, hwritten, hrewarded⟩ => ⟨hcharged, hwritten, hrewarded⟩,
      fun h => ⟨h.charged, h.written, h.rewarded⟩⟩

/-- What writes leave at the entry of the account, if they are let through to it. -/
def entryWrite (writes : List StateWrite) : Option Bytes :=
  lastWrite (state.admitted writes) (balanceKey a)

end

section

variable {state : ManagedWorldState} {a : Hash}

theorem entryWrite_append (ws ws' : List StateWrite) :
    entryWrite state a (ws ++ ws') = (entryWrite state a ws').or (entryWrite state a ws) := by
  rw [entryWrite, ManagedWorldState.admitted_append, lastWrite_append]
  rfl

theorem entryWrite_of_ne {ws : List StateWrite} (h : ∀ w ∈ ws, w.address ≠ balanceKey a) :
    entryWrite state a ws = none := by
  refine lastWrite_eq_none fun w hw => ?_
  obtain ⟨w', hw', rfl⟩ := List.mem_map.mp hw
  exact h w' (List.mem_of_mem_filter hw')

theorem entryWrite_singleton {key value : Bytes} :
    entryWrite state a [⟨key, value⟩]
      = if key = balanceKey a ∧ state.admits ⟨key, value⟩ = true then some value else none := by
  unfold entryWrite ManagedWorldState.admitted
  rw [List.filter_singleton]
  rcases state.admits ⟨key, value⟩ with _ | _
  · simp [lastWrite]
  · simp [lastWrite]

/-- The encoding of a balance at an entry. -/
def balanceBytes (amount : TensionValue) : Bytes := leBytes 16 amount.raw.toBits

theorem entryWrite_balanceWrite (hlimit : balanceKeyLength ≤ state.entryLimit)
    (balances : BalanceLedger) (b : Hash) :
    entryWrite state a [balanceWrite balances b]
      = if b = a then some (balanceBytes (balances.balanceOf a)) else none := by
  have hadmits := admits_balanceWrite hlimit balances b
  by_cases hb : b = a
  · subst hb
    rw [if_pos rfl]
    exact (entryWrite_singleton).trans (if_pos ⟨rfl, hadmits⟩)
  · rw [if_neg hb]
    exact (entryWrite_singleton).trans (if_neg fun h => hb (balanceKey_inj h.1))

theorem entryWrite_treasuryStateWrites (treasury : Treasury) :
    entryWrite state a (treasuryStateWrites treasury) = none :=
  entryWrite_of_ne fun _ hw =>
    ne_of_startsWith (startsWith_of_mem_treasuryStateWrites hw) (startsWith_balanceKey a)
      (by decide)

theorem lastTouch_eq_none_iff {touches : List (Option Touch)} :
    lastTouch touches = none ↔ ∀ touch ∈ touches, touch = none := by
  induction touches with
  | nil => exact ⟨fun _ _ h => (nomatch h), fun _ => rfl⟩
  | cons touch touches ih =>
      rw [lastTouch, Option.or_eq_none_iff, ih, List.forall_mem_cons, and_comm]

theorem mem_of_lastTouch {touches : List (Option Touch)} {touch : Touch}
    (h : lastTouch touches = some touch) : some touch ∈ touches := by
  induction touches with
  | nil => cases h
  | cons head touches ih =>
      rw [lastTouch, Option.or_eq_some_iff] at h
      rcases h with h | ⟨-, h⟩
      · exact List.mem_cons_of_mem _ (ih h)
      · exact List.mem_cons.mpr (Or.inl h.symm)

/-! ## One account through a run -/

/-- A delta records what its step does to the account: nothing, or what it put at the
entry, or the balance that it left in the ledger. -/
def Attributed (state : ManagedWorldState) (a : Hash) (touch : Option Touch) (delta : StateDelta)
    (before after : TensionValue) (was is : Prop) : Prop :=
  match touch with
  | none => entryWrite state a delta.writes = none ∧ after = before ∧ (is ↔ was)
  | some .write => entryWrite state a delta.writes ≠ none ∧ after = before ∧ (is ↔ was)
  | some _ => entryWrite state a delta.writes = some (balanceBytes after) ∧ is

theorem Attributed.entryWrite_ne_none {touch : Touch} {delta : StateDelta}
    {before after : TensionValue} {was is : Prop}
    (h : Attributed state a (some touch) delta before after was is) :
    entryWrite state a delta.writes ≠ none := by
  rcases touch with _ | _ | _
  · rw [h.1]
    exact Option.some_ne_none _
  · exact h.1
  · rw [h.1]
    exact Option.some_ne_none _

/-- Step after step, with the balance of the account and whether it has changed. -/
inductive AttributedRun (state : ManagedWorldState) (a : Hash) :
    TensionValue → Prop → List (Option Touch) → List StateDelta → TensionValue → Prop → Prop
  | nil (balance : TensionValue) (changed : Prop) :
      AttributedRun state a balance changed [] [] balance changed
  | cons {before middle after : TensionValue} {was next is : Prop} {touch : Option Touch}
      {touches : List (Option Touch)} {delta : StateDelta} {deltas : List StateDelta}
      (hstep : Attributed state a touch delta before middle was next)
      (hrest : AttributedRun state a middle next touches deltas after is) :
      AttributedRun state a before was (touch :: touches) (delta :: deltas) after is

namespace AttributedRun

variable {before after : TensionValue} {was is : Prop} {touches : List (Option Touch)}
  {deltas : List StateDelta}

theorem length_eq (h : AttributedRun state a before was touches deltas after is) :
    touches.length = deltas.length := by
  induction h with
  | nil => rfl
  | cons _ _ ih => rw [List.length_cons, List.length_cons, ih]

theorem entryWrite_flatMap_cons (delta : StateDelta) (deltas : List StateDelta) :
    entryWrite state a ((delta :: deltas).flatMap (·.writes))
      = (entryWrite state a (deltas.flatMap (·.writes))).or (entryWrite state a delta.writes) := by
  rw [List.flatMap_cons, entryWrite_append]

/-- The entry is written exactly when the account is touched. -/
theorem entryWrite_eq_none_iff (h : AttributedRun state a before was touches deltas after is) :
    entryWrite state a (deltas.flatMap (·.writes)) = none ↔ ∀ touch ∈ touches, touch = none := by
  induction h with
  | nil => exact ⟨fun _ _ ht => (nomatch ht), fun _ => rfl⟩
  | cons hstep hrest ih =>
      rename_i touch _ _ _
      rw [entryWrite_flatMap_cons, Option.or_eq_none_iff, ih, List.forall_mem_cons, and_comm]
      refine and_congr_left' ?_
      rcases touch with _ | touch
      · exact iff_of_true hstep.1 rfl
      · exact iff_of_false hstep.entryWrite_ne_none (Option.some_ne_none _)

/-- Neither a fee nor a transfer: the balance is what it was. -/
theorem idle (h : AttributedRun state a before was touches deltas after is)
    (hidle : ∀ touch ∈ touches, touch = none ∨ touch = some .write) :
    after = before ∧ (is ↔ was) := by
  induction h with
  | nil => exact ⟨rfl, Iff.rfl⟩
  | cons hstep hrest ih =>
      rw [List.forall_mem_cons] at hidle
      obtain ⟨hafter, his⟩ := ih hidle.2
      rcases hidle.1 with rfl | rfl
      · exact ⟨hafter.trans hstep.2.1, his.trans hstep.2.2⟩
      · exact ⟨hafter.trans hstep.2.1, his.trans hstep.2.2⟩

theorem changed (h : AttributedRun state a before was touches deltas after is)
    (htouch : was ∨ some .fee ∈ touches ∨ some .transfer ∈ touches) : is := by
  induction h with
  | nil => simpa using htouch
  | cons hstep hrest ih =>
      rename_i touch _ _ _
      simp only [List.mem_cons] at htouch
      refine ih ?_
      rcases touch with _ | (_ | _ | _)
      · simpa [hstep.2.2] using htouch
      · exact Or.inl hstep.2
      · simpa [hstep.2.2] using htouch
      · exact Or.inl hstep.2

/-- When a fee or a transfer is the last to touch it, the balance at the end is what the
last delta records. -/
theorem entryWrite_of_last (h : AttributedRun state a before was touches deltas after is)
    {touch : Touch} (hlast : lastTouch touches = some touch) (hwrite : touch ≠ .write) :
    entryWrite state a (deltas.flatMap (·.writes)) = some (balanceBytes after) := by
  induction h with
  | nil => cases hlast
  | cons hstep hrest ih =>
      rename_i head touches _ _
      rw [entryWrite_flatMap_cons]
      rw [lastTouch] at hlast
      rcases hlater : lastTouch touches with _ | last
      · rw [hlater, Option.none_or] at hlast
        have hnone := lastTouch_eq_none_iff.mp hlater
        obtain ⟨hafter, -⟩ := hrest.idle fun t ht => Or.inl (hnone t ht)
        rw [hrest.entryWrite_eq_none_iff.mpr hnone, Option.none_or, hafter]
        subst hlast
        rcases touch with _ | _ | _
        · exact hstep.1
        · exact absurd rfl hwrite
        · exact hstep.1
      · rw [hlater, Option.some_or] at hlast
        rw [ih (hlater.trans hlast), Option.some_or]

end AttributedRun

/-! ## Merging -/

theorem merged_cons (fee payload : Option Touch) (fees payloads : List (Option Touch)) :
    merged (fee :: fees) (payload :: payloads) = fee :: payload :: merged fees payloads := rfl

theorem lastTouch_merged_cons (fee payload : Option Touch) (fees payloads : List (Option Touch)) :
    lastTouch (merged (fee :: fees) (payload :: payloads))
      = ((lastTouch (merged fees payloads)).or payload).or fee := rfl

/-- The last touch of all is the last of the fees or the last of the payloads. -/
theorem lastTouch_merged {fees payloads : List (Option Touch)}
    (hlength : fees.length = payloads.length)
    (hfees : ∀ touch ∈ fees, touch = none ∨ touch = some .fee)
    (hpayloads : ∀ touch ∈ payloads, touch ≠ some .fee) :
    (lastTouch (merged fees payloads) = none → lastTouch fees = none ∧ lastTouch payloads = none)
      ∧ (lastTouch (merged fees payloads) = some .fee → lastTouch fees = some .fee)
      ∧ ∀ touch, touch ≠ .fee → lastTouch (merged fees payloads) = some touch →
        lastTouch payloads = some touch := by
  induction fees generalizing payloads with
  | nil =>
      obtain rfl := List.eq_nil_of_length_eq_zero hlength.symm
      exact ⟨fun _ => ⟨rfl, rfl⟩, fun h => h, fun _ _ h => h⟩
  | cons fee fees ih =>
      rcases payloads with _ | ⟨payload, payloads⟩
      · cases hlength
      rw [List.forall_mem_cons] at hfees hpayloads
      obtain ⟨hnone, hfee, hpayload⟩ := ih (Nat.succ_inj.mp hlength) hfees.2 hpayloads.2
      rw [lastTouch_merged_cons, lastTouch, lastTouch]
      rcases hlast : lastTouch (merged fees payloads) with _ | last
      · obtain ⟨hf, hp⟩ := hnone hlast
        rw [hf, hp]
        simp only [Option.none_or]
        rcases payload with _ | touch
        · rw [Option.none_or]
          refine ⟨fun h => ⟨h, rfl⟩, fun h => h, fun touch hne h => ?_⟩
          rcases hfees.1 with hf | hf
          · rw [hf] at h
            cases h
          · rw [hf] at h
            exact absurd (Option.some_inj.mp h).symm hne
        · rw [Option.some_or]
          exact ⟨fun h => (nomatch h), fun h => absurd h hpayloads.1, fun _ _ h => h⟩
      · simp only [Option.some_or]
        refine ⟨fun h => (nomatch h), fun h => ?_, fun touch hne h => ?_⟩
        · rw [hfee (hlast.trans h), Option.some_or]
        · rw [hpayload touch hne (hlast.trans h), Option.some_or]

/-- What the merged deltas leave is what the fees leave where a fee comes last, and what
the payloads leave otherwise. -/
theorem entryWrite_merged {fees payloads : List (Option Touch)}
    {economics transitions : List StateDelta} {b₁ b₁' b₂ b₂' : TensionValue} {c₁ c₁' c₂ c₂' : Prop}
    (hecon : AttributedRun state a b₁ c₁ fees economics b₁' c₁')
    (htrans : AttributedRun state a b₂ c₂ payloads transitions b₂' c₂')
    (hlength : fees.length = payloads.length)
    (hfees : ∀ touch ∈ fees, touch = none ∨ touch = some .fee)
    (hpayloads : ∀ touch ∈ payloads, touch ≠ some .fee) :
    entryWrite state a ((List.zipWith mergeStateDeltas economics transitions).flatMap (·.writes))
      = if lastTouch (merged fees payloads) = some .fee then
          entryWrite state a (economics.flatMap (·.writes))
        else entryWrite state a (transitions.flatMap (·.writes)) := by
  induction hecon generalizing payloads transitions b₂ c₂ with
  | nil =>
      obtain rfl := List.eq_nil_of_length_eq_zero hlength.symm
      cases htrans
      rfl
  | cons hfee hrest ih =>
      rename_i fee fees delta economics
      cases htrans with
      | nil => cases hlength
      | cons hpayload hrest' =>
          rename_i payload payloads delta' transitions
          have hlen := Nat.succ_inj.mp hlength
          rw [List.forall_mem_cons] at hfees hpayloads
          obtain ⟨hnone, hlastFee, hlastPayload⟩ := lastTouch_merged hlen hfees.2 hpayloads.2
          rw [List.zipWith_cons_cons, AttributedRun.entryWrite_flatMap_cons,
            AttributedRun.entryWrite_flatMap_cons, AttributedRun.entryWrite_flatMap_cons,
            ih hrest' hlen hfees.2 hpayloads.2]
          have hall := lastTouch_merged_cons fee payload fees payloads
          have hboth : entryWrite state a (mergeStateDeltas delta delta').writes
              = (entryWrite state a delta'.writes).or (entryWrite state a delta.writes) :=
            entryWrite_append _ _
          rcases hlast : lastTouch (merged fees payloads) with _ | last
          · obtain ⟨hf, hp⟩ := hnone hlast
            rw [hrest.entryWrite_eq_none_iff.mpr (lastTouch_eq_none_iff.mp hf),
              hrest'.entryWrite_eq_none_iff.mpr (lastTouch_eq_none_iff.mp hp), hboth]
            rw [hlast, Option.none_or] at hall
            rcases payload with _ | touch
            · have hidle : entryWrite state a delta'.writes = none := hpayload.1
              rcases hfees.1 with rfl | rfl
              · have hfree : entryWrite state a delta.writes = none := hfee.1
                simp [hidle, hfree]
              · simp [hidle, hall]
            · obtain ⟨value, hvalue⟩ := Option.ne_none_iff_exists'.mp hpayload.entryWrite_ne_none
              rw [Option.some_or] at hall
              have hnot : touch ≠ .fee := fun h => hpayloads.1 (congrArg some h)
              simp [hvalue, hall, hnot]
          · rw [hlast, Option.some_or, Option.some_or] at hall
            by_cases heq : last = .fee
            · subst heq
              have hsome : entryWrite state a (economics.flatMap (·.writes)) ≠ none := by
                rw [Ne, hrest.entryWrite_eq_none_iff, ← lastTouch_eq_none_iff, hlastFee hlast]
                exact Option.some_ne_none _
              obtain ⟨value, hvalue⟩ := Option.ne_none_iff_exists'.mp hsome
              rw [if_pos rfl, if_pos hall, hvalue, Option.some_or, Option.some_or]
            · have hsome : entryWrite state a (transitions.flatMap (·.writes)) ≠ none := by
                rw [Ne, hrest'.entryWrite_eq_none_iff, ← lastTouch_eq_none_iff,
                  hlastPayload last heq hlast]
                exact Option.some_ne_none _
              obtain ⟨value, hvalue⟩ := Option.ne_none_iff_exists'.mp hsome
              have hnot : some last ≠ some Touch.fee := fun h => heq (Option.some_inj.mp h)
              rw [if_neg hnot, if_neg (hall ▸ hnot), hvalue, Option.some_or, Option.some_or]

/-! ## The fees -/

theorem chargeFee_txDeltas {blockVersion : UInt32} {gasPrice : TensionValue} {acc acc' : Settlement}
    {tx : SymbolicTransition} {receipt : CausalReceipt} {payer : Hash}
    (h : chargeFee blockVersion gasPrice acc (tx, receipt) = .ok acc')
    (hpayer : resolveFeePayer blockVersion acc.balances tx (receiptFee gasPrice receipt)
      = .ok payer) :
    acc'.outcome.txDeltas = acc.outcome.txDeltas ++
      [if 0 < (receiptFee gasPrice receipt).raw.val then
        ⟨balanceWrite acc'.balances payer :: treasuryStateWrites acc'.treasury, []⟩
      else default] := by
  obtain ⟨hid, hverdict, -⟩ := chargeFee_cases h
  unfold chargeFee at h
  by_cases hfee : 0 < (receiptFee gasPrice receipt).raw.val
  · rcases hdebit : acc.balances.debit payer (receiptFee gasPrice receipt) with e | balances
    · simp [hid, hverdict, hpayer, hfee, hdebit, bind, Except.bind] at h
    · simp only [hid, hverdict, hpayer, hfee, hdebit, bind, Except.bind, pure, Except.pure,
        ne_eq, not_true_eq_false, if_false, Bool.not_true, Bool.false_eq_true, if_true] at h
      cases h
      rw [if_pos hfee]
  · simp only [hid, hverdict, hpayer, hfee, bind, Except.bind, pure, Except.pure,
      ne_eq, not_true_eq_false, if_false, Bool.not_true, Bool.false_eq_true] at h
    cases h
    rw [if_neg hfee]

theorem attributed_chargeFee (hlimit : balanceKeyLength ≤ state.entryLimit) {blockVersion : UInt32}
    {gasPrice : TensionValue} {acc next : Settlement}
    {paired : SymbolicTransition × CausalReceipt}
    (h : chargeFee blockVersion gasPrice acc paired = .ok next) :
    ∃ delta, next.outcome.txDeltas = acc.outcome.txDeltas ++ [delta]
      ∧ Attributed state a (feeTouch a blockVersion gasPrice acc paired) delta
        (acc.balances.balanceOf a) (next.balances.balanceOf a) (a ∈ acc.changed)
        (a ∈ next.changed) := by
  obtain ⟨tx, receipt⟩ := paired
  obtain ⟨-, -, payer, hpayer, -, -, hcases⟩ := chargeFee_cases h
  refine ⟨_, chargeFee_txDeltas h hpayer, ?_⟩
  have htouch : feeTouch a blockVersion gasPrice acc (tx, receipt)
      = if 0 < (receiptFee gasPrice receipt).raw.val ∧ payer = a then some .fee else none := by
    unfold feeTouch
    simp only [hpayer, Except.toOption, Option.some.injEq, gt_iff_lt]
  rw [htouch]
  rcases hcases with ⟨hnone, hb, -, hc, -⟩ | ⟨hpos, hdebit, -, hc, -⟩
  · rw [if_neg (not_lt.mpr hnone), if_neg fun h => not_lt.mpr hnone h.1, hb, hc]
    exact ⟨rfl, rfl, Iff.rfl⟩
  · rw [if_pos hpos]
    have hentry : entryWrite state a (balanceWrite next.balances payer ::
        treasuryStateWrites next.treasury)
          = if payer = a then some (balanceBytes (next.balances.balanceOf a)) else none := by
      rw [← List.singleton_append, entryWrite_append, entryWrite_treasuryStateWrites,
        Option.none_or, entryWrite_balanceWrite hlimit]
    have hbalance : next.balances.balanceOf a = _ :=
      congrArg (BalanceLedger.balanceOf · a) (debit_eq_ok hdebit)
    rw [BalanceLedger.balanceOf_importBalance] at hbalance
    by_cases hmine : payer = a
    · rw [if_pos ⟨hpos, hmine⟩]
      rw [if_pos hmine] at hentry
      refine ⟨hentry, ?_⟩
      rw [hc, hmine]
      exact Std.ExtTreeSet.mem_insert_self
    · rw [if_neg fun h => hmine h.2]
      rw [if_neg hmine] at hentry hbalance
      refine ⟨hentry, hbalance, ?_⟩
      rw [hc, Std.ExtTreeSet.mem_insert]
      exact or_iff_right fun h => hmine (Std.LawfulEqCmp.eq_of_compare h)

theorem attributedRun_fees (hlimit : balanceKeyLength ≤ state.entryLimit) {blockVersion : UInt32}
    {gasPrice : TensionValue} {l : List (SymbolicTransition × CausalReceipt)}
    {acc acc' : Settlement} (h : l.foldlM (chargeFee blockVersion gasPrice) acc = .ok acc') :
    ∃ deltas, acc'.outcome.txDeltas = acc.outcome.txDeltas ++ deltas
      ∧ AttributedRun state a (acc.balances.balanceOf a) (a ∈ acc.changed)
        (feeTouches a blockVersion gasPrice acc l) deltas (acc'.balances.balanceOf a)
        (a ∈ acc'.changed) := by
  induction l generalizing acc with
  | nil =>
      cases h
      exact ⟨[], (List.append_nil _).symm, .nil _ _⟩
  | cons paired rest ih =>
      rw [List.foldlM_cons, Fallible.bind_eq_ok_iff] at h
      obtain ⟨next, hnext, hrest⟩ := h
      obtain ⟨delta, hdelta, hrecorded⟩ := attributed_chargeFee (a := a) hlimit hnext
      obtain ⟨deltas, hdeltas, hrun⟩ := ih hrest
      refine ⟨delta :: deltas, ?_, ?_⟩
      · rw [hdeltas, hdelta, List.append_assoc]
        rfl
      · rw [feeTouches, hnext]
        exact .cons hrecorded hrun

theorem feeTouches_eq {blockVersion : UInt32} {gasPrice : TensionValue} {acc : Settlement}
    {l : List (SymbolicTransition × CausalReceipt)} :
    ∀ touch ∈ feeTouches a blockVersion gasPrice acc l, touch = none ∨ touch = some .fee := by
  induction l generalizing acc with
  | nil => exact fun _ h => (nomatch h)
  | cons paired rest ih =>
      rw [feeTouches, List.forall_mem_cons]
      refine ⟨?_, ?_⟩
      · unfold feeTouch
        dsimp only
        split
        · exact Or.inr rfl
        · exact Or.inl rfl
      · split
        · exact ih
        · exact fun _ h => (nomatch h)

theorem chargeTouches_eq {blockVersion : UInt32} {gasPrice : TensionValue}
    {balances : BalanceLedger} {treasury : Treasury} {transitions : List SymbolicTransition}
    {receipts : List CausalReceipt} :
    ∀ touch ∈ chargeTouches a blockVersion gasPrice balances treasury transitions receipts,
      touch = none ∨ touch = some .fee := by
  unfold chargeTouches
  split
  · intro touch h
    obtain ⟨-, -, rfl⟩ := List.mem_map.mp h
    exact Or.inl rfl
  · exact feeTouches_eq

theorem attributedRun_charges (hlimit : balanceKeyLength ≤ state.entryLimit) {blockVersion : UInt32}
    {gasPrice : TensionValue} {balances : BalanceLedger} {treasury : Treasury}
    {transitions : List SymbolicTransition} {receipts : List CausalReceipt} {charged : Settlement}
    (h : chargeFees balances treasury transitions receipts blockVersion gasPrice = .ok charged) :
    AttributedRun state a (balances.balanceOf a) False
      (chargeTouches a blockVersion gasPrice balances treasury transitions receipts)
      charged.outcome.txDeltas (charged.balances.balanceOf a) (a ∈ charged.changed) := by
  have hempty : (a ∈ (∅ : HashSet)) = False :=
    eq_false Std.ExtTreeSet.not_mem_empty
  unfold chargeFees at h
  unfold chargeTouches
  split at h
  · cases h
  · split at h
    · rename_i hreceipts
      rw [if_pos hreceipts]
      cases h
      dsimp only
      rw [hempty]
      clear * -
      induction transitions with
      | nil => exact .nil _ _
      | cons tx rest ih => exact .cons ⟨rfl, rfl, Iff.rfl⟩ ih
    · rename_i hreceipts
      rw [if_neg hreceipts]
      obtain ⟨deltas, hdeltas, hrun⟩ := attributedRun_fees (a := a) hlimit h
      dsimp only at hdeltas hrun
      rw [hempty] at hrun
      rw [hdeltas]
      exact hrun

/-- What the fees of a block leave at the entry. -/
theorem entryWrite_charges (hlimit : balanceKeyLength ≤ state.entryLimit) {blockVersion : UInt32}
    {gasPrice : TensionValue} {balances : BalanceLedger} {treasury : Treasury}
    {transitions : List SymbolicTransition} {receipts : List CausalReceipt} {charged : Settlement}
    (h : chargeFees balances treasury transitions receipts blockVersion gasPrice = .ok charged) :
    entryWrite state a (charged.outcome.txDeltas.flatMap (·.writes))
      = if a ∈ charged.changed then some (balanceBytes (charged.balances.balanceOf a))
        else none := by
  have hrun := @attributedRun_charges state a hlimit _ _ _ _ _ _ _ h
  rcases hlast : lastTouch (chargeTouches a blockVersion gasPrice balances treasury transitions
    receipts) with _ | touch
  · have hnone := lastTouch_eq_none_iff.mp hlast
    obtain ⟨-, hchanged⟩ := hrun.idle fun t ht => Or.inl (hnone t ht)
    rw [hrun.entryWrite_eq_none_iff.mpr hnone, if_neg hchanged.mp]
  · have hmem := mem_of_lastTouch hlast
    obtain rfl : touch = .fee :=
      Option.some_inj.mp ((chargeTouches_eq _ hmem).resolve_left (Option.some_ne_none _))
    rw [hrun.entryWrite_of_last hlast (fun h => nomatch h),
      if_pos (hrun.changed (Or.inr (Or.inl hmem)))]

/-! ## The payloads -/

/-- What a payload writes by itself. -/
def ownWrites (seen : HashSet) (tx : SymbolicTransition) : List StateWrite :=
  if tx.txId ∈ seen then []
  else
    match tx.payload with
    | .write key value => [⟨key, value⟩]
    | _ => []

theorem payloadWrites_cons (run : TransitionRun) (tx : SymbolicTransition)
    (rest : List SymbolicTransition) :
    payloadWrites run.appliedIds (tx :: rest)
      = ownWrites run.appliedIds tx ++ payloadWrites (applyTransition run tx).appliedIds rest := by
  rw [payloadWrites, ownWrites, applyTransition]
  by_cases hseen : tx.txId ∈ run.appliedIds
  · rw [if_pos hseen, if_pos hseen, if_pos hseen]
    rfl
  · rw [if_neg hseen, if_neg hseen, if_neg hseen]
    cases tx.payload with
    | assetTransfer source target amount =>
        dsimp only
        rcases run.balances.transfer source target ⟨amount⟩ with _ | _
        · rfl
        · rfl
    | _ => rfl

theorem entryWrite_transfer (hlimit : balanceKeyLength ≤ state.entryLimit)
    (balances : BalanceLedger) (source target : Hash) :
    entryWrite state a [balanceWrite balances source, balanceWrite balances target]
      = if a = source ∨ a = target then some (balanceBytes (balances.balanceOf a)) else none := by
  rw [show [balanceWrite balances source, balanceWrite balances target]
    = [balanceWrite balances source] ++ [balanceWrite balances target] from rfl,
    entryWrite_append, entryWrite_balanceWrite hlimit, entryWrite_balanceWrite hlimit]
  by_cases htarget : target = a
  · rw [if_pos htarget, if_pos (Or.inr htarget.symm), Option.some_or]
  · rw [if_neg htarget, Option.none_or]
    refine if_congr ?_ rfl rfl
    exact ⟨fun h => Or.inl h.symm, fun h => (h.resolve_right (Ne.symm htarget)).symm⟩

theorem balanceOf_transfer_of_ne {balances balances' : BalanceLedger} {source target : AgentId}
    {amount : TensionValue} (h : balances.transfer source target amount = .ok balances')
    (hsource : a ≠ source) (htarget : a ≠ target) :
    balances'.balanceOf a = balances.balanceOf a := by
  obtain ⟨v, w, rfl⟩ := transfer_eq_ok h
  rw [BalanceLedger.balanceOf_importBalance, if_neg (Ne.symm htarget),
    BalanceLedger.balanceOf_importBalance, if_neg (Ne.symm hsource)]

theorem attributed_applyTransition (hlimit : balanceKeyLength ≤ state.entryLimit)
    (run : TransitionRun) (tx : SymbolicTransition) :
    ∃ delta, (applyTransition run tx).deltas = run.deltas ++ [delta]
      ∧ Attributed state a (payloadTouch state a run tx) delta (run.balances.balanceOf a)
        ((applyTransition run tx).balances.balanceOf a) (a ∈ run.changed)
        (a ∈ (applyTransition run tx).changed)
      ∧ (payloadTouch state a run tx ≠ some .transfer →
        entryWrite state a delta.writes = entryWrite state a (ownWrites run.appliedIds tx)) := by
  have hidle : Attributed state a none default (run.balances.balanceOf a) (run.balances.balanceOf a)
      (a ∈ run.changed) (a ∈ run.changed) := ⟨rfl, rfl, Iff.rfl⟩
  rw [applyTransition, payloadTouch, ownWrites]
  by_cases hseen : tx.txId ∈ run.appliedIds
  · rw [if_pos hseen, if_pos hseen, if_pos hseen]
    exact ⟨default, rfl, hidle, fun _ => rfl⟩
  · rw [if_neg hseen, if_neg hseen, if_neg hseen]
    cases tx.payload with
    | write key value =>
        refine ⟨_, rfl, ?_, fun _ => rfl⟩
        dsimp only
        split
        · rename_i hown
          refine ⟨?_, rfl, Iff.rfl⟩
          rw [entryWrite_singleton, if_pos hown]
          exact Option.some_ne_none _
        · rename_i hother
          refine ⟨?_, rfl, Iff.rfl⟩
          rw [entryWrite_singleton, if_neg hother]
    | assetTransfer source target amount =>
        dsimp only
        rcases htransfer : run.balances.transfer source target ⟨amount⟩ with e | balances
        · exact ⟨default, rfl, hidle, fun _ => rfl⟩
        · have hentry := @entryWrite_transfer state a hlimit balances source target
          refine ⟨_, rfl, ?_⟩
          dsimp only
          by_cases hmine : a = source ∨ a = target
          · rw [if_pos hmine] at hentry ⊢
            refine ⟨⟨hentry, ?_⟩, fun hne => absurd rfl hne⟩
            rcases hmine with rfl | rfl
            · exact Std.ExtTreeSet.mem_insert.mpr (Or.inr Std.ExtTreeSet.mem_insert_self)
            · exact Std.ExtTreeSet.mem_insert_self
          · rw [if_neg hmine] at hentry ⊢
            rw [not_or] at hmine
            refine ⟨⟨hentry, balanceOf_transfer_of_ne htransfer hmine.1 hmine.2, ?_⟩,
              fun _ => hentry⟩
            rw [Std.ExtTreeSet.mem_insert, Std.ExtTreeSet.mem_insert]
            constructor
            · rintro (h | h | h)
              · exact absurd (Std.LawfulEqCmp.eq_of_compare h).symm hmine.2
              · exact absurd (Std.LawfulEqCmp.eq_of_compare h).symm hmine.1
              · exact h
            · exact fun h => Or.inr (Or.inr h)
    | _ => exact ⟨default, rfl, hidle, fun _ => rfl⟩

theorem attributedRun_payloads (hlimit : balanceKeyLength ≤ state.entryLimit)
    (transitions : List SymbolicTransition) (run : TransitionRun) :
    ∃ deltas, (transitions.foldl applyTransition run).deltas = run.deltas ++ deltas
      ∧ AttributedRun state a (run.balances.balanceOf a) (a ∈ run.changed)
        (payloadTouches state a run transitions) deltas
        ((transitions.foldl applyTransition run).balances.balanceOf a)
        (a ∈ (transitions.foldl applyTransition run).changed)
      ∧ (some .transfer ∉ payloadTouches state a run transitions →
        entryWrite state a (deltas.flatMap (·.writes))
          = entryWrite state a (payloadWrites run.appliedIds transitions)) := by
  induction transitions generalizing run with
  | nil => exact ⟨[], (List.append_nil _).symm, .nil _ _, fun _ => rfl⟩
  | cons tx rest ih =>
      obtain ⟨delta, hdelta, hrecorded, hown⟩ := attributed_applyTransition (a := a) hlimit run tx
      obtain ⟨deltas, hdeltas, hrun, hwrites⟩ := ih (applyTransition run tx)
      refine ⟨delta :: deltas, ?_, .cons hrecorded hrun, fun hnone => ?_⟩
      · rw [List.foldl_cons, hdeltas, hdelta, List.append_assoc]
        rfl
      · rw [payloadTouches, List.mem_cons, not_or] at hnone
        rw [AttributedRun.entryWrite_flatMap_cons, hown (Ne.symm hnone.1), hwrites hnone.2,
          payloadWrites_cons, entryWrite_append]

theorem payloadTouches_ne (run : TransitionRun) (transitions : List SymbolicTransition) :
    ∀ touch ∈ payloadTouches state a run transitions, touch ≠ some .fee := by
  induction transitions generalizing run with
  | nil => exact fun _ h => (nomatch h)
  | cons tx rest ih =>
      rw [payloadTouches, List.forall_mem_cons]
      refine ⟨?_, ih _⟩
      unfold payloadTouch
      split
      · exact fun h => (nomatch h)
      · split
        · split <;> exact fun h => (nomatch h)
        · split
          · split <;> exact fun h => (nomatch h)
          · exact fun h => (nomatch h)
        · exact fun h => (nomatch h)

theorem length_payloadTouches (run : TransitionRun) (transitions : List SymbolicTransition) :
    (payloadTouches state a run transitions).length = transitions.length := by
  induction transitions generalizing run with
  | nil => rfl
  | cons tx rest ih => exact congrArg Nat.succ (ih _)

/-! ## What the trie holds -/

theorem entryWrite_accountWrites (hlimit : balanceKeyLength ≤ state.entryLimit)
    (balances : BalanceLedger) (changed : HashSet) :
    entryWrite state a (accountWrites balances changed)
      = if a ∈ changed then some (balanceBytes (balances.balanceOf a)) else none := by
  have hlist : ∀ accounts : List Hash, entryWrite state a (accounts.map (balanceWrite balances))
      = if a ∈ accounts then some (balanceBytes (balances.balanceOf a)) else none := by
    intro accounts
    induction accounts with
    | nil => rfl
    | cons b accounts ih =>
        rw [List.map_cons, ← List.singleton_append, entryWrite_append, ih,
          entryWrite_balanceWrite hlimit]
        by_cases hin : a ∈ accounts
        · rw [if_pos hin, if_pos (List.mem_cons_of_mem _ hin), Option.some_or]
        · rw [if_neg hin, Option.none_or]
          refine if_congr ?_ rfl rfl
          rw [List.mem_cons, or_iff_left hin, eq_comm]
  rw [accountWrites, hlist]
  exact if_congr Std.ExtTreeSet.mem_toList rfl rfl

theorem get_writeAll_entry (ws : List StateWrite) :
    (state.writeAll ws).get (balanceKey a)
      = (entryWrite state a ws).or (state.get (balanceKey a)) :=
  get_writeAll _ _ _

/-- After the economics. -/
theorem get_commitSettlement (hlimit : balanceKeyLength ≤ state.entryLimit) (acc : Settlement) :
    (commitSettlement state acc).get (balanceKey a)
      = if a ∈ acc.changed then some (balanceBytes (acc.balances.balanceOf a))
        else state.get (balanceKey a) := by
  have htreasury : ∀ ws : List StateWrite, (ws = treasuryStateWrites acc.treasury ∨ ws = []) →
      entryWrite state a ws = none := by
    rintro ws (rfl | rfl)
    · exact entryWrite_treasuryStateWrites _
    · rfl
  rw [commitSettlement_eq, get_writeAll_entry, settlementWrites, entryWrite_append,
    htreasury _ (by split; exacts [Or.inl rfl, Or.inr rfl]), Option.none_or,
    entryWrite_accountWrites hlimit]
  split <;> rfl

/-- After the payloads as well. -/
theorem get_applyBlockTransitions (hlimit : balanceKeyLength ≤ state.entryLimit)
    (acc : Settlement) (transitions : List SymbolicTransition) :
    (applyBlockTransitions (commitSettlement state acc) acc.balances transitions).1.get
        (balanceKey a)
      = if a ∈ (transitions.foldl applyTransition { state, balances := acc.balances }).changed then
          some (balanceBytes ((transitions.foldl applyTransition
            { state, balances := acc.balances }).balances.balanceOf a))
        else (entryWrite state a (payloadWrites ∅ transitions)).or
          ((commitSettlement state acc).get (balanceKey a)) := by
  rw [commitSettlement_eq, applyBlockTransitions_writeAll]
  dsimp only
  rw [get_writeAll_entry, get_writeAll_entry, entryWrite_append, entryWrite_append,
    entryWrite_accountWrites hlimit]
  split
  · rfl
  · rw [Option.none_or, Option.or_assoc]

/-! ## Reading the deltas -/

/-- The deltas laid over a state, in order. -/
def foldDeltas (state : ManagedWorldState) (deltas : List StateDelta) : ManagedWorldState :=
  deltas.foldl ManagedWorldState.applyDelta state

def entryBalance (state : ManagedWorldState) (account : Hash) : TensionValue :=
  ((state.get (balanceKey account)).map decodeBalance).getD .zero

/-- A reward added to what a state holds for its account. -/
def addReward (account : Hash) (reward : TensionValue) (state : ManagedWorldState) :
    ManagedWorldState :=
  if reward.raw.val > 0 then
    state.applyDelta
      ⟨[⟨balanceKey account, balanceBytes (entryBalance state account + reward)⟩], []⟩
  else state

theorem foldDeltas_eq {deltas : List StateDelta} (h : ∀ delta ∈ deltas, delta.deletes = []) :
    foldDeltas state deltas = state.writeAll (deltas.flatMap (·.writes)) := by
  induction deltas generalizing state with
  | nil => rfl
  | cons delta deltas ih =>
      rw [List.forall_mem_cons] at h
      obtain ⟨writes, deletes⟩ := delta
      obtain rfl : deletes = [] := h.1
      show foldDeltas (state.applyDelta ⟨writes, []⟩) deltas = _
      rw [ih h.2, ManagedWorldState.applyDelta_writes, ManagedWorldState.writeAll_writeAll,
        List.flatMap_cons]

/-- One delta for each transition, and it deletes nothing. -/
theorem foldlM_chargeFee_deltas {blockVersion : UInt32} {gasPrice : TensionValue}
    {l : List (SymbolicTransition × CausalReceipt)} {acc acc' : Settlement}
    (h : l.foldlM (chargeFee blockVersion gasPrice) acc = .ok acc') :
    ∃ deltas, acc'.outcome.txDeltas = acc.outcome.txDeltas ++ deltas ∧ deltas.length = l.length
      ∧ ∀ delta ∈ deltas, delta.deletes = [] := by
  induction l generalizing acc with
  | nil =>
      cases h
      exact ⟨[], (List.append_nil _).symm, rfl, fun _ hd => (nomatch hd)⟩
  | cons paired rest ih =>
      obtain ⟨tx, receipt⟩ := paired
      rw [List.foldlM_cons, Fallible.bind_eq_ok_iff] at h
      obtain ⟨next, hnext, hrest⟩ := h
      obtain ⟨deltas, hdeltas, hlength, hdeletes⟩ := ih hrest
      obtain ⟨-, -, payer, hpayer, -⟩ := chargeFee_cases hnext
      rw [chargeFee_txDeltas hnext hpayer, List.append_assoc] at hdeltas
      refine ⟨_, hdeltas, congrArg Nat.succ hlength, List.forall_mem_cons.mpr ⟨?_, hdeletes⟩⟩
      split <;> rfl

theorem chargeFees_deltas {balances : BalanceLedger} {treasury : Treasury}
    {transitions : List SymbolicTransition} {receipts : List CausalReceipt} {blockVersion : UInt32}
    {gasPrice : TensionValue} {charged : Settlement}
    (h : chargeFees balances treasury transitions receipts blockVersion gasPrice = .ok charged) :
    charged.outcome.txDeltas.length = transitions.length
      ∧ ∀ delta ∈ charged.outcome.txDeltas, delta.deletes = [] := by
  unfold chargeFees at h
  split at h
  · cases h
  · rename_i hcount
    split at h
    · cases h
      refine ⟨List.length_map _, fun delta hdelta => ?_⟩
      obtain ⟨-, -, rfl⟩ := List.mem_map.mp hdelta
      rfl
    · rename_i hnonempty
      have hlen : receipts.length = transitions.length := by simpa [hnonempty] using hcount
      obtain ⟨deltas, hdeltas, hlength, hdeletes⟩ := foldlM_chargeFee_deltas h
      rw [List.length_zip, hlen, min_self] at hlength
      obtain rfl : charged.outcome.txDeltas = deltas := hdeltas
      exact ⟨hlength, hdeletes⟩

theorem foldl_applyTransition_deltas (transitions : List SymbolicTransition)
    (run : TransitionRun) :
    ∃ deltas, (transitions.foldl applyTransition run).deltas = run.deltas ++ deltas
      ∧ deltas.length = transitions.length ∧ ∀ delta ∈ deltas, delta.deletes = [] := by
  induction transitions generalizing run with
  | nil => exact ⟨[], (List.append_nil _).symm, rfl, fun _ hd => (nomatch hd)⟩
  | cons tx rest ih =>
      have hone : ∃ delta : StateDelta, (applyTransition run tx).deltas = run.deltas ++ [delta]
          ∧ delta.deletes = [] := by
        unfold applyTransition
        split
        · exact ⟨default, rfl, rfl⟩
        · dsimp only
          split
          · exact ⟨_, rfl, rfl⟩
          · split
            · exact ⟨_, rfl, rfl⟩
            · exact ⟨default, rfl, rfl⟩
          · exact ⟨default, rfl, rfl⟩
      obtain ⟨delta, hdelta, hdelete⟩ := hone
      obtain ⟨deltas, hdeltas, hlength, hdeletes⟩ := ih (applyTransition run tx)
      refine ⟨delta :: deltas, ?_, congrArg Nat.succ hlength,
        List.forall_mem_cons.mpr ⟨hdelete, hdeletes⟩⟩
      rw [List.foldl_cons, hdeltas, hdelta, List.append_assoc]
      rfl

theorem entryWrite_of_limit (hlimit : state.entryLimit < balanceKeyLength)
    (ws : List StateWrite) : entryWrite state a ws = none := by
  refine lastWrite_eq_none fun w hw hkey => ?_
  obtain ⟨w', hw', rfl⟩ := List.mem_map.mp hw
  have hadmits := (List.mem_filter.mp hw').2
  simp only [ManagedWorldState.admits, Bool.and_eq_true, decide_eq_true_eq] at hadmits
  have hkey : w'.address = balanceKey a := hkey
  rw [hkey, balanceKey_length] at hadmits
  exact absurd hadmits.1 (not_le.mpr hlimit)

/-! ## Who is told the truth -/

/-- The reward as it is booked. -/
theorem payReward_cases (account : Hash) (requestedReward : TensionValue) (acc : Settlement) :
    (payReward account requestedReward acc).outcome.txDeltas = acc.outcome.txDeltas
      ∧ (0 < (payReward account requestedReward acc).outcome.actualReward.raw.val →
          (payReward account requestedReward acc).balances = acc.balances.importBalance account
              (acc.balances.balanceOf account
                + (payReward account requestedReward acc).outcome.actualReward)
            ∧ (payReward account requestedReward acc).changed = acc.changed.insert account)
      ∧ (¬ 0 < (payReward account requestedReward acc).outcome.actualReward.raw.val →
          (payReward account requestedReward acc).balances = acc.balances
            ∧ (payReward account requestedReward acc).changed = acc.changed) := by
  unfold payReward
  dsimp only
  split
  · rename_i hpos
    exact ⟨rfl, fun _ => ⟨rfl, rfl⟩, fun hnot => absurd hpos hnot⟩
  · rename_i hnot
    exact ⟨rfl, fun hpos => absurd hpos hnot, fun _ => ⟨rfl, rfl⟩⟩

/-- What the deltas and the reward leave at the entry of an account. -/
theorem get_addReward (hlimit : balanceKeyLength ≤ state.entryLimit) (account : Hash)
    (reward : TensionValue) (ws : List StateWrite) :
    (addReward account reward (state.writeAll ws)).get (balanceKey a)
      = if a = account ∧ 0 < reward.raw.val then
          some (balanceBytes (entryBalance (state.writeAll ws) account + reward))
        else (state.writeAll ws).get (balanceKey a) := by
  unfold addReward
  by_cases hpos : 0 < reward.raw.val
  · have hadmits : state.admits ⟨balanceKey account,
        balanceBytes (entryBalance (state.writeAll ws) account + reward)⟩ = true := by
      refine admits_of_length hlimit (balanceKey_length account).le ?_
      dsimp only
      rw [balanceBytes, length_leBytes]
      decide
    rw [if_pos hpos, ManagedWorldState.applyDelta_writes, ManagedWorldState.writeAll_writeAll,
      get_writeAll_entry, entryWrite_append, entryWrite_singleton, Option.or_assoc,
      ← get_writeAll_entry]
    by_cases hmine : a = account
    · subst hmine
      rw [if_pos ⟨rfl, hadmits⟩, if_pos ⟨rfl, hpos⟩]
      rfl
    · rw [if_neg fun h => hmine (balanceKey_inj h.1).symm, if_neg fun h => hmine h.1]
      rfl
  · rw [if_neg hpos, if_neg fun h => hpos h.2]

/-- No balance is written when the keys are too long to be let through. -/
theorem get_addReward_of_limit (hlimit : state.entryLimit < balanceKeyLength) (account : Hash)
    (reward : TensionValue) (ws : List StateWrite) :
    (addReward account reward (state.writeAll ws)).get (balanceKey a)
      = state.get (balanceKey a) := by
  unfold addReward
  split
  · rw [ManagedWorldState.applyDelta_writes, ManagedWorldState.writeAll_writeAll,
      get_writeAll_entry, entryWrite_of_limit hlimit, Option.none_or]
  · rw [get_writeAll_entry, entryWrite_of_limit hlimit, Option.none_or]

/-- Where the deltas leave what the fees leave, deltas and reward give what the
economics wrote. -/
theorem get_addReward_of_fees (hlimit : balanceKeyLength ≤ state.entryLimit)
    {blockVersion : UInt32} {gasPrice requestedReward : TensionValue} {balances : BalanceLedger}
    {treasury : Treasury} {transitions : List SymbolicTransition} {receipts : List CausalReceipt}
    {charged : Settlement} {account : Hash} {ws : List StateWrite}
    (h : chargeFees balances treasury transitions receipts blockVersion gasPrice = .ok charged)
    (hledger : entryBalance state account = balances.balanceOf account)
    (hws : entryWrite state a ws
      = entryWrite state a (charged.outcome.txDeltas.flatMap (·.writes))) :
    (addReward account (payReward account requestedReward charged).outcome.actualReward
        (state.writeAll ws)).get (balanceKey a)
      = (commitSettlement state (payReward account requestedReward charged)).get
        (balanceKey a) := by
  obtain ⟨-, hpaid, hidle⟩ := payReward_cases account requestedReward charged
  rw [entryWrite_charges hlimit h] at hws
  rw [get_addReward hlimit, get_commitSettlement hlimit]
  by_cases hpos : 0 < (payReward account requestedReward charged).outcome.actualReward.raw.val
  · obtain ⟨hb, hc⟩ := hpaid hpos
    rw [hb, hc, BalanceLedger.balanceOf_importBalance]
    by_cases hmine : a = account
    · subst hmine
      rw [if_pos ⟨rfl, hpos⟩, if_pos Std.ExtTreeSet.mem_insert_self, if_pos rfl]
      have hheld : entryBalance (state.writeAll ws) a = charged.balances.balanceOf a := by
        rw [entryBalance, get_writeAll_entry, hws]
        split
        · exact decodeBalance_leBytes _
        · rename_i hunchanged
          rw [Option.none_or]
          refine hledger.trans ?_
          unfold BalanceLedger.balanceOf
          rw [(settles_chargeFees h).covers.same a hunchanged]
      rw [hheld]
    · have hinsert : a ∈ charged.changed.insert account ↔ a ∈ charged.changed := by
        rw [Std.ExtTreeSet.mem_insert]
        exact or_iff_right fun h => hmine (Std.LawfulEqCmp.eq_of_compare h).symm
      rw [if_neg fun h => hmine h.1, get_writeAll_entry, hws, if_neg (Ne.symm hmine)]
      by_cases hchanged : a ∈ charged.changed
      · rw [if_pos hchanged, if_pos (hinsert.mpr hchanged), Option.some_or]
      · rw [if_neg hchanged, if_neg fun h => hchanged (hinsert.mp h), Option.none_or]
  · obtain ⟨hb, hc⟩ := hidle hpos
    rw [if_neg fun h => hpos h.2, hb, hc, get_writeAll_entry, hws]
    split
    · exact Option.some_or
    · exact Option.none_or

/-- Payloads that do not touch an account leave its entry to the economics. -/
theorem get_applyBlockTransitions_of_idle (hlimit : balanceKeyLength ≤ state.entryLimit)
    (acc : Settlement) {transitions : List SymbolicTransition}
    (hidle : ∀ touch ∈ payloadTouches state a { state, balances := acc.balances } transitions,
      touch = none) :
    (applyBlockTransitions (commitSettlement state acc) acc.balances transitions).1.get
        (balanceKey a)
      = (commitSettlement state acc).get (balanceKey a) := by
  obtain ⟨deltas, -, hrun, hwrites⟩ := @attributedRun_payloads state a hlimit
    transitions { state, balances := acc.balances }
  have hchanged := (hrun.idle fun touch ht => Or.inl (hidle touch ht)).2.not.mpr
    Std.ExtTreeSet.not_mem_empty
  have hnone := hrun.entryWrite_eq_none_iff.mpr hidle
  rw [hwrites fun ht => Option.some_ne_none _ (hidle _ ht)] at hnone
  rw [get_applyBlockTransitions hlimit, if_neg hchanged, hnone, Option.none_or]

/-- A payload that comes last, and is not a write after a transfer, left what the block
leaves. -/
theorem get_applyBlockTransitions_of_last (hlimit : balanceKeyLength ≤ state.entryLimit)
    (acc : Settlement) {transitions : List SymbolicTransition} {deltas : List StateDelta}
    (hdeltas : (transitions.foldl applyTransition { state, balances := acc.balances }).deltas
      = deltas)
    {touch : Touch}
    (hlast : lastTouch (payloadTouches state a { state, balances := acc.balances } transitions)
      = some touch)
    (hwrite : touch = .write →
      some .transfer ∉ payloadTouches state a { state, balances := acc.balances } transitions) :
    (applyBlockTransitions (commitSettlement state acc) acc.balances transitions).1.get
        (balanceKey a)
      = (entryWrite state a (deltas.flatMap (·.writes))).or (state.get (balanceKey a)) := by
  obtain ⟨deltas', hdeltas', hrun, hwrites⟩ := @attributedRun_payloads state a hlimit
    transitions { state, balances := acc.balances }
  obtain rfl : deltas' = deltas := hdeltas'.symm.trans hdeltas
  have hmem := mem_of_lastTouch hlast
  have hno := @payloadTouches_ne state a { state, balances := acc.balances }
    transitions
  rw [get_applyBlockTransitions hlimit]
  rcases touch with _ | _ | _
  · exact absurd rfl (hno _ hmem)
  · have hnone := hwrite rfl
    have hchanged := (hrun.idle fun touch ht => by
      rcases touch with _ | (_ | _ | _)
      · exact Or.inl rfl
      · exact absurd rfl (hno _ ht)
      · exact Or.inr rfl
      · exact absurd ht hnone).2.not.mpr Std.ExtTreeSet.not_mem_empty
    have hsome : entryWrite state a (deltas'.flatMap (·.writes)) ≠ none := by
      rw [Ne, hrun.entryWrite_eq_none_iff]
      exact fun h => Option.some_ne_none _ (h _ hmem)
    obtain ⟨value, hvalue⟩ := Option.ne_none_iff_exists'.mp hsome
    have hown := hwrites hnone
    rw [hvalue] at hown
    rw [if_neg hchanged, hvalue, ← hown, Option.some_or, Option.some_or]
  · rw [if_pos (hrun.changed (Or.inr (Or.inr hmem))),
      hrun.entryWrite_of_last hlast (fun h => nomatch h), Option.some_or]

theorem mem_merged {fees payloads : List (Option Touch)} (hlength : fees.length = payloads.length)
    {touch : Option Touch} (h : touch ∈ payloads) : touch ∈ merged fees payloads := by
  induction fees generalizing payloads with
  | nil =>
      obtain rfl := List.eq_nil_of_length_eq_zero hlength.symm
      cases h
  | cons fee fees ih =>
      rcases payloads with _ | ⟨payload, payloads⟩
      · cases h
      rw [merged_cons, List.mem_cons, List.mem_cons]
      rcases List.mem_cons.mp h with h | h
      · exact Or.inr (Or.inl h)
      · exact Or.inr (Or.inr (ih (Nat.succ_inj.mp hlength) h))

theorem length_chargeTouches (hlimit : balanceKeyLength ≤ state.entryLimit)
    {blockVersion : UInt32} {gasPrice : TensionValue} {balances : BalanceLedger}
    {treasury : Treasury} {transitions : List SymbolicTransition} {receipts : List CausalReceipt}
    {charged : Settlement}
    (hcharged : chargeFees balances treasury transitions receipts blockVersion gasPrice
      = .ok charged) (acc : Settlement) :
    (chargeTouches a blockVersion gasPrice balances treasury transitions receipts).length
      = (payloadTouches state a { state, balances := acc.balances } transitions).length := by
  rw [(attributedRun_charges (a := a) hlimit hcharged).length_eq, (chargeFees_deltas hcharged).1,
    length_payloadTouches]

/-- What the deltas of a block leave at an entry. -/
theorem entryWrite_deltas (hlimit : balanceKeyLength ≤ state.entryLimit)
    {blockVersion : UInt32} {gasPrice : TensionValue} {balances : BalanceLedger}
    {treasury : Treasury} {transitions : List SymbolicTransition} {receipts : List CausalReceipt}
    {charged acc : Settlement} {deltas : List StateDelta}
    (hcharged : chargeFees balances treasury transitions receipts blockVersion gasPrice
      = .ok charged)
    (hdeltas : (transitions.foldl applyTransition { state, balances := acc.balances }).deltas
      = deltas) :
    entryWrite state a
        ((List.zipWith mergeStateDeltas charged.outcome.txDeltas deltas).flatMap (·.writes))
      = if lastTouch (touchesOf state a balances treasury transitions receipts blockVersion
          gasPrice acc) = some .fee then
        entryWrite state a (charged.outcome.txDeltas.flatMap (·.writes))
      else entryWrite state a (deltas.flatMap (·.writes)) := by
  obtain ⟨deltas', hdeltas', hrun, -⟩ := @attributedRun_payloads state a hlimit
    transitions { state, balances := acc.balances }
  obtain rfl : deltas' = deltas := hdeltas'.symm.trans hdeltas
  exact entryWrite_merged (attributedRun_charges hlimit hcharged) hrun
    (length_chargeTouches hlimit hcharged acc) chargeTouches_eq (payloadTouches_ne _ _)

/-- Where no payload comes last, deltas and reward give what the economics wrote. -/
theorem get_addReward_of_deltas (hlimit : balanceKeyLength ≤ state.entryLimit)
    {blockVersion : UInt32} {gasPrice requestedReward : TensionValue} {balances : BalanceLedger}
    {treasury : Treasury} {transitions : List SymbolicTransition} {receipts : List CausalReceipt}
    {charged acc : Settlement} {account : Hash} {deltas : List StateDelta}
    (hcharged : chargeFees balances treasury transitions receipts blockVersion gasPrice
      = .ok charged)
    (hledger : entryBalance state account = balances.balanceOf account)
    (hpaid : payReward account requestedReward charged = acc)
    (hdeltas : (transitions.foldl applyTransition { state, balances := acc.balances }).deltas
      = deltas)
    (hlast : lastTouch (touchesOf state a balances treasury transitions receipts blockVersion
        gasPrice acc) = none
      ∨ lastTouch (touchesOf state a balances treasury transitions receipts blockVersion
        gasPrice acc) = some .fee) :
    (addReward account acc.outcome.actualReward (state.writeAll
        ((List.zipWith mergeStateDeltas charged.outcome.txDeltas deltas).flatMap
          (·.writes)))).get (balanceKey a)
      = (commitSettlement state acc).get (balanceKey a) := by
  rw [← hpaid]
  refine get_addReward_of_fees hlimit hcharged hledger ?_
  rw [entryWrite_deltas hlimit hcharged hdeltas]
  rcases hlast with hlast | hlast
  · obtain ⟨hfees, hpayloads⟩ := (lastTouch_merged (length_chargeTouches hlimit hcharged _)
      chargeTouches_eq (payloadTouches_ne _ _)).1 hlast
    obtain ⟨deltas', hdeltas', hrun, -⟩ := @attributedRun_payloads state a hlimit
      transitions { state, balances := acc.balances }
    obtain rfl : deltas' = deltas := hdeltas'.symm.trans hdeltas
    rw [if_neg (by rw [hlast]; exact fun h => nomatch h),
      hrun.entryWrite_eq_none_iff.mpr (lastTouch_eq_none_iff.mp hpayloads),
      (attributedRun_charges hlimit hcharged).entryWrite_eq_none_iff.mpr
        (lastTouch_eq_none_iff.mp hfees)]
  · rw [if_pos hlast]

/-- Deltas and reward leave a steady account as the block leaves it. -/
theorem get_addReward_of_steady (hlimit : balanceKeyLength ≤ state.entryLimit)
    {blockVersion : UInt32} {gasPrice requestedReward : TensionValue} {balances : BalanceLedger}
    {treasury : Treasury} {transitions : List SymbolicTransition} {receipts : List CausalReceipt}
    {charged acc : Settlement} {account : Hash} {deltas : List StateDelta}
    (hcharged : chargeFees balances treasury transitions receipts blockVersion gasPrice
      = .ok charged)
    (hledger : entryBalance state account = balances.balanceOf account)
    (hpaid : payReward account requestedReward charged = acc)
    (hdeltas : (transitions.foldl applyTransition { state, balances := acc.balances }).deltas
      = deltas)
    (hsteady : Steady a account acc.outcome.actualReward (touchesOf state a balances treasury
      transitions receipts blockVersion gasPrice acc)) :
    (addReward account acc.outcome.actualReward (state.writeAll
        ((List.zipWith mergeStateDeltas charged.outcome.txDeltas deltas).flatMap
          (·.writes)))).get (balanceKey a)
      = (applyBlockTransitions (commitSettlement state acc) acc.balances transitions).1.get
        (balanceKey a) := by
  have hlengths := length_chargeTouches (a := a) hlimit hcharged acc
  have hmem : ∀ touch ∈ payloadTouches state a { state, balances := acc.balances } transitions,
      touch ∈ touchesOf state a balances treasury transitions receipts blockVersion gasPrice acc :=
    fun touch ht => mem_merged hlengths ht
  -- an account that only fees touch
  have hidle : (∀ touch ∈ touchesOf state a balances treasury transitions receipts blockVersion
      gasPrice acc, touch = none ∨ touch = some .fee) →
      (applyBlockTransitions (commitSettlement state acc) acc.balances transitions).1.get
          (balanceKey a)
        = (commitSettlement state acc).get (balanceKey a) := fun honly =>
    get_applyBlockTransitions_of_idle hlimit acc fun touch ht =>
      (honly touch (hmem touch ht)).resolve_right (payloadTouches_ne _ _ touch ht)
  rcases hlast : lastTouch (touchesOf state a balances treasury transitions receipts blockVersion
    gasPrice acc) with _ | touch
  · rw [get_addReward_of_deltas hlimit hcharged hledger hpaid hdeltas (Or.inl hlast),
      hidle fun touch ht => Or.inl (lastTouch_eq_none_iff.mp hlast touch ht)]
  · by_cases hfee : touch = .fee
    · subst hfee
      rw [get_addReward_of_deltas hlimit hcharged hledger hpaid hdeltas (Or.inr hlast),
        hidle (hsteady.charged hlast)]
    · have hpayloadLast := (lastTouch_merged hlengths chargeTouches_eq
        (payloadTouches_ne _ _)).2.2 touch hfee hlast
      have hunrewarded : ¬ (a = account ∧ 0 < acc.outcome.actualReward.raw.val) := by
        rintro ⟨hmine, hpos⟩
        rcases hsteady.rewarded hmine hpos _ (mem_of_lastTouch hlast) with h | h
        · cases h
        · exact hfee (Option.some_inj.mp h)
      have hpayload : lastTouch (touchesOf state a balances treasury transitions receipts
          blockVersion gasPrice acc) ≠ some .fee :=
        fun h => hfee (Option.some_inj.mp (hlast.symm.trans h))
      rw [get_addReward hlimit, if_neg hunrewarded, get_writeAll_entry,
        entryWrite_deltas hlimit hcharged hdeltas, if_neg hpayload]
      refine (get_applyBlockTransitions_of_last hlimit acc hdeltas hpayloadLast
        fun hwrite ht => ?_).symm
      exact hsteady.written (hlast.trans (congrArg some hwrite)) (hmem _ ht)

/-- Where nothing is let through to the entries, neither side writes one. -/
theorem get_addReward_of_narrow (hlimit : state.entryLimit < balanceKeyLength) (account : Hash)
    (reward : TensionValue) (ws : List StateWrite) (acc : Settlement)
    (transitions : List SymbolicTransition) :
    (addReward account reward (state.writeAll ws)).get (balanceKey a)
      = (applyBlockTransitions (commitSettlement state acc) acc.balances transitions).1.get
        (balanceKey a) := by
  rw [get_addReward_of_limit hlimit, commitSettlement_eq, applyBlockTransitions_writeAll,
    get_writeAll_entry, entryWrite_of_limit hlimit, Option.none_or]

/-- Merged deltas delete nothing if none of them does. -/
theorem deletes_merged {fees payloads : List StateDelta} (hfees : ∀ delta ∈ fees, delta.deletes = [])
    (hpayloads : ∀ delta ∈ payloads, delta.deletes = []) :
    ∀ delta ∈ List.zipWith mergeStateDeltas fees payloads, delta.deletes = [] := by
  intro delta hdelta
  obtain ⟨i, hi, rfl⟩ := List.mem_iff_getElem.mp hdelta
  rw [List.getElem_zipWith]
  show _ ++ _ = []
  rw [hfees _ (List.getElem_mem _), hpayloads _ (List.getElem_mem _)]
  rfl

end

/-- The deltas and the reward give the account what the block gives it. -/
def Told (state state₁ : ManagedWorldState) (settled : Settlement)
    (transitions : List SymbolicTransition) (account : Hash) (deltas : List StateDelta)
    (a : Hash) : Prop :=
  (addReward account settled.outcome.actualReward (foldDeltas state deltas)).get (balanceKey a)
    = (applyBlockTransitions state₁ settled.balances transitions).1.get (balanceKey a)

/-- The deltas of the receipts, with the reward, tell the truth about every account that
is steady.  About one that a fee comes last for they do exactly when the payloads leave its
entry as they found it. -/
theorem deltas_tell_balances [Crypto] {state state₁ : ManagedWorldState} {balances : BalanceLedger}
    {treasury : Treasury} {transitions : List SymbolicTransition} {receipts : List CausalReceipt}
    {blockVersion : UInt32} {validatorPublicKey account : Hash}
    {gasPrice requestedReward : TensionValue} {settled : Settlement}
    (haccount : account = validatorSpendAccount blockVersion validatorPublicKey)
    (hledger : entryBalance state account = balances.balanceOf account)
    (h : applyBlockEconomics state balances treasury transitions receipts blockVersion
      validatorPublicKey gasPrice requestedReward = .ok (state₁, settled)) :
    ∃ deltas, combineReceiptDeltas settled.outcome.txDeltas
        (applyBlockTransitions state₁ settled.balances transitions).2.2 = .ok deltas
      ∧ (∀ a, (balanceKeyLength ≤ state.entryLimit →
            Steady a account settled.outcome.actualReward (touchesOf state a balances treasury
              transitions receipts blockVersion gasPrice settled)) →
          Told state state₁ settled transitions account deltas a)
      ∧ (balanceKeyLength ≤ state.entryLimit → ∀ a,
          lastTouch (touchesOf state a balances treasury transitions receipts blockVersion
            gasPrice settled) = some .fee →
          (Told state state₁ settled transitions account deltas a ↔
            (applyBlockTransitions state₁ settled.balances transitions).1.get (balanceKey a)
              = state₁.get (balanceKey a))) := by
  unfold applyBlockEconomics at h
  rw [Fallible.bind_eq_ok_iff] at h
  obtain ⟨charged, hcharged, h⟩ := h
  rw [← haccount] at h
  obtain ⟨rfl, rfl⟩ := Prod.mk.inj (Except.ok.inj h)
  obtain ⟨hdeltas, -⟩ := payReward_cases account requestedReward charged
  obtain ⟨hfees, hfeesDeletes⟩ := chargeFees_deltas hcharged
  generalize hsettled : payReward account requestedReward charged = settled at hdeltas ⊢
  obtain ⟨payloads, hpayloads, hlength, hdeletes⟩ :=
    foldl_applyTransition_deltas transitions { state, balances := settled.balances }
  change _ = payloads at hpayloads
  have hrecorded : (applyBlockTransitions (commitSettlement state settled) settled.balances
      transitions).2.2 = payloads := by
    rw [commitSettlement_eq, applyBlockTransitions_writeAll]
    exact hpayloads
  have hnone := deletes_merged hfeesDeletes hdeletes
  refine ⟨List.zipWith mergeStateDeltas charged.outcome.txDeltas payloads, ?_, ?_, ?_⟩
  · rw [hdeltas, hrecorded, combineReceiptDeltas, if_neg (not_not.mpr (hfees.trans hlength.symm))]
  · intro a hsteady
    rw [Told, foldDeltas_eq hnone]
    by_cases hlimit : balanceKeyLength ≤ state.entryLimit
    · exact get_addReward_of_steady hlimit hcharged hledger hsettled hpayloads (hsteady hlimit)
    · exact get_addReward_of_narrow (not_le.mp hlimit) account _ _ settled transitions
  · intro hlimit a hlast
    rw [Told, foldDeltas_eq hnone, get_addReward_of_deltas hlimit hcharged hledger hsettled
      hpayloads (Or.inr hlast), eq_comm]

/-! ## A fee after a payment -/

/-- Five tokens from the account that holds a hundred. -/
def payment : SymbolicTransition :=
  { plainTransition (plainActor (Hash.ofByte 7) (Hash.ofByte 1)) .assetTransfer
      (balanceKey (Hash.ofByte 7))
      (.assetTransfer (Hash.ofByte 7) (Hash.ofByte 2) (TensionValue.fromInteger 5).raw)
      (List.replicate 64 0) with txId := Hash.ofByte 3 }

def paymentReceipt : CausalReceipt := { noteReceipt with txId := payment.txId }

/-- The fee for the note was charged before the payment was made, and its delta has the
balance of then. -/
theorem late_fee_untold :
    ∃ state₁ settled deltas, @applyBlockEconomics polyCrypto fundedState fundedBalances {}
        [payment, note] [paymentReceipt, noteReceipt] canonicalAgentBlockVersion (Hash.ofByte 1)
        (.fromInteger 1) .zero = .ok (state₁, settled)
      ∧ entryBalance fundedState (@validatorSpendAccount polyCrypto canonicalAgentBlockVersion
          (Hash.ofByte 1)) = fundedBalances.balanceOf (@validatorSpendAccount polyCrypto
          canonicalAgentBlockVersion (Hash.ofByte 1))
      ∧ combineReceiptDeltas settled.outcome.txDeltas
        (applyBlockTransitions state₁ settled.balances [payment, note]).2.2 = .ok deltas
      ∧ ¬ Told fundedState state₁ settled [payment, note] (@validatorSpendAccount polyCrypto
        canonicalAgentBlockVersion (Hash.ofByte 1)) deltas (Hash.ofByte 7) := by
  refine ⟨_, _, _, rfl, by decide +kernel, rfl, ?_⟩
  unfold Told
  decide +kernel

/-- The other way round the payment comes last for both parties. -/
theorem touchesOf_paymentLast :
    ∃ state₁ settled, @applyBlockEconomics polyCrypto fundedState fundedBalances {}
        [note, payment] [noteReceipt, paymentReceipt] canonicalAgentBlockVersion (Hash.ofByte 1)
        (.fromInteger 1) .zero = .ok (state₁, settled)
      ∧ settled.outcome.actualReward = .zero
      ∧ touchesOf fundedState (Hash.ofByte 7) fundedBalances {} [note, payment]
          [noteReceipt, paymentReceipt] canonicalAgentBlockVersion (.fromInteger 1) settled
        = [some .fee, none, some .fee, some .transfer]
      ∧ touchesOf fundedState (Hash.ofByte 2) fundedBalances {} [note, payment]
          [noteReceipt, paymentReceipt] canonicalAgentBlockVersion (.fromInteger 1) settled
        = [none, none, none, some .transfer] := by
  refine ⟨_, _, rfl, ?_, ?_, ?_⟩ <;> decide +kernel

/-- So both are told the truth. -/
theorem payment_told :
    ∃ state₁ settled deltas, @applyBlockEconomics polyCrypto fundedState fundedBalances {}
        [note, payment] [noteReceipt, paymentReceipt] canonicalAgentBlockVersion (Hash.ofByte 1)
        (.fromInteger 1) .zero = .ok (state₁, settled)
      ∧ combineReceiptDeltas settled.outcome.txDeltas
        (applyBlockTransitions state₁ settled.balances [note, payment]).2.2 = .ok deltas
      ∧ ∀ a ∈ [Hash.ofByte 7, Hash.ofByte 2], Told fundedState state₁ settled [note, payment]
        (@validatorSpendAccount polyCrypto canonicalAgentBlockVersion (Hash.ofByte 1)) deltas a := by
  obtain ⟨state₁, settled, happly, hreward, hpayer, hpayee⟩ := touchesOf_paymentLast
  obtain ⟨deltas, hdeltas, htold, -⟩ := @deltas_tell_balances polyCrypto fundedState _
    fundedBalances {} [note, payment] [noteReceipt, paymentReceipt] canonicalAgentBlockVersion
    (Hash.ofByte 1) _ (.fromInteger 1) .zero _ rfl (by decide +kernel) happly
  refine ⟨state₁, settled, deltas, happly, hdeltas, fun a ha => htold a fun _ => ?_⟩
  rw [hreward]
  rcases List.mem_pair.mp ha with rfl | rfl
  · rw [hpayer]
    decide +kernel
  · rw [hpayee]
    decide +kernel

end Sccgub
