import Mathlib
import Sccgub.OrderedMap
import Sccgub.State.Escrow
import Sccgub.Types.FixedPoint

/-!
# Conservation through escrow

What the accounts hold and what is locked add up to the same over any run, as
long as the supply fits its type: then no addition saturates.  `Sound` is the
invariant; every move keeps it.

An escrow that is not active never changes again, so each is paid out once at
the most.  Payouts are read off the registry before and after a call, and the
ledger after the call is the one before it with these payouts credited.
-/

namespace Sccgub

open Bincode FixedWidth

/-! ## Ledgers as integers -/

namespace BalanceLedger

def supply (self : BalanceLedger) : Int := OrderedMap.total (fun v => v.raw.val) self.balances

def NonNegative (self : BalanceLedger) : Prop := ∀ agent, 0 ≤ (self.balanceOf agent).raw.val

theorem balanceOf_importBalance (self : BalanceLedger) (agent other : AgentId)
    (amount : TensionValue) :
    (self.importBalance agent amount).balanceOf other
      = if agent = other then amount else self.balanceOf other := by
  unfold balanceOf importBalance
  rw [Std.ExtTreeMap.getElem?_insert]
  by_cases h : agent = other
  · rw [if_pos h, if_pos (by rw [h]; exact Std.ReflCmp.compare_self), Option.getD_some]
  · rw [if_neg h, if_neg fun hc => h (Std.LawfulEqCmp.eq_of_compare hc)]

theorem supply_importBalance (self : BalanceLedger) (agent : AgentId) (amount : TensionValue) :
    (self.importBalance agent amount).supply
      = self.supply - (self.balanceOf agent).raw.val + amount.raw.val := by
  have hold : (self.balances[agent]?.map fun v => v.raw.val).getD 0
      = (self.balanceOf agent).raw.val := by
    unfold balanceOf
    rcases self.balances[agent]? with _ | v <;> rfl
  rw [supply, importBalance, OrderedMap.total_insert, hold]
  rfl

theorem NonNegative.entries {self : BalanceLedger} (h : self.NonNegative) :
    ∀ e ∈ self.balances.toList, 0 ≤ e.2.raw.val := by
  rintro ⟨agent, v⟩ he
  rw [Std.ExtTreeMap.mem_toList_iff_getElem?_eq_some] at he
  have hagent := h agent
  unfold balanceOf at hagent
  rw [he] at hagent
  exact hagent

theorem NonNegative.balance_le {self : BalanceLedger} (h : self.NonNegative) (agent : AgentId) :
    (self.balanceOf agent).raw.val ≤ self.supply := by
  unfold balanceOf
  rcases hv : self.balances[agent]? with _ | v
  · show 0 ≤ self.supply
    refine List.sum_nonneg fun x hx => ?_
    obtain ⟨e, he, rfl⟩ := List.mem_map.mp hx
    exact h.entries e he
  · exact OrderedMap.le_total h.entries hv

theorem NonNegative.importBalance {self : BalanceLedger} (h : self.NonNegative) (agent : AgentId)
    {amount : TensionValue} (hamount : 0 ≤ amount.raw.val) :
    (self.importBalance agent amount).NonNegative := by
  intro other
  rw [balanceOf_importBalance]
  split
  · exact hamount
  · exact h other

theorem NonNegative.credit_spec {self : BalanceLedger} (h : self.NonNegative) (agent : AgentId)
    {amount : TensionValue} (hamount : 0 ≤ amount.raw.val)
    (hfits : self.supply + amount.raw.val ≤ i128Max) :
    (self.credit agent amount).supply = self.supply + amount.raw.val
      ∧ (self.credit agent amount).NonNegative := by
  have hbal := h agent
  have hle := h.balance_le agent
  have hadd : (self.balanceOf agent + amount).raw.val
      = (self.balanceOf agent).raw.val + amount.raw.val :=
    TensionValue.add_val (by omega) (by omega)
  refine ⟨?_, h.importBalance agent (by omega)⟩
  rw [credit, supply_importBalance, hadd]
  omega

theorem NonNegative.lock_spec {self : BalanceLedger} (h : self.NonNegative) {agent : AgentId}
    {amount : TensionValue} (hamount : 0 ≤ amount.raw.val)
    (hfunds : amount.raw ≤ (self.balanceOf agent).raw) :
    (self.importBalance agent (self.balanceOf agent - amount)).supply
        = self.supply - amount.raw.val
      ∧ (self.importBalance agent (self.balanceOf agent - amount)).NonNegative := by
  have hle : amount.raw.val ≤ (self.balanceOf agent).raw.val := hfunds
  have hsub : (self.balanceOf agent - amount).raw.val
      = (self.balanceOf agent).raw.val - amount.raw.val :=
    TensionValue.sub_val (by omega) hamount
  refine ⟨?_, h.importBalance agent (by omega)⟩
  rw [supply_importBalance, hsub]
  omega

theorem totalSupply_val {self : BalanceLedger} (h : self.NonNegative)
    (hfits : self.supply ≤ i128Max) : self.totalSupply.raw.val = self.supply := by
  have hsum : (self.balances.values.map fun v => v.raw.val).sum = self.supply := by
    rw [OrderedMap.values_eq, List.map_map]
    rfl
  have hzero : TensionValue.zero.raw.val = 0 := rfl
  unfold totalSupply
  rw [TensionValue.foldl_add_val _ _ ?_ (by rw [hzero]) (by rw [hzero, hsum]; omega), hsum, hzero,
    zero_add]
  intro v hv
  rw [OrderedMap.values_eq] at hv
  obtain ⟨e, he, rfl⟩ := List.mem_map.mp hv
  exact h.entries e he

end BalanceLedger

/-! ## What is locked -/

def lockedSum (escrows : List Escrow) : Int :=
  ((escrows.filter fun e => e.status = .active).map fun e => e.amount.raw.val).sum

theorem lockedSum_cons (e : Escrow) (rest : List Escrow) :
    lockedSum (e :: rest)
      = (if e.status = .active then e.amount.raw.val else 0) + lockedSum rest := by
  unfold lockedSum
  by_cases h : e.status = .active <;> simp [h]

theorem lockedSum_append (l l' : List Escrow) : lockedSum (l ++ l') = lockedSum l + lockedSum l' := by
  simp [lockedSum]

theorem lockedSum_nonneg {escrows : List Escrow} (h : ∀ e ∈ escrows, 0 < e.amount.raw.val) :
    0 ≤ lockedSum escrows := by
  refine List.sum_nonneg fun x hx => ?_
  obtain ⟨e, he, rfl⟩ := List.mem_map.mp hx
  exact (h e (List.mem_of_mem_filter he)).le

theorem lockedSum_set {escrows : List Escrow} {idx : Nat} {escrow : Escrow} {status : EscrowStatus}
    (hi : escrows[idx]? = some escrow) (hactive : escrow.status = .active)
    (hstatus : status ≠ .active) :
    lockedSum (escrows.set idx { escrow with status }) = lockedSum escrows - escrow.amount.raw.val := by
  induction escrows generalizing idx with
  | nil => cases hi
  | cons e rest ih =>
      cases idx with
      | zero =>
          cases hi
          rw [List.set_cons_zero, lockedSum_cons, lockedSum_cons, if_neg hstatus, if_pos hactive]
          omega
      | succ idx =>
          rw [List.set_cons_succ, lockedSum_cons, lockedSum_cons, ih hi]
          omega

theorem lockedSum_sweep (isMet : EscrowCondition → Bool) (escrows : List Escrow) :
    lockedSum (escrows.map (Escrow.sweep isMet))
      + ((dueEscrows isMet escrows).map fun e => e.amount.raw.val).sum = lockedSum escrows := by
  induction escrows with
  | nil => rfl
  | cons e rest ih =>
      rw [List.map_cons, lockedSum_cons, lockedSum_cons, dueEscrows_cons]
      by_cases hdue : e.status = .active ∧ isMet e.condition = true
      · have hreleased : (e.sweep isMet).status ≠ .active := by
          rw [Escrow.sweep, if_pos hdue]
          rintro ⟨⟩
        rw [if_pos hdue, if_pos hdue.1, if_neg hreleased, List.map_cons, List.sum_cons]
        omega
      · have hsame : e.sweep isMet = e := if_neg hdue
        rw [if_neg hdue, hsame]
        omega

theorem EscrowRegistry.totalLocked_val {r : EscrowRegistry}
    (h : ∀ e ∈ r.escrows, 0 < e.amount.raw.val) (hfits : lockedSum r.escrows ≤ i128Max) :
    r.totalLocked.raw.val = lockedSum r.escrows := by
  have hfold : r.totalLocked
      = ((r.escrows.filter fun e => e.status = .active).map Escrow.amount).foldl
        (fun acc v => acc + v) .zero := by
    rw [List.foldl_map]
    rfl
  have hsum : (((r.escrows.filter fun e => e.status = .active).map Escrow.amount).map
      fun v => v.raw.val).sum = lockedSum r.escrows := by
    rw [List.map_map]
    rfl
  have hzero : TensionValue.zero.raw.val = 0 := rfl
  rw [hfold, TensionValue.foldl_add_val _ _ ?_ (by rw [hzero]) (by rw [hzero, hsum]; omega), hsum,
    hzero, zero_add]
  intro v hv
  obtain ⟨e, he, rfl⟩ := List.mem_map.mp hv
  exact (h e (List.mem_of_mem_filter he)).le

/-- Paying out a list of escrows adds their amounts. -/
theorem creditAll_spec (due : List Escrow) {balances : BalanceLedger} (h : balances.NonNegative)
    (hdue : ∀ e ∈ due, 0 < e.amount.raw.val)
    (hfits : balances.supply + (due.map fun e => e.amount.raw.val).sum ≤ i128Max) :
    (due.foldl (fun b e => b.credit e.recipient e.amount) balances).supply
        = balances.supply + (due.map fun e => e.amount.raw.val).sum
      ∧ (due.foldl (fun b e => b.credit e.recipient e.amount) balances).NonNegative := by
  induction due generalizing balances with
  | nil => simpa using h
  | cons e rest ih =>
      have he := hdue e List.mem_cons_self
      have hrest : 0 ≤ (rest.map fun e => e.amount.raw.val).sum := by
        refine List.sum_nonneg fun x hx => ?_
        obtain ⟨e', he', rfl⟩ := List.mem_map.mp hx
        exact (hdue e' (List.mem_cons_of_mem _ he')).le
      simp only [List.map_cons, List.sum_cons] at hfits ⊢
      obtain ⟨hsupply, hnonneg⟩ := h.credit_spec e.recipient he.le
        (by omega)
      obtain ⟨hall, hall'⟩ := ih hnonneg (fun e' he' => hdue e' (List.mem_cons_of_mem _ he'))
        (by omega)
      rw [List.foldl_cons, hall, hsupply]
      exact ⟨by omega, hall'⟩

/-! ## The invariant -/

namespace EscrowStore

/-- What is held and what is locked add up to the total. -/
structure Sound (total : Int) (s : EscrowStore) : Prop where
  nonneg : s.balances.NonNegative
  positive : ∀ e ∈ s.registry.escrows, 0 < e.amount.raw.val
  parties : ∀ e ∈ s.registry.escrows, e.sender ≠ e.recipient
  conserved : s.balances.supply + lockedSum s.registry.escrows = total

/-- Paying out one active escrow, to either side. -/
theorem Sound.settle {s : EscrowStore} {total : Int} (h : s.Sound total)
    (hfits : total ≤ i128Max) {idx : Nat} {escrow : Escrow} {status : EscrowStatus}
    (hescrow : s.registry.escrows[idx]? = some escrow) (hactive : escrow.status = .active)
    (hstatus : status ≠ .active) (payee : AgentId) :
    Sound total ⟨s.registry.setStatus idx escrow status,
      s.balances.credit payee escrow.amount⟩ := by
  have hmem := List.mem_of_getElem? hescrow
  have hpos := h.positive escrow hmem
  have hset := lockedSum_set hescrow hactive hstatus
  have hafter : ∀ e ∈ s.registry.escrows.set idx { escrow with status },
      0 < e.amount.raw.val ∧ e.sender ≠ e.recipient := by
    intro e he
    rcases List.mem_or_eq_of_mem_set he with hold | rfl
    · exact ⟨h.positive e hold, h.parties e hold⟩
    · have hparties := h.parties escrow hmem
      exact ⟨hpos, hparties⟩
  have hleft := lockedSum_nonneg fun e he => (hafter e he).1
  have hsum := h.conserved
  obtain ⟨hsupply, hnonneg⟩ := h.nonneg.credit_spec payee hpos.le
    (by omega)
  refine ⟨hnonneg, fun e he => (hafter e he).1, fun e he => (hafter e he).2, ?_⟩
  rw [hsupply]
  show _ + lockedSum (s.registry.escrows.set idx { escrow with status }) = total
  omega

variable [Crypto]

theorem Moves.sound {s s' : EscrowStore} {call : EscrowCall} {result : Except String (List Hash)}
    {total : Int} (hmoves : Moves s call result s') (hfits : total ≤ i128Max)
    (h : s.Sound total) : s'.Sound total := by
  have hlocked := lockedSum_nonneg h.positive
  have hsum := h.conserved
  cases hmoves with
  | refused => exact h
  | created hpos hparties htimeout hfunds =>
      obtain ⟨hsupply, hnonneg⟩ := h.nonneg.lock_spec hpos.le hfunds
      refine ⟨hnonneg, fun e he => ?_, fun e he => ?_, ?_⟩
      · rcases List.mem_append.mp he with hold | hnew
        · exact h.positive e hold
        · rw [List.mem_singleton.mp hnew]
          exact hpos
      · rcases List.mem_append.mp he with hold | hnew
        · exact h.parties e hold
        · rw [List.mem_singleton.mp hnew]
          exact hparties
      · have hnew : ∀ e : Escrow, e.status = .active → lockedSum [e] = e.amount.raw.val := by
          intro e he
          rw [lockedSum_cons, if_pos he]
          exact Int.add_zero _
        rw [hsupply, lockedSum_append, hnew _ rfl]
        dsimp only
        omega
  | @released escrowId idx escrow hindex hescrow hactive =>
      exact h.settle hfits hescrow hactive (by decide) escrow.recipient
  | @refunded escrowId currentHeight idx escrow hindex hescrow hactive hexpired =>
      exact h.settle hfits hescrow hactive (by decide) escrow.sender
  | @swept state currentHeight blockWriters =>
      simp only [checkAndRelease, releaseDue_eq]
      have hsweep := lockedSum_sweep (EscrowCondition.isMet state currentHeight blockWriters)
        s.registry.escrows
      have hterms : ∀ e ∈ s.registry.escrows.map (Escrow.sweep (EscrowCondition.isMet state
          currentHeight blockWriters)), 0 < e.amount.raw.val ∧ e.sender ≠ e.recipient := by
        intro e he
        obtain ⟨old, hold, rfl⟩ := List.mem_map.mp he
        have hpos := h.positive old hold
        have hparties := h.parties old hold
        unfold Escrow.sweep
        split <;> exact ⟨hpos, hparties⟩
      have hleft := lockedSum_nonneg fun e he => (hterms e he).1
      obtain ⟨hsupply, hnonneg⟩ := creditAll_spec (dueEscrows (EscrowCondition.isMet state
        currentHeight blockWriters) s.registry.escrows) h.nonneg
        (fun e he => h.positive e (List.mem_of_mem_filter he)) (by omega)
      refine ⟨hnonneg, fun e he => (hterms e he).1, fun e he => (hterms e he).2, ?_⟩
      rw [hsupply]
      show _ + lockedSum (s.registry.escrows.map _) = total
      omega

theorem Sound.run {s : EscrowStore} {total : Int} (h : s.Sound total) (hfits : total ≤ i128Max)
    (calls : List EscrowCall) : (s.run calls).Sound total := by
  induction calls generalizing s with
  | nil => exact h
  | cons call rest ih => exact ih ((s.moves call).sound hfits h)

end EscrowStore

/-! ## Payouts -/

structure Payout where
  position : Nat
  payee : AgentId
  amount : TensionValue
  deriving DecidableEq

/-- An escrow that leaves the active status is paid, to the side its new status
says. -/
def payout? (i : Nat) (e e' : Escrow) : Option Payout :=
  if e.status = .active then
    match e'.status with
    | .released => some ⟨i, e.recipient, e.amount⟩
    | .refunded => some ⟨i, e.sender, e.amount⟩
    | _ => none
  else none

/-- The payouts between two lists of escrows, position by position. -/
def payoutsFrom : Nat → List Escrow → List Escrow → List Payout
  | i, e :: before, e' :: after => (payout? i e e').toList ++ payoutsFrom (i + 1) before after
  | _, _, _ => []

def payouts (before after : EscrowStore) : List Payout :=
  payoutsFrom 0 before.registry.escrows after.registry.escrows

def creditPayouts (balances : BalanceLedger) (l : List Payout) : BalanceLedger :=
  l.foldl (fun b p => b.credit p.payee p.amount) balances

theorem payout?_self (i : Nat) (e : Escrow) : payout? i e e = none := by
  unfold payout?
  by_cases h : e.status = .active
  · rw [if_pos h, h]
  · rw [if_neg h]

theorem payout?_eq_some {i : Nat} {e e' : Escrow} {p : Payout} (h : payout? i e e' = some p) :
    p.position = i ∧ e.status = .active ∧ p.amount = e.amount
      ∧ (e'.status = .released ∧ p.payee = e.recipient
        ∨ e'.status = .refunded ∧ p.payee = e.sender) := by
  unfold payout? at h
  split at h
  · rename_i hactive
    split at h
    · rename_i hstatus
      cases h
      exact ⟨rfl, hactive, rfl, Or.inl ⟨hstatus, rfl⟩⟩
    · rename_i hstatus
      cases h
      exact ⟨rfl, hactive, rfl, Or.inr ⟨hstatus, rfl⟩⟩
    · cases h
  · cases h

theorem payoutsFrom_self_append (i : Nat) (l l' : List Escrow) : payoutsFrom i l (l ++ l') = [] := by
  induction l generalizing i with
  | nil => rfl
  | cons e rest ih => rw [List.cons_append, payoutsFrom, payout?_self, ih, Option.toList_none,
      List.append_nil]

theorem payoutsFrom_set {l : List Escrow} {idx : Nat} {escrow : Escrow} (status : EscrowStatus)
    (i : Nat) (h : l[idx]? = some escrow) :
    payoutsFrom i l (l.set idx { escrow with status })
      = (payout? (i + idx) escrow { escrow with status }).toList := by
  induction l generalizing i idx with
  | nil => cases h
  | cons e rest ih =>
      cases idx with
      | zero =>
          cases h
          have hrest : payoutsFrom (i + 1) rest rest = [] := by
            have := payoutsFrom_self_append (i + 1) rest []
            rwa [List.append_nil] at this
          rw [List.set_cons_zero, payoutsFrom, hrest, List.append_nil]
          rfl
      | succ idx =>
          rw [List.set_cons_succ, payoutsFrom, payout?_self, ih (i + 1) h]
          rw [show i + 1 + idx = i + (idx + 1) by omega]
          rfl

/-- The loop pays what it releases, in order. -/
theorem creditPayouts_sweep (isMet : EscrowCondition → Bool) (i : Nat) (l : List Escrow)
    (balances : BalanceLedger) :
    creditPayouts balances (payoutsFrom i l (l.map (Escrow.sweep isMet)))
      = (dueEscrows isMet l).foldl (fun b e => b.credit e.recipient e.amount) balances := by
  induction l generalizing i balances with
  | nil => rfl
  | cons e rest ih =>
      rw [List.map_cons, payoutsFrom, dueEscrows_cons]
      by_cases hdue : e.status = .active ∧ isMet e.condition = true
      · have hpaid : payout? i e (e.sweep isMet) = some ⟨i, e.recipient, e.amount⟩ := by
          rw [Escrow.sweep, if_pos hdue, payout?, if_pos hdue.1]
        rw [hpaid, if_pos hdue]
        exact ih (i + 1) (balances.credit e.recipient e.amount)
      · have hsame : e.sweep isMet = e := if_neg hdue
        rw [hsame, payout?_self, if_neg hdue]
        exact ih (i + 1) balances

theorem mem_payoutsFrom {i : Nat} {l l' : List Escrow} {p : Payout} (h : p ∈ payoutsFrom i l l') :
    ∃ j e e', p.position = i + j ∧ l[j]? = some e ∧ l'[j]? = some e'
      ∧ payout? (i + j) e e' = some p := by
  induction l generalizing i l' with
  | nil => cases h
  | cons e rest ih =>
      cases l' with
      | nil => cases h
      | cons e' rest' =>
          rcases List.mem_append.mp h with hfirst | hrest
          · have hpaid := Option.mem_toList.mp hfirst
            exact ⟨0, e, e', (payout?_eq_some hpaid).1, rfl, rfl, hpaid⟩
          · obtain ⟨j, f, f', hpos, hf, hf', hpaid⟩ := ih hrest
            rw [show i + 1 + j = i + (j + 1) by omega] at hpos hpaid
            exact ⟨j + 1, f, f', hpos, hf, hf', hpaid⟩

/-- One call pays no position twice. -/
theorem nodup_payoutsFrom (i : Nat) (l l' : List Escrow) :
    ((payoutsFrom i l l').map Payout.position).Nodup := by
  induction l generalizing i l' with
  | nil => exact List.nodup_nil
  | cons e rest ih =>
      cases l' with
      | nil => exact List.nodup_nil
      | cons e' rest' =>
          rw [payoutsFrom, List.map_append]
          rcases hpaid : payout? i e e' with _ | p
          · simpa using ih (i + 1) rest'
          · refine List.nodup_cons.mpr ⟨fun hmem => ?_, ih (i + 1) rest'⟩
            obtain ⟨q, hq, hsame⟩ := List.mem_map.mp hmem
            obtain ⟨j, -, -, hpos, -⟩ := mem_payoutsFrom hq
            have := (payout?_eq_some hpaid).1
            omega

/-! ## Statuses over a run -/

/-- An escrow stays as it is, or is settled while active. -/
def Escrow.Evolves (e e' : Escrow) : Prop :=
  e' = e ∨ e.status = .active
    ∧ (e' = { e with status := .released } ∨ e' = { e with status := .refunded })

theorem Escrow.Evolves.active {e e' : Escrow} (h : e.Evolves e') (hactive : e'.status = .active) :
    e.status = .active := by
  rcases h with rfl | ⟨hold, -⟩
  · exact hactive
  · exact hold

theorem Escrow.Evolves.trans {e e' e'' : Escrow} (h : e.Evolves e') (h' : e'.Evolves e'') :
    e.Evolves e'' := by
  rcases h with rfl | ⟨hactive, hnew⟩
  · exact h'
  · rcases h' with rfl | ⟨hactive', -⟩
    · exact Or.inr ⟨hactive, hnew⟩
    · rcases hnew with rfl | rfl <;> cases hactive'

namespace EscrowStore

theorem evolves_setStatus {r : EscrowRegistry} {idx i : Nat} {escrow e : Escrow}
    {status : EscrowStatus} (hescrow : r.escrows[idx]? = some escrow)
    (hsettled : escrow.Evolves { escrow with status }) (hi : r.escrows[i]? = some e) :
    ∃ e', (r.setStatus idx escrow status).escrows[i]? = some e' ∧ e.Evolves e' := by
  by_cases h : idx = i
  · subst h
    rw [hescrow, Option.some_inj] at hi
    subst hi
    have hlt : idx < r.escrows.length := (List.getElem?_eq_some_iff.mp hescrow).1
    exact ⟨_, List.getElem?_set_self hlt, hsettled⟩
  · exact ⟨e, (List.getElem?_set_ne h).trans hi, Or.inl rfl⟩

variable [Crypto]

theorem Moves.evolves {s s' : EscrowStore} {call : EscrowCall}
    {result : Except String (List Hash)} (h : Moves s call result s') {i : Nat} {e : Escrow}
    (hi : s.registry.escrows[i]? = some e) :
    ∃ e', s'.registry.escrows[i]? = some e' ∧ e.Evolves e' := by
  cases h with
  | refused => exact ⟨e, hi, Or.inl rfl⟩
  | created hpos hparties htimeout hfunds =>
      have hlt : i < s.registry.escrows.length := (List.getElem?_eq_some_iff.mp hi).1
      exact ⟨e, (List.getElem?_append_left hlt).trans hi, Or.inl rfl⟩
  | released hindex hescrow hactive =>
      exact evolves_setStatus hescrow (Or.inr ⟨hactive, Or.inl rfl⟩) hi
  | refunded hindex hescrow hactive hexpired =>
      exact evolves_setStatus hescrow (Or.inr ⟨hactive, Or.inr rfl⟩) hi
  | @swept state currentHeight blockWriters =>
      refine ⟨e.sweep (EscrowCondition.isMet state currentHeight blockWriters), ?_, ?_⟩
      · simp only [checkAndRelease, releaseDue_eq, List.getElem?_map, hi, Option.map_some]
      · unfold Escrow.sweep
        split
        · rename_i hdue
          exact Or.inr ⟨hdue.1, Or.inl rfl⟩
        · exact Or.inl rfl

theorem run_evolves {s : EscrowStore} (calls : List EscrowCall) {i : Nat} {e : Escrow}
    (hi : s.registry.escrows[i]? = some e) :
    ∃ e', (s.run calls).registry.escrows[i]? = some e' ∧ e.Evolves e' := by
  induction calls generalizing s e with
  | nil => exact ⟨e, hi, Or.inl rfl⟩
  | cons call rest ih =>
      obtain ⟨e', hi', hevolves⟩ := (s.moves call).evolves hi
      obtain ⟨e'', hi'', hrest⟩ := ih hi'
      exact ⟨e'', hi'', hevolves.trans hrest⟩

/-! ## Payouts over a run -/

/-- The ledger after a call is the one before it, less what a creation locks,
with the call's payouts credited. -/
theorem Moves.pays {s s' : EscrowStore} {call : EscrowCall} {result : Except String (List Hash)}
    (h : Moves s call result s') :
    ∃ balances, s'.balances = creditPayouts balances (payouts s s')
      ∧ (balances = s.balances
        ∨ ∃ sender recipient amount condition currentHeight timeoutBlocks,
          call = .create sender recipient amount condition currentHeight timeoutBlocks
            ∧ s.balances.debit sender amount = .ok balances) := by
  cases h with
  | refused =>
      refine ⟨s.balances, ?_, Or.inl rfl⟩
      have hnone := payoutsFrom_self_append 0 s.registry.escrows []
      rw [List.append_nil] at hnone
      rw [payouts, hnone]
      rfl
  | @created sender recipient amount condition currentHeight timeoutBlocks hpos hparties htimeout
      hfunds =>
      refine ⟨s.balances.importBalance sender (s.balances.balanceOf sender - amount), ?_,
        Or.inr ⟨sender, recipient, amount, condition, currentHeight, timeoutBlocks, rfl, ?_⟩⟩
      · rw [payouts, payoutsFrom_self_append]
        rfl
      · have hnot : ¬ (s.balances.balanceOf sender).raw < amount.raw := Int.not_lt.mpr hfunds
        rw [BalanceLedger.debit, if_neg hnot]
  | released hindex hescrow hactive =>
      refine ⟨s.balances, ?_, Or.inl rfl⟩
      rw [payouts, EscrowRegistry.setStatus, payoutsFrom_set _ _ hescrow, payout?, if_pos hactive]
      rfl
  | refunded hindex hescrow hactive hexpired =>
      refine ⟨s.balances, ?_, Or.inl rfl⟩
      rw [payouts, EscrowRegistry.setStatus, payoutsFrom_set _ _ hescrow, payout?, if_pos hactive]
      rfl
  | swept =>
      refine ⟨s.balances, ?_, Or.inl rfl⟩
      simp only [checkAndRelease, releaseDue_eq, payouts]
      exact (creditPayouts_sweep _ 0 _ _).symm

/-- All payouts of a run. -/
def runPayouts : EscrowStore → List EscrowCall → List Payout
  | _, [] => []
  | s, call :: calls => payouts s (s.step call) ++ runPayouts (s.step call) calls

omit [Crypto] in
theorem mem_payouts {s s' : EscrowStore} {p : Payout} (h : p ∈ payouts s s') :
    ∃ e e', s.registry.escrows[p.position]? = some e
      ∧ s'.registry.escrows[p.position]? = some e' ∧ e.status = .active
      ∧ e'.status ≠ .active ∧ p.amount = e.amount
      ∧ (e'.status = .released ∧ p.payee = e.recipient
        ∨ e'.status = .refunded ∧ p.payee = e.sender) := by
  obtain ⟨j, e, e', hpos, he, he', hpaid⟩ := mem_payoutsFrom h
  rw [Nat.zero_add] at hpos
  obtain ⟨-, hactive, hamount, hside⟩ := payout?_eq_some hpaid
  rw [← hpos] at he he'
  refine ⟨e, e', he, he', hactive, ?_, hamount, hside⟩
  rcases hside with ⟨hstatus, -⟩ | ⟨hstatus, -⟩ <;> rw [hstatus] <;> decide

/-- What is paid in a run was active at its start, or not there yet. -/
theorem active_of_mem_runPayouts {s : EscrowStore} {calls : List EscrowCall} {p : Payout}
    (h : p ∈ s.runPayouts calls) {e : Escrow} (he : s.registry.escrows[p.position]? = some e) :
    e.status = .active := by
  induction calls generalizing s e with
  | nil => cases h
  | cons call rest ih =>
      rcases List.mem_append.mp h with hfirst | hrest
      · obtain ⟨f, -, hf, -, hactive, -⟩ := mem_payouts hfirst
        rw [he, Option.some_inj] at hf
        rw [hf]
        exact hactive
      · obtain ⟨e', he', hevolves⟩ := (s.moves call).evolves he
        exact hevolves.active (ih hrest he')

theorem nodup_runPayouts (s : EscrowStore) (calls : List EscrowCall) :
    ((s.runPayouts calls).map Payout.position).Nodup := by
  induction calls generalizing s with
  | nil => exact List.nodup_nil
  | cons call rest ih =>
      rw [runPayouts, List.map_append, List.nodup_append]
      refine ⟨nodup_payoutsFrom _ _ _, ih _, fun x hx y hy hxy => ?_⟩
      obtain ⟨p, hp, rfl⟩ := List.mem_map.mp hx
      obtain ⟨q, hq, rfl⟩ := List.mem_map.mp hy
      obtain ⟨-, e', -, he', -, hsettled, -⟩ := mem_payouts hp
      rw [hxy] at he'
      exact hsettled (active_of_mem_runPayouts hq he')

/-- At the end of a run each payout shows in the status of its escrow. -/
theorem status_of_mem_runPayouts {s : EscrowStore} {calls : List EscrowCall} {p : Payout}
    (h : p ∈ s.runPayouts calls) :
    ∃ e, (s.run calls).registry.escrows[p.position]? = some e ∧ p.amount = e.amount
      ∧ (e.status = .released ∧ p.payee = e.recipient
        ∨ e.status = .refunded ∧ p.payee = e.sender) := by
  induction calls generalizing s with
  | nil => cases h
  | cons call rest ih =>
      rcases List.mem_append.mp h with hfirst | hrest
      · obtain ⟨e, e', he, he', hactive, hsettled, hamount, hside⟩ := mem_payouts hfirst
        obtain ⟨f, hf, hevolves⟩ := (s.moves call).evolves he
        rw [he', Option.some_inj] at hf
        subst hf
        obtain ⟨g, hg, hlater⟩ := run_evolves rest he'
        have hsame : g = e' := by
          rcases hlater with hsame | ⟨hagain, -⟩
          · exact hsame
          · exact absurd hagain hsettled
        subst hsame
        refine ⟨g, hg, ?_⟩
        rcases hevolves with rfl | ⟨-, rfl | rfl⟩
        · exact absurd hactive hsettled
        · exact ⟨hamount, hside⟩
        · exact ⟨hamount, hside⟩
      · exact ih hrest

/-- Only a refund past the expiry pays the sender. -/
theorem Moves.refund_expired {s s' : EscrowStore} {call : EscrowCall}
    {result : Except String (List Hash)} {total : Int} (hmoves : Moves s call result s')
    (h : s.Sound total) {p : Payout} (hp : p ∈ payouts s s') {e : Escrow}
    (he : s.registry.escrows[p.position]? = some e) (hpayee : p.payee = e.sender) :
    ∃ escrowId currentHeight, call = .refund escrowId currentHeight ∧ e.expiresAt ≤ currentHeight := by
  obtain ⟨f, e', hf, he', hactive, hsettled, -, hside⟩ := mem_payouts hp
  rw [he, Option.some_inj] at hf
  subst hf
  have hparties := h.parties e (List.mem_of_getElem? he)
  have hrefunded : e'.status = .refunded := by
    rcases hside with ⟨-, hrecipient⟩ | ⟨hstatus, -⟩
    · exact absurd (hpayee.symm.trans hrecipient) hparties
    · exact hstatus
  cases hmoves with
  | refused =>
      rw [he, Option.some_inj] at he'
      exact absurd (he' ▸ hactive) hsettled
  | created hpos hparties htimeout hfunds =>
      have hlt : p.position < s.registry.escrows.length := (List.getElem?_eq_some_iff.mp he).1
      rw [List.getElem?_append_left hlt, he, Option.some_inj] at he'
      exact absurd (he' ▸ hactive) hsettled
  | @released escrowId idx escrow hindex hescrow hlive =>
      simp only [EscrowRegistry.setStatus, List.getElem?_set] at he'
      split at he'
      · split at he'
        · cases he'
          cases hrefunded
        · cases he'
      · rw [he, Option.some_inj] at he'
        exact absurd (he' ▸ hactive) hsettled
  | @refunded escrowId currentHeight idx escrow hindex hescrow hlive hexpired =>
      by_cases hidx : idx = p.position
      · rw [← hidx, hescrow, Option.some_inj] at he
        rw [← he]
        exact ⟨escrowId, currentHeight, rfl, hexpired⟩
      · simp only [EscrowRegistry.setStatus, List.getElem?_set_ne hidx] at he'
        rw [he, Option.some_inj] at he'
        exact absurd (he' ▸ hactive) hsettled
  | swept =>
      simp only [checkAndRelease, releaseDue_eq, List.getElem?_map, he, Option.map_some,
        Option.some_inj] at he'
      rw [← he'] at hrefunded
      unfold Escrow.sweep at hrefunded
      split at hrefunded
      · cases hrefunded
      · rw [hactive] at hrefunded
        cases hrefunded

/-! ## The whole -/

/-- What holds of every run over a ledger. -/
structure RunSafe (ledger : BalanceLedger) (calls : List EscrowCall) : Prop where
  conserved : ((run ⟨{}, ledger⟩ calls).balances.totalSupply
      + (run ⟨{}, ledger⟩ calls).registry.totalLocked)
    = ledger.totalSupply + ({} : EscrowRegistry).totalLocked
  nonneg : (run ⟨{}, ledger⟩ calls).balances.NonNegative
  paidOnce : ((runPayouts ⟨{}, ledger⟩ calls).map Payout.position).Nodup
  paidTo : ∀ p ∈ runPayouts ⟨{}, ledger⟩ calls,
    ∃ e, (run ⟨{}, ledger⟩ calls).registry.escrows[p.position]? = some e ∧ p.amount = e.amount
      ∧ (e.status = .released ∧ p.payee = e.recipient
        ∨ e.status = .refunded ∧ p.payee = e.sender)
  /-- Nothing reaches the ledger but locked amounts and payouts. -/
  ledgerMoves : ∀ before call after, calls = before ++ call :: after →
    let s := run ⟨{}, ledger⟩ before
    ∃ balances, (s.step call).balances = creditPayouts balances (payouts s (s.step call))
      ∧ (balances = s.balances
        ∨ ∃ sender recipient amount condition currentHeight timeoutBlocks,
          call = .create sender recipient amount condition currentHeight timeoutBlocks
            ∧ s.balances.debit sender amount = .ok balances)
  notEarly : ∀ before call after, calls = before ++ call :: after →
    let s := run ⟨{}, ledger⟩ before
    ∀ p ∈ payouts s (s.step call), ∀ e, s.registry.escrows[p.position]? = some e →
      p.payee = e.sender →
      ∃ escrowId currentHeight, call = .refund escrowId currentHeight ∧ e.expiresAt ≤ currentHeight
  failed : ∀ before call after e, calls = before ++ call :: after →
    ((run ⟨{}, ledger⟩ before).perform call).1 = .error e →
    (run ⟨{}, ledger⟩ before).step call = run ⟨{}, ledger⟩ before

/-- From a ledger without debts whose supply fits, every run is safe. -/
theorem runSafe {ledger : BalanceLedger} (hnonneg : ledger.NonNegative)
    (hfits : ledger.supply ≤ i128Max) (calls : List EscrowCall) : RunSafe ledger calls := by
  have hstart : Sound ledger.supply ⟨{}, ledger⟩ :=
    ⟨hnonneg, (fun e he => nomatch he), (fun e he => nomatch he), Int.add_zero _⟩
  have hend := hstart.run hfits calls
  have hlocked := lockedSum_nonneg hend.positive
  have hsum := hend.conserved
  have hsupply : 0 ≤ (run ⟨{}, ledger⟩ calls).balances.supply :=
    (hend.nonneg zeroHash).trans (hend.nonneg.balance_le zeroHash)
  refine
    { conserved := ?_
      nonneg := hend.nonneg
      paidOnce := nodup_runPayouts _ calls
      paidTo := fun p hp => status_of_mem_runPayouts hp
      ledgerMoves := fun before call after _ => (moves _ call).pays
      notEarly := fun before call after _ p hp e he hpayee =>
        (moves _ call).refund_expired (hstart.run hfits before) hp he hpayee
      failed := fun before call after e _ herror => step_of_error herror }
  have hleft := BalanceLedger.totalSupply_val hend.nonneg (by omega)
  have hright := EscrowRegistry.totalLocked_val hend.positive (by omega)
  have hbefore := BalanceLedger.totalSupply_val hnonneg hfits
  have hzero : ({} : EscrowRegistry).totalLocked.raw.val = 0 := rfl
  have hadd := TensionValue.add_val (a := (run ⟨{}, ledger⟩ calls).balances.totalSupply)
    (b := (run ⟨{}, ledger⟩ calls).registry.totalLocked) (by omega) (by omega)
  have hadd' := TensionValue.add_val (a := ledger.totalSupply)
    (b := ({} : EscrowRegistry).totalLocked) (by omega) (by omega)
  refine TensionValue.ext_val ?_
  omega

end EscrowStore

/-- A hundred tokens, of which five are locked, and five more after a release
that fails. -/
theorem runSafe_funded :
    @EscrowStore.RunSafe polyCrypto fundedLedger [twinCall, .release zeroHash, twinCall]
      ∧ fundedLedger.supply = (TensionValue.fromInteger 100).raw.val := by
  have hnonneg : fundedLedger.NonNegative := by
    intro agent
    have hledger : fundedLedger
        = BalanceLedger.importBalance ⟨∅⟩ (Hash.ofByte 1) (.fromInteger 100) := rfl
    rw [hledger, BalanceLedger.balanceOf_importBalance]
    split
    · decide +kernel
    · simp [BalanceLedger.balanceOf, TensionValue.zero]
      decide
  have hsupply : fundedLedger.supply = (TensionValue.fromInteger 100).raw.val := by
    decide +kernel
  refine ⟨@EscrowStore.runSafe polyCrypto fundedLedger hnonneg ?_ _, hsupply⟩
  rw [hsupply]
  decide +kernel

end Sccgub
