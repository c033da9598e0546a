import Mathlib
import Sccgub.Envelope
import Sccgub.Types.FixedPoint
import Sccgub.Types.Namespace

/-!
# Delegated spending

Three records that let an agent spend on behalf of another: a lease, a budget of
unconfirmed actions and a session key.  Each sums up what was spent and counts
the calls.  None asks whether an amount is negative, and the session key asks
neither whether it has been revoked or has expired nor how many calls it has
seen; what follows for a run of calls is that of `Envelope`.
-/

namespace Sccgub

open FixedWidth

/-! ## Leases -/

structure CapabilityLease where
  validFrom : UInt64
  validUntil : UInt64
  budget : TensionValue
  spent : TensionValue
  maxActions : UInt64
  actionsTaken : UInt64
  revoked : Bool
  deriving DecidableEq

namespace CapabilityLease

/-- Zero stands for no expiry. -/
def isValid (self : CapabilityLease) (currentHeight : UInt64) : Bool :=
  !self.revoked && currentHeight ≥ self.validFrom
    && (self.validUntil = 0 || currentHeight ≤ self.validUntil)

def hasBudget (self : CapabilityLease) (amount : TensionValue) : Bool :=
  self.spent.raw.saturatingAdd amount.raw ≤ self.budget.raw

def hasActions (self : CapabilityLease) : Bool :=
  self.maxActions = 0 || self.actionsTaken < self.maxActions

def recordSpend (self : CapabilityLease) (currentHeight : UInt64) (amount : TensionValue) :
    Except String Unit × CapabilityLease :=
  if !self.isValid currentHeight then (.error "Lease is revoked or expired", self)
  else if !self.hasActions then (.error "Lease action limit reached", self)
  else if !self.hasBudget amount then
    (.error s!"Lease budget exceeded: spent {self.spent.display} + {amount.display} > budget {self.budget.display}",
      self)
  else
    (.ok (), { self with
      spent := self.spent + amount
      actionsTaken := self.actionsTaken + 1 })

end CapabilityLease

/-! ## Unconfirmed actions -/

structure AutonomyBudget where
  maxUnconfirmedSpend : TensionValue
  maxUnconfirmedActions : UInt64
  pendingSpend : TensionValue
  pendingActions : UInt64
  lastSettledHeight : UInt64
  deriving DecidableEq

namespace AutonomyBudget

def canActLocally (self : AutonomyBudget) (spend : TensionValue) : Bool :=
  self.pendingSpend.raw.saturatingAdd spend.raw ≤ self.maxUnconfirmedSpend.raw
    && (self.maxUnconfirmedActions = 0 || self.pendingActions < self.maxUnconfirmedActions)

def recordLocalAction (self : AutonomyBudget) (spend : TensionValue) :
    Except String Unit × AutonomyBudget :=
  if !self.canActLocally spend then
    (.error "Autonomy budget exceeded — chain confirmation required", self)
  else
    (.ok (), { self with
      pendingSpend := self.pendingSpend + spend
      pendingActions := self.pendingActions + 1 })

def settle (self : AutonomyBudget) (height : UInt64) : AutonomyBudget :=
  { self with pendingSpend := .zero, pendingActions := 0, lastSettledHeight := height }

end AutonomyBudget

/-! ## Session keys -/

structure SessionKey where
  maxSpendPerTx : TensionValue
  maxTotalSpend : TensionValue
  spent : TensionValue
  maxTransactions : UInt64
  transactionsUsed : UInt64
  expiresAtBlock : UInt64
  revoked : Bool
  deriving DecidableEq

namespace SessionKey

def isValid (self : SessionKey) (currentHeight : UInt64) : Bool :=
  !self.revoked && currentHeight ≤ self.expiresAtBlock
    && (self.maxTransactions = 0 || self.transactionsUsed < self.maxTransactions)

def canSpend (self : SessionKey) (amount : TensionValue) : Bool :=
  amount.raw ≤ self.maxSpendPerTx.raw
    && self.spent.raw.saturatingAdd amount.raw ≤ self.maxTotalSpend.raw

/-- `isValid` is left to the caller. -/
def recordUse (self : SessionKey) (amount : TensionValue) : Except String Unit × SessionKey :=
  if !self.canSpend amount then (.error "Session key spend limit exceeded", self)
  else
    (.ok (), { self with
      spent := self.spent + amount
      transactionsUsed := self.transactionsUsed + 1 })

end SessionKey

/-! ## As envelopes -/

/-- A call at a height. -/
structure Spend where
  height : UInt64
  amount : TensionValue
  deriving DecidableEq

theorem least_neg : (-2 ^ 127 : Int) < 0 := by decide

theorem i128Max_nonneg : 0 ≤ i128Max := by decide

theorem raw_le_max (v : TensionValue) : v.raw.val ≤ i128Max := v.raw.le_max

/-- A counter below a limit does not wrap. -/
theorem toNat_add_one_of_lt {n limit : UInt64} (h : n.toNat < limit.toNat) :
    (n + 1).toNat = n.toNat + 1 := by
  have hmax := limit.toNat_lt
  rw [UInt64.toNat_add, UInt64.toNat_one, Nat.mod_eq_of_lt (by omega)]

namespace CapabilityLease

def Admits (self : CapabilityLease) (c : Spend) : Prop :=
  self.isValid c.height = true ∧ self.hasActions = true ∧ self.hasBudget c.amount = true

instance (self : CapabilityLease) (c : Spend) : Decidable (self.Admits c) :=
  inferInstanceAs (Decidable (_ ∧ _ ∧ _))

theorem recordSpend_of_admits {self : CapabilityLease} {c : Spend} (h : self.Admits c) :
    self.recordSpend c.height c.amount = (.ok (), { self with
      spent := self.spent + c.amount
      actionsTaken := self.actionsTaken + 1 }) := by
  simp [recordSpend, h.1, h.2.1, h.2.2]

theorem recordSpend_refused {self : CapabilityLease} {c : Spend} (h : ¬ self.Admits c) :
    ∃ e, self.recordSpend c.height c.amount = (.error e, self) := by
  unfold recordSpend
  by_cases hvalid : self.isValid c.height = true
  · by_cases hactions : self.hasActions = true
    · by_cases hbudget : self.hasBudget c.amount = true
      · exact absurd ⟨hvalid, hactions, hbudget⟩ h
      · exact ⟨_, by simp only [hvalid, hactions, hbudget]; rfl⟩
    · exact ⟨_, by simp only [hvalid, hactions]; rfl⟩
  · exact ⟨_, by simp only [hvalid]; rfl⟩

def IsLive (self : CapabilityLease) (c : Spend) : Prop :=
  self.revoked = false ∧ (self.validUntil = 0 ∨ c.height ≤ self.validUntil)

theorem Admits.isLive {self : CapabilityLease} {c : Spend} (h : self.Admits c) : self.IsLive c := by
  have hvalid := h.1
  simp only [isValid, Bool.and_eq_true, Bool.or_eq_true, Bool.not_eq_true', decide_eq_true_eq]
    at hvalid
  exact ⟨hvalid.1.1, hvalid.2⟩

theorem Admits.budget {self : CapabilityLease} {c : Spend} (h : self.Admits c) :
    max (-2 ^ 127) (min i128Max (self.spent.raw.val + c.amount.raw.val)) ≤ self.budget.raw.val := by
  have hbudget := h.2.2
  simp only [hasBudget, decide_eq_true_eq] at hbudget
  exact hbudget

theorem Admits.actions {self : CapabilityLease} {c : Spend} (h : self.Admits c)
    (hlimit : self.maxActions ≠ 0) : self.actionsTaken.toNat < self.maxActions.toNat := by
  have hactions := h.2.1
  simp only [hasActions, Bool.or_eq_true, decide_eq_true_eq] at hactions
  exact UInt64.lt_iff_toNat_lt.mp (hactions.resolve_left hlimit)

theorem admits_budget (self : CapabilityLease) (c : Spend) (a : Int)
    (hspend : some c.amount.raw.val = some a) (h : self.Admits c) :
    max (-2 ^ 127) (min i128Max (self.spent.raw.val + a)) ≤ self.budget.raw.val :=
  Option.some_inj.mp hspend ▸ h.budget

theorem admitted (self : CapabilityLease) (c : Spend) (a : Int)
    (hspend : some c.amount.raw.val = some a) (h : self.Admits c) :
    (self.recordSpend c.height c.amount).1 = .ok ()
      ∧ (self.recordSpend c.height c.amount).2.spent.raw.val
        = max (-2 ^ 127) (min i128Max (self.spent.raw.val + a))
      ∧ (self.recordSpend c.height c.amount).2.budget.raw.val = self.budget.raw.val
      ∧ (self.recordSpend c.height c.amount).2.maxActions.toNat = self.maxActions.toNat := by
  rw [recordSpend_of_admits h, ← Option.some_inj.mp hspend]
  exact ⟨rfl, rfl, rfl, rfl⟩

theorem refused (self : CapabilityLease) (c : Spend) (a : Int)
    (_ : some c.amount.raw.val = some a) (h : ¬ self.Admits c) :
    ∃ e, self.recordSpend c.height c.amount = (.error e, self) :=
  recordSpend_refused h

/-- No call resets a lease. -/
theorem reset (self : CapabilityLease) (c : Spend) (h : some c.amount.raw.val = none) :
    (self.recordSpend c.height c.amount).1 = .ok ()
      ∧ (self.recordSpend c.height c.amount).2.spent.raw.val = 0
      ∧ (self.recordSpend c.height c.amount).2.budget.raw.val = self.budget.raw.val
      ∧ (self.recordSpend c.height c.amount).2.maxActions.toNat = self.maxActions.toNat
      ∧ self.IsLive c :=
  absurd h (Option.some_ne_none _)

theorem budget_le (self : CapabilityLease) : self.budget.raw.val ≤ i128Max := raw_le_max _

def envelope : Envelope CapabilityLease Spend where
  call self c := self.recordSpend c.height c.amount
  spend c := some c.amount.raw.val
  spent self := self.spent.raw.val
  budget self := self.budget.raw.val
  limit self := self.maxActions.toNat
  least := -2 ^ 127
  most := i128Max
  Admits := Admits
  Live := IsLive
  least_neg := Sccgub.least_neg
  most_nonneg := i128Max_nonneg
  budget_le := budget_le
  admits_budget := admits_budget
  admitted := admitted
  refused := refused
  reset := reset

/-- What an admitted spend needs besides: it is not negative, and the sum stays
in range. -/
def SpendFits (s : Envelope.Run CapabilityLease) (c : Spend) : Prop :=
  s.record.Admits c →
    0 ≤ c.amount.raw.val ∧ s.record.spent.raw.val + c.amount.raw.val ≤ i128Max

instance (s : Envelope.Run CapabilityLease) (c : Spend) : Decidable (SpendFits s c) :=
  inferInstanceAs (Decidable (_ → _))

/-- The counter has seen what was taken. -/
def Counted (s : Envelope.Run CapabilityLease) : Prop :=
  s.record.maxActions ≠ 0 → s.taken.length ≤ s.record.actionsTaken.toNat

theorem Counted.step {s : Envelope.Run CapabilityLease} {c : Spend} (h : Counted s) :
    Counted (envelope.step s c) := by
  by_cases hadmits : s.record.Admits c
  · rw [envelope.step_of_admits rfl hadmits]
    show Counted ⟨(s.record.recordSpend c.height c.amount).2, _⟩
    rw [recordSpend_of_admits hadmits]
    intro hlimit
    have hlength := h hlimit
    show (c.amount.raw.val :: s.taken).length ≤ (s.record.actionsTaken + 1).toNat
    rw [toNat_add_one_of_lt (hadmits.actions hlimit), List.length_cons]
    omega
  · rw [envelope.step_of_refused rfl hadmits]
    exact h

/-- The lease asks for the rest itself. -/
theorem sound_iff {s : Envelope.Run CapabilityLease} {c : Spend} (h : Counted s) :
    envelope.Sound s c ↔ SpendFits s c := by
  constructor
  · intro hsound hadmits
    exact (hsound _ rfl hadmits).1
  · rintro hfits a hspend hadmits
    obtain rfl : c.amount.raw.val = a := Option.some_inj.mp hspend
    refine ⟨hfits hadmits, hadmits.isLive, fun hlimit => ?_⟩
    have hne : s.record.maxActions ≠ 0 := by
      rintro hzero
      exact hlimit (congrArg UInt64.toNat hzero)
    exact (h hne).trans_lt (hadmits.actions hne)

end CapabilityLease

namespace AutonomyBudget

/-- A call on the budget. -/
inductive Call where
  | recordLocalAction (spend : TensionValue)
  | settle (height : UInt64)
  deriving DecidableEq

def call (self : AutonomyBudget) : Call → Except String Unit × AutonomyBudget
  | .recordLocalAction spend => self.recordLocalAction spend
  | .settle height => (.ok (), self.settle height)

def Call.spend? : Call → Option Int
  | .recordLocalAction spend => some spend.raw.val
  | .settle _ => none

def Admits (self : AutonomyBudget) : Call → Prop
  | .recordLocalAction spend => self.canActLocally spend = true
  | .settle _ => True

theorem recordLocalAction_of_can {self : AutonomyBudget} {spend : TensionValue}
    (h : self.canActLocally spend = true) : self.recordLocalAction spend = (.ok (), { self with
      pendingSpend := self.pendingSpend + spend
      pendingActions := self.pendingActions + 1 }) := by
  simp [recordLocalAction, h]

theorem can_iff {self : AutonomyBudget} {spend : TensionValue} :
    self.canActLocally spend = true ↔
      max (-2 ^ 127) (min i128Max (self.pendingSpend.raw.val + spend.raw.val))
          ≤ self.maxUnconfirmedSpend.raw.val
        ∧ (self.maxUnconfirmedActions = 0 ∨ self.pendingActions < self.maxUnconfirmedActions) := by
  simp only [canActLocally, Bool.and_eq_true, Bool.or_eq_true, decide_eq_true_eq]
  exact Iff.rfl

theorem budget_le (self : AutonomyBudget) : self.maxUnconfirmedSpend.raw.val ≤ i128Max :=
  raw_le_max _

theorem admits_budget (self : AutonomyBudget) (c : Call) (a : Int) (hspend : c.spend? = some a)
    (h : self.Admits c) :
    max (-2 ^ 127) (min i128Max (self.pendingSpend.raw.val + a))
      ≤ self.maxUnconfirmedSpend.raw.val := by
  cases c with
  | recordLocalAction spend =>
      rw [← Option.some_inj.mp hspend]
      exact (can_iff.mp h).1
  | settle height => cases hspend

theorem admitted (self : AutonomyBudget) (c : Call) (a : Int) (hspend : c.spend? = some a)
    (h : self.Admits c) : (self.call c).1 = .ok ()
      ∧ (self.call c).2.pendingSpend.raw.val
        = max (-2 ^ 127) (min i128Max (self.pendingSpend.raw.val + a))
      ∧ (self.call c).2.maxUnconfirmedSpend.raw.val = self.maxUnconfirmedSpend.raw.val
      ∧ (self.call c).2.maxUnconfirmedActions.toNat = self.maxUnconfirmedActions.toNat := by
  cases c with
  | recordLocalAction spend =>
      rw [call, recordLocalAction_of_can h, ← Option.some_inj.mp hspend]
      exact ⟨rfl, rfl, rfl, rfl⟩
  | settle height => cases hspend

theorem refused (self : AutonomyBudget) (c : Call) (a : Int) (_ : c.spend? = some a)
    (h : ¬ self.Admits c) : ∃ e, self.call c = (.error e, self) := by
  cases c with
  | recordLocalAction spend =>
      have hcan : self.canActLocally spend = false := by simpa [Admits] using h
      exact ⟨_, by simp only [call, recordLocalAction, hcan]; rfl⟩
  | settle height => exact absurd trivial h

/-- Nothing revokes the budget, and it does not expire. -/
theorem reset (self : AutonomyBudget) (c : Call) (h : c.spend? = none) :
    (self.call c).1 = .ok () ∧ (self.call c).2.pendingSpend.raw.val = 0
      ∧ (self.call c).2.maxUnconfirmedSpend.raw.val = self.maxUnconfirmedSpend.raw.val
      ∧ (self.call c).2.maxUnconfirmedActions.toNat = self.maxUnconfirmedActions.toNat ∧ True := by
  cases c with
  | recordLocalAction spend => cases h
  | settle height => exact ⟨rfl, rfl, rfl, rfl, trivial⟩

def envelope : Envelope AutonomyBudget Call where
  call := call
  spend := Call.spend?
  spent self := self.pendingSpend.raw.val
  budget self := self.maxUnconfirmedSpend.raw.val
  limit self := self.maxUnconfirmedActions.toNat
  least := -2 ^ 127
  most := i128Max
  Admits := Admits
  Live _ _ := True
  least_neg := Sccgub.least_neg
  most_nonneg := i128Max_nonneg
  budget_le := budget_le
  admits_budget := admits_budget
  admitted := admitted
  refused := refused
  reset := reset

/-- What an action needs besides: its spend is not negative, and the sum stays in
range. -/
def ActionFits (s : Envelope.Run AutonomyBudget) : Call → Prop
  | .recordLocalAction spend => s.record.canActLocally spend = true →
      0 ≤ spend.raw.val ∧ s.record.pendingSpend.raw.val + spend.raw.val ≤ i128Max
  | .settle _ => True

instance (s : Envelope.Run AutonomyBudget) : (c : Call) → Decidable (ActionFits s c)
  | .recordLocalAction _ => inferInstanceAs (Decidable (_ → _))
  | .settle _ => .isTrue trivial

/-- The counter has seen what was taken. -/
def Counted (s : Envelope.Run AutonomyBudget) : Prop :=
  s.record.maxUnconfirmedActions ≠ 0 → s.taken.length ≤ s.record.pendingActions.toNat

theorem actions_lt {self : AutonomyBudget} {spend : TensionValue}
    (h : self.canActLocally spend = true) (hlimit : self.maxUnconfirmedActions ≠ 0) :
    self.pendingActions.toNat < self.maxUnconfirmedActions.toNat :=
  UInt64.lt_iff_toNat_lt.mp ((can_iff.mp h).2.resolve_left hlimit)

theorem Counted.step {s : Envelope.Run AutonomyBudget} {c : Call} (h : Counted s) :
    Counted (envelope.step s c) := by
  cases c with
  | settle height => exact fun _ => Nat.zero_le _
  | recordLocalAction spend =>
      by_cases hcan : s.record.canActLocally spend = true
      · rw [@Envelope.step_of_admits _ _ envelope s (.recordLocalAction spend) _ rfl hcan]
        show Counted ⟨(s.record.recordLocalAction spend).2, _⟩
        rw [recordLocalAction_of_can hcan]
        intro hlimit
        have hlength := h hlimit
        show (spend.raw.val :: s.taken).length ≤ (s.record.pendingActions + 1).toNat
        rw [toNat_add_one_of_lt (actions_lt hcan hlimit), List.length_cons]
        omega
      · rw [@Envelope.step_of_refused _ _ envelope s (.recordLocalAction spend) _ rfl hcan]
        exact h

theorem sound_iff {s : Envelope.Run AutonomyBudget} {c : Call} (h : Counted s) :
    envelope.Sound s c ↔ ActionFits s c := by
  cases c with
  | settle height => exact iff_of_true (fun a hspend => by cases hspend) trivial
  | recordLocalAction spend =>
      constructor
      · intro hsound hcan
        exact (hsound _ rfl hcan).1
      · rintro hfits a hspend hcan
        obtain rfl : spend.raw.val = a := Option.some_inj.mp hspend
        refine ⟨hfits hcan, trivial, fun hlimit => ?_⟩
        have hne : s.record.maxUnconfirmedActions ≠ 0 := by
          rintro hzero
          exact hlimit (congrArg UInt64.toNat hzero)
        exact (h hne).trans_lt (actions_lt hcan hne)

end AutonomyBudget

namespace SessionKey

def IsLive (self : SessionKey) (c : Spend) : Prop :=
  self.revoked = false ∧ c.height ≤ self.expiresAtBlock

def Admits (self : SessionKey) (c : Spend) : Prop := self.canSpend c.amount = true

theorem recordUse_of_can {self : SessionKey} {amount : TensionValue}
    (h : self.canSpend amount = true) : self.recordUse amount = (.ok (), { self with
      spent := self.spent + amount
      transactionsUsed := self.transactionsUsed + 1 }) := by
  simp [recordUse, h]

theorem budget_le (self : SessionKey) : self.maxTotalSpend.raw.val ≤ i128Max := raw_le_max _

theorem admits_budget (self : SessionKey) (c : Spend) (a : Int)
    (hspend : some c.amount.raw.val = some a) (h : self.Admits c) :
    max (-2 ^ 127) (min i128Max (self.spent.raw.val + a)) ≤ self.maxTotalSpend.raw.val := by
  simp only [Admits, canSpend, Bool.and_eq_true, decide_eq_true_eq] at h
  rw [← Option.some_inj.mp hspend]
  exact h.2

theorem admitted (self : SessionKey) (c : Spend) (a : Int)
    (hspend : some c.amount.raw.val = some a) (h : self.Admits c) :
    (self.recordUse c.amount).1 = .ok ()
      ∧ (self.recordUse c.amount).2.spent.raw.val
        = max (-2 ^ 127) (min i128Max (self.spent.raw.val + a))
      ∧ (self.recordUse c.amount).2.maxTotalSpend.raw.val = self.maxTotalSpend.raw.val
      ∧ (self.recordUse c.amount).2.maxTransactions.toNat = self.maxTransactions.toNat := by
  rw [recordUse_of_can h, ← Option.some_inj.mp hspend]
  exact ⟨rfl, rfl, rfl, rfl⟩

theorem refused (self : SessionKey) (c : Spend) (a : Int) (_ : some c.amount.raw.val = some a)
    (h : ¬ self.Admits c) : ∃ e, self.recordUse c.amount = (.error e, self) := by
  have hcan : self.canSpend c.amount = false := by simpa [Admits] using h
  exact ⟨_, by simp only [recordUse, hcan]; rfl⟩

theorem reset (self : SessionKey) (c : Spend) (h : some c.amount.raw.val = none) :
    (self.recordUse c.amount).1 = .ok () ∧ (self.recordUse c.amount).2.spent.raw.val = 0
      ∧ (self.recordUse c.amount).2.maxTotalSpend.raw.val = self.maxTotalSpend.raw.val
      ∧ (self.recordUse c.amount).2.maxTransactions.toNat = self.maxTransactions.toNat
      ∧ self.IsLive c :=
  absurd h (Option.some_ne_none _)

def envelope : Envelope SessionKey Spend where
  call self c := self.recordUse c.amount
  spend c := some c.amount.raw.val
  spent self := self.spent.raw.val
  budget self := self.maxTotalSpend.raw.val
  limit self := self.maxTransactions.toNat
  least := -2 ^ 127
  most := i128Max
  Admits := Admits
  Live := IsLive
  least_neg := Sccgub.least_neg
  most_nonneg := i128Max_nonneg
  budget_le := budget_le
  admits_budget := admits_budget
  admitted := admitted
  refused := refused
  reset := reset

/-- What a use needs besides, all of which is left to the caller. -/
def UseFits (s : Envelope.Run SessionKey) (c : Spend) : Prop :=
  s.record.canSpend c.amount = true →
    (0 ≤ c.amount.raw.val ∧ s.record.spent.raw.val + c.amount.raw.val ≤ i128Max)
      ∧ s.record.revoked = false ∧ c.height ≤ s.record.expiresAtBlock
      ∧ (s.record.maxTransactions ≠ 0 → s.taken.length < s.record.maxTransactions.toNat)

instance (s : Envelope.Run SessionKey) (c : Spend) : Decidable (UseFits s c) :=
  inferInstanceAs (Decidable (_ → _))

theorem sound_iff {s : Envelope.Run SessionKey} {c : Spend} :
    envelope.Sound s c ↔ UseFits s c := by
  have hlimit : s.record.maxTransactions.toNat ≠ 0 ↔ s.record.maxTransactions ≠ 0 :=
    not_congr ⟨fun h => UInt64.toNat_inj.mp h, congrArg UInt64.toNat⟩
  constructor
  · intro hsound hcan
    obtain ⟨hfits, hlive, hbelow⟩ := hsound _ rfl hcan
    exact ⟨hfits, hlive.1, hlive.2, fun hne => hbelow (hlimit.mpr hne)⟩
  · rintro huse a hspend hcan
    obtain rfl : c.amount.raw.val = a := Option.some_inj.mp hspend
    obtain ⟨hfits, hrevoked, hheight, hbelow⟩ := huse hcan
    exact ⟨hfits, ⟨hrevoked, hheight⟩, fun hne => hbelow (hlimit.mp hne)⟩

end SessionKey

/-! ## Runs -/

theorem val_eq_zero {v : TensionValue} (h : v = .zero) : v.raw.val = 0 := by
  rw [h]
  rfl

/-- When the three envelopes hold, across every run that starts with nothing
spent. -/
theorem envelopes_hold_iff (lease : CapabilityLease) (local' : AutonomyBudget)
    (session : SessionKey) (hlease : lease.spent = .zero) (hlocal : local'.pendingSpend = .zero)
    (hsession : session.spent = .zero) (spends : List Spend) (actions : List AutonomyBudget.Call)
    (uses : List Spend) :
    (CapabilityLease.envelope.Holds ⟨lease, []⟩ spends ↔ 0 ≤ lease.budget.raw.val
        ∧ Runs.Along CapabilityLease.envelope.step CapabilityLease.SpendFits ⟨lease, []⟩ spends)
      ∧ (AutonomyBudget.envelope.Holds ⟨local', []⟩ actions
        ↔ 0 ≤ local'.maxUnconfirmedSpend.raw.val
        ∧ Runs.Along AutonomyBudget.envelope.step AutonomyBudget.ActionFits ⟨local', []⟩ actions)
      ∧ (SessionKey.envelope.Holds ⟨session, []⟩ uses ↔ 0 ≤ session.maxTotalSpend.raw.val
        ∧ Runs.Along SessionKey.envelope.step SessionKey.UseFits ⟨session, []⟩ uses) := by
  refine ⟨?_, ?_, ?_⟩
  · refine Envelope.holds_iff (K := CapabilityLease.Counted) (val_eq_zero hlease)
      (fun _ => Nat.zero_le _) ?_ ?_
    · intro s c _ h _
      exact CapabilityLease.Counted.step h
    · intro s c h
      exact CapabilityLease.sound_iff h
  · refine Envelope.holds_iff (K := AutonomyBudget.Counted) (val_eq_zero hlocal)
      (fun _ => Nat.zero_le _) ?_ ?_
    · intro s c _ h _
      exact AutonomyBudget.Counted.step h
    · intro s c h
      exact AutonomyBudget.sound_iff h
  · refine Envelope.holds_iff (K := fun _ => True) (val_eq_zero hsession) trivial ?_ ?_
    · intro s c _ _ _
      trivial
    · intro s c _
      exact SessionKey.sound_iff

/-- A hundred units and three calls, revoked or not. -/
def sampleLease (revoked : Bool) : CapabilityLease :=
  ⟨0, 50, .fromInteger 100, .zero, 3, 0, revoked⟩

def sampleBudget : AutonomyBudget := ⟨.fromInteger 100, 3, .zero, 0, 0⟩

def sampleSession (revoked : Bool) : SessionKey :=
  ⟨.fromInteger 100, .fromInteger 100, .zero, 3, 0, 50, revoked⟩

/-- Two spends of forty units, and a third one that is refused. -/
def threeSpends : List Spend := List.replicate 3 ⟨10, .fromInteger 40⟩

def threeActions : List AutonomyBudget.Call :=
  [.recordLocalAction (.fromInteger 40), .recordLocalAction (.fromInteger 60), .settle 10,
    .recordLocalAction (.fromInteger 40)]

theorem samples_hold : CapabilityLease.envelope.Holds ⟨sampleLease false, []⟩ threeSpends
    ∧ AutonomyBudget.envelope.Holds ⟨sampleBudget, []⟩ threeActions
    ∧ SessionKey.envelope.Holds ⟨sampleSession false, []⟩ threeSpends := by
  obtain ⟨hlease, hlocal, hsession⟩ := envelopes_hold_iff (sampleLease false) sampleBudget
    (sampleSession false) rfl rfl rfl threeSpends threeActions threeSpends
  exact ⟨hlease.mpr (by decide), hlocal.mpr (by decide), hsession.mpr (by decide)⟩

/-- A negative amount makes room on a lease and on a budget for more than they
allow, and a revoked session key is used. -/
theorem envelopes_broken :
    ¬ CapabilityLease.envelope.Holds ⟨sampleLease false, []⟩
        [⟨10, .fromInteger (-50)⟩, ⟨10, .fromInteger 150⟩]
      ∧ ¬ AutonomyBudget.envelope.Holds ⟨sampleBudget, []⟩
        [.recordLocalAction (.fromInteger (-50)), .recordLocalAction (.fromInteger 150)]
      ∧ ¬ SessionKey.envelope.Holds ⟨sampleSession true, []⟩ [⟨10, .fromInteger 40⟩] := by
  refine ⟨?_, ?_, ?_⟩
  · rintro ⟨-, -, hkept, -⟩
    exact absurd hkept.within.budget (by decide)
  · rintro ⟨-, -, hkept, -⟩
    exact absurd hkept.within.budget (by decide)
  · rintro ⟨-, hkept, -⟩
    exact absurd (hkept.live (by decide)).1 (by decide)

end Sccgub
