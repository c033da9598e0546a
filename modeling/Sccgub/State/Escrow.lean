import Mathlib
import Sccgub.State.Apply

/-!
# Escrow

Funds locked under a condition: created by debiting the sender, and paid out
once, to the recipient or back to the sender.

Registry and ledger are changed in place.  Every operation is given the two as
they are and returns them as it leaves them, also where it fails.

The registry keeps a list that only grows and an index from ids to positions.
The id is a hash of sender, recipient, amount and height, so a second escrow of
the same kind in one block takes over the id of the first.  That is the only way
for an escrow to get lost: the active ones can be looked up in every state of a
run exactly if no creation takes the id of one that is still active.
-/

namespace Sccgub

open Bincode FixedWidth

inductive EscrowStatus where
  | active
  | released
  | refunded
  | disputed
  deriving DecidableEq, Inhabited

def EscrowStatus.debug : EscrowStatus → String
  | active => "Active"
  | released => "Released"
  | refunded => "Refunded"
  | disputed => "Disputed"

inductive EscrowCondition where
  /-- The key holds the value, and the authority wrote it in this block. -/
  | stateProof (key expectedValue : Bytes) (requiredAuthority : Option AgentId)
  | arbiterApproval (arbiter : AgentId)
  | timeLocked (releaseAt : UInt64)
  deriving DecidableEq, Inhabited

structure Escrow where
  id : Hash
  sender : AgentId
  recipient : AgentId
  amount : TensionValue
  status : EscrowStatus
  createdAt : UInt64
  expiresAt : UInt64
  condition : EscrowCondition
  deriving DecidableEq

structure EscrowRegistry where
  escrows : List Escrow := []
  index : Std.ExtTreeMap Hash Nat := ∅

/-- What the operations are given to change. -/
structure EscrowStore where
  registry : EscrowRegistry
  balances : BalanceLedger

/-- The bytes whose hash is the id. -/
def escrowIdBytes (sender recipient : AgentId) (amount : TensionValue) (height : UInt64) : Bytes :=
  ((Codec.bytes 32).pair <| (Codec.bytes 32).pair <| I128.codec.pair Codec.u64).enc
    (sender, recipient, amount.raw, height)

/-- Whether an active escrow is to be released, as of a state and a height. -/
def EscrowCondition.isMet (state : ManagedWorldState) (currentHeight : UInt64)
    (blockWriters : Std.ExtTreeMap Bytes Hash) : EscrowCondition → Bool
  | stateProof key expectedValue requiredAuthority =>
      state.trie.get key = some expectedValue &&
        match requiredAuthority with
        | none => true
        | some required => blockWriters[key]? = some required
  | timeLocked releaseAt => releaseAt ≤ currentHeight
  | arbiterApproval _ => false

namespace EscrowRegistry

/-- The position the index has for an id, with the escrow there.  A position
beyond the list is a panic in the source. -/
def lookup (self : EscrowRegistry) (escrowId : Hash) : Except String (Nat × Escrow) :=
  match self.index[escrowId]? with
  | none => .error "Escrow not found"
  | some idx =>
      match self.escrows[idx]? with
      | none => .error "index out of bounds"
      | some escrow => .ok (idx, escrow)

def get (self : EscrowRegistry) (id : Hash) : Option Escrow :=
  self.index[id]?.bind fun idx => self.escrows[idx]?

def setStatus (self : EscrowRegistry) (idx : Nat) (escrow : Escrow) (status : EscrowStatus) :
    EscrowRegistry :=
  { self with escrows := self.escrows.set idx { escrow with status } }

def totalLocked (self : EscrowRegistry) : TensionValue :=
  (self.escrows.filter fun e => e.status = .active).foldl (fun acc e => acc + e.amount) .zero

end EscrowRegistry

/-- The sum over all accounts. -/
def BalanceLedger.totalSupply (self : BalanceLedger) : TensionValue :=
  self.balances.values.foldl (fun acc v => acc + v) .zero

namespace EscrowStore

def create [Crypto] (sender recipient : AgentId) (amount : TensionValue)
    (condition : EscrowCondition) (currentHeight timeoutBlocks : UInt64) (s : EscrowStore) :
    Except String Hash × EscrowStore :=
  if amount.raw.val ≤ 0 then (.error "Escrow amount must be positive", s)
  else if sender = recipient then (.error "Cannot escrow to self", s)
  else if timeoutBlocks = 0 then (.error "Escrow timeout must be > 0 blocks", s)
  else
    match s.balances.debit sender amount with
    | .error e => (.error e, s)
    | .ok balances =>
        let id := blake3Hash (escrowIdBytes sender recipient amount currentHeight)
        let escrow : Escrow :=
          { id, sender, recipient, amount
            status := .active
            createdAt := currentHeight
            expiresAt := saturatingAdd currentHeight timeoutBlocks
            condition }
        (.ok id,
          { registry :=
              ⟨s.registry.escrows ++ [escrow],
                s.registry.index.insert id s.registry.escrows.length⟩
            balances })

def release (escrowId : Hash) (s : EscrowStore) : Except String Unit × EscrowStore :=
  match s.registry.lookup escrowId with
  | .error e => (.error e, s)
  | .ok (idx, escrow) =>
      if escrow.status ≠ .active then
        (.error s!"Escrow is {escrow.status.debug}, not Active", s)
      else
        (.ok (), ⟨s.registry.setStatus idx escrow .released,
          s.balances.credit escrow.recipient escrow.amount⟩)

def refund (escrowId : Hash) (currentHeight : UInt64) (s : EscrowStore) :
    Except String Unit × EscrowStore :=
  match s.registry.lookup escrowId with
  | .error e => (.error e, s)
  | .ok (idx, escrow) =>
      if escrow.status ≠ .active then
        (.error s!"Escrow is {escrow.status.debug}, not Active", s)
      else if currentHeight < escrow.expiresAt then
        (.error s!"Escrow not expired yet (expires at block {escrow.expiresAt})", s)
      else
        (.ok (), ⟨s.registry.setStatus idx escrow .refunded,
          s.balances.credit escrow.sender escrow.amount⟩)

/-- The loop over all escrows: ids released, the escrows after it, the ledger. -/
def releaseDue (isMet : EscrowCondition → Bool) :
    List Escrow → BalanceLedger → List Hash × List Escrow × BalanceLedger
  | [], balances => ([], [], balances)
  | escrow :: rest, balances =>
      if escrow.status = .active ∧ isMet escrow.condition = true then
        let after := releaseDue isMet rest (balances.credit escrow.recipient escrow.amount)
        (escrow.id :: after.1, { escrow with status := .released } :: after.2.1, after.2.2)
      else
        let after := releaseDue isMet rest balances
        (after.1, escrow :: after.2.1, after.2.2)

def checkAndRelease (state : ManagedWorldState) (currentHeight : UInt64)
    (blockWriters : Std.ExtTreeMap Bytes Hash) (s : EscrowStore) : List Hash × EscrowStore :=
  let after := releaseDue (EscrowCondition.isMet state currentHeight blockWriters)
    s.registry.escrows s.balances
  (after.1, ⟨{ s.registry with escrows := after.2.1 }, after.2.2⟩)

end EscrowStore

/-! ## The loop in closed form -/

/-- An escrow after the loop has looked at it. -/
def Escrow.sweep (isMet : EscrowCondition → Bool) (e : Escrow) : Escrow :=
  if e.status = .active ∧ isMet e.condition = true then { e with status := .released } else e

/-- The escrows the loop releases. -/
def dueEscrows (isMet : EscrowCondition → Bool) (escrows : List Escrow) : List Escrow :=
  escrows.filter fun e => e.status = .active ∧ isMet e.condition = true

theorem dueEscrows_cons (isMet : EscrowCondition → Bool) (e : Escrow) (rest : List Escrow) :
    dueEscrows isMet (e :: rest) =
      if e.status = .active ∧ isMet e.condition = true then e :: dueEscrows isMet rest
      else dueEscrows isMet rest := by
  unfold dueEscrows
  rw [List.filter_cons]
  by_cases hdue : e.status = .active ∧ isMet e.condition = true
  · rw [if_pos hdue, if_pos (decide_eq_true hdue)]
  · rw [if_neg hdue, decide_eq_false hdue, if_neg Bool.false_ne_true]

theorem releaseDue_eq (isMet : EscrowCondition → Bool) (escrows : List Escrow)
    (balances : BalanceLedger) :
    EscrowStore.releaseDue isMet escrows balances =
      ((dueEscrows isMet escrows).map Escrow.id, escrows.map (Escrow.sweep isMet),
        (dueEscrows isMet escrows).foldl (fun b e => b.credit e.recipient e.amount) balances) := by
  induction escrows generalizing balances with
  | nil => rfl
  | cons escrow rest ih =>
      rw [EscrowStore.releaseDue, dueEscrows_cons, List.map_cons, Escrow.sweep]
      by_cases hdue : escrow.status = .active ∧ isMet escrow.condition = true
      · simp only [if_pos hdue, ih, List.map_cons, List.foldl_cons]
      · simp only [if_neg hdue, ih]

theorem Escrow.sweep_of_active {isMet : EscrowCondition → Bool} {e : Escrow}
    (h : (e.sweep isMet).status = .active) : e.sweep isMet = e := by
  unfold sweep at h ⊢
  split at h
  · cases h
  · rename_i hdue
    rw [if_neg hdue]

/-! ## Calls -/

inductive EscrowCall where
  | create (sender recipient : AgentId) (amount : TensionValue) (condition : EscrowCondition)
      (currentHeight timeoutBlocks : UInt64)
  | release (escrowId : Hash)
  | refund (escrowId : Hash) (currentHeight : UInt64)
  | checkAndRelease (state : ManagedWorldState) (currentHeight : UInt64)
      (blockWriters : Std.ExtTreeMap Bytes Hash)

namespace EscrowStore

variable [Crypto]

/-- The result as the ids it names, and the store as the call leaves it. -/
def perform (s : EscrowStore) : EscrowCall → Except String (List Hash) × EscrowStore
  | .create sender recipient amount condition currentHeight timeoutBlocks =>
      let (result, s) := s.create sender recipient amount condition currentHeight timeoutBlocks
      (result.map ([·]), s)
  | .release escrowId =>
      let (result, s) := s.release escrowId
      (result.map fun _ => [escrowId], s)
  | .refund escrowId currentHeight =>
      let (result, s) := s.refund escrowId currentHeight
      (result.map fun _ => [escrowId], s)
  | .checkAndRelease state currentHeight blockWriters =>
      let (released, s) := s.checkAndRelease state currentHeight blockWriters
      (.ok released, s)

def step (s : EscrowStore) (call : EscrowCall) : EscrowStore := (s.perform call).2

def run (s : EscrowStore) (calls : List EscrowCall) : EscrowStore := calls.foldl step s

/-! ## What one call does -/

/-- Everything a call can answer and do to the store. -/
inductive Moves (s : EscrowStore) : EscrowCall → Except String (List Hash) → EscrowStore → Prop where
  | refused {call : EscrowCall} {e : String} : Moves s call (.error e) s
  | created {sender recipient : AgentId} {amount : TensionValue} {condition : EscrowCondition}
      {currentHeight timeoutBlocks : UInt64} (hpos : 0 < amount.raw.val)
      (hparties : sender ≠ recipient) (htimeout : timeoutBlocks ≠ 0)
      (hfunds : amount.raw ≤ (s.balances.balanceOf sender).raw) :
      Moves s (.create sender recipient amount condition currentHeight timeoutBlocks)
        (.ok [blake3Hash (escrowIdBytes sender recipient amount currentHeight)])
        { registry :=
            ⟨s.registry.escrows ++
              [{ id := blake3Hash (escrowIdBytes sender recipient amount currentHeight)
                 sender, recipient, amount
                 status := .active
                 createdAt := currentHeight
                 expiresAt := saturatingAdd currentHeight timeoutBlocks
                 condition }],
              s.registry.index.insert
                (blake3Hash (escrowIdBytes sender recipient amount currentHeight))
                s.registry.escrows.length⟩
          balances := s.balances.importBalance sender (s.balances.balanceOf sender - amount) }
  | released {escrowId : Hash} {idx : Nat} {escrow : Escrow}
      (hindex : s.registry.index[escrowId]? = some idx)
      (hescrow : s.registry.escrows[idx]? = some escrow) (hactive : escrow.status = .active) :
      Moves s (.release escrowId) (.ok [escrowId])
        ⟨s.registry.setStatus idx escrow .released,
          s.balances.credit escrow.recipient escrow.amount⟩
  | refunded {escrowId : Hash} {currentHeight : UInt64} {idx : Nat} {escrow : Escrow}
      (hindex : s.registry.index[escrowId]? = some idx)
      (hescrow : s.registry.escrows[idx]? = some escrow) (hactive : escrow.status = .active)
      (hexpired : escrow.expiresAt ≤ currentHeight) :
      Moves s (.refund escrowId currentHeight) (.ok [escrowId])
        ⟨s.registry.setStatus idx escrow .refunded,
          s.balances.credit escrow.sender escrow.amount⟩
  | swept {state : ManagedWorldState} {currentHeight : UInt64}
      {blockWriters : Std.ExtTreeMap Bytes Hash} :
      Moves s (.checkAndRelease state currentHeight blockWriters)
        (.ok (s.checkAndRelease state currentHeight blockWriters).1)
        (s.checkAndRelease state currentHeight blockWriters).2

omit [Crypto] in
theorem lookup_eq_ok {r : EscrowRegistry} {escrowId : Hash} {idx : Nat} {escrow : Escrow} :
    r.lookup escrowId = .ok (idx, escrow) ↔
      r.index[escrowId]? = some idx ∧ r.escrows[idx]? = some escrow := by
  unfold EscrowRegistry.lookup
  constructor
  · intro h
    split at h
    · cases h
    · rename_i hindex
      split at h
      · cases h
      · rename_i hescrow
        cases h
        exact ⟨hindex, hescrow⟩
  · rintro ⟨hindex, hescrow⟩
    simp only [hindex, hescrow]

theorem moves (s : EscrowStore) (call : EscrowCall) :
    Moves s call (s.perform call).1 (s.step call) := by
  cases call with
  | create sender recipient amount condition currentHeight timeoutBlocks =>
      unfold step perform create BalanceLedger.debit
      dsimp only
      by_cases hpos : amount.raw.val ≤ 0
      · rw [if_pos hpos]
        exact .refused
      · rw [if_neg hpos]
        by_cases hparties : sender = recipient
        · rw [if_pos hparties]
          exact .refused
        · rw [if_neg hparties]
          by_cases htimeout : timeoutBlocks = 0
          · rw [if_pos htimeout]
            exact .refused
          · rw [if_neg htimeout]
            by_cases hfunds : (s.balances.balanceOf sender).raw < amount.raw
            · rw [if_pos hfunds]
              exact .refused
            · rw [if_neg hfunds]
              exact .created (not_le.mp hpos) hparties htimeout (Int.not_lt.mp hfunds)
  | release escrowId =>
      unfold step perform release
      dsimp only
      rcases hlookup : s.registry.lookup escrowId with e | ⟨idx, escrow⟩
      · exact .refused
      · obtain ⟨hindex, hescrow⟩ := lookup_eq_ok.mp hlookup
        by_cases hactive : escrow.status = .active
        · simp only [hactive, ne_eq, not_true_eq_false, if_false]
          exact .released hindex hescrow hactive
        · simp only [hactive, ne_eq, not_false_eq_true, if_true]
          exact .refused
  | refund escrowId currentHeight =>
      unfold step perform refund
      dsimp only
      rcases hlookup : s.registry.lookup escrowId with e | ⟨idx, escrow⟩
      · exact .refused
      · obtain ⟨hindex, hescrow⟩ := lookup_eq_ok.mp hlookup
        by_cases hactive : escrow.status = .active
        · simp only [hactive, ne_eq, not_true_eq_false, if_false]
          by_cases hexpired : currentHeight < escrow.expiresAt
          · simp only [hexpired, if_true]
            exact .refused
          · simp only [hexpired, if_false]
            exact .refunded hindex hescrow hactive (UInt64.not_lt.mp hexpired)
        · simp only [hactive, ne_eq, not_false_eq_true, if_true]
          exact .refused
  | checkAndRelease state currentHeight blockWriters => exact .swept

/-- A call that fails has changed nothing. -/
theorem step_of_error {s : EscrowStore} {call : EscrowCall} {e : String}
    (h : (s.perform call).1 = .error e) : s.step call = s := by
  have hmoves := s.moves call
  rw [h] at hmoves
  generalize s.step call = after at hmoves
  cases hmoves with
  | refused => rfl

end EscrowStore

/-! ## Reaching an escrow by its id -/

def Escrow.idBytes (e : Escrow) : Bytes := escrowIdBytes e.sender e.recipient e.amount e.createdAt

namespace EscrowRegistry

/-- Operations under the id of the escrow at a position act on that escrow. -/
structure ActsOn (r : EscrowRegistry) (i : Nat) (e : Escrow) : Prop where
  get : r.get e.id = some e
  release : ∀ balances, EscrowStore.release e.id ⟨r, balances⟩
    = (.ok (), ⟨r.setStatus i e .released, balances.credit e.recipient e.amount⟩)
  refund : ∀ balances currentHeight, e.expiresAt ≤ currentHeight →
    EscrowStore.refund e.id currentHeight ⟨r, balances⟩
      = (.ok (), ⟨r.setStatus i e .refunded, balances.credit e.sender e.amount⟩)

/-- No locked amount is out of reach. -/
def Accessible (r : EscrowRegistry) : Prop :=
  ∀ i e, r.escrows[i]? = some e → e.status = .active → r.ActsOn i e

theorem setStatus_inj {r : EscrowRegistry} {i j : Nat} {e e' : Escrow} {status : EscrowStatus}
    (hi : r.escrows[i]? = some e) (hactive : e.status = .active) (hstatus : status ≠ .active)
    (h : r.setStatus j e' status = r.setStatus i e status) : j = i := by
  by_contra hne
  have hescrows := congrArg (fun r : EscrowRegistry => r.escrows[i]?) h
  simp only [setStatus] at hescrows
  have hlt : i < r.escrows.length := (List.getElem?_eq_some_iff.mp hi).1
  rw [List.getElem?_set_ne hne, hi, List.getElem?_set_self hlt, Option.some_inj] at hescrows
  have hsame := congrArg Escrow.status hescrows
  exact hstatus (hsame.symm.trans hactive)

/-- This is a matter of where the index points. -/
theorem actsOn_iff {r : EscrowRegistry} {i : Nat} {e : Escrow} (hi : r.escrows[i]? = some e)
    (hactive : e.status = .active) : r.ActsOn i e ↔ r.index[e.id]? = some i := by
  constructor
  · intro h
    have hrelease := h.release ⟨∅⟩
    unfold EscrowStore.release at hrelease
    split at hrelease
    · cases hrelease
    · rename_i idx escrow hlookup
      obtain ⟨hindex, hescrow⟩ := EscrowStore.lookup_eq_ok.mp hlookup
      split at hrelease
      · cases hrelease
      · have hsame := congrArg (fun p : Except String Unit × EscrowStore => p.2.registry) hrelease
        rw [setStatus_inj hi hactive (by decide) hsame] at hindex
        exact hindex
  · intro hindex
    have hlookup : r.lookup e.id = .ok (i, e) := EscrowStore.lookup_eq_ok.mpr ⟨hindex, hi⟩
    refine ⟨?_, fun balances => ?_, fun balances currentHeight hexpired => ?_⟩
    · rw [get, hindex, Option.bind_some, hi]
    · simp only [EscrowStore.release, hlookup, hactive, ne_eq, not_true_eq_false, if_false]
    · simp only [EscrowStore.refund, hlookup, hactive, ne_eq, not_true_eq_false, if_false,
        if_neg (UInt64.not_lt.mpr hexpired)]

variable [Crypto]

/-- Ids are the hashes of their escrows, over these messages. -/
def Identified (messages : List Bytes) (r : EscrowRegistry) : Prop :=
  ∀ e ∈ r.escrows, e.id = blake3Hash e.idBytes ∧ e.idBytes ∈ messages

/-- Each call with the ledger it is given. -/
def runWith (r : EscrowRegistry) (calls : List (EscrowCall × BalanceLedger)) : EscrowRegistry :=
  calls.foldl (fun r call => (EscrowStore.step ⟨r, call.2⟩ call.1).registry) r

end EscrowRegistry

/-- The bytes that creations hash. -/
def EscrowCall.message? : EscrowCall → Option Bytes
  | create sender recipient amount _ currentHeight _ =>
      some (escrowIdBytes sender recipient amount currentHeight)
  | _ => none

/-- What a creation asks for. -/
structure EscrowStore.Creates (s : EscrowStore) (sender recipient : AgentId) (amount : TensionValue)
    (timeoutBlocks : UInt64) : Prop where
  positive : 0 < amount.raw.val
  parties : sender ≠ recipient
  timeout : timeoutBlocks ≠ 0
  funds : amount.raw ≤ (s.balances.balanceOf sender).raw

/-- A creation that goes through does not repeat sender, recipient, amount and
height of an active escrow. -/
def EscrowStore.Fresh (s : EscrowStore) : EscrowCall → Prop
  | .create sender recipient amount _ currentHeight timeoutBlocks =>
      s.Creates sender recipient amount timeoutBlocks →
        ∀ e ∈ s.registry.escrows, e.status = .active →
          ¬ (e.sender = sender ∧ e.recipient = recipient ∧ e.amount = amount
            ∧ e.createdAt = currentHeight)
  | _ => True

theorem escrowIdBytes_inj {sender recipient sender' recipient' : AgentId}
    {amount amount' : TensionValue} {height height' : UInt64}
    (h : escrowIdBytes sender recipient amount height
      = escrowIdBytes sender' recipient' amount' height') :
    sender = sender' ∧ recipient = recipient' ∧ amount = amount' ∧ height = height' := by
  have htuple := Codec.enc_inj _ (by simp) (by simp) (by simp) (by simp) h
  simp only [Prod.mk.injEq] at htuple
  obtain ⟨hsender, hrecipient, hamount, hheight⟩ := htuple
  exact ⟨hsender, hrecipient, congrArg TensionValue.mk hamount, hheight⟩

namespace EscrowRegistry

/-- The index points to every active escrow. -/
def Pointed (r : EscrowRegistry) : Prop :=
  ∀ (i : Nat) (e : Escrow), r.escrows[i]? = some e → e.status = .active → r.index[e.id]? = some i

theorem accessible_iff {r : EscrowRegistry} : r.Accessible ↔ r.Pointed := by
  constructor
  · intro h i e hi hactive
    exact (actsOn_iff hi hactive).mp (h i e hi hactive)
  · intro h i e hi hactive
    exact (actsOn_iff hi hactive).mpr (h i e hi hactive)

/-- Settling escrows moves no pointer. -/
theorem Pointed.of_settled {r r' : EscrowRegistry} (h : r.Pointed) (hindex : r'.index = r.index)
    (hactive : ∀ (i : Nat) (e : Escrow), r'.escrows[i]? = some e → e.status = .active →
      r.escrows[i]? = some e) : r'.Pointed := by
  intro i e hi hstatus
  rw [hindex]
  exact h i e (hactive i e hi hstatus) hstatus

theorem active_of_setStatus {r : EscrowRegistry} {idx i : Nat} {escrow e : Escrow}
    {status : EscrowStatus} (hstatus : status ≠ .active)
    (hi : (r.setStatus idx escrow status).escrows[i]? = some e) (hactive : e.status = .active) :
    r.escrows[i]? = some e := by
  simp only [setStatus] at hi
  rw [List.getElem?_set] at hi
  split at hi
  · split at hi
    · cases hi
      exact absurd hactive hstatus
    · cases hi
  · exact hi

end EscrowRegistry

namespace EscrowStore

variable [Crypto]

open EscrowRegistry

theorem Moves.identified {s s' : EscrowStore} {call : EscrowCall}
    {result : Except String (List Hash)} {messages : List Bytes} (h : Moves s call result s')
    (hid : s.registry.Identified messages) (hcall : ∀ m ∈ call.message?, m ∈ messages) :
    s'.registry.Identified messages := by
  cases h with
  | refused => exact hid
  | created hpos hparties htimeout hfunds =>
      intro e he
      rcases List.mem_append.mp he with hold | hnew
      · exact hid e hold
      · rw [List.mem_singleton.mp hnew]
        exact ⟨rfl, hcall _ rfl⟩
  | released hindex hescrow hactive =>
      intro e he
      rcases List.mem_or_eq_of_mem_set he with hold | rfl
      · exact hid e hold
      · have hsame := hid _ (List.mem_of_getElem? hescrow)
        exact hsame
  | refunded hindex hescrow hactive hexpired =>
      intro e he
      rcases List.mem_or_eq_of_mem_set he with hold | rfl
      · exact hid e hold
      · have hsame := hid _ (List.mem_of_getElem? hescrow)
        exact hsame
  | swept =>
      intro e he
      simp only [checkAndRelease, releaseDue_eq] at he
      obtain ⟨old, hold, rfl⟩ := List.mem_map.mp he
      have hsame := hid old hold
      unfold Escrow.sweep
      split <;> exact hsame

theorem Moves.pointed {s s' : EscrowStore} {call : EscrowCall}
    {result : Except String (List Hash)} {messages : List Bytes} (h : Moves s call result s')
    (hfree : CollisionFree {m | m ∈ messages}) (hid : s.registry.Identified messages)
    (hcall : ∀ m ∈ call.message?, m ∈ messages) (hfresh : s.Fresh call)
    (hpointed : s.registry.Pointed) : s'.registry.Pointed := by
  cases h with
  | refused => exact hpointed
  | @created sender recipient amount condition currentHeight timeoutBlocks hpos hparties htimeout
      hfunds =>
      intro i e hi hactive
      dsimp only at hi ⊢
      rw [Std.ExtTreeMap.getElem?_insert]
      rw [List.getElem?_append] at hi
      split at hi
      · have hmem := List.mem_of_getElem? hi
        obtain ⟨heid, hemsg⟩ := hid e hmem
        have hne : compare (blake3Hash (escrowIdBytes sender recipient amount currentHeight)) e.id
            ≠ .eq := by
          intro hcmp
          have heq := Std.LawfulEqCmp.eq_of_compare hcmp
          rw [heid] at heq
          obtain ⟨h1, h2, h3, h4⟩ := escrowIdBytes_inj (hfree (hcall _ rfl) hemsg heq)
          exact hfresh ⟨hpos, hparties, htimeout, hfunds⟩ e hmem hactive
            ⟨h1.symm, h2.symm, h3.symm, h4.symm⟩
        rw [if_neg hne]
        exact hpointed i e hi hactive
      · rename_i hlen
        obtain ⟨hlast, hnew⟩ := List.getElem?_eq_some_iff.mp hi
        simp only [List.length_singleton] at hlast
        have hpos : i = s.registry.escrows.length := by omega
        subst hpos
        simp only [Nat.sub_self, List.getElem_cons_zero] at hnew
        rw [← hnew, if_pos Std.ReflCmp.compare_self]
  | released hindex hescrow hactive =>
      exact hpointed.of_settled rfl fun i e hi => active_of_setStatus (by decide) hi
  | refunded hindex hescrow hactive hexpired =>
      exact hpointed.of_settled rfl fun i e hi => active_of_setStatus (by decide) hi
  | swept =>
      refine hpointed.of_settled rfl fun i e hi hactive => ?_
      simp only [checkAndRelease, releaseDue_eq, List.getElem?_map] at hi
      obtain ⟨old, hold, rfl⟩ := Option.map_eq_some_iff.mp hi
      rw [Escrow.sweep_of_active hactive]
      exact hold

/-- A creation that repeats an active escrow takes its pointer away. -/
theorem fresh_of_pointed {s : EscrowStore} {call : EscrowCall} {messages : List Bytes}
    (hid : s.registry.Identified messages) (h : (s.step call).registry.Pointed) : s.Fresh call := by
  cases call with
  | create sender recipient amount condition currentHeight timeoutBlocks =>
      rintro hcreates e hmem hactive ⟨rfl, rfl, rfl, rfl⟩
      obtain ⟨i, hlt, hi⟩ := List.getElem_of_mem hmem
      unfold step perform create BalanceLedger.debit at h
      dsimp only at h
      have hfunds : ¬ (s.balances.balanceOf e.sender).raw < e.amount.raw :=
        Int.not_lt.mpr hcreates.funds
      rw [if_neg (not_le.mpr hcreates.positive), if_neg hcreates.parties,
        if_neg hcreates.timeout, if_neg hfunds] at h
      have hpoints := h i e (by
        rw [List.getElem?_append_left hlt, List.getElem?_eq_some_iff]
        exact ⟨hlt, hi⟩) hactive
      rw [(hid e hmem).1, Escrow.idBytes] at hpoints
      dsimp only at hpoints
      rw [Std.ExtTreeMap.getElem?_insert_self] at hpoints
      have := Option.some_inj.mp hpoints
      omega
  | release escrowId => trivial
  | refund escrowId currentHeight => trivial
  | checkAndRelease state currentHeight blockWriters => trivial

end EscrowStore

namespace EscrowRegistry

variable [Crypto]

theorem runWith_append_singleton (r : EscrowRegistry) (calls : List (EscrowCall × BalanceLedger))
    (call : EscrowCall) (ledger : BalanceLedger) :
    r.runWith (calls ++ [(call, ledger)])
      = (EscrowStore.step ⟨r.runWith calls, ledger⟩ call).registry := by
  simp only [runWith, List.foldl_append, List.foldl_cons, List.foldl_nil]

theorem identified_runWith (calls : List (EscrowCall × BalanceLedger)) {messages : List Bytes}
    (hmsg : ∀ m ∈ calls.filterMap fun call => call.1.message?, m ∈ messages) :
    ((({} : EscrowRegistry).runWith calls).Identified messages) := by
  induction calls using List.reverseRecOn with
  | nil =>
      intro e he
      cases he
  | append_singleton calls call ih =>
      obtain ⟨call, ledger⟩ := call
      rw [runWith_append_singleton]
      rw [List.filterMap_append] at hmsg
      refine (EscrowStore.moves ⟨_, ledger⟩ call).identified
        (ih fun m hm => hmsg m (List.mem_append_left _ hm)) fun m hm => ?_
      refine hmsg m (List.mem_append_right _ (List.mem_filterMap.mpr ⟨(call, ledger), ?_, hm⟩))
      exact List.mem_singleton_self _

/-- Every active escrow can be reached by its id, in every state of a run,
exactly when no creation in it repeats an active escrow. -/
theorem accessible_runWith_iff (calls : List (EscrowCall × BalanceLedger))
    (hfree : CollisionFree {m | m ∈ calls.filterMap fun call => call.1.message?}) :
    (∀ before after, calls = before ++ after → (({} : EscrowRegistry).runWith before).Accessible) ↔
      ∀ before call ledger after, calls = before ++ (call, ledger) :: after →
        EscrowStore.Fresh ⟨({} : EscrowRegistry).runWith before, ledger⟩ call := by
  have hmessages : ∀ {before after}, calls = before ++ after →
      ∀ m ∈ before.filterMap (fun call : EscrowCall × BalanceLedger => call.1.message?),
        m ∈ calls.filterMap fun call => call.1.message? := by
    rintro before after rfl m hm
    rw [List.filterMap_append]
    exact List.mem_append_left _ hm
  constructor
  · intro h before call ledger after hcalls
    have hafter := accessible_iff.mp (h (before ++ [(call, ledger)]) after (by simp [hcalls]))
    rw [runWith_append_singleton] at hafter
    exact EscrowStore.fresh_of_pointed (identified_runWith before (hmessages hcalls)) hafter
  · intro h before
    induction before using List.reverseRecOn with
    | nil =>
        intro after _ i e hi
        cases hi
    | append_singleton before call ih =>
        obtain ⟨call, ledger⟩ := call
        intro after hcalls
        have hsplit : calls = before ++ (call, ledger) :: after := by simp [hcalls]
        rw [runWith_append_singleton, accessible_iff]
        refine (EscrowStore.moves ⟨_, ledger⟩ call).pointed hfree
          (identified_runWith before (hmessages hsplit)) (fun m hm => ?_)
          (h before call ledger after hsplit) (accessible_iff.mp (ih _ hsplit))
        rw [hsplit]
        exact List.mem_filterMap.mpr ⟨(call, ledger), by simp, hm⟩

end EscrowRegistry

/-! ## Two escrows in one block -/

/-- Five tokens to the same agent, twice at the same height. -/
def twinCall : EscrowCall :=
  .create (Hash.ofByte 1) (Hash.ofByte 2) (.fromInteger 5) (.arbiterApproval (Hash.ofByte 3)) 10 100

def fundedLedger : BalanceLedger := ⟨(∅ : Std.ExtTreeMap Hash TensionValue).insert (Hash.ofByte 1)
  (.fromInteger 100)⟩

def twins : List (EscrowCall × BalanceLedger) := [(twinCall, fundedLedger), (twinCall, fundedLedger)]

theorem twins_collisionFree :
    @CollisionFree polyCrypto {m | m ∈ twins.filterMap fun call => call.1.message?} := by
  have hone : ∀ m ∈ twins.filterMap (fun call => call.1.message?), m
      = escrowIdBytes (Hash.ofByte 1) (Hash.ofByte 2) (.fromInteger 5) 10 := by
    intro m hm
    simpa [twins, twinCall, EscrowCall.message?] using hm
  rintro m hm m' hm' -
  rw [hone m hm, hone m' hm']

/-- Both are active; the id leads to the second. -/
theorem twins_not_accessible :
    @CollisionFree polyCrypto {m | m ∈ twins.filterMap fun call => call.1.message?}
      ∧ (@EscrowRegistry.runWith polyCrypto {} twins).escrows.map Escrow.status
        = [.active, .active]
      ∧ ¬ (@EscrowRegistry.runWith polyCrypto {} twins).Accessible := by
  refine ⟨twins_collisionFree, by decide +kernel, fun h => ?_⟩
  have hfirst : (@EscrowRegistry.runWith polyCrypto {} twins).escrows[0]?.map (fun e =>
      (e.status, (@EscrowRegistry.runWith polyCrypto {} twins).index[e.id]?))
      = some (.active, some 1) := by
    decide +kernel
  obtain ⟨e, he, hpair⟩ := Option.map_eq_some_iff.mp hfirst
  obtain ⟨hactive, hindex⟩ := Prod.mk.inj hpair
  have hpoints := EscrowRegistry.accessible_iff.mp h 0 e he hactive
  rw [hindex] at hpoints
  cases hpoints

instance (s : EscrowStore) (sender recipient : AgentId) (amount : TensionValue)
    (timeoutBlocks : UInt64) : Decidable (s.Creates sender recipient amount timeoutBlocks) :=
  decidable_of_iff (0 < amount.raw.val ∧ sender ≠ recipient ∧ timeoutBlocks ≠ 0
      ∧ amount.raw ≤ (s.balances.balanceOf sender).raw)
    ⟨fun ⟨hpos, hparties, htimeout, hfunds⟩ => ⟨hpos, hparties, htimeout, hfunds⟩,
      fun h => ⟨h.positive, h.parties, h.timeout, h.funds⟩⟩

instance (s : EscrowStore) : (call : EscrowCall) → Decidable (s.Fresh call)
  | .create _ _ _ _ _ _ => inferInstanceAs (Decidable (_ → ∀ e ∈ _, _ → _))
  | .release _ | .refund _ _ | .checkAndRelease _ _ _ => .isTrue trivial

/-- Seven tokens to somebody else, at the same height. -/
def otherCall : EscrowCall :=
  .create (Hash.ofByte 1) (Hash.ofByte 4) (.fromInteger 7) (.arbiterApproval (Hash.ofByte 3)) 10 100

/-- Both are created, the first is released and the second expires. -/
def settledEscrows : List (EscrowCall × BalanceLedger) :=
  [(twinCall, fundedLedger), (otherCall, fundedLedger),
    (.release (@blake3Hash polyCrypto
      (escrowIdBytes (Hash.ofByte 1) (Hash.ofByte 2) (.fromInteger 5) 10)), fundedLedger),
    (.refund (@blake3Hash polyCrypto
      (escrowIdBytes (Hash.ofByte 1) (Hash.ofByte 4) (.fromInteger 7) 10)) 110, fundedLedger)]

/-- Two different ones stay in reach until they are settled. -/
theorem accessible_runWith_iff_settledEscrows :
    (@EscrowRegistry.runWith polyCrypto {} settledEscrows).escrows.map Escrow.status
        = [.released, .refunded]
      ∧ ∀ before after, settledEscrows = before ++ after →
        (@EscrowRegistry.runWith polyCrypto {} before).Accessible := by
  have hfresh : ∀ i (h : i < settledEscrows.length), @EscrowStore.Fresh
      ⟨@EscrowRegistry.runWith polyCrypto {} (settledEscrows.take i), settledEscrows[i].2⟩
      settledEscrows[i].1 := by
    decide +kernel
  refine ⟨by decide +kernel, (@EscrowRegistry.accessible_runWith_iff polyCrypto settledEscrows
    (@collisionFree_of_forall polyCrypto _ (by decide +kernel))).mpr ?_⟩
  intro before call ledger after h
  have hi : before.length < settledEscrows.length := by
    rw [h]
    simp
  have htake : settledEscrows.take before.length = before := by
    rw [h, List.take_left]
  have hget : settledEscrows[before.length] = (call, ledger) := by
    simp [h]
  have hhere := hfresh before.length hi
  rwa [htake, hget] at hhere

end Sccgub
