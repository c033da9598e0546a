import Mathlib
import Sccgub.Execution.Validate
import Sccgub.Governance.Containment

/-!
# Mempool

Pending transitions with deduplication, and the containment of agents that send
invalid ones.  Draining hands out what passes the cheap checks, with nonces
counted through the batch, in the order of nonce and id.
-/

namespace Sccgub

open Bincode FixedWidth

/-! ## Pending transitions -/

structure Mempool where
  pending : List SymbolicTransition := []
  seenIds : HashSet := ∅
  confirmedIds : HashSet := ∅
  confirmedOrder : List Hash := []
  maxSize : Nat
  containment : ContainmentState := {}

def maxConfirmedIds : Nat := 100000

namespace Mempool

/-- The oldest ids go as long as there are too many. -/
def pruneConfirmed : HashSet → List Hash → HashSet × List Hash
  | ids, [] => (ids, [])
  | ids, oldest :: rest =>
      if maxConfirmedIds < ids.size then pruneConfirmed (ids.erase oldest) rest
      else (ids, oldest :: rest)

def markConfirmed (self : Mempool) (ids : List Hash) : Mempool :=
  let (confirmed, order) := ids.foldl (fun (confirmed, order) id =>
    if id ∈ confirmed then (confirmed, order) else (confirmed.insert id, order ++ [id]))
    (self.confirmedIds, self.confirmedOrder)
  let (confirmedIds, confirmedOrder) := pruneConfirmed confirmed order
  { self with confirmedIds, confirmedOrder }

/-- A full pool drops its oldest transition for the new one. -/
def add (self : Mempool) (tx : SymbolicTransition) : Except String Mempool :=
  if !self.containment.isAllowed tx.actor.agentId then .error "Agent is quarantined"
  else if tx.txId ∈ self.seenIds then .error "Duplicate transaction ID"
  else if tx.txId ∈ self.confirmedIds then .error "Transaction already included in a block"
  else
    let (pending, seenIds) :=
      if self.maxSize ≤ self.pending.length then
        match self.pending with
        | evicted :: rest => (rest, self.seenIds.erase evicted.txId)
        | [] => ([], self.seenIds)
      else (self.pending, self.seenIds)
    .ok { self with pending := pending ++ [tx], seenIds := seenIds.insert tx.txId }

/-- One pass over the pending transitions. -/
structure Drain where
  validated : List SymbolicTransition := []
  toRemove : List Hash := []
  localNonces : Std.ExtTreeMap Hash (BitVec 128) := ∅
  containment : ContainmentState

/-- The next nonce after the last one of the batch, stuck at the largest. -/
def Drain.expected (self : Drain) (state : ManagedWorldState) (nodeId : Hash) : BitVec 128 :=
  let committed := state.agentNonces[nodeId]?.getD 0
  let last := self.localNonces[nodeId]?.getD committed
  if last.toNat + 1 = 2 ^ 128 then last else last + 1

def drainStep (state : ManagedWorldState) (acc : Drain) (tx : SymbolicTransition) : Drain :=
  let nodeId := tx.actor.agentId
  let one := TensionValue.fromInteger 1
  let acc := { acc with toRemove := acc.toRemove ++ [tx.txId] }
  if tx.nonce = 0 ∨ tx.nonce ≠ acc.expected state nodeId then
    { acc with containment := acc.containment.recordInvalid nodeId one }
  else
    match admitCheckStructural tx state with
    | .ok () =>
        { acc with
          localNonces := acc.localNonces.insert nodeId tx.nonce
          validated := acc.validated ++ [tx]
          containment := acc.containment.recordValid nodeId one }
    | .error _ => { acc with containment := acc.containment.recordInvalid nodeId one }

/-- Nonce first, then id. -/
def fairOrder (a b : SymbolicTransition) : Bool :=
  ((compare a.nonce.toNat b.nonce.toNat).then (compare a.txId b.txId)).isLE

def drainValidated (self : Mempool) (state : ManagedWorldState) :
    List SymbolicTransition × Mempool :=
  let drain := self.pending.foldl (drainStep state) { containment := self.containment }
  let removed : HashSet := Std.ExtTreeSet.ofList drain.toRemove
  (drain.validated.insertionSort fun a b => fairOrder a b = true,
    { self with
      pending := self.pending.filter fun tx => tx.txId ∉ removed
      seenIds := drain.toRemove.foldl (fun ids id => ids.erase id) self.seenIds
      containment := drain.containment.evaluate })

end Mempool

end Sccgub
