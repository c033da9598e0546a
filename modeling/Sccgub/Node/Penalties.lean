import Mathlib
import Sccgub.Node.Produce

/-!
# Evidence and penalties

What double signing costs, and the ledger of the evidence that a chain keeps.
The ledger tells proofs apart by what they are about and the two hashes in either
order, and holds the most recent ones.
-/

namespace Sccgub

open FixedWidth

namespace SlashingEngine

/-- A share of the stake, which is deducted; without a stake there is nothing to
slash. -/
def slashDoubleSign (self : SlashingEngine) (proof : EquivocationProof) (epoch : UInt64) :
    Except String (SlashingEvent × SlashingEngine) :=
  match self.stakes[proof.validatorId]? with
  | none => .error "Validator not found"
  | some stake =>
      let stakeRaw := max stake.raw.val 0
      let share := (I128.saturate (stakeRaw * self.config.doubleSignPenaltyPct.toNat)).val.tdiv 100
      let penaltyRaw := min share stakeRaw
      let newStake : TensionValue :=
        ⟨I128.saturate (max (I128.saturate (stake.raw.val - penaltyRaw)).val 0)⟩
      let event : SlashingEvent :=
        { validatorId := proof.validatorId
          violation := .doubleSigning
          penalty := ⟨I128.saturate penaltyRaw⟩
          epoch
          evidence := .equivocation proof }
      .ok (event,
        { self with
          stakes := self.stakes.insert proof.validatorId newStake
          events := self.events ++ [event]
          removed := if newStake.raw.val ≤ 0 then self.removed ++ [proof.validatorId]
            else self.removed })

end SlashingEngine

/-- Two hashes, the lower one first. -/
def orderedHashes (a b : Hash) : Hash × Hash := if (compare a b).isLE then (a, b) else (b, a)

namespace Chain

def maxEquivocationRecords : Nat := 8192

def recordEquivocation (self : Chain) (proof : EquivocationProof) (epoch : UInt64) : Chain :=
  let (blockA, blockB) := orderedHashes proof.blockHashA proof.blockHashB
  let duplicate := self.equivocationRecords.any fun (existing, existingEpoch) =>
    existingEpoch = epoch && existing.validatorId = proof.validatorId
      && existing.height = proof.height && existing.round = proof.round
      && existing.voteType = proof.voteType
      && orderedHashes existing.blockHashA existing.blockHashB = (blockA, blockB)
  if duplicate then self
  else
    let records := self.equivocationRecords
      ++ [({ proof with blockHashA := blockA, blockHashB := blockB }, epoch)]
    { self with equivocationRecords := records.drop (records.length - maxEquivocationRecords) }

/-- Slashes the stake, and what was slashed from the real balance. -/
def penalizeDoubleSign (self : Chain) (proof : EquivocationProof) (epoch : UInt64) : Chain :=
  match self.slashing.slashDoubleSign proof epoch with
  | .error _ => self
  | .ok (event, slashing) =>
      (({ self with slashing } : Chain).executeSlashingPenalty event.validatorId event.penalty).2

def maxSafetyCertificates : Nat := 10000

/-- Certificates in the order in which the oldest are dropped. -/
def certificateLE (a b : Safety.SafetyCertificate) : Bool :=
  match compare a.height b.height with
  | .lt => true
  | .gt => false
  | .eq =>
      match compare a.round b.round with
      | .lt => true
      | .gt => false
      | .eq => (compare a.blockHash b.blockHash).isLE

/-- A certificate for a height, block and round that is known is not taken again;
outside deterministic finality its height is final. -/
def recordSafetyCertificate (self : Chain) (cert : Safety.SafetyCertificate) : Chain :=
  if self.safetyCertificates.any fun existing =>
      existing.height = cert.height && existing.blockHash = cert.blockHash
        && existing.round = cert.round then self
  else
    let certificates := self.safetyCertificates ++ [cert]
    let certificates := if maxSafetyCertificates < certificates.length then
        (certificates.insertionSort fun a b => certificateLE a b = true).drop
          (certificates.length - maxSafetyCertificates)
      else certificates
    { self with
      safetyCertificates := certificates
      finality := if !isDeterministic self.state.governanceState.finalityMode
          && self.finality.finalizedHeight < cert.height
        then { self.finality with finalizedHeight := cert.height } else self.finality }

def blockAt (self : Chain) (height : UInt64) : Option Block := self.blocks[height.toNat]?

end Chain

end Sccgub
