import Mathlib
import Sccgub.Crypto

/-!
# Peers

The registry of known peers: how entries come in, what is chosen from them, how
scores recover, and the gate on their diversity, which asks for enough
connections and not too many of them from one subnet.
-/

namespace Sccgub

inductive PeerState where
  | discovered
  | connected
  | disconnected
  | banned
  deriving DecidableEq

structure PeerInfo where
  validatorId : Hash
  address : String
  currentHeight : UInt64
  finalizedHeight : UInt64
  protocolVersion : UInt32
  lastSeenMs : UInt64
  score : Int32
  violations : UInt32
  lastScoreDecayMs : UInt64
  lastViolationForgiveMs : UInt64
  state : PeerState

structure PeerRegistry where
  peers : Std.ExtTreeMap Hash PeerInfo := ∅

def maxPeers : Nat := 1000

namespace PeerRegistry

/-- An entry that is there keeps its score, its violations and their clocks. -/
def upsert (self : PeerRegistry) (info : PeerInfo) : Except String PeerRegistry :=
  match self.peers[info.validatorId]? with
  | some existing =>
      .ok ⟨self.peers.insert info.validatorId { info with
        score := existing.score
        violations := existing.violations
        lastScoreDecayMs := existing.lastScoreDecayMs
        lastViolationForgiveMs := existing.lastViolationForgiveMs }⟩
  | none =>
      if self.peers.size ≥ maxPeers then
        .error s!"Peer registry full ({self.peers.size}/{maxPeers})"
      else .ok ⟨self.peers.insert info.validatorId info⟩

def connected (self : PeerRegistry) : List PeerInfo :=
  self.peers.values.filter fun p => p.state = .connected

def activeCount (self : PeerRegistry) : Nat := self.connected.length

/-- Of equally high ones the last. -/
def highestPeer (self : PeerRegistry) : Option PeerInfo :=
  self.connected.foldl (fun best p =>
    match best with
    | some b => if b.currentHeight ≤ p.currentHeight then some p else best
    | none => some p) none

/-- The highest first; the sort is stable. -/
def syncCandidates (self : PeerRegistry) (ourHeight : UInt64) : List PeerInfo :=
  (self.peers.values.filter fun p => p.state = .connected && ourHeight < p.currentHeight).insertionSort
    fun a b => b.currentHeight ≤ a.currentHeight

/-- The first two octets of an address. -/
def subnet (address : String) : String :=
  String.intercalate "." ((((address.splitOn ":").head?.getD "").splitOn ".").take 2)

def checkDiversityWith (self : PeerRegistry) (minConnectedPeers : Nat) (maxSameSubnetPct : UInt32) :
    Except String Unit :=
  if self.activeCount < minConnectedPeers then
    .error s!"Insufficient peer diversity: {self.activeCount} connected, need >= {minConnectedPeers}"
  else
    let subnets := self.connected.map fun p => subnet p.address
    match subnets.find? fun s =>
        maxSameSubnetPct.toNat < subnets.count s * 100 / self.activeCount with
    | some s =>
        .error s!"Subnet {s} has {subnets.count s * 100 / self.activeCount}% of peers (max {maxSameSubnetPct}%)"
    | none => .ok ()

/-- Peers outside the validator set are banned. -/
def enforceValidatorSet (self : PeerRegistry) (isMember : Hash → Bool) : PeerRegistry where
  peers := self.peers.map fun validatorId peer =>
    if isMember validatorId then peer else { peer with state := .banned }

end PeerRegistry

end Sccgub
