import Mathlib
import Sccgub.Network.Messages
import Sccgub.Network.Peers
import Sccgub.OrderedMap
import Sccgub.Runs
import Sccgub.Node.Governance

/-!
# Peers that come and go

What the messages of peers do to the registry and to the addresses a node
connects to.  Misbehaviour lowers a score, and a peer whose score is too low or
that has too many violations is banned.

Nothing in the handlers of Hello and Heartbeat asks whether an entry is banned:
either message connects the validator that it names, and a Heartbeat is not even
signed.  Nor does a ban take back an address that a Hello left among the seeds.
A ban holds as long as no message that is let in names the validator
(`shunned_of_spared`).
-/

namespace Sccgub

open FixedWidth Runs

deriving instance DecidableEq for PeerInfo

/-- What the handlers read of the configuration. -/
structure PeerConfig where
  bind : String
  port : UInt16
  protocolVersion : UInt32
  allowedPeers : List String
  peerScoreInitial : Int32
  peerScorePenalty : Int32
  peerScoreBanThreshold : Int32
  peerMaxViolations : UInt32
  peerScoreDecayIntervalMs : UInt64
  peerScoreDecayAmount : Int32
  peerViolationForgiveIntervalMs : UInt64

namespace PeerConfig

/-- With an empty list everyone is. -/
def isPeerAllowed (config : PeerConfig) (peerAddr : String) : Bool :=
  config.allowedPeers.isEmpty ||
    (let host := (peerAddr.splitOn ":").head?.getD peerAddr
     config.allowedPeers.any fun entry =>
      let entry := trimString entry
      entry ≠ "" && (entry = peerAddr || entry = host))

def selfAddr (config : PeerConfig) : String := s!"{config.bind}:{config.port}"

end PeerConfig

/-- What else a handler reads when a message comes in. -/
structure PeerContext where
  chainId : Hash
  currentEpoch : UInt64
  validatorSet : ValidatorKeys
  /-- The readings of the clock, one after another. -/
  nowMs : Nat → UInt64

/-- A set that is empty lets everyone in. -/
def PeerContext.authorized (ctx : PeerContext) (validatorId : Hash) : Bool :=
  ctx.validatorSet.isEmpty || ctx.validatorSet.contains validatorId

/-- The known peers, and the addresses that are connected to in any case. -/
structure PeerBook where
  registry : PeerRegistry := {}
  peerSeeds : List String := []

/-! ## Scores -/

def saturatingSubI32 (a b : Int32) : Int32 := Int32.ofIntClamp (a.toInt - b.toInt)

def saturatingAddU32 (a b : UInt32) : UInt32 := UInt32.ofNat (min (a.toNat + b.toNat) u32Max)

def saturatingSubU32 (a b : UInt32) : UInt32 := UInt32.ofNat (a.toNat - b.toNat)

theorem saturatingSubI32_le {a b : Int32} (h : 0 ≤ b) : saturatingSubI32 a b ≤ a := by
  have hlo := a.minValue_le_toInt
  have hhi := a.toInt_le
  have hb : (0 : Int) ≤ b.toInt := Int32.le_iff_toInt_le.mp h
  unfold saturatingSubI32 Int32.ofIntClamp
  rw [Int32.le_iff_toInt_le]
  split_ifs with hin hmax
  · rw [Int32.toInt_ofIntLE]
    omega
  · omega
  · exact hlo

theorem le_saturatingAddU32 (a b : UInt32) : a ≤ saturatingAddU32 a b := by
  have ha := a.toNat_lt
  unfold saturatingAddU32 u32Max
  rw [UInt32.le_iff_toNat_le, UInt32.toNat_ofNat_of_lt' (by unfold UInt32.size; omega)]
  omega

/-- One entry as time passes; only connected peers recover. -/
def PeerInfo.decay (nowMs decayIntervalMs : UInt64) (decayAmount maxScore : Int32)
    (violationForgiveIntervalMs : UInt64) (peer : PeerInfo) : PeerInfo :=
  if peer.state ≠ .connected then peer
  else
    let peer :=
      if decayIntervalMs ≤ saturatingSub nowMs peer.lastScoreDecayMs then
        { peer with score := min (peer.score + decayAmount) maxScore, lastScoreDecayMs := nowMs }
      else peer
    if violationForgiveIntervalMs ≤ saturatingSub nowMs peer.lastViolationForgiveMs
        ∧ 0 < peer.violations then
      { peer with violations := saturatingSubU32 peer.violations 1, lastViolationForgiveMs := nowMs }
    else peer

def PeerRegistry.decayScores (self : PeerRegistry) (nowMs decayIntervalMs : UInt64)
    (decayAmount maxScore : Int32) (violationForgiveIntervalMs : UInt64) : PeerRegistry where
  peers := self.peers.map fun _ =>
    PeerInfo.decay nowMs decayIntervalMs decayAmount maxScore violationForgiveIntervalMs

/-- One violation; the score stays one under the threshold at the lowest. -/
def PeerInfo.penalize (config : PeerConfig) (peer : PeerInfo) : PeerInfo :=
  { peer with
    score := max (saturatingSubI32 peer.score config.peerScorePenalty)
      (saturatingSubI32 config.peerScoreBanThreshold 1)
    violations := saturatingAddU32 peer.violations 1 }

def PeerInfo.bannable (config : PeerConfig) (peer : PeerInfo) : Bool :=
  peer.score ≤ config.peerScoreBanThreshold || config.peerMaxViolations ≤ peer.violations

namespace PeerInfo

variable {config : PeerConfig} {peer : PeerInfo}

/-- A peer that is banned already. -/
theorem penalize_of_banned (h : peer.state = .banned) :
    (if (peer.penalize config).bannable config then { peer.penalize config with state := .banned }
      else peer.penalize config) = peer.penalize config := by
  split_ifs
  · rw [← h]
    rfl
  · rfl

theorem penalize_score_le (hpenalty : 0 ≤ config.peerScorePenalty)
    (hclamp : saturatingSubI32 config.peerScoreBanThreshold 1 ≤ peer.score) :
    (peer.penalize config).score ≤ peer.score := by
  show (if _ ≤ _ then _ else _) ≤ peer.score
  split_ifs
  · exact hclamp
  · exact saturatingSubI32_le hpenalty

theorem le_penalize_violations : peer.violations ≤ (peer.penalize config).violations :=
  le_saturatingAddU32 ..

theorem decay_of_banned {nowMs decayIntervalMs violationForgiveIntervalMs : UInt64}
    {decayAmount maxScore : Int32} (h : peer.state = .banned) :
    peer.decay nowMs decayIntervalMs decayAmount maxScore violationForgiveIntervalMs = peer :=
  if_pos (by rw [h]; exact PeerState.noConfusion)

theorem decay_address {nowMs decayIntervalMs violationForgiveIntervalMs : UInt64}
    {decayAmount maxScore : Int32} :
    (peer.decay nowMs decayIntervalMs decayAmount maxScore violationForgiveIntervalMs).address
      = peer.address := by
  unfold decay
  dsimp only
  split_ifs <;> rfl

end PeerInfo

namespace PeerBook

/-! ## Handlers -/

def maxSeedPeers : Nat := 256

/-- An address that a peer offers. -/
def seedable (config : PeerConfig) (peerAddr entry : String) : Bool :=
  let entry := trimString entry
  entry ≠ "" && entry.utf8ByteSize ≤ 128 && entry.contains ':' && entry ≠ peerAddr
    && entry ≠ config.selfAddr && config.isPeerAllowed entry

def addSeeds (config : PeerConfig) (peerAddr : String) : List String → List String → List String
  | seeds, [] => seeds
  | seeds, entry :: candidates =>
      if maxSeedPeers ≤ seeds.length then seeds
      else if seedable config peerAddr entry then
        addSeeds config peerAddr (seeds.insert (trimString entry)) candidates
      else addSeeds config peerAddr seeds candidates

def updatePeerSeeds (config : PeerConfig) (self : PeerBook) (peerAddr : String)
    (candidates : List String) : PeerBook :=
  let seeds := if self.peerSeeds.length < maxSeedPeers then self.peerSeeds.insert peerAddr
    else self.peerSeeds
  { self with peerSeeds := addSeeds config peerAddr seeds candidates }

def helloMaxSkewMs : UInt64 := 30000

def absDiff (a b : UInt64) : UInt64 := if a < b then b - a else a - b

/-- An entry at another address that is connected now. -/
def misplaced (self : PeerBook) (validatorId : Hash) (peerAddr : String) : Bool :=
  self.registry.peers[validatorId]?.any fun existing =>
    existing.address ≠ peerAddr && existing.state = .connected

section

variable [Crypto]

def verifyHelloSignature (msg : HelloMessage) : Bool :=
  64 ≤ msg.signature.length
    && verify msg.validatorId (NetworkMessage.hello { msg with signature := [] }).toBytes
      msg.signature

/-- What a Hello has to pass. -/
def checkHello (config : PeerConfig) (ctx : PeerContext) (self : PeerBook) (msg : HelloMessage)
    (peerAddr : String) : Except String Unit := do
  let now := ctx.nowMs 0
  let skew := absDiff now msg.timestampMs
  if msg.chainId ≠ ctx.chainId then throw "Hello chain_id mismatch"
  if msg.protocolVersion ≠ config.protocolVersion then throw "Hello protocol version mismatch"
  if msg.epoch ≠ ctx.currentEpoch then throw "Hello epoch mismatch"
  if msg.timestampMs = 0 ∨ helloMaxSkewMs < skew then
    throw s!"Hello timestamp out of window: now={now} msg={msg.timestampMs} skew={skew}ms (max {helloMaxSkewMs}ms)"
  if !verifyHelloSignature msg then throw "Hello signature invalid"
  if !ctx.authorized msg.validatorId then throw "Hello validator not in authorized set"
  if self.misplaced msg.validatorId peerAddr then throw "Hello address mismatch for validator"

/-- The seeds have changed even where the registry is full. -/
def handleHello (config : PeerConfig) (ctx : PeerContext) (self : PeerBook) (msg : HelloMessage)
    (peerAddr : String) : Except String Unit × PeerBook :=
  match checkHello config ctx self msg peerAddr with
  | .error e => (.error e, self)
  | .ok () =>
      let self := self.updatePeerSeeds config peerAddr msg.knownPeers
      match self.registry.upsert
        { validatorId := msg.validatorId
          address := peerAddr
          currentHeight := msg.currentHeight
          finalizedHeight := msg.finalizedHeight
          protocolVersion := msg.protocolVersion
          lastSeenMs := ctx.nowMs 1
          score := config.peerScoreInitial
          violations := 0
          lastScoreDecayMs := ctx.nowMs 2
          lastViolationForgiveMs := ctx.nowMs 3
          state := .connected } with
      | .error e => (.error e, self)
      | .ok registry => (.ok (), { self with registry })

end

/-- What a Heartbeat has to pass. -/
def checkHeartbeat (config : PeerConfig) (ctx : PeerContext) (self : PeerBook)
    (msg : HeartbeatMessage) (peerAddr : String) : Except String Unit := do
  if !ctx.authorized msg.validatorId then throw "Heartbeat validator not in authorized set"
  if msg.protocolVersion ≠ config.protocolVersion then throw "Heartbeat protocol version mismatch"
  if msg.epoch ≠ ctx.currentEpoch then throw "Heartbeat epoch mismatch"
  if self.misplaced msg.validatorId peerAddr then throw "Heartbeat address mismatch for validator"

/-- An entry that is there keeps its address. -/
def handleHeartbeat (config : PeerConfig) (ctx : PeerContext) (self : PeerBook)
    (msg : HeartbeatMessage) (peerAddr : String) : Except String Unit × PeerBook :=
  match checkHeartbeat config ctx self msg peerAddr with
  | .error e => (.error e, self)
  | .ok () =>
      match self.registry.peers[msg.validatorId]? with
      | some peer =>
          (.ok (), { self with registry := ⟨self.registry.peers.insert msg.validatorId { peer with
            currentHeight := msg.currentHeight
            lastSeenMs := msg.timestampMs
            state := .connected }⟩ })
      | none =>
          match self.registry.upsert
            { validatorId := msg.validatorId
              address := peerAddr
              currentHeight := msg.currentHeight
              finalizedHeight := saturatingSub msg.currentHeight 2
              protocolVersion := config.protocolVersion
              lastSeenMs := msg.timestampMs
              score := config.peerScoreInitial
              violations := 0
              lastScoreDecayMs := msg.timestampMs
              lastViolationForgiveMs := msg.timestampMs
              state := .connected } with
          | .error e => (.error e, self)
          | .ok registry => (.ok (), { self with registry })

/-- The search goes through a map that has no order; `first` is the key of the
entry with this address that it comes to. -/
def validatorIdForAddr (self : PeerBook) (first : Hash) (peerAddr : String) : Option Hash :=
  (self.registry.peers[first]?.filter (·.address = peerAddr)).map (·.validatorId)

/-- Whether the peer is banned now. -/
def recordPeerViolation (config : PeerConfig) (self : PeerBook) (first : Hash) (peerAddr : String) :
    Bool × PeerBook :=
  match self.validatorIdForAddr first peerAddr with
  | none => (false, self)
  | some validatorId =>
      match self.registry.peers[validatorId]? with
      | none => (false, self)
      | some peer =>
          let peer := peer.penalize config
          let banned := peer.bannable config
          let peer := if banned then { peer with state := .banned } else peer
          (banned, { self with registry := ⟨self.registry.peers.insert validatorId peer⟩ })

def collectPeerTargets (self : PeerBook) (ctx : PeerContext) : List String :=
  let listed := self.registry.peers.values.filter fun peer =>
    peer.state ≠ .banned && ctx.authorized peer.validatorId
  (self.peerSeeds ++ listed.map (·.address)).dedup.insertionSort (· ≤ ·)

end PeerBook

/-! ## Without an entry -/

namespace PeerRegistry

def without (self : PeerRegistry) (validatorId : Hash) : PeerRegistry :=
  ⟨self.peers.erase validatorId⟩

variable {self : PeerRegistry} {k : Hash} {known : PeerInfo}

theorem connected_without (hpeer : self.peers[k]? = some known) (h : known.state ≠ .connected) :
    (self.without k).connected = self.connected :=
  OrderedMap.filter_values_erase hpeer (decide_eq_false h)

theorem syncCandidates_without (hpeer : self.peers[k]? = some known) (h : known.state ≠ .connected)
    (ourHeight : UInt64) :
    (self.without k).syncCandidates ourHeight = self.syncCandidates ourHeight := by
  unfold syncCandidates
  exact congrArg (List.insertionSort _) (OrderedMap.filter_values_erase hpeer (by simp [h]))

end PeerRegistry

/-! ## Events -/

inductive PeerEvent where
  | hello (ctx : PeerContext) (msg : HelloMessage) (peerAddr : String)
  | heartbeat (ctx : PeerContext) (msg : HeartbeatMessage) (peerAddr : String)
  | violation (first : Hash) (peerAddr : String)
  | decay (nowMs : UInt64)

namespace PeerEvent

open PeerBook

variable [Crypto]

def act (config : PeerConfig) (book : PeerBook) : PeerEvent → PeerBook
  | .hello ctx msg peerAddr => (handleHello config ctx book msg peerAddr).2
  | .heartbeat ctx msg peerAddr => (handleHeartbeat config ctx book msg peerAddr).2
  | .violation first peerAddr => (recordPeerViolation config book first peerAddr).2
  | .decay nowMs =>
      { book with
        registry := book.registry.decayScores nowMs config.peerScoreDecayIntervalMs
          config.peerScoreDecayAmount config.peerScoreInitial
          config.peerViolationForgiveIntervalMs }

/-- A message that is let in neither names the validator nor brings in the
address, and a violation of the validator does not lift its score. -/
def Spares (config : PeerConfig) (k : Hash) (addr : String) (book : PeerBook) : PeerEvent → Prop
  | .hello ctx msg peerAddr =>
      checkHello config ctx book msg peerAddr = .ok () →
        msg.validatorId ≠ k ∧ peerAddr ≠ addr
          ∧ ∀ entry ∈ msg.knownPeers, trimString entry = addr →
            seedable config peerAddr entry = true → maxSeedPeers ≤ book.peerSeeds.length
  | .heartbeat ctx msg peerAddr =>
      checkHeartbeat config ctx book msg peerAddr = .ok () →
        msg.validatorId ≠ k ∧ (∀ peer ∈ book.registry.peers[msg.validatorId]?, peer.address ≠ addr)
          ∧ (book.registry.peers[msg.validatorId]? = none → peerAddr ≠ addr)
  | .violation first peerAddr =>
      validatorIdForAddr book first peerAddr = some k → ∀ peer ∈ book.registry.peers[k]?,
        0 ≤ config.peerScorePenalty
          ∧ saturatingSubI32 config.peerScoreBanThreshold 1 ≤ peer.score
  | .decay _ => True

instance decidableSpares (config : PeerConfig) (k : Hash) (addr : String) (book : PeerBook) :
    (event : PeerEvent) → Decidable (event.Spares config k addr book)
  | .hello .. => inferInstanceAs (Decidable (_ → _))
  | .heartbeat .. => inferInstanceAs (Decidable (_ → _))
  | .violation .. => inferInstanceAs (Decidable (_ → _))
  | .decay _ => .isTrue trivial

end PeerEvent

namespace PeerBook

/-- The entry is banned and no better than it was, and its address can only be
reached through a ban. -/
structure Contained (k : Hash) (known : PeerInfo) (book : PeerBook) : Prop where
  banned : ∃ peer : PeerInfo, book.registry.peers[k]? = some peer ∧ peer.state = .banned
    ∧ peer.address = known.address ∧ peer.score ≤ known.score ∧ known.violations ≤ peer.violations
  seeds : known.address ∉ book.peerSeeds
  others : ∀ (j : Hash) (peer : PeerInfo), book.registry.peers[j]? = some peer → peer.address = known.address →
    peer.state = .banned

/-- A banned peer, as it was when it was banned, is no better than it was; it is
not counted, chosen, synced from or connected to. -/
structure Shunned (k : Hash) (known : PeerInfo) (book : PeerBook) : Prop where
  banned : ∃ peer : PeerInfo, book.registry.peers[k]? = some peer ∧ peer.state = .banned
    ∧ peer.score ≤ known.score ∧ known.violations ≤ peer.violations
  activeCount : book.registry.activeCount = (book.registry.without k).activeCount
  highestPeer : book.registry.highestPeer = (book.registry.without k).highestPeer
  syncCandidates : ∀ ourHeight, book.registry.syncCandidates ourHeight
    = (book.registry.without k).syncCandidates ourHeight
  targets : ∀ ctx, known.address ∉ book.collectPeerTargets ctx

variable {k : Hash} {known : PeerInfo} {book : PeerBook}

theorem mem_collectPeerTargets {ctx : PeerContext} {addr : String} :
    addr ∈ book.collectPeerTargets ctx ↔ addr ∈ book.peerSeeds ∨ ∃ (j : Hash) (peer : PeerInfo),
      book.registry.peers[j]? = some peer ∧ peer.state ≠ .banned
        ∧ ctx.authorized peer.validatorId = true ∧ peer.address = addr := by
  unfold collectPeerTargets
  simp only [List.mem_insertionSort, List.mem_dedup, List.mem_append, List.mem_map, List.mem_filter,
    OrderedMap.values_eq, Bool.and_eq_true, decide_eq_true_eq, Prod.exists, exists_eq_right,
    Std.ExtTreeMap.mem_toList_iff_getElem?_eq_some]
  constructor
  · rintro (hseed | ⟨peer, ⟨⟨j, hpeer⟩, hstate, hmember⟩, haddr⟩)
    · exact .inl hseed
    · exact .inr ⟨j, peer, hpeer, hstate, hmember, haddr⟩
  · rintro (hseed | ⟨j, peer, hpeer, hstate, hmember, haddr⟩)
    · exact .inl hseed
    · exact .inr ⟨peer, ⟨⟨j, hpeer⟩, hstate, hmember⟩, haddr⟩

theorem Contained.shunned (h : Contained k known book) : Shunned k known book := by
  obtain ⟨peer, hpeer, hstate, -, hscore, hviolations⟩ := h.banned
  have hconn : peer.state ≠ .connected := by
    rw [hstate]
    exact PeerState.noConfusion
  have hsame := PeerRegistry.connected_without hpeer hconn
  refine ⟨⟨peer, hpeer, hstate, hscore, hviolations⟩, congrArg List.length hsame.symm, ?_,
    fun ourHeight => (PeerRegistry.syncCandidates_without hpeer hconn ourHeight).symm,
    fun ctx hmem => ?_⟩
  · unfold PeerRegistry.highestPeer
    rw [hsame]
  · rcases mem_collectPeerTargets.mp hmem with hseed | ⟨j, other, hother, hfree, -, haddr⟩
    · exact h.seeds hseed
    · exact hfree (h.others j other hother haddr)

/-! ## One event -/

/-- An entry that is not the banned one, and not at its address unless banned. -/
theorem Contained.insert (h : Contained k known book) {j : Hash} {peer : PeerInfo} (hne : j ≠ k)
    (hpeer : peer.address = known.address → peer.state = .banned) :
    Contained k known { book with registry := ⟨book.registry.peers.insert j peer⟩ } := by
  refine ⟨?_, h.seeds, fun i other hother haddr => ?_⟩
  · obtain ⟨banned, hbanned, hrest⟩ := h.banned
    refine ⟨banned, ?_, hrest⟩
    rw [Std.ExtTreeMap.getElem?_insert,
      if_neg fun hc => hne (Std.LawfulEqCmp.eq_of_compare hc)]
    exact hbanned
  · rw [Std.ExtTreeMap.getElem?_insert] at hother
    split_ifs at hother
    · cases hother
      exact hpeer haddr
    · exact h.others i other hother haddr

theorem upsert_ok {self registry : PeerRegistry} {info : PeerInfo}
    (h : self.upsert info = .ok registry) : ∃ peer : PeerInfo, peer.address = info.address
      ∧ registry = ⟨self.peers.insert info.validatorId peer⟩ := by
  unfold PeerRegistry.upsert at h
  split at h
  · cases h
    refine ⟨_, ?_, rfl⟩
    rfl
  · split_ifs at h
    cases h
    exact ⟨info, rfl, rfl⟩

theorem mem_addSeeds {config : PeerConfig} {peerAddr addr : String} {seeds candidates : List String}
    (h : addr ∈ addSeeds config peerAddr seeds candidates) : addr ∈ seeds
      ∨ seeds.length < maxSeedPeers ∧ ∃ entry ∈ candidates, trimString entry = addr
        ∧ seedable config peerAddr entry = true := by
  induction candidates generalizing seeds with
  | nil => exact .inl h
  | cons entry candidates ih =>
      unfold addSeeds at h
      split_ifs at h with hfull hentry
      · exact .inl h
      · rcases ih h with hmem | ⟨-, entry', hentry', hrest⟩
        · rcases List.mem_insert_iff.mp hmem with rfl | hmem
          · exact .inr ⟨not_le.mp hfull, entry, List.mem_cons_self, rfl, hentry⟩
          · exact .inl hmem
        · exact .inr ⟨not_le.mp hfull, entry', List.mem_cons_of_mem _ hentry', hrest⟩
      · rcases ih h with hmem | ⟨hroom, entry', hentry', hrest⟩
        · exact .inl hmem
        · exact .inr ⟨hroom, entry', List.mem_cons_of_mem _ hentry', hrest⟩

section

variable [Crypto] {config : PeerConfig}

theorem Contained.hello (h : Contained k known book) {ctx : PeerContext} {msg : HelloMessage}
    {peerAddr : String}
    (hspares : PeerEvent.Spares config k known.address book (.hello ctx msg peerAddr)) :
    Contained k known (handleHello config ctx book msg peerAddr).2 := by
  unfold handleHello
  rcases hcheck : checkHello config ctx book msg peerAddr with e | ⟨⟩
  · exact h
  obtain ⟨hne, haddr, hoffers⟩ := hspares hcheck
  have hseeds : known.address ∉ (book.updatePeerSeeds config peerAddr msg.knownPeers).peerSeeds := by
    intro hmem
    rcases mem_addSeeds hmem with hmem | ⟨hroom, entry, hentry, htrim, hseedable⟩
    · split_ifs at hmem
      · rcases List.mem_insert_iff.mp hmem with heq | hmem
        · exact haddr heq.symm
        · exact h.seeds hmem
      · exact h.seeds hmem
    · have hfull := hoffers entry hentry htrim hseedable
      rw [if_neg (by omega)] at hroom
      omega
  have hbook : Contained k known (book.updatePeerSeeds config peerAddr msg.knownPeers) :=
    ⟨h.banned, hseeds, h.others⟩
  dsimp only
  split
  · exact hbook
  · rename_i registry hupsert
    obtain ⟨peer, hpeer, rfl⟩ := upsert_ok hupsert
    exact hbook.insert hne fun heq => absurd (hpeer.symm.trans heq) haddr

theorem Contained.heartbeat (h : Contained k known book) {ctx : PeerContext}
    {msg : HeartbeatMessage} {peerAddr : String}
    (hspares : PeerEvent.Spares config k known.address book (.heartbeat ctx msg peerAddr)) :
    Contained k known (handleHeartbeat config ctx book msg peerAddr).2 := by
  unfold handleHeartbeat
  rcases hcheck : checkHeartbeat config ctx book msg peerAddr with e | ⟨⟩
  · exact h
  obtain ⟨hne, hknown, hnew⟩ := hspares hcheck
  dsimp only
  split
  · rename_i peer hpeer
    exact h.insert hne fun heq => absurd heq (hknown peer hpeer)
  · rename_i hnone
    split
    · exact h
    · rename_i registry hupsert
      obtain ⟨peer, hpeer, rfl⟩ := upsert_ok hupsert
      exact h.insert hne fun heq => absurd (hpeer.symm.trans heq) (hnew hnone)

theorem Contained.violation (h : Contained k known book) {first : Hash} {peerAddr : String}
    (hspares : PeerEvent.Spares config k known.address book (.violation first peerAddr)) :
    Contained k known (recordPeerViolation config book first peerAddr).2 := by
  unfold recordPeerViolation
  split
  · exact h
  rename_i j hfound
  split
  · exact h
  rename_i peer hpeer
  dsimp only
  by_cases hkey : j = k
  · -- the banned peer itself
    subst hkey
    obtain ⟨hpenalty, hclamp⟩ := hspares hfound peer hpeer
    obtain ⟨banned, hbanned, hstate, haddr, hscore, hviolations⟩ := h.banned
    cases hpeer.symm.trans hbanned
    rw [PeerInfo.penalize_of_banned hstate]
    refine ⟨⟨_, Std.ExtTreeMap.getElem?_insert_self, hstate, haddr,
      Int32.le_trans (PeerInfo.penalize_score_le hpenalty hclamp) hscore,
      UInt32.le_trans hviolations PeerInfo.le_penalize_violations⟩, h.seeds, fun i other hother haddr => ?_⟩
    rw [Std.ExtTreeMap.getElem?_insert] at hother
    split_ifs at hother
    · cases hother
      exact hstate
    · exact h.others i other hother haddr
  · refine h.insert hkey fun heq => ?_
    have haddr : peer.address = known.address := by
      split_ifs at heq <;> exact heq
    have hstate := h.others j peer hpeer haddr
    split_ifs
    · rfl
    · exact hstate

theorem Contained.decay (h : Contained k known book) (nowMs : UInt64) :
    Contained k known (PeerEvent.act config book (.decay nowMs)) := by
  unfold PeerEvent.act PeerRegistry.decayScores
  dsimp only
  refine ⟨?_, h.seeds, fun j peer hpeer haddr => ?_⟩
  · obtain ⟨banned, hbanned, hstate, hrest⟩ := h.banned
    refine ⟨banned, ?_, hstate, hrest⟩
    rw [Std.ExtTreeMap.getElem?_map, hbanned]
    exact congrArg some (PeerInfo.decay_of_banned hstate)
  · rw [Std.ExtTreeMap.getElem?_map] at hpeer
    obtain ⟨old, hold, rfl⟩ := Option.map_eq_some_iff.mp hpeer
    rw [PeerInfo.decay_address] at haddr
    have hstate := h.others j old hold haddr
    rw [PeerInfo.decay_of_banned hstate]
    exact hstate

theorem Contained.act (h : Contained k known book) {event : PeerEvent}
    (hspares : event.Spares config k known.address book) :
    Contained k known (event.act config book) := by
  cases event with
  | hello ctx msg peerAddr => exact h.hello hspares
  | heartbeat ctx msg peerAddr => exact h.heartbeat hspares
  | violation first peerAddr => exact h.violation hspares
  | decay nowMs => exact h.decay nowMs

end

/-! ## Runs -/

section

variable [Crypto] {config : PeerConfig}

/-- From a ban on, in any order of events that spare the banned peer. -/
theorem shunned_of_spared (events : List PeerEvent) (hpeer : book.registry.peers[k]? = some known)
    (hbanned : known.state = .banned) (hseeds : known.address ∉ book.peerSeeds)
    (hothers : ∀ (j : Hash) (peer : PeerInfo), book.registry.peers[j]? = some peer →
      peer.address = known.address → peer.state = .banned)
    (h : Along (PeerEvent.act config) (PeerEvent.Spares config k known.address) book events) :
    Throughout (PeerEvent.act config) (Shunned k known) book events := by
  have hstart : Contained k known book :=
    ⟨⟨known, hpeer, hbanned, rfl, Int32.le_refl _, UInt32.le_refl _⟩, hseeds, hothers⟩
  exact (throughout_of_along (fun _ _ hcontained hspares => hcontained.act hspares) hstart h).mono
    fun _ hcontained => hcontained.shunned

end

/-! ## A ban that is lifted -/

def defaultPeerConfig : PeerConfig where
  bind := "127.0.0.1"
  port := 9000
  protocolVersion := 1
  allowedPeers := []
  peerScoreInitial := 100
  peerScorePenalty := 10
  peerScoreBanThreshold := 0
  peerMaxViolations := 5
  peerScoreDecayIntervalMs := 10000
  peerScoreDecayAmount := 1
  peerViolationForgiveIntervalMs := 60000

def quietContext : PeerContext where
  chainId := Hash.ofByte 7
  currentEpoch := 0
  validatorSet := ∅
  nowMs _ := 1000

def bannedPeer : PeerInfo where
  validatorId := Hash.ofByte 1
  address := "10.0.0.1:9000"
  currentHeight := 5
  finalizedHeight := 3
  protocolVersion := 1
  lastSeenMs := 500
  score := 0
  violations := 10
  lastScoreDecayMs := 0
  lastViolationForgiveMs := 0
  state := .banned

def bannedBook : PeerBook where
  registry := ⟨(∅ : Std.ExtTreeMap Hash PeerInfo).insert (Hash.ofByte 1) bannedPeer⟩

def heartbeatOf (validatorId : Hash) : PeerEvent :=
  .heartbeat quietContext
    { validatorId, currentHeight := 9, protocolVersion := 1, epoch := 0, timestampMs := 1000 }
    "10.0.0.2:9000"

def helloOf (validatorId : Hash) (knownPeers : List String) (peerAddr : String) : PeerEvent :=
  let unsigned : HelloMessage :=
    { validatorId
      chainId := Hash.ofByte 7
      currentHeight := 9
      finalizedHeight := 7
      protocolVersion := 1
      epoch := 0
      knownPeers
      timestampMs := 1000
      signature := [] }
  .hello quietContext
    { unsigned with signature := polySign validatorId (NetworkMessage.hello unsigned).toBytes }
    peerAddr

theorem shunned_of_spared_others :
    Throughout (@PeerEvent.act polyCrypto defaultPeerConfig) (Shunned (Hash.ofByte 1) bannedPeer)
      bannedBook
      [helloOf (Hash.ofByte 2) ["10.0.0.3:9000"] "10.0.0.2:9000", heartbeatOf (Hash.ofByte 3),
        .violation (Hash.ofByte 1) "10.0.0.1:9000", .violation (Hash.ofByte 2) "10.0.0.2:9000",
        .decay 200000] := by
  refine @shunned_of_spared _ _ _ polyCrypto _ _ (by decide +kernel) rfl (by decide +kernel) ?_
    (@of_decide_eq_true _ (@decidableAlong _ _ _ _ (@PeerEvent.decidableSpares polyCrypto _ _ _) _ _)
      (by decide +kernel))
  intro j peer hpeer _
  unfold bannedBook at hpeer
  dsimp only at hpeer
  rw [Std.ExtTreeMap.getElem?_insert] at hpeer
  split_ifs at hpeer
  · cases hpeer
    rfl
  · cases hpeer

/-- Anyone's Heartbeat that names the banned validator connects it again. -/
theorem heartbeat_lifts_ban :
    let book := @PeerEvent.act polyCrypto defaultPeerConfig bannedBook (heartbeatOf (Hash.ofByte 1))
    bannedBook.registry.peers[Hash.ofByte 1]? = some bannedPeer
      ∧ (book.registry.peers[Hash.ofByte 1]?).map (·.state) = some .connected
      ∧ (book.registry.highestPeer).map (·.validatorId) = some (Hash.ofByte 1)
      ∧ book.collectPeerTargets quietContext = ["10.0.0.1:9000"]
      ∧ ¬ Shunned (Hash.ofByte 1) bannedPeer book := by
  intro book
  have hstate : (book.registry.peers[Hash.ofByte 1]?).map (·.state) = some .connected := by
    decide +kernel
  refine ⟨by decide +kernel, hstate, by decide +kernel, by decide +kernel, fun h => ?_⟩
  obtain ⟨peer, hpeer, hbanned, -⟩ := h.banned
  rw [hpeer, Option.map_some, hbanned] at hstate
  cases hstate

end PeerBook

end Sccgub
