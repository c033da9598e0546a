import Mathlib
import Sccgub.Fallible
import Sccgub.State.Trie
import Sccgub.Types.Block
import Sccgub.Types.Ceilings

/-!
# World state

The managed state: the trie, the nonces, the tension field, the governance
state, the height, and the consensus parameters.  `applyDelta` is the only way
anything reaches the trie; it drops entries that are too large.

The in-memory symbol table beside the trie is written and never read, so it is
left out.
-/

namespace Sccgub

open Bincode FixedWidth WriteThrough

/-! ## Governance state -/

structure AuthorityLevel where
  precedence : PrecedenceLevel
  canProposeNorms : Bool
  canValidate : Bool
  canGovern : Bool
  deriving DecidableEq, Inhabited

structure Norm where
  id : NormId
  name : String
  description : String
  precedence : PrecedenceLevel
  populationShare : TensionValue
  fitness : TensionValue
  enforcementCost : TensionValue
  active : Bool
  createdAtHeight : UInt64
  deriving DecidableEq, Inhabited

def AuthorityLevel.codec : Codec AuthorityLevel :=
  (PrecedenceLevel.codec.pair <| Codec.bool.pair <| Codec.bool.pair Codec.bool).iso
    (fun p => ⟨p.1, p.2.1, p.2.2.1, p.2.2.2⟩)
    (fun a => (a.precedence, a.canProposeNorms, a.canValidate, a.canGovern))
    (fun _ => rfl) (fun _ => rfl)

def Norm.codec : Codec Norm :=
  ((Codec.bytes 32).pair <| Codec.string.pair <| Codec.string.pair <| PrecedenceLevel.codec.pair <|
    TensionValue.codec.pair <| TensionValue.codec.pair <| TensionValue.codec.pair <|
    Codec.bool.pair Codec.u64).iso
    (fun ⟨a, b, c, d, e, f, g, h, i⟩ => ⟨a, b, c, d, e, f, g, h, i⟩)
    (fun ⟨a, b, c, d, e, f, g, h, i⟩ => (a, b, c, d, e, f, g, h, i))
    (fun _ => rfl) (fun _ => rfl)

structure GovernanceState where
  activeNorms : Std.ExtTreeMap Hash Norm
  constraintCatalog : HashSet
  ruleCatalog : HashSet
  authorityMap : Std.ExtTreeMap Hash AuthorityLevel
  emergencyMode : Bool
  finalityMode : FinalityMode

instance : Inhabited GovernanceState := ⟨⟨∅, ∅, ∅, ∅, false, .deterministic⟩⟩

/-- Maps are written as the sequence of their pairs, here in key order. -/
def GovernanceState.canonicalBytes (g : GovernanceState) : Bytes :=
  ((Codec.bytes 32).pair Norm.codec).list.enc g.activeNorms.toList
    ++ hashSetCodec.enc g.constraintCatalog ++ hashSetCodec.enc g.ruleCatalog
    ++ ((Codec.bytes 32).pair AuthorityLevel.codec).list.enc g.authorityMap.toList
    ++ Codec.bool.enc g.emergencyMode ++ FinalityMode.codec.enc g.finalityMode

/-! ## Managed state -/

structure TensionField where
  total : TensionValue := .zero
  map : Std.ExtTreeMap Bytes TensionValue := ∅
  currentBudget : TensionValue := .fromInteger 1000

structure ManagedWorldState where
  tensionField : TensionField := {}
  governanceState : GovernanceState := default
  height : UInt64 := 0
  trie : StateTrie := .new
  agentNonces : Std.ExtTreeMap Hash (BitVec 128) := ∅
  consensusParams : ConsensusParams := {}

namespace ManagedWorldState

def withConsensusParams (params : ConsensusParams) : ManagedWorldState :=
  { consensusParams := params }

/-- Writes every entry to the store and continues on what the store holds. -/
def bindStore (self : ManagedWorldState) (store : Entries) : ManagedWorldState :=
  { self with trie := .withStore (putAll store self.trie.store.toList) }

def get (self : ManagedWorldState) (address : SymbolAddress) : Option Bytes :=
  self.trie.get address

def stateRoot [Crypto] (self : ManagedWorldState) : MerkleRoot := self.trie.rootReadonly

def setHeight (self : ManagedWorldState) (height : UInt64) : ManagedWorldState :=
  { self with height }

/-- Another handle on the shared store changed it. -/
def sharing (self : ManagedWorldState) (durable : Option Entries) : ManagedWorldState :=
  { self with trie := self.trie.sharing durable }

/-- A write within the entry size limit, on both sides. -/
def admits (self : ManagedWorldState) (write : StateWrite) : Bool :=
  write.address.length ≤ self.consensusParams.maxStateEntrySize.toNat
    && write.value.length ≤ self.consensusParams.maxStateEntrySize.toNat

def applyWrite (self : ManagedWorldState) (write : StateWrite) : ManagedWorldState :=
  if self.admits write then { self with trie := self.trie.insert write.address write.value }
  else self

def applyDelta (self : ManagedWorldState) (delta : StateDelta) : ManagedWorldState :=
  let written := delta.writes.foldl applyWrite self
  { written with trie := delta.deletes.foldl StateTrie.remove written.trie }

/-- Strictly sequential from one, per agent. -/
def checkNonce (self : ManagedWorldState) (agentId : AgentId) (nonce : BitVec 128) :
    Except String ManagedWorldState :=
  if nonce = 0 then .error "Nonce must be >= 1"
  else
    let last := self.agentNonces[agentId]?.getD 0
    if last.toNat + 1 = 2 ^ 128 then
      .error s!"Nonce overflow: agent {hexEncode agentId.toList} at u128::MAX"
    else if nonce.toNat ≠ last.toNat + 1 then
      .error s!"Nonce must be sequential: expected {last.toNat + 1}, got {nonce.toNat} for agent {hexEncode agentId.toList}"
    else .ok { self with agentNonces := self.agentNonces.insert agentId nonce }

/-- All or nothing: after a failure the state is as it was. -/
def validateNonces (self : ManagedWorldState) (transitions : List SymbolicTransition) :
    Except String ManagedWorldState :=
  transitions.foldlM (fun s tx => s.checkNonce tx.actor.agentId tx.nonce) self

/-- What the checks of a block read of a state, put onto another one: nonces,
governance, the cached root and the store are those of the other. -/
def onto (self other : ManagedWorldState) : ManagedWorldState :=
  { other with
    tensionField := self.tensionField
    height := self.height
    consensusParams := self.consensusParams
    trie := { other.trie with store := self.trie.store } }

/-! ## What a delta can change -/

/-- The admitted writes as pairs. -/
def admitted (self : ManagedWorldState) (writes : List StateWrite) : List (Bytes × Bytes) :=
  (writes.filter self.admits).map fun write => (write.address, write.value)

/-- The state with a list of writes let through to the trie. -/
def writeAll (self : ManagedWorldState) (writes : List StateWrite) : ManagedWorldState :=
  { self with trie := self.trie.insertAll (self.admitted writes) }

@[simp] theorem admitted_nil (s : ManagedWorldState) : s.admitted [] = [] := rfl

theorem admitted_append (s : ManagedWorldState) (ws ws' : List StateWrite) :
    s.admitted (ws ++ ws') = s.admitted ws ++ s.admitted ws' := by
  simp [admitted]

@[simp] theorem writeAll_nil (s : ManagedWorldState) : s.writeAll [] = s := rfl

/-- Writing twice is writing the two lists in a row: the limit does not move. -/
theorem writeAll_writeAll (s : ManagedWorldState) (ws ws' : List StateWrite) :
    (s.writeAll ws).writeAll ws' = s.writeAll (ws ++ ws') := by
  simp only [writeAll, admitted_append, StateTrie.insertAll_append]
  rfl

/-- A delta without deletes is the list of its writes. -/
theorem applyDelta_writes (s : ManagedWorldState) (writes : List StateWrite) :
    s.applyDelta ⟨writes, []⟩ = s.writeAll writes := by
  show writes.foldl applyWrite s = _
  induction writes generalizing s with
  | nil => rfl
  | cons w ws ih =>
      rw [List.foldl_cons, ih]
      by_cases h : s.admits w = true
      · have hcons : s.admitted (w :: ws) = (w.address, w.value) :: s.admitted ws := by
          simp [admitted, h]
        rw [applyWrite, if_pos h, writeAll, writeAll, hcons]
        rfl
      · have hcons : s.admitted (w :: ws) = s.admitted ws := by simp [admitted, h]
        rw [applyWrite, if_neg h, writeAll, writeAll, hcons]

/-- Nonce checks touch the nonces and nothing else. -/
theorem checkNonce_frame {s s' : ManagedWorldState} {agentId : AgentId} {nonce : BitVec 128}
    (h : s.checkNonce agentId nonce = .ok s') : s' = { s with agentNonces := s'.agentNonces } := by
  unfold checkNonce at h
  split at h
  · cases h
  · dsimp only at h
    split at h
    · cases h
    · split at h
      · cases h
      · cases h
        rfl

theorem validateNonces_frame {s s' : ManagedWorldState} {transitions : List SymbolicTransition}
    (h : s.validateNonces transitions = .ok s') : s' = { s with agentNonces := s'.agentNonces } := by
  refine Fallible.foldlM_except_ok (P := fun s s' => s' = { s with agentNonces := s'.agentNonces })
    (fun _ => rfl) ?_ checkNonce_frame h
  intro a b c hab hbc
  rw [hbc, hab]

end ManagedWorldState

/-! ## Reading what was written -/

theorem get_writeAll (s : ManagedWorldState) (ws : List StateWrite) (key : Bytes) :
    (s.writeAll ws).get key = (lastWrite (s.admitted ws) key).or (s.get key) := by
  show (s.trie.insertAll _).store[key]? = _
  rw [StateTrie.store_insertAll, getElem?_putAll]
  rfl

theorem get_writeAll_of_ne {s : ManagedWorldState} {ws : List StateWrite} {key : Bytes}
    (h : ∀ w ∈ ws, w.address ≠ key) : (s.writeAll ws).get key = s.get key := by
  rw [get_writeAll, lastWrite_eq_none, Option.none_or]
  intro w hw
  obtain ⟨w', hw', rfl⟩ := List.mem_map.mp hw
  exact h w' (List.mem_of_mem_filter hw')

def ManagedWorldState.entryLimit (state : ManagedWorldState) : Nat :=
  state.consensusParams.maxStateEntrySize.toNat

theorem entryLimit_lt (state : ManagedWorldState) : state.entryLimit < 2 ^ 32 :=
  state.consensusParams.maxStateEntrySize.toNat_lt

/-- A single write within the limit is what is read. -/
theorem get_writeAll_singleton {state : ManagedWorldState} {key value : Bytes}
    (hkey : key.length ≤ state.entryLimit) (hvalue : value.length ≤ state.entryLimit) :
    (state.writeAll [⟨key, value⟩]).get key = some value := by
  have hadmits : state.admits ⟨key, value⟩ = true := by
    simp only [ManagedWorldState.admits, Bool.and_eq_true, decide_eq_true_eq]
    exact ⟨hkey, hvalue⟩
  rw [get_writeAll, ManagedWorldState.admitted, List.filter_singleton, hadmits]
  simp [WriteThrough.lastWrite]

/-! ## Consensus parameters in the trie -/

def commitConsensusParams (state : ManagedWorldState) : ManagedWorldState :=
  state.applyDelta ⟨[⟨ConsensusParams.trieKey, state.consensusParams.toCanonicalBytes⟩], []⟩

def consensusParamsFromTrie (state : ManagedWorldState) :
    Except String (Option ConsensusParams) :=
  match state.get ConsensusParams.trieKey with
  | some bytes => (ConsensusParams.fromCanonicalBytes bytes).map some
  | none => .ok none

end Sccgub
