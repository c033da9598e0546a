import Mathlib
import Sccgub.Fallible
import Sccgub.State.World

/-!
# Nonces in sequence

A list of transitions is admitted exactly when the nonces of every agent go on
from its last one, one by one, however the agents interleave.  Then the last
nonce of an agent is the one on record; otherwise the record is put back.
-/

namespace Sccgub

open Fallible

namespace ManagedWorldState

def lastNonce (self : ManagedWorldState) (agentId : AgentId) : BitVec 128 :=
  self.agentNonces[agentId]?.getD 0

/-- The check is a comparison: zero and the end of the range are never next. -/
theorem checkNonce_eq_ok_iff {s s' : ManagedWorldState} {agentId : AgentId} {nonce : BitVec 128} :
    s.checkNonce agentId nonce = .ok s'
      ↔ nonce.toNat = (s.lastNonce agentId).toNat + 1
        ∧ s' = { s with agentNonces := s.agentNonces.insert agentId nonce } := by
  have hlt := nonce.isLt
  unfold checkNonce
  by_cases hnext : nonce.toNat = (s.lastNonce agentId).toNat + 1
  · have hzero : nonce ≠ 0 := by
      rintro rfl
      simp at hnext
    have hlast : (s.agentNonces[agentId]?.getD 0).toNat + 1 = nonce.toNat := hnext.symm
    rw [if_neg hzero]
    dsimp only
    rw [hlast, if_neg (by omega), if_neg (by simp)]
    exact ⟨fun h => ⟨hnext, (Except.ok.inj h).symm⟩, fun h => congrArg _ h.2.symm⟩
  · refine ⟨fun h => ?_, fun h => absurd h.1 hnext⟩
    split_ifs at h with hzero
    dsimp only at h
    split_ifs at h with hmax hseq
    exact absurd (not_not.mp hseq) hnext

theorem checkNonce_cases {s s' : ManagedWorldState} {agentId : AgentId} {nonce : BitVec 128}
    (h : s.checkNonce agentId nonce = .ok s') :
    nonce.toNat = (s.lastNonce agentId).toNat + 1
      ∧ s' = { s with agentNonces := s.agentNonces.insert agentId nonce } :=
  checkNonce_eq_ok_iff.mp h

/-- The record after a nonce is taken. -/
def take (self : ManagedWorldState) (agentId : AgentId) (nonce : BitVec 128) : ManagedWorldState :=
  { self with agentNonces := self.agentNonces.insert agentId nonce }

@[simp] theorem agentNonces_take_self (self : ManagedWorldState) (agentId : AgentId)
    (nonce : BitVec 128) : (self.take agentId nonce).agentNonces[agentId]? = some nonce :=
  Std.ExtTreeMap.getElem?_insert_self

theorem agentNonces_take_of_ne (self : ManagedWorldState) {agentId other : AgentId}
    (nonce : BitVec 128) (h : agentId ≠ other) :
    (self.take agentId nonce).agentNonces[other]? = self.agentNonces[other]? := by
  rw [take, Std.ExtTreeMap.getElem?_insert, if_neg (by simpa using h)]

@[simp] theorem lastNonce_take_self (self : ManagedWorldState) (agentId : AgentId)
    (nonce : BitVec 128) : (self.take agentId nonce).lastNonce agentId = nonce := by
  rw [lastNonce, agentNonces_take_self]
  rfl

theorem lastNonce_take_of_ne (self : ManagedWorldState) {agentId other : AgentId}
    (nonce : BitVec 128) (h : agentId ≠ other) :
    (self.take agentId nonce).lastNonce other = self.lastNonce other := by
  rw [lastNonce, agentNonces_take_of_ne self nonce h]
  rfl

theorem lastNonce_checkNonce {s s' : ManagedWorldState} {agentId : AgentId} {nonce : BitVec 128}
    (h : s.checkNonce agentId nonce = .ok s') :
    (s'.lastNonce agentId).toNat = (s.lastNonce agentId).toNat + 1
      ∧ ∀ other, (s.lastNonce other).toNat ≤ (s'.lastNonce other).toNat := by
  obtain ⟨hnonce, rfl⟩ := checkNonce_cases h
  have hself : (s.take agentId nonce).lastNonce agentId = nonce := s.lastNonce_take_self agentId nonce
  refine ⟨(congrArg BitVec.toNat hself).trans hnonce, fun other => ?_⟩
  show _ ≤ ((s.take agentId nonce).lastNonce other).toNat
  by_cases hother : agentId = other
  · subst hother
    rw [hself, hnonce]
    exact Nat.le_succ _
  · rw [lastNonce_take_of_ne s nonce hother]

theorem lastNonce_validateNonces {s s' : ManagedWorldState} {transitions : List SymbolicTransition}
    (h : s.validateNonces transitions = .ok s') (agentId : AgentId) :
    (s.lastNonce agentId).toNat ≤ (s'.lastNonce agentId).toNat :=
  Fallible.foldlM_except_ok
    (P := fun s s' => (s.lastNonce agentId).toNat ≤ (s'.lastNonce agentId).toNat)
    (fun _ => le_rfl) le_trans (fun hstep => (lastNonce_checkNonce hstep).2 agentId) h

theorem validateNonces_cons_iff {s s' : ManagedWorldState} {tx : SymbolicTransition}
    {rest : List SymbolicTransition} :
    s.validateNonces (tx :: rest) = .ok s'
      ↔ tx.nonce.toNat = (s.lastNonce tx.actor.agentId).toNat + 1
        ∧ (s.take tx.actor.agentId tx.nonce).validateNonces rest = .ok s' := by
  unfold validateNonces
  rw [List.foldlM_cons, bind_eq_ok_iff]
  constructor
  · rintro ⟨next, hfirst, hrest⟩
    obtain ⟨hnonce, rfl⟩ := checkNonce_cases hfirst
    exact ⟨hnonce, hrest⟩
  · rintro ⟨hnonce, hrest⟩
    exact ⟨_, checkNonce_eq_ok_iff.mpr ⟨hnonce, rfl⟩, hrest⟩

/-- Where there is a transition, its nonce has been taken. -/
theorem agentNonces_moved {s s' : ManagedWorldState} {transitions : List SymbolicTransition}
    (h : s.validateNonces transitions = .ok s') (hne : transitions ≠ []) :
    s'.agentNonces ≠ s.agentNonces := by
  obtain ⟨tx, rest, rfl⟩ := List.exists_cons_of_ne_nil hne
  obtain ⟨hnonce, hrest⟩ := validateNonces_cons_iff.mp h
  intro hsame
  have hgrown := lastNonce_validateNonces hrest tx.actor.agentId
  have hlast : s'.lastNonce tx.actor.agentId = s.lastNonce tx.actor.agentId := by
    rw [lastNonce, hsame]
    rfl
  rw [lastNonce_take_self, hnonce, hlast] at hgrown
  exact absurd hgrown (Nat.not_succ_le_self _)

end ManagedWorldState

/-! ## One agent at a time -/

/-- The nonces of an agent, in the order of the list. -/
def noncesOf (agentId : AgentId) (transitions : List SymbolicTransition) : List (BitVec 128) :=
  (transitions.filter fun tx => tx.actor.agentId = agentId).map (·.nonce)

/-- They go on from the last one, one by one.  As they are nonces they stay
within the range. -/
def InSequence (last : BitVec 128) (nonces : List (BitVec 128)) : Prop :=
  nonces.map BitVec.toNat = List.range' (last.toNat + 1) nonces.length

theorem inSequence_nil (last : BitVec 128) : InSequence last [] := rfl

theorem inSequence_cons_iff {last nonce : BitVec 128} {nonces : List (BitVec 128)} :
    InSequence last (nonce :: nonces) ↔ nonce.toNat = last.toNat + 1 ∧ InSequence nonce nonces := by
  unfold InSequence
  rw [List.map_cons, List.length_cons, List.range'_succ, List.cons.injEq]
  refine and_congr_right fun hnonce => ?_
  rw [hnonce]

theorem InSequence.bounded {last : BitVec 128} {nonces : List (BitVec 128)}
    (h : InSequence last nonces) : last.toNat + nonces.length < 2 ^ 128 := by
  induction nonces generalizing last with
  | nil => exact last.isLt
  | cons nonce nonces ih =>
      obtain ⟨hnonce, hrest⟩ := inSequence_cons_iff.mp h
      have hbounded := ih hrest
      rw [List.length_cons]
      omega

theorem noncesOf_cons_self (tx : SymbolicTransition) (rest : List SymbolicTransition) :
    noncesOf tx.actor.agentId (tx :: rest) = tx.nonce :: noncesOf tx.actor.agentId rest := by
  simp [noncesOf]

theorem noncesOf_cons_of_ne {agentId : AgentId} {tx : SymbolicTransition}
    (h : tx.actor.agentId ≠ agentId) (rest : List SymbolicTransition) :
    noncesOf agentId (tx :: rest) = noncesOf agentId rest := by
  simp [noncesOf, h]

namespace ManagedWorldState

/-- Admission is exact. -/
theorem exists_validateNonces_iff {s : ManagedWorldState} {transitions : List SymbolicTransition} :
    (∃ s', s.validateNonces transitions = .ok s')
      ↔ ∀ agentId, InSequence (s.lastNonce agentId) (noncesOf agentId transitions) := by
  induction transitions generalizing s with
  | nil => exact ⟨fun _ _ => inSequence_nil _, fun _ => ⟨s, rfl⟩⟩
  | cons tx rest ih =>
      simp only [validateNonces_cons_iff, exists_and_left]
      rw [ih]
      constructor
      · rintro ⟨hnonce, hrest⟩ agentId
        by_cases hagent : tx.actor.agentId = agentId
        · subst hagent
          have hself := hrest tx.actor.agentId
          rw [lastNonce_take_self] at hself
          rw [noncesOf_cons_self]
          exact inSequence_cons_iff.mpr ⟨hnonce, hself⟩
        · have hother := hrest agentId
          rw [lastNonce_take_of_ne s tx.nonce hagent] at hother
          rwa [noncesOf_cons_of_ne hagent]
      · intro h
        have hself := h tx.actor.agentId
        rw [noncesOf_cons_self] at hself
        obtain ⟨hnonce, htail⟩ := inSequence_cons_iff.mp hself
        refine ⟨hnonce, fun agentId => ?_⟩
        by_cases hagent : tx.actor.agentId = agentId
        · subst hagent
          rwa [lastNonce_take_self]
        · have hother := h agentId
          rw [noncesOf_cons_of_ne hagent] at hother
          rwa [lastNonce_take_of_ne s tx.nonce hagent]

/-- The record holds the last nonce of every agent of the list, and nothing else
has changed. -/
theorem getElem?_agentNonces_of_validateNonces {s s' : ManagedWorldState}
    {transitions : List SymbolicTransition} (h : s.validateNonces transitions = .ok s')
    (agentId : AgentId) :
    s'.agentNonces[agentId]?
      = (noncesOf agentId transitions).getLast?.or s.agentNonces[agentId]? := by
  induction transitions generalizing s with
  | nil =>
      obtain rfl := Except.ok.inj h
      rfl
  | cons tx rest ih =>
      obtain ⟨-, hrest⟩ := validateNonces_cons_iff.mp h
      rw [ih hrest]
      by_cases hagent : tx.actor.agentId = agentId
      · subst hagent
        rw [agentNonces_take_self, noncesOf_cons_self, List.getLast?_cons]
        rcases (noncesOf tx.actor.agentId rest).getLast? with _ | last
        · rfl
        · rfl
      · rw [agentNonces_take_of_ne s tx.nonce hagent, noncesOf_cons_of_ne hagent]

/-! ## In place -/

/-- The record is changed as the loop goes, and put back when it fails. -/
def validateNoncesInPlace (self : ManagedWorldState) (transitions : List SymbolicTransition) :
    Except String Unit × ManagedWorldState :=
  match foldlUntil (fun s tx => s.checkNonce tx.actor.agentId tx.nonce) self transitions with
  | (s, none) => (.ok (), s)
  | (s, some e) => (.error e, { s with agentNonces := self.agentNonces })

theorem validateNoncesInPlace_eq (self : ManagedWorldState)
    (transitions : List SymbolicTransition) :
    self.validateNoncesInPlace transitions = match self.validateNonces transitions with
      | .ok s => (.ok (), s)
      | .error e => (.error e, self) := by
  have hframe := @foldlUntil_inv String ManagedWorldState SymbolicTransition
    (fun s tx => s.checkNonce tx.actor.agentId tx.nonce)
    (fun s => s = { self with agentNonces := s.agentNonces })
    (fun s tx s' hstep hs => by rw [checkNonce_frame hstep, hs]) self rfl transitions
  unfold validateNoncesInPlace
  rcases hloop : foldlUntil (fun s tx => s.checkNonce tx.actor.agentId tx.nonce) self transitions
    with ⟨s, _ | e⟩
  · have hok : self.validateNonces transitions = .ok s :=
      foldlM_eq_ok_iff_foldlUntil.mpr hloop
    rw [hok, hloop]
  · have herror : self.validateNonces transitions = .error e :=
      foldlM_eq_error_iff_foldlUntil.mpr (congrArg Prod.snd hloop)
    rw [hloop] at hframe
    have hframe : s = { self with agentNonces := s.agentNonces } := hframe
    rw [herror, hloop]
    show (Except.error e, { s with agentNonces := self.agentNonces }) = (Except.error e, self)
    rw [hframe]

end ManagedWorldState

end Sccgub
