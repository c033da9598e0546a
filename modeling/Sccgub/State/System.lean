import Mathlib
import Sccgub.State.World
import Sccgub.Types.ValidatorSet

/-!
# Records under `system/`

Chain-level records that live in the trie: the window of prior tensions for the
fee oracle, the constitutional ceilings, and the validator set.
-/

namespace Sccgub

open Bincode

/-! ## Tension history -/

def tensionHistoryTrieKey : Bytes := utf8 "system/tension_history"

def tensionHistoryMaxLen : Nat := 64

def tensionHistoryFromTrie (state : ManagedWorldState) : Except String (List TensionValue) :=
  match state.get tensionHistoryTrieKey with
  | some bytes =>
      match TensionValue.codec.list.ofBytes bytes with
      | some history => .ok history
      | none => .error "tension_history deserialize"
  | none => .ok []

def commitTensionHistory (state : ManagedWorldState) (buffer : List TensionValue) :
    ManagedWorldState :=
  state.applyDelta ⟨[⟨tensionHistoryTrieKey, TensionValue.codec.list.enc buffer⟩], []⟩

/-- The oldest samples go first when the buffer is over its cap. -/
def appendAndTrim (state : ManagedWorldState) (newTension : TensionValue) :
    Except String (ManagedWorldState × List TensionValue) := do
  let history ← tensionHistoryFromTrie state
  let grown := history ++ [newTension]
  let buffer := grown.drop (grown.length - tensionHistoryMaxLen)
  return (commitTensionHistory state buffer, buffer)

/-- The most recent samples, all of them when there are fewer. -/
def tensionWindow (buffer : List TensionValue) (window : Nat) : List TensionValue :=
  if buffer.length ≤ window then buffer else buffer.drop (buffer.length - window)

/-! ## Constitutional ceilings -/

inductive CeilingsStateError where
  | alreadyCommitted
  deriving DecidableEq, Inhabited

/-- Written once. -/
def commitConstitutionalCeilingsAtGenesis (state : ManagedWorldState)
    (ceilings : ConstitutionalCeilings) : Except CeilingsStateError ManagedWorldState :=
  if (state.get ConstitutionalCeilings.trieKey).isSome then .error .alreadyCommitted
  else .ok (state.applyDelta ⟨[⟨ConstitutionalCeilings.trieKey, ceilings.toCanonicalBytes⟩], []⟩)

def constitutionalCeilingsFromTrie (state : ManagedWorldState) :
    Except String (Option ConstitutionalCeilings) :=
  match state.get ConstitutionalCeilings.trieKey with
  | some bytes => (ConstitutionalCeilings.fromCanonicalBytes bytes).map some
  | none => .ok none

/-! ## Validator set -/

def validatorSetTrieKey : Bytes := utf8 "system/validator_set"

def commitValidatorSet (state : ManagedWorldState) (set : ValidatorSet) : ManagedWorldState :=
  state.applyDelta ⟨[⟨validatorSetTrieKey, ValidatorSet.codec.enc set⟩], []⟩

def validatorSetFromTrie (state : ManagedWorldState) : Except String (Option ValidatorSet) :=
  match state.get validatorSetTrieKey with
  | some bytes =>
      match ValidatorSet.codec.ofBytes bytes with
      | some set => .ok (some set)
      | none => .error "ValidatorSet deserialize"
  | none => .ok none

end Sccgub
