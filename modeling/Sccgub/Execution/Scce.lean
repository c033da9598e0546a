import Mathlib
import Sccgub.Execution.Constraints

/-!
# Constraint walk

Validation of a transition against the constraints stored for its target.  The
target and the path prefixes that are in the trie seed a work list; each symbol
is visited once, its constraints are evaluated, and its children in the trie
are added.  The walk stops at the first constraint that does not hold and fails
closed when it runs out of steps.
-/

namespace Sccgub

open Bincode

/-- Slash, the separator of path parts. -/
def slash : UInt8 := 47

/-- The path up to its last separator. -/
def parentPath (path : Bytes) : Option Bytes :=
  if slash ∈ path then some ((path.reverse.dropWhile (· ≠ slash)).drop 1).reverse else none

/-- Path prefixes that are in the trie, until there are enough symbols.  The
path gets shorter with every step, so its length is fuel enough. -/
def activatePrefixes (state : ManagedWorldState) (max : Nat) :
    Nat → List Bytes → Bytes → List Bytes
  | 0, symbols, _ => symbols
  | fuel + 1, symbols, path =>
      if symbols.length < max then
        match parentPath path with
        | some parent =>
            if !parent.isEmpty && state.trie.contains parent then
              activatePrefixes state max fuel (symbols ++ [parent]) parent
            else activatePrefixes state max fuel symbols parent
        | none => symbols
      else symbols

def activateSymbols (target : Bytes) (state : ManagedWorldState) : List Bytes :=
  let max := Nat.max state.consensusParams.maxActivatedSymbols.toNat 1
  activatePrefixes state max (target.length + 1) [target] target

/-- Counts entries, stopping at the cap. -/
def countCapped (cap : Nat) : Nat → List (Bytes × Bytes) → Nat
  | count, [] => count
  | count, _ :: rest => if cap ≤ count + 1 then count + 1 else countCapped cap (count + 1) rest

def selectRelevantSubgraph (activeSymbols : List Bytes) (state : ManagedWorldState) : Nat :=
  let totalCap := min (state.consensusParams.maxScanPerSymbol.toNat * activeSymbols.length)
    FixedWidth.u64Max
  countCapped totalCap 0 (activeSymbols.flatMap state.trie.prefixIter)

structure PropagationResult where
  consistent : Bool
  tensionDelta : TensionValue
  steps : Nat
  conflictDetail : String
  deriving DecidableEq

/-- A null byte keeps a symbol's constraints apart from its descendants'. -/
def constraintPrefixForSymbol (symbol : Bytes) : Bytes := utf8 "constraints/" ++ symbol ++ [0]

/-- The constraints of one symbol: a conflict, or tension and steps so far. -/
def evaluateConstraints (state : ManagedWorldState) (maxSteps depth : Nat) :
    Nat → Nat → TensionValue → List (Bytes × Bytes) → PropagationResult ⊕ (TensionValue × Nat)
  | _, steps, tension, [] => .inr (tension, steps)
  | perSymbol, steps, tension, (key, value) :: rest =>
      let steps := steps + 1
      let perSymbol := perSymbol + 1
      if state.consensusParams.maxConstraintsPerSymbol.toNat < perSymbol || maxSteps ≤ steps then
        .inr (tension, steps)
      else
        match String.fromUTF8? ⟨value.toArray⟩ with
        | none =>
            .inl ⟨false, tension, steps, s!"non-utf8 constraint at {hexEncode key}"⟩
        | some expr =>
            let result := evaluate state 255 (parseConstraintExpression expr)
            if result.satisfied then
              evaluateConstraints state maxSteps depth perSymbol steps
                (tension + TensionValue.fromInteger (1 + depth)) rest
            else
              .inl ⟨false, tension, steps,
                s!"constraint at {hexEncode key} unsat: {result.details}"⟩

/-- Entries one path part below a symbol. -/
def childSymbols (state : ManagedWorldState) (symbol : Bytes) : List Bytes :=
  let childPrefix := symbol ++ [slash]
  ((state.trie.prefixIter childPrefix).map Prod.fst).filter fun key =>
    !(key.drop childPrefix.length).contains slash

def exhausted (maxSteps steps : Nat) (tension : TensionValue) : PropagationResult :=
  ⟨false, tension, steps, s!"constraint propagation exhausted step budget ({maxSteps} steps)"⟩

/-- The work list.  A key is a child of one symbol only and a symbol is expanded
once, so seeds and entries bound the number of turns. -/
def propagate (state : ManagedWorldState) (maxDepth maxSteps : Nat) :
    Nat → List (Bytes × Nat) → Std.ExtTreeSet Bytes → Nat → TensionValue → PropagationResult
  | 0, _, _, steps, tension => ⟨true, tension, steps, ""⟩
  | _, [], _, steps, tension => ⟨true, tension, steps, ""⟩
  | fuel + 1, (symbol, depth) :: worklist, visited, steps, tension =>
      if maxSteps ≤ steps then exhausted maxSteps steps tension
      else if symbol ∈ visited then
        propagate state maxDepth maxSteps fuel worklist visited steps tension
      else if maxDepth < depth then
        propagate state maxDepth maxSteps fuel worklist (visited.insert symbol) steps tension
      else
        match evaluateConstraints state maxSteps depth 0 steps tension
            (state.trie.prefixIter (constraintPrefixForSymbol symbol)) with
        | .inl conflict => conflict
        | .inr (tension, steps) =>
            if maxSteps ≤ steps then exhausted maxSteps steps tension
            else
              let children := (childSymbols state symbol).map fun key => (key, depth + 1)
              propagate state maxDepth maxSteps fuel (worklist ++ children)
                (visited.insert symbol) steps tension

def propagateConstraints (activeSymbols : List Bytes) (state : ManagedWorldState)
    (maxDepth maxSteps : Nat) : PropagationResult :=
  propagate state maxDepth maxSteps (activeSymbols.length + state.trie.store.size)
    (activeSymbols.map fun s => (s, 0)) ∅ 0 .zero

/-- Reads need their target; everything else needs one that is not empty. -/
def checkGrounding (target : Bytes) (state : ManagedWorldState) (kind : TransitionKind) : Bool :=
  match kind with
  | .stateRead => state.trie.contains target
  | _ => !target.isEmpty

def evaluateGovernanceValue (transition : SymbolicTransition) : Bool :=
  let requiredLevel : PrecedenceLevel := match transition.intent.kind with
    | .governanceUpdate | .normProposal => .meaning
    | _ => .optimization
  transition.actor.governanceLevel.asU8 ≤ requiredLevel.asU8

structure ScceResult where
  valid : Bool
  tensionDelta : TensionValue
  stepsUsed : Nat
  details : String
  deriving DecidableEq

/-- The attention and decay weights the source passes along are never read. -/
def scceValidate (transition : SymbolicTransition) (state : ManagedWorldState)
    (maxPropagationDepth : UInt32) (maxPropagationSteps : UInt64) : ScceResult :=
  let target := transition.intent.target
  let activeSymbols := activateSymbols target state
  let stepsUsed := 1 + selectRelevantSubgraph activeSymbols state
  if maxPropagationSteps.toNat < stepsUsed then
    ⟨false, .zero, stepsUsed, "Exceeded max propagation steps at attention step"⟩
  else
    let propagation := propagateConstraints activeSymbols state maxPropagationDepth.toNat
      (maxPropagationSteps.toNat - stepsUsed)
    let stepsUsed := stepsUsed + propagation.steps
    if !propagation.consistent then
      ⟨false, propagation.tensionDelta, stepsUsed,
        s!"Constraint conflict detected: {propagation.conflictDetail}"⟩
    else if !checkGrounding target state transition.intent.kind then
      ⟨false, propagation.tensionDelta, stepsUsed + 1,
        "Grounding check failed: target address not valid"⟩
    else if !evaluateGovernanceValue transition then
      ⟨false, propagation.tensionDelta, stepsUsed + 2,
        "Value evaluation failed: governance violation"⟩
    else
      let areaTension := state.tensionField.map[target]?.getD .zero
      let tensionDelta := if state.tensionField.currentBudget < areaTension then
        propagation.tensionDelta + TensionValue.fromInteger 1 else propagation.tensionDelta
      ⟨true, tensionDelta, stepsUsed + 2, "SCCE validation passed"⟩

/-! ## What the walk reads -/

section

variable (state other : ManagedWorldState)

theorem activatePrefixes_onto (max fuel : Nat) (symbols : List Bytes) (path : Bytes) :
    activatePrefixes (state.onto other) max fuel symbols path
      = activatePrefixes state max fuel symbols path := by
  induction fuel generalizing symbols path with
  | zero => rfl
  | succ fuel ih =>
      simp only [activatePrefixes, ih]
      rfl

theorem evaluateConstraints_onto (maxSteps depth perSymbol steps : Nat)
    (tension : TensionValue) (entries : List (Bytes × Bytes)) :
    evaluateConstraints (state.onto other) maxSteps depth perSymbol steps tension entries
      = evaluateConstraints state maxSteps depth perSymbol steps tension entries := by
  induction entries generalizing perSymbol steps tension with
  | nil => rfl
  | cons entry rest ih =>
      obtain ⟨key, value⟩ := entry
      simp only [evaluateConstraints, evaluate_onto, ih]
      rfl

theorem propagate_onto (maxDepth maxSteps fuel : Nat) (worklist : List (Bytes × Nat))
    (visited : Std.ExtTreeSet Bytes) (steps : Nat) (tension : TensionValue) :
    propagate (state.onto other) maxDepth maxSteps fuel worklist visited steps tension
      = propagate state maxDepth maxSteps fuel worklist visited steps tension := by
  induction fuel generalizing worklist visited steps tension with
  | zero => rfl
  | succ fuel ih =>
      rcases worklist with _ | ⟨⟨symbol, depth⟩, worklist⟩
      · rfl
      · simp only [propagate, evaluateConstraints_onto, ih]
        rfl

theorem scceValidate_onto (transition : SymbolicTransition) (maxDepth : UInt32)
    (maxSteps : UInt64) :
    scceValidate transition (state.onto other) maxDepth maxSteps
      = scceValidate transition state maxDepth maxSteps := by
  have hsymbols : activateSymbols transition.intent.target (state.onto other)
      = activateSymbols transition.intent.target state :=
    activatePrefixes_onto state other _ _ _ _
  simp only [scceValidate, hsymbols, propagateConstraints, propagate_onto]
  rfl

end

end Sccgub
