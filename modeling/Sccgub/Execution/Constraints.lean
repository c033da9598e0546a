import Mathlib
import Sccgub.State.World

/-!
# Constraint expressions

Stored constraints are text.  The parser knows a handful of forms and turns
anything else into a predicate that never holds and says why; evaluation is a
pure function of the trie and the governance level it is given.
-/

namespace Sccgub

open Bincode FixedWidth

inductive Predicate where
  | exists (key : SymbolAddress)
  | notExists (key : SymbolAddress)
  | equals (key : SymbolAddress) (value : Bytes)
  | balanceAtLeast (agent : AgentId) (minBalance : I128)
  | minGovernanceLevel (level : UInt8)
  | and (predicates : List Predicate)
  | or (predicates : List Predicate)
  | not (inner : Predicate)
  | true
  | false
  | invalid (reason : String)
  deriving Inhabited

structure ConstraintResult where
  satisfied : Bool
  details : String
  deriving DecidableEq, Inhabited

/-- A stored balance of the right length, zero otherwise. -/
def storedBalance (state : ManagedWorldState) (agent : AgentId) : I128 :=
  match state.get (balanceKey agent) with
  | some value => if value.length = 16 then I128.ofBits (ofLeBytes value) else 0
  | none => 0

mutual

def evaluate (state : ManagedWorldState) (actorGovernanceLevel : UInt8) :
    Predicate → ConstraintResult
  | .exists key =>
      if state.trie.contains key then ⟨true, s!"Key '{fromUtf8Lossy key}' exists"⟩
      else ⟨false, s!"Key '{fromUtf8Lossy key}' does not exist"⟩
  | .notExists key =>
      if state.trie.contains key then ⟨false, s!"Key '{fromUtf8Lossy key}' unexpectedly exists"⟩
      else ⟨true, s!"Key '{fromUtf8Lossy key}' confirmed absent"⟩
  | .equals key value =>
      if state.get key = some value then ⟨true, "Value matches"⟩ else ⟨false, "Value mismatch"⟩
  | .balanceAtLeast agent minBalance =>
      let actual := storedBalance state agent
      ⟨decide (minBalance ≤ actual), s!"Balance {actual.val} vs min {minBalance.val}"⟩
  | .minGovernanceLevel level =>
      ⟨actorGovernanceLevel ≤ level, s!"Actor level {actorGovernanceLevel} vs required {level}"⟩
  | .and predicates => evaluateAll state actorGovernanceLevel predicates
  | .or predicates => evaluateAny state actorGovernanceLevel predicates
  | .not inner =>
      let r := evaluate state actorGovernanceLevel inner
      ⟨!r.satisfied, s!"NOT({r.details})"⟩
  | .true => ⟨true, "Always true"⟩
  | .false => ⟨false, "Always false"⟩
  | .invalid reason => ⟨false, s!"invalid constraint expression: {reason}"⟩

def evaluateAll (state : ManagedWorldState) (actorGovernanceLevel : UInt8) :
    List Predicate → ConstraintResult
  | [] => ⟨true, "All AND conditions met"⟩
  | p :: rest =>
      let r := evaluate state actorGovernanceLevel p
      if r.satisfied then evaluateAll state actorGovernanceLevel rest
      else ⟨false, s!"AND failed: {r.details}"⟩

def evaluateAny (state : ManagedWorldState) (actorGovernanceLevel : UInt8) :
    List Predicate → ConstraintResult
  | [] => ⟨false, "No OR conditions met"⟩
  | p :: rest =>
      let r := evaluate state actorGovernanceLevel p
      if r.satisfied then ⟨true, s!"OR satisfied: {r.details}"⟩
      else evaluateAny state actorGovernanceLevel rest

end

mutual

/-- Predicates are about the entries of the trie and nothing else. -/
theorem evaluate_onto (state other : ManagedWorldState) (level : UInt8) :
    ∀ p, evaluate (state.onto other) level p = evaluate state level p
  | .exists _ | .notExists _ | .equals _ _ | .balanceAtLeast _ _ | .minGovernanceLevel _ | .true
  | .false | .invalid _ => rfl
  | .and predicates => evaluateAll_onto state other level predicates
  | .or predicates => evaluateAny_onto state other level predicates
  | .not inner => by simp only [evaluate, evaluate_onto state other level inner]

theorem evaluateAll_onto (state other : ManagedWorldState) (level : UInt8) :
    ∀ ps, evaluateAll (state.onto other) level ps = evaluateAll state level ps
  | [] => rfl
  | p :: rest => by
      simp only [evaluateAll, evaluate_onto state other level p,
        evaluateAll_onto state other level rest]

theorem evaluateAny_onto (state other : ManagedWorldState) (level : UInt8) :
    ∀ ps, evaluateAny (state.onto other) level ps = evaluateAny state level ps
  | [] => rfl
  | p :: rest => by
      simp only [evaluateAny, evaluate_onto state other level p,
        evaluateAny_onto state other level rest]

end

/-! ## Text -/

/-- The characters that trimming removes. -/
def isWhiteSpace (c : Char) : Bool :=
  (9 ≤ c.toNat && c.toNat ≤ 13) || c.toNat = 32 || c.toNat = 0x85 || c.toNat = 0xA0
    || c.toNat = 0x1680 || (0x2000 ≤ c.toNat && c.toNat ≤ 0x200A) || c.toNat = 0x2028
    || c.toNat = 0x2029 || c.toNat = 0x202F || c.toNat = 0x205F || c.toNat = 0x3000

def trim (cs : List Char) : List Char :=
  ((cs.dropWhile isWhiteSpace).reverse.dropWhile isWhiteSpace).reverse

def stripPrefix (start cs : List Char) : Option (List Char) :=
  if start.isPrefixOf cs then some (cs.drop start.length) else none

/-- What stands before and after the first `=`. -/
def splitOnce (cs : List Char) : Option (List Char × List Char) :=
  if '=' ∈ cs then
    some (cs.takeWhile (· ≠ '='), (cs.dropWhile (· ≠ '=')).drop 1)
  else none

def charBytes (cs : List Char) : Bytes := utf8 (String.ofList cs)

/-- Digits after an optional plus sign, up to a bound. -/
def parseUnsigned (max : Nat) (cs : List Char) : Option Nat :=
  let digits := match charBytes cs with
    | 43 :: rest => rest
    | bs => bs
  (I128.parseDigits digits).filter (· ≤ max)

def parseConstraintExpression (expr : String) : Predicate :=
  let cs := trim expr.toList
  if cs = "true".toList || cs.isEmpty then .true
  else if cs = "false".toList then .false
  else
    match stripPrefix "exists:".toList cs with
    | some key => .exists (charBytes key)
    | none =>
        match (stripPrefix "equals:".toList cs).bind splitOnce with
        | some (key, value) => .equals (charBytes key) (charBytes value)
        | none =>
            match (stripPrefix "governance:".toList cs).bind (parseUnsigned 255) with
            | some level => .minGovernanceLevel (UInt8.ofNat level)
            | none => .invalid s!"unknown expression form: {String.ofList cs}"

end Sccgub
