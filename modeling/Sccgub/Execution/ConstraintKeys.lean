import Mathlib
import Sccgub.Execution.ScceWalk

/-!
# Whose constraints a symbol has

The null byte after the symbol tells in a constraint key where the id begins, since
the symbol of the key has none.  The symbol that is looked up may have one: a lookup
then reads on into the ids of the symbol that ends at its first null byte.
-/

namespace Sccgub

open Bincode

variable {symbol other id otherId key value : Bytes} {state : ManagedWorldState}

/-! ## Keys -/

/-- What comes before the first separator is told apart from what comes after it. -/
theorem append_separator_inj {α : Type} {separator : α} {before after before' after' : List α}
    (hbefore : separator ∉ before) (hbefore' : separator ∉ before')
    (h : before ++ separator :: after = before' ++ separator :: after') :
    before = before' ∧ after = after' := by
  induction before generalizing before' with
  | nil =>
      rcases before' with _ | ⟨b, before'⟩
      · exact ⟨rfl, (List.cons.inj h).2⟩
      · refine absurd ?_ hbefore'
        rw [(List.cons.inj h).1]
        exact List.mem_cons_self
  | cons a before ih =>
      rcases before' with _ | ⟨b, before'⟩
      · refine absurd ?_ hbefore
        rw [← (List.cons.inj h).1]
        exact List.mem_cons_self
      · obtain ⟨rfl, hrest⟩ := List.cons.inj h
        obtain ⟨rfl, hafter⟩ := ih (List.not_mem_of_not_mem_cons hbefore)
          (List.not_mem_of_not_mem_cons hbefore') hrest
        exact ⟨rfl, hafter⟩

theorem constraintKey_eq_ok_iff :
    constraintKey symbol id = .ok key
      ↔ 0 ∉ symbol ∧ key = constraintPrefixForSymbol symbol ++ id := by
  rw [constraintKey]
  by_cases hnull : (0 : UInt8) ∈ symbol
  · rw [if_pos (List.contains_iff_mem.mpr hnull)]
    refine iff_of_false ?_ fun h => h.1 hnull
    rintro ⟨⟩
  · rw [if_neg (mt List.contains_iff_mem.mp hnull), Except.ok.injEq, eq_comm]
    exact ⟨fun hkey => ⟨hnull, hkey⟩, And.right⟩

/-- A key says which symbol and which id it was built from. -/
theorem constraintKey_inj (h : constraintKey symbol id = .ok key)
    (hother : constraintKey other otherId = .ok key) : symbol = other ∧ id = otherId := by
  obtain ⟨hnull, rfl⟩ := constraintKey_eq_ok_iff.mp h
  obtain ⟨hnull', hkeys⟩ := constraintKey_eq_ok_iff.mp hother
  simp only [constraintPrefixForSymbol, List.append_assoc] at hkeys
  have hrest : symbol ++ 0 :: id = other ++ 0 :: otherId := List.append_cancel_left hkeys
  exact append_separator_inj hnull hnull' hrest

/-- A symbol with a null byte begins with one that has none. -/
theorem exists_split_of_mem (h : (0 : UInt8) ∈ symbol) :
    ∃ owner rest, symbol = owner ++ [0] ++ rest ∧ (0 : UInt8) ∉ owner := by
  obtain ⟨owner, rest, hsplit, hnull⟩ := List.eq_append_cons_of_mem h
  exact ⟨owner, rest, by rw [hsplit, List.append_assoc]; rfl, hnull⟩

/-! ## Lookups -/

theorem mem_constraintsOf_iff :
    (key, value) ∈ constraintsOf state symbol
      ↔ state.get key = some value ∧ ∃ id, key = constraintPrefixForSymbol symbol ++ id := by
  refine StateTrie.mem_prefixIter.trans (and_congr_right' ?_)
  exact List.isPrefixOf_iff_prefix.trans (exists_congr fun id => eq_comm)

/-- The keys under `constraints/` were built from a symbol and an id. -/
def KeysBuilt (state : ManagedWorldState) : Prop :=
  ∀ key, state.trie.contains key = true → startsWith key (utf8 "constraints/") = true →
    ∃ symbol id, constraintKey symbol id = .ok key

/-- A symbol has what was stored for it, and nothing of any other. -/
structure Isolated (state : ManagedWorldState) (symbol : Bytes) : Prop where
  own : ∀ key value, (key, value) ∈ constraintsOf state symbol
    ↔ state.get key = some value ∧ ∃ id, constraintKey symbol id = .ok key
  others : ∀ other id key value, constraintKey other id = .ok key →
    (key, value) ∈ constraintsOf state symbol → other = symbol

/-- A symbol that this one begins with, up to a null byte, has a constraint whose id
goes on with the rest and a null byte. -/
def Intrudes (state : ManagedWorldState) (symbol : Bytes) : Prop :=
  ∃ owner rest id key, symbol = owner ++ [0] ++ rest
    ∧ constraintKey owner (rest ++ [0] ++ id) = .ok key ∧ state.trie.contains key = true

theorem isolated_of_own (h : ∀ key value, (key, value) ∈ constraintsOf state symbol
    ↔ state.get key = some value ∧ ∃ id, constraintKey symbol id = .ok key) :
    Isolated state symbol := by
  refine ⟨h, fun other otherId key value hother hfound => ?_⟩
  obtain ⟨-, id, hkey⟩ := (h key value).mp hfound
  exact (constraintKey_inj hother hkey).1

/-- A symbol without a null byte has its own constraints only. -/
theorem isolated_of_notMem (h : (0 : UInt8) ∉ symbol) : Isolated state symbol := by
  refine isolated_of_own fun key value => ?_
  rw [mem_constraintsOf_iff]
  refine and_congr_right' (exists_congr fun id => ?_)
  rw [constraintKey_eq_ok_iff]
  exact ⟨fun hkey => ⟨h, hkey⟩, And.right⟩

theorem contains_iff_get {trie : StateTrie} :
    trie.contains key = true ↔ ∃ value, trie.get key = some value := by
  rw [StateTrie.contains, StateTrie.get, decide_eq_true_eq, ← Option.isSome_iff_exists]
  exact Std.ExtTreeMap.mem_iff_isSome_getElem?

/-- A lookup finds what was stored for the symbol and what intrudes, and no other. -/
theorem isolated_iff (state : ManagedWorldState) (symbol : Bytes) :
    Isolated state symbol ↔ ¬ Intrudes state symbol := by
  constructor
  · rintro hisolated ⟨owner, rest, id, key, rfl, hkey, hcontains⟩
    obtain ⟨value, hget⟩ := contains_iff_get.mp hcontains
    have hfound : (key, value) ∈ constraintsOf state (owner ++ [0] ++ rest) := by
      refine mem_constraintsOf_iff.mpr ⟨hget, id, ?_⟩
      rw [(constraintKey_eq_ok_iff.mp hkey).2]
      simp only [constraintPrefixForSymbol, List.append_assoc]
    obtain ⟨-, own, hown⟩ := (hisolated.own key value).mp hfound
    have hnull := (constraintKey_eq_ok_iff.mp hown).1
    simp at hnull
  · intro hforeign
    by_cases hnull : (0 : UInt8) ∈ symbol
    · refine isolated_of_own fun key value => ?_
      constructor
      · intro hfound
        obtain ⟨hget, id, rfl⟩ := mem_constraintsOf_iff.mp hfound
        obtain ⟨owner, rest, rfl, howner⟩ := exists_split_of_mem hnull
        have hkey : constraintKey owner (rest ++ [0] ++ id)
            = .ok (constraintPrefixForSymbol (owner ++ [0] ++ rest) ++ id) := by
          refine constraintKey_eq_ok_iff.mpr ⟨howner, ?_⟩
          simp only [constraintPrefixForSymbol, List.append_assoc]
        exact absurd ⟨owner, rest, id, _, rfl, hkey, contains_iff_get.mpr ⟨value, hget⟩⟩ hforeign
      · rintro ⟨-, id, hkey⟩
        exact absurd hnull (constraintKey_eq_ok_iff.mp hkey).1
    · exact isolated_of_notMem hnull

/-! ## A target with a null byte -/

/-- The key of the constraint of `data/a` whose id begins with `b` and a null byte. -/
def neighbourKey : Bytes := utf8 "constraints/data/a" ++ [0] ++ (utf8 "b" ++ [0, 1])

def neighbourState : ManagedWorldState where
  trie := StateTrie.new.insert neighbourKey (utf8 "false")

/-- A target that begins with `data/a` and a null byte, and goes on with `b`. -/
def nullTarget : Bytes := utf8 "data/a" ++ [0] ++ utf8 "b"

def nullWrite (target : Bytes) : SymbolicTransition :=
  plainTransition (plainActor (Hash.ofByte 3) (Hash.ofByte 4)) .stateWrite target
    (.write target (utf8 "2")) []

theorem keysBuilt_neighbourState : KeysBuilt neighbourState := by
  intro key hcontains _
  obtain rfl : neighbourKey = key := by
    simpa [StateTrie.contains, neighbourState, StateTrie.insert, StateTrie.new] using hcontains
  exact ⟨utf8 "data/a", utf8 "b" ++ [0, 1], by decide +kernel⟩

/-- The target has no constraint, and the one of `data/a` rejects the write to it. -/
theorem nullTarget_not_isolated :
    KeysBuilt neighbourState
      ∧ nullTarget ∈ activateSymbols (nullWrite nullTarget).intent.target neighbourState
      ∧ (scceValidate (nullWrite nullTarget) neighbourState 32 10000).valid = false
      ∧ (scceValidate (nullWrite (utf8 "data/b")) neighbourState 32 10000).valid = true
      ∧ ¬ Isolated neighbourState nullTarget := by
  refine ⟨keysBuilt_neighbourState, by decide +kernel, by decide +kernel, by decide +kernel, ?_⟩
  intro h
  have hkey : constraintKey (utf8 "data/a") (utf8 "b" ++ [0, 1]) = .ok neighbourKey := by
    decide +kernel
  have hfound : (neighbourKey, utf8 "false") ∈ constraintsOf neighbourState nullTarget := by
    decide +kernel
  have hsame : utf8 "data/a" = nullTarget := h.others _ _ _ _ hkey hfound
  exact absurd hsame (by decide +kernel)

end Sccgub
