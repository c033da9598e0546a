import Mathlib
import Sccgub.BreadthFirst
import Sccgub.Execution.Authorization
import Sccgub.Execution.Scce
import Sccgub.State.PrefixScan

/-!
# What the constraint walk covers

The walk over the symbols is a breadth-first search: a symbol leads to the
entries one path part below it.  `Walks` is the loop without a bound on the
number of its turns; `propagateConstraints` takes enough of them to reach the
end whatever the seeds and the trie.

What one symbol's constraints cost and which of them are looked at does not
depend on the other symbols, so a walk that finds no conflict has looked at the
symbols within the depth limit and at no more than `maxConstraintsPerSymbol`
constraints of each.
-/

namespace Sccgub

open Bincode BreadthFirst

/-! ## One symbol -/

/-- The constraint an entry holds is text, and satisfied. -/
def ConstraintHolds (state : ManagedWorldState) (value : Bytes) : Prop :=
  ∃ expr, String.fromUTF8? ⟨value.toArray⟩ = some expr
    ∧ (evaluate state 255 (parseConstraintExpression expr)).satisfied = true

/-- The key of a constraint attached to a symbol. -/
def constraintKey (symbol constraintId : Bytes) : Except String Bytes :=
  if symbol.contains 0 then .error "symbol addresses must not contain null bytes"
  else .ok (utf8 "constraints/" ++ symbol ++ [0] ++ constraintId)

def constraintsOf (state : ManagedWorldState) (symbol : Bytes) : List (Bytes × Bytes) :=
  state.trie.prefixIter (constraintPrefixForSymbol symbol)

theorem mem_constraintsOf {state : ManagedWorldState} {symbol constraintId key value : Bytes}
    (hkey : constraintKey symbol constraintId = .ok key) (hget : state.get key = some value) :
    (key, value) ∈ constraintsOf state symbol := by
  refine StateTrie.mem_prefixIter.mpr ⟨hget, ?_⟩
  rw [constraintKey] at hkey
  split at hkey
  · cases hkey
  · cases hkey
    exact List.isPrefixOf_iff_prefix.mpr (List.prefix_append _ _)

def perSymbolLimit (state : ManagedWorldState) : Nat :=
  state.consensusParams.maxConstraintsPerSymbol.toNat

/-- Every constraint of a symbol is a step, and the one past the limit is the last. -/
def walkCost (state : ManagedWorldState) (symbol : Bytes) : Nat :=
  min (constraintsOf state symbol).length (perSymbolLimit state + 1)

section

variable {state : ManagedWorldState} {maxSteps depth perSymbol steps : Nat} {tension : TensionValue}
  {entries : List (Bytes × Bytes)}

/-- A conflict is a constraint that does not hold; unless the steps run out, all
constraints up to the limit hold, and they took their steps. -/
theorem evaluateConstraints_spec (hlimit : perSymbol ≤ perSymbolLimit state) :
    match evaluateConstraints state maxSteps depth perSymbol steps tension entries with
    | .inl result => result.consistent = false
        ∧ ∃ e ∈ entries.take (perSymbolLimit state - perSymbol), ¬ ConstraintHolds state e.2
    | .inr (_, steps') =>
        steps' ≤ steps + min entries.length (perSymbolLimit state - perSymbol + 1)
          ∧ (steps' < maxSteps →
            steps' = steps + min entries.length (perSymbolLimit state - perSymbol + 1)
              ∧ ∀ e ∈ entries.take (perSymbolLimit state - perSymbol),
                ConstraintHolds state e.2) := by
  induction entries generalizing perSymbol steps tension with
  | nil =>
      simp only [evaluateConstraints]
      simp
  | cons entry rest ih =>
      obtain ⟨key, value⟩ := entry
      have hcost : min ((key, value) :: rest).length (perSymbolLimit state - perSymbol + 1)
          = 1 + min rest.length (perSymbolLimit state - perSymbol) := by
        rw [List.length_cons, Nat.add_min_add_right, Nat.add_comm]
      rw [evaluateConstraints, hcost]
      by_cases hstop : perSymbolLimit state < perSymbol + 1 ∨ maxSteps ≤ steps + 1
      · have hcond : (decide (state.consensusParams.maxConstraintsPerSymbol.toNat < perSymbol + 1)
            || decide (maxSteps ≤ steps + 1)) = true := by
          simpa [perSymbolLimit] using hstop
        simp only [hcond, if_true]
        refine ⟨by omega, fun hsteps => ?_⟩
        have hfull : perSymbolLimit state - perSymbol = 0 := by omega
        simp [hfull]
      · have hcond : (decide (state.consensusParams.maxConstraintsPerSymbol.toNat < perSymbol + 1)
            || decide (maxSteps ≤ steps + 1)) = false := by
          simpa [perSymbolLimit] using hstop
        simp only [hcond, Bool.false_eq_true, if_false]
        have hroom : perSymbolLimit state - perSymbol
            = (perSymbolLimit state - (perSymbol + 1)) + 1 := by omega
        rw [hroom, List.take_succ_cons]
        rcases htext : String.fromUTF8? ⟨value.toArray⟩ with _ | expr
        · refine ⟨rfl, (key, value), List.mem_cons_self, ?_⟩
          rintro ⟨expr, hexpr, -⟩
          rw [htext] at hexpr
          cases hexpr
        · by_cases hsat : (evaluate state 255 (parseConstraintExpression expr)).satisfied = true
          · simp only [hsat, if_true]
            have hholds : ConstraintHolds state value := ⟨expr, htext, hsat⟩
            have hrest := @ih (perSymbol + 1) (steps + 1)
              (tension + TensionValue.fromInteger (1 + depth)) (by omega)
            rcases heval : evaluateConstraints state maxSteps depth (perSymbol + 1) (steps + 1)
              (tension + TensionValue.fromInteger (1 + depth)) rest with result | ⟨tension', steps'⟩
            · rw [heval] at hrest
              obtain ⟨hbad, e, he, hfails⟩ := hrest
              exact ⟨hbad, e, List.mem_cons_of_mem _ he, hfails⟩
            · rw [heval] at hrest
              obtain ⟨hle, hall⟩ := hrest
              refine ⟨by omega, fun hsteps => ?_⟩
              obtain ⟨heq, hheld⟩ := hall hsteps
              exact ⟨by omega, List.forall_mem_cons.mpr ⟨hholds, hheld⟩⟩
          · simp only [hsat]
            refine ⟨rfl, (key, value), List.mem_cons_self, ?_⟩
            rintro ⟨expr', hexpr, hholds⟩
            rw [htext] at hexpr
            cases hexpr
            exact hsat hholds

variable {symbol : Bytes} {result : PropagationResult} {steps' : Nat} {tension' : TensionValue}

theorem evaluateConstraints_conflict
    (heval : evaluateConstraints state maxSteps depth 0 steps tension
      (constraintsOf state symbol) = .inl result) :
    result.consistent = false
      ∧ ∃ e ∈ (constraintsOf state symbol).take (perSymbolLimit state),
        ¬ ConstraintHolds state e.2 := by
  have hspec := @evaluateConstraints_spec state maxSteps depth 0 steps tension
    (constraintsOf state symbol) (Nat.zero_le _)
  rw [heval] at hspec
  exact hspec

theorem evaluateConstraints_passed
    (heval : evaluateConstraints state maxSteps depth 0 steps tension
      (constraintsOf state symbol) = .inr (tension', steps')) :
    steps' ≤ steps + walkCost state symbol
      ∧ (steps' < maxSteps → steps' = steps + walkCost state symbol
        ∧ ∀ e ∈ (constraintsOf state symbol).take (perSymbolLimit state),
          ConstraintHolds state e.2) := by
  have hspec := @evaluateConstraints_spec state maxSteps depth 0 steps tension
    (constraintsOf state symbol) (Nat.zero_le _)
  rw [heval] at hspec
  exact hspec

/-- Steps left over are no different from steps there never were. -/
theorem evaluateConstraints_more {more : Nat}
    (heval : evaluateConstraints state maxSteps depth perSymbol steps tension entries
      = .inr (tension', steps')) (hsteps : steps' < maxSteps) (hmore : maxSteps ≤ more) :
    evaluateConstraints state more depth perSymbol steps tension entries
      = .inr (tension', steps') := by
  induction entries generalizing perSymbol steps tension with
  | nil => exact heval
  | cons entry rest ih =>
      obtain ⟨key, value⟩ := entry
      rw [evaluateConstraints] at heval ⊢
      by_cases hlimit : state.consensusParams.maxConstraintsPerSymbol.toNat < perSymbol + 1
      · simpa only [hlimit, decide_true, Bool.true_or, if_true] using heval
      · by_cases hspent : maxSteps ≤ steps + 1
        · simp only [hlimit, hspent, decide_false, decide_true, Bool.false_or, if_true] at heval
          cases heval
          omega
        · have hmore' : ¬ more ≤ steps + 1 := by omega
          simp only [hlimit, hspent, decide_false, Bool.false_or, Bool.false_eq_true,
            if_false] at heval
          simp only [hlimit, hmore', decide_false, Bool.false_or, Bool.false_eq_true, if_false]
          rcases htext : String.fromUTF8? ⟨value.toArray⟩ with _ | expr
          · rw [htext] at heval
            cases heval
          · rw [htext] at heval
            by_cases hsat : (evaluate state 255 (parseConstraintExpression expr)).satisfied = true
            · simp only [hsat, if_true] at heval ⊢
              exact ih heval
            · simp only [hsat] at heval
              cases heval

end

/-! ## The loop -/

section

variable {state : ManagedWorldState} {maxDepth maxSteps : Nat}

/-- The turns of the walk, from a work list to its result. -/
inductive Walks (state : ManagedWorldState) (maxDepth maxSteps : Nat) :
    List (Bytes × Nat) → Std.ExtTreeSet Bytes → Nat → TensionValue → PropagationResult → Prop
  | done {visited steps tension} :
      Walks state maxDepth maxSteps [] visited steps tension ⟨true, tension, steps, ""⟩
  | exhausted {symbol depth worklist visited steps tension} : maxSteps ≤ steps →
      Walks state maxDepth maxSteps ((symbol, depth) :: worklist) visited steps tension
        (exhausted maxSteps steps tension)
  | seen {symbol depth worklist visited steps tension result} : steps < maxSteps →
      symbol ∈ visited → Walks state maxDepth maxSteps worklist visited steps tension result →
      Walks state maxDepth maxSteps ((symbol, depth) :: worklist) visited steps tension result
  | deep {symbol depth worklist visited steps tension result} : steps < maxSteps →
      symbol ∉ visited → maxDepth < depth →
      Walks state maxDepth maxSteps worklist (visited.insert symbol) steps tension result →
      Walks state maxDepth maxSteps ((symbol, depth) :: worklist) visited steps tension result
  | conflict {symbol depth worklist visited steps tension result} : steps < maxSteps →
      symbol ∉ visited → depth ≤ maxDepth →
      evaluateConstraints state maxSteps depth 0 steps tension
        (state.trie.prefixIter (constraintPrefixForSymbol symbol)) = .inl result →
      Walks state maxDepth maxSteps ((symbol, depth) :: worklist) visited steps tension result
  | spent {symbol depth worklist visited steps tension steps' tension'} : steps < maxSteps →
      symbol ∉ visited → depth ≤ maxDepth →
      evaluateConstraints state maxSteps depth 0 steps tension
        (state.trie.prefixIter (constraintPrefixForSymbol symbol)) = .inr (tension', steps') →
      maxSteps ≤ steps' →
      Walks state maxDepth maxSteps ((symbol, depth) :: worklist) visited steps tension
        (exhausted maxSteps steps' tension')
  | expand {symbol depth worklist visited steps tension steps' tension' result} :
      steps < maxSteps → symbol ∉ visited → depth ≤ maxDepth →
      evaluateConstraints state maxSteps depth 0 steps tension
        (state.trie.prefixIter (constraintPrefixForSymbol symbol)) = .inr (tension', steps') →
      steps' < maxSteps →
      Walks state maxDepth maxSteps
        (worklist ++ (childSymbols state symbol).map fun key => (key, depth + 1))
        (visited.insert symbol) steps' tension' result →
      Walks state maxDepth maxSteps ((symbol, depth) :: worklist) visited steps tension result

theorem parentPath_append {symbol rest : Bytes} (hrest : slash ∉ rest) :
    parentPath (symbol ++ [slash] ++ rest) = some symbol := by
  have hall : ∀ b ∈ rest.reverse, (decide (b ≠ slash)) = true := by
    intro b hb
    rw [decide_eq_true_eq]
    rintro rfl
    exact hrest (List.mem_reverse.mp hb)
  rw [parentPath, if_pos (by simp), List.reverse_append, List.dropWhile_append_of_pos hall]
  simp

/-- A child is an entry whose path up to the last separator is the symbol. -/
theorem parentPath_of_mem_childSymbols {symbol key : Bytes} (h : key ∈ childSymbols state symbol) :
    parentPath key = some symbol := by
  obtain ⟨hscan, hslash⟩ := List.mem_filter.mp h
  obtain ⟨⟨key, value⟩, hmem, rfl⟩ := List.mem_map.mp hscan
  obtain ⟨-, hstarts⟩ := StateTrie.mem_prefixIter.mp hmem
  obtain ⟨rest, rfl⟩ := List.isPrefixOf_iff_prefix.mp hstarts
  exact parentPath_append (by simpa using hslash)

theorem length_childSymbols_le (symbol : Bytes) :
    (childSymbols state symbol).length
      ≤ state.trie.store.keys.countP fun key => parentPath key = some symbol := by
  have hall : ∀ key ∈ childSymbols state symbol, decide (parentPath key = some symbol) = true :=
    fun key hkey => decide_eq_true (parentPath_of_mem_childSymbols hkey)
  have hsub : (childSymbols state symbol).Sublist state.trie.store.keys := by
    refine List.filter_sublist.trans ?_
    rw [StateTrie.prefixIter_eq_filter, ← Std.ExtTreeMap.map_fst_toList_eq_keys]
    exact List.filter_sublist.map _
  rw [← List.countP_eq_length.mpr hall]
  exact hsub.countP_le

/-- Turns enough for the list and for the keys whose parents have not been met. -/
theorem propagate_walks {fuel : Nat} {worklist : List (Bytes × Nat)}
    {visited : Std.ExtTreeSet Bytes} {met : List Bytes} {steps : Nat} {tension : TensionValue}
    (hvisited : ∀ s, s ∈ visited ↔ s ∈ met)
    (hfuel : worklist.length + unmet state.trie.store.keys parentPath met ≤ fuel) :
    Walks state maxDepth maxSteps worklist visited steps tension
      (propagate state maxDepth maxSteps fuel worklist visited steps tension) := by
  induction fuel generalizing worklist visited met steps tension with
  | zero =>
      obtain rfl : worklist = [] := List.eq_nil_of_length_eq_zero (by omega)
      exact .done
  | succ fuel ih =>
      rcases worklist with _ | ⟨⟨symbol, depth⟩, worklist⟩
      · exact .done
      rw [List.length_cons] at hfuel
      rw [propagate]
      by_cases hspent : maxSteps ≤ steps
      · rw [if_pos hspent]
        exact .exhausted hspent
      rw [if_neg hspent]
      have hsteps : steps < maxSteps := by omega
      by_cases hseen : symbol ∈ visited
      · rw [if_pos hseen]
        exact .seen hsteps hseen (ih hvisited (by omega))
      rw [if_neg hseen]
      have hnew : symbol ∉ met := fun h => hseen ((hvisited symbol).mpr h)
      have hvisited' : ∀ s, s ∈ visited.insert symbol ↔ s ∈ symbol :: met := by
        intro s
        rw [Std.ExtTreeSet.mem_insert, Std.compare_eq_iff_eq, List.mem_cons, hvisited s, eq_comm]
      have hunmet := @unmet_cons _ _ _ state.trie.store.keys parentPath symbol met hnew
      have hchildren := @length_childSymbols_le state symbol
      by_cases hdeep : maxDepth < depth
      · rw [if_pos hdeep]
        exact .deep hsteps hseen hdeep (ih hvisited' (by omega))
      rw [if_neg hdeep]
      have hdepth : depth ≤ maxDepth := by omega
      rcases heval : evaluateConstraints state maxSteps depth 0 steps tension
          (state.trie.prefixIter (constraintPrefixForSymbol symbol)) with result | ⟨tension', steps'⟩
      · exact .conflict hsteps hseen hdepth heval
      · by_cases hspent' : maxSteps ≤ steps'
        · simp only [if_pos hspent']
          exact .spent hsteps hseen hdepth heval hspent'
        · simp only [if_neg hspent']
          refine .expand hsteps hseen hdepth heval (by omega) (ih hvisited' ?_)
          rw [List.length_append, List.length_map]
          omega

/-- From any seeds, the loop ends. -/
theorem propagateConstraints_walks (activeSymbols : List Bytes) (state : ManagedWorldState)
    (maxDepth maxSteps : Nat) :
    Walks state maxDepth maxSteps (activeSymbols.map fun s => (s, 0)) ∅ 0 .zero
      (propagateConstraints activeSymbols state maxDepth maxSteps) := by
  have hkeys : unmet state.trie.store.keys parentPath [] ≤ state.trie.store.size := by
    rw [← Std.ExtTreeMap.length_keys]
    exact unmet_le_length
  have hempty : ∀ s, s ∈ (∅ : Std.ExtTreeSet Bytes) ↔ s ∈ ([] : List Bytes) := by simp
  refine propagate_walks hempty ?_
  rw [List.length_map]
  omega

/-! ## Budgets -/

theorem Walks.steps_le {worklist : List (Bytes × Nat)} {visited : Std.ExtTreeSet Bytes}
    {steps : Nat} {tension : TensionValue} {result : PropagationResult}
    (hwalk : Walks state maxDepth maxSteps worklist visited steps tension result)
    (hsteps : steps ≤ maxSteps) (hok : result.consistent = true) : result.steps ≤ maxSteps := by
  induction hwalk with
  | done => exact hsteps
  | exhausted => cases hok
  | seen _ _ _ ih => exact ih hsteps hok
  | deep _ _ _ _ ih => exact ih hsteps hok
  | conflict _ _ _ heval =>
      rw [(evaluateConstraints_conflict heval).1] at hok
      cases hok
  | spent => cases hok
  | expand _ _ _ _ hroom _ ih => exact ih hroom.le hok

/-- A walk that finds no conflict is the same walk with more steps allowed. -/
theorem propagate_more {more fuel : Nat} {worklist : List (Bytes × Nat)}
    {visited : Std.ExtTreeSet Bytes} {steps : Nat} {tension : TensionValue}
    (hmore : maxSteps ≤ more)
    (hok : (propagate state maxDepth maxSteps fuel worklist visited steps tension).consistent
      = true) :
    propagate state maxDepth more fuel worklist visited steps tension
      = propagate state maxDepth maxSteps fuel worklist visited steps tension := by
  induction fuel generalizing worklist visited steps tension with
  | zero => rfl
  | succ fuel ih =>
      rcases worklist with _ | ⟨⟨symbol, depth⟩, worklist⟩
      · rfl
      rw [propagate] at hok
      rw [propagate, propagate]
      by_cases hspent : maxSteps ≤ steps
      · rw [if_pos hspent] at hok
        cases hok
      rw [if_neg hspent] at hok ⊢
      rw [if_neg (by omega : ¬ more ≤ steps)]
      by_cases hseen : symbol ∈ visited
      · rw [if_pos hseen] at hok ⊢
        rw [if_pos hseen, ih hok]
      rw [if_neg hseen] at hok ⊢
      rw [if_neg hseen]
      by_cases hdeep : maxDepth < depth
      · rw [if_pos hdeep] at hok ⊢
        rw [if_pos hdeep, ih hok]
      rw [if_neg hdeep] at hok ⊢
      rw [if_neg hdeep]
      rcases heval : evaluateConstraints state maxSteps depth 0 steps tension
          (state.trie.prefixIter (constraintPrefixForSymbol symbol)) with result | ⟨tension', steps'⟩
      · rw [heval] at hok
        rw [(evaluateConstraints_conflict heval).1] at hok
        cases hok
      · rw [heval] at hok
        by_cases hspent' : maxSteps ≤ steps'
        · simp only [if_pos hspent'] at hok
          cases hok
        · simp only [if_neg hspent'] at hok ⊢
          rw [evaluateConstraints_more heval (by omega) hmore]
          simp only [if_neg (by omega : ¬ more ≤ steps')]
          exact ih hok

/-! ## What a walk finds out -/

section

variable {seeds : List Bytes} {worklist met : List (Bytes × Nat)} {visited : Std.ExtTreeSet Bytes}
  {steps : Nat} {tension : TensionValue} {result : PropagationResult}

/-- The symbols met within the depth limit have been looked at, and paid for. -/
structure Covered (state : ManagedWorldState) (seeds : List Bytes) (maxDepth : Nat)
    (met worklist : List (Bytes × Nat)) (visited : Std.ExtTreeSet Bytes) (steps : Nat) : Prop where
  searched : Searched (childSymbols state) seeds maxDepth met worklist
  visited_iff : ∀ symbol, symbol ∈ visited ↔ symbol ∈ met.map Prod.fst
  paid : ((expandedOf maxDepth met).map (walkCost state)).sum = steps
  held : ∀ symbol ∈ expandedOf maxDepth met,
    ∀ e ∈ (constraintsOf state symbol).take (perSymbolLimit state), ConstraintHolds state e.2

theorem Covered.mem_insert {symbol : Bytes} {depth : Nat}
    (hvisited : ∀ s, s ∈ visited ↔ s ∈ met.map Prod.fst) (s : Bytes) :
    s ∈ visited.insert symbol ↔ s ∈ ((symbol, depth) :: met).map Prod.fst := by
  rw [Std.ExtTreeSet.mem_insert, Std.compare_eq_iff_eq, List.map_cons, List.mem_cons, hvisited s,
    eq_comm]

theorem Covered.start (state : ManagedWorldState) (seeds : List Bytes) (maxDepth : Nat) :
    Covered state seeds maxDepth [] (seeds.map fun s => (s, 0)) ∅ 0 where
  searched := .start _ _ _
  visited_iff := by simp
  paid := rfl
  held symbol h := absurd h List.not_mem_nil

theorem Covered.skip {symbol : Bytes} {depth : Nat}
    (h : Covered state seeds maxDepth met ((symbol, depth) :: worklist) visited steps)
    (hseen : symbol ∈ visited) : Covered state seeds maxDepth met worklist visited steps where
  searched := h.searched.skip ((h.visited_iff symbol).mp hseen)
  visited_iff := h.visited_iff
  paid := h.paid
  held := h.held

theorem Covered.deep {symbol : Bytes} {depth : Nat}
    (h : Covered state seeds maxDepth met ((symbol, depth) :: worklist) visited steps)
    (hseen : symbol ∉ visited) (hdeep : maxDepth < depth) :
    Covered state seeds maxDepth ((symbol, depth) :: met) worklist (visited.insert symbol) steps where
  searched := by
    have hvisit := @Searched.visit _ _ _ _ _ _ _ _ h.searched
      (fun hmem => hseen ((h.visited_iff symbol).mpr hmem)) [] (by simp) (by omega)
    simpa using hvisit
  visited_iff := Covered.mem_insert h.visited_iff
  paid := by rw [expandedOf_cons_of_lt hdeep, h.paid]
  held := by
    rw [expandedOf_cons_of_lt hdeep]
    exact h.held

theorem Covered.expand {symbol : Bytes} {depth : Nat}
    (h : Covered state seeds maxDepth met ((symbol, depth) :: worklist) visited steps)
    (hseen : symbol ∉ visited) (hdepth : depth ≤ maxDepth)
    (hheld : ∀ e ∈ (constraintsOf state symbol).take (perSymbolLimit state),
      ConstraintHolds state e.2) :
    Covered state seeds maxDepth ((symbol, depth) :: met)
      (worklist ++ (childSymbols state symbol).map fun key => (key, depth + 1))
      (visited.insert symbol) (steps + walkCost state symbol) where
  searched := h.searched.visit (fun hmem => hseen ((h.visited_iff symbol).mpr hmem))
    (fun _ hw => hw) fun _ _ hw => hw
  visited_iff := Covered.mem_insert h.visited_iff
  paid := by rw [expandedOf_cons_of_le hdepth, List.map_cons, List.sum_cons, h.paid, Nat.add_comm]
  held := by
    rw [expandedOf_cons_of_le hdepth]
    exact List.forall_mem_cons.mpr ⟨hheld, h.held⟩

/-- The symbol on top is one the walk may come to. -/
theorem Covered.within {symbol : Bytes} {depth : Nat}
    (h : Covered state seeds maxDepth met ((symbol, depth) :: worklist) visited steps)
    (hdepth : depth ≤ maxDepth) : Within (childSymbols state) seeds maxDepth symbol :=
  ⟨depth, hdepth, h.searched.reached symbol depth (Or.inr List.mem_cons_self)⟩

/-- What is looked at costs less than the budget, however it is put together. -/
def Affords (state : ManagedWorldState) (seeds : List Bytes) (maxDepth budget : Nat) : Prop :=
  ∀ symbols : Finset Bytes, (∀ s ∈ symbols, Within (childSymbols state) seeds maxDepth s) →
    ∑ s ∈ symbols, walkCost state s < budget

/-- What has been paid for so far is a part of it. -/
theorem Affords.lt {budget : Nat} (haffords : Affords state seeds maxDepth budget)
    (h : Covered state seeds maxDepth met worklist visited steps) : steps < budget := by
  have hlt := haffords (expandedOf maxDepth met).toFinset fun s hs =>
    h.searched.within (List.mem_toFinset.mp hs)
  rwa [List.sum_toFinset _ h.searched.nodup_expandedOf, h.paid] at hlt

theorem Covered.affords (h : Covered state seeds maxDepth met [] visited steps)
    (hsteps : steps < maxSteps) : Affords state seeds maxDepth maxSteps := by
  intro symbols hsymbols
  have hsub : symbols ⊆ (expandedOf maxDepth met).toFinset := by
    intro s hs
    exact List.mem_toFinset.mpr (h.searched.within_iff.mpr (hsymbols s hs))
  refine (Finset.sum_le_sum_of_subset hsub).trans_lt ?_
  rwa [List.sum_toFinset _ h.searched.nodup_expandedOf, h.paid]

/-- The constraints the walk looks at hold. -/
def Unopposed (state : ManagedWorldState) (seeds : List Bytes) (maxDepth : Nat) : Prop :=
  ∀ symbol, Within (childSymbols state) seeds maxDepth symbol →
    ∀ e ∈ (constraintsOf state symbol).take (perSymbolLimit state), ConstraintHolds state e.2

/-- The walk finds no conflict if and only if there is none to be found and the steps suffice. -/
theorem Walks.consistent_iff
    (hwalk : Walks state maxDepth maxSteps worklist visited steps tension result)
    (h : Covered state seeds maxDepth met worklist visited steps)
    (hsteps : worklist = [] → steps < maxSteps) :
    result.consistent = true ↔ Unopposed state seeds maxDepth ∧ Affords state seeds maxDepth maxSteps := by
  induction hwalk generalizing met with
  | done =>
      refine iff_of_true rfl ⟨fun symbol hwithin => ?_, h.affords (hsteps rfl)⟩
      exact h.held symbol (h.searched.within_iff.mpr hwithin)
  | exhausted hspent =>
      refine iff_of_false (by simp [Sccgub.exhausted]) fun hpass => ?_
      have hlt := hpass.2.lt h
      omega
  | seen hlt hseen _ ih => exact ih (h.skip hseen) fun _ => hlt
  | deep hlt hseen hdeep _ ih => exact ih (h.deep hseen hdeep) fun _ => hlt
  | conflict _ hseen hdepth heval =>
      obtain ⟨hbad, e, he, hfails⟩ := evaluateConstraints_conflict heval
      refine iff_of_false (by simp [hbad]) fun hpass => hfails ?_
      exact hpass.1 _ (h.within hdepth) e he
  | spent _ hseen hdepth heval hspent =>
      refine iff_of_false (by simp [Sccgub.exhausted]) fun hpass => ?_
      have hle := (evaluateConstraints_passed heval).1
      have hlt := hpass.2.lt (h.expand hseen hdepth (hpass.1 _ (h.within hdepth)))
      omega
  | expand _ hseen hdepth heval hroom _ ih =>
      obtain ⟨heq, hheld⟩ := (evaluateConstraints_passed heval).2 hroom
      subst heq
      exact ih (h.expand hseen hdepth hheld) fun _ => hroom

end

end

/-! ## Validation -/

section

variable (transition : SymbolicTransition) (state : ManagedWorldState)
  (maxPropagationDepth : UInt32) (maxPropagationSteps : UInt64)

/-- The steps used before the walk. -/
def attentionSteps : Nat :=
  1 + selectRelevantSubgraph (activateSymbols transition.intent.target state) state

/-- A symbol the walk comes to: an activated one, or below one by as many path parts as the
depth limit allows. -/
def Walked (symbol : Bytes) : Prop :=
  Within (childSymbols state) (activateSymbols transition.intent.target state)
    maxPropagationDepth.toNat symbol

/-- What the code asks for: steps enough, constraints that hold up to the limit for each
symbol, a target, and a level of governance. -/
structure Passes : Prop where
  afforded : Affords state (activateSymbols transition.intent.target state)
    maxPropagationDepth.toNat (maxPropagationSteps.toNat - attentionSteps transition state)
  unopposed : Unopposed state (activateSymbols transition.intent.target state)
    maxPropagationDepth.toNat
  grounded : checkGrounding transition.intent.target state transition.intent.kind = true
  permitted : evaluateGovernanceValue transition = true

variable {transition state maxPropagationDepth maxPropagationSteps}

theorem activatePrefixes_ne_nil {max fuel : Nat} {symbols : List Bytes} {path : Bytes}
    (h : symbols ≠ []) : activatePrefixes state max fuel symbols path ≠ [] := by
  induction fuel generalizing symbols path with
  | zero => exact h
  | succ fuel ih =>
      rw [activatePrefixes]
      split
      · split
        · split
          · exact ih (by simp)
          · exact ih h
        · exact h
      · exact h

/-- What becomes of a transition once the walk is done. -/
def afterWalk (transition : SymbolicTransition) (state : ManagedWorldState)
    (propagation : PropagationResult) : ScceResult :=
  let target := transition.intent.target
  let stepsUsed := attentionSteps transition state + propagation.steps
  if !propagation.consistent then
    ⟨false, propagation.tensionDelta, stepsUsed,
      s!"Constraint conflict detected: {propagation.conflictDetail}"⟩
  else if !checkGrounding target state transition.intent.kind then
    ⟨false, propagation.tensionDelta, stepsUsed + 1,
      "Grounding check failed: target address not valid"⟩
  else if !evaluateGovernanceValue transition then
    ⟨false, propagation.tensionDelta, stepsUsed + 2,
      "Value evaluation failed: governance violation"⟩
  else
    let areaTension := state.tensionField.map[target]?.getD .zero
    let tensionDelta := if state.tensionField.currentBudget < areaTension then
      propagation.tensionDelta + TensionValue.fromInteger 1 else propagation.tensionDelta
    ⟨true, tensionDelta, stepsUsed + 2, "SCCE validation passed"⟩

theorem scceValidate_of_lt (h : maxPropagationSteps.toNat < attentionSteps transition state) :
    scceValidate transition state maxPropagationDepth maxPropagationSteps
      = ⟨false, .zero, attentionSteps transition state,
        "Exceeded max propagation steps at attention step"⟩ := by
  rw [scceValidate]
  exact if_pos h

theorem scceValidate_of_le (h : attentionSteps transition state ≤ maxPropagationSteps.toNat) :
    scceValidate transition state maxPropagationDepth maxPropagationSteps
      = afterWalk transition state (propagateConstraints
        (activateSymbols transition.intent.target state) state maxPropagationDepth.toNat
        (maxPropagationSteps.toNat - attentionSteps transition state)) := by
  rw [scceValidate]
  exact if_neg (not_lt.mpr h)

theorem afterWalk_valid_iff {propagation : PropagationResult} :
    (afterWalk transition state propagation).valid = true ↔ propagation.consistent = true
      ∧ checkGrounding transition.intent.target state transition.intent.kind = true
      ∧ evaluateGovernanceValue transition = true := by
  simp only [afterWalk]
  rcases propagation.consistent
  · simp
  · rcases checkGrounding transition.intent.target state transition.intent.kind
    · simp
    · rcases evaluateGovernanceValue transition <;> simp

theorem afterWalk_steps_le {propagation : PropagationResult} :
    (afterWalk transition state propagation).stepsUsed
      ≤ attentionSteps transition state + propagation.steps + 2 := by
  simp only [afterWalk]
  split_ifs <;> simp

/-- A transition is let through if and only if it passes. -/
theorem valid_iff_passes :
    (scceValidate transition state maxPropagationDepth maxPropagationSteps).valid = true
      ↔ Passes transition state maxPropagationDepth maxPropagationSteps := by
  by_cases hattention : maxPropagationSteps.toNat < attentionSteps transition state
  · rw [scceValidate_of_lt hattention]
    refine iff_of_false (by simp) fun hpasses => ?_
    have hlt := hpasses.afforded ∅ (by simp)
    rw [Nat.sub_eq_zero_of_le hattention.le] at hlt
    exact Nat.not_lt_zero _ hlt
  · rw [scceValidate_of_le (not_lt.mp hattention), afterWalk_valid_iff]
    have hseeds : activateSymbols transition.intent.target state ≠ [] :=
      activatePrefixes_ne_nil (by simp)
    have hconsistent := (propagateConstraints_walks
      (activateSymbols transition.intent.target state) state maxPropagationDepth.toNat
      (maxPropagationSteps.toNat - attentionSteps transition state)).consistent_iff
      (.start _ _ _) fun hnil => absurd (List.map_eq_nil_iff.mp hnil) hseeds
    rw [hconsistent]
    constructor
    · rintro ⟨⟨hunopposed, hafforded⟩, hgrounded, hpermitted⟩
      exact ⟨hafforded, hunopposed, hgrounded, hpermitted⟩
    · rintro ⟨hafforded, hunopposed, hgrounded, hpermitted⟩
      exact ⟨⟨hunopposed, hafforded⟩, hgrounded, hpermitted⟩

/-- With the same steps or more, a valid result stays as it is. -/
theorem scceValidate_more {more : UInt64} (hmore : maxPropagationSteps ≤ more)
    (hvalid : (scceValidate transition state maxPropagationDepth maxPropagationSteps).valid = true) :
    scceValidate transition state maxPropagationDepth more
      = scceValidate transition state maxPropagationDepth maxPropagationSteps := by
  have hle : maxPropagationSteps.toNat ≤ more.toNat := UInt64.le_iff_toNat_le.mp hmore
  by_cases hattention : maxPropagationSteps.toNat < attentionSteps transition state
  · rw [scceValidate_of_lt hattention] at hvalid
    cases hvalid
  · have hattention := not_lt.mp hattention
    rw [scceValidate_of_le hattention, afterWalk_valid_iff] at hvalid
    rw [scceValidate_of_le hattention, scceValidate_of_le (hattention.trans hle)]
    exact congrArg (afterWalk transition state) (propagate_more (by omega) hvalid.1)

end

section

variable (transition : SymbolicTransition) (state : ManagedWorldState)
  (maxPropagationDepth : UInt32) (maxPropagationSteps : UInt64)

/-- From any seeds the loop ends; the walk gets the steps that are left over, of which there
are some; and a result that is valid keeps to the steps and is the same with more of them. -/
theorem scceValidate_budget (seeds : List Bytes) :
    (∀ maxDepth maxSteps, Walks state maxDepth maxSteps (seeds.map fun s => (s, 0)) ∅ 0 .zero
      (propagateConstraints seeds state maxDepth maxSteps))
    ∧ (attentionSteps transition state ≤ maxPropagationSteps.toNat
      ∨ scceValidate transition state maxPropagationDepth maxPropagationSteps
        = ⟨false, .zero, attentionSteps transition state,
          "Exceeded max propagation steps at attention step"⟩)
    ∧ ((scceValidate transition state maxPropagationDepth maxPropagationSteps).valid = true →
      (scceValidate transition state maxPropagationDepth maxPropagationSteps).stepsUsed
          ≤ maxPropagationSteps.toNat + 2
        ∧ ∀ more, maxPropagationSteps ≤ more →
          scceValidate transition state maxPropagationDepth more
            = scceValidate transition state maxPropagationDepth maxPropagationSteps) := by
  refine ⟨propagateConstraints_walks seeds state, ?_, fun hvalid => ⟨?_, ?_⟩⟩
  · by_cases hattention : maxPropagationSteps.toNat < attentionSteps transition state
    · exact Or.inr (scceValidate_of_lt hattention)
    · exact Or.inl (not_lt.mp hattention)
  · by_cases hattention : maxPropagationSteps.toNat < attentionSteps transition state
    · rw [scceValidate_of_lt hattention] at hvalid
      cases hvalid
    · have hattention := not_lt.mp hattention
      rw [scceValidate_of_le hattention] at hvalid ⊢
      have hsteps := (propagateConstraints_walks
        (activateSymbols transition.intent.target state) state maxPropagationDepth.toNat
        (maxPropagationSteps.toNat - attentionSteps transition state)).steps_le (Nat.zero_le _)
        (afterWalk_valid_iff.mp hvalid).1
      have hused := @afterWalk_steps_le transition state (propagateConstraints
        (activateSymbols transition.intent.target state) state maxPropagationDepth.toNat
        (maxPropagationSteps.toNat - attentionSteps transition state))
      omega
  · intro more hmore
    exact scceValidate_more hmore hvalid

/-- A valid result means that the constraints of all activated symbols hold, and that neither
the limit for one symbol nor the steps ran out. -/
def ConstraintsKept : Prop :=
  (scceValidate transition state maxPropagationDepth maxPropagationSteps).valid = true →
    (∀ symbol ∈ activateSymbols transition.intent.target state, ∀ constraintId key value,
      constraintKey symbol constraintId = .ok key → state.get key = some value →
        ConstraintHolds state value)
    ∧ (∀ symbol, Walked transition state maxPropagationDepth symbol →
      (constraintsOf state symbol).length ≤ perSymbolLimit state)
    ∧ Affords state (activateSymbols transition.intent.target state) maxPropagationDepth.toNat
      (maxPropagationSteps.toNat - attentionSteps transition state)

/-- Exactly the transitions that pass with a symbol over its limit are let through unchecked. -/
theorem constraintsKept_iff :
    ConstraintsKept transition state maxPropagationDepth maxPropagationSteps
      ↔ (Passes transition state maxPropagationDepth maxPropagationSteps →
        ∀ symbol, Walked transition state maxPropagationDepth symbol →
          (constraintsOf state symbol).length ≤ perSymbolLimit state) := by
  rw [ConstraintsKept, valid_iff_passes]
  refine ⟨fun h hpasses => (h hpasses).2.1, fun h hpasses => ⟨?_, h hpasses, hpasses.afforded⟩⟩
  intro symbol hactive constraintId key value hkey hget
  have hwalked : Walked transition state maxPropagationDepth symbol :=
    ⟨0, Nat.zero_le _, .seed hactive⟩
  refine hpasses.unopposed symbol hwalked (key, value) ?_
  rw [List.take_of_length_le (h hpasses symbol hwalked)]
  exact mem_constraintsOf hkey hget

end

/-- As many constraints that hold as the limit has room for, and then one that never does. -/
def crowdedState : ManagedWorldState where
  trie := ((List.range 64).map fun i =>
      (utf8 "constraints/data/a" ++ [0, UInt8.ofNat i], utf8 "true")).foldl
    (fun trie entry => trie.insert entry.1 entry.2)
    (StateTrie.new.insert (utf8 "constraints/data/a" ++ [0, 64]) (utf8 "false"))

def crowdedWrite : SymbolicTransition :=
  plainTransition (plainActor (Hash.ofByte 3) (Hash.ofByte 4)) .stateWrite (utf8 "data/a")
    (.write (utf8 "data/a") (utf8 "2")) []

theorem crowdedWrite_valid :
    (scceValidate crowdedWrite crowdedState 32 10000).valid = true
      ∧ crowdedState.get (utf8 "constraints/data/a" ++ [0, 64]) = some (utf8 "false")
      ∧ (String.fromUTF8? ⟨(utf8 "false").toArray⟩).all (fun expr =>
        !(evaluate crowdedState 255 (parseConstraintExpression expr)).satisfied) = true := by
  decide +kernel

/-- The constraint past the limit does not count. -/
theorem crowdedWrite_unchecked : ¬ ConstraintsKept crowdedWrite crowdedState 32 10000 := by
  intro h
  obtain ⟨hvalid, hget, hfails⟩ := crowdedWrite_valid
  obtain ⟨expr, hexpr, hsat⟩ := (h hvalid).1 (utf8 "data/a") (by decide +kernel) [64] _ _ rfl hget
  rw [hexpr] at hfails
  simp [hsat] at hfails

end Sccgub
