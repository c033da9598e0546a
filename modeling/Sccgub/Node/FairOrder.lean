import Mathlib
import Sccgub.Execution.Authorization
import Sccgub.Node.Mempool
import Sccgub.Schedule
import Sccgub.State.Nonces

/-!
# Fair ordering

What is drained comes out in the order of nonce and id, whatever the order it
arrived in.  Which transitions are drained is another matter: the nonces are
followed in the order of arrival, so of two transitions for the same nonce the
first one gets it, and one that arrives before its turn is gone.

Agent by agent the drain takes what continues the nonces (`taken`).  It does not
depend on the order exactly when no agent has two transitions that could be next,
or one and its successor.
-/

namespace Sccgub

open Schedule

/-! ## The order -/

theorem fairOrder_iff {a b : SymbolicTransition} :
    Mempool.fairOrder a b = true
      ↔ a.nonce.toNat < b.nonce.toNat
        ∨ a.nonce.toNat = b.nonce.toNat ∧ (compare a.txId b.txId).isLE = true := by
  rw [Mempool.fairOrder, Ordering.isLE_then_iff_or, Nat.compare_eq_lt, Nat.compare_eq_eq]

instance fairOrder_total : Std.Total fun a b => Mempool.fairOrder a b = true where
  total a b := by
    rw [fairOrder_iff, fairOrder_iff]
    rcases Nat.lt_trichotomy a.nonce.toNat b.nonce.toNat with hlt | heq | hgt
    · exact Or.inl (Or.inl hlt)
    · rcases hcmp : (compare a.txId b.txId).isLE with _ | _
      · have hgt := Ordering.isLE_eq_false.mp hcmp
        refine Or.inr (Or.inr ⟨heq.symm, ?_⟩)
        rw [Std.OrientedOrd.eq_swap (a := b.txId), hgt]
        rfl
      · exact Or.inl (Or.inr ⟨heq, rfl⟩)
    · exact Or.inr (Or.inl hgt)

instance fairOrder_trans : IsTrans SymbolicTransition fun a b => Mempool.fairOrder a b = true where
  trans a b c hab hbc := by
    rw [fairOrder_iff] at hab hbc ⊢
    rcases hab with hab | ⟨hab, hidab⟩
    · rcases hbc with hbc | ⟨hbc, -⟩
      · exact Or.inl (hab.trans hbc)
      · exact Or.inl (hbc ▸ hab)
    · rcases hbc with hbc | ⟨hbc, hidbc⟩
      · exact Or.inl (hab ▸ hbc)
      · exact Or.inr ⟨hab.trans hbc, Std.TransOrd.isLE_trans hidab hidbc⟩

/-- Transitions with ids of their own have one place each. -/
theorem placed_fairOrder {l : List SymbolicTransition} (hids : (l.map (·.txId)).Nodup) :
    Placed (fun a b => Mempool.fairOrder a b = true) l := by
  intro a ha b hb hab hba
  rw [fairOrder_iff] at hab hba
  have heq : (compare a.txId b.txId).isLE = true ∧ (compare b.txId a.txId).isLE = true := by
    rcases hab with hab | ⟨hnonce, hab⟩
    · rcases hba with hba | ⟨hba, -⟩
      · omega
      · omega
    · rcases hba with hba | ⟨-, hba⟩
      · omega
      · exact ⟨hab, hba⟩
  rw [Std.OrientedOrd.eq_swap (a := b.txId)] at heq
  have hid : a.txId = b.txId :=
    Std.LawfulEqOrd.eq_of_compare (Ordering.eq_eq_of_isLE_of_isLE_swap heq.1 heq.2)
  exact List.inj_on_of_nodup_map hids ha hb hid

/-! ## One agent at a time -/

/-- The nonce that may follow, stuck at the largest. -/
def nextNonce (last : BitVec 128) : BitVec 128 :=
  if last.toNat + 1 = 2 ^ 128 then last else last + 1

theorem toNat_nextNonce (last : BitVec 128) :
    (nextNonce last).toNat = if last.toNat + 1 = 2 ^ 128 then last.toNat else last.toNat + 1 := by
  unfold nextNonce
  split_ifs with hmax
  · rfl
  · have hlt := last.isLt
    rw [BitVec.toNat_add]
    show (last.toNat + 1) % 2 ^ 128 = _
    exact Nat.mod_eq_of_lt (by omega)

/-- What an agent gets through of its transitions, in the order of arrival. -/
def taken (state : ManagedWorldState) : BitVec 128 → List SymbolicTransition →
    List SymbolicTransition
  | _, [] => []
  | last, tx :: rest =>
      if tx.nonce = nextNonce last ∧ (admitCheckStructural tx state).isOk = true then
        tx :: taken state tx.nonce rest
      else taken state last rest

namespace Mempool

/-- The last nonce of the batch, or of the state before it. -/
def Drain.last (acc : Drain) (state : ManagedWorldState) (agentId : AgentId) : BitVec 128 :=
  acc.localNonces[agentId]?.getD (state.lastNonce agentId)

/-- A transition either continues the nonces of its agent and passes, or changes
nothing that later ones look at. -/
theorem drainStep_spec (state : ManagedWorldState) (acc : Drain) (tx : SymbolicTransition) :
    if tx.nonce = nextNonce (acc.last state tx.actor.agentId)
        ∧ (admitCheckStructural tx state).isOk = true then
      (drainStep state acc tx).validated = acc.validated ++ [tx]
        ∧ (drainStep state acc tx).localNonces
          = acc.localNonces.insert tx.actor.agentId tx.nonce
    else (drainStep state acc tx).validated = acc.validated
      ∧ (drainStep state acc tx).localNonces = acc.localNonces := by
  have hexpected : acc.expected state tx.actor.agentId
      = nextNonce (acc.last state tx.actor.agentId) := rfl
  have hpos : nextNonce (acc.last state tx.actor.agentId) ≠ 0 := by
    intro hzero
    have hnat := toNat_nextNonce (acc.last state tx.actor.agentId)
    rw [hzero] at hnat
    have hzeroNat : (0 : BitVec 128).toNat = 0 := rfl
    split_ifs at hnat with hmax
    · omega
    · omega
  unfold drainStep
  dsimp only
  by_cases hnext : tx.nonce = nextNonce (acc.last state tx.actor.agentId)
  · have hgo : ¬ (tx.nonce = 0 ∨ tx.nonce
        ≠ Drain.expected { acc with toRemove := acc.toRemove ++ [tx.txId] } state
          tx.actor.agentId) := by
      rintro (hzero | hne)
      · exact hpos (hnext ▸ hzero)
      · exact hne hnext
    rw [if_neg hgo]
    rcases hcheck : admitCheckStructural tx state with e | ⟨⟩
    · rw [if_neg (by simp [Except.isOk, Except.toBool])]
      exact ⟨rfl, rfl⟩
    · rw [if_pos ⟨hnext, rfl⟩]
      exact ⟨rfl, rfl⟩
  · have hstop : tx.nonce = 0 ∨ tx.nonce
        ≠ Drain.expected { acc with toRemove := acc.toRemove ++ [tx.txId] } state
          tx.actor.agentId := Or.inr hnext
    rw [if_pos hstop, if_neg fun h => hnext h.1]
    exact ⟨rfl, rfl⟩

/-- Of each agent the loop lets through what continues its nonces. -/
theorem filter_validated_foldl (state : ManagedWorldState) (agentId : AgentId)
    (l : List SymbolicTransition) (acc : Drain) :
    (l.foldl (drainStep state) acc).validated.filter (·.actor.agentId = agentId)
      = acc.validated.filter (·.actor.agentId = agentId)
        ++ taken state (acc.last state agentId) (l.filter (·.actor.agentId = agentId)) := by
  induction l generalizing acc with
  | nil => simp [taken]
  | cons tx rest ih =>
      rw [List.foldl_cons, ih]
      have hspec := drainStep_spec state acc tx
      by_cases hagent : tx.actor.agentId = agentId
      · subst hagent
        rw [List.filter_cons_of_pos (by simp), taken]
        split_ifs at hspec ⊢ with hcond
        · have hlast : (drainStep state acc tx).last state tx.actor.agentId = tx.nonce := by
            rw [Drain.last, hspec.2, Std.ExtTreeMap.getElem?_insert_self, Option.getD_some]
          rw [hspec.1, hlast, List.filter_append, List.filter_cons_of_pos (by simp),
            List.filter_nil, List.append_assoc, List.singleton_append]
        · rw [Drain.last, hspec.1, hspec.2, Drain.last]
      · rw [List.filter_cons_of_neg (by simpa using hagent)]
        have hother : (drainStep state acc tx).last state agentId = acc.last state agentId := by
          unfold Drain.last
          split_ifs at hspec with hcond
          · rw [hspec.2, Std.ExtTreeMap.getElem?_insert, if_neg (by simpa using hagent)]
          · rw [hspec.2]
        rw [hother]
        split_ifs at hspec with hcond
        · rw [hspec.1, List.filter_append, List.filter_cons_of_neg (by simpa using hagent),
            List.filter_nil, List.append_nil]
        · rw [hspec.1]

/-- What is drained, before it is sorted. -/
def arrivals (mempool : Mempool) (state : ManagedWorldState) : List SymbolicTransition :=
  (mempool.pending.foldl (drainStep state) { containment := mempool.containment }).validated

theorem filter_arrivals (mempool : Mempool) (state : ManagedWorldState) (agentId : AgentId) :
    (mempool.arrivals state).filter (·.actor.agentId = agentId)
      = taken state (state.lastNonce agentId)
        (mempool.pending.filter (·.actor.agentId = agentId)) := by
  have hlast : Drain.last { containment := mempool.containment } state agentId
      = state.lastNonce agentId := by
    rw [Drain.last, Std.ExtTreeMap.getElem?_empty]
    rfl
  rw [arrivals, filter_validated_foldl, hlast]
  rfl

end Mempool

/-! ## When the order of arrival does not matter -/

/-- The nonce fits and the checks that do not look at nonces pass. -/
def Fits (state : ManagedWorldState) (nonce : Nat) (tx : SymbolicTransition) : Bool :=
  decide (tx.nonce.toNat = nonce) && (admitCheckStructural tx state).isOk

/-- The transitions of an agent that fit. -/
def fitting (state : ManagedWorldState) (pending : List SymbolicTransition) (agentId : AgentId)
    (nonce : Nat) : List SymbolicTransition :=
  (pending.filter (·.actor.agentId = agentId)).filter (Fits state nonce)

/-- No agent has two transitions that could be next, or one and its successor;
near the end of the range there is only one nonce left. -/
def OrderFree (state : ManagedWorldState) (pending : List SymbolicTransition) : Prop :=
  ∀ agentId, (state.lastNonce agentId).toNat + 2 < 2 ^ 128 →
    (fitting state pending agentId ((state.lastNonce agentId).toNat + 1)).length ≤ 1
      ∧ (fitting state pending agentId ((state.lastNonce agentId).toNat + 1) ≠ [] →
        fitting state pending agentId ((state.lastNonce agentId).toNat + 2) = [])

section

variable {state : ManagedWorldState} {last : BitVec 128} {l : List SymbolicTransition}

theorem fits_iff {nonce : Nat} {tx : SymbolicTransition} :
    Fits state nonce tx = true
      ↔ tx.nonce.toNat = nonce ∧ (admitCheckStructural tx state).isOk = true := by
  rw [Fits, Bool.and_eq_true, decide_eq_true_eq]

theorem taken_cons (tx : SymbolicTransition) (rest : List SymbolicTransition) :
    taken state last (tx :: rest) = if Fits state (nextNonce last).toNat tx = true then
      tx :: taken state tx.nonce rest else taken state last rest := by
  rw [taken]
  refine if_congr ?_ rfl rfl
  rw [fits_iff, BitVec.toNat_inj]

/-- Nothing comes next, nothing is taken. -/
theorem taken_eq_nil (h : l.filter (Fits state (nextNonce last).toNat) = []) :
    taken state last l = [] := by
  induction l with
  | nil => rfl
  | cons tx rest ih =>
      rw [List.filter_eq_nil_iff] at h
      rw [taken_cons, if_neg (h tx List.mem_cons_self)]
      exact ih (List.filter_eq_nil_iff.mpr fun other hother =>
        h other (List.mem_cons_of_mem _ hother))

/-- At the end of the range the same nonce comes next again. -/
theorem taken_of_stuck {nonce : BitVec 128} (hnext : nextNonce last = nonce)
    (hstuck : nextNonce nonce = nonce) :
    taken state last l = l.filter (Fits state nonce.toNat) := by
  induction l generalizing last with
  | nil => rfl
  | cons tx rest ih =>
      rw [taken_cons, hnext]
      by_cases hfits : Fits state nonce.toNat tx = true
      · have hsame : tx.nonce = nonce := BitVec.toNat_inj.mp (fits_iff.mp hfits).1
        rw [if_pos hfits, List.filter_cons_of_pos hfits, ih (hsame ▸ hstuck)]
      · rw [if_neg hfits, List.filter_cons_of_neg hfits, ih hnext]

/-- One transition that comes next, and none after it. -/
theorem taken_of_single (hone : (l.filter (Fits state (nextNonce last).toNat)).length ≤ 1)
    (hnone : l.filter (Fits state (nextNonce last).toNat) ≠ [] →
      l.filter (Fits state (nextNonce (nextNonce last)).toNat) = []) :
    taken state last l = l.filter (Fits state (nextNonce last).toNat) := by
  induction l with
  | nil => rfl
  | cons tx rest ih =>
      rw [taken_cons]
      by_cases hfits : Fits state (nextNonce last).toNat tx = true
      · rw [List.filter_cons_of_pos hfits] at hone hnone ⊢
        have hrest : rest.filter (Fits state (nextNonce last).toNat) = [] := by
          rw [List.length_cons] at hone
          exact List.eq_nil_of_length_eq_zero (by omega)
        have hafter := hnone (List.cons_ne_nil _ _)
        have hsame : tx.nonce = nextNonce last := BitVec.toNat_inj.mp (fits_iff.mp hfits).1
        rw [if_pos hfits, hrest, hsame, taken_eq_nil]
        rw [List.filter_eq_nil_iff] at hafter ⊢
        exact fun other hother => hafter other (List.mem_cons_of_mem _ hother)
      · rw [List.filter_cons_of_neg hfits] at hone hnone ⊢
        rw [if_neg hfits]
        refine ih hone fun hne => ?_
        have hafter := hnone hne
        rw [List.filter_eq_nil_iff] at hafter ⊢
        exact fun other hother => hafter other (List.mem_cons_of_mem _ hother)

theorem taken_subset : taken state last l ⊆ l := by
  induction l generalizing last with
  | nil => exact fun _ h => h
  | cons tx rest ih =>
      rw [taken_cons]
      split_ifs
      · exact List.cons_subset_cons _ ih
      · exact List.subset_cons_of_subset _ ih

theorem le_nextNonce (last : BitVec 128) : last.toNat ≤ (nextNonce last).toNat := by
  rw [toNat_nextNonce]
  split_ifs
  · exact le_rfl
  · exact Nat.le_succ _

/-- The nonces that are taken do not go back. -/
theorem le_of_mem_taken {tx : SymbolicTransition} (h : tx ∈ taken state last l) :
    (nextNonce last).toNat ≤ tx.nonce.toNat := by
  induction l generalizing last with
  | nil => cases h
  | cons other rest ih =>
      rw [taken_cons] at h
      split_ifs at h with hfits
      · have hnonce := (fits_iff.mp hfits).1
        rcases List.mem_cons.mp h with rfl | h
        · exact hnonce.ge
        · rw [← hnonce]
          exact (le_nextNonce _).trans (ih h)
      · exact ih h

end

/-- What the condition comes to for one agent: its transitions that fit the next
nonce, wherever they stand. -/
theorem OrderFree.taken_eq {state : ManagedWorldState} {pending : List SymbolicTransition}
    (h : OrderFree state pending) (agentId : AgentId) {l : List SymbolicTransition}
    (hperm : l.Perm (pending.filter (·.actor.agentId = agentId))) :
    taken state (state.lastNonce agentId) l
      = l.filter (Fits state (nextNonce (state.lastNonce agentId)).toNat) := by
  have hlt := (state.lastNonce agentId).isLt
  by_cases hrange : (state.lastNonce agentId).toNat + 2 < 2 ^ 128
  · obtain ⟨hone, hnone⟩ := h agentId hrange
    have hnext : (nextNonce (state.lastNonce agentId)).toNat
        = (state.lastNonce agentId).toNat + 1 := by
      rw [toNat_nextNonce, if_neg (by omega)]
    have hafter : (nextNonce (nextNonce (state.lastNonce agentId))).toNat
        = (state.lastNonce agentId).toNat + 2 := by
      rw [toNat_nextNonce, hnext, if_neg (by omega)]
    refine taken_of_single ?_ fun hne => ?_
    · rw [hnext, (hperm.filter _).length_eq]
      exact hone
    · rw [hnext] at hne
      rw [hafter]
      have hsame := hperm.filter (Fits state ((state.lastNonce agentId).toNat + 2))
      rw [show (pending.filter _).filter _ = [] from hnone fun hnil =>
        hne (((hperm.filter _).trans (List.Perm.of_eq hnil)).eq_nil)] at hsame
      exact hsame.eq_nil
  · refine taken_of_stuck rfl (BitVec.toNat_inj.mp ?_)
    rw [toNat_nextNonce (nextNonce _), toNat_nextNonce]
    split_ifs <;> omega

namespace Mempool

theorem drainValidated_fst (mempool : Mempool) (state : ManagedWorldState) :
    (mempool.drainValidated state).1
      = (mempool.arrivals state).insertionSort fun a b => fairOrder a b = true := rfl

theorem mem_drainValidated {mempool : Mempool} {state : ManagedWorldState}
    {tx : SymbolicTransition} :
    tx ∈ (mempool.drainValidated state).1 ↔ tx ∈ taken state (state.lastNonce tx.actor.agentId)
      (mempool.pending.filter (·.actor.agentId = tx.actor.agentId)) := by
  rw [drainValidated_fst, List.mem_insertionSort, ← filter_arrivals, List.mem_filter]
  simp

theorem drainValidated_subset (mempool : Mempool) (state : ManagedWorldState) :
    (mempool.drainValidated state).1 ⊆ mempool.pending := by
  intro tx htx
  exact List.mem_of_mem_filter (taken_subset (mem_drainValidated.mp htx))

/-- Two lists with the same transitions of every agent have the same transitions. -/
theorem perm_of_filter_agent {l l' : List SymbolicTransition}
    (h : ∀ agentId : AgentId, (l.filter (·.actor.agentId = agentId)).Perm
      (l'.filter (·.actor.agentId = agentId))) : l.Perm l' := by
  refine List.perm_iff_count.mpr fun tx => ?_
  have hcount := (h tx.actor.agentId).count_eq tx
  rwa [List.count_filter (by simp), List.count_filter (by simp)] at hcount

theorem arrivals_perm {mempool other : Mempool} {state : ManagedWorldState}
    (hfree : OrderFree state mempool.pending) (hperm : other.pending.Perm mempool.pending) :
    (other.arrivals state).Perm (mempool.arrivals state) := by
  refine perm_of_filter_agent fun agentId => ?_
  have hagent := hperm.filter fun tx => decide (tx.actor.agentId = agentId)
  rw [filter_arrivals, filter_arrivals, hfree.taken_eq agentId hagent,
    hfree.taken_eq agentId (List.Perm.refl _)]
  exact hagent.filter _

/-! ## When it does -/

theorem mem_fitting {state : ManagedWorldState} {pending : List SymbolicTransition}
    {agentId : AgentId} {nonce : Nat} {tx : SymbolicTransition} :
    tx ∈ fitting state pending agentId nonce
      ↔ tx ∈ pending ∧ tx.actor.agentId = agentId ∧ Fits state nonce tx = true := by
  rw [fitting, List.mem_filter, List.mem_filter, decide_eq_true_eq, and_assoc]

section

variable {mempool : Mempool} {state : ManagedWorldState} {first tx : SymbolicTransition}
  {rest : List SymbolicTransition}

/-- A transition that fits and comes first is drained. -/
theorem mem_drainValidated_first
    (hfits : Fits state (nextNonce (state.lastNonce tx.actor.agentId)).toNat tx = true) :
    tx ∈ ({ mempool with pending := tx :: rest }.drainValidated state).1 := by
  rw [mem_drainValidated, List.filter_cons_of_pos (by simp), taken_cons, if_pos hfits]
  exact List.mem_cons_self

/-- So is the one that comes after it and fits then. -/
theorem mem_drainValidated_second (hagent : first.actor.agentId = tx.actor.agentId)
    (hfirst : Fits state (nextNonce (state.lastNonce tx.actor.agentId)).toNat first = true)
    (hfits : Fits state (nextNonce first.nonce).toNat tx = true) :
    tx ∈ ({ mempool with pending := first :: tx :: rest }.drainValidated state).1 := by
  rw [mem_drainValidated, List.filter_cons_of_pos (by simpa using hagent),
    List.filter_cons_of_pos (by simp), taken_cons, if_pos hfirst, taken_cons, if_pos hfits]
  exact List.mem_cons_of_mem _ List.mem_cons_self

/-- The first of an agent that fits takes the nonce from every other. -/
theorem not_mem_drainValidated_second (hagent : first.actor.agentId = tx.actor.agentId)
    (hfirst : Fits state (nextNonce (state.lastNonce tx.actor.agentId)).toNat first = true)
    (hne : tx ≠ first) (hbehind : tx.nonce.toNat < (nextNonce first.nonce).toNat) :
    tx ∉ ({ mempool with pending := first :: rest }.drainValidated state).1 := by
  rw [mem_drainValidated, List.filter_cons_of_pos (by simpa using hagent), taken_cons,
    if_pos hfirst]
  intro hmem
  rcases List.mem_cons.mp hmem with heq | hlater
  · exact hne heq
  · exact Nat.not_lt.mpr (le_of_mem_taken hlater) hbehind

/-- One that comes first and does not fit yet is gone. -/
theorem not_mem_drainValidated_first
    (hfits : ¬ Fits state (nextNonce (state.lastNonce tx.actor.agentId)).toNat tx = true)
    (hrest : tx ∉ rest) : tx ∉ ({ mempool with pending := tx :: rest }.drainValidated state).1 := by
  rw [mem_drainValidated, List.filter_cons_of_pos (by simp), taken_cons, if_neg hfits]
  exact fun hmem => hrest (List.mem_of_mem_filter (taken_subset hmem))

end

/-- What is drained does not depend on the order of arrival exactly under that
condition. -/
theorem drainValidated_orderFree_iff {mempool : Mempool}
    (hids : (mempool.pending.map (·.txId)).Nodup) (state : ManagedWorldState) :
    (∀ other : Mempool, other.containment = mempool.containment →
        other.pending.Perm mempool.pending →
        (other.drainValidated state).1 = (mempool.drainValidated state).1)
      ↔ OrderFree state mempool.pending := by
  have hnodup : mempool.pending.Nodup := hids.of_map _
  constructor
  · intro hsame agentId hrange
    have hnext : (nextNonce (state.lastNonce agentId)).toNat
        = (state.lastNonce agentId).toNat + 1 := by
      rw [toNat_nextNonce, if_neg (by omega)]
    have hdrained : ∀ l : List SymbolicTransition, l.Perm mempool.pending →
        ({ mempool with pending := l }.drainValidated state).1
          = (mempool.drainValidated state).1 := fun l hl => hsame _ rfl hl
    have hfrom : ∀ {tx}, tx ∈ mempool.pending →
        (tx :: mempool.pending.erase tx).Perm mempool.pending :=
      fun htx => (List.perm_cons_erase htx).symm
    refine ⟨?_, fun hsome => ?_⟩
    · -- two for the next nonce: whichever comes first
      rcases hfitting : fitting state mempool.pending agentId
        ((state.lastNonce agentId).toNat + 1) with _ | ⟨first, _ | ⟨tx, others⟩⟩
      · exact Nat.zero_le 1
      · exact le_rfl
      · exfalso
        have hboth : (first :: tx :: others).Nodup :=
          hfitting ▸ (hnodup.filter _).filter _
        have hne : tx ≠ first := fun heq =>
          (List.nodup_cons.mp hboth).1 (heq ▸ List.mem_cons_self)
        obtain ⟨hfirst, rfl, hfitsFirst⟩ := mem_fitting.mp (hfitting ▸ List.mem_cons_self)
        obtain ⟨htx, hagent, hfits⟩ :=
          mem_fitting.mp (hfitting ▸ List.mem_cons_of_mem _ List.mem_cons_self)
        rw [← hnext, ← hagent] at hfits hfitsFirst
        have hnonce := (fits_iff.mp hfits).1
        have hnonceFirst := (fits_iff.mp hfitsFirst).1
        rw [hagent, hnext] at hnonce hnonceFirst
        refine @not_mem_drainValidated_second mempool state first tx
          (mempool.pending.erase first) hagent.symm hfitsFirst hne ?_ ?_
        · rw [toNat_nextNonce, if_neg (by omega)]
          omega
        · rw [hdrained _ (hfrom hfirst), ← hdrained _ (hfrom htx)]
          exact mem_drainValidated_first hfits
    · -- one for the next nonce and its successor: in turn, or not
      obtain ⟨first, hfitting⟩ := List.exists_mem_of_ne_nil _ hsome
      obtain ⟨hfirst, rfl, hfitsFirst⟩ := mem_fitting.mp hfitting
      refine List.eq_nil_iff_forall_not_mem.mpr fun tx htx => ?_
      obtain ⟨htx, hagent, hfits⟩ := mem_fitting.mp htx
      rw [← hnext, ← hagent] at hfitsFirst
      have hnonce := (fits_iff.mp hfits).1
      have hnonceFirst := (fits_iff.mp hfitsFirst).1
      rw [hagent, hnext] at hnonceFirst
      have hafter : (nextNonce first.nonce).toNat
          = (state.lastNonce first.actor.agentId).toNat + 2 := by
        rw [toNat_nextNonce, if_neg (by omega), hnonceFirst]
      have hne : tx ≠ first := by
        rintro rfl
        omega
      refine @not_mem_drainValidated_first mempool state tx (mempool.pending.erase tx) ?_
        (fun h => absurd h (hnodup.not_mem_erase)) ?_
      · rw [hagent, hnext, fits_iff]
        exact fun h => absurd (hnonce.symm.trans h.1) (by omega)
      · rw [hdrained _ (hfrom htx), ← hdrained
          (first :: tx :: (mempool.pending.erase first).erase tx) ?_]
        · exact mem_drainValidated_second hagent.symm hfitsFirst (hafter ▸ hfits)
        · have herased : tx ∈ mempool.pending.erase first :=
            (List.mem_erase_of_ne hne).mpr htx
          exact ((List.perm_cons_erase herased).symm.cons first).trans (hfrom hfirst)
  · intro hfree other _ hperm
    have hotherIds : (other.pending.map (·.txId)).Nodup := (hperm.map _).nodup_iff.mpr hids
    rw [drainValidated_fst, drainValidated_fst]
    refine Schedule.insertionSort_perm ((placed_fairOrder hotherIds).subset fun tx htx => ?_)
      (arrivals_perm hfree hperm)
    exact other.drainValidated_subset state ((List.mem_insertionSort _).mpr htx)

end Mempool

/-! ## Ahead of its turn -/

/-- The first two transitions of one account. -/
def inTurn : List SymbolicTransition :=
  let tx := plainTransition (plainActor (Hash.ofByte 7) (Hash.ofByte 1)) .stateWrite (utf8 "note")
    .noop (List.replicate 64 0)
  [tx, { tx with txId := Hash.ofByte 10, nonce := 2 }]

def arrived (pending : List SymbolicTransition) : Mempool := { pending, maxSize := 10 }

/-- The second one arrives first and is dropped. -/
theorem drained_out_of_turn :
    ¬ ∀ (mempool other : Mempool) (state : ManagedWorldState),
      (mempool.pending.map (·.txId)).Nodup → other.containment = mempool.containment →
        other.pending.Perm mempool.pending →
        (other.drainValidated state).1 = (mempool.drainValidated state).1 := by
  intro h
  have hsame := h (arrived inTurn) (arrived inTurn.reverse) {} (by decide +kernel) rfl
    (List.reverse_perm _)
  have hlength := congrArg List.length hsame
  revert hlength
  decide +kernel

theorem inTurn_not_orderFree : ¬ OrderFree {} inTurn := by
  intro hfree
  have hsame := (Mempool.drainValidated_orderFree_iff
    (show ((arrived inTurn).pending.map (·.txId)).Nodup by decide +kernel) {}).mpr hfree
    (arrived inTurn.reverse) rfl (List.reverse_perm _)
  have hlength := congrArg List.length hsame
  revert hlength
  decide +kernel

end Sccgub
