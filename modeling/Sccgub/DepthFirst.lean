import Mathlib

/-!
# Depth-first search

The search with an explicit stack.  Every vertex on the stack comes with the
number of its neighbours that have been handled; a vertex whose neighbours have
all been handled is closed.  `Searched` is what the search keeps: the stack is a
path, top last, and no way leads out of the closed vertices or around in them.

A turn of the search handles one neighbour or closes one vertex, so the
neighbours and vertices left bound the number of turns.
-/

namespace DepthFirst

open Relation

variable {α : Type} {next : α → List α}

def Edge (next : α → List α) (a b : α) : Prop := b ∈ next a

section

variable {closed : Finset α} {above : Option α} {v w : α} {i : Nat} {stack : List (α × Nat)}

/-- From the top: no vertex is closed or stands on the stack twice, and what has
been handled is closed or stands just above. -/
def Stacked (next : α → List α) (closed : Finset α) : Option α → List (α × Nat) → Prop
  | _, [] => True
  | above, (v, i) :: stack =>
      v ∉ closed ∧ v ∉ stack.map Prod.fst ∧ i ≤ (next v).length
        ∧ (∀ w ∈ (next v).take i, w ∈ closed ∨ above = some w)
        ∧ (∀ w, above = some w → w ∈ next v) ∧ Stacked next closed (some v) stack

/-- Every vertex of the stack leads to the one above it. -/
theorem Stacked.path (h : Stacked next closed (some w) stack) (hv : v ∈ stack.map Prod.fst) :
    TransGen (Edge next) v w := by
  induction stack generalizing w with
  | nil => cases hv
  | cons top stack ih =>
      obtain ⟨u, i⟩ := top
      obtain ⟨-, -, -, -, habove, hrest⟩ := h
      have huw : Edge next u w := habove w rfl
      rcases List.mem_cons.mp hv with rfl | hv
      · exact .single huw
      · exact (ih hrest hv).tail huw

theorem Stacked.nodup (h : Stacked next closed above stack) : (stack.map Prod.fst).Nodup := by
  induction stack generalizing above with
  | nil => exact List.nodup_nil
  | cons top stack ih =>
      obtain ⟨-, hnew, -, -, -, hrest⟩ := h
      exact List.nodup_cons.mpr ⟨hnew, ih hrest⟩

theorem Stacked.open_of_mem (h : Stacked next closed above stack) (hv : v ∈ stack.map Prod.fst) :
    v ∉ closed := by
  induction stack generalizing above with
  | nil => cases hv
  | cons top stack ih =>
      obtain ⟨hopen, -, -, -, -, hrest⟩ := h
      rcases List.mem_cons.mp hv with rfl | hv
      · exact hopen
      · exact ih hrest hv

theorem Stacked.handled_le (h : Stacked next closed above stack) {top : α × Nat}
    (htop : top ∈ stack) : top.2 ≤ (next top.1).length := by
  induction stack generalizing above with
  | nil => cases htop
  | cons first stack ih =>
      obtain ⟨-, -, hle, -, -, hrest⟩ := h
      rcases List.mem_cons.mp htop with rfl | htop
      · exact hle
      · exact ih hrest htop

/-- A vertex that is not on the stack may be closed. -/
theorem Stacked.insert [DecidableEq α] {above' : Option α} (h : Stacked next closed above stack)
    (hv : v ∉ stack.map Prod.fst) (habove : ∀ w, above = some w → w = v ∨ above' = some w)
    (habove' : ∀ w, above' = some w → above = some w) :
    Stacked next (insert v closed) above' stack := by
  induction stack generalizing above above' with
  | nil => trivial
  | cons top stack ih =>
      obtain ⟨u, i⟩ := top
      obtain ⟨hopen, hnew, hle, hhandled, hnext, hrest⟩ := h
      obtain ⟨huv, hv⟩ : v ≠ u ∧ v ∉ stack.map Prod.fst := by simpa using hv
      refine ⟨by simp [hopen, huv.symm], hnew, hle, ?_, fun w hw => hnext w (habove' w hw),
        ih hrest hv (fun w hw => Or.inr hw) fun w hw => hw⟩
      intro w hw
      rcases hhandled w hw with hclosed | hlast
      · exact Or.inl (Finset.mem_insert_of_mem hclosed)
      · rcases habove w hlast with rfl | hlast
        · exact Or.inl (Finset.mem_insert_self _ _)
        · exact Or.inr hlast

end

/-! ## What the search keeps -/

structure Searched (next : α → List α) (closed : Finset α) (stack : List (α × Nat)) : Prop where
  stacked : Stacked next closed none stack
  closed_next : ∀ v ∈ closed, ∀ w ∈ next v, w ∈ closed
  acyclic : ∀ v ∈ closed, ¬ TransGen (Edge next) v v

namespace Searched

variable {closed : Finset α} {v w : α} {i : Nat} {stack : List (α × Nat)}

theorem empty : Searched next ∅ [] where
  stacked := trivial
  closed_next v hv := absurd hv (Finset.notMem_empty v)
  acyclic v hv := absurd hv (Finset.notMem_empty v)

/-- No way leads out of the closed vertices. -/
theorem closed_of_reachable (h : Searched next closed stack) (hv : v ∈ closed)
    (hreach : ReflTransGen (Edge next) v w) : w ∈ closed := by
  induction hreach with
  | refl => exact hv
  | tail _ hedge ih => exact h.closed_next _ ih _ hedge

theorem start (h : Searched next closed []) (hv : v ∉ closed) : Searched next closed [(v, 0)] where
  stacked := ⟨hv, List.not_mem_nil, Nat.zero_le _, by simp, by simp, trivial⟩
  closed_next := h.closed_next
  acyclic := h.acyclic

/-- The neighbour is closed. -/
theorem advance (h : Searched next closed ((v, i) :: stack)) (hw : (next v)[i]? = some w)
    (hclosed : w ∈ closed) : Searched next closed ((v, i + 1) :: stack) where
  stacked := by
    obtain ⟨hopen, hnew, -, hhandled, -, hrest⟩ := h.stacked
    have hlt : i < (next v).length := (List.getElem?_eq_some_iff.mp hw).1
    refine ⟨hopen, hnew, hlt, fun u hu => ?_, by simp, hrest⟩
    rw [List.take_add_one, hw] at hu
    rcases List.mem_append.mp hu with hu | hu
    · exact hhandled u hu
    · rw [List.mem_singleton.mp hu]
      exact Or.inl hclosed
  closed_next := h.closed_next
  acyclic := h.acyclic

/-- The neighbour has not been met. -/
theorem push (h : Searched next closed ((v, i) :: stack)) (hw : (next v)[i]? = some w)
    (hopen : w ∉ closed) (hnew : w ∉ ((v, i) :: stack).map Prod.fst) :
    Searched next closed ((w, 0) :: (v, i + 1) :: stack) where
  stacked := by
    obtain ⟨hv, hvnew, -, hhandled, -, hrest⟩ := h.stacked
    have hlt : i < (next v).length := (List.getElem?_eq_some_iff.mp hw).1
    refine ⟨hopen, hnew, Nat.zero_le _, by simp, by simp, hv, hvnew, hlt, fun u hu => ?_, ?_, hrest⟩
    · rw [List.take_add_one, hw] at hu
      rcases List.mem_append.mp hu with hu | hu
      · rcases hhandled u hu with hclosed | hnone
        · exact Or.inl hclosed
        · cases hnone
      · rw [List.mem_singleton.mp hu]
        exact Or.inr rfl
    · intro u hu
      rw [← Option.some_inj.mp hu]
      exact List.mem_of_getElem? hw
  closed_next := h.closed_next
  acyclic := h.acyclic

/-- The neighbour is on the stack. -/
theorem cycle (h : Searched next closed ((v, i) :: stack)) (hw : (next v)[i]? = some w)
    (hmem : w ∈ ((v, i) :: stack).map Prod.fst) : TransGen (Edge next) w w := by
  obtain ⟨-, -, -, -, -, hrest⟩ := h.stacked
  have hedge : Edge next v w := List.mem_of_getElem? hw
  rcases List.mem_cons.mp hmem with rfl | hmem
  · exact .single hedge
  · exact (hrest.path hmem).tail hedge

/-- All neighbours have been handled. -/
theorem close [DecidableEq α] (h : Searched next closed ((v, i) :: stack))
    (hend : (next v)[i]? = none) : Searched next (insert v closed) stack := by
  obtain ⟨hopen, hnew, -, hhandled, -, hrest⟩ := h.stacked
  have hnext : ∀ w ∈ next v, w ∈ closed := by
    intro w hw
    rw [← List.take_of_length_le (List.getElem?_eq_none_iff.mp hend)] at hw
    rcases hhandled w hw with hclosed | hnone
    · exact hclosed
    · cases hnone
  constructor
  · exact hrest.insert hnew (fun w hw => Or.inl (Option.some_inj.mp hw).symm) (by simp)
  · intro u hu w hw
    rcases Finset.mem_insert.mp hu with rfl | hu
    · exact Finset.mem_insert_of_mem (hnext w hw)
    · exact Finset.mem_insert_of_mem (h.closed_next u hu w hw)
  · intro u hu hcycle
    rcases Finset.mem_insert.mp hu with rfl | hu
    · obtain ⟨w, hedge, hback⟩ := TransGen.head'_iff.mp hcycle
      exact hopen (h.closed_of_reachable (hnext w hedge) hback)
    · exact h.acyclic u hu hcycle

end Searched

/-! ## How long it takes -/

section

variable [DecidableEq α] {vertices closed : Finset α} {v : α} {stack : List (α × Nat)}

/-- The turns that all open vertices take, from the first neighbour on. -/
def work (next : α → List α) (vertices closed : Finset α) : Nat :=
  ∑ v ∈ vertices \ closed, ((next v).length + 1)

/-- The turns that the vertices on the stack have had. -/
def spent (stack : List (α × Nat)) : Nat := (stack.map Prod.snd).sum

theorem work_le_of_subset {closed' : Finset α} (h : closed ⊆ closed') :
    work next vertices closed' ≤ work next vertices closed :=
  Finset.sum_le_sum_of_subset (Finset.sdiff_subset_sdiff le_rfl h)

theorem work_insert (hv : v ∈ vertices) (hopen : v ∉ closed) :
    work next vertices (insert v closed) + ((next v).length + 1) = work next vertices closed := by
  have hmem : v ∈ vertices \ closed := Finset.mem_sdiff.mpr ⟨hv, hopen⟩
  rw [work, Finset.sdiff_insert, Finset.sum_erase_add _ _ hmem]
  rfl

theorem Stacked.spent_le {above : Option α} (h : Stacked next closed above stack)
    (hin : ∀ v ∈ stack.map Prod.fst, v ∈ vertices) :
    spent stack ≤ work next vertices closed := by
  have hhandled : spent stack ≤ ((stack.map Prod.fst).map fun v => (next v).length + 1).sum := by
    rw [spent, List.map_map]
    refine List.sum_le_sum fun top htop => ?_
    exact (h.handled_le htop).trans (Nat.le_succ _)
  refine hhandled.trans ?_
  rw [← List.sum_toFinset _ h.nodup]
  refine Finset.sum_le_sum_of_subset fun v hv => ?_
  have hv := List.mem_toFinset.mp hv
  exact Finset.mem_sdiff.mpr ⟨hin v hv, h.open_of_mem hv⟩

end

end DepthFirst
