import Mathlib
import Sccgub.DepthFirst
import Sccgub.Types.CausalGraph

/-!
# What the cycle check finds

The graph that is checked is the one that the edges span: every edge leads from its
first end point to its second, whether or not these are declared as vertices.  The
loops are stated once more without a bound on their turns, so that it is seen that
they end.
-/

namespace Sccgub

open Relation DepthFirst

namespace CausalGraph

def Points (self : CausalGraph) (a b : CausalVertex) : Prop := ∃ e ∈ self.edges, e.endpoints = (a, b)

theorem mem_neighbors {self : CausalGraph} {a b : CausalVertex} :
    b ∈ self.neighbors a ↔ self.Points a b := by
  simp only [neighbors, List.mem_filterMap, Points]
  constructor
  · rintro ⟨e, he, hb⟩
    split at hb
    · rename_i ha
      exact ⟨e, he, Prod.ext ha (Option.some_inj.mp hb)⟩
    · cases hb
  · rintro ⟨e, he, hends⟩
    exact ⟨e, he, by rw [hends, if_pos rfl]⟩

theorem edge_eq_points (self : CausalGraph) : Edge self.neighbors = self.Points := by
  funext a b
  exact propext mem_neighbors

/-! ## The loops -/

/-- The loop over the stack ends with a result; `none` is a cycle. -/
inductive Searches (self : CausalGraph) :
    List (CausalVertex × Nat) → Colors → Option Colors → Prop
  | done {color} : Searches self [] color (some color)
  | cycle {v w next stack color} (hw : (self.neighbors v)[next]? = some w)
      (hgray : color[w]? = some Color.gray) : Searches self ((v, next) :: stack) color none
  | push {v w next stack color result} (hw : (self.neighbors v)[next]? = some w)
      (hwhite : color[w]? = some Color.white)
      (hrest : Searches self ((w, 0) :: (v, next + 1) :: stack) (color.insert w .gray) result) :
      Searches self ((v, next) :: stack) color result
  | pass {v w next stack color result} (hw : (self.neighbors v)[next]? = some w)
      (hgray : color[w]? ≠ some Color.gray) (hwhite : color[w]? ≠ some Color.white)
      (hrest : Searches self ((v, next + 1) :: stack) color result) :
      Searches self ((v, next) :: stack) color result
  | close {v next stack color result} (hend : (self.neighbors v)[next]? = none)
      (hrest : Searches self stack (color.insert v .black) result) :
      Searches self ((v, next) :: stack) color result

/-- The loop over the vertices ends with a result. -/
inductive Visits (self : CausalGraph) : List CausalVertex → Colors → Option Colors → Prop
  | done {color} : Visits self [] color (some color)
  | skip {start rest color result} (hmet : color[start]? ≠ some Color.white)
      (hrest : Visits self rest color result) : Visits self (start :: rest) color result
  | cycle {start rest color} (hnew : color[start]? = some Color.white)
      (hsearch : Searches self [(start, 0)] (color.insert start .gray) none) :
      Visits self (start :: rest) color none
  | next {start rest color color' result} (hnew : color[start]? = some Color.white)
      (hsearch : Searches self [(start, 0)] (color.insert start .gray) (some color'))
      (hrest : Visits self rest color' result) : Visits self (start :: rest) color result

/-- All vertices before the search. -/
def white (self : CausalGraph) : Colors :=
  Std.ExtTreeMap.ofList (self.allVertices.toList.map fun v => (v, Color.white))

/-- One turn of the loop over the vertices. -/
def visit (self : CausalGraph) (color : Colors) (start : CausalVertex) : Option Colors :=
  if color[start]? = some Color.white then
    self.search (self.allVertices.toList.length + self.edges.length + 1) [(start, 0)]
      (color.insert start .gray)
  else some color

/-! ## Vertices and colours -/

def vertexSet (self : CausalGraph) : Finset CausalVertex := self.allVertices.toList.toFinset

variable {self : CausalGraph} {closed : Finset CausalVertex}
  {stack : List (CausalVertex × Nat)} {color : Colors} {v w : CausalVertex}

theorem mem_vertexSet : v ∈ self.vertexSet ↔ v ∈ self.allVertices := by
  rw [vertexSet, List.mem_toFinset, Std.ExtTreeSet.mem_toList]

theorem mem_foldl_endpoints {edges : List CausalEdge} {set : Std.ExtTreeSet CausalVertex} :
    v ∈ edges.foldl (fun set e => (set.insert e.endpoints.1).insert e.endpoints.2) set
      ↔ v ∈ set ∨ ∃ e ∈ edges, e.endpoints.1 = v ∨ e.endpoints.2 = v := by
  induction edges generalizing set with
  | nil => simp
  | cons e edges ih =>
      rw [List.foldl_cons, ih]
      simp only [Std.ExtTreeSet.mem_insert, Std.LawfulEqCmp.compare_eq_iff_eq, List.mem_cons,
        exists_eq_or_imp]
      grind

theorem mem_vertexSet_of_points (h : self.Points v w) : v ∈ self.vertexSet ∧ w ∈ self.vertexSet := by
  obtain ⟨e, he, hends⟩ := h
  simp only [mem_vertexSet, allVertices, mem_foldl_endpoints]
  exact ⟨Or.inr ⟨e, he, Or.inl (congrArg Prod.fst hends)⟩,
    Or.inr ⟨e, he, Or.inr (congrArg Prod.snd hends)⟩⟩

theorem mem_vertexSet_of_neighbor {i : Nat} (hw : (self.neighbors v)[i]? = some w) :
    w ∈ self.vertexSet :=
  (mem_vertexSet_of_points (mem_neighbors.mp (List.mem_of_getElem? hw))).2

/-- The edges that leave the vertices of a list without repetitions are edges. -/
theorem sum_neighbors_le {vertices : List CausalVertex} (hnodup : vertices.Nodup) :
    (vertices.map fun v => (self.neighbors v).length).sum ≤ self.edges.length := by
  unfold neighbors
  induction self.edges with
  | nil => simp
  | cons e edges ih =>
      have hone : ∀ l : List CausalVertex, l.Nodup →
          (l.map fun v => ((e :: edges).filterMap fun e =>
            if e.endpoints.1 = v then some e.endpoints.2 else none).length).sum
          ≤ (l.map fun v => (edges.filterMap fun e =>
            if e.endpoints.1 = v then some e.endpoints.2 else none).length).sum
            + if e.endpoints.1 ∈ l then 1 else 0 := by
        intro l hl
        induction l with
        | nil => simp
        | cons v l ihl =>
            obtain ⟨hv, hl⟩ := List.nodup_cons.mp hl
            have hrest := ihl hl
            simp only [List.map_cons, List.sum_cons, List.filterMap_cons] at hrest ⊢
            by_cases hev : e.endpoints.1 = v
            · subst hev
              simp only [hv, if_false, if_true, List.mem_cons, true_or, List.length_cons] at hrest ⊢
              omega
            · simp only [hev, if_false, List.mem_cons, false_or] at hrest ⊢
              omega
      have hbound := hone vertices hnodup
      rw [List.length_cons]
      split at hbound <;> omega

theorem work_le : work self.neighbors self.vertexSet closed
    ≤ self.allVertices.toList.length + self.edges.length := by
  refine (work_le_of_subset (Finset.empty_subset closed)).trans ?_
  have hnodup : self.allVertices.toList.Nodup := by
    refine Std.ExtTreeSet.distinct_toList.imp ?_
    intro a b hne heq
    exact hne (Std.LawfulEqCmp.compare_eq_iff_eq.mpr heq)
  have hsum := @sum_neighbors_le self _ hnodup
  rw [work, Finset.sdiff_empty, vertexSet, List.sum_toFinset _ hnodup]
  simp only [List.sum_map_add, List.map_const', List.sum_replicate, smul_eq_mul, mul_one]
  omega

/-- Gray on the stack, black when closed, white otherwise. -/
def Painted (self : CausalGraph) (closed : Finset CausalVertex)
    (stack : List (CausalVertex × Nat)) (color : Colors) : Prop :=
  ∀ v, color[v]? =
    if v ∈ stack.map Prod.fst then some Color.gray
    else if v ∈ closed then some Color.black
    else if v ∈ self.vertexSet then some Color.white
    else none

theorem painted_white : self.Painted ∅ [] self.white := by
  intro v
  have hkeys : (self.allVertices.toList.map fun v => (v, Color.white)).map Prod.fst
      = self.allVertices.toList := by
    simp [Function.comp_def]
  simp only [List.map_nil, List.not_mem_nil, if_false, Finset.notMem_empty]
  split
  · rename_i hv
    have hmem : (v, Color.white) ∈ self.allVertices.toList.map fun v => (v, Color.white) :=
      List.mem_map_of_mem (List.mem_toFinset.mp hv)
    have hdistinct : (self.allVertices.toList.map fun v => (v, Color.white)).Pairwise
        fun a b => ¬ compare a.1 b.1 = .eq :=
      List.pairwise_map.mpr (Std.ExtTreeSet.distinct_toList (t := self.allVertices))
    exact Std.ExtTreeMap.getElem?_ofList_of_mem Std.ReflCmp.compare_self hdistinct hmem
  · rename_i hv
    refine Std.ExtTreeMap.getElem?_ofList_of_contains_eq_false ?_
    rw [hkeys, List.contains_eq_mem, decide_eq_false_iff_not]
    exact fun h => hv (List.mem_toFinset.mpr h)

namespace Painted

theorem gray_iff (h : self.Painted closed stack color) :
    color[v]? = some Color.gray ↔ v ∈ stack.map Prod.fst := by
  rw [h v]
  split <;> rename_i hv
  · simp [hv]
  · simp only [hv, iff_false]
    split <;> [skip; split] <;> simp

theorem white_iff (h : self.Painted closed stack color) :
    color[v]? = some Color.white
      ↔ v ∈ self.vertexSet ∧ v ∉ closed ∧ v ∉ stack.map Prod.fst := by
  rw [h v]
  split <;> rename_i hv
  · simp [hv]
  · split <;> rename_i hc
    · simp [hc]
    · split <;> rename_i hin <;> simp [hv, hc, hin]

/-- A vertex is met for the first time. -/
theorem push (h : self.Painted closed stack color) (i : Nat) :
    self.Painted closed ((w, i) :: stack) (color.insert w .gray) := by
  intro v
  rw [Std.ExtTreeMap.getElem?_insert]
  by_cases hwv : w = v
  · simp [hwv]
  · have hmem : v ∈ ((w, i) :: stack).map Prod.fst ↔ v ∈ stack.map Prod.fst := by
      simp [Ne.symm hwv]
    rw [if_neg (by simpa using hwv), h v]
    simp only [hmem]

/-- Another neighbour of the top. -/
theorem advance {i j : Nat} (h : self.Painted closed ((v, i) :: stack) color) :
    self.Painted closed ((v, j) :: stack) color := h

theorem close {i : Nat} (h : self.Painted closed ((v, i) :: stack) color)
    (hv : v ∉ stack.map Prod.fst) :
    self.Painted (insert v closed) stack (color.insert v .black) := by
  intro u
  rw [Std.ExtTreeMap.getElem?_insert]
  by_cases huv : v = u
  · subst huv
    rw [if_pos Std.ReflCmp.compare_self, if_neg hv, if_pos (Finset.mem_insert_self _ _)]
  · have hmem : u ∈ ((v, i) :: stack).map Prod.fst ↔ u ∈ stack.map Prod.fst := by
      simp [Ne.symm huv]
    have hclosed : u ∈ insert v closed ↔ u ∈ closed := by
      simp [Ne.symm huv]
    rw [if_neg (by simpa using huv), h u]
    simp only [hmem, hclosed]

end Painted

/-! ## The search -/

/-- What the search from a stack comes to. -/
def Explored (self : CausalGraph) (closed : Finset CausalVertex)
    (stack : List (CausalVertex × Nat)) : Option Colors → Prop
  | none => ∃ v, TransGen self.Points v v
  | some color => ∃ closed', closed ⊆ closed' ∧ (∀ v ∈ stack.map Prod.fst, v ∈ closed')
      ∧ Searched self.neighbors closed' [] ∧ self.Painted closed' [] color

theorem Explored.mono {closed' : Finset CausalVertex} {stack' : List (CausalVertex × Nat)}
    {result : Option Colors} (h : self.Explored closed' stack' result) (hclosed : closed ⊆ closed')
    (hstack : ∀ v ∈ stack.map Prod.fst, v ∈ stack'.map Prod.fst ∨ v ∈ closed') :
    self.Explored closed stack result := by
  cases result with
  | none => exact h
  | some color =>
      obtain ⟨last, hlast, hmem, hsearched, hpainted⟩ := h
      refine ⟨last, hclosed.trans hlast, fun v hv => ?_, hsearched, hpainted⟩
      rcases hstack v hv with hv | hv
      · exact hmem v hv
      · exact hlast hv

/-- The search ends before its turns are used up, and finds a cycle or closes
what it has met. -/
theorem search_spec {fuel : Nat} (h : Searched self.neighbors closed stack)
    (hpainted : self.Painted closed stack color)
    (hin : ∀ v ∈ stack.map Prod.fst, v ∈ self.vertexSet)
    (hfuel : work self.neighbors self.vertexSet closed < fuel + spent stack) :
    self.Searches stack color (self.search fuel stack color)
      ∧ self.Explored closed stack (self.search fuel stack color) := by
  induction fuel generalizing stack color closed with
  | zero =>
      have hspent := h.stacked.spent_le hin
      omega
  | succ fuel ih =>
      rcases stack with _ | ⟨⟨v, i⟩, stack⟩
      · exact ⟨.done, closed, subset_rfl, by simp, h, hpainted⟩
      · have hspent : spent ((v, i) :: stack) = i + spent stack := rfl
        have hv : v ∈ self.vertexSet := hin v List.mem_cons_self
        rcases hnext : (self.neighbors v)[i]? with _ | w
        · have hsearch : self.search (fuel + 1) ((v, i) :: stack) color
              = self.search fuel stack (color.insert v .black) := by
            simp only [search, hnext]
          have hopen : v ∉ closed := h.stacked.1
          have hwork := @work_insert _ self.neighbors _ _ _ _ hv hopen
          have hlen : (self.neighbors v).length ≤ i := List.getElem?_eq_none_iff.mp hnext
          have hle : i ≤ (self.neighbors v).length := h.stacked.2.2.1
          obtain ⟨hends, hexplored⟩ := ih (h.close hnext) (hpainted.close h.stacked.2.1)
            (fun u hu => hin u (List.mem_cons_of_mem _ hu)) (by omega)
          rw [hsearch]
          refine ⟨.close hnext hends, hexplored.mono (Finset.subset_insert _ _) fun u hu => ?_⟩
          rcases List.mem_cons.mp hu with rfl | hu
          · exact Or.inr (Finset.mem_insert_self _ _)
          · exact Or.inl hu
        · have hw : w ∈ self.vertexSet := mem_vertexSet_of_neighbor hnext
          by_cases hgray : w ∈ ((v, i) :: stack).map Prod.fst
          · have hcolor := hpainted.gray_iff.mpr hgray
            have hsearch : self.search (fuel + 1) ((v, i) :: stack) color = none := by
              simp only [search, hnext, hcolor]
            rw [hsearch]
            refine ⟨.cycle hnext hcolor, w, ?_⟩
            rw [← edge_eq_points]
            exact h.cycle hnext hgray
          · by_cases hclosed : w ∈ closed
            · have hnotGray : color[w]? ≠ some Color.gray := fun hc => hgray (hpainted.gray_iff.mp hc)
              have hnotWhite : color[w]? ≠ some Color.white := fun hc =>
                (hpainted.white_iff.mp hc).2.1 hclosed
              have hsearch : self.search (fuel + 1) ((v, i) :: stack) color
                  = self.search fuel ((v, i + 1) :: stack) color := by
                simp only [search, hnext]
              have hspent' : spent ((v, i + 1) :: stack) = i + 1 + spent stack := rfl
              obtain ⟨hends, hexplored⟩ := ih (h.advance hnext hclosed) hpainted.advance hin (by omega)
              rw [hsearch]
              exact ⟨.pass hnext hnotGray hnotWhite hends,
                hexplored.mono subset_rfl fun u hu => Or.inl hu⟩
            · have hwhite := hpainted.white_iff.mpr ⟨hw, hclosed, hgray⟩
              have hsearch : self.search (fuel + 1) ((v, i) :: stack) color
                  = self.search fuel ((w, 0) :: (v, i + 1) :: stack) (color.insert w .gray) := by
                simp only [search, hnext, hwhite]
              have hspent' : spent ((w, 0) :: (v, i + 1) :: stack) = 0 + (i + 1 + spent stack) := rfl
              obtain ⟨hends, hexplored⟩ := ih (h.push hnext hclosed hgray) (hpainted.advance.push 0)
                (fun u hu => by
                  rcases List.mem_cons.mp hu with rfl | hu
                  · exact hw
                  · exact hin u hu) (by omega)
              rw [hsearch]
              exact ⟨.push hnext hwhite hends,
                hexplored.mono subset_rfl fun u hu => Or.inl (List.mem_cons_of_mem _ hu)⟩

theorem foldlM_visit {order : List CausalVertex} (h : Searched self.neighbors closed [])
    (hpainted : self.Painted closed [] color) (hin : ∀ v ∈ order, v ∈ self.vertexSet) :
    self.Visits order color (order.foldlM self.visit color)
      ∧ self.Explored closed (order.map fun v => (v, 0)) (order.foldlM self.visit color) := by
  induction order generalizing color closed with
  | nil => exact ⟨.done, closed, subset_rfl, by simp, h, hpainted⟩
  | cons start order ih =>
      obtain ⟨hstart, hin⟩ := List.forall_mem_cons.mp hin
      rw [List.foldlM_cons]
      by_cases hwhite : color[start]? = some Color.white
      · have hopen : start ∉ closed := (hpainted.white_iff.mp hwhite).2.1
        have hwork := @work_le self closed
        obtain ⟨hends, hexplored⟩ := search_spec (h.start hopen) (hpainted.push 0)
          (by simpa using hstart) (Nat.lt_succ_of_le hwork)
        rw [visit, if_pos hwhite]
        rcases hresult : self.search (self.allVertices.toList.length + self.edges.length + 1)
            [(start, 0)] (color.insert start .gray) with _ | color'
        · rw [hresult] at hends hexplored
          exact ⟨.cycle hwhite hends, hexplored⟩
        · rw [hresult] at hends hexplored
          obtain ⟨closed', hsub, hmem, hsearched, hpainted'⟩ := hexplored
          obtain ⟨hvisits, hexplored⟩ := ih hsearched hpainted' hin
          refine ⟨.next hwhite hends hvisits, hexplored.mono hsub fun v hv => ?_⟩
          rcases List.mem_cons.mp hv with rfl | hv
          · exact Or.inr (hmem _ List.mem_cons_self)
          · exact Or.inl hv
      · have hclosed : start ∈ closed := by
          by_contra hopen
          exact hwhite (hpainted.white_iff.mpr ⟨hstart, hopen, List.not_mem_nil⟩)
        obtain ⟨hvisits, hexplored⟩ := ih h hpainted hin
        rw [visit, if_neg hwhite]
        refine ⟨.skip hwhite hvisits, hexplored.mono subset_rfl fun v hv => ?_⟩
        rcases List.mem_cons.mp hv with rfl | hv
        · exact Or.inr hclosed
        · exact Or.inl hv

/-- In whatever order the vertices are gone through. -/
theorem visits_spec {order : List CausalVertex} (horder : order.Perm self.allVertices.toList) :
    self.Visits order self.white (order.foldlM self.visit self.white)
      ∧ ((order.foldlM self.visit self.white).isSome = true
        ↔ ∀ v, ¬ TransGen self.Points v v) := by
  have hin : ∀ v, v ∈ order ↔ v ∈ self.vertexSet := by
    intro v
    rw [horder.mem_iff, vertexSet, List.mem_toFinset]
  obtain ⟨hvisits, hexplored⟩ := @foldlM_visit self _ _ _ .empty painted_white
    (fun v hv => (hin v).mp hv)
  refine ⟨hvisits, ?_⟩
  rcases hresult : order.foldlM self.visit self.white with _ | color
  · rw [hresult] at hexplored
    obtain ⟨v, hcycle⟩ := hexplored
    exact ⟨fun h => (nomatch h), fun h => absurd hcycle (h v)⟩
  · rw [hresult] at hexplored
    obtain ⟨closed, -, hmem, hsearched, -⟩ := hexplored
    refine ⟨fun _ v hcycle => ?_, fun _ => rfl⟩
    obtain ⟨w, hedge, -⟩ := TransGen.head'_iff.mp hcycle
    have hv : v ∈ order := (hin v).mpr (mem_vertexSet_of_points hedge).1
    have hclosed : v ∈ closed := hmem v (by simpa using hv)
    rw [← edge_eq_points] at hcycle
    exact hsearched.acyclic v hclosed hcycle

theorem isAcyclic_iff : self.isAcyclic = true ↔ ∀ v, ¬ TransGen self.Points v v :=
  (visits_spec (.refl _)).2

/-- The loops end, and the graph is accepted when no way along its edges leads back
to where it started. -/
theorem isAcyclic_exact (self : CausalGraph) (edges : List CausalEdge)
    (hedges : edges.Perm self.edges) (order : List CausalVertex)
    (horder : order.Perm self.allVertices.toList) :
    (∃ result, self.Visits order self.white result ∧ result.isSome = self.isAcyclic)
      ∧ (self.isAcyclic = true ↔ ∀ v, ¬ TransGen self.Points v v)
      ∧ ({ self with edges } : CausalGraph).isAcyclic = self.isAcyclic := by
  obtain ⟨hvisits, hiff⟩ := visits_spec horder
  have hpoints : ({ self with edges } : CausalGraph).Points = self.Points := by
    funext a b
    simp only [Points, hedges.mem_iff]
  refine ⟨⟨_, hvisits, ?_⟩, isAcyclic_iff, ?_⟩
  · rw [Bool.eq_iff_iff, hiff, isAcyclic_iff]
  · rw [Bool.eq_iff_iff, isAcyclic_iff, isAcyclic_iff, hpoints]

/-- Two transitions that cause each other, neither of them declared. -/
def mutualCauses : CausalGraph where
  edges := [.plain .causedBy ⟨.transition, Hash.ofByte 1⟩ ⟨.transition, Hash.ofByte 2⟩,
    .plain .causedBy ⟨.transition, Hash.ofByte 2⟩ ⟨.transition, Hash.ofByte 1⟩]

theorem isAcyclic_exact_mutualCauses :
    (∃ result, mutualCauses.Visits mutualCauses.allVertices.toList.reverse mutualCauses.white result
        ∧ result.isSome = mutualCauses.isAcyclic)
      ∧ (mutualCauses.isAcyclic = true ↔ ∀ v, ¬ TransGen mutualCauses.Points v v)
      ∧ ({ mutualCauses with edges := mutualCauses.edges.reverse } : CausalGraph).isAcyclic
        = mutualCauses.isAcyclic :=
  isAcyclic_exact mutualCauses mutualCauses.edges.reverse (List.reverse_perm _)
    mutualCauses.allVertices.toList.reverse (List.reverse_perm _)

example : mutualCauses.isAcyclic = false := by decide +kernel

end CausalGraph

end Sccgub
