import Mathlib

/-!
# Breadth-first search

The search with a work list and a limit on the number of steps from a seed.
Every vertex on the list comes with the number of steps that led to it.  The
first vertex of the list is met if it has not been met before, and what is next
to it goes to the end of the list unless it is beyond the limit.

`Searched` is what the search keeps.  The numbers on the list never fall and
grow by one at most, so a vertex is met by a shortest way; at the end the
vertices met within the limit are those the limit allows (`Searched.within_iff`).

A vertex is met once, so the list and the edges out of vertices that have not
been met bound the number of turns (`unmet_cons`).
-/

namespace BreadthFirst

variable {α : Type} {next : α → List α} {seeds : List α}

/-- A vertex that so many steps from a seed lead to. -/
inductive Reaches (next : α → List α) (seeds : List α) : Nat → α → Prop
  | seed {v : α} : v ∈ seeds → Reaches next seeds 0 v
  | step {n : Nat} {v w : α} : Reaches next seeds n v → w ∈ next v → Reaches next seeds (n + 1) w

def Within (next : α → List α) (seeds : List α) (limit : Nat) (v : α) : Prop :=
  ∃ n ≤ limit, Reaches next seeds n v

/-- Met by as few steps, or on the list. -/
def Known (met worklist : List (α × Nat)) (n : Nat) (v : α) : Prop :=
  (∃ m ≤ n, (v, m) ∈ met) ∨ (v, n) ∈ worklist

structure Searched (next : α → List α) (seeds : List α) (limit : Nat)
    (met worklist : List (α × Nat)) : Prop where
  nodup : (met.map Prod.fst).Nodup
  reached : ∀ v n, (v, n) ∈ met ∨ (v, n) ∈ worklist → Reaches next seeds n v
  sorted : worklist.Pairwise fun p q => p.2 ≤ q.2
  level : ∃ d, (∀ p ∈ met, p.2 ≤ d) ∧ ∀ p ∈ worklist, d ≤ p.2 ∧ p.2 ≤ d + 1
  seeded : ∀ v ∈ seeds, Known met worklist 0 v
  expanded : ∀ v n, (v, n) ∈ met → n ≤ limit → ∀ w ∈ next v, Known met worklist (n + 1) w

namespace Searched

variable {limit n : Nat} {v : α} {met worklist : List (α × Nat)}

theorem start (next : α → List α) (seeds : List α) (limit : Nat) :
    Searched next seeds limit [] (seeds.map fun v => (v, 0)) where
  nodup := List.nodup_nil
  reached v n h := by
    rcases h with h | h
    · cases h
    · obtain ⟨w, hw, heq⟩ := List.mem_map.mp h
      cases heq
      exact .seed hw
  sorted := List.pairwise_map.mpr (List.pairwise_of_forall fun _ _ => le_rfl)
  level := by
    refine ⟨0, by simp, ?_⟩
    intro p hp
    obtain ⟨w, -, rfl⟩ := List.mem_map.mp hp
    simp
  seeded v hv := Or.inr (List.mem_map_of_mem hv)
  expanded v n h := absurd h List.not_mem_nil

/-- The vertex on top takes no fewer steps than any that has been met, and no
vertex below takes fewer or two more. -/
theorem level_head (h : Searched next seeds limit met ((v, n) :: worklist)) :
    (∀ p ∈ met, p.2 ≤ n) ∧ ∀ p ∈ worklist, n ≤ p.2 ∧ p.2 ≤ n + 1 := by
  obtain ⟨d, hmet, hlist⟩ := h.level
  obtain ⟨hd, -⟩ : d ≤ n ∧ n ≤ d + 1 := hlist (v, n) List.mem_cons_self
  constructor
  · intro p hp
    exact (hmet p hp).trans hd
  · intro p hp
    have hfirst : n ≤ p.2 := (List.pairwise_cons.mp h.sorted).1 p hp
    have hnext := (hlist p (List.mem_cons_of_mem _ hp)).2
    exact ⟨hfirst, by omega⟩

/-- The vertex has been met before. -/
theorem skip (h : Searched next seeds limit met ((v, n) :: worklist)) (hv : v ∈ met.map Prod.fst) :
    Searched next seeds limit met worklist := by
  obtain ⟨hmet, hlist⟩ := h.level_head
  have hknown : ∀ m w, Known met ((v, n) :: worklist) m w → Known met worklist m w := by
    rintro m w (hw | hw)
    · exact Or.inl hw
    · rcases List.mem_cons.mp hw with heq | hw
      · cases heq
        obtain ⟨⟨v, e⟩, he, rfl⟩ := List.mem_map.mp hv
        exact Or.inl ⟨e, hmet _ he, he⟩
      · exact Or.inr hw
  constructor
  · exact h.nodup
  · intro w m hw
    exact h.reached w m (hw.imp_right (List.mem_cons_of_mem _))
  · exact (List.pairwise_cons.mp h.sorted).2
  · exact ⟨n, hmet, hlist⟩
  · intro w hw
    exact hknown _ _ (h.seeded w hw)
  · intro w m hw hm u hu
    exact hknown _ _ (h.expanded w m hw hm u hu)

/-- The vertex is met, and what is next to it is put at the end. -/
theorem visit (h : Searched next seeds limit met ((v, n) :: worklist)) (hv : v ∉ met.map Prod.fst)
    {found : List α} (hfound : ∀ w ∈ found, w ∈ next v) (hall : n ≤ limit → ∀ w ∈ next v, w ∈ found) :
    Searched next seeds limit ((v, n) :: met) (worklist ++ found.map fun w => (w, n + 1)) := by
  obtain ⟨hmet, hlist⟩ := h.level_head
  have hreached : Reaches next seeds n v := h.reached v n (Or.inr List.mem_cons_self)
  have hknown : ∀ m w, Known met ((v, n) :: worklist) m w
      → Known ((v, n) :: met) (worklist ++ found.map fun w => (w, n + 1)) m w := by
    rintro m w (⟨e, hle, he⟩ | hw)
    · exact Or.inl ⟨e, hle, List.mem_cons_of_mem _ he⟩
    · rcases List.mem_cons.mp hw with heq | hw
      · cases heq
        exact Or.inl ⟨n, le_rfl, List.mem_cons_self⟩
      · exact Or.inr (List.mem_append_left _ hw)
  constructor
  · exact List.nodup_cons.mpr ⟨hv, h.nodup⟩
  · rintro w m (hw | hw)
    · rcases List.mem_cons.mp hw with heq | hw
      · cases heq
        exact hreached
      · exact h.reached w m (Or.inl hw)
    · rcases List.mem_append.mp hw with hw | hw
      · exact h.reached w m (Or.inr (List.mem_cons_of_mem _ hw))
      · obtain ⟨u, hu, heq⟩ := List.mem_map.mp hw
        cases heq
        exact hreached.step (hfound _ hu)
  · refine List.pairwise_append.mpr ⟨(List.pairwise_cons.mp h.sorted).2,
      List.pairwise_map.mpr (List.pairwise_of_forall fun _ _ => le_rfl), ?_⟩
    intro p hp q hq
    obtain ⟨u, -, rfl⟩ := List.mem_map.mp hq
    exact (hlist p hp).2
  · refine ⟨n, ?_, ?_⟩
    · intro p hp
      rcases List.mem_cons.mp hp with rfl | hp
      · exact le_rfl
      · exact hmet p hp
    · intro p hp
      rcases List.mem_append.mp hp with hp | hp
      · exact hlist p hp
      · obtain ⟨u, -, rfl⟩ := List.mem_map.mp hp
        simp
  · intro w hw
    exact hknown _ _ (h.seeded w hw)
  · intro w m hw hm u hu
    rcases List.mem_cons.mp hw with heq | hw
    · cases heq
      exact Or.inr (List.mem_append_right _ (List.mem_map_of_mem (hall hm u hu)))
    · exact hknown _ _ (h.expanded w m hw hm u hu)

/-- The list is empty: whatever can be reached within the limit has been met by as few steps. -/
theorem met_of_reaches (h : Searched next seeds limit met []) (hv : Reaches next seeds n v)
    (hn : n ≤ limit) : ∃ m ≤ n, (v, m) ∈ met := by
  have hmet : ∀ {m w}, Known met [] m w → ∃ e ≤ m, (w, e) ∈ met := by
    rintro m w (hw | hw)
    · exact hw
    · cases hw
  induction hv with
  | seed hv => exact hmet (h.seeded _ hv)
  | step _ hw ih =>
      obtain ⟨m, hm, hmem⟩ := ih (by omega)
      obtain ⟨e, he, hmem⟩ := hmet (h.expanded _ m hmem (by omega) _ hw)
      exact ⟨e, by omega, hmem⟩

end Searched

/-- What has been met within the limit. -/
def expandedOf (limit : Nat) (met : List (α × Nat)) : List α :=
  (met.filter fun p => p.2 ≤ limit).map Prod.fst

section

variable {limit n : Nat} {v : α} {met worklist : List (α × Nat)}

theorem mem_expandedOf : v ∈ expandedOf limit met ↔ ∃ n ≤ limit, (v, n) ∈ met := by
  simp only [expandedOf, List.mem_map, List.mem_filter, decide_eq_true_eq, Prod.exists,
    exists_and_right, exists_eq_right]
  exact exists_congr fun n => and_comm

theorem expandedOf_cons_of_le (hn : n ≤ limit) :
    expandedOf limit ((v, n) :: met) = v :: expandedOf limit met := by
  simp [expandedOf, hn]

theorem expandedOf_cons_of_lt (hn : limit < n) :
    expandedOf limit ((v, n) :: met) = expandedOf limit met := by
  simp [expandedOf, hn]

theorem Searched.nodup_expandedOf (h : Searched next seeds limit met worklist) :
    (expandedOf limit met).Nodup :=
  h.nodup.sublist (List.filter_sublist.map Prod.fst)

theorem Searched.within (h : Searched next seeds limit met worklist)
    (hv : v ∈ expandedOf limit met) : Within next seeds limit v := by
  obtain ⟨n, hn, hmem⟩ := mem_expandedOf.mp hv
  exact ⟨n, hn, h.reached v n (Or.inl hmem)⟩

theorem Searched.within_iff (h : Searched next seeds limit met []) :
    v ∈ expandedOf limit met ↔ Within next seeds limit v := by
  refine ⟨h.within, ?_⟩
  rintro ⟨n, hn, hreach⟩
  obtain ⟨m, hm, hmem⟩ := h.met_of_reaches hreach hn
  exact mem_expandedOf.mpr ⟨m, hm.trans hn, hmem⟩

end

/-! ## How long it takes -/

section

variable {ε : Type} [DecidableEq α] {edges : List ε} {source : ε → Option α} {v : α} {met : List α}

/-- The edges out of vertices that have not been met. -/
def unmet (edges : List ε) (source : ε → Option α) (met : List α) : Nat :=
  edges.countP fun e => (source e).any (· ∉ met)

theorem unmet_le_length : unmet edges source met ≤ edges.length := List.countP_le_length

/-- Meeting a vertex takes its own edges away. -/
theorem unmet_cons (hv : v ∉ met) :
    unmet edges source (v :: met) + edges.countP (fun e => source e = some v)
      = unmet edges source met := by
  induction edges with
  | nil => rfl
  | cons e edges ih =>
      have hedge : (if (source e).any (· ∉ v :: met) then 1 else 0)
          + (if decide (source e = some v) then 1 else 0)
          = if (source e).any (· ∉ met) then 1 else 0 := by
        rcases source e with _ | w
        · rfl
        · by_cases hw : w = v
          · simp [hw, hv]
          · simp [hw]
      simp only [unmet, List.countP_cons] at ih ⊢
      omega

end

end BreadthFirst
