import Mathlib

/-!
# A scan for a greatest element

An index is kept while a list is gone through; it moves to an entry that compares
greater than the one it stands at.  It ends at a greatest entry, and where
entries that compare equal are equal the entry it ends at depends on the set of
entries only.
-/

namespace Selection

variable {α : Type} {cmp : α → α → Ordering}

def advance (cmp : α → α → Ordering) (xs : List α) (best : Nat) (entry : α × Nat) : Nat :=
  if xs[best]?.any (fun held => cmp entry.1 held = .gt) then entry.2 else best

/-- The first entry is held when the scan starts. -/
def scan (cmp : α → α → Ordering) (xs : List α) : Nat :=
  (xs.zipIdx.drop 1).foldl (advance cmp xs) 0

def IsGreatest (cmp : α → α → Ordering) (xs : List α) (x : α) : Prop :=
  x ∈ xs ∧ ∀ y ∈ xs, (cmp y x).isLE = true

/-- Where the scan goes on from an entry it ends at one that is as great, and as
great as all that it passes. -/
theorem getElem?_foldl_advance [Std.TransCmp cmp] {xs : List α} {entries : List (α × Nat)}
    {best : Nat} {held : α} (hheld : xs[best]? = some held)
    (hentries : ∀ entry ∈ entries, xs[entry.2]? = some entry.1) :
    ∃ x, xs[entries.foldl (advance cmp xs) best]? = some x ∧ (cmp held x).isLE = true
      ∧ ∀ entry ∈ entries, (cmp entry.1 x).isLE = true := by
  induction entries generalizing best held with
  | nil =>
      have hself : cmp held held = .eq := Std.ReflCmp.compare_self
      exact ⟨held, hheld, by rw [hself]; rfl, by simp⟩
  | cons entry entries ih =>
      obtain ⟨hentry, hrest⟩ := List.forall_mem_cons.mp hentries
      rw [List.foldl_cons]
      by_cases hgt : cmp entry.1 held = .gt
      · have hmove : advance cmp xs best entry = entry.2 := by simp [advance, hheld, hgt]
        obtain ⟨x, hx, hle, hpassed⟩ := ih hentry hrest
        rw [hmove]
        have hlt : (cmp held entry.1).isLE = true := by
          have hswap : cmp held entry.1 = (cmp entry.1 held).swap := Std.OrientedCmp.eq_swap
          rw [hswap, hgt]
          rfl
        exact ⟨x, hx, Std.TransCmp.isLE_trans hlt hle, List.forall_mem_cons.mpr ⟨hle, hpassed⟩⟩
      · have hstay : advance cmp xs best entry = best := by simp [advance, hheld, hgt]
        obtain ⟨x, hx, hle, hpassed⟩ := ih hheld hrest
        rw [hstay]
        have hentryLE : (cmp entry.1 held).isLE = true := by
          rw [Ordering.isLE_iff_ne_gt]
          exact hgt
        exact ⟨x, hx, hle,
          List.forall_mem_cons.mpr ⟨Std.TransCmp.isLE_trans hentryLE hle, hpassed⟩⟩

theorem getElem?_scan [Std.TransCmp cmp] {xs : List α} (h : xs ≠ []) :
    ∃ x, xs[scan cmp xs]? = some x ∧ IsGreatest cmp xs x := by
  rcases xs with _ | ⟨first, rest⟩
  · exact absurd rfl h
  · have hentries : ∀ entry ∈ rest.zipIdx 1, (first :: rest)[entry.2]? = some entry.1 := by
      rintro ⟨x, i⟩ hmem
      obtain ⟨hle, hi⟩ := List.mk_mem_zipIdx_iff_le_and_getElem?_sub.mp hmem
      rw [show i = (i - 1) + 1 by omega, List.getElem?_cons_succ]
      exact hi
    obtain ⟨x, hx, hfirst, hrest⟩ :=
      @getElem?_foldl_advance α cmp _ (first :: rest) (rest.zipIdx 1) 0 first rfl hentries
    refine ⟨x, hx, List.mem_of_getElem? hx, List.forall_mem_cons.mpr ⟨hfirst, fun y hy => ?_⟩⟩
    obtain ⟨i, hi⟩ := List.getElem?_of_mem hy
    exact hrest (y, 1 + i) (List.mk_add_mem_zipIdx_iff_getElem?.mpr hi)

/-- A greatest entry of one list is the only one of every list with the same
entries. -/
theorem IsGreatest.unique [Std.TransCmp cmp] {xs ys : List α} {x y : α}
    (hx : IsGreatest cmp xs x) (hy : IsGreatest cmp ys y) (hsame : ∀ z, z ∈ ys ↔ z ∈ xs)
    (heq : ∀ a ∈ xs, ∀ b ∈ xs, cmp a b = .eq → a = b) : x = y := by
  have hyx : (cmp y x).isLE = true := hx.2 y ((hsame y).mp hy.1)
  have hxy : (cmp x y).isLE = true := hy.2 x ((hsame x).mpr hx.1)
  refine heq x hx.1 y ((hsame y).mp hy.1) ?_
  have hswap : cmp y x = (cmp x y).swap := Std.OrientedCmp.eq_swap
  rw [hswap] at hyx
  cases hcmp : cmp x y with
  | lt => rw [hcmp] at hyx; cases hyx
  | eq => rfl
  | gt => rw [hcmp] at hxy; cases hxy

end Selection
