import Mathlib

/-!
# Overlays and write-through maps

A map with a list of writes laid over it, and when two overlays agree.

The use is a write-through map: every write to the map also goes to a backing
store.  When a copy of the map is written to for a while and then dropped, the
map itself is as before but the store has the copy's writes.  Whether store and
map still agree is a question about overlays: the writes that went astray
(`spec`), the writes that the map saw afterwards (`commit`), and the map they
started from.  `putAll_spec_commit_iff` answers it.
-/

namespace WriteThrough

section

variable {K V : Type} [Ord K] [Std.TransOrd K]

def putAll (m : Std.ExtTreeMap K V) (ws : List (K × V)) : Std.ExtTreeMap K V :=
  ws.foldl (fun m w => m.insert w.1 w.2) m

@[simp] theorem putAll_nil (m : Std.ExtTreeMap K V) : putAll m [] = m := rfl

theorem putAll_append (m : Std.ExtTreeMap K V) (ws ws' : List (K × V)) :
    putAll m (ws ++ ws') = putAll (putAll m ws) ws' :=
  List.foldl_append

end

section

variable {K V : Type} [DecidableEq K]

/-- What the writes leave at a key, if they touch it. -/
def lastWrite : List (K × V) → K → Option V
  | [], _ => none
  | (key, value) :: ws, k => (lastWrite ws k).or (if key = k then some value else none)

theorem lastWrite_append (ws ws' : List (K × V)) (k : K) :
    lastWrite (ws ++ ws') k = (lastWrite ws' k).or (lastWrite ws k) := by
  induction ws with
  | nil => simp [lastWrite]
  | cons w ws ih => rw [List.cons_append, lastWrite, ih, lastWrite, Option.or_assoc]

/-- Writes to other keys are not seen. -/
theorem lastWrite_eq_none {ws : List (K × V)} {k : K} (h : ∀ w ∈ ws, w.1 ≠ k) :
    lastWrite ws k = none := by
  induction ws with
  | nil => rfl
  | cons w ws ih =>
      obtain ⟨hw, hrest⟩ := List.forall_mem_cons.mp h
      rw [lastWrite, ih hrest, if_neg hw]
      rfl

/-- Among writes to keys all different each one is the last at its key. -/
theorem lastWrite_of_mem {ws : List (K × V)} (hnodup : (ws.map Prod.fst).Nodup) {k : K} {v : V}
    (h : (k, v) ∈ ws) : lastWrite ws k = some v := by
  induction ws with
  | nil => cases h
  | cons w ws ih =>
      rw [List.map_cons, List.nodup_cons] at hnodup
      rcases List.mem_cons.mp h with rfl | hmem
      · have hnone : lastWrite ws k = none := lastWrite_eq_none fun w hw hk =>
          hnodup.1 (List.mem_map.mpr ⟨w, hw, hk⟩)
        rw [lastWrite, hnone, if_pos rfl]
        rfl
      · rw [lastWrite, ih hnodup.2 hmem]
        rfl

theorem mem_of_lastWrite {ws : List (K × V)} {k : K} {v : V} (h : lastWrite ws k = some v) :
    (k, v) ∈ ws := by
  induction ws with
  | nil => cases h
  | cons w ws ih =>
      rw [lastWrite, Option.or_eq_some_iff] at h
      rcases h with hlast | ⟨-, hw⟩
      · exact List.mem_cons_of_mem _ (ih hlast)
      · split at hw
        · rename_i hk
          obtain rfl := Option.some_inj.mp hw
          rw [← hk]
          exact List.mem_cons_self
        · cases hw

end

section

variable {K V : Type} [Ord K] [Std.TransOrd K] [Std.LawfulEqOrd K] [DecidableEq K]

theorem getElem?_putAll (m : Std.ExtTreeMap K V) (ws : List (K × V)) (k : K) :
    (putAll m ws)[k]? = (lastWrite ws k).or m[k]? := by
  induction ws generalizing m with
  | nil => rfl
  | cons w ws ih =>
      obtain ⟨key, value⟩ := w
      show (putAll (m.insert key value) ws)[k]? = _
      rw [ih, lastWrite, Option.or_assoc, Std.ExtTreeMap.getElem?_insert]
      by_cases h : key = k
      · simp [h]
      · simp [h]

/-- Writes that strayed into the store are harmless exactly when each of them
is written over by a later commit or put back what was there. -/
theorem putAll_spec_commit_iff (m : Std.ExtTreeMap K V) (spec commit : List (K × V)) :
    putAll (putAll m spec) commit = putAll m commit
      ↔ ∀ k v, lastWrite spec k = some v → (lastWrite commit k).isSome ∨ m[k]? = some v := by
  constructor
  · intro h k v hv
    have hk : (putAll (putAll m spec) commit)[k]? = (putAll m commit)[k]? := by rw [h]
    rw [getElem?_putAll, getElem?_putAll, getElem?_putAll, hv] at hk
    rcases hc : lastWrite commit k with _ | c
    · rw [hc] at hk
      exact Or.inr (by simpa using hk.symm)
    · exact Or.inl rfl
  · intro h
    refine Std.ExtTreeMap.ext_getElem? fun k => ?_
    rw [getElem?_putAll, getElem?_putAll, getElem?_putAll]
    rcases hs : lastWrite spec k with _ | v
    · rfl
    · rcases h k v hs with hc | hm
      · obtain ⟨c, hc⟩ := Option.isSome_iff_exists.mp hc
        rw [hc]
        rfl
      · rw [hm]
        rfl

end

end WriteThrough
