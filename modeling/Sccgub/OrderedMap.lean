import Mathlib

/-!
# Ordered maps as lists

The entries of an ordered map in order: they do not repeat, and a list that is
in order is determined by what is in it.  So the entries under some keys depend
on these keys only, and the last of them is the one with the greatest key.

The sum of a measure over the entries of a map, or over its values, and what
inserting a key does to it.
-/

namespace OrderedMap

variable {α β : Type} [Ord α] [Std.TransOrd α]

theorem values_eq (m : Std.ExtTreeMap α β) : m.values = m.toList.map Prod.snd := by
  obtain ⟨⟨q⟩⟩ := m
  induction q using Quotient.ind with
  | _ t =>
      show t.inner.values = (Std.DTreeMap.Internal.Impl.Const.toList t.inner).map Prod.snd
      rw [Std.DTreeMap.Internal.Impl.values_eq_map_snd,
        Std.DTreeMap.Internal.Impl.Const.toList_eq_toListModel_map]
      simp

/-- The sum of a measure over all values. -/
def total (f : β → Int) (m : Std.ExtTreeMap α β) : Int := (m.toList.map fun e => f e.2).sum

/-- The sum of a measure over all entries. -/
def sumOver (f : α × β → Int) (m : Std.ExtTreeMap α β) : Int := (m.toList.map f).sum

theorem nodup_keys_toList (m : Std.ExtTreeMap α β) : (m.toList.map Prod.fst).Nodup := by
  rw [Std.ExtTreeMap.map_fst_toList_eq_keys]
  exact Std.ExtTreeMap.nodup_keys

theorem nodup_toList (m : Std.ExtTreeMap α β) : m.toList.Nodup :=
  (nodup_keys_toList m).of_map Prod.fst

omit [Std.TransOrd α] in
/-- In a list in order, an entry that is at no place below another is the last. -/
theorem getLast?_eq_of_greatest {l : List (α × β)}
    (hl : l.Pairwise fun a b => compare a.1 b.1 = .lt) {e : α × β} (he : e ∈ l)
    (hgreatest : ∀ f ∈ l, compare e.1 f.1 ≠ .lt) : l.getLast? = some e := by
  induction l with
  | nil => cases he
  | cons a rest ih =>
      obtain ⟨hfirst, hrest⟩ := List.pairwise_cons.mp hl
      rcases rest with _ | ⟨b, rest⟩
      · rw [List.mem_singleton.mp he]
        rfl
      · have hmem : e ∈ b :: rest := by
          rcases List.mem_cons.mp he with rfl | hmem
          · exact absurd (hfirst b List.mem_cons_self)
              (hgreatest b (List.mem_cons_of_mem _ List.mem_cons_self))
          · exact hmem
        rw [List.getLast?_cons_cons]
        exact ih hrest hmem fun f hf => hgreatest f (List.mem_cons_of_mem _ hf)

variable [Std.LawfulEqOrd α]

/-- Two lists in order with the same entries are the same. -/
theorem eq_of_ordered {l l' : List (α × β)} (hl : l.Pairwise fun a b => compare a.1 b.1 = .lt)
    (hl' : l'.Pairwise fun a b => compare a.1 b.1 = .lt) (h : ∀ e, e ∈ l ↔ e ∈ l') : l = l' := by
  have hnodup : ∀ {l : List (α × β)}, (l.Pairwise fun a b => compare a.1 b.1 = .lt) → l.Nodup := by
    intro l hl
    refine hl.imp fun {a b} hab => ?_
    rintro rfl
    have hself : compare a.1 a.1 = .eq := Std.ReflCmp.compare_self
    rw [hself] at hab
    cases hab
  have hperm : l.Perm l' := (List.perm_ext_iff_of_nodup (hnodup hl) (hnodup hl')).mpr h
  refine hperm.eq_of_pairwise (fun a b _ _ hab hba => ?_) hl hl'
  have hswap : compare a.1 b.1 = (compare b.1 a.1).swap := Std.OrientedCmp.eq_swap
  rw [hswap, hba] at hab
  cases hab

/-- The entries under some keys depend on these keys only. -/
theorem filter_toList_congr {m m' : Std.ExtTreeMap α β} {p : α → Bool}
    (h : ∀ k, p k = true → m[k]? = m'[k]?) :
    (m.toList.filter fun e => p e.1) = m'.toList.filter fun e => p e.1 := by
  refine eq_of_ordered (Std.ExtTreeMap.ordered_keys_toList.filter _)
    (Std.ExtTreeMap.ordered_keys_toList.filter _) fun e => ?_
  rw [List.mem_filter, List.mem_filter, Std.ExtTreeMap.mem_toList_iff_getElem?_eq_some,
    Std.ExtTreeMap.mem_toList_iff_getElem?_eq_some]
  constructor
  · rintro ⟨hmem, hp⟩
    exact ⟨(h e.1 hp).symm.trans hmem, hp⟩
  · rintro ⟨hmem, hp⟩
    exact ⟨(h e.1 hp).trans hmem, hp⟩

/-- A choice among the values that passes over one is the choice without it. -/
theorem filter_values_erase {m : Std.ExtTreeMap α β} {k : α} {v : β} {p : β → Bool}
    (hk : m[k]? = some v) (hp : p v = false) :
    (m.erase k).values.filter p = m.values.filter p := by
  have hlists : ((m.erase k).toList.filter fun e => p e.2) = m.toList.filter fun e => p e.2 := by
    refine eq_of_ordered (Std.ExtTreeMap.ordered_keys_toList.filter _)
      (Std.ExtTreeMap.ordered_keys_toList.filter _) fun e => ?_
    rw [List.mem_filter, List.mem_filter, Std.ExtTreeMap.mem_toList_iff_getElem?_eq_some,
      Std.ExtTreeMap.mem_toList_iff_getElem?_eq_some, Std.ExtTreeMap.getElem?_erase]
    by_cases hkey : k = e.1
    · constructor
      · rintro ⟨hmem, -⟩
        rw [if_pos (by rw [hkey]; exact Std.ReflCmp.compare_self)] at hmem
        cases hmem
      · rintro ⟨hmem, hpass⟩
        rw [← hkey, hk] at hmem
        cases hmem
        rw [hp] at hpass
        cases hpass
    · rw [if_neg fun hc => hkey (Std.LawfulEqCmp.eq_of_compare hc)]
  rw [values_eq, values_eq, List.filter_map, List.filter_map]
  exact congrArg (List.map Prod.snd) hlists

/-- A loop over the entries, looked at through a part of the accumulator that
only the entry under one key sets. -/
theorem foldl_toList_proj {σ γ : Type} (m : Std.ExtTreeMap α β) {f : σ → α × β → σ} (g : σ → γ)
    {k : α} (decode : β → γ) (hother : ∀ acc e, e.1 ≠ k → g (f acc e) = g acc)
    (hself : ∀ acc v, g (f acc (k, v)) = decode v) (init : σ) :
    g (m.toList.foldl f init) = (m[k]?.map decode).getD (g init) := by
  have hskip : ∀ (l : List (α × β)) (acc : σ), (∀ e ∈ l, e.1 ≠ k) → g (l.foldl f acc) = g acc := by
    intro l
    induction l with
    | nil => exact fun _ _ => rfl
    | cons e rest ih =>
        intro acc hl
        obtain ⟨he, hrest⟩ := List.forall_mem_cons.mp hl
        rw [List.foldl_cons, ih _ hrest, hother acc e he]
  rcases hk : m[k]? with _ | v
  · refine hskip m.toList init fun e he hek => ?_
    have hmem := Std.ExtTreeMap.mem_toList_iff_getElem?_eq_some.mp he
    rw [hek, hk] at hmem
    cases hmem
  · have hmem : (k, v) ∈ m.toList := Std.ExtTreeMap.mem_toList_iff_getElem?_eq_some.mpr hk
    have hnodup := nodup_keys_toList m
    obtain ⟨l, l', hl⟩ := List.append_of_mem hmem
    rw [hl, List.map_append, List.map_cons] at hnodup
    have hnot : k ∉ l'.map Prod.fst := (List.nodup_cons.mp (List.nodup_append.mp hnodup).2.1).1
    rw [hl, List.foldl_append, List.foldl_cons, hskip l' _ fun e he hek =>
      hnot (List.mem_map.mpr ⟨e, he, hek⟩), hself]
    rfl

/-- One entry is at most the sum when none is negative. -/
theorem le_sumOver {f : α × β → Int} {m : Std.ExtTreeMap α β} (hf : ∀ e ∈ m.toList, 0 ≤ f e)
    {k : α} {v : β} (h : m[k]? = some v) : f (k, v) ≤ sumOver f m := by
  have hmem : (k, v) ∈ m.toList := Std.ExtTreeMap.mem_toList_iff_getElem?_eq_some.mpr h
  refine List.single_le_sum (fun x hx => ?_) (f (k, v)) (List.mem_map.mpr ⟨(k, v), hmem, rfl⟩)
  obtain ⟨e, he, rfl⟩ := List.mem_map.mp hx
  exact hf e he

/-- One value is at most the sum when none is negative. -/
theorem le_total {f : β → Int} {m : Std.ExtTreeMap α β} (hf : ∀ e ∈ m.toList, 0 ≤ f e.2) {k : α}
    {v : β} (h : m[k]? = some v) : f v ≤ total f m :=
  le_sumOver (f := fun e => f e.2) hf h

variable [DecidableEq α]

theorem toList_insert_perm (m : Std.ExtTreeMap α β) (k : α) (v : β) :
    (m.insert k v).toList.Perm ((k, v) :: m.toList.filter fun e => e.1 ≠ k) := by
  refine (List.perm_ext_iff_of_nodup (nodup_toList _) ?_).mpr ?_
  · refine List.nodup_cons.mpr ⟨?_, (nodup_toList m).filter _⟩
    simp
  · rintro ⟨k', v'⟩
    rw [Std.ExtTreeMap.mem_toList_iff_getElem?_eq_some, Std.ExtTreeMap.getElem?_insert,
      List.mem_cons, List.mem_filter, Std.ExtTreeMap.mem_toList_iff_getElem?_eq_some]
    by_cases h : k = k'
    · subst h
      simp [eq_comm]
    · have hcmp : compare k k' ≠ .eq := fun hc => h (Std.LawfulEqCmp.eq_of_compare hc)
      simp [hcmp, Ne.symm h]

/-- What the entry at a key contributes. -/
theorem sum_filter_eq (f : α × β → Int) (m : Std.ExtTreeMap α β) (k : α) :
    ((m.toList.filter fun e => e.1 = k).map f).sum = (m[k]?.map fun v => f (k, v)).getD 0 := by
  rcases hk : m[k]? with _ | v
  · have hnone : (m.toList.filter fun e => e.1 = k) = [] := by
      refine List.filter_eq_nil_iff.mpr fun e he => ?_
      rw [Std.ExtTreeMap.mem_toList_iff_getElem?_eq_some] at he
      simp only [decide_eq_true_eq]
      rintro rfl
      rw [hk] at he
      cases he
    rw [hnone]
    rfl
  · have hone : (m.toList.filter fun e => e.1 = k).Perm [(k, v)] := by
      refine (List.perm_ext_iff_of_nodup ((nodup_toList m).filter _) (List.nodup_singleton _)).mpr ?_
      rintro ⟨k', v'⟩
      rw [List.mem_filter, Std.ExtTreeMap.mem_toList_iff_getElem?_eq_some, List.mem_singleton]
      constructor
      · rintro ⟨hmem, hkey⟩
        obtain rfl : k' = k := of_decide_eq_true hkey
        rw [hk] at hmem
        cases hmem
        rfl
      · rintro ⟨⟩
        exact ⟨hk, decide_eq_true rfl⟩
    rw [(hone.map _).sum_eq]
    simp

/-- Inserting replaces what the key contributed before. -/
theorem sumOver_insert (f : α × β → Int) (m : Std.ExtTreeMap α β) (k : α) (v : β) :
    sumOver f (m.insert k v)
      = sumOver f m - (m[k]?.map fun v => f (k, v)).getD 0 + f (k, v) := by
  have hsplit : sumOver f m = (m[k]?.map fun v => f (k, v)).getD 0
      + ((m.toList.filter fun e => e.1 ≠ k).map f).sum := by
    rw [← sum_filter_eq f m k, sumOver, ← List.sum_append, ← List.map_append]
    refine ((List.Perm.map _ ?_).sum_eq).symm
    simpa using List.filter_append_perm (fun e : α × β => decide (e.1 = k)) m.toList
  have hinsert : sumOver f (m.insert k v)
      = f (k, v) + ((m.toList.filter fun e => e.1 ≠ k).map f).sum := by
    rw [sumOver, ((toList_insert_perm m k v).map _).sum_eq, List.map_cons, List.sum_cons]
  omega

theorem total_insert (f : β → Int) (m : Std.ExtTreeMap α β) (k : α) (v : β) :
    total f (m.insert k v) = total f m - (m[k]?.map f).getD 0 + f v :=
  sumOver_insert (fun e => f e.2) m k v

end OrderedMap
