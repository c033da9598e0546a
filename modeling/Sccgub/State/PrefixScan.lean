import Mathlib
import Sccgub.OrderedScan
import Sccgub.State.Trie

/-!
# Scans of a prefix

The keys with a prefix begin at the prefix itself, and what lies between two of them
has the prefix too.  A scan that stops at the first key without it has therefore seen
every key that has it.
-/

namespace Sccgub

open Bincode OrderedScan

theorem compare_of_startsWith {key start : Bytes} (h : startsWith key start = true) :
    compare key start ≠ .lt := by
  obtain ⟨rest, rfl⟩ := List.isPrefixOf_iff_prefix.mp h
  clear h
  induction start with
  | nil =>
      rcases rest with _ | ⟨b, rest⟩
      · simp
      · simp [List.compare_cons_nil]
  | cons b start ih =>
      have hself : compare b b = .eq := Std.ReflCmp.compare_self
      rw [List.cons_append, List.compare_cons_cons, hself]
      exact ih

/-- What lies between a prefix and a key that has it, has it too. -/
theorem startsWith_of_between {key between start : Bytes} (hkey : startsWith key start = true)
    (hfrom : compare between start ≠ .lt) (hto : compare between key = .lt) :
    startsWith between start = true := by
  induction start generalizing key between with
  | nil => rfl
  | cons b start ih =>
      rcases key with _ | ⟨c, key⟩
      · cases hkey
      · obtain ⟨hbc, htail⟩ : b = c ∧ startsWith key start = true := by
          simpa [startsWith, List.isPrefixOf] using hkey
        subst hbc
        rcases between with _ | ⟨d, between⟩
        · exact absurd List.compare_nil_cons hfrom
        · rw [List.compare_cons_cons] at hfrom hto
          rcases hd : compare d b with _ | _ | _
          · rw [hd] at hfrom
            exact absurd rfl hfrom
          · rw [hd] at hfrom hto
            obtain rfl : d = b := Std.LawfulEqCmp.eq_of_compare hd
            simpa [startsWith, List.isPrefixOf] using ih htail hfrom hto
          · rw [hd] at hto
            cases hto

theorem contiguous_startsWith (start : Bytes) :
    Contiguous start fun key => startsWith key start where
  above _ := compare_of_startsWith
  between _ _ := startsWith_of_between

namespace StateTrie

def iter (self : StateTrie) : List (Bytes × Bytes) := self.store.toList

def countPrefix (self : StateTrie) (start : Bytes) : Nat := (self.prefixIter start).length

/-- A scan finds the entries that have the prefix, in key order. -/
theorem prefixIter_eq_filter (self : StateTrie) (start : Bytes) :
    self.prefixIter start = self.store.toList.filter fun e => startsWith e.1 start :=
  scan_eq_filter (contiguous_startsWith start) Std.ExtTreeMap.ordered_keys_toList

theorem mem_prefixIter {self : StateTrie} {start key value : Bytes} :
    (key, value) ∈ self.prefixIter start
      ↔ self.get key = some value ∧ startsWith key start = true := by
  rw [prefixIter_eq_filter, List.mem_filter, Std.ExtTreeMap.mem_toList_iff_getElem?_eq_some]
  rfl

/-- Scanning and counting agree with going over the whole trie; the empty prefix is
that of every key. -/
theorem prefixIter_complete (self : StateTrie) :
    (∀ start, self.prefixIter start = self.iter.filter fun e => startsWith e.1 start)
      ∧ (∀ start, self.countPrefix start = self.iter.countP fun e => startsWith e.1 start)
      ∧ self.prefixIter [] = self.iter := by
  refine ⟨self.prefixIter_eq_filter, fun start => ?_, ?_⟩
  · rw [countPrefix, prefixIter_eq_filter, List.countP_eq_length_filter]
    rfl
  · rw [prefixIter_eq_filter]
    exact List.filter_eq_self.mpr fun _ _ => rfl

end StateTrie

end Sccgub
