import Mathlib
import Sccgub.Types.Namespace
import Sccgub.WriteThrough

/-!
# State trie

The trie is an ordered map with a lazily computed Merkle root, bound or not to
a durable store.  The store is a shared cell: cloning the trie copies the map
and shares the cell.  `durable` is what the cell holds as seen through this
handle; a function that works on a clone and drops it hands the clone's
`durable` back to its caller, who looks at the same cell.

All puts and deletes are taken to succeed, so the recorded error of a failing
store is left out.
-/

namespace Sccgub

open Bincode WriteThrough

abbrev Entries := Std.ExtTreeMap Bytes Bytes

structure StateTrie where
  store : Entries
  cachedRoot : Option MerkleRoot
  durable : Option Entries

namespace StateTrie

def new : StateTrie := ⟨∅, some zeroHash, none⟩

/-- Loads what the store holds. -/
def withStore (store : Entries) : StateTrie := ⟨store, none, some store⟩

def get (self : StateTrie) (key : SymbolAddress) : Option Bytes := self.store[key]?

def insert (self : StateTrie) (key : SymbolAddress) (value : Bytes) : StateTrie where
  store := self.store.insert key value
  cachedRoot := none
  durable := self.durable.map (·.insert key value)

/-- A key that is not there leaves cache and store alone. -/
def remove (self : StateTrie) (key : SymbolAddress) : StateTrie :=
  if key ∈ self.store then
    { store := self.store.erase key
      cachedRoot := none
      durable := self.durable.map (·.erase key) }
  else self

def contains (self : StateTrie) (key : SymbolAddress) : Bool := key ∈ self.store

/-- The entries from a prefix on, as long as they have it. -/
def prefixIter (self : StateTrie) (start : Bytes) : List (Bytes × Bytes) :=
  (self.store.toList.dropWhile fun entry => compare entry.1 start = .lt).takeWhile
    fun entry => startsWith entry.1 start

/-- The same trie after another handle changed the shared store. -/
def sharing (self : StateTrie) (durable : Option Entries) : StateTrie := { self with durable }

section

variable [Crypto]

def leaves (store : Entries) : List Hash :=
  store.toList.map fun (key, value) => blake3HashConcat [key, value]

def computeRoot (self : StateTrie) : MerkleRoot :=
  if self.store.isEmpty then zeroHash else computeMerkleRoot (leaves self.store)

def rootReadonly (self : StateTrie) : MerkleRoot := self.cachedRoot.getD self.computeRoot

/-- The root, kept for the next time. -/
def root (self : StateTrie) : MerkleRoot × StateTrie :=
  (self.rootReadonly, { self with cachedRoot := some self.rootReadonly })

/-- A cached root is the root of the entries. -/
def CacheValid (self : StateTrie) : Prop := ∀ r, self.cachedRoot = some r → r = self.computeRoot

theorem CacheValid.rootReadonly_eq {t : StateTrie} (h : t.CacheValid) :
    t.rootReadonly = t.computeRoot := by
  rcases hc : t.cachedRoot with _ | r
  · rw [rootReadonly, hc]
    rfl
  · rw [rootReadonly, hc]
    exact h r hc

theorem cacheValid_new : new.CacheValid := by
  intro r h
  rw [← Option.some_inj.mp h]
  simp [computeRoot, new]

theorem cacheValid_withStore (store : Entries) : (withStore store).CacheValid := by
  intro r h
  cases h

theorem cacheValid_insert (t : StateTrie) (key value : Bytes) :
    (t.insert key value).CacheValid := by
  intro r h
  cases h

theorem CacheValid.root {t : StateTrie} (h : t.CacheValid) : t.root.2.CacheValid := by
  intro r hr
  rw [← Option.some_inj.mp hr]
  exact h.rootReadonly_eq

end

/-! ## Runs of insertions -/

def insertAll (self : StateTrie) (ws : List (Bytes × Bytes)) : StateTrie :=
  ws.foldl (fun t w => t.insert w.1 w.2) self

@[simp] theorem insertAll_nil (t : StateTrie) : t.insertAll [] = t := rfl

theorem insertAll_append (t : StateTrie) (ws ws' : List (Bytes × Bytes)) :
    t.insertAll (ws ++ ws') = (t.insertAll ws).insertAll ws' := List.foldl_append

/-- Insertions go to the map and, through the handle, to the store. -/
theorem store_insertAll (t : StateTrie) (ws : List (Bytes × Bytes)) :
    (t.insertAll ws).store = putAll t.store ws := by
  induction ws generalizing t with
  | nil => rfl
  | cons w ws ih => exact ih (t.insert w.1 w.2)

theorem durable_insertAll (t : StateTrie) (ws : List (Bytes × Bytes)) :
    (t.insertAll ws).durable = t.durable.map (putAll · ws) := by
  induction ws generalizing t with
  | nil =>
      show t.durable = t.durable.map id
      simp
  | cons w ws ih =>
      show ((t.insert w.1 w.2).insertAll ws).durable = _
      rw [ih]
      simp only [insert, Option.map_map]
      rfl

theorem CacheValid.insertAll [Crypto] {t : StateTrie} (h : t.CacheValid)
    (ws : List (Bytes × Bytes)) : (t.insertAll ws).CacheValid := by
  induction ws generalizing t with
  | nil => exact h
  | cons w ws ih => exact ih (cacheValid_insert t w.1 w.2)

end StateTrie

end Sccgub
