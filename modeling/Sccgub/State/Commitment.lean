import Mathlib
import Sccgub.MerkleTree
import Sccgub.OrderedMap
import Sccgub.State.Trie
import Sccgub.State.World

/-!
# The root as a commitment to the entries

Whatever is inserted, removed and asked for in between, a cached root is the root
of the entries, so the root depends on nothing else.  It determines them where
the digest has no collision among what is hashed for the two roots: the root
determines the tree of `MerkleTree`, its leaves are the entry digests in key
order, and behind their lengths key and value are told apart.

Binding a store lays the entries over what the store holds and reads them back, so
it keeps the entries, and with them the root, exactly when the store holds no
other keys.
-/

namespace Sccgub

open Bincode MerkleTree WriteThrough

section

variable [Crypto]

/-! ## The tree of the source -/

theorem nextLevel_eq (level : List Hash) : nextLevel level = pairUp hashInternal level := by
  fun_induction nextLevel level with
  | case1 left right rest ih => rw [pairUp, ih]
  | case2 level h =>
      rcases level with _ | ⟨left, _ | ⟨right, rest⟩⟩
      · rfl
      · rfl
      · exact absurd rfl (h left right rest)

theorem climb_eq (fuel : Nat) (level : List Hash) :
    Sccgub.climb fuel level = MerkleTree.climb hashInternal fuel level := by
  induction fuel generalizing level with
  | zero => rfl
  | succ fuel ih =>
      simp only [Sccgub.climb, MerkleTree.climb, nextLevel_eq, ih]

/-- The case of one leaf is the loop without a round. -/
theorem computeMerkleRoot_eq {leaves : List Hash} (hne : leaves ≠ []) :
    MerkleTree.climb hashInternal leaves.length (leaves.map hashLeaf)
      = [computeMerkleRoot leaves] := by
  rcases leaves with _ | ⟨first, _ | ⟨second, rest⟩⟩
  · exact absurd rfl hne
  · rfl
  · have hlen : (MerkleTree.climb hashInternal (first :: second :: rest).length
        ((first :: second :: rest).map hashLeaf)).length = 1 :=
      length_climb (by simp) (by simp)
    obtain ⟨root, hroot⟩ := List.length_eq_one_iff.mp hlen
    rw [computeMerkleRoot, climb_eq, hroot]
    · rfl
    · simp
    · simp

/-! ## What is hashed -/

def entryMessage (entry : Bytes × Bytes) : Bytes := concatParts [entry.1, entry.2]

def leafMessage (data : Hash) : Bytes := concatParts [[0x00], data.toList]

def internalMessage (children : Hash × Hash) : Bytes :=
  concatParts [[0x01], children.1.toList, children.2.toList]

/-- For the root of some leaves. -/
def hashedForRoot (leaves : List Hash) : List Bytes :=
  leaves.map leafMessage
    ++ (joined hashInternal leaves.length (leaves.map hashLeaf)).map internalMessage

/-- All that goes into the digest when the root is computed. -/
def StateTrie.hashed (store : Entries) : List Bytes :=
  store.toList.map entryMessage
    ++ (leaves store).map leafMessage
    ++ (joined hashInternal (leaves store).length ((leaves store).map hashLeaf)).map internalMessage

omit [Crypto] in
theorem leafMessage_inj {data data' : Hash} (h : leafMessage data = leafMessage data') :
    data = data' := by
  have hparts := concatParts_inj (by simp) (by simp) h
  exact Hash.toList_injective (List.cons.inj (List.cons.inj hparts).2).1

omit [Crypto] in
theorem internalMessage_inj {children children' : Hash × Hash}
    (h : internalMessage children = internalMessage children') : children = children' := by
  have hparts := concatParts_inj (by simp) (by simp) h
  obtain ⟨hleft, hright⟩ := List.cons.inj (List.cons.inj hparts).2
  exact Prod.ext (Hash.toList_injective hleft)
    (Hash.toList_injective (List.cons.inj hright).1)

omit [Crypto] in
/-- The tags keep leaves and nodes apart. -/
theorem leafMessage_ne_internalMessage (data : Hash) (children : Hash × Hash) :
    leafMessage data ≠ internalMessage children := by
  intro h
  have hparts := concatParts_inj (by simp) (by simp) h
  have hlen := congrArg List.length hparts
  simp at hlen

/-- As long as a vector of bytes can be. -/
def EntriesFit (store : Entries) : Prop :=
  ∀ e ∈ store.toList, e.1.length < 2 ^ 64 ∧ e.2.length < 2 ^ 64

instance (store : Entries) : Decidable (EntriesFit store) :=
  inferInstanceAs (Decidable (∀ e ∈ store.toList, e.1.length < 2 ^ 64 ∧ e.2.length < 2 ^ 64))

omit [Crypto] in
theorem entryMessage_inj {e e' : Bytes × Bytes} (he : e.1.length < 2 ^ 64 ∧ e.2.length < 2 ^ 64)
    (he' : e'.1.length < 2 ^ 64 ∧ e'.2.length < 2 ^ 64) (h : entryMessage e = entryMessage e') :
    e = e' := by
  have hparts := concatParts_inj (by simpa using he) (by simpa using he') h
  obtain ⟨hkey, hvalue⟩ := List.cons.inj hparts
  exact Prod.ext hkey (List.cons.inj hvalue).1

/-! ## Injectivity -/

omit [Crypto] in
theorem forall₂_of_map_eq {α β γ : Type} {f : α → γ} {g : β → γ} {R : α → β → Prop} {l : List α}
    {l' : List β} (h : l.map f = l'.map g) (hR : ∀ a ∈ l, ∀ b ∈ l', f a = g b → R a b) :
    List.Forall₂ R l l' := by
  induction l generalizing l' with
  | nil =>
      rw [List.map_nil, eq_comm, List.map_eq_nil_iff] at h
      rw [h]
      exact .nil
  | cons a l ih =>
      rcases l' with _ | ⟨b, l'⟩
      · cases h
      · rw [List.map_cons, List.map_cons] at h
        obtain ⟨hhead, htail⟩ := List.cons.inj h
        exact .cons (hR a List.mem_cons_self b List.mem_cons_self hhead)
          (ih htail fun a ha b hb => hR a (List.mem_cons_of_mem _ ha) b (List.mem_cons_of_mem _ hb))

omit [Crypto] in
theorem eq_of_map_eq {α γ : Type} {f : α → γ} {l l' : List α} (h : l.map f = l'.map f)
    (hf : ∀ a ∈ l, ∀ b ∈ l', f a = f b → a = b) : l = l' := by
  have hall := forall₂_of_map_eq (R := (· = ·)) h hf
  rwa [List.forall₂_eq_eq_eq] at hall

variable {messages : Set Bytes}

/-- Equal roots of trees that are not empty come from the same leaves. -/
theorem computeMerkleRoot_inj {leaves leaves' : List Hash} (hfree : CollisionFree messages)
    (hmem : ∀ m ∈ hashedForRoot leaves, m ∈ messages)
    (hmem' : ∀ m ∈ hashedForRoot leaves', m ∈ messages) (hne : leaves ≠ []) (hne' : leaves' ≠ [])
    (h : computeMerkleRoot leaves = computeMerkleRoot leaves') : leaves = leaves' := by
  refine @climb_inj _ _ hashLeaf hashInternal _ _ leaves.length leaves'.length
    {data | leafMessage data ∈ messages} {children | internalMessage children ∈ messages}
    ?_ ?_ ?_ hne hne' (by omega) (by omega) ?_ ?_ ?_ ?_ ?_
  · intro data hdata data' hdata' heq
    exact leafMessage_inj (hfree hdata hdata' heq)
  · intro children hc children' hc' heq
    exact internalMessage_inj (hfree hc hc' heq)
  · intro data hdata children hc heq
    exact leafMessage_ne_internalMessage data children (hfree hdata hc heq)
  · intro data hdata
    exact hmem _ (List.mem_append_left _ (List.mem_map_of_mem hdata))
  · intro data hdata
    exact hmem' _ (List.mem_append_left _ (List.mem_map_of_mem hdata))
  · intro children hc
    exact hmem _ (List.mem_append_right _ (List.mem_map_of_mem hc))
  · intro children hc
    exact hmem' _ (List.mem_append_right _ (List.mem_map_of_mem hc))
  · rw [computeMerkleRoot_eq hne, computeMerkleRoot_eq hne', h]

/-- The root of leaves is the digest of a message that is hashed for it. -/
theorem exists_hashedForRoot {leaves : List Hash} (hne : leaves ≠ []) :
    ∃ m ∈ hashedForRoot leaves, computeMerkleRoot leaves = Crypto.blake3 m := by
  obtain ⟨tree, hroot, hfringe, hjoins⟩ := exists_tree hashLeaf hashInternal hne (Nat.le_succ _)
  rw [computeMerkleRoot_eq hne] at hroot
  rw [List.singleton_inj.mp hroot]
  cases tree with
  | leaf data =>
      have hdata : data ∈ leaves := by
        rw [← hfringe]
        exact List.mem_singleton_self data
      exact ⟨leafMessage data, List.mem_append_left _ (List.mem_map_of_mem hdata), rfl⟩
  | node left right =>
      exact ⟨internalMessage (_, _), List.mem_append_right _
        (List.mem_map_of_mem (hjoins _ List.mem_cons_self)), rfl⟩

/-- With the zero digest excluded the root tells an empty tree from the others. -/
theorem leaves_eq_of_computeMerkleRoot {leaves leaves' : List Hash} (hfree : CollisionFree messages)
    (hzero : ∀ m ∈ messages, Crypto.blake3 m ≠ zeroHash)
    (hmem : ∀ m ∈ hashedForRoot leaves, m ∈ messages)
    (hmem' : ∀ m ∈ hashedForRoot leaves', m ∈ messages)
    (h : computeMerkleRoot leaves = computeMerkleRoot leaves') : leaves = leaves' := by
  by_cases hne : leaves = [] <;> by_cases hne' : leaves' = []
  · rw [hne, hne']
  · obtain ⟨m, hm, hroot⟩ := exists_hashedForRoot hne'
    rw [hne, hroot] at h
    exact absurd h.symm (hzero m (hmem' m hm))
  · obtain ⟨m, hm, hroot⟩ := exists_hashedForRoot hne
    rw [hne', hroot] at h
    exact absurd h (hzero m (hmem m hm))
  · exact computeMerkleRoot_inj hfree hmem hmem' hne hne' h

/-- The digests of entries, where they do not collide. -/
theorem leaves_inj {store store' : Entries} (hfree : CollisionFree messages)
    (hfit : EntriesFit store) (hfit' : EntriesFit store')
    (hmem : ∀ m ∈ StateTrie.hashed store, m ∈ messages)
    (hmem' : ∀ m ∈ StateTrie.hashed store', m ∈ messages)
    (h : StateTrie.leaves store = StateTrie.leaves store') : store.toList = store'.toList := by
  have hentry : ∀ {s : Entries}, (∀ m ∈ StateTrie.hashed s, m ∈ messages) →
      ∀ e ∈ s.toList, entryMessage e ∈ messages := by
    intro s hs e he
    refine hs _ ?_
    simp only [StateTrie.hashed, List.mem_append]
    exact Or.inl (Or.inl (List.mem_map.mpr ⟨e, he, rfl⟩))
  refine eq_of_map_eq h fun e he e' he' heq => ?_
  exact entryMessage_inj (hfit e he) (hfit' e' he') (hfree (hentry hmem e he) (hentry hmem' e' he') heq)

/-! ## Any sequence of calls -/

namespace StateTrie

inductive TrieCall
  | insert (key : SymbolAddress) (value : Bytes)
  | remove (key : SymbolAddress)
  | root

def call (self : StateTrie) : TrieCall → StateTrie
  | .insert key value => self.insert key value
  | .remove key => self.remove key
  | .root => self.root.2

/-- As the two constructors leave it. -/
inductive Created : StateTrie → Prop
  | new : Created .new
  | withStore (store : Entries) : Created (.withStore store)

theorem Created.cacheValid {t : StateTrie} (h : Created t) : t.CacheValid := by
  cases h with
  | new => exact cacheValid_new
  | withStore store => exact cacheValid_withStore store

theorem CacheValid.remove {t : StateTrie} (h : t.CacheValid) (key : SymbolAddress) :
    (t.remove key).CacheValid := by
  unfold StateTrie.remove
  split
  · intro r hr
    cases hr
  · exact h

theorem CacheValid.call {t : StateTrie} (h : t.CacheValid) (c : TrieCall) :
    (t.call c).CacheValid := by
  cases c with
  | insert key value => exact cacheValid_insert t key value
  | remove key => exact h.remove key
  | root => exact h.root

theorem CacheValid.run {t : StateTrie} (h : t.CacheValid) (calls : List TrieCall) :
    (calls.foldl StateTrie.call t).CacheValid := by
  induction calls generalizing t with
  | nil => exact h
  | cons c calls ih => exact ih (h.call c)

theorem computeRoot_eq (t : StateTrie) : t.computeRoot = computeMerkleRoot (leaves t.store) := by
  rw [computeRoot]
  split
  · rename_i hempty
    rw [Std.ExtTreeMap.isEmpty_iff.mp hempty]
    rfl
  · rfl

theorem hashedForRoot_subset (store : Entries) :
    ∀ m ∈ hashedForRoot (leaves store), m ∈ hashed store := by
  intro m hm
  rw [hashed, List.append_assoc]
  exact List.mem_append_right _ hm

theorem store_eq_of_computeRoot {t t' : StateTrie}
    (hfree : CollisionFree {m | m ∈ hashed t.store ∨ m ∈ hashed t'.store})
    (hzero : ∀ m, m ∈ hashed t.store ∨ m ∈ hashed t'.store → Crypto.blake3 m ≠ zeroHash)
    (hfit : EntriesFit t.store) (hfit' : EntriesFit t'.store)
    (h : t.computeRoot = t'.computeRoot) : t.store = t'.store := by
  rw [computeRoot_eq, computeRoot_eq] at h
  have hleaves := leaves_eq_of_computeMerkleRoot hfree hzero
    (fun m hm => Or.inl (hashedForRoot_subset _ m hm))
    (fun m hm => Or.inr (hashedForRoot_subset _ m hm)) h
  exact Std.ExtTreeMap.ext_toList (List.Perm.of_eq (leaves_inj hfree hfit hfit'
    (fun m hm => Or.inl hm) (fun m hm => Or.inr hm) hleaves))

/-- After any calls the root is that of the entries; it depends on them alone and,
without collisions and without the zero digest, determines them. -/
theorem root_commits {start start' : StateTrie} (hstart : Created start)
    (hstart' : Created start') (calls calls' : List TrieCall) :
    let t := calls.foldl call start
    let t' := calls'.foldl call start'
    (t.root.1 = t.computeRoot ∧ t.rootReadonly = t.computeRoot)
      ∧ (t.store = t'.store → t.root.1 = t'.root.1 ∧ t.rootReadonly = t'.rootReadonly)
      ∧ (CollisionFree {m | m ∈ hashed t.store ∨ m ∈ hashed t'.store} →
        (∀ m, m ∈ hashed t.store ∨ m ∈ hashed t'.store → Crypto.blake3 m ≠ zeroHash) →
        EntriesFit t.store → EntriesFit t'.store →
        t.root.1 = t'.root.1 → t.store = t'.store) := by
  intro t t'
  have hroot : t.rootReadonly = t.computeRoot := (hstart.cacheValid.run calls).rootReadonly_eq
  have hroot' : t'.rootReadonly = t'.computeRoot := (hstart'.cacheValid.run calls').rootReadonly_eq
  refine ⟨⟨hroot, hroot⟩, fun hstore => ?_, fun hfree hzero hfit hfit' heq => ?_⟩
  · have hsame : t.rootReadonly = t'.rootReadonly := by
      rw [hroot, hroot', computeRoot, computeRoot, hstore]
    exact ⟨hsame, hsame⟩
  · have heq : t.rootReadonly = t'.rootReadonly := heq
    rw [hroot, hroot'] at heq
    exact store_eq_of_computeRoot hfree hzero hfit hfit' heq

end StateTrie

end

/-- Two entries, the root asked for in between. -/
def twoEntries : StateTrie :=
  [StateTrie.TrieCall.insert [1] [2], .root, .insert [3] [4]].foldl
    (@StateTrie.call polyCrypto) .new

/-- The same entries, in another order and after one that goes again. -/
def detour : StateTrie :=
  [StateTrie.TrieCall.insert [3] [4], .insert [5] [6], .root, .remove [5], .insert [1] [2]].foldl
    (@StateTrie.call polyCrypto) (.withStore ∅)

theorem root_commits_detour :
    (@StateTrie.root polyCrypto twoEntries).1 = (@StateTrie.root polyCrypto detour).1
      ∧ twoEntries.store = detour.store := by
  have hroot : (@StateTrie.root polyCrypto twoEntries).1 = (@StateTrie.root polyCrypto detour).1 := by
    decide +kernel
  have hhashed : @StateTrie.hashed polyCrypto detour.store
      = @StateTrie.hashed polyCrypto twoEntries.store := by
    decide +kernel
  have hfree : ∀ m ∈ @StateTrie.hashed polyCrypto twoEntries.store,
      ∀ m' ∈ @StateTrie.hashed polyCrypto twoEntries.store,
        polyCrypto.blake3 m = polyCrypto.blake3 m' → m = m' := by
    decide +kernel
  have hzero : ∀ m ∈ @StateTrie.hashed polyCrypto twoEntries.store,
      polyCrypto.blake3 m ≠ zeroHash := by
    decide +kernel
  refine ⟨hroot, (@StateTrie.root_commits polyCrypto _ _ .new (.withStore ∅)
    [.insert [1] [2], .root, .insert [3] [4]]
    [.insert [3] [4], .insert [5] [6], .root, .remove [5], .insert [1] [2]]).2.2
    ?_ ?_ ?_ ?_ hroot⟩
  · rintro m hm m' hm'
    have hm : m ∈ @StateTrie.hashed polyCrypto twoEntries.store := hm.elim id (hhashed ▸ ·)
    have hm' : m' ∈ @StateTrie.hashed polyCrypto twoEntries.store := hm'.elim id (hhashed ▸ ·)
    exact hfree m hm m' hm'
  · intro m hm
    have hm : m ∈ @StateTrie.hashed polyCrypto twoEntries.store := hm.elim id (hhashed ▸ ·)
    exact hzero m hm
  · exact (by decide +kernel : EntriesFit twoEntries.store)
  · exact (by decide +kernel : EntriesFit detour.store)

/-! ## Binding a store -/

theorem lastWrite_toList (store : Entries) (key : Bytes) :
    lastWrite store.toList key = store[key]? := by
  rcases hkey : store[key]? with _ | value
  · refine lastWrite_eq_none fun write hwrite heq => ?_
    rw [Std.ExtTreeMap.mem_toList_iff_getElem?_eq_some, heq, hkey] at hwrite
    cases hwrite
  · exact lastWrite_of_mem (OrderedMap.nodup_keys_toList store)
      (Std.ExtTreeMap.mem_toList_iff_getElem?_eq_some.mpr hkey)

/-- What the store held before shows through at the keys that are not written. -/
theorem getElem?_bindStore (state : ManagedWorldState) (store : Entries) (key : Bytes) :
    (state.bindStore store).trie.store[key]? = state.trie.store[key]?.or store[key]? := by
  show (putAll store state.trie.store.toList)[key]? = _
  rw [getElem?_putAll, lastWrite_toList]

/-- The entries are kept, the root with them, and the store holds these entries. -/
structure BindingPreserves [Crypto] (state : ManagedWorldState) (store : Entries) : Prop where
  entries : (state.bindStore store).trie.store = state.trie.store
  stateRoot : state.trie.CacheValid → (state.bindStore store).stateRoot = state.stateRoot
  durable : (state.bindStore store).trie.durable = some state.trie.store

/-- Binding preserves the state exactly when the store has no key the trie lacks. -/
theorem bindingPreserves_iff [Crypto] (state : ManagedWorldState) (store : Entries) :
    BindingPreserves state store ↔ ∀ key ∈ store, key ∈ state.trie.store := by
  constructor
  · intro h key hkey
    have hbound := getElem?_bindStore state store key
    rw [h.entries] at hbound
    by_contra hnot
    rw [Std.ExtTreeMap.getElem?_eq_none hnot, Option.none_or] at hbound
    have hsome := Std.ExtTreeMap.isSome_getElem?_iff_mem.mpr hkey
    rw [← hbound] at hsome
    cases hsome
  · intro h
    have hentries : (state.bindStore store).trie.store = state.trie.store := by
      refine Std.ExtTreeMap.ext_getElem? fun key => ?_
      rw [getElem?_bindStore]
      by_cases hkey : key ∈ state.trie.store
      · obtain ⟨value, hvalue⟩ := Option.isSome_iff_exists.mp
          (Std.ExtTreeMap.isSome_getElem?_iff_mem.mpr hkey)
        rw [hvalue]
        rfl
      · rw [Std.ExtTreeMap.getElem?_eq_none fun hin => hkey (h key hin), Option.or_none]
    refine ⟨hentries, fun hcache => ?_, congrArg some hentries⟩
    show (state.bindStore store).trie.computeRoot = state.trie.rootReadonly
    rw [hcache.rootReadonly_eq, StateTrie.computeRoot, StateTrie.computeRoot, hentries]

/-- A fresh state bound to a store with a key of an earlier run. -/
theorem stale_key_not_preserved :
    ¬ @BindingPreserves polyCrypto {} ((∅ : Entries).insert [1] [2]) := by
  intro h
  have hsize := congrArg Std.ExtTreeMap.size (@BindingPreserves.entries polyCrypto _ _ h)
  revert hsize
  decide +kernel

end Sccgub
