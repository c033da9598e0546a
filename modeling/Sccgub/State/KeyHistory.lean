import Mathlib
import Sccgub.Fallible
import Sccgub.Runs
import Sccgub.State.Coherence
import Sccgub.State.KeyRotation

/-!
# The history of an agent's keys

What a run of registrations and rotations leaves in registry and index.  Every
key is bound to one agent for good, and a rotation changes which key is active
only from its own height up to the next rotation already stored.

The rotations of an agent form a chain as long as they arrive in the order of
their heights: a rotation is checked against the key active at its own height, so
one that arrives late takes the key that a later rotation has already replaced.
`Linear` then fails for good, the new key being fresh.

- **registry and index** (`Sound`): the two say the same about every key.
  Registrations and rotations keep it (`Sound.register`, `Sound.rotate`), and with
  it `Sound.activeKey_eq` computes the active key from the rotations alone.
- **what a rotation changes** (`Ordered.activeRotationAt_append`,
  `Sound.activeKey_rotate`): the active key, from its height to the next one stored.
- **when the chain goes on** (`Sound.linear_rotate_iff`): exactly if nothing later
  is stored.
- **in the trie** (`call_cases`): a call that succeeds and has room is a
  registration or a rotation of what the trie holds, and another call changes
  nothing.

The runs at the end put these together by induction over the calls (`Sound.run`,
`Sound.binds_run`).
-/

namespace Sccgub

open Bincode Fallible Runs

/-! ## Sorted registries -/

namespace KeyRotationRegistry

/-- The comparison behind `order`. -/
def cmp : KeyRotation → KeyRotation → Ordering :=
  compareLex (compareOn KeyRotation.agentId) (compareOn KeyRotation.rotationHeight)

instance : Std.TransCmp cmp := inferInstanceAs (Std.TransCmp (compareLex _ _))

theorem order_iff (a b : KeyRotation) : order a b ↔ (cmp a b).isLE = true := Iff.rfl

instance : Std.Total order where
  total a b := by
    rw [order_iff, order_iff]
    have hswap : cmp b a = (cmp a b).swap := Std.OrientedCmp.eq_swap
    rcases h : cmp a b with _ | _ | _ <;> simp [h, hswap]

instance : IsTrans KeyRotation order where
  trans _ _ _ := @Std.TransCmp.isLE_trans _ cmp _ _ _ _

theorem rotationHeight_le_of_order {a b : KeyRotation} (hagent : a.agentId = b.agentId)
    (h : order a b) : a.rotationHeight ≤ b.rotationHeight := by
  have hself : compare a.agentId b.agentId = .eq := by
    rw [hagent]
    exact Std.ReflCmp.compare_self
  unfold order at h
  rw [hself] at h
  exact Std.isLE_compare.mp h

/-- The rotations of one agent. -/
def rotationsOf (self : KeyRotationRegistry) (agentId : AgentId) : List KeyRotation :=
  self.rotations.filter fun r => r.agentId = agentId

theorem mem_rotationsOf {self : KeyRotationRegistry} {agentId : AgentId} {r : KeyRotation} :
    r ∈ self.rotationsOf agentId ↔ r ∈ self.rotations ∧ r.agentId = agentId := by
  simp [rotationsOf]

theorem activeRotationAt_eq (self : KeyRotationRegistry) (agentId : AgentId) (h : UInt64) :
    self.activeRotationAt agentId h
      = ((self.rotationsOf agentId).filter fun r => r.rotationHeight ≤ h).getLast? := by
  unfold activeRotationAt rotationsForAt rotationsOf
  rw [List.filter_filter]
  congr 2
  funext r
  exact Bool.and_comm _ _

/-- In order, and no two rotations of an agent at one height. -/
structure Ordered (registry : KeyRotationRegistry) : Prop where
  sorted : registry.rotations.Pairwise order
  places : (registry.rotations.map fun r => (r.agentId, r.rotationHeight)).Nodup

theorem Ordered.rotationsOf {self : KeyRotationRegistry} (h : self.Ordered) (agentId : AgentId) :
    (self.rotationsOf agentId).Pairwise fun a b => a.rotationHeight < b.rotationHeight := by
  have hboth : self.rotations.Pairwise fun a b => order a b
      ∧ (a.agentId, a.rotationHeight) ≠ (b.agentId, b.rotationHeight) :=
    h.sorted.and (List.pairwise_map.mp h.places)
  refine (hboth.filter _).imp_of_mem fun {a b} ha hb hab => ?_
  obtain ⟨-, haid⟩ := mem_rotationsOf.mp ha
  obtain ⟨-, hbid⟩ := mem_rotationsOf.mp hb
  have hle := rotationHeight_le_of_order (haid.trans hbid.symm) hab.1
  have hne : a.rotationHeight ≠ b.rotationHeight := fun heq =>
    hab.2 (by rw [haid, hbid, heq])
  exact UInt64.lt_of_le_of_ne hle hne

/-- Lists of rotations by ascending height are determined by what is in them. -/
theorem eq_of_ascending {l l' : List KeyRotation}
    (hl : l.Pairwise fun a b => a.rotationHeight < b.rotationHeight)
    (hl' : l'.Pairwise fun a b => a.rotationHeight < b.rotationHeight) (h : l.Perm l') : l = l' :=
  List.Perm.eq_of_pairwise (fun _ _ _ _ hab hba => absurd (UInt64.lt_trans hab hba) (UInt64.lt_irrefl _)) hl hl' h

theorem Ordered.append {self self' : KeyRotationRegistry} (h : self.Ordered) {r : KeyRotation}
    (happend : self.append r = .ok self') :
    self'.Ordered ∧ self'.rotations.Perm (r :: self.rotations) := by
  unfold KeyRotationRegistry.append at happend
  split at happend
  · cases happend
  · rename_i hfree
    obtain rfl := Except.ok.inj happend
    have hperm : ((self.rotations ++ [r]).insertionSort order).Perm (r :: self.rotations) :=
      (List.perm_insertionSort _ _).trans (List.perm_append_singleton r _)
    refine ⟨⟨List.pairwise_insertionSort _ _, ?_⟩, hperm⟩
    rw [(hperm.map _).nodup_iff, List.map_cons, List.nodup_cons]
    refine ⟨fun hmem => hfree ?_, h.places⟩
    obtain ⟨q, hq, hplace⟩ := List.mem_map.mp hmem
    obtain ⟨hid, hheight⟩ := Prod.mk.inj hplace
    exact List.any_eq_true.mpr ⟨q, hq, by simp [hid, hheight]⟩

section

variable {self self' : KeyRotationRegistry} {r : KeyRotation} (h : self.Ordered)
  (happend : self.append r = .ok self')

include h happend

/-- Other agents' rotations stay. -/
theorem Ordered.rotationsOf_append_of_ne {agentId : AgentId} (hne : r.agentId ≠ agentId) :
    self'.rotationsOf agentId = self.rotationsOf agentId := by
  obtain ⟨hordered, hperm⟩ := h.append happend
  refine eq_of_ascending (hordered.rotationsOf agentId) (h.rotationsOf agentId) ?_
  have hfilter := hperm.filter fun r => decide (r.agentId = agentId)
  rwa [List.filter_cons_of_neg (by simpa using hne)] at hfilter

theorem Ordered.rotationsOf_append_perm :
    (self'.rotationsOf r.agentId).Perm (r :: self.rotationsOf r.agentId) := by
  obtain ⟨-, hperm⟩ := h.append happend
  have hfilter := hperm.filter fun q => decide (q.agentId = r.agentId)
  rwa [List.filter_cons_of_pos (by simp)] at hfilter

omit h in
theorem rotationHeight_ne {q : KeyRotation} (hq : q ∈ self.rotationsOf r.agentId) :
    q.rotationHeight ≠ r.rotationHeight := by
  unfold KeyRotationRegistry.append at happend
  split at happend
  · cases happend
  · rename_i hfree
    obtain ⟨hmem, hid⟩ := mem_rotationsOf.mp hq
    intro hheight
    exact hfree (List.any_eq_true.mpr ⟨q, hmem, by simp [hid, hheight]⟩)

/-- Those before and those after the height of the new one. -/
theorem Ordered.rotationsOf_split :
    self.rotationsOf r.agentId
      = ((self.rotationsOf r.agentId).filter fun q => q.rotationHeight < r.rotationHeight)
        ++ (self.rotationsOf r.agentId).filter fun q => r.rotationHeight < q.rotationHeight := by
  have hold := h.rotationsOf r.agentId
  refine eq_of_ascending hold ?_ ?_
  · refine List.pairwise_append.mpr ⟨hold.filter _, hold.filter _, fun q hq q' hq' => ?_⟩
    have hlow : q.rotationHeight < r.rotationHeight := by simpa using (List.mem_filter.mp hq).2
    have hhigh : r.rotationHeight < q'.rotationHeight := by simpa using (List.mem_filter.mp hq').2
    exact UInt64.lt_trans hlow hhigh
  · have hsplit := List.filter_append_perm
      (fun q : KeyRotation => decide (q.rotationHeight < r.rotationHeight))
      (self.rotationsOf r.agentId)
    refine hsplit.symm.trans (List.Perm.append_left _ (List.Perm.of_eq ?_))
    refine List.filter_congr fun q hq => ?_
    have hne := rotationHeight_ne happend hq
    rw [← decide_not, decide_eq_decide, UInt64.not_lt]
    exact ⟨fun hle => UInt64.lt_of_le_of_ne hle hne.symm, UInt64.le_of_lt⟩

/-- The new rotation takes its place by height. -/
theorem Ordered.rotationsOf_append :
    self'.rotationsOf r.agentId
      = ((self.rotationsOf r.agentId).filter fun q => q.rotationHeight < r.rotationHeight)
        ++ r :: (self.rotationsOf r.agentId).filter fun q => r.rotationHeight < q.rotationHeight := by
  obtain ⟨hordered, -⟩ := h.append happend
  have hold := h.rotationsOf r.agentId
  refine eq_of_ascending (hordered.rotationsOf r.agentId) ?_ ?_
  · refine List.pairwise_append.mpr ⟨hold.filter _, List.pairwise_cons.mpr ⟨?_, hold.filter _⟩, ?_⟩
    · intro q hq
      simpa using (List.mem_filter.mp hq).2
    · intro q hq q' hq'
      have hlow : q.rotationHeight < r.rotationHeight := by simpa using (List.mem_filter.mp hq).2
      rcases List.mem_cons.mp hq' with rfl | hq'
      · exact hlow
      · have hhigh : r.rotationHeight < q'.rotationHeight := by
          simpa using (List.mem_filter.mp hq').2
        exact UInt64.lt_trans hlow hhigh
  · refine (h.rotationsOf_append_perm happend).trans ?_
    refine (List.Perm.cons r (List.Perm.of_eq ?_)).trans List.perm_middle.symm
    exact h.rotationsOf_split happend

/-- Up to its own height, and from a later rotation on, the new one does not count. -/
theorem Ordered.activeRotationAt_append {height : UInt64}
    (hheight : height < r.rotationHeight
      ∨ ∃ q ∈ self.rotationsOf r.agentId,
        r.rotationHeight < q.rotationHeight ∧ q.rotationHeight ≤ height) :
    self'.activeRotationAt r.agentId height = self.activeRotationAt r.agentId height := by
  rw [activeRotationAt_eq, activeRotationAt_eq, h.rotationsOf_append happend]
  conv_rhs => rw [h.rotationsOf_split happend]
  rw [List.filter_append, List.filter_append, List.filter_cons]
  rcases hheight with hlow | ⟨q, hq, hlater, hle⟩
  · rw [if_neg (by simpa using hlow)]
  · -- the later one is still the last
    rw [List.getLast?_append, List.getLast?_append]
    have hmem : q ∈ ((self.rotationsOf r.agentId).filter fun q =>
        r.rotationHeight < q.rotationHeight).filter fun q => q.rotationHeight ≤ height := by
      simp [hq, hlater, hle]
    generalize ((self.rotationsOf r.agentId).filter fun q =>
      r.rotationHeight < q.rotationHeight).filter (fun q => decide (q.rotationHeight ≤ height))
      = high at hmem ⊢
    obtain ⟨last, hlast⟩ := Option.isSome_iff_exists.mp
      (List.getLast?_isSome.mpr (List.ne_nil_of_mem hmem))
    split
    · rw [List.getLast?_cons, hlast]
      rfl
    · rfl

end

end KeyRotationRegistry

/-! ## Chains -/

/-- Each old key is the new key before it, the first one the given key. -/
def Successive : Ed25519PublicKey → List KeyRotation → Prop
  | _, [] => True
  | key, r :: rest => r.oldPublicKey = key ∧ Successive r.newPublicKey rest

/-- The key at the end of a chain. -/
def lastKey (key : Ed25519PublicKey) (rotations : List KeyRotation) : Ed25519PublicKey :=
  (rotations.getLast?.map KeyRotation.newPublicKey).getD key

theorem lastKey_cons (key : Ed25519PublicKey) (r : KeyRotation) (rest : List KeyRotation) :
    lastKey key (r :: rest) = lastKey r.newPublicKey rest := by
  unfold lastKey
  rcases rest with _ | ⟨q, rest⟩
  · rfl
  · rw [List.getLast?_cons_cons]
    cases h : (q :: rest).getLast? with
    | none => simp at h
    | some last => rfl

theorem successive_append {key : Ed25519PublicKey} {l l' : List KeyRotation} :
    Successive key (l ++ l') ↔ Successive key l ∧ Successive (lastKey key l) l' := by
  induction l generalizing key with
  | nil => simp [Successive, lastKey]
  | cons r l ih => rw [List.cons_append, Successive, Successive, ih, lastKey_cons, and_assoc]

/-! ## The index -/

namespace KeyIndex

def mark (publicKey : Ed25519PublicKey) (supersededAt : UInt64) (entry : KeyIndexEntry) :
    KeyIndexEntry :=
  if entry.publicKey = publicKey then { entry with supersededAt := some supersededAt } else entry

@[simp] theorem mark_publicKey (publicKey : Ed25519PublicKey) (supersededAt : UInt64)
    (entry : KeyIndexEntry) : (mark publicKey supersededAt entry).publicKey = entry.publicKey := by
  unfold mark
  split <;> rfl

@[simp] theorem mark_agentId (publicKey : Ed25519PublicKey) (supersededAt : UInt64)
    (entry : KeyIndexEntry) : (mark publicKey supersededAt entry).agentId = entry.agentId := by
  unfold mark
  split <;> rfl

@[simp] theorem mark_activeFrom (publicKey : Ed25519PublicKey) (supersededAt : UInt64)
    (entry : KeyIndexEntry) : (mark publicKey supersededAt entry).activeFrom = entry.activeFrom := by
  unfold mark
  split <;> rfl

theorem map_mark_of_not_mem {publicKey : Ed25519PublicKey} {supersededAt : UInt64}
    {entries : List KeyIndexEntry} (h : publicKey ∉ entries.map KeyIndexEntry.publicKey) :
    entries.map (mark publicKey supersededAt) = entries := by
  refine (List.map_congr_left fun e he => ?_).trans (List.map_id entries)
  exact if_neg fun hkey => h (List.mem_map.mpr ⟨e, he, hkey⟩)

/-- Keys do not repeat, so marking the first entry of a key is marking it. -/
theorem markFirst_eq {publicKey : Ed25519PublicKey} {supersededAt : UInt64}
    {entries marked : List KeyIndexEntry}
    (hkeys : (entries.map KeyIndexEntry.publicKey).Nodup)
    (h : markFirst publicKey supersededAt entries = some marked) :
    marked = entries.map (mark publicKey supersededAt) := by
  induction entries generalizing marked with
  | nil => cases h
  | cons entry rest ih =>
      rw [List.map_cons, List.nodup_cons] at hkeys
      rw [markFirst] at h
      split at h
      · rename_i hkey
        rw [← Option.some_inj.mp h, List.map_cons, map_mark_of_not_mem (hkey ▸ hkeys.1), mark,
          if_pos hkey]
      · rename_i hkey
        obtain ⟨marked', hm, rfl⟩ := Option.map_eq_some_iff.mp h
        rw [List.map_cons, mark, if_neg hkey, ih hkeys.2 hm]

def Names (self : KeyIndex) (publicKey : Ed25519PublicKey) (agentId : AgentId) : Prop :=
  ∃ e ∈ self.entries, e.publicKey = publicKey ∧ e.agentId = agentId

theorem containsKey_eq_false {self : KeyIndex} {publicKey : Ed25519PublicKey}
    (h : self.containsKey publicKey = false) :
    publicKey ∉ self.entries.map KeyIndexEntry.publicKey := by
  intro hmem
  obtain ⟨e, he, hkey⟩ := List.mem_map.mp hmem
  have hall := List.any_eq_false.mp h e he
  exact hall (decide_eq_true hkey)

theorem register_eq_ok {self self' : KeyIndex} {publicKey : Ed25519PublicKey} {agentId : AgentId}
    {activeFrom : UInt64} (h : self.register publicKey agentId activeFrom = .ok self') :
    self.containsKey publicKey = false
      ∧ self'.entries.Perm (⟨publicKey, agentId, activeFrom, none⟩ :: self.entries) := by
  unfold register at h
  split at h
  · cases h
  · rename_i hfresh
    cases h
    exact ⟨by simpa using hfresh,
      (List.perm_insertionSort _ _).trans (List.perm_append_singleton _ _)⟩

end KeyIndex

theorem mem_of_minByActiveFrom {entries : List KeyIndexEntry} {e : KeyIndexEntry}
    (h : minByActiveFrom entries = some e) : e ∈ entries := by
  induction entries generalizing e with
  | nil => cases h
  | cons entry rest ih =>
      rw [minByActiveFrom] at h
      split at h
      · rename_i best hbest
        rw [← Option.some_inj.mp h]
        split
        · exact List.mem_cons_of_mem _ (ih hbest)
        · exact List.mem_cons_self
      · rw [← Option.some_inj.mp h]
        exact List.mem_cons_self

theorem minByActiveFrom_eq_none {entries : List KeyIndexEntry} :
    minByActiveFrom entries = none ↔ entries = [] := by
  rcases entries with _ | ⟨entry, rest⟩
  · simp [minByActiveFrom]
  · rw [minByActiveFrom]
    split <;> simp

/-! ## Registry and index together -/

/-- A registration that went through. -/
structure Original where
  agentId : AgentId
  publicKey : Ed25519PublicKey
  activeFrom : UInt64
  deriving DecidableEq

structure KeyRecords where
  registry : KeyRotationRegistry := {}
  index : KeyIndex := {}
  deriving DecidableEq

namespace KeyRecords

def activeKey (self : KeyRecords) (agentId : AgentId) (height : UInt64) :
    Option Ed25519PublicKey :=
  activePublicKeyFromIndexAndRegistry self.index self.registry agentId height

/-- What registrations and rotations leave: no key twice, every entry from a
registration or a rotation, and no rotation before its agent's registration. -/
structure Sound (originals : List Original) (records : KeyRecords) : Prop where
  agents : (originals.map Original.agentId).Nodup
  keys : (records.index.entries.map KeyIndexEntry.publicKey).Nodup
  ordered : records.registry.Ordered
  original : ∀ o ∈ originals, ∃ e ∈ records.index.entries,
    e.publicKey = o.publicKey ∧ e.agentId = o.agentId ∧ e.activeFrom = o.activeFrom
      ∧ ∀ height, e.supersededAt = some height →
        ∃ q ∈ records.registry.rotationsOf o.agentId, q.rotationHeight ≤ height
  source : ∀ e ∈ records.index.entries,
    (∃ o ∈ originals, o.agentId = e.agentId ∧ o.publicKey = e.publicKey
        ∧ o.activeFrom = e.activeFrom)
      ∨ ∃ q ∈ records.registry.rotationsOf e.agentId,
        q.newPublicKey = e.publicKey ∧ q.rotationHeight = e.activeFrom
  named : ∀ q ∈ records.registry.rotations,
    records.index.Names q.oldPublicKey q.agentId ∧ records.index.Names q.newPublicKey q.agentId
  since : ∀ q ∈ records.registry.rotations,
    ∃ o ∈ originals, o.agentId = q.agentId ∧ o.activeFrom ≤ q.rotationHeight

variable {originals : List Original} {records records' : KeyRecords}

theorem sound_empty : Sound [] {} where
  agents := List.nodup_nil
  keys := List.nodup_nil
  ordered := ⟨List.Pairwise.nil, List.nodup_nil⟩
  original _ ho := nomatch ho
  source _ he := nomatch he
  named _ hq := nomatch hq
  since _ hq := nomatch hq

theorem Sound.names_inj (hs : records.Sound originals) {publicKey : Ed25519PublicKey}
    {agentId agentId' : AgentId} (h : records.index.Names publicKey agentId)
    (h' : records.index.Names publicKey agentId') : agentId = agentId' := by
  obtain ⟨e, he, hkey, rfl⟩ := h
  obtain ⟨e', he', hkey', rfl⟩ := h'
  rw [List.inj_on_of_nodup_map hs.keys he he' (hkey.trans hkey'.symm)]

theorem Sound.original_inj (hs : records.Sound originals) {o o' : Original} (ho : o ∈ originals)
    (ho' : o' ∈ originals) (h : o.agentId = o'.agentId) : o = o' :=
  List.inj_on_of_nodup_map hs.agents ho ho' h

/-- The key of the registration, from its height on. -/
def firstKeyAt (originals : List Original) (agentId : AgentId) (height : UInt64) :
    Option Ed25519PublicKey :=
  (originals.find? fun o => o.agentId = agentId && o.activeFrom ≤ height).map Original.publicKey

theorem Sound.firstKeyAt_eq (hs : records.Sound originals) {o : Original} (ho : o ∈ originals)
    {height : UInt64} (hfrom : o.activeFrom ≤ height) :
    firstKeyAt originals o.agentId height = some o.publicKey := by
  have hsome : (originals.find? fun o' =>
      o'.agentId = o.agentId && o'.activeFrom ≤ height).isSome := by
    rw [List.find?_isSome]
    exact ⟨o, ho, by simp [hfrom]⟩
  obtain ⟨o', ho'⟩ := Option.isSome_iff_exists.mp hsome
  have hid : o'.agentId = o.agentId := by
    have hp := List.find?_some ho'
    simp only [Bool.and_eq_true, decide_eq_true_eq] at hp
    exact hp.1
  rw [firstKeyAt, ho', hs.original_inj (List.mem_of_find?_eq_some ho') ho hid]
  rfl

/-- The last rotation up to the height decides, and without one the registration. -/
theorem Sound.activeKey_eq (hs : records.Sound originals) (agentId : AgentId) (height : UInt64) :
    records.activeKey agentId height
      = match records.registry.activeRotationAt agentId height with
        | some q => some q.newPublicKey
        | none => firstKeyAt originals agentId height := by
  unfold activeKey activePublicKeyFromIndexAndRegistry
  rcases hactive : records.registry.activeRotationAt agentId height with _ | q
  · dsimp only
    -- every rotation of the agent comes later
    have hlater : ∀ q ∈ records.registry.rotationsOf agentId, height < q.rotationHeight := by
      intro q hq
      rw [KeyRotationRegistry.activeRotationAt_eq, List.getLast?_eq_none_iff,
        List.filter_eq_nil_iff] at hactive
      simpa using hactive q hq
    generalize hfilter : records.index.entries.filter _ = visible
    have hvisible : ∀ e, e ∈ visible → ∃ o ∈ originals, o.agentId = agentId
        ∧ o.publicKey = e.publicKey ∧ o.activeFrom ≤ height := by
      intro e he
      rw [← hfilter, List.mem_filter] at he
      obtain ⟨hmem, htest⟩ := he
      simp only [Bool.and_eq_true, decide_eq_true_eq] at htest
      obtain ⟨⟨hid, hfrom⟩, -⟩ := htest
      rcases hs.source e hmem with ⟨o, ho, hoid, hokey, hofrom⟩ | ⟨q, hq, -, hheight⟩
      · exact ⟨o, ho, hoid.trans hid, hokey, hofrom ▸ hfrom⟩
      · have hlt := hlater q (hid ▸ hq)
        rw [hheight] at hlt
        exact absurd hlt (UInt64.not_lt.mpr hfrom)
    rcases hmin : minByActiveFrom visible with _ | e
    · rw [minByActiveFrom_eq_none] at hmin
      rw [Option.map_none, eq_comm, firstKeyAt, Option.map_eq_none_iff, List.find?_eq_none]
      intro o ho hcond
      simp only [Bool.and_eq_true, decide_eq_true_eq] at hcond
      obtain ⟨e, he, hkey, hid, hfrom, hsuperseded⟩ := hs.original o ho
      have hshown : e ∈ visible := by
        rw [← hfilter, List.mem_filter]
        refine ⟨he, ?_⟩
        simp only [hid, hfrom, hcond.1, hcond.2, decide_true, Bool.and_self, Bool.true_and]
        split
        · rename_i s hs'
          obtain ⟨q, hq, hle⟩ := hsuperseded s hs'
          exact decide_eq_true (UInt64.lt_of_lt_of_le (hlater q (hcond.1 ▸ hq)) hle)
        · rfl
      rw [hmin] at hshown
      cases hshown
    · obtain ⟨o, ho, hoid, hokey, hofrom⟩ := hvisible e (mem_of_minByActiveFrom hmin)
      rw [Option.map_some, ← hoid, hs.firstKeyAt_eq ho hofrom, hokey]
  · rfl

/-- An active key is bound to its agent. -/
theorem Sound.names_activeKey (hs : records.Sound originals) {agentId : AgentId} {height : UInt64}
    {key : Ed25519PublicKey} (h : records.activeKey agentId height = some key) :
    records.index.Names key agentId := by
  rw [hs.activeKey_eq] at h
  split at h
  · rename_i q hactive
    have hmem := List.mem_of_getLast? (KeyRotationRegistry.activeRotationAt_eq _ _ _ ▸ hactive)
    obtain ⟨hq, hid⟩ := KeyRotationRegistry.mem_rotationsOf.mp (List.mem_of_mem_filter hmem)
    rw [← Option.some_inj.mp h, ← hid]
    exact (hs.named q hq).2
  · obtain ⟨o, ho, rfl⟩ := Option.map_eq_some_iff.mp h
    have hcond := List.find?_some ho
    simp only [Bool.and_eq_true, decide_eq_true_eq] at hcond
    obtain ⟨e, he, hkey, hid, -⟩ := hs.original o (List.mem_of_find?_eq_some ho)
    exact ⟨e, he, hkey, hid.trans hcond.1⟩

/-! ## One call -/

theorem Sound.register (hs : records.Sound originals) {o : Original}
    (hagent : ∀ o' ∈ originals, o'.agentId ≠ o.agentId)
    (hregistry : records'.registry = records.registry)
    (hindex : records.index.register o.publicKey o.agentId o.activeFrom = .ok records'.index) :
    records'.Sound (originals ++ [o]) := by
  obtain ⟨hfresh, hperm⟩ := KeyIndex.register_eq_ok hindex
  have hmem : ∀ e ∈ records.index.entries, e ∈ records'.index.entries := fun e he =>
    hperm.mem_iff.mpr (List.mem_cons_of_mem _ he)
  have hnames : ∀ {key agentId}, records.index.Names key agentId →
      records'.index.Names key agentId := by
    rintro key agentId ⟨e, he, h⟩
    exact ⟨e, hmem e he, h⟩
  refine
    { agents := ?_
      keys := ?_
      ordered := hregistry ▸ hs.ordered
      original := ?_
      source := ?_
      named := ?_
      since := ?_ }
  · rw [List.map_append, List.nodup_append]
    refine ⟨hs.agents, List.nodup_singleton _, ?_⟩
    intro a ha b hb
    obtain ⟨o', ho', rfl⟩ := List.mem_map.mp ha
    rw [List.mem_singleton.mp hb]
    exact hagent o' ho'
  · rw [(hperm.map _).nodup_iff, List.map_cons, List.nodup_cons]
    exact ⟨KeyIndex.containsKey_eq_false hfresh, hs.keys⟩
  · intro o' ho'
    rw [hregistry]
    rcases List.mem_append.mp ho' with ho' | ho'
    · obtain ⟨e, he, h⟩ := hs.original o' ho'
      exact ⟨e, hmem e he, h⟩
    · rw [List.mem_singleton.mp ho']
      exact ⟨_, hperm.mem_iff.mpr List.mem_cons_self, rfl, rfl, rfl, fun _ h => nomatch h⟩
  · intro e he
    rw [hregistry]
    rcases List.mem_cons.mp (hperm.mem_iff.mp he) with rfl | he
    · exact Or.inl ⟨o, List.mem_append_right _ (List.mem_singleton_self o), rfl, rfl, rfl⟩
    · rcases hs.source e he with ⟨o', ho', h⟩ | h
      · exact Or.inl ⟨o', List.mem_append_left _ ho', h⟩
      · exact Or.inr h
  · intro q hq
    rw [hregistry] at hq
    exact ⟨hnames (hs.named q hq).1, hnames (hs.named q hq).2⟩
  · intro q hq
    rw [hregistry] at hq
    obtain ⟨o', ho', h⟩ := hs.since q hq
    exact ⟨o', List.mem_append_left _ ho', h⟩

/-- A rotation that passed the checks, and what it leaves. -/
structure Rotates (records : KeyRecords) (r : KeyRotation) (records' : KeyRecords) : Prop where
  active : records.activeKey r.agentId r.rotationHeight = some r.oldPublicKey
  fresh : records.index.containsKey r.newPublicKey = false
  append : records.registry.append r = .ok records'.registry
  index : ∃ marked, records.index.markSuperseded r.oldPublicKey r.rotationHeight = .ok marked
    ∧ marked.register r.newPublicKey r.agentId r.rotationHeight = .ok records'.index

variable {r : KeyRotation}

theorem Sound.entries_rotate (hs : records.Sound originals) (hr : Rotates records r records') :
    records'.index.entries.Perm (⟨r.newPublicKey, r.agentId, r.rotationHeight, none⟩
      :: records.index.entries.map (KeyIndex.mark r.oldPublicKey r.rotationHeight)) := by
  obtain ⟨marked, hmarked, hregister⟩ := hr.index
  obtain ⟨-, hperm⟩ := KeyIndex.register_eq_ok hregister
  unfold KeyIndex.markSuperseded at hmarked
  split at hmarked
  · rename_i entries hfirst
    cases hmarked
    rwa [KeyIndex.markFirst_eq hs.keys hfirst] at hperm
  · cases hmarked

theorem Sound.names_rotate (hs : records.Sound originals) (hr : Rotates records r records')
    {key : Ed25519PublicKey} {agentId : AgentId} (h : records.index.Names key agentId) :
    records'.index.Names key agentId := by
  obtain ⟨e, he, hkey, hid⟩ := h
  exact ⟨KeyIndex.mark r.oldPublicKey r.rotationHeight e, (hs.entries_rotate hr).mem_iff.mpr
    (List.mem_cons_of_mem _ (List.mem_map_of_mem he)), by simpa using hkey, by simpa using hid⟩

/-- The agent of a rotation registered before its height. -/
theorem Sound.original_of_active (hs : records.Sound originals) {agentId : AgentId}
    {height : UInt64} {key : Ed25519PublicKey} (h : records.activeKey agentId height = some key) :
    ∃ o ∈ originals, o.agentId = agentId ∧ o.activeFrom ≤ height := by
  rw [hs.activeKey_eq] at h
  split at h
  · rename_i q hactive
    have hmem := List.mem_of_getLast? (KeyRotationRegistry.activeRotationAt_eq _ _ _ ▸ hactive)
    obtain ⟨hq, hle⟩ := List.mem_filter.mp hmem
    obtain ⟨hq, hid⟩ := KeyRotationRegistry.mem_rotationsOf.mp hq
    obtain ⟨o, ho, hoid, hfrom⟩ := hs.since q hq
    exact ⟨o, ho, hoid.trans hid, UInt64.le_trans hfrom (of_decide_eq_true hle)⟩
  · obtain ⟨o, ho, -⟩ := Option.map_eq_some_iff.mp h
    have hcond := List.find?_some ho
    simp only [Bool.and_eq_true, decide_eq_true_eq] at hcond
    exact ⟨o, List.mem_of_find?_eq_some ho, hcond⟩

theorem Sound.rotate (hs : records.Sound originals) (hr : Rotates records r records') :
    records'.Sound originals := by
  obtain ⟨hordered, hrotations⟩ := hs.ordered.append hr.append
  have hentries := hs.entries_rotate hr
  have hnames := fun {key agentId} => @Sound.names_rotate _ _ _ _ hs hr key agentId
  have hkeep : ∀ {agentId q}, q ∈ records.registry.rotationsOf agentId →
      q ∈ records'.registry.rotationsOf agentId := by
    intro agentId q hq
    obtain ⟨hmem, hid⟩ := KeyRotationRegistry.mem_rotationsOf.mp hq
    exact KeyRotationRegistry.mem_rotationsOf.mpr
      ⟨hrotations.mem_iff.mpr (List.mem_cons_of_mem _ hmem), hid⟩
  have hself : r ∈ records'.registry.rotationsOf r.agentId :=
    KeyRotationRegistry.mem_rotationsOf.mpr ⟨hrotations.mem_iff.mpr List.mem_cons_self, rfl⟩
  refine
    { agents := hs.agents
      keys := ?_
      ordered := hordered
      original := ?_
      source := ?_
      named := ?_
      since := ?_ }
  · have hmarked : (records.index.entries.map
        (KeyIndex.mark r.oldPublicKey r.rotationHeight)).map KeyIndexEntry.publicKey
        = records.index.entries.map KeyIndexEntry.publicKey := by
      rw [List.map_map]
      exact List.map_congr_left fun e _ => KeyIndex.mark_publicKey _ _ e
    rw [(hentries.map _).nodup_iff, List.map_cons, List.nodup_cons, hmarked]
    exact ⟨KeyIndex.containsKey_eq_false hr.fresh, hs.keys⟩
  · intro o ho
    obtain ⟨e, he, hkey, hid, hfrom, hsuperseded⟩ := hs.original o ho
    refine ⟨KeyIndex.mark r.oldPublicKey r.rotationHeight e, hentries.mem_iff.mpr
      (List.mem_cons_of_mem _ (List.mem_map_of_mem he)), by simpa using hkey, by simpa using hid,
      by simpa using hfrom, fun height hheight => ?_⟩
    unfold KeyIndex.mark at hheight
    split at hheight
    · -- the key that rotates away is the agent's own
      rename_i hold
      have hagent : o.agentId = r.agentId := hs.names_inj ⟨e, he, hold, hid⟩
        (hs.names_activeKey hr.active)
      rw [← Option.some_inj.mp hheight, hagent]
      exact ⟨r, hself, UInt64.le_refl _⟩
    · obtain ⟨q, hq, hle⟩ := hsuperseded height hheight
      exact ⟨q, hkeep hq, hle⟩
  · intro e he
    rcases List.mem_cons.mp (hentries.mem_iff.mp he) with rfl | he
    · exact Or.inr ⟨r, hself, rfl, rfl⟩
    · obtain ⟨e, hold, rfl⟩ := List.mem_map.mp he
      simp only [KeyIndex.mark_publicKey, KeyIndex.mark_agentId, KeyIndex.mark_activeFrom]
      rcases hs.source e hold with h | ⟨q, hq, h⟩
      · exact Or.inl h
      · exact Or.inr ⟨q, hkeep hq, h⟩
  · intro q hq
    rcases List.mem_cons.mp (hrotations.mem_iff.mp hq) with rfl | hq
    · exact ⟨hnames (hs.names_activeKey hr.active),
        ⟨_, hentries.mem_iff.mpr List.mem_cons_self, rfl, rfl⟩⟩
    · exact ⟨hnames (hs.named q hq).1, hnames (hs.named q hq).2⟩
  · intro q hq
    rcases List.mem_cons.mp (hrotations.mem_iff.mp hq) with rfl | hq
    · exact hs.original_of_active hr.active
    · exact hs.since q hq

/-- Where a rotation does not count, the active keys are those before it. -/
theorem Sound.activeKey_rotate (hs : records.Sound originals) (hr : Rotates records r records')
    {agentId : AgentId} {height : UInt64}
    (h : agentId ≠ r.agentId ∨ height < r.rotationHeight
      ∨ ∃ q ∈ records.registry.rotationsOf agentId,
        r.rotationHeight < q.rotationHeight ∧ q.rotationHeight ≤ height) :
    records'.activeKey agentId height = records.activeKey agentId height := by
  have hactive : records'.registry.activeRotationAt agentId height
      = records.registry.activeRotationAt agentId height := by
    by_cases hagent : agentId = r.agentId
    · subst hagent
      exact hs.ordered.activeRotationAt_append hr.append (h.resolve_left fun hne => hne rfl)
    · rw [KeyRotationRegistry.activeRotationAt_eq, KeyRotationRegistry.activeRotationAt_eq,
        hs.ordered.rotationsOf_append_of_ne hr.append (Ne.symm hagent)]
  rw [(hs.rotate hr).activeKey_eq, hs.activeKey_eq, hactive]

/-- Every agent's rotations form a chain that starts with its registered key. -/
def Linear (originals : List Original) (records : KeyRecords) : Prop :=
  ∀ agentId,
    (records.registry.rotationsOf agentId).Pairwise
        (fun a b => a.rotationHeight < b.rotationHeight)
      ∧ (records.registry.rotationsOf agentId = []
        ∨ ∃ o ∈ originals, o.agentId = agentId
          ∧ Successive o.publicKey (records.registry.rotationsOf agentId))

theorem Linear.successive (hlinear : records.Linear originals) (hs : records.Sound originals)
    {o : Original} (ho : o ∈ originals) :
    Successive o.publicKey (records.registry.rotationsOf o.agentId) := by
  rcases (hlinear o.agentId).2 with hnil | ⟨o', ho', hid, hlinked⟩
  · rw [hnil]
    trivial
  · obtain rfl := hs.original_inj ho' ho hid
    exact hlinked

/-- The chain goes on exactly where the rotation is the agent's latest. -/
theorem Sound.linear_rotate_iff (hs : records.Sound originals) (hr : Rotates records r records')
    (hlinear : records.Linear originals) :
    records'.Linear originals
      ↔ ∀ q ∈ records.registry.rotationsOf r.agentId, q.rotationHeight < r.rotationHeight := by
  obtain ⟨o, ho, hid, hfrom⟩ := hs.original_of_active hr.active
  have hlinked := hlinear.successive hs ho
  have happended := hs.ordered.rotationsOf_append hr.append
  rw [hid] at hlinked
  constructor
  · intro hlinear' q hq
    by_contra hnot
    have hne := KeyRotationRegistry.rotationHeight_ne hr.append hq
    have hlater : r.rotationHeight < q.rotationHeight :=
      UInt64.lt_of_le_of_ne (UInt64.not_lt.mp hnot) hne.symm
    have hlinked' := hlinear'.successive (hs.rotate hr) ho
    rw [hid, happended] at hlinked'
    -- the rotation that now follows has an old key that is not the new one
    rcases hhigh : (records.registry.rotationsOf r.agentId).filter
        (fun q => r.rotationHeight < q.rotationHeight) with _ | ⟨next, rest⟩
    · have hmem : q ∈ (records.registry.rotationsOf r.agentId).filter
          (fun q => r.rotationHeight < q.rotationHeight) := by
        simp [hq, hlater]
      rw [hhigh] at hmem
      cases hmem
    · have hnext : next ∈ (records.registry.rotationsOf r.agentId).filter
          (fun q => r.rotationHeight < q.rotationHeight) := by
        rw [hhigh]
        exact List.mem_cons_self
      rw [hhigh, successive_append] at hlinked'
      have hold : next.oldPublicKey = r.newPublicKey := hlinked'.2.2.1
      obtain ⟨hmem, -⟩ := KeyRotationRegistry.mem_rotationsOf.mp (List.mem_of_mem_filter hnext)
      obtain ⟨e, he, hkey, -⟩ := (hs.named next hmem).1
      exact KeyIndex.containsKey_eq_false hr.fresh
        (List.mem_map.mpr ⟨e, he, hkey.trans hold⟩)
  · intro hlast agentId
    refine ⟨(hs.rotate hr).ordered.rotationsOf agentId, ?_⟩
    by_cases hagent : agentId = r.agentId
    · subst hagent
      refine Or.inr ⟨o, ho, hid, ?_⟩
      have hlow : (records.registry.rotationsOf r.agentId).filter
          (fun q => q.rotationHeight < r.rotationHeight)
          = records.registry.rotationsOf r.agentId :=
        List.filter_eq_self.mpr fun q hq => decide_eq_true (hlast q hq)
      have hhigh : (records.registry.rotationsOf r.agentId).filter
          (fun q => r.rotationHeight < q.rotationHeight) = [] := by
        refine List.filter_eq_nil_iff.mpr fun q hq => ?_
        simpa using UInt64.le_of_lt (hlast q hq)
      rw [happended, hlow, hhigh, successive_append]
      refine ⟨hlinked, ?_, trivial⟩
      -- the active key at its height is the last of the chain
      have hactive := hr.active
      have hupto : (records.registry.rotationsOf r.agentId).filter
          (fun q => q.rotationHeight ≤ r.rotationHeight)
          = records.registry.rotationsOf r.agentId :=
        List.filter_eq_self.mpr fun q hq => decide_eq_true (UInt64.le_of_lt (hlast q hq))
      rw [hs.activeKey_eq, KeyRotationRegistry.activeRotationAt_eq, hupto] at hactive
      unfold lastKey
      rcases hq : (records.registry.rotationsOf r.agentId).getLast? with _ | q
      · rw [hq, ← hid, hs.firstKeyAt_eq ho hfrom] at hactive
        exact (Option.some_inj.mp hactive).symm
      · rw [hq] at hactive
        exact (Option.some_inj.mp hactive).symm
    · rw [hs.ordered.rotationsOf_append_of_ne hr.append (Ne.symm hagent)]
      exact (hlinear agentId).2

end KeyRecords

/-! ## Sizes -/

theorem length_keyRotation_enc (r : KeyRotation) :
    (KeyRotation.codec.enc r).length
      = 120 + r.signatureByOldKey.length + r.signatureByNewKey.length := by
  simp [KeyRotation.codec, Codec.blob_enc, Codec.u64]
  omega

theorem length_keyIndexEntry_enc (e : KeyIndexEntry) :
    (KeyIndexEntry.codec.enc e).length = if e.supersededAt.isSome then 81 else 73 := by
  rcases e with ⟨key, agent, activeFrom, _ | height⟩ <;>
    simp [KeyIndexEntry.codec, Codec.u64, Codec.option]

/-- Short enough to be stored, a registry is read back as it was written. -/
theorem ofBytes_registry {registry : KeyRotationRegistry}
    (h : (KeyRotationRegistry.codec.enc registry).length < 2 ^ 64) :
    KeyRotationRegistry.codec.ofBytes (KeyRotationRegistry.codec.enc registry)
      = some registry := by
  have hlist : (KeyRotation.codec.list.enc registry.rotations).length < 2 ^ 64 := h
  have hcount := length_le_list_enc (c := KeyRotation.codec)
    (fun r => by rw [length_keyRotation_enc]; omega) registry.rotations
  refine (Codec.ofBytes_enc_iff _ ?_).mpr ?_
  · simp only [KeyRotationRegistry.codec, Codec.iso_fits, Codec.list_fits]
    refine ⟨by omega, fun r hr => ?_⟩
    have hle := mem_le_list_enc (c := KeyRotation.codec) hr
    rw [length_keyRotation_enc] at hle
    simp only [KeyRotation.codec, Codec.iso_fits, Codec.pair_fits, Codec.bytes_fits,
      Codec.u64_fits, Codec.blob_fits, true_and]
    omega
  · simp [KeyRotationRegistry.codec, KeyRotation.codec]

theorem ofBytes_index {index : KeyIndex} (h : (KeyIndex.codec.enc index).length < 2 ^ 64) :
    KeyIndex.codec.ofBytes (KeyIndex.codec.enc index) = some index := by
  have hlist : (KeyIndexEntry.codec.list.enc index.entries).length < 2 ^ 64 := h
  have hcount := length_le_list_enc (c := KeyIndexEntry.codec)
    (fun e => by rw [length_keyIndexEntry_enc]; split <;> omega) index.entries
  refine (Codec.ofBytes_enc_iff _ ?_).mpr ?_
  · simp only [KeyIndex.codec, Codec.iso_fits, Codec.list_fits]
    exact ⟨by omega, fun e _ => by simp [KeyIndexEntry.codec]⟩
  · simp [KeyIndex.codec, KeyIndexEntry.codec]

/-- Marking takes eight bytes, once. -/
theorem length_enc_mark {entries : List KeyIndexEntry} (publicKey : Ed25519PublicKey)
    (supersededAt : UInt64) (hkeys : (entries.map KeyIndexEntry.publicKey).Nodup) :
    (KeyIndexEntry.codec.list.enc (entries.map (KeyIndex.mark publicKey supersededAt))).length
      ≤ (KeyIndexEntry.codec.list.enc entries).length + 8 := by
  induction entries with
  | nil => simp
  | cons e rest ih =>
      rw [List.map_cons, List.nodup_cons] at hkeys
      rw [List.map_cons, length_list_enc_cons, length_list_enc_cons, length_keyIndexEntry_enc,
        length_keyIndexEntry_enc]
      by_cases hkey : e.publicKey = publicKey
      · rw [KeyIndex.map_mark_of_not_mem (hkey ▸ hkeys.1), KeyIndex.mark, if_pos hkey]
        dsimp only
        split <;> split <;> omega
      · have hle := ih hkeys.2
        rw [KeyIndex.mark, if_neg hkey]
        omega

/-! ## In the trie -/

/-- What a state holds of the two records. -/
def KeyRecords.In (records : KeyRecords) (state : ManagedWorldState) : Prop :=
  keyRotationRegistryFromTrie state = .ok records.registry
    ∧ keyIndexFromTrie state = .ok records.index

namespace KeyRecords

theorem In.unique {records records' : KeyRecords} {state : ManagedWorldState}
    (h : records.In state) (h' : records'.In state) : records = records' := by
  have hregistry := Except.ok.inj (h.1.symm.trans h'.1)
  have hindex := Except.ok.inj (h.2.symm.trans h'.2)
  cases records
  cases records'
  exact congrArg₂ KeyRecords.mk hregistry hindex

theorem In.activePublicKey {records : KeyRecords} {state : ManagedWorldState}
    (h : records.In state) (agentId : AgentId) (height : UInt64) :
    activePublicKey state agentId height = .ok (records.activeKey agentId height) := by
  unfold Sccgub.activePublicKey
  rw [h.1, h.2]
  rfl

def registrySize (records : KeyRecords) : Nat :=
  (KeyRotationRegistry.codec.enc records.registry).length

def indexSize (records : KeyRecords) : Nat := (KeyIndex.codec.enc records.index).length

end KeyRecords

theorem keyIndexTrieKey_ne : keyIndexTrieKey ≠ keyRotationsTrieKey := by decide

theorem length_keyRotationsTrieKey : keyRotationsTrieKey.length = 20 := by decide

theorem length_keyIndexTrieKey : keyIndexTrieKey.length = 16 := by decide

theorem commitKeyIndex_eq (state : ManagedWorldState) (index : KeyIndex) :
    commitKeyIndex state index
      = state.writeAll [⟨keyIndexTrieKey, KeyIndex.codec.enc index⟩] :=
  ManagedWorldState.applyDelta_writes _ _

theorem commitKeyRotationRegistry_eq (state : ManagedWorldState)
    (registry : KeyRotationRegistry) :
    commitKeyRotationRegistry state registry
      = state.writeAll [⟨keyRotationsTrieKey, KeyRotationRegistry.codec.enc registry⟩] :=
  ManagedWorldState.applyDelta_writes _ _

theorem in_commitKeyIndex {records : KeyRecords} {state : ManagedWorldState} (index : KeyIndex)
    (h : records.In state) (hlimit : 16 ≤ state.entryLimit)
    (hsize : (KeyIndex.codec.enc index).length ≤ state.entryLimit) :
    KeyRecords.In { records with index } (commitKeyIndex state index) := by
  have hmax := entryLimit_lt state
  rw [commitKeyIndex_eq]
  refine ⟨?_, ?_⟩
  · have hget : (state.writeAll [⟨keyIndexTrieKey, KeyIndex.codec.enc index⟩]).get
        keyRotationsTrieKey = state.get keyRotationsTrieKey := by
      refine get_writeAll_of_ne fun w hw => ?_
      rw [List.mem_singleton.mp hw]
      exact keyIndexTrieKey_ne
    have hregistry := h.1
    unfold keyRotationRegistryFromTrie at hregistry ⊢
    rw [hget]
    exact hregistry
  · unfold keyIndexFromTrie
    rw [get_writeAll_singleton (by rw [length_keyIndexTrieKey]; omega) hsize]
    dsimp only
    rw [ofBytes_index (by omega)]

theorem in_commitKeyRotationRegistry {records : KeyRecords} {state : ManagedWorldState}
    {registry : KeyRotationRegistry} (h : records.In state) (hlimit : 20 ≤ state.entryLimit)
    (hsize : (KeyRotationRegistry.codec.enc registry).length ≤ state.entryLimit) :
    KeyRecords.In { records with registry } (commitKeyRotationRegistry state registry) := by
  have hmax := entryLimit_lt state
  rw [commitKeyRotationRegistry_eq]
  refine ⟨?_, ?_⟩
  · unfold keyRotationRegistryFromTrie
    rw [get_writeAll_singleton (by rw [length_keyRotationsTrieKey]; omega) hsize]
    dsimp only
    rw [ofBytes_registry (by omega)]
  · have hget : (state.writeAll [⟨keyRotationsTrieKey, KeyRotationRegistry.codec.enc registry⟩]).get
        keyIndexTrieKey = state.get keyIndexTrieKey := by
      refine get_writeAll_of_ne fun w hw => ?_
      rw [List.mem_singleton.mp hw]
      exact keyIndexTrieKey_ne.symm
    have hindex := h.2
    unfold keyIndexFromTrie at hindex ⊢
    rw [hget]
    exact hindex

theorem registerOriginalKey_eq_ok {records : KeyRecords} {state state' : ManagedWorldState}
    {agentId : AgentId} {publicKey : Ed25519PublicKey} {activeFrom : UInt64}
    (hin : records.In state)
    (h : registerOriginalKey state agentId publicKey activeFrom = .ok state') :
    ∃ index, records.index.register publicKey agentId activeFrom = .ok index
      ∧ state' = commitKeyIndex state index := by
  unfold registerOriginalKey at h
  rw [hin.2] at h
  simp only [Except.mapError, bind_eq_ok_iff, pure_eq_ok_iff] at h
  obtain ⟨index, hok, index', hregister, rfl⟩ := h
  obtain rfl := Except.ok.inj hok
  refine ⟨index', ?_, rfl⟩
  rcases hreg : records.index.register publicKey agentId activeFrom with e | index''
  · rw [hreg] at hregister
    cases hregister
  · rw [hreg] at hregister
    rw [Except.ok.inj hregister]

section

variable [Crypto]

theorem applyKeyRotation_eq_ok {records : KeyRecords} {state state' : ManagedWorldState}
    {r : KeyRotation} (hin : records.In state) (h : applyKeyRotation state r = .ok state') :
    ∃ records' : KeyRecords, records.Rotates r records'
      ∧ r.signatureByOldKey.length = 64 ∧ r.signatureByNewKey.length = 64
      ∧ state' = commitKeyIndex (commitKeyRotationRegistry state records'.registry)
        records'.index := by
  unfold applyKeyRotation at h
  rw [hin.1, hin.2] at h
  simp only [guard_eq_ok_iff, bind_eq_ok_iff, mapError_eq_ok_iff] at h
  obtain ⟨-, hold, hnew, registry, hregistry, index, hindex, h⟩ := h
  obtain rfl := Except.ok.inj hregistry
  obtain rfl := Except.ok.inj hindex
  simp only [Bool.not_eq_true', Bool.not_eq_false] at hold hnew
  split at h
  · cases h
  · rename_i currentActive hactive
    simp only [guard_eq_ok_iff, bind_eq_ok_iff, mapError_eq_ok_iff, pure_eq_ok_iff] at h
    obtain ⟨hcurrent, hfresh, registry, happend, marked, hmarked, index, hregister, rfl⟩ := h
    obtain rfl := not_not.mp hcurrent
    exact ⟨⟨registry, index⟩, ⟨hactive, by simpa using hfresh, happend, marked, hmarked, hregister⟩,
      length_of_verifyStrict hold, length_of_verifyStrict hnew, rfl⟩

/-! ## Runs -/

inductive KeyCall
  | registerOriginalKey (agentId : AgentId) (publicKey : Ed25519PublicKey) (activeFrom : UInt64)
  | applyKeyRotation (rotation : KeyRotation)

/-- The state, with the registrations that went through. -/
structure KeyLog where
  state : ManagedWorldState
  originals : List Original := []

namespace KeyLog

/-- A call that fails changes nothing. -/
def call (self : KeyLog) : KeyCall → KeyLog
  | .registerOriginalKey agentId publicKey activeFrom =>
      match registerOriginalKey self.state agentId publicKey activeFrom with
      | .ok state => ⟨state, self.originals ++ [⟨agentId, publicKey, activeFrom⟩]⟩
      | .error _ => self
  | .applyKeyRotation rotation =>
      match applyKeyRotation self.state rotation with
      | .ok state => { self with state }
      | .error _ => self

/-- The call goes through. -/
def Accepts (self : KeyLog) : KeyCall → Prop
  | .registerOriginalKey agentId publicKey activeFrom =>
      (registerOriginalKey self.state agentId publicKey activeFrom).isOk = true
  | .applyKeyRotation rotation => (applyKeyRotation self.state rotation).isOk = true

/-- An agent registers once, and the records have room for the entries of the
call: 73 bytes for a key, 8 for the mark on the one before, 248 for a rotation. -/
def HasRoom (self : KeyLog) (call : KeyCall) : Prop :=
  self.Accepts call → ∀ records : KeyRecords, records.In self.state →
    match call with
    | .registerOriginalKey agentId _ _ =>
        (∀ o ∈ self.originals, o.agentId ≠ agentId)
          ∧ records.indexSize + 73 ≤ self.state.entryLimit
    | .applyKeyRotation _ =>
        records.registrySize + 248 ≤ self.state.entryLimit
          ∧ records.indexSize + 81 ≤ self.state.entryLimit

/-- A rotation comes after all others of its agent. -/
def InOrder (self : KeyLog) (call : KeyCall) : Prop :=
  self.Accepts call → ∀ records : KeyRecords, records.In self.state →
    match call with
    | .registerOriginalKey _ _ _ => True
    | .applyKeyRotation rotation =>
        ∀ q ∈ records.registry.rotationsOf rotation.agentId,
          q.rotationHeight < rotation.rotationHeight

def Sound (self : KeyLog) : Prop :=
  ∃ records : KeyRecords, records.In self.state ∧ records.Sound self.originals

def Linear (self : KeyLog) : Prop :=
  ∃ records : KeyRecords, records.In self.state ∧ records.Linear self.originals

/-- The index binds a key to an agent. -/
def Binds (self : KeyLog) (publicKey : Ed25519PublicKey) (agentId : AgentId) : Prop :=
  ∃ records : KeyRecords, records.In self.state ∧ records.index.Names publicKey agentId

/-- A rotation leaves the active keys below its height and from a later rotation
on, and those of other agents. -/
def KeepsActive (self : KeyLog) (call : KeyCall) : Prop :=
  match call with
  | .registerOriginalKey _ _ _ => True
  | .applyKeyRotation r =>
      self.Accepts call → ∀ agentId height,
        (agentId ≠ r.agentId ∨ height < r.rotationHeight
          ∨ ∃ registry, keyRotationRegistryFromTrie self.state = .ok registry
            ∧ ∃ q ∈ registry.rotationsOf agentId,
              r.rotationHeight < q.rotationHeight ∧ q.rotationHeight ≤ height) →
        activePublicKey (self.call call).state agentId height
          = activePublicKey self.state agentId height

variable {log : KeyLog} {records : KeyRecords} {c : KeyCall}

/-- What a call can do. -/
theorem call_cases (hin : records.In log.state) (hs : records.Sound log.originals)
    (hroom : log.HasRoom c) :
    (¬ log.Accepts c ∧ log.call c = log)
      ∨ (∃ o : Original, c = .registerOriginalKey o.agentId o.publicKey o.activeFrom
        ∧ (∀ o' ∈ log.originals, o'.agentId ≠ o.agentId)
        ∧ (log.call c).originals = log.originals ++ [o]
        ∧ ∃ index, records.index.register o.publicKey o.agentId o.activeFrom = .ok index
          ∧ KeyRecords.In { records with index } (log.call c).state)
      ∨ ∃ r, c = .applyKeyRotation r ∧ log.Accepts c
        ∧ (log.call c).originals = log.originals
        ∧ ∃ records' : KeyRecords, records.Rotates r records'
          ∧ records'.In (log.call c).state := by
  cases c with
  | registerOriginalKey agentId publicKey activeFrom =>
      rcases hcall : registerOriginalKey log.state agentId publicKey activeFrom with e | state
      · refine Or.inl ⟨fun haccepts => ?_, by simp only [KeyLog.call, hcall]⟩
        rw [Accepts, hcall] at haccepts
        cases haccepts
      · obtain ⟨hagent, hsize⟩ := hroom (by rw [Accepts, hcall]; rfl) records hin
        obtain ⟨index, hregister, rfl⟩ := registerOriginalKey_eq_ok hin hcall
        refine Or.inr (Or.inl ⟨⟨agentId, publicKey, activeFrom⟩, rfl, hagent, ?_, index, hregister,
          ?_⟩)
        · simp only [KeyLog.call, hcall]
        · have hlength : (KeyIndex.codec.enc index).length = records.indexSize + 73 := by
            obtain ⟨-, hperm⟩ := KeyIndex.register_eq_ok hregister
            show (KeyIndexEntry.codec.list.enc index.entries).length = _
            rw [length_list_enc_of_perm hperm, length_list_enc_cons, length_keyIndexEntry_enc]
            rfl
          have hlimit : 16 ≤ log.state.entryLimit := by omega
          simp only [KeyLog.call, hcall]
          exact in_commitKeyIndex _ hin hlimit (by omega)
  | applyKeyRotation r =>
      rcases hcall : applyKeyRotation log.state r with e | state
      · refine Or.inl ⟨fun haccepts => ?_, by simp only [KeyLog.call, hcall]⟩
        rw [Accepts, hcall] at haccepts
        cases haccepts
      · have haccepts : log.Accepts (.applyKeyRotation r) := by
          rw [Accepts, hcall]
          rfl
        obtain ⟨hregistrySize, hindexSize⟩ := hroom haccepts records hin
        obtain ⟨records', hr, hold, hnew, rfl⟩ := applyKeyRotation_eq_ok hin hcall
        refine Or.inr (Or.inr ⟨r, rfl, haccepts, ?_, records', hr, ?_⟩)
        · simp only [KeyLog.call, hcall]
        · have hregistry : (KeyRotationRegistry.codec.enc records'.registry).length
              = records.registrySize + 248 := by
            show (KeyRotation.codec.list.enc records'.registry.rotations).length = _
            rw [length_list_enc_of_perm (hs.ordered.append hr.append).2, length_list_enc_cons,
              length_keyRotation_enc, hold, hnew]
            rfl
          have hindex : (KeyIndex.codec.enc records'.index).length ≤ records.indexSize + 81 := by
            show (KeyIndexEntry.codec.list.enc records'.index.entries).length ≤ _
            rw [length_list_enc_of_perm (hs.entries_rotate hr), length_list_enc_cons,
              length_keyIndexEntry_enc]
            have hmark := length_enc_mark r.oldPublicKey r.rotationHeight hs.keys
            have hsize : (KeyIndexEntry.codec.list.enc records.index.entries).length
                = records.indexSize := rfl
            simp only [Option.isSome_none, Bool.false_eq_true, if_false]
            omega
          simp only [KeyLog.call, hcall]
          have hcommitted : KeyRecords.In { records with registry := records'.registry }
              (commitKeyRotationRegistry log.state records'.registry) :=
            in_commitKeyRotationRegistry hin (by omega) (by omega)
          have hlimit : (commitKeyRotationRegistry log.state records'.registry).entryLimit
              = log.state.entryLimit := by
            rw [commitKeyRotationRegistry_eq]
            rfl
          have hboth := in_commitKeyIndex records'.index hcommitted (by omega) (by omega)
          exact hboth

theorem Sound.step (hs : log.Sound) (hroom : log.HasRoom c) : (log.call c).Sound := by
  obtain ⟨records, hin, hsound⟩ := hs
  rcases call_cases hin hsound hroom with ⟨-, hcall⟩ | ⟨o, -, hagent, horiginals, index, hregister,
    hin'⟩ | ⟨r, -, -, horiginals, records', hr, hin'⟩
  · rw [hcall]
    exact ⟨records, hin, hsound⟩
  · refine ⟨_, hin', ?_⟩
    rw [horiginals]
    exact hsound.register hagent rfl hregister
  · refine ⟨records', hin', ?_⟩
    rw [horiginals]
    exact hsound.rotate hr

theorem Sound.binds_call (hs : log.Sound) (hroom : log.HasRoom c)
    {publicKey : Ed25519PublicKey} {agentId : AgentId} (h : log.Binds publicKey agentId) :
    (log.call c).Binds publicKey agentId := by
  obtain ⟨records, hin, hsound⟩ := hs
  obtain ⟨bound, hbound, hnames⟩ := h
  obtain rfl := hbound.unique hin
  rcases call_cases hin hsound hroom with ⟨-, hcall⟩ | ⟨o, -, -, -, index, hregister, hin'⟩
    | ⟨r, -, -, -, records', hr, hin'⟩
  · rw [hcall]
    exact ⟨bound, hin, hnames⟩
  · obtain ⟨e, he, hkey⟩ := hnames
    refine ⟨_, hin', e, ?_, hkey⟩
    exact (KeyIndex.register_eq_ok hregister).2.mem_iff.mpr (List.mem_cons_of_mem _ he)
  · exact ⟨records', hin', hsound.names_rotate hr hnames⟩

theorem Sound.keepsActive (hs : log.Sound) (hroom : log.HasRoom c) : log.KeepsActive c := by
  obtain ⟨records, hin, hsound⟩ := hs
  cases c with
  | registerOriginalKey agentId publicKey activeFrom => trivial
  | applyKeyRotation r =>
      intro haccepts agentId height hcond
      rcases call_cases hin hsound hroom with ⟨hno, -⟩ | ⟨o, hcall, -⟩
        | ⟨r', hcall, -, -, records', hr, hin'⟩
      · exact absurd haccepts hno
      · cases hcall
      · cases hcall
        rw [hin'.activePublicKey, hin.activePublicKey, hsound.activeKey_rotate hr]
        rcases hcond with hne | hlow | ⟨registry, hregistry, q, hq, hlater⟩
        · exact Or.inl hne
        · exact Or.inr (Or.inl hlow)
        · rw [hin.1] at hregistry
          rw [← Except.ok.inj hregistry] at hq
          exact Or.inr (Or.inr ⟨q, hq, hlater⟩)

theorem Sound.linear_call_iff (hs : log.Sound) (hroom : log.HasRoom c) (hlinear : log.Linear) :
    (log.call c).Linear ↔ log.InOrder c := by
  obtain ⟨records, hin, hsound⟩ := hs
  obtain ⟨linear, hin', hlinear⟩ := hlinear
  obtain rfl := hin'.unique hin
  rcases call_cases hin hsound hroom with ⟨hno, hcall⟩ | ⟨o, rfl, hagent, horiginals, index,
    hregister, hafter⟩ | ⟨r, rfl, haccepts, horiginals, records', hr, hafter⟩
  · rw [hcall]
    exact ⟨fun _ haccepts => absurd haccepts hno, fun _ => ⟨linear, hin, hlinear⟩⟩
  · refine ⟨fun _ _ _ _ => trivial, fun _ => ⟨_, hafter, fun agentId => ⟨(hlinear agentId).1, ?_⟩⟩⟩
    rw [horiginals]
    rcases (hlinear agentId).2 with hnil | ⟨o', ho', h⟩
    · exact Or.inl hnil
    · exact Or.inr ⟨o', List.mem_append_left _ ho', h⟩
  · have hiff := hsound.linear_rotate_iff hr hlinear
    constructor
    · rintro ⟨final, hfinal, hlinear'⟩ - before hbefore
      obtain rfl := hfinal.unique hafter
      obtain rfl := hbefore.unique hin
      rw [horiginals] at hlinear'
      exact hiff.mp hlinear'
    · intro horder
      refine ⟨records', hafter, ?_⟩
      rw [horiginals]
      exact hiff.mpr (horder haccepts _ hin)

theorem Sound.run {calls : List KeyCall} (hs : log.Sound)
    (hroom : Along KeyLog.call HasRoom log calls) : (calls.foldl KeyLog.call log).Sound := by
  induction calls generalizing log with
  | nil => exact hs
  | cons call calls ih => exact ih (hs.step hroom.1) hroom.2

theorem Sound.binds_run {calls : List KeyCall} (hs : log.Sound)
    (hroom : Along KeyLog.call HasRoom log calls) {publicKey : Ed25519PublicKey}
    {agentId : AgentId} (h : log.Binds publicKey agentId) :
    (calls.foldl KeyLog.call log).Binds publicKey agentId := by
  induction calls generalizing log with
  | nil => exact h
  | cons call calls ih => exact ih (hs.step hroom.1) hroom.2 (hs.binds_call hroom.1 h)

omit [Crypto] in
theorem Sound.binds_inj (hs : log.Sound) {publicKey : Ed25519PublicKey} {agentId agentId' : AgentId}
    (h : log.Binds publicKey agentId) (h' : log.Binds publicKey agentId') :
    agentId = agentId' := by
  obtain ⟨records, hin, hsound⟩ := hs
  obtain ⟨bound, hbound, hnames⟩ := h
  obtain ⟨bound', hbound', hnames'⟩ := h'
  obtain rfl := hbound.unique hin
  obtain rfl := hbound'.unique hin
  exact hsound.names_inj hnames hnames'

omit [Crypto] in
theorem Sound.binds_active (hs : log.Sound) {agentId : AgentId} {height : UInt64}
    {publicKey : Ed25519PublicKey}
    (h : activePublicKey log.state agentId height = .ok (some publicKey)) :
    log.Binds publicKey agentId := by
  obtain ⟨records, hin, hsound⟩ := hs
  rw [hin.activePublicKey] at h
  exact ⟨records, hin, hsound.names_activeKey (Except.ok.inj h)⟩

/-- Over any run that has room: a key has one agent, and keeps it; a rotation
changes the active keys only where it is the latest; and the rotations of every
agent form a chain, in every state of the run, exactly if each comes after those
its agent has. -/
theorem linear_throughout_iff {start : ManagedWorldState}
    (hrotations : start.get keyRotationsTrieKey = none) (hindex : start.get keyIndexTrieKey = none)
    (calls : List KeyCall) (hroom : Along KeyLog.call HasRoom ⟨start, []⟩ calls) :
    (∀ before after, calls = before ++ after →
        let log := before.foldl KeyLog.call ⟨start, []⟩
        (∀ publicKey agentId agentId', log.Binds publicKey agentId →
            log.Binds publicKey agentId' → agentId = agentId')
          ∧ (∀ publicKey agentId, log.Binds publicKey agentId →
            (calls.foldl KeyLog.call ⟨start, []⟩).Binds publicKey agentId)
          ∧ ∀ agentId height publicKey,
            activePublicKey log.state agentId height = .ok (some publicKey) →
            log.Binds publicKey agentId)
      ∧ Along KeyLog.call KeepsActive ⟨start, []⟩ calls
      ∧ (Throughout KeyLog.call Linear ⟨start, []⟩ calls
        ↔ Along KeyLog.call InOrder ⟨start, []⟩ calls) := by
  have hin : KeyRecords.In {} start := by
    refine ⟨?_, ?_⟩
    · rw [keyRotationRegistryFromTrie, hrotations]
    · rw [keyIndexFromTrie, hindex]
  have hstart : Sound ⟨start, []⟩ := ⟨{}, hin, KeyRecords.sound_empty⟩
  have hlinear : Linear ⟨start, []⟩ := ⟨{}, hin, fun _ => ⟨List.Pairwise.nil, Or.inl rfl⟩⟩
  refine ⟨?_, ?_, ?_⟩
  · rintro before after rfl log
    obtain ⟨hbefore, hafter⟩ := along_append.mp hroom
    have hs : log.Sound := hstart.run hbefore
    refine ⟨fun _ _ _ => hs.binds_inj, fun publicKey agentId h => ?_, fun _ _ _ => hs.binds_active⟩
    rw [List.foldl_append]
    exact hs.binds_run hafter h
  · exact along_of_invariant (fun _ _ hs => hs.step) (fun _ _ hs => hs.keepsActive) hstart hroom
  · exact throughout_iff_along_of (fun _ _ hs => hs.step) (fun _ _ hs => hs.linear_call_iff) hstart
      hroom hlinear

end KeyLog

end

/-! ## A rotation that arrives late -/

namespace KeyLog

def agent : AgentId := Hash.ofByte 7

def keyA : Hash := Hash.ofByte 3

def keyB : Hash := Hash.ofByte 4

def keyC : Hash := Hash.ofByte 5

/-- Signed by both keys, as the small instance of the packages has it. -/
def signedRotation (oldPublicKey newPublicKey : Hash) (rotationHeight : UInt64) : KeyRotation where
  agentId := agent
  oldPublicKey
  newPublicKey
  rotationHeight
  signatureByOldKey := oldPublicKey.toList ++ (polyCrypto.polyDigest
    (KeyRotation.canonicalRotationBytes agent oldPublicKey newPublicKey rotationHeight)).toList
  signatureByNewKey := newPublicKey.toList ++ (polyCrypto.polyDigest
    (KeyRotation.canonicalRotationBytes agent oldPublicKey newPublicKey rotationHeight)).toList

/-- From A to B at 100, and then from A to C at 50. -/
def lateCalls : List KeyCall :=
  [.registerOriginalKey agent keyA 0, .applyKeyRotation (signedRotation keyA keyB 100),
    .applyKeyRotation (signedRotation keyA keyC 50)]

/-- Both rotations stand, and B does not follow C. -/
theorem late_rotation_not_linear :
    keyRotationRegistryFromTrie (lateCalls.foldl (@KeyLog.call polyCrypto) ⟨{}, []⟩).state
        = .ok ⟨[signedRotation keyA keyC 50, signedRotation keyA keyB 100]⟩
      ∧ ¬ Throughout (@KeyLog.call polyCrypto) Linear ⟨{}, []⟩ lateCalls := by
  have hregistry : keyRotationRegistryFromTrie
      (lateCalls.foldl (@KeyLog.call polyCrypto) ⟨{}, []⟩).state
      = .ok ⟨[signedRotation keyA keyC 50, signedRotation keyA keyB 100]⟩ := by
    decide +kernel
  refine ⟨hregistry, fun h => ?_⟩
  obtain ⟨records, ⟨hin, -⟩, hlinear⟩ := h.last
  have hrecords : records.registry
      = ⟨[signedRotation keyA keyC 50, signedRotation keyA keyB 100]⟩ :=
    Except.ok.inj (hin.symm.trans hregistry)
  rcases (hlinear agent).2 with hnil | ⟨o, -, -, hlinked⟩
  · rw [hrecords] at hnil
    exact absurd hnil (by decide +kernel)
  · have hof : records.registry.rotationsOf agent
        = [signedRotation keyA keyC 50, signedRotation keyA keyB 100] := by
      rw [hrecords]
      decide +kernel
    rw [hof] at hlinked
    exact absurd hlinked.2.1 (by decide +kernel)

/-- From A to B and on to C. -/
def orderlyCalls : List KeyCall :=
  [.registerOriginalKey agent keyA 0, .applyKeyRotation (signedRotation keyA keyB 100),
    .applyKeyRotation (signedRotation keyB keyC 200)]

theorem linear_throughout_iff_orderly :
    Along (@KeyLog.call polyCrypto) (@HasRoom polyCrypto) ⟨{}, []⟩ orderlyCalls
      ∧ Throughout (@KeyLog.call polyCrypto) Linear ⟨{}, []⟩ orderlyCalls := by
  have hfirst : KeyRecords.In {} ({} : ManagedWorldState) := by
    unfold KeyRecords.In
    decide +kernel
  have hsecond : KeyRecords.In ⟨⟨[]⟩, ⟨[⟨keyA, agent, 0, none⟩]⟩⟩
      (@KeyLog.call polyCrypto ⟨{}, []⟩ (.registerOriginalKey agent keyA 0)).state := by
    unfold KeyRecords.In
    decide +kernel
  have hthird : KeyRecords.In ⟨⟨[signedRotation keyA keyB 100]⟩,
      ⟨[⟨keyA, agent, 0, some 100⟩, ⟨keyB, agent, 100, none⟩]⟩⟩
      (@KeyLog.call polyCrypto (@KeyLog.call polyCrypto ⟨{}, []⟩
        (.registerOriginalKey agent keyA 0))
        (.applyKeyRotation (signedRotation keyA keyB 100))).state := by
    unfold KeyRecords.In
    decide +kernel
  have hroom : Along (@KeyLog.call polyCrypto) (@HasRoom polyCrypto) ⟨{}, []⟩ orderlyCalls := by
    refine ⟨fun _ records hin => ?_, fun _ records hin => ?_, fun _ records hin => ?_, trivial⟩
    · rw [hin.unique hfirst]
      exact ⟨List.forall_mem_nil _, by decide +kernel⟩
    · rw [hin.unique hsecond]
      exact ⟨by decide +kernel, by decide +kernel⟩
    · rw [hin.unique hthird]
      exact ⟨by decide +kernel, by decide +kernel⟩
  have horder : Along (@KeyLog.call polyCrypto) (@InOrder polyCrypto) ⟨{}, []⟩ orderlyCalls := by
    refine ⟨fun _ records hin => trivial, fun _ records hin => ?_, fun _ records hin => ?_, trivial⟩
    · rw [hin.unique hsecond]
      decide +kernel
    · rw [hin.unique hthird]
      decide +kernel
  exact ⟨hroom, (@linear_throughout_iff polyCrypto {} (by decide +kernel) (by decide +kernel)
    orderlyCalls hroom).2.2.mpr horder⟩

end KeyLog

end Sccgub
