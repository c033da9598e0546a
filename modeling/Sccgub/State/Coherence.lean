import Mathlib
import Sccgub.OrderedMap
import Sccgub.State.Apply

/-!
# Ledger and treasury in the trie

`balancesFromTrie` and `treasuryFromTrie` read the two back from the trie.  This
module says when they succeed and with what, and that committing the accounts
that changed keeps the ledger and its image in the trie together.

The account keys are hexadecimal and the reader takes digits of both cases.  Of
all keys that name one account the lower-case one is the greatest, so it is read
last and counts; it is also the one that is written.
-/

namespace Sccgub

open Bincode FixedWidth WriteThrough

/-! ## Reading in a loop -/

theorem forall_mem_toList_iff {state : ManagedWorldState} {P : Bytes × Bytes → Prop} :
    (∀ e ∈ state.trie.store.toList, P e) ↔
      ∀ key value, state.get key = some value → P (key, value) := by
  constructor
  · intro h key value hget
    exact h (key, value) (Std.ExtTreeMap.mem_toList_iff_getElem?_eq_some.mpr hget)
  · rintro h ⟨key, value⟩ hmem
    exact h key value (Std.ExtTreeMap.mem_toList_iff_getElem?_eq_some.mp hmem)

/-! ## Keys of accounts -/

theorem hexDigit_of_lt {n : UInt8} (h : n.toNat < 10) : (hexDigit n).toNat = 48 + n.toNat := by
  have hlt : n < 10 := UInt8.lt_iff_toNat_lt.mpr h
  simp only [hexDigit, if_pos hlt, UInt8.toNat_add, UInt8.reduceToNat]
  omega

theorem hexDigit_of_le {n : UInt8} (h : 10 ≤ n.toNat) (h' : n.toNat < 16) :
    (hexDigit n).toNat = 87 + n.toNat := by
  have hlt : ¬ n < 10 := fun hn => absurd (UInt8.lt_iff_toNat_lt.mp hn) (Nat.not_lt.mpr h)
  simp only [hexDigit, if_neg hlt, UInt8.toNat_add, UInt8.reduceToNat]
  omega

theorem hexValue_spec {c v : UInt8} (h : hexValue c = some v) :
    v.toNat < 16 ∧ c ≤ hexDigit v := by
  rw [UInt8.le_iff_toNat_le]
  unfold hexValue at h
  simp only [Bool.and_eq_true, decide_eq_true_eq, UInt8.le_iff_toNat_le, UInt8.reduceToNat] at h
  have hsub : ∀ k : UInt8, k.toNat ≤ c.toNat → (c - k).toNat = c.toNat - k.toNat := fun k hk =>
    UInt8.toNat_sub_of_le _ _ (UInt8.le_iff_toNat_le.mpr hk)
  split_ifs at h with h₁ h₂ h₃
  · obtain rfl := Option.some_inj.mp h
    have hv := hsub 48 h₁.1
    simp only [UInt8.reduceToNat] at hv
    rw [hexDigit_of_lt (by omega)]
    omega
  · obtain rfl := Option.some_inj.mp h
    have hv := hsub 87 (by simp only [UInt8.reduceToNat]; omega)
    simp only [UInt8.reduceToNat] at hv
    rw [hexDigit_of_le (by omega) (by omega)]
    omega
  · obtain rfl := Option.some_inj.mp h
    have hv := hsub 55 (by simp only [UInt8.reduceToNat]; omega)
    simp only [UInt8.reduceToNat] at hv
    rw [hexDigit_of_le (by omega) (by omega)]
    omega

theorem hexValue_hexDigit {n : UInt8} (h : n.toNat < 16) : hexValue (hexDigit n) = some n := by
  have hall : ∀ k < 16, hexValue (hexDigit (UInt8.ofNat k)) = some (UInt8.ofNat k) := by
    decide +kernel
  have hn : UInt8.ofNat n.toNat = n := UInt8.ofNat_toNat
  have := hall n.toNat h
  rwa [hn] at this

theorem hexDecode_hexBytes (bs : Bytes) : hexDecode (hexBytes bs) = some bs := by
  induction bs with
  | nil => rfl
  | cons b rest ih =>
      have hhi : (b / 16).toNat < 16 := by
        have := b.toNat_lt
        simp only [UInt8.toNat_div, UInt8.reduceToNat]
        omega
      have hlo : (b % 16).toNat < 16 := by
        simp only [UInt8.toNat_mod, UInt8.reduceToNat]
        omega
      have hcons : hexBytes (b :: rest)
          = hexDigit (b / 16) :: hexDigit (b % 16) :: hexBytes rest := rfl
      have hback : b / 16 * 16 + b % 16 = b := by
        apply UInt8.toNat_inj.mp
        have := b.toNat_lt
        simp only [UInt8.toNat_add, UInt8.toNat_mul, UInt8.toNat_div, UInt8.toNat_mod,
          UInt8.reduceToNat]
        omega
      rw [hcons, hexDecode, hexValue_hexDigit hhi, hexValue_hexDigit hlo, ih]
      show some ((b / 16 * 16 + b % 16) :: rest) = _
      rw [hback]

theorem compare_append_left (p x y : Bytes) : compare (p ++ x) (p ++ y) = compare x y := by
  induction p with
  | nil => rfl
  | cons b rest ih =>
      rw [List.cons_append, List.cons_append]
      simp [ih]

theorem compare_cons_ne_lt {x y : UInt8} {xs ys : Bytes} (h : y ≤ x)
    (hrest : compare xs ys ≠ .lt) : compare (x :: xs) (y :: ys) ≠ .lt := by
  rw [List.compare_cons_cons]
  rcases hxy : compare x y with _ | _ | _
  · simp [compare, compareOfLessAndEq, UInt8.not_lt.mpr h] at hxy
  · exact hrest
  · exact fun hlt => nomatch hlt

/-- Lower case is the greatest spelling. -/
theorem compare_hexBytes_ne_lt {key bs : Bytes} (h : hexDecode key = some bs) :
    compare (hexBytes bs) key ≠ .lt := by
  fun_induction hexDecode key generalizing bs with
  | case1 =>
      cases h
      decide
  | case2 => cases h
  | case3 hi lo rest ih =>
      rcases hh : hexValue hi with _ | v
      · rw [hh] at h
        cases h
      · rcases hl : hexValue lo with _ | w
        · rw [hh, hl] at h
          cases h
        · rcases hr : hexDecode rest with _ | tail
          · rw [hh, hl, hr] at h
            cases h
          · rw [hh, hl, hr] at h
            obtain rfl : (v * 16 + w) :: tail = bs := Option.some_inj.mp h
            obtain ⟨hv, hhi⟩ := hexValue_spec hh
            obtain ⟨hw, hlo⟩ := hexValue_spec hl
            have hdiv : (v * 16 + w) / 16 = v := by
              apply UInt8.toNat_inj.mp
              simp only [UInt8.toNat_add, UInt8.toNat_mul, UInt8.toNat_div, UInt8.reduceToNat]
              omega
            have hmod : (v * 16 + w) % 16 = w := by
              apply UInt8.toNat_inj.mp
              simp only [UInt8.toNat_add, UInt8.toNat_mul, UInt8.toNat_mod, UInt8.reduceToNat]
              omega
            show compare (hexDigit ((v * 16 + w) / 16) :: hexDigit ((v * 16 + w) % 16)
              :: hexBytes tail) (hi :: lo :: rest) ≠ .lt
            rw [hdiv, hmod]
            exact compare_cons_ne_lt hhi (compare_cons_ne_lt hlo (ih hr))

/-- The account that a key names. -/
def balanceAgent (key : Bytes) : Option Hash :=
  if startsWith key nsBalance then
    match hexDecode (key.drop nsBalance.length) with
    | some agentBytes => if h : agentBytes.length = 32 then some ⟨agentBytes, h⟩ else none
    | none => none
  else none

def decodeBalance (value : Bytes) : TensionValue := ⟨I128.ofBits (ofLeBytes value)⟩

theorem startsWith_append (p x : Bytes) : startsWith (p ++ x) p = true := by
  simp [startsWith]

theorem startsWith_balanceKey (a : Hash) : startsWith (balanceKey a) nsBalance = true :=
  startsWith_append _ _

theorem balanceAgent_balanceKey (a : Hash) : balanceAgent (balanceKey a) = some a := by
  rw [balanceAgent, if_pos (startsWith_balanceKey a), balanceKey, List.drop_left,
    hexDecode_hexBytes]
  exact dif_pos a.toList_length

theorem balanceKey_inj {a b : Hash} (h : balanceKey a = balanceKey b) : a = b := by
  have hagent := balanceAgent_balanceKey a
  rw [h, balanceAgent_balanceKey, Option.some_inj] at hagent
  exact hagent.symm

/-- Every key that names an account is at most the one that is written. -/
theorem compare_balanceKey_ne_lt {key : Bytes} {a : Hash} (h : balanceAgent key = some a) :
    compare (balanceKey a) key ≠ .lt := by
  unfold balanceAgent at h
  split at h
  · rename_i hstart
    split at h
    · rename_i agentBytes hdec
      split at h
      · obtain rfl := Option.some_inj.mp h
        obtain ⟨rest, rfl⟩ := List.isPrefixOf_iff_prefix.mp hstart
        rw [List.drop_left] at hdec
        show compare (nsBalance ++ hexBytes agentBytes) (nsBalance ++ rest) ≠ .lt
        rw [compare_append_left]
        exact compare_hexBytes_ne_lt hdec
      · cases h
    · cases h
  · cases h

theorem decodeBalance_leBytes (v : TensionValue) :
    decodeBalance (leBytes 16 v.raw.toBits) = v := by
  rw [decodeBalance, ofLeBytes_leBytes v.raw.toBits_lt, I128.ofBits_toBits]

/-! ## Reading the ledger -/

/-- An entry that the reader takes. -/
def BalanceEntryOk (e : Bytes × Bytes) : Prop :=
  startsWith e.1 nsBalance = true → e.2.length = 16 ∧ (balanceAgent e.1).isSome

def importEntry (balances : BalanceLedger) (e : Bytes × Bytes) : BalanceLedger :=
  match balanceAgent e.1 with
  | some a => balances.importBalance a (decodeBalance e.2)
  | none => balances

theorem readBalanceEntry_eq_ok_iff (balances : BalanceLedger) (e : Bytes × Bytes)
    (balances' : BalanceLedger) :
    readBalanceEntry balances e = .ok balances' ↔
      BalanceEntryOk e ∧ balances' = importEntry balances e := by
  obtain ⟨key, value⟩ := e
  unfold readBalanceEntry BalanceEntryOk importEntry balanceAgent
  by_cases hstart : startsWith key nsBalance = true
  · by_cases hlen : value.length = 16
    · rcases hdec : hexDecode (key.drop nsBalance.length) with _ | agentBytes
      · simp [hstart, hlen, hdec]
      · by_cases hagent : agentBytes.length = 32
        · simp only [hstart, hlen, hdec, hagent, decodeBalance, Bool.not_true, Bool.false_eq_true,
            if_false, if_true, ne_eq, not_true_eq_false, dite_true, Except.ok.injEq]
          exact ⟨fun h => ⟨fun _ => ⟨trivial, rfl⟩, h.symm⟩, fun h => h.2.symm⟩
        · simp [hstart, hlen, hdec, hagent]
    · simp [hstart, hlen]
  · simp [hstart, eq_comm]

/-- The entries that name an account, in order. -/
def entriesOf (state : ManagedWorldState) (a : Hash) : List (Bytes × Bytes) :=
  state.trie.store.toList.filter fun e => balanceAgent e.1 = some a

theorem getElem?_foldl_importEntry (l : List (Bytes × Bytes)) (balances : BalanceLedger)
    (a : Hash) :
    (l.foldl importEntry balances).balances[a]?
      = ((l.filter fun e => balanceAgent e.1 = some a).getLast?.map
          fun e => decodeBalance e.2).or balances.balances[a]? := by
  induction l using List.reverseRecOn with
  | nil => rfl
  | append_singleton l e ih =>
      rw [List.foldl_append, List.foldl_cons, List.foldl_nil, List.filter_append, importEntry]
      rcases hagent : balanceAgent e.1 with _ | b
      · simp [hagent, ih]
      · by_cases hab : b = a
        · subst hab
          simp [hagent, BalanceLedger.importBalance]
        · have hcmp : compare b a ≠ .eq := fun hc => hab (Std.LawfulEqCmp.eq_of_compare hc)
          simp [hagent, hab, BalanceLedger.importBalance, Std.ExtTreeMap.getElem?_insert, hcmp, ih]

/-- When the reader succeeds, and what it reads. -/
theorem balancesFromTrie_eq_ok_iff {state : ManagedWorldState} {balances : BalanceLedger} :
    balancesFromTrie state = .ok balances ↔
      (∀ key value, state.get key = some value → BalanceEntryOk (key, value))
        ∧ ∀ a : Hash, balances.balances[a]?
          = (entriesOf state a).getLast?.map fun e => decodeBalance e.2 := by
  unfold balancesFromTrie
  rw [Fallible.foldlM_eq_ok_iff readBalanceEntry_eq_ok_iff, forall_mem_toList_iff]
  refine and_congr_right' ⟨?_, fun h => ?_⟩
  · rintro rfl a
    rw [getElem?_foldl_importEntry]
    simp [entriesOf]
  · refine congrArg BalanceLedger.mk (Std.ExtTreeMap.ext_getElem? fun a => ?_)
    rw [h a, getElem?_foldl_importEntry]
    simp [entriesOf]

/-! ## Writing the ledger -/

/-- The ledger's entries under `balance/` are all the reader looks at. -/
theorem balancesFromTrie_congr {s s' : ManagedWorldState} {balances : BalanceLedger}
    (h : ∀ key, startsWith key nsBalance = true → s'.get key = s.get key)
    (hs : balancesFromTrie s = .ok balances) : balancesFromTrie s' = .ok balances := by
  rw [balancesFromTrie_eq_ok_iff] at hs ⊢
  refine ⟨fun key value hget hstart => ?_, fun a => ?_⟩
  · rw [h key hstart] at hget
    exact hs.1 key value hget hstart
  · rw [hs.2 a, entriesOf, entriesOf]
    rw [OrderedMap.filter_toList_congr (p := fun key => balanceAgent key = some a)]
    intro key hkey
    refine (h key ?_).symm
    by_contra hstart
    simp [balanceAgent, hstart] at hkey

/-- The second ledger differs from the first at the changed accounts at most, and
has them all. -/
structure Covers (balances balances' : BalanceLedger) (changed : HashSet) : Prop where
  same : ∀ a, a ∉ changed → balances'.balances[a]? = balances.balances[a]?
  present : ∀ a, a ∈ changed → (balances'.balances[a]?).isSome

theorem Covers.refl (balances : BalanceLedger) : Covers balances balances ∅ :=
  ⟨fun _ _ => rfl, fun _ ha => absurd ha Std.ExtTreeSet.not_mem_empty⟩

/-- Setting a balance covers one more account. -/
theorem Covers.importBalance {balances balances' : BalanceLedger} {changed : HashSet}
    (h : Covers balances balances' changed) (agent : AgentId) (amount : TensionValue) :
    Covers balances (balances'.importBalance agent amount) (changed.insert agent) where
  same a ha := by
    rw [Std.ExtTreeSet.mem_insert, not_or] at ha
    rw [BalanceLedger.importBalance, Std.ExtTreeMap.getElem?_insert, if_neg ha.1]
    exact h.same a ha.2
  present a ha := by
    rw [BalanceLedger.importBalance, Std.ExtTreeMap.getElem?_insert]
    split
    · rfl
    · rename_i hne
      exact h.present a ((Std.ExtTreeSet.mem_insert.mp ha).resolve_left hne)

/-- The length of a key that holds a balance; no other key of the protocol's
accounts is longer. -/
def balanceKeyLength : Nat := 72

theorem balanceKey_length (a : Hash) : (balanceKey a).length = balanceKeyLength := by
  have hhex : ∀ bs : Bytes, (hexBytes bs).length = 2 * bs.length := fun bs => by
    simp [hexBytes, Nat.mul_comm]
  rw [balanceKey, List.length_append, hhex, a.toList_length]
  rfl

/-- Where writes are let through, the admitted ones are all. -/
theorem admitted_of_forall {s : ManagedWorldState} {ws : List StateWrite}
    (h : ∀ w ∈ ws, s.admits w = true) :
    s.admitted ws = ws.map fun w => (w.address, w.value) := by
  rw [ManagedWorldState.admitted, List.filter_eq_self.mpr h]

theorem admits_of_length {s : ManagedWorldState} {w : StateWrite}
    (hlimit : balanceKeyLength ≤ s.consensusParams.maxStateEntrySize.toNat)
    (haddress : w.address.length ≤ balanceKeyLength) (hvalue : w.value.length ≤ balanceKeyLength) :
    s.admits w = true := by
  simp only [ManagedWorldState.admits, Bool.and_eq_true, decide_eq_true_eq]
  exact ⟨haddress.trans hlimit, hvalue.trans hlimit⟩

theorem admits_balanceWrite {s : ManagedWorldState}
    (hlimit : balanceKeyLength ≤ s.consensusParams.maxStateEntrySize.toNat)
    (balances : BalanceLedger) (a : Hash) : s.admits (balanceWrite balances a) = true := by
  refine admits_of_length hlimit (balanceKey_length a).le ?_
  rw [balanceWrite, length_leBytes]
  decide

theorem admitted_accountWrites {s : ManagedWorldState}
    (hlimit : balanceKeyLength ≤ s.consensusParams.maxStateEntrySize.toNat)
    (balances : BalanceLedger) (changed : HashSet) :
    s.admitted (accountWrites balances changed) = changed.toList.map fun a =>
      (balanceKey a, leBytes 16 (balances.balanceOf a).raw.toBits) := by
  rw [admitted_of_forall, accountWrites, List.map_map]
  · rfl
  · intro w hw
    obtain ⟨a, -, rfl⟩ := List.mem_map.mp hw
    exact admits_balanceWrite hlimit balances a

theorem get_accountWrites {s : ManagedWorldState}
    (hlimit : balanceKeyLength ≤ s.consensusParams.maxStateEntrySize.toNat)
    (balances : BalanceLedger) {changed : HashSet} {a : Hash} (ha : a ∈ changed) :
    (s.writeAll (accountWrites balances changed)).get (balanceKey a)
      = some (leBytes 16 (balances.balanceOf a).raw.toBits) := by
  have hdistinct : changed.toList.Nodup := by
    refine (Std.ExtTreeSet.distinct_toList (t := changed)).imp fun {a b} hne heq => hne ?_
    rw [heq]
    exact Std.ReflCmp.compare_self
  have hnodup : (changed.toList.map balanceKey).Nodup := hdistinct.map fun _ _ => balanceKey_inj
  have hmem : (balanceKey a, leBytes 16 (balances.balanceOf a).raw.toBits) ∈
      changed.toList.map fun a => (balanceKey a, leBytes 16 (balances.balanceOf a).raw.toBits) :=
    List.mem_map.mpr ⟨a, Std.ExtTreeSet.mem_toList.mpr ha, rfl⟩
  rw [get_writeAll, admitted_accountWrites hlimit,
    lastWrite_of_mem (by simpa [Function.comp_def] using hnodup) hmem]
  rfl

theorem get_accountWrites_of_ne {s : ManagedWorldState} (balances : BalanceLedger)
    {changed : HashSet} {key : Bytes} (h : ∀ a ∈ changed, balanceKey a ≠ key) :
    (s.writeAll (accountWrites balances changed)).get key = s.get key := by
  refine get_writeAll_of_ne fun w hw => ?_
  obtain ⟨a, ha, rfl⟩ := List.mem_map.mp hw
  exact h a (Std.ExtTreeSet.mem_toList.mp ha)

/-- Committing the changed accounts carries the new ledger to the trie. -/
theorem balancesFromTrie_accountWrites {s : ManagedWorldState} {balances balances' : BalanceLedger}
    {changed : HashSet} (hlimit : balanceKeyLength ≤ s.consensusParams.maxStateEntrySize.toNat)
    (hs : balancesFromTrie s = .ok balances) (hcovers : Covers balances balances' changed) :
    balancesFromTrie (s.writeAll (accountWrites balances' changed)) = .ok balances' := by
  rw [balancesFromTrie_eq_ok_iff] at hs ⊢
  set s' := s.writeAll (accountWrites balances' changed) with hs'
  constructor
  · intro key value hget hstart
    by_cases hkey : ∃ a ∈ changed, balanceKey a = key
    · obtain ⟨a, ha, rfl⟩ := hkey
      rw [hs', get_accountWrites hlimit balances' ha] at hget
      rw [← Option.some_inj.mp hget]
      exact ⟨length_leBytes _ _, by rw [balanceAgent_balanceKey]; rfl⟩
    · have hne : ∀ a ∈ changed, balanceKey a ≠ key := fun a ha hk => hkey ⟨a, ha, hk⟩
      rw [hs', get_accountWrites_of_ne balances' hne] at hget
      exact hs.1 key value hget hstart
  · intro a
    by_cases ha : a ∈ changed
    · -- the entry that was written is the greatest that names the account
      have hmem : (balanceKey a, leBytes 16 (balances'.balanceOf a).raw.toBits) ∈ entriesOf s' a := by
        refine List.mem_filter.mpr ⟨?_, by simp [balanceAgent_balanceKey]⟩
        exact Std.ExtTreeMap.mem_toList_iff_getElem?_eq_some.mpr (get_accountWrites hlimit _ ha)
      have hlast := OrderedMap.getLast?_eq_of_greatest
        (Std.ExtTreeMap.ordered_keys_toList.filter _) hmem fun e he =>
          compare_balanceKey_ne_lt (of_decide_eq_true (List.mem_filter.mp he).2)
      obtain ⟨v, hv⟩ := Option.isSome_iff_exists.mp (hcovers.present a ha)
      rw [entriesOf, hlast, Option.map_some, decodeBalance_leBytes, BalanceLedger.balanceOf, hv]
      rfl
    · rw [hcovers.same a ha, hs.2 a, entriesOf, entriesOf,
        OrderedMap.filter_toList_congr (p := fun key => balanceAgent key = some a)]
      intro key hkey
      refine (get_accountWrites_of_ne balances' fun b hb hk => ha ?_).symm
      rw [← hk, balanceAgent_balanceKey, decide_eq_true_eq, Option.some_inj] at hkey
      exact hkey ▸ hb

/-! ## Reading the treasury -/

/-- The suffixes of the six amounts. -/
def amountSuffixes : List String :=
  ["pending_fees", "total_fees_collected", "total_rewards_distributed", "total_burned",
    "epoch_fees", "epoch_rewards"]

/-- An entry that the reader takes. -/
def TreasuryEntryOk (e : Bytes × Bytes) : Prop :=
  startsWith e.1 nsTreasury = true →
    (e.1 ∈ amountSuffixes.map treasuryCounterKey ∧ e.2.length = 16)
      ∨ e.1 = treasuryCounterKey "epoch" ∧ e.2.length = 8

def importCounter (treasury : Treasury) : Bytes × Bytes → Treasury
  | (key, value) =>
      let amount (suffix : String) (current : TensionValue) : TensionValue :=
        if key = treasuryCounterKey suffix then decodeBalance value else current
      { pendingFees := amount "pending_fees" treasury.pendingFees
        totalFeesCollected := amount "total_fees_collected" treasury.totalFeesCollected
        totalRewardsDistributed := amount "total_rewards_distributed"
          treasury.totalRewardsDistributed
        totalBurned := amount "total_burned" treasury.totalBurned
        epoch := if key = treasuryCounterKey "epoch" then UInt64.ofNat (ofLeBytes value)
          else treasury.epoch
        epochFees := amount "epoch_fees" treasury.epochFees
        epochRewards := amount "epoch_rewards" treasury.epochRewards }

theorem treasuryCounterKey_inj {x y : String} :
    treasuryCounterKey x = treasuryCounterKey y ↔ x = y := by
  refine ⟨fun h => ?_, fun h => h ▸ rfl⟩
  have hbytes : x.toUTF8.data.toList = y.toUTF8.data.toList := List.append_cancel_left h
  exact String.toByteArray_inj.mp (ByteArray.ext (Array.toList_inj.mp hbytes))

theorem startsWith_treasuryCounterKey (suffix : String) :
    startsWith (treasuryCounterKey suffix) nsTreasury = true := startsWith_append _ _

/-- A counter that is one of the six amounts. -/
theorem decodeTension_map_eq_ok_iff {key value : Bytes} {f : TensionValue → Treasury}
    {treasury' : Treasury} :
    (decodeTension key value).map f = .ok treasury' ↔
      value.length = 16 ∧ treasury' = f (decodeBalance value) := by
  unfold decodeTension
  by_cases h : value.length = 16
  · rw [if_neg (not_not.mpr h)]
    simp [h, Except.map, decodeBalance, eq_comm]
  · rw [if_pos h]
    simp [h, Except.map]

theorem decodeEpoch_map_eq_ok_iff {key value : Bytes} {f : UInt64 → Treasury}
    {treasury' : Treasury} :
    (decodeEpoch key value).map f = .ok treasury' ↔
      value.length = 8 ∧ treasury' = f (UInt64.ofNat (ofLeBytes value)) := by
  unfold decodeEpoch
  by_cases h : value.length = 8
  · rw [if_neg (not_not.mpr h)]
    simp [h, Except.map, eq_comm]
  · rw [if_pos h]
    simp [h, Except.map]

theorem treasuryEntryOk_amount {suffix : String} (h : suffix ∈ amountSuffixes) (value : Bytes) :
    TreasuryEntryOk (treasuryCounterKey suffix, value) ↔ value.length = 16 := by
  have hne : ∀ s ∈ amountSuffixes, treasuryCounterKey s ≠ treasuryCounterKey "epoch" := by
    decide +kernel
  constructor
  · intro hok
    rcases hok (startsWith_treasuryCounterKey suffix) with hamount | hepoch
    · exact hamount.2
    · exact absurd hepoch.1 (hne suffix h)
  · exact fun hlen _ => Or.inl ⟨List.mem_map_of_mem h, hlen⟩

theorem treasuryEntryOk_epoch (value : Bytes) :
    TreasuryEntryOk (treasuryCounterKey "epoch", value) ↔ value.length = 8 := by
  have hne : ∀ s ∈ amountSuffixes, treasuryCounterKey s ≠ treasuryCounterKey "epoch" := by
    decide +kernel
  constructor
  · intro hok
    rcases hok (startsWith_treasuryCounterKey "epoch") with hamount | hepoch
    · obtain ⟨s, hs, hkey⟩ := List.mem_map.mp hamount.1
      exact absurd hkey (hne s hs)
    · exact hepoch.2
  · exact fun hlen _ => Or.inr ⟨rfl, hlen⟩

theorem readTreasuryEntry_eq_ok_iff (treasury : Treasury) (e : Bytes × Bytes)
    (treasury' : Treasury) :
    readTreasuryEntry treasury e = .ok treasury' ↔
      TreasuryEntryOk e ∧ treasury' = importCounter treasury e := by
  obtain ⟨key, value⟩ := e
  by_cases hstart : startsWith key nsTreasury = true
  · have hamount : ∀ suffix ∈ amountSuffixes, ∀ f, key = treasuryCounterKey suffix →
        f (decodeBalance value) = importCounter treasury (key, value) →
        ((decodeTension key value).map f = .ok treasury' ↔
          TreasuryEntryOk (key, value) ∧ treasury' = importCounter treasury (key, value)) := by
      rintro suffix hs f rfl hf
      rw [decodeTension_map_eq_ok_iff, treasuryEntryOk_amount hs, hf]
    simp only [readTreasuryEntry, hstart, Bool.not_true, Bool.false_eq_true, if_false]
    split_ifs with h₁ h₂ h₃ h₄ h₅ h₆ h₇
    · exact hamount _ (by decide) _ h₁ (by simp [h₁, importCounter, treasuryCounterKey_inj])
    · exact hamount _ (by decide) _ h₂ (by simp [h₂, importCounter, treasuryCounterKey_inj])
    · exact hamount _ (by decide) _ h₃ (by simp [h₃, importCounter, treasuryCounterKey_inj])
    · exact hamount _ (by decide) _ h₄ (by simp [h₄, importCounter, treasuryCounterKey_inj])
    · rw [decodeEpoch_map_eq_ok_iff, h₅, treasuryEntryOk_epoch]
      simp [importCounter, treasuryCounterKey_inj]
    · exact hamount _ (by decide) _ h₆ (by simp [h₆, importCounter, treasuryCounterKey_inj])
    · exact hamount _ (by decide) _ h₇ (by simp [h₇, importCounter, treasuryCounterKey_inj])
    · have hnot : ¬ TreasuryEntryOk (key, value) := by
        intro hok
        have := hok hstart
        simp_all [amountSuffixes]
      simp [hnot]
  · have hne : ∀ suffix, key ≠ treasuryCounterKey suffix := by
      rintro suffix rfl
      exact hstart (startsWith_treasuryCounterKey suffix)
    have hsame : importCounter treasury (key, value) = treasury := by
      simp [importCounter, hne]
    rw [hsame]
    simp [readTreasuryEntry, TreasuryEntryOk, hstart, eq_comm]

/-- What the entries under the seven keys say. -/
def treasuryOf (get : Bytes → Option Bytes) : Treasury :=
  let amount (suffix : String) : TensionValue :=
    ((get (treasuryCounterKey suffix)).map decodeBalance).getD .zero
  { pendingFees := amount "pending_fees"
    totalFeesCollected := amount "total_fees_collected"
    totalRewardsDistributed := amount "total_rewards_distributed"
    totalBurned := amount "total_burned"
    epoch := ((get (treasuryCounterKey "epoch")).map fun v => UInt64.ofNat (ofLeBytes v)).getD 0
    epochFees := amount "epoch_fees"
    epochRewards := amount "epoch_rewards" }

/-- The loop over the entries reads every counter from its key. -/
theorem foldl_importCounter (m : Entries) :
    m.toList.foldl importCounter {} = treasuryOf fun key => m[key]? := by
  have hread := fun {γ : Type} (g : Treasury → γ) (suffix : String) (decode : Bytes → γ)
      (hother : ∀ acc e, e.1 ≠ treasuryCounterKey suffix → g (importCounter acc e) = g acc)
      (hself : ∀ acc v, g (importCounter acc (treasuryCounterKey suffix, v)) = decode v) =>
    OrderedMap.foldl_toList_proj m g decode hother hself {}
  apply Treasury.ext
  · exact hread Treasury.pendingFees _ _ (fun _ _ he => if_neg he) fun _ _ => by simp [importCounter]
  · exact hread Treasury.totalFeesCollected _ _ (fun _ _ he => if_neg he) fun _ _ => by simp [importCounter]
  · exact hread Treasury.totalRewardsDistributed _ _ (fun _ _ he => if_neg he)
      fun _ _ => by simp [importCounter]
  · exact hread Treasury.totalBurned _ _ (fun _ _ he => if_neg he) fun _ _ => by simp [importCounter]
  · exact hread Treasury.epoch _ _ (fun _ _ he => if_neg he) fun _ _ => by simp [importCounter]
  · exact hread Treasury.epochFees _ _ (fun _ _ he => if_neg he) fun _ _ => by simp [importCounter]
  · exact hread Treasury.epochRewards _ _ (fun _ _ he => if_neg he) fun _ _ => by simp [importCounter]

/-- When the reader succeeds, and what it reads. -/
theorem treasuryFromTrie_eq_ok_iff {state : ManagedWorldState} {treasury : Treasury} :
    treasuryFromTrie state = .ok treasury ↔
      (∀ key value, state.get key = some value → TreasuryEntryOk (key, value))
        ∧ treasury = treasuryOf state.get := by
  unfold treasuryFromTrie
  rw [Fallible.foldlM_eq_ok_iff readTreasuryEntry_eq_ok_iff, forall_mem_toList_iff, foldl_importCounter]
  rfl

theorem treasuryFromTrie_congr {s s' : ManagedWorldState} {treasury : Treasury}
    (h : ∀ key, startsWith key nsTreasury = true → s'.get key = s.get key)
    (hs : treasuryFromTrie s = .ok treasury) : treasuryFromTrie s' = .ok treasury := by
  rw [treasuryFromTrie_eq_ok_iff] at hs ⊢
  refine ⟨fun key value hget hstart => ?_, ?_⟩
  · rw [h key hstart] at hget
    exact hs.1 key value hget hstart
  · rw [hs.2]
    simp only [treasuryOf, h _ (startsWith_treasuryCounterKey _)]

/-! ## Writing the treasury -/

theorem mem_treasuryStateWrites {treasury : Treasury} {w : StateWrite}
    (h : w ∈ treasuryStateWrites treasury) : TreasuryEntryOk (w.address, w.value)
      ∧ w.address.length ≤ balanceKeyLength ∧ w.value.length ≤ balanceKeyLength := by
  have hlength : ∀ suffix ∈ "epoch" :: amountSuffixes,
      (treasuryCounterKey suffix).length ≤ balanceKeyLength := by decide +kernel
  have hamount : ∀ suffix ∈ amountSuffixes, ∀ v : TensionValue,
      TreasuryEntryOk (treasuryCounterKey suffix, encodeTension v)
        ∧ (treasuryCounterKey suffix).length ≤ balanceKeyLength
        ∧ (encodeTension v).length ≤ balanceKeyLength := fun suffix hs v => by
    refine ⟨(treasuryEntryOk_amount hs _).mpr (length_leBytes _ _),
      hlength suffix (List.mem_cons_of_mem _ hs), ?_⟩
    rw [encodeTension, length_leBytes]
    decide
  simp only [treasuryStateWrites, List.mem_cons, List.not_mem_nil, or_false] at h
  rcases h with rfl | rfl | rfl | rfl | rfl | rfl | rfl
  · exact hamount _ (by decide) _
  · exact hamount _ (by decide) _
  · exact hamount _ (by decide) _
  · exact hamount _ (by decide) _
  · refine ⟨(treasuryEntryOk_epoch _).mpr (length_leBytes _ _), hlength _ (by decide), ?_⟩
    rw [length_leBytes]
    decide
  · exact hamount _ (by decide) _
  · exact hamount _ (by decide) _

theorem nodup_treasuryStateWrites (treasury : Treasury) :
    ((treasuryStateWrites treasury).map (·.address)).Nodup := by
  have hnodup : ["pending_fees", "total_fees_collected", "total_rewards_distributed",
    "total_burned", "epoch", "epoch_fees", "epoch_rewards"].Nodup := by decide
  exact hnodup.map (f := treasuryCounterKey) fun _ _ h => treasuryCounterKey_inj.mp h

theorem admitted_treasuryStateWrites {s : ManagedWorldState}
    (hlimit : balanceKeyLength ≤ s.consensusParams.maxStateEntrySize.toNat) (treasury : Treasury) :
    s.admitted (treasuryStateWrites treasury)
      = (treasuryStateWrites treasury).map fun w => (w.address, w.value) :=
  admitted_of_forall fun _ hw =>
    admits_of_length hlimit (mem_treasuryStateWrites hw).2.1 (mem_treasuryStateWrites hw).2.2

theorem get_treasuryStateWrites {s : ManagedWorldState}
    (hlimit : balanceKeyLength ≤ s.consensusParams.maxStateEntrySize.toNat) {treasury : Treasury}
    {key value : Bytes} (h : ⟨key, value⟩ ∈ treasuryStateWrites treasury) :
    (s.writeAll (treasuryStateWrites treasury)).get key = some value := by
  have hnodup := nodup_treasuryStateWrites treasury
  have hmem : (key, value) ∈ (treasuryStateWrites treasury).map fun w => (w.address, w.value) :=
    List.mem_map.mpr ⟨⟨key, value⟩, h, rfl⟩
  rw [get_writeAll, admitted_treasuryStateWrites hlimit,
    lastWrite_of_mem (by simpa [Function.comp_def] using hnodup) hmem]
  rfl

/-- Committing the treasury makes it what the trie holds, where a treasury could
be read before. -/
theorem treasuryFromTrie_treasuryStateWrites {s : ManagedWorldState} {before treasury : Treasury}
    (hlimit : balanceKeyLength ≤ s.consensusParams.maxStateEntrySize.toNat)
    (hs : treasuryFromTrie s = .ok before) :
    treasuryFromTrie (s.writeAll (treasuryStateWrites treasury)) = .ok treasury := by
  have hget := @get_treasuryStateWrites s hlimit treasury
  have hdecode : ∀ v : TensionValue, decodeBalance (encodeTension v) = v := decodeBalance_leBytes
  have hepoch : UInt64.ofNat (ofLeBytes (leBytes 8 treasury.epoch.toNat)) = treasury.epoch := by
    rw [ofLeBytes_leBytes treasury.epoch.toNat_lt, UInt64.ofNat_toNat]
  rw [treasuryFromTrie_eq_ok_iff] at hs ⊢
  constructor
  · intro key value hvalue
    rw [get_writeAll, admitted_treasuryStateWrites hlimit, Option.or_eq_some_iff] at hvalue
    rcases hvalue with hlast | ⟨-, hold⟩
    · obtain ⟨w, hw, hpair⟩ := List.mem_map.mp (mem_of_lastWrite hlast)
      rw [← hpair]
      exact (mem_treasuryStateWrites hw).1
    · exact hs.1 key value hold
  · have hkeys := fun w (hw : w ∈ treasuryStateWrites treasury) => @hget w.address _ hw
    simp only [treasuryStateWrites, List.forall_mem_cons] at hkeys
    obtain ⟨h₁, h₂, h₃, h₄, h₅, h₆, h₇, -⟩ := hkeys
    simp only [treasuryOf, treasuryStateWrites, h₁, h₂, h₃, h₄, h₅, h₆, h₇, Option.map_some,
      Option.getD_some, hdecode, hepoch]

/-! ## What a block does to them -/

theorem debit_eq_ok {balances balances' : BalanceLedger} {agent : AgentId} {amount : TensionValue}
    (h : balances.debit agent amount = .ok balances') :
    balances' = balances.importBalance agent (balances.balanceOf agent - amount) := by
  unfold BalanceLedger.debit at h
  dsimp only at h
  split at h
  · cases h
  · exact (Except.ok.inj h).symm

/-- What charging one fee can do. -/
theorem chargeFee_cases {blockVersion : UInt32} {gasPrice : TensionValue} {acc acc' : Settlement}
    {tx : SymbolicTransition} {receipt : CausalReceipt}
    (h : chargeFee blockVersion gasPrice acc (tx, receipt) = .ok acc') :
    receipt.txId = tx.txId ∧ receipt.verdict.isAccepted = true
      ∧ ∃ payer, resolveFeePayer blockVersion acc.balances tx (receiptFee gasPrice receipt)
          = .ok payer
        ∧ acc'.outcome.txFees = acc.outcome.txFees ++ [receiptFee gasPrice receipt]
        ∧ acc'.outcome.txFeePayers = acc.outcome.txFeePayers ++ [payer]
        ∧ ((receiptFee gasPrice receipt).raw.val ≤ 0 ∧ acc'.balances = acc.balances
              ∧ acc'.treasury = acc.treasury ∧ acc'.changed = acc.changed
              ∧ acc'.outcome.totalFees = acc.outcome.totalFees
            ∨ 0 < (receiptFee gasPrice receipt).raw.val
              ∧ acc.balances.debit payer (receiptFee gasPrice receipt) = .ok acc'.balances
              ∧ acc'.treasury = acc.treasury.collectFee (receiptFee gasPrice receipt)
              ∧ acc'.changed = acc.changed.insert payer
              ∧ acc'.outcome.totalFees
                = acc.outcome.totalFees + receiptFee gasPrice receipt) := by
  unfold chargeFee at h
  by_cases hid : receipt.txId = tx.txId
  · by_cases hverdict : receipt.verdict.isAccepted = true
    · rcases hpayer : resolveFeePayer blockVersion acc.balances tx (receiptFee gasPrice receipt)
        with e | payer
      · simp [hid, hverdict, hpayer, bind, Except.bind] at h
      · refine ⟨hid, hverdict, payer, rfl, ?_⟩
        by_cases hfee : 0 < (receiptFee gasPrice receipt).raw.val
        · rcases hdebit : acc.balances.debit payer (receiptFee gasPrice receipt) with e | balances
          · simp [hid, hverdict, hpayer, hfee, hdebit, bind, Except.bind] at h
          · simp only [hid, hverdict, hpayer, hfee, hdebit, bind, Except.bind, pure, Except.pure,
              ne_eq, not_true_eq_false, if_false, Bool.not_true, Bool.false_eq_true, if_true] at h
            cases h
            exact ⟨rfl, rfl, Or.inr ⟨hfee, rfl, rfl, rfl, rfl⟩⟩
        · simp only [hid, hverdict, hpayer, hfee, bind, Except.bind, pure, Except.pure,
            ne_eq, not_true_eq_false, if_false, Bool.not_true, Bool.false_eq_true] at h
          cases h
          exact ⟨rfl, rfl, Or.inl ⟨not_lt.mp hfee, rfl, rfl, rfl, rfl⟩⟩
    · simp [hid, hverdict, bind, Except.bind, throw, throwThe, MonadExceptOf.throw] at h
  · simp [hid, bind, Except.bind, throw, throwThe, MonadExceptOf.throw] at h

/-- Fees do not move the epoch. -/
theorem chargedBeforeError_epoch (balances : BalanceLedger) (treasury : Treasury)
    (transitions : List SymbolicTransition) (receipts : List CausalReceipt)
    (blockVersion : UInt32) (gasPrice : TensionValue) :
    (chargedBeforeError balances treasury transitions receipts blockVersion gasPrice).treasury.epoch
      = treasury.epoch := by
  unfold chargedBeforeError
  split
  · rfl
  · refine Fallible.foldlUntil_inv (P := fun acc : Settlement => acc.treasury.epoch = treasury.epoch)
      (fun acc paired acc' h hepoch => ?_) rfl _
    obtain ⟨-, -, payer, -, -, -, ⟨-, -, ht, -⟩ | ⟨-, -, ht, -⟩⟩ := chargeFee_cases h
    · rw [ht]
      exact hepoch
    · rw [ht]
      exact hepoch

/-- The ledger of a settlement differs from the one before only at the accounts
it names, and the treasury only where something was collected. -/
structure Settles (balances : BalanceLedger) (treasury : Treasury) (acc : Settlement) : Prop where
  covers : Covers balances acc.balances acc.changed
  fees : 0 ≤ acc.outcome.totalFees.raw.val
  idle : acc.outcome.totalFees.raw.val = 0 → acc.treasury = treasury

theorem Settles.chargeFee {balances : BalanceLedger} {treasury : Treasury} {acc acc' : Settlement}
    {blockVersion : UInt32} {gasPrice : TensionValue} {paired : SymbolicTransition × CausalReceipt}
    (hs : Settles balances treasury acc)
    (h : chargeFee blockVersion gasPrice acc paired = .ok acc') :
    Settles balances treasury acc' := by
  obtain ⟨-, -, payer, -, -, -, ⟨-, hb, ht, hc, hf⟩ | ⟨hpos, hb, ht, hc, hf⟩⟩ := chargeFee_cases h
  · refine ⟨?_, ?_, ?_⟩
    · rw [hb, hc]
      exact hs.covers
    · rw [hf]
      exact hs.fees
    · rw [hf, ht]
      exact hs.idle
  · have hsum : 0 < (acc.outcome.totalFees + receiptFee gasPrice paired.2).raw.val := by
      have hfees := hs.fees
      show 0 < max (-2 ^ 127) (min (2 ^ 127 - 1) (acc.outcome.totalFees.raw.val
        + (receiptFee gasPrice paired.2).raw.val))
      omega
    refine ⟨?_, ?_, ?_⟩
    · rw [debit_eq_ok hb, hc]
      exact hs.covers.importBalance _ _
    · rw [hf]
      exact hsum.le
    · rw [hf]
      exact fun hzero => absurd hzero hsum.ne'

theorem settles_chargeFees {balances : BalanceLedger} {treasury : Treasury}
    {transitions : List SymbolicTransition} {receipts : List CausalReceipt} {blockVersion : UInt32}
    {gasPrice : TensionValue} {charged : Settlement}
    (h : chargeFees balances treasury transitions receipts blockVersion gasPrice = .ok charged) :
    Settles balances treasury charged := by
  have hinit : ∀ outcome : BlockEconomicsOutcome, outcome.totalFees = .zero →
      Settles balances treasury { balances, treasury, outcome } := fun outcome hzero =>
    ⟨Covers.refl balances, by rw [hzero]; decide, fun _ => rfl⟩
  unfold chargeFees at h
  split at h
  · cases h
  · split at h
    · cases h
      exact hinit _ rfl
    · refine Fallible.foldlM_except_ok
        (P := fun acc acc' => Settles balances treasury acc → Settles balances treasury acc')
        (fun _ => id) (fun hab hbc ha => hbc (hab ha)) (fun hstep ha => ha.chargeFee hstep) h ?_
      exact hinit {} rfl

theorem Settles.payReward {balances : BalanceLedger} {treasury : Treasury} {acc : Settlement}
    (hs : Settles balances treasury acc) (account : Hash) (requestedReward : TensionValue) :
    Covers balances (payReward account requestedReward acc).balances
      (payReward account requestedReward acc).changed := by
  unfold Sccgub.payReward
  dsimp only
  split
  · exact hs.covers.importBalance _ _
  · exact hs.covers

/-- Nothing pending, nothing paid. -/
theorem distributeReward_of_pending {treasury : Treasury} (h : treasury.pendingFees = .zero)
    (amount : TensionValue) : treasury.distributeReward amount = (.zero, treasury) := by
  have hactual : (if treasury.pendingFees.raw < (Treasury.clampNonNegative amount).raw then
      treasury.pendingFees else Treasury.clampNonNegative amount) = .zero := by
    rw [h]
    split
    · rfl
    · rename_i hle
      have hle : ¬ (0 : Int) < (Treasury.clampNonNegative amount).raw.val := hle
      have hnonneg : 0 ≤ (Treasury.clampNonNegative amount).raw.val := by
        unfold Treasury.clampNonNegative
        split
        · decide
        · rename_i hneg
          exact not_lt.mp hneg
      refine TensionValue.ext_val ?_
      show _ = (0 : Int)
      omega
  unfold Treasury.distributeReward
  dsimp only
  rw [hactual, TensionValue.sub_zero, TensionValue.add_zero, TensionValue.add_zero]

/-- Where neither fee nor reward was paid and nothing was pending, the treasury
is as it was. -/
theorem Settles.payReward_idle {balances : BalanceLedger} {treasury : Treasury} {acc : Settlement}
    (hs : Settles balances treasury acc) (account : Hash) (requestedReward : TensionValue)
    (hpending : treasury.pendingFees = .zero) (hfees : acc.outcome.totalFees.raw.val ≤ 0) :
    (Sccgub.payReward account requestedReward acc).treasury = treasury := by
  have hacc : acc.treasury = treasury := hs.idle (le_antisymm hfees hs.fees)
  unfold Sccgub.payReward
  rw [hacc, distributeReward_of_pending hpending]
  dsimp only
  split <;> rfl

/-- Two namespaces of which neither extends the other. -/
theorem startsWith_disjoint {key p q : Bytes} (hp : startsWith key p = true)
    (hpq : (startsWith p q || startsWith q p) = false) : startsWith key q = false := by
  rw [Bool.eq_false_iff]
  intro hq
  rcases List.prefix_or_prefix_of_prefix (List.isPrefixOf_iff_prefix.mp hp)
    (List.isPrefixOf_iff_prefix.mp hq) with h | h
  · rw [startsWith, startsWith, List.isPrefixOf_iff_prefix.mpr h, Bool.or_true] at hpq
    cases hpq
  · rw [startsWith, List.isPrefixOf_iff_prefix.mpr h, Bool.true_or] at hpq
    cases hpq

theorem ne_of_startsWith {key key' p q : Bytes} (hp : startsWith key p = true)
    (hq : startsWith key' q = true) (hpq : (startsWith p q || startsWith q p) = false) :
    key ≠ key' := by
  rintro rfl
  rw [startsWith_disjoint hp hpq] at hq
  cases hq

theorem startsWith_of_mem_treasuryStateWrites {treasury : Treasury} {w : StateWrite}
    (h : w ∈ treasuryStateWrites treasury) : startsWith w.address nsTreasury = true := by
  simp only [treasuryStateWrites, List.mem_cons, List.not_mem_nil, or_false] at h
  rcases h with rfl | rfl | rfl | rfl | rfl | rfl | rfl <;>
    exact startsWith_treasuryCounterKey _

theorem startsWith_of_mem_accountWrites {balances : BalanceLedger} {changed : HashSet}
    {w : StateWrite} (h : w ∈ accountWrites balances changed) :
    startsWith w.address nsBalance = true := by
  obtain ⟨a, -, rfl⟩ := List.mem_map.mp h
  exact startsWith_balanceKey a

theorem balancesFromTrie_treasuryStateWrites {s : ManagedWorldState} {balances : BalanceLedger}
    (hs : balancesFromTrie s = .ok balances) (treasury : Treasury) :
    balancesFromTrie (s.writeAll (treasuryStateWrites treasury)) = .ok balances :=
  balancesFromTrie_congr (fun _ hkey => get_writeAll_of_ne fun _ hw =>
    ne_of_startsWith (startsWith_of_mem_treasuryStateWrites hw) hkey (by decide)) hs

theorem treasuryFromTrie_accountWrites {s : ManagedWorldState} {treasury : Treasury}
    (hs : treasuryFromTrie s = .ok treasury) (balances : BalanceLedger) (changed : HashSet) :
    treasuryFromTrie (s.writeAll (accountWrites balances changed)) = .ok treasury :=
  treasuryFromTrie_congr (fun _ hkey => get_writeAll_of_ne fun _ hw =>
    ne_of_startsWith (startsWith_of_mem_accountWrites hw) hkey (by decide)) hs

/-- Without keys of its own the treasury is the default. -/
theorem treasury_eq_default {s : ManagedWorldState} {treasury : Treasury}
    (hs : treasuryFromTrie s = .ok treasury) (hnone : stateHasTreasuryKeys s = false) :
    treasury = {} := by
  have hget : ∀ suffix, s.get (treasuryCounterKey suffix) = none := fun suffix => by
    rcases hg : s.get (treasuryCounterKey suffix) with _ | value
    · rfl
    · have hmem : (treasuryCounterKey suffix, value) ∈ s.trie.store.toList :=
        Std.ExtTreeMap.mem_toList_iff_getElem?_eq_some.mpr hg
      have := List.any_eq_false.mp hnone _ hmem
      exact absurd (startsWith_treasuryCounterKey suffix) this
  rw [(treasuryFromTrie_eq_ok_iff.mp hs).2]
  simp only [treasuryOf, hget]
  rfl

/-- Fees and reward leave ledger and treasury as the trie has them. -/
theorem coherent_applyBlockEconomics [Crypto] {state state' : ManagedWorldState}
    {balances : BalanceLedger} {treasury : Treasury} {transitions : List SymbolicTransition}
    {receipts : List CausalReceipt} {blockVersion : UInt32} {validatorPublicKey : Hash}
    {gasPrice requestedReward : TensionValue} {settled : Settlement}
    (hlimit : balanceKeyLength ≤ state.consensusParams.maxStateEntrySize.toNat)
    (hb : balancesFromTrie state = .ok balances) (ht : treasuryFromTrie state = .ok treasury)
    (h : applyBlockEconomics state balances treasury transitions receipts blockVersion
      validatorPublicKey gasPrice requestedReward = .ok (state', settled)) :
    balancesFromTrie state' = .ok settled.balances
      ∧ treasuryFromTrie state' = .ok settled.treasury := by
  unfold applyBlockEconomics at h
  rcases hc : chargeFees balances treasury transitions receipts blockVersion gasPrice
    with e | charged
  · rw [hc] at h
    cases h
  · rw [hc] at h
    obtain ⟨hstate, hsettled⟩ := Prod.mk.inj (Except.ok.inj h)
    have hcharged := settles_chargeFees hc
    have hcovers := hcharged.payReward (validatorSpendAccount blockVersion validatorPublicKey)
      requestedReward
    rw [hsettled] at hcovers
    rw [← hstate, hsettled, commitSettlement, commitBalanceAccounts_eq]
    have hb₁ := balancesFromTrie_accountWrites hlimit hb hcovers
    have ht₁ := treasuryFromTrie_accountWrites ht settled.balances settled.changed
    split
    · rw [commitTreasuryState, ManagedWorldState.applyDelta_writes]
      exact ⟨balancesFromTrie_treasuryStateWrites hb₁ _,
        treasuryFromTrie_treasuryStateWrites hlimit ht₁⟩
    · rename_i hidle
      simp only [Bool.or_eq_true, decide_eq_true_eq, not_or, Bool.not_eq_true] at hidle
      have hdefault := treasury_eq_default ht₁ hidle.2
      have hfees : charged.outcome.totalFees.raw.val ≤ 0 := by
        have houtcome : settled.outcome.totalFees = charged.outcome.totalFees := by
          rw [← hsettled]
          unfold payReward
          dsimp only
          split <;> rfl
        rw [← houtcome]
        exact not_lt.mp hidle.1.1
      have hsame := hcharged.payReward_idle (validatorSpendAccount blockVersion validatorPublicKey)
        requestedReward (by rw [hdefault]) hfees
      rw [hsettled] at hsame
      rw [hsame]
      exact ⟨hb₁, ht₁⟩

theorem transfer_eq_ok {balances balances' : BalanceLedger} {source target : AgentId}
    {amount : TensionValue} (h : balances.transfer source target amount = .ok balances') :
    ∃ v w, balances' = (balances.importBalance source v).importBalance target w := by
  unfold BalanceLedger.transfer at h
  split at h
  · cases h
  · split at h
    · cases h
    · rcases hd : balances.debit source amount with e | debited
      · rw [hd] at h
        cases h
      · rw [hd] at h
        obtain rfl := Except.ok.inj h
        exact ⟨_, _, by rw [debit_eq_ok hd]; rfl⟩

theorem Covers.applyTransition {balances : BalanceLedger} {run : TransitionRun}
    (h : Covers balances run.balances run.changed) (tx : SymbolicTransition) :
    Covers balances (applyTransition run tx).balances (applyTransition run tx).changed := by
  unfold Sccgub.applyTransition
  split
  · exact h
  · dsimp only
    split
    · exact h
    · split
      · rename_i balances' htransfer
        obtain ⟨v, w, rfl⟩ := transfer_eq_ok htransfer
        exact (h.importBalance _ v).importBalance _ w
      · exact h
    · exact h

theorem Covers.foldl_applyTransition {balances : BalanceLedger}
    (transitions : List SymbolicTransition) (run : TransitionRun)
    (h : Covers balances run.balances run.changed) :
    Covers balances (transitions.foldl Sccgub.applyTransition run).balances
      (transitions.foldl Sccgub.applyTransition run).changed := by
  induction transitions generalizing run with
  | nil => exact h
  | cons tx rest ih => exact ih _ (h.applyTransition tx)

/-- Payloads that write to no account keep ledger and trie together. -/
theorem balancesFromTrie_applyBlockTransitions {state : ManagedWorldState}
    {balances : BalanceLedger} {transitions : List SymbolicTransition}
    (hlimit : balanceKeyLength ≤ state.consensusParams.maxStateEntrySize.toNat)
    (hb : balancesFromTrie state = .ok balances)
    (hwrites : ∀ w ∈ payloadWrites ∅ transitions, startsWith w.address nsBalance = false) :
    balancesFromTrie (applyBlockTransitions state balances transitions).1
      = .ok (applyBlockTransitions state balances transitions).2.1 := by
  have hcovers := Covers.foldl_applyTransition transitions { state, balances }
    (Covers.refl balances)
  have hpayload : balancesFromTrie (state.writeAll (payloadWrites ∅ transitions)) = .ok balances :=
    balancesFromTrie_congr (fun key hkey => get_writeAll_of_ne fun w hw hne => by
      rw [← hne, hwrites w hw] at hkey
      cases hkey) hb
  simp only [applyBlockTransitions, commitBalanceAccounts_eq]
  rw [foldl_applyTransition_state]
  exact balancesFromTrie_accountWrites hlimit hpayload hcovers

theorem treasuryFromTrie_applyBlockTransitions {state : ManagedWorldState}
    {balances : BalanceLedger} {treasury : Treasury} {transitions : List SymbolicTransition}
    (ht : treasuryFromTrie state = .ok treasury)
    (hwrites : ∀ w ∈ payloadWrites ∅ transitions, startsWith w.address nsTreasury = false) :
    treasuryFromTrie (applyBlockTransitions state balances transitions).1 = .ok treasury := by
  have hpayload : treasuryFromTrie (state.writeAll (payloadWrites ∅ transitions)) = .ok treasury :=
    treasuryFromTrie_congr (fun key hkey => get_writeAll_of_ne fun w hw hne => by
      rw [← hne, hwrites w hw] at hkey
      cases hkey) ht
  simp only [applyBlockTransitions, commitBalanceAccounts_eq]
  rw [foldl_applyTransition_state]
  exact treasuryFromTrie_accountWrites hpayload _ _

theorem mem_payloadWrites {seen : HashSet} {transitions : List SymbolicTransition} {w : StateWrite}
    (h : w ∈ payloadWrites seen transitions) :
    ∃ tx ∈ transitions, tx.payload = .write w.address w.value := by
  fun_induction payloadWrites seen transitions with
  | case1 => cases h
  | case2 seen tx rest hseen ih =>
      obtain ⟨tx', htx', hp⟩ := ih h
      exact ⟨tx', List.mem_cons_of_mem _ htx', hp⟩
  | case3 seen tx rest hseen key value hpayload ih =>
      rcases List.mem_cons.mp h with rfl | hrest
      · exact ⟨tx, List.mem_cons_self, hpayload⟩
      · obtain ⟨tx', htx', hp⟩ := ih hrest
        exact ⟨tx', List.mem_cons_of_mem _ htx', hp⟩
  | case4 seen tx rest hseen hpayload ih =>
      obtain ⟨tx', htx', hp⟩ := ih h
      exact ⟨tx', List.mem_cons_of_mem _ htx', hp⟩

end Sccgub
