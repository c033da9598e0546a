import Mathlib
import Sccgub.State.Coherence

/-!
# Loading the balances

The reader takes the account of a key in either case, the writer spells it in
lower case.  A trie is loaded exactly, entry by entry, where no key that holds a
balance has an upper-case digit (`loadedExactly_iff`): another spelling is
dropped, or read under a key that the ledger does not have.
-/

namespace Sccgub

open Bincode FixedWidth WriteThrough

/-! ## Spelling -/

/-- An upper-case digit. -/
def isUpperDigit (b : UInt8) : Bool := 65 ≤ b && b ≤ 70

theorem hexDigit_of_hexValue {c v : UInt8} (h : hexValue c = some v) (hc : ¬ isUpperDigit c) :
    hexDigit v = c := by
  apply UInt8.toNat_inj.mp
  simp only [isUpperDigit, Bool.and_eq_true, decide_eq_true_eq, UInt8.le_iff_toNat_le,
    UInt8.reduceToNat] at hc
  unfold hexValue at h
  simp only [Bool.and_eq_true, decide_eq_true_eq, UInt8.le_iff_toNat_le, UInt8.reduceToNat] at h
  have hsub : ∀ k : UInt8, k.toNat ≤ c.toNat → (c - k).toNat = c.toNat - k.toNat := fun k hk =>
    UInt8.toNat_sub_of_le _ _ (UInt8.le_iff_toNat_le.mpr hk)
  split_ifs at h with hdecimal hlower
  · obtain rfl := Option.some_inj.mp h
    have hv := hsub 48 hdecimal.1
    simp only [UInt8.reduceToNat] at hv
    rw [hexDigit_of_lt (by omega)]
    omega
  · obtain rfl := Option.some_inj.mp h
    have hv := hsub 87 (by simp only [UInt8.reduceToNat]; omega)
    simp only [UInt8.reduceToNat] at hv
    rw [hexDigit_of_le (by omega) (by omega)]
    omega

theorem not_isUpperDigit_hexDigit {n : UInt8} (h : n.toNat < 16) :
    isUpperDigit (hexDigit n) = false := by
  have hall : ∀ k < 16, isUpperDigit (hexDigit (UInt8.ofNat k)) = false := by decide +kernel
  have hn : UInt8.ofNat n.toNat = n := UInt8.ofNat_toNat
  rw [← hn]
  exact hall n.toNat h

theorem not_isUpperDigit_hexBytes (bs : Bytes) : ∀ c ∈ hexBytes bs, isUpperDigit c = false := by
  intro c hc
  obtain ⟨b, -, hb⟩ := List.mem_flatMap.mp hc
  have hlt := b.toNat_lt
  simp only [List.mem_cons, List.not_mem_nil, or_false] at hb
  rcases hb with rfl | rfl
  · exact not_isUpperDigit_hexDigit (by simp only [UInt8.toNat_div, UInt8.reduceToNat]; omega)
  · exact not_isUpperDigit_hexDigit (by simp only [UInt8.toNat_mod, UInt8.reduceToNat]; omega)

/-- In lower case there is one spelling. -/
theorem hexBytes_of_hexDecode {key bs : Bytes} (h : hexDecode key = some bs)
    (hkey : ∀ c ∈ key, ¬ isUpperDigit c) : hexBytes bs = key := by
  fun_induction hexDecode key generalizing bs with
  | case1 =>
      cases h
      rfl
  | case2 => cases h
  | case3 hi lo rest ih =>
      obtain ⟨v, hv, h⟩ := Option.bind_eq_some_iff.mp h
      obtain ⟨w, hw, h⟩ := Option.bind_eq_some_iff.mp h
      obtain ⟨tail, htail, h⟩ := Option.bind_eq_some_iff.mp h
      obtain rfl : (v * 16 + w) :: tail = bs := Option.some_inj.mp h
      obtain ⟨hv16, -⟩ := hexValue_spec hv
      obtain ⟨hw16, -⟩ := hexValue_spec hw
      have hdiv : (v * 16 + w) / 16 = v := by
        apply UInt8.toNat_inj.mp
        simp only [UInt8.toNat_add, UInt8.toNat_mul, UInt8.toNat_div, UInt8.reduceToNat]
        omega
      have hmod : (v * 16 + w) % 16 = w := by
        apply UInt8.toNat_inj.mp
        simp only [UInt8.toNat_add, UInt8.toNat_mul, UInt8.toNat_mod, UInt8.reduceToNat]
        omega
      show hexDigit ((v * 16 + w) / 16) :: hexDigit ((v * 16 + w) % 16) :: hexBytes tail = _
      rw [hdiv, hmod, hexDigit_of_hexValue hv (hkey hi (by simp)),
        hexDigit_of_hexValue hw (hkey lo (by simp)),
        ih htail fun c hc => hkey c (by simp [hc])]

/-- A key that holds a balance has no upper-case digit. -/
def lowerCaseKey (key : Bytes) : Bool := !(key.drop nsBalance.length).any isUpperDigit

theorem lowerCaseKey_balanceKey (a : Hash) : lowerCaseKey (balanceKey a) = true := by
  rw [lowerCaseKey, balanceKey, List.drop_left, Bool.not_eq_true', List.any_eq_false]
  intro c hc
  rw [not_isUpperDigit_hexBytes a.toList c hc]
  decide

/-- The lower-case key of an account is the one that is written. -/
theorem eq_balanceKey {key : Bytes} {a : Hash} (h : balanceAgent key = some a)
    (hkey : lowerCaseKey key = true) : key = balanceKey a := by
  rw [lowerCaseKey, Bool.not_eq_true', List.any_eq_false] at hkey
  unfold balanceAgent at h
  split at h
  · rename_i hstart
    split at h
    · rename_i agentBytes hdec
      split at h
      · obtain rfl := Option.some_inj.mp h
        obtain ⟨rest, rfl⟩ := List.isPrefixOf_iff_prefix.mp hstart
        rw [List.drop_left] at hdec hkey
        exact congrArg (nsBalance ++ ·) (hexBytes_of_hexDecode hdec hkey).symm
      · cases h
    · cases h
  · cases h

/-! ## Entries -/

/-- Bits of a balance are read back. -/
theorem leBytes_decodeBalance {value : Bytes} (h : value.length = 16) :
    leBytes 16 (decodeBalance value).raw.toBits = value := by
  have hlt := ofLeBytes_lt value
  rw [h] at hlt
  rw [decodeBalance, I128.toBits_ofBits hlt, ← h, leBytes_ofLeBytes]

def BalanceLedger.accounts (self : BalanceLedger) : HashSet :=
  Std.ExtTreeSet.ofList self.balances.keys compare

/-- The entries of a trie that hold balances. -/
def balanceEntries (state : ManagedWorldState) : List (Bytes × Bytes) :=
  state.trie.store.toList.filter fun e => startsWith e.1 nsBalance

/-- The entries that a ledger is written as. -/
def ledgerEntries (balances : BalanceLedger) : List (Bytes × Bytes) :=
  balances.accounts.toList.map fun account =>
    (balanceKey account, leBytes 16 (balances.balanceOf account).raw.toBits)

/-- The balances of a trie are those of the ledger, each under the one key of its
account. -/
def LoadedExactly (state : ManagedWorldState) (balances : BalanceLedger) : Prop :=
  (balanceEntries state).Perm (ledgerEntries balances)

/-- No key that holds a balance has an upper-case digit. -/
def LowerCase (state : ManagedWorldState) : Prop := ∀ e ∈ balanceEntries state, lowerCaseKey e.1

variable {state : ManagedWorldState} {balances : BalanceLedger}

theorem mem_accounts {account : Hash} :
    account ∈ balances.accounts ↔ account ∈ balances.balances := by
  rw [BalanceLedger.accounts, Std.ExtTreeSet.mem_ofList, List.contains_iff_mem,
    Std.ExtTreeMap.mem_keys]

theorem mem_balanceEntries {e : Bytes × Bytes} :
    e ∈ balanceEntries state ↔ state.get e.1 = some e.2 ∧ startsWith e.1 nsBalance = true := by
  rw [balanceEntries, List.mem_filter]
  exact and_congr_left' Std.ExtTreeMap.mem_toList_iff_getElem?_eq_some

theorem nodup_balanceEntries : (balanceEntries state).Nodup :=
  (OrderedMap.nodup_toList _).filter _

theorem nodup_toList_hashSet (accounts : HashSet) : accounts.toList.Nodup := by
  refine (Std.ExtTreeSet.distinct_toList (t := accounts)).imp ?_
  rintro a b hne rfl
  exact hne Std.ReflCmp.compare_self

theorem nodup_ledgerEntries : (ledgerEntries balances).Nodup := by
  refine (nodup_toList_hashSet balances.accounts).map ?_
  intro a b h
  exact balanceKey_inj (congrArg Prod.fst h)

theorem mem_ledgerEntries {e : Bytes × Bytes} : e ∈ ledgerEntries balances ↔
    ∃ account ∈ balances.balances,
      e = (balanceKey account, leBytes 16 (balances.balanceOf account).raw.toBits) := by
  rw [ledgerEntries, List.mem_map]
  constructor
  · rintro ⟨account, h, rfl⟩
    exact ⟨account, mem_accounts.mp (Std.ExtTreeSet.mem_toList.mp h), rfl⟩
  · rintro ⟨account, h, rfl⟩
    exact ⟨account, Std.ExtTreeSet.mem_toList.mpr (mem_accounts.mpr h), rfl⟩

/-- In lower case an account has one entry, which is read. -/
theorem balances_of_lowerCase (h : balancesFromTrie state = .ok balances)
    (hlower : LowerCase state) {account : Hash} {value : Bytes} :
    state.get (balanceKey account) = some value ↔
      account ∈ balances.balances
        ∧ value = leBytes 16 (balances.balanceOf account).raw.toBits := by
  obtain ⟨hentries, hread⟩ := balancesFromTrie_eq_ok_iff.mp h
  have hkey : ∀ e ∈ entriesOf state account, e.1 = balanceKey account
      ∧ state.get (balanceKey account) = some e.2 := by
    intro e he
    obtain ⟨hmem, hagent⟩ := List.mem_filter.mp he
    have hagent := of_decide_eq_true hagent
    have hstart : startsWith e.1 nsBalance = true := by
      by_contra hstart
      simp [balanceAgent, hstart] at hagent
    have hget : state.get e.1 = some e.2 := Std.ExtTreeMap.mem_toList_iff_getElem?_eq_some.mp hmem
    have hown := eq_balanceKey hagent (hlower e (mem_balanceEntries.mpr ⟨hget, hstart⟩))
    exact ⟨hown, hown ▸ hget⟩
  have hbalance := hread account
  rcases hlast : (entriesOf state account).getLast? with _ | e
  · rw [hlast] at hbalance
    have hnone : state.get (balanceKey account) ≠ some value := by
      intro hget
      have hmem : (balanceKey account, value) ∈ entriesOf state account :=
        List.mem_filter.mpr ⟨Std.ExtTreeMap.mem_toList_iff_getElem?_eq_some.mpr hget,
          by simp [balanceAgent_balanceKey]⟩
      rw [List.getLast?_eq_none_iff.mp hlast] at hmem
      cases hmem
    have habsent : account ∉ balances.balances := by
      rw [← Std.ExtTreeMap.isSome_getElem?_iff_mem, hbalance]
      simp
    exact ⟨fun hget => absurd hget hnone, fun h => absurd h.1 habsent⟩
  · obtain ⟨-, hget⟩ := hkey e (List.mem_of_getLast? hlast)
    have hlen := (hentries _ _ hget (startsWith_balanceKey account)).1
    rw [hlast, Option.map_some] at hbalance
    have hpresent : account ∈ balances.balances := by
      rw [← Std.ExtTreeMap.isSome_getElem?_iff_mem, hbalance]
      rfl
    have hvalue : leBytes 16 (balances.balanceOf account).raw.toBits = e.2 := by
      rw [BalanceLedger.balanceOf, hbalance]
      exact leBytes_decodeBalance hlen
    rw [hget, hvalue, Option.some_inj]
    exact ⟨fun h => ⟨hpresent, h.symm⟩, fun h => h.2.symm⟩

/-- A trie is loaded exactly where no key spells its account otherwise than it is
written. -/
theorem loadedExactly_iff_lowerCase (h : balancesFromTrie state = .ok balances) :
    LoadedExactly state balances ↔ LowerCase state := by
  constructor
  · intro hexact e he
    obtain ⟨account, -, rfl⟩ := mem_ledgerEntries.mp (hexact.mem_iff.mp he)
    exact lowerCaseKey_balanceKey account
  · intro hlower
    refine (List.perm_ext_iff_of_nodup nodup_balanceEntries nodup_ledgerEntries).mpr ?_
    rintro ⟨key, value⟩
    rw [mem_balanceEntries, mem_ledgerEntries]
    constructor
    · rintro ⟨hget, hstart⟩
      have hagent := ((balancesFromTrie_eq_ok_iff.mp h).1 key value hget hstart).2
      obtain ⟨account, haccount⟩ := Option.isSome_iff_exists.mp hagent
      obtain rfl := eq_balanceKey haccount
        (hlower (key, value) (mem_balanceEntries.mpr ⟨hget, hstart⟩))
      obtain ⟨hmem, rfl⟩ := (balances_of_lowerCase h hlower).mp hget
      exact ⟨account, hmem, rfl⟩
    · rintro ⟨account, hmem, he⟩
      cases he
      exact ⟨(balances_of_lowerCase h hlower).mpr ⟨hmem, rfl⟩, startsWith_balanceKey account⟩

/-! ## Committing and loading -/

theorem covers_accounts (ledger : BalanceLedger) : Covers {} ledger ledger.accounts where
  same := by
    intro account h
    rw [mem_accounts] at h
    rw [Std.ExtTreeMap.getElem?_eq_none h]
    rfl
  present := by
    intro account h
    exact Std.ExtTreeMap.isSome_getElem?_iff_mem.mpr (mem_accounts.mp h)

/-- A ledger that is written in full is loaded again. -/
theorem balancesFromTrie_committed (ledger : BalanceLedger) :
    balancesFromTrie (commitBalanceAccounts {} ledger ledger.accounts) = .ok ledger := by
  have hempty : balancesFromTrie {} = .ok {} := by decide +kernel
  rw [commitBalanceAccounts_eq]
  exact balancesFromTrie_accountWrites (by decide) hempty (covers_accounts ledger)

/-- Of two tries that load: what each holds is its ledger, and one ledger is never
two sets of entries, exactly if the keys of both are in lower case.  What is
written loads. -/
theorem loadedExactly_iff {state state' : ManagedWorldState} {balances balances' : BalanceLedger}
    (h : balancesFromTrie state = .ok balances) (h' : balancesFromTrie state' = .ok balances') :
    (LoadedExactly state balances ∧ LoadedExactly state' balances'
          ∧ (balances = balances' → (balanceEntries state).Perm (balanceEntries state'))
        ↔ LowerCase state ∧ LowerCase state')
      ∧ ∀ ledger : BalanceLedger,
        balancesFromTrie (commitBalanceAccounts {} ledger ledger.accounts) = .ok ledger := by
  refine ⟨?_, balancesFromTrie_committed⟩
  rw [← loadedExactly_iff_lowerCase h, ← loadedExactly_iff_lowerCase h']
  constructor
  · rintro ⟨hexact, hexact', -⟩
    exact ⟨hexact, hexact'⟩
  · rintro ⟨hexact, hexact'⟩
    refine ⟨hexact, hexact', ?_⟩
    rintro rfl
    exact hexact.trans hexact'.symm

/-! ## A key in upper case -/

/-- All its digits are letters. -/
def letteredAccount : Hash := Hash.ofByte 170

def letteredLedger : BalanceLedger :=
  BalanceLedger.importBalance {} letteredAccount (.fromInteger 5)

def letteredState : ManagedWorldState :=
  { trie := StateTrie.new.insert (balanceKey letteredAccount) (encodeTension (.fromInteger 5)) }

/-- Another amount, under the key in upper case. -/
def shoutedState : ManagedWorldState :=
  { trie := letteredState.trie.insert (nsBalance ++ List.replicate 64 65)
      (encodeTension (.fromInteger 9)) }

theorem letteredState_loads : balancesFromTrie letteredState = .ok letteredLedger := by
  decide +kernel

theorem letteredState_loadedExactly : LoadedExactly letteredState letteredLedger := by
  have hlower : LowerCase letteredState := by
    unfold LowerCase
    decide +kernel
  exact ((loadedExactly_iff letteredState_loads letteredState_loads).1.mpr ⟨hlower, hlower⟩).1

/-- The entry in upper case is lost: the trie loads as if it were not there. -/
theorem shoutedState_not_loadedExactly :
    balancesFromTrie letteredState = .ok letteredLedger
      ∧ balancesFromTrie shoutedState = .ok letteredLedger
      ∧ ¬ LoadedExactly shoutedState letteredLedger
      ∧ ¬ (balanceEntries letteredState).Perm (balanceEntries shoutedState) := by
  have hlength : (balanceEntries letteredState).length = 1 ∧ (balanceEntries shoutedState).length = 2
      ∧ (ledgerEntries letteredLedger).length = 1 := by decide +kernel
  refine ⟨letteredState_loads, by decide +kernel, ?_, ?_⟩
  · intro h
    have hlen := h.length_eq
    omega
  · intro h
    have hlen := h.length_eq
    omega

end Sccgub
