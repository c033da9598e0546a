import Mathlib
import Sccgub.OrderedMap
import Sccgub.Runs
import Sccgub.Types.FixedPoint

/-!
# Multi-asset ledger

Balances by agent and asset beside a total supply by asset, kept in step by five
operations.  Each call returns its result together with the ledger it leaves, so
that what a refused call does is part of the model.

`Call.Lawful` is what one call may do; `Sound` is what holds in every state.
`act_spec` proves both of one call, for burns of amounts that are not negative:
a burn does not look at the sign of its amount, and a negative one mints.
-/

namespace Sccgub

open FixedWidth Runs

abbrev AssetId := Hash

/-- Key of a balance. -/
structure AssetAccount where
  agent : AgentId
  asset : AssetId
  deriving DecidableEq

def AssetAccount.order : AssetAccount → AssetAccount → Ordering :=
  compareLex (compareOn fun a => a.agent) (compareOn fun a => a.asset)

instance : Ord AssetAccount := ⟨AssetAccount.order⟩

instance : Std.TransOrd AssetAccount := inferInstanceAs (Std.TransCmp (compareLex _ _))

instance : Std.LawfulEqOrd AssetAccount where
  eq_of_compare := by
    rintro ⟨agent, asset⟩ ⟨agent', asset'⟩ h
    obtain ⟨hagent, hasset⟩ := compareLex_eq_eq.mp h
    have h₁ := Std.LawfulEqOrd.eq_of_compare (α := Hash) hagent
    have h₂ := Std.LawfulEqOrd.eq_of_compare (α := Hash) hasset
    simp only at h₁ h₂
    rw [h₁, h₂]

inductive AssetType where
  | native
  | stablecoin (currency : String)
  | bond (maturityHeight : UInt64)
  | realEstate
  | commodity (commodity : String)
  | custom (domain : String)
  deriving DecidableEq

structure AssetInfo where
  id : AssetId
  name : String
  assetType : AssetType
  issuer : AgentId
  createdAtHeight : UInt64
  frozen : Bool
  deriving DecidableEq

@[ext] structure MultiAssetLedger where
  balances : Std.ExtTreeMap AssetAccount TensionValue := ∅
  totalSupply : Std.ExtTreeMap AssetId TensionValue := ∅
  assetInfo : Std.ExtTreeMap AssetId AssetInfo := ∅

namespace MultiAssetLedger

/-! ## The operations -/

def balanceOf (self : MultiAssetLedger) (agent : AgentId) (asset : AssetId) : TensionValue :=
  self.balances[(⟨agent, asset⟩ : AssetAccount)]?.getD .zero

def supplyOf (self : MultiAssetLedger) (asset : AssetId) : TensionValue :=
  self.totalSupply[asset]?.getD .zero

def setBalance (self : MultiAssetLedger) (agent : AgentId) (asset : AssetId)
    (amount : TensionValue) : MultiAssetLedger :=
  { self with balances := self.balances.insert ⟨agent, asset⟩ amount }

def setSupply (self : MultiAssetLedger) (asset : AssetId) (amount : TensionValue) :
    MultiAssetLedger :=
  { self with totalSupply := self.totalSupply.insert asset amount }

def registerAsset (self : MultiAssetLedger) (info : AssetInfo) :
    Except String Unit × MultiAssetLedger :=
  if self.assetInfo.contains info.id then (.error "Asset already registered", self)
  else
    let self := self.setSupply info.id .zero
    (.ok (), { self with assetInfo := self.assetInfo.insert info.id info })

def mint (self : MultiAssetLedger) (assetId : AssetId) («to» : AgentId) (amount : TensionValue) :
    Except String Unit × MultiAssetLedger :=
  match self.assetInfo[assetId]? with
  | none => (.error "Asset not registered", self)
  | some info =>
      if info.frozen then (.error "Asset is frozen — cannot mint", self)
      else if amount.raw.val ≤ 0 then (.error "Mint amount must be positive", self)
      else
        let self := self.setBalance «to» assetId (self.balanceOf «to» assetId + amount)
        (.ok (), self.setSupply assetId (self.supplyOf assetId + amount))

/-- The sign of the amount is not looked at. -/
def burn (self : MultiAssetLedger) (assetId : AssetId) («from» : AgentId) (amount : TensionValue) :
    Except String Unit × MultiAssetLedger :=
  match self.assetInfo[assetId]? with
  | none => (.error "Asset not registered", self)
  | some info =>
      if info.frozen then (.error "Asset is frozen — cannot burn", self)
      else if self.balanceOf «from» assetId < amount then
        (.error "Insufficient balance for burn", self)
      else
        let self := self.setBalance «from» assetId (self.balanceOf «from» assetId - amount)
        (.ok (), self.setSupply assetId (self.supplyOf assetId - amount))

/-- The target's balance is read after the source's has been written. -/
def transfer (self : MultiAssetLedger) (assetId : AssetId) («from» «to» : AgentId)
    (amount : TensionValue) : Except String Unit × MultiAssetLedger :=
  if amount.raw.val ≤ 0 then (.error "Transfer amount must be positive", self)
  else if «from» = «to» then (.error "Cannot transfer to self", self)
  else
    match self.assetInfo[assetId]? with
    | none => (.error "Asset not registered", self)
    | some info =>
        if info.frozen then (.error "Asset is frozen", self)
        else if self.balanceOf «from» assetId < amount then (.error "Insufficient balance", self)
        else
          let self := self.setBalance «from» assetId (self.balanceOf «from» assetId - amount)
          (.ok (), self.setBalance «to» assetId (self.balanceOf «to» assetId + amount))

def freezeAsset (self : MultiAssetLedger) (assetId : AssetId) :
    Except String Unit × MultiAssetLedger :=
  match self.assetInfo[assetId]? with
  | none => (.error "Asset not found", self)
  | some info =>
      (.ok (), { self with
        assetInfo := self.assetInfo.insert assetId { info with frozen := true } })

/-! ## Reading after a write -/

section

variable (self : MultiAssetLedger) (agent agent' : AgentId) (asset asset' : AssetId)
  (amount : TensionValue)

@[simp] theorem balanceOf_setBalance :
    (self.setBalance agent asset amount).balanceOf agent' asset'
      = if agent = agent' ∧ asset = asset' then amount else self.balanceOf agent' asset' := by
  unfold setBalance balanceOf
  rw [Std.ExtTreeMap.getElem?_insert]
  by_cases h : agent = agent' ∧ asset = asset'
  · obtain ⟨rfl, rfl⟩ := h
    simp
  · have hne : (⟨agent, asset⟩ : AssetAccount) ≠ ⟨agent', asset'⟩ := fun heq => by
      cases heq
      exact h ⟨rfl, rfl⟩
    have hcmp : compare (⟨agent, asset⟩ : AssetAccount) ⟨agent', asset'⟩ ≠ .eq :=
      fun hc => hne (Std.LawfulEqCmp.eq_of_compare hc)
    rw [if_neg hcmp, if_neg h]

@[simp] theorem supplyOf_setBalance :
    (self.setBalance agent asset amount).supplyOf asset' = self.supplyOf asset' := rfl

@[simp] theorem balanceOf_setSupply :
    (self.setSupply asset amount).balanceOf agent' asset' = self.balanceOf agent' asset' := rfl

@[simp] theorem supplyOf_setSupply :
    (self.setSupply asset amount).supplyOf asset'
      = if asset = asset' then amount else self.supplyOf asset' := by
  unfold setSupply supplyOf
  rw [Std.ExtTreeMap.getElem?_insert]
  by_cases h : asset = asset'
  · subst h
    simp
  · have hcmp : compare asset asset' ≠ .eq := fun hc => h (Std.LawfulEqCmp.eq_of_compare hc)
    rw [if_neg hcmp, if_neg h]

/-- What an entry counts for an asset. -/
def held (asset : AssetId) (entry : AssetAccount × TensionValue) : Int :=
  if entry.1.asset = asset then entry.2.raw.val else 0

/-- All balances of an asset together. -/
def circulating (self : MultiAssetLedger) (asset : AssetId) : Int :=
  OrderedMap.sumOver (held asset) self.balances

theorem circulating_setBalance :
    (self.setBalance agent asset amount).circulating asset'
      = self.circulating asset'
        + if asset = asset' then amount.raw.val - (self.balanceOf agent asset).raw.val else 0 := by
  unfold circulating setBalance balanceOf
  rw [OrderedMap.sumOver_insert]
  have hzero : TensionValue.zero.raw.val = 0 := rfl
  rcases self.balances[(⟨agent, asset⟩ : AssetAccount)]? with _ | old
  · by_cases h : asset = asset' <;> simp [held, h, hzero]
  · by_cases h : asset = asset' <;> simp [held, h]
    omega

@[simp] theorem circulating_setSupply :
    (self.setSupply asset amount).circulating asset' = self.circulating asset' := rfl

end

end MultiAssetLedger

/-! ## Calls -/

inductive AssetCall where
  | registerAsset (info : AssetInfo)
  | mint (assetId : AssetId) («to» : AgentId) (amount : TensionValue)
  | burn (assetId : AssetId) («from» : AgentId) (amount : TensionValue)
  | transfer (assetId : AssetId) («from» «to» : AgentId) (amount : TensionValue)
  | freezeAsset (assetId : AssetId)

namespace MultiAssetLedger

/-- Registered and not frozen. -/
def Live (ledger : MultiAssetLedger) (asset : AssetId) : Prop :=
  ∃ info, ledger.assetInfo[asset]? = some info ∧ info.frozen = false

instance (ledger : MultiAssetLedger) (asset : AssetId) : Decidable (ledger.Live asset) :=
  decidable_of_iff (∃ info ∈ ledger.assetInfo[asset]?, info.frozen = false) Iff.rfl

def Frozen (ledger : MultiAssetLedger) (asset : AssetId) : Prop :=
  ∃ info, ledger.assetInfo[asset]? = some info ∧ info.frozen = true

/-- No balance of the asset and not its supply is different. -/
structure SameAt (ledger ledger' : MultiAssetLedger) (asset : AssetId) : Prop where
  balance : ∀ agent, ledger'.balanceOf agent asset = ledger.balanceOf agent asset
  supply : ledger'.supplyOf asset = ledger.supplyOf asset

theorem SameAt.refl (ledger : MultiAssetLedger) (asset : AssetId) : SameAt ledger ledger asset :=
  ⟨fun _ => rfl, rfl⟩

theorem Live.not_frozen {ledger : MultiAssetLedger} {asset : AssetId} (h : ledger.Live asset) :
    ¬ ledger.Frozen asset := by
  rintro ⟨info, hinfo, hfrozen⟩
  obtain ⟨info', hinfo', hlive⟩ := h
  cases hinfo.symm.trans hinfo'
  rw [hfrozen] at hlive
  cases hlive

/-- Balances and supplies are in step. -/
structure Sound (ledger : MultiAssetLedger) : Prop where
  supply : ∀ asset, ledger.circulating asset = (ledger.supplyOf asset).raw.val
  nonneg : ∀ agent asset, 0 ≤ (ledger.balanceOf agent asset).raw.val
  unregistered : ∀ asset, ledger.assetInfo[asset]? = none → (ledger.supplyOf asset).raw.val = 0

theorem sound_empty : Sound {} := by
  refine ⟨fun asset => ?_, fun agent asset => ?_, fun asset _ => ?_⟩ <;> rfl

/-- A balance is within the supply. -/
theorem Sound.balance_le {ledger : MultiAssetLedger} (h : Sound ledger) (agent : AgentId)
    (asset : AssetId) : (ledger.balanceOf agent asset).raw.val ≤ (ledger.supplyOf asset).raw.val := by
  have hentries : ∀ e ∈ ledger.balances.toList, 0 ≤ held asset e := by
    rintro ⟨⟨agent', asset'⟩, amount⟩ he
    rw [Std.ExtTreeMap.mem_toList_iff_getElem?_eq_some] at he
    have hnonneg := h.nonneg agent' asset'
    rw [balanceOf, he, Option.getD_some] at hnonneg
    unfold held
    split_ifs
    · exact hnonneg
    · exact le_rfl
  rw [← h.supply asset, balanceOf]
  rcases hb : ledger.balances[(⟨agent, asset⟩ : AssetAccount)]? with _ | amount
  · refine List.sum_nonneg fun x hx => ?_
    obtain ⟨e, he, rfl⟩ := List.mem_map.mp hx
    exact hentries e he
  · have hle := OrderedMap.le_sumOver hentries hb
    simpa [held, circulating] using hle

/-- A balance and the supply of its asset moved by the same amount. -/
theorem Sound.adjust {ledger : MultiAssetLedger} (h : Sound ledger) {asset : AssetId}
    (hlive : ledger.Live asset) (agent : AgentId) (balance supply : TensionValue)
    (hbalance : 0 ≤ balance.raw.val)
    (hstep : supply.raw.val - (ledger.supplyOf asset).raw.val
      = balance.raw.val - (ledger.balanceOf agent asset).raw.val) :
    Sound ((ledger.setBalance agent asset balance).setSupply asset supply) := by
  refine ⟨fun asset' => ?_, fun agent' asset' => ?_, fun asset' hnone => ?_⟩
  · have hsupply := h.supply asset'
    rw [circulating_setSupply, circulating_setBalance, supplyOf_setSupply, supplyOf_setBalance]
    by_cases hasset : asset = asset'
    · subst hasset
      rw [if_pos rfl, if_pos rfl]
      omega
    · rw [if_neg hasset, if_neg hasset]
      omega
  · rw [balanceOf_setSupply, balanceOf_setBalance]
    split_ifs
    · exact hbalance
    · exact h.nonneg agent' asset'
  · have hne : asset ≠ asset' := by
      rintro rfl
      obtain ⟨info, hinfo, -⟩ := hlive
      cases hinfo.symm.trans hnone
    rw [supplyOf_setSupply, if_neg hne]
    exact h.unregistered asset' hnone

end MultiAssetLedger

namespace AssetCall

open MultiAssetLedger

def run (ledger : MultiAssetLedger) : AssetCall → Except String Unit × MultiAssetLedger
  | .registerAsset info => ledger.registerAsset info
  | .mint assetId account amount => ledger.mint assetId account amount
  | .burn assetId account amount => ledger.burn assetId account amount
  | .transfer assetId source target amount => ledger.transfer assetId source target amount
  | .freezeAsset assetId => ledger.freezeAsset assetId

def act (ledger : MultiAssetLedger) (call : AssetCall) : MultiAssetLedger := (call.run ledger).2

/-- The asset it is about. -/
def assetId : AssetCall → AssetId
  | .registerAsset info => info.id
  | .mint assetId .. | .burn assetId .. | .transfer assetId .. | .freezeAsset assetId => assetId

/-! ## What a call can do -/

/-- A call that is not refused, and the ledger it leaves. -/
inductive Applied (ledger : MultiAssetLedger) : AssetCall → MultiAssetLedger → Prop
  | registerAsset (info : AssetInfo) (hfresh : ledger.assetInfo[info.id]? = none) :
      Applied ledger (.registerAsset info) { ledger.setSupply info.id .zero with
        assetInfo := ledger.assetInfo.insert info.id info }
  | mint {asset : AssetId} (account : AgentId) {amount : TensionValue} (hlive : ledger.Live asset)
      (hpos : 0 < amount.raw.val) :
      Applied ledger (.mint asset account amount)
        ((ledger.setBalance account asset (ledger.balanceOf account asset + amount)).setSupply asset
          (ledger.supplyOf asset + amount))
  | burn {asset : AssetId} {account : AgentId} {amount : TensionValue} (hlive : ledger.Live asset)
      (hle : amount.raw.val ≤ (ledger.balanceOf account asset).raw.val) :
      Applied ledger (.burn asset account amount)
        ((ledger.setBalance account asset (ledger.balanceOf account asset - amount)).setSupply asset
          (ledger.supplyOf asset - amount))
  | transfer {asset : AssetId} {source target : AgentId} {amount : TensionValue}
      (hlive : ledger.Live asset) (hpos : 0 < amount.raw.val) (hne : source ≠ target)
      (hle : amount.raw.val ≤ (ledger.balanceOf source asset).raw.val) :
      Applied ledger (.transfer asset source target amount)
        ((ledger.setBalance source asset (ledger.balanceOf source asset - amount)).setBalance target
          asset (ledger.balanceOf target asset + amount))
  | freezeAsset {asset : AssetId} {info : AssetInfo} (hinfo : ledger.assetInfo[asset]? = some info) :
      Applied ledger (.freezeAsset asset) { ledger with
        assetInfo := ledger.assetInfo.insert asset { info with frozen := true } }

theorem run_cases (ledger : MultiAssetLedger) (call : AssetCall) :
    (∃ e, call.run ledger = (.error e, ledger))
      ∨ (call.run ledger).1 = .ok () ∧ Applied ledger call (call.act ledger) := by
  unfold act
  cases call with
  | registerAsset info =>
      simp only [run, MultiAssetLedger.registerAsset]
      split
      · exact .inl ⟨_, rfl⟩
      · rename_i hcontains
        refine .inr ⟨rfl, .registerAsset info ?_⟩
        rw [Std.ExtTreeMap.contains_eq_isSome_getElem?] at hcontains
        simpa using hcontains
  | mint asset account amount =>
      simp only [run, MultiAssetLedger.mint]
      split
      · exact .inl ⟨_, rfl⟩
      · rename_i info hinfo
        split_ifs with hfrozen hpos
        · exact .inl ⟨_, rfl⟩
        · exact .inl ⟨_, rfl⟩
        · exact .inr ⟨rfl, .mint account ⟨info, hinfo, Bool.eq_false_of_not_eq_true hfrozen⟩
            (not_le.mp hpos)⟩
  | burn asset account amount =>
      simp only [run, MultiAssetLedger.burn]
      split
      · exact .inl ⟨_, rfl⟩
      · rename_i info hinfo
        split_ifs with hfrozen hshort
        · exact .inl ⟨_, rfl⟩
        · exact .inl ⟨_, rfl⟩
        · exact .inr ⟨rfl, .burn ⟨info, hinfo, Bool.eq_false_of_not_eq_true hfrozen⟩
            (not_lt.mp hshort)⟩
  | transfer asset source target amount =>
      simp only [run, MultiAssetLedger.transfer]
      by_cases hpos : amount.raw.val ≤ 0
      · rw [if_pos hpos]
        exact .inl ⟨_, rfl⟩
      by_cases hself : source = target
      · rw [if_neg hpos, if_pos hself]
        exact .inl ⟨_, rfl⟩
      · rw [if_neg hpos, if_neg hself]
        split
        · exact .inl ⟨_, rfl⟩
        · rename_i info hinfo
          split_ifs with hfrozen hshort
          · exact .inl ⟨_, rfl⟩
          · exact .inl ⟨_, rfl⟩
          · refine .inr ⟨rfl, ?_⟩
            have happlied : Applied ledger (.transfer asset source target amount) _ :=
              .transfer ⟨info, hinfo, Bool.eq_false_of_not_eq_true hfrozen⟩ (not_le.mp hpos) hself
                (not_lt.mp hshort)
            simpa [hself] using happlied
  | freezeAsset asset =>
      simp only [run, MultiAssetLedger.freezeAsset]
      split
      · exact .inl ⟨_, rfl⟩
      · rename_i info hinfo
        exact .inr ⟨rfl, .freezeAsset hinfo⟩

variable {ledger ledger' : MultiAssetLedger} {call : AssetCall} {asset : AssetId}

/-- Only the asset that the call is about. -/
theorem Applied.sameAt (h : Applied ledger call ledger') (hne : asset ≠ call.assetId) :
    SameAt ledger ledger' asset := by
  cases h with
  | registerAsset info hfresh =>
      exact ⟨fun _ => rfl, (supplyOf_setSupply ..).trans (if_neg (Ne.symm hne))⟩
  | mint account hlive hpos =>
      refine ⟨fun agent => ?_, ?_⟩
      · rw [balanceOf_setSupply, balanceOf_setBalance, if_neg fun heq => hne heq.2.symm]
      · rw [supplyOf_setSupply, if_neg fun heq => hne heq.symm, supplyOf_setBalance]
  | burn hlive hle =>
      refine ⟨fun agent => ?_, ?_⟩
      · rw [balanceOf_setSupply, balanceOf_setBalance, if_neg fun heq => hne heq.2.symm]
      · rw [supplyOf_setSupply, if_neg fun heq => hne heq.symm, supplyOf_setBalance]
  | transfer hlive hpos hdistinct hle =>
      refine ⟨fun agent => ?_, ?_⟩
      · rw [balanceOf_setBalance, if_neg fun heq => hne heq.2.symm, balanceOf_setBalance,
          if_neg fun heq => hne heq.2.symm]
      · rw [supplyOf_setBalance, supplyOf_setBalance]
  | freezeAsset hinfo => exact ⟨fun _ => rfl, rfl⟩

/-- A frozen asset keeps its balances and stays frozen. -/
theorem Applied.frozen (h : Applied ledger call ledger') (hfrozen : ledger.Frozen asset) :
    SameAt ledger ledger' asset ∧ ledger'.Frozen asset := by
  have hinsert : ∀ {other : AssetId} {info : AssetInfo}, (other = asset → info.frozen = true) →
      ∃ info', (ledger.assetInfo.insert other info)[asset]? = some info' ∧ info'.frozen = true := by
    intro other info hother
    obtain ⟨old, hold, hold_frozen⟩ := hfrozen
    rw [Std.ExtTreeMap.getElem?_insert]
    by_cases heq : other = asset
    · exact ⟨info, if_pos (by rw [heq]; exact Std.ReflCmp.compare_self), hother heq⟩
    · exact ⟨old, (if_neg fun hc => heq (Std.LawfulEqCmp.eq_of_compare hc)).trans hold, hold_frozen⟩
  by_cases hasset : asset = call.assetId
  · subst hasset
    cases h with
    | registerAsset info hfresh =>
        obtain ⟨old, hold, -⟩ := hfrozen
        cases hold.symm.trans hfresh
    | mint account hlive hpos => exact absurd hfrozen hlive.not_frozen
    | burn hlive hle => exact absurd hfrozen hlive.not_frozen
    | transfer hlive hpos hdistinct hle => exact absurd hfrozen hlive.not_frozen
    | freezeAsset hinfo => exact ⟨⟨fun _ => rfl, rfl⟩, hinsert fun _ => rfl⟩
  · refine ⟨h.sameAt hasset, ?_⟩
    cases h with
    | registerAsset info hfresh => exact hinsert fun heq => absurd heq.symm hasset
    | mint account hlive hpos => exact hfrozen
    | burn hlive hle => exact hfrozen
    | transfer hlive hpos hdistinct hle => exact hfrozen
    | freezeAsset hinfo => exact hinsert fun heq => absurd heq.symm hasset

/-! ## One call -/

/-- What a call may do to the supplies, to frozen assets, to other assets, and
when it is refused. -/
structure Lawful (ledger : MultiAssetLedger) (call : AssetCall) : Prop where
  raised : ∀ asset, (ledger.supplyOf asset).raw.val < ((call.act ledger).supplyOf asset).raw.val →
    ∃ account amount, call = .mint asset account amount
  lowered : ∀ asset, ((call.act ledger).supplyOf asset).raw.val < (ledger.supplyOf asset).raw.val →
    ∃ account amount, call = .burn asset account amount
  frozen : ∀ asset, ledger.Frozen asset →
    SameAt ledger (call.act ledger) asset ∧ (call.act ledger).Frozen asset
  apart : ∀ asset, asset ≠ call.assetId → SameAt ledger (call.act ledger) asset
  refused : ∀ e, (call.run ledger).1 = .error e → call.act ledger = ledger

/-- Where calls are not refused for the asset: mints that stay in range, and
burns of amounts that are not negative. -/
def Admissible (ledger : MultiAssetLedger) : AssetCall → Prop
  | .mint asset _ amount =>
      ledger.Live asset → (ledger.supplyOf asset).raw.val + amount.raw.val ≤ i128Max
  | .burn asset _ amount => ledger.Live asset → 0 ≤ amount.raw.val
  | _ => True

instance (ledger : MultiAssetLedger) : (call : AssetCall) → Decidable (Admissible ledger call)
  | .mint .. => inferInstanceAs (Decidable (_ → _))
  | .burn .. => inferInstanceAs (Decidable (_ → _))
  | .registerAsset _ | .transfer .. | .freezeAsset _ => .isTrue trivial

theorem Applied.sound (h : Applied ledger call ledger') (hsound : Sound ledger)
    (hadmissible : Admissible ledger call) : Sound ledger' := by
  cases h with
  | registerAsset info hfresh =>
      -- the supply of an asset that is not registered was zero before
      have hzero : TensionValue.zero.raw.val = 0 := rfl
      have hsupply : ∀ asset, ((ledger.setSupply info.id .zero).supplyOf asset).raw.val
          = (ledger.supplyOf asset).raw.val := by
        intro asset
        rw [supplyOf_setSupply]
        split_ifs with heq
        · rw [hzero, ← heq, hsound.unregistered info.id hfresh]
        · rfl
      refine ⟨fun asset => (hsound.supply asset).trans (hsupply asset).symm,
        fun agent asset => hsound.nonneg agent asset, fun asset hnone => ?_⟩
      refine (hsupply asset).trans (hsound.unregistered asset ?_)
      dsimp only at hnone
      rw [Std.ExtTreeMap.getElem?_insert] at hnone
      split_ifs at hnone
      exact hnone
  | @mint asset account amount hlive hpos =>
      have hfits : (ledger.supplyOf asset).raw.val + amount.raw.val ≤ i128Max := hadmissible hlive
      have hnonneg := hsound.nonneg account asset
      have hle := hsound.balance_le account asset
      have hbalance := TensionValue.add_val (a := ledger.balanceOf account asset) (b := amount)
        (by omega) (by omega)
      have hsupply := TensionValue.add_val (a := ledger.supplyOf asset) (b := amount)
        (by omega) hfits
      exact hsound.adjust hlive account _ _ (by omega) (by omega)
  | @burn asset account amount hlive hshort =>
      have hamount : 0 ≤ amount.raw.val := hadmissible hlive
      have hle := hsound.balance_le account asset
      have hbalance := TensionValue.sub_val (a := ledger.balanceOf account asset) (b := amount)
        (by omega) hamount
      have hsupply := TensionValue.sub_val (a := ledger.supplyOf asset) (b := amount)
        (by omega) hamount
      exact hsound.adjust hlive account _ _ (by omega) (by omega)
  | @transfer asset source target amount hlive hpos hne hshort =>
      -- half-way the supply would be short of the amount under way
      have hle := hsound.balance_le source asset
      have hsource := TensionValue.sub_val (a := ledger.balanceOf source asset) (b := amount)
        (by omega) hpos.le
      have hsupply := TensionValue.sub_val (a := ledger.supplyOf asset) (b := amount)
        (by omega) hpos.le
      have hmid := hsound.adjust hlive source (ledger.balanceOf source asset - amount)
        (ledger.supplyOf asset - amount) (by omega) (by omega)
      have htarget_le := hmid.balance_le target asset
      have htarget_nonneg := hsound.nonneg target asset
      have hmax := (ledger.supplyOf asset).raw.le_max
      rw [balanceOf_setSupply, balanceOf_setBalance, if_neg fun heq => hne heq.1,
        supplyOf_setSupply, if_pos rfl] at htarget_le
      have htarget := TensionValue.add_val (a := ledger.balanceOf target asset) (b := amount)
        (by omega) (by unfold i128Max; omega)
      have hend := hmid.adjust hlive target (ledger.balanceOf target asset + amount)
        (ledger.supplyOf asset) (by omega) (by
          rw [supplyOf_setSupply, if_pos rfl, balanceOf_setSupply, balanceOf_setBalance,
            if_neg fun heq => hne heq.1]
          omega)
      refine ⟨fun asset' => ?_, hend.nonneg, hsound.unregistered⟩
      refine (hend.supply asset').trans ?_
      rw [supplyOf_setSupply, supplyOf_setBalance, supplyOf_setSupply, supplyOf_setBalance,
        supplyOf_setBalance, supplyOf_setBalance]
      split_ifs with heq
      · rw [heq]
      · rfl
  | freezeAsset hinfo =>
      refine ⟨hsound.supply, hsound.nonneg, fun asset hnone => hsound.unregistered asset ?_⟩
      dsimp only at hnone
      rw [Std.ExtTreeMap.getElem?_insert] at hnone
      split_ifs at hnone
      exact hnone

/-- A supply is raised by a mint and lowered by a burn. -/
theorem Applied.supply (h : Applied ledger call ledger') (hsound : Sound ledger)
    (hadmissible : Admissible ledger call) (asset : AssetId) :
    ((ledger.supplyOf asset).raw.val < (ledger'.supplyOf asset).raw.val →
        ∃ account amount, call = .mint asset account amount)
      ∧ ((ledger'.supplyOf asset).raw.val < (ledger.supplyOf asset).raw.val →
        ∃ account amount, call = .burn asset account amount) := by
  have hself : ∀ {x : Int} {p : Prop}, x < x → p := fun hlt => absurd hlt (lt_irrefl _)
  by_cases hasset : call.assetId = asset
  · cases h with
    | registerAsset info hfresh =>
        obtain rfl : info.id = asset := hasset
        have hsame : ((ledger.setSupply info.id .zero).supplyOf info.id).raw.val
            = (ledger.supplyOf info.id).raw.val := by
          rw [supplyOf_setSupply, if_pos rfl, hsound.unregistered info.id hfresh]
          rfl
        exact ⟨fun hlt => absurd hlt hsame.not_gt, fun hlt => absurd hlt hsame.not_lt⟩
    | @mint minted account amount hlive hpos =>
        obtain rfl : minted = asset := hasset
        have hnonneg := (hsound.nonneg account minted).trans (hsound.balance_le account minted)
        have hsupply := TensionValue.add_val (a := ledger.supplyOf minted) (b := amount)
          (by omega) (hadmissible hlive)
        rw [supplyOf_setSupply, if_pos rfl, hsupply]
        exact ⟨fun _ => ⟨account, amount, rfl⟩, fun hlt => by omega⟩
    | @burn burned account amount hlive hshort =>
        obtain rfl : burned = asset := hasset
        have hamount : 0 ≤ amount.raw.val := hadmissible hlive
        have hle := hsound.balance_le account burned
        have hsupply := TensionValue.sub_val (a := ledger.supplyOf burned) (b := amount)
          (by omega) hamount
        rw [supplyOf_setSupply, if_pos rfl, hsupply]
        exact ⟨fun hlt => by omega, fun _ => ⟨account, amount, rfl⟩⟩
    | transfer hlive hpos hne hshort => exact ⟨hself, hself⟩
    | freezeAsset hinfo => exact ⟨hself, hself⟩
  · rw [(h.sameAt (Ne.symm hasset)).supply]
    exact ⟨hself, hself⟩

/-- One call from a sound ledger. -/
theorem act_spec (hsound : Sound ledger) (hadmissible : Admissible ledger call) :
    Sound (call.act ledger) ∧ Lawful ledger call := by
  rcases run_cases ledger call with ⟨e, hrefused⟩ | ⟨hok, happlied⟩
  · have hact : call.act ledger = ledger := congrArg Prod.snd hrefused
    refine ⟨hact.symm ▸ hsound, ?_⟩
    constructor
    · intro asset hlt
      rw [hact] at hlt
      exact absurd hlt (lt_irrefl _)
    · intro asset hlt
      rw [hact] at hlt
      exact absurd hlt (lt_irrefl _)
    · intro asset hfrozen
      rw [hact]
      exact ⟨.refl ledger asset, hfrozen⟩
    · intro asset _
      rw [hact]
      exact .refl ledger asset
    · exact fun _ _ => hact
  · refine ⟨happlied.sound hsound hadmissible, ?_⟩
    constructor
    · exact fun asset => (happlied.supply hsound hadmissible asset).1
    · exact fun asset => (happlied.supply hsound hadmissible asset).2
    · exact fun asset => happlied.frozen
    · exact fun asset => happlied.sameAt
    · intro e herror
      rw [hok] at herror
      cases herror

/-! ## Runs -/

/-- The balances of an asset add up to its supply, and none is negative. -/
structure Balanced (ledger : MultiAssetLedger) : Prop where
  supply : ∀ asset, ledger.circulating asset = (ledger.supplyOf asset).raw.val
  nonneg : ∀ agent asset, 0 ≤ (ledger.balanceOf agent asset).raw.val

/-- From an empty ledger, as long as no burn is of a negative amount. -/
theorem balanced_of_admissible (calls : List AssetCall)
    (h : Along act Admissible {} calls) :
    Throughout act Balanced {} calls ∧ Along act Lawful {} calls := by
  have hkeep : ∀ ledger call, Sound ledger → Admissible ledger call → Sound (call.act ledger) :=
    fun _ _ hsound hadmissible => (act_spec hsound hadmissible).1
  refine ⟨?_, along_of_invariant hkeep (fun _ _ hsound hc => (act_spec hsound hc).2) sound_empty h⟩
  exact (throughout_of_along hkeep sound_empty h).mono fun _ hsound =>
    ⟨hsound.supply, hsound.nonneg⟩

/-! ## A burn that mints -/

def tokenInfo : AssetInfo where
  id := Hash.ofByte 1
  name := "SCCG"
  assetType := .native
  issuer := zeroHash
  createdAtHeight := 0
  frozen := false

theorem balanced_of_admissible_transfer :
    let calls : List AssetCall := [.registerAsset tokenInfo,
      .mint (Hash.ofByte 1) (Hash.ofByte 10) (.fromInteger 100),
      .transfer (Hash.ofByte 1) (Hash.ofByte 10) (Hash.ofByte 11) (.fromInteger 40),
      .burn (Hash.ofByte 1) (Hash.ofByte 10) (.fromInteger 30)]
    Throughout act Balanced {} calls ∧ Along act Lawful {} calls :=
  balanced_of_admissible _ (by decide +kernel)

/-- Burning minus five units makes five out of nothing. -/
theorem burn_mints :
    let ledger := (AssetCall.registerAsset tokenInfo).act {}
    let call : AssetCall := .burn (Hash.ofByte 1) (Hash.ofByte 10) (.fromInteger (-5))
    (call.run ledger).1 = .ok ()
      ∧ (ledger.supplyOf (Hash.ofByte 1)).raw.val = 0
      ∧ ((call.act ledger).supplyOf (Hash.ofByte 1)).raw.val = 5 * TensionValue.scale
      ∧ ¬ Lawful ledger call := by
  intro ledger call
  have hbefore : (ledger.supplyOf (Hash.ofByte 1)).raw.val = 0 := by decide +kernel
  have hafter : ((call.act ledger).supplyOf (Hash.ofByte 1)).raw.val = 5 * TensionValue.scale := by
    decide +kernel
  refine ⟨by decide +kernel, hbefore, hafter, fun h => ?_⟩
  obtain ⟨account, amount, hcall⟩ := h.raised (Hash.ofByte 1) (by rw [hbefore, hafter]; decide)
  exact AssetCall.noConfusion hcall

end AssetCall

end Sccgub
