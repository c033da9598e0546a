import Mathlib
import Sccgub.Fallible
import Sccgub.Runs
import Sccgub.Types.Namespace

/-!
# Domain packs

A registry of packs that bring types and laws of their own.  A pack is installed
on packs that are installed and active already, and is deactivated only while no
active pack depends on it.

Every pack is installed after what it depends on and stays there, so the list is
an order of the dependencies: they have no cycle, and what an active pack
depends on is active.
-/

namespace Sccgub

open Bincode

/-- A check that fails with the error. -/
def ensure {ε : Type} (holds : Bool) (e : ε) : Except ε Unit :=
  if holds then return () else throw e

@[simp] theorem ensure_eq_ok_iff {ε : Type} {holds : Bool} {e : ε} :
    ensure holds e = .ok () ↔ holds = true := by
  cases holds <;> simp [ensure, pure, Except.pure, throw, throwThe, MonadExceptOf.throw]

theorem forM_eq_ok_iff {α ε : Type} {check : α → Except ε Unit} {l : List α} :
    forM l check = .ok () ↔ ∀ a ∈ l, check a = .ok () := by
  induction l with
  | nil => simp [pure, Except.pure]
  | cons a l ih => rw [List.forM_cons, Fallible.check_bind_eq_ok_iff, ih, List.forall_mem_cons]

/-! ## Packs -/

structure DomainField where
  name : String
  fieldType : String
  required : Bool
  deriving DecidableEq

structure DomainType where
  name : String
  schema : String
  fields : List DomainField
  deriving DecidableEq

structure DomainPack where
  id : Hash
  name : String
  version : String
  description : String
  requiredLevel : PrecedenceLevel
  types : List DomainType
  laws : List Constraint
  dependencies : List Hash
  installedAt : Option UInt64
  active : Bool
  deriving DecidableEq

structure DomainPackRegistry where
  packs : List DomainPack
  deriving DecidableEq

namespace DomainPackRegistry

/-- A pack that is active may not have a type of the same name. -/
def checkName (newType : DomainType) (existing : DomainPack) : Except String Unit :=
  if existing.active then
    existing.types.forM fun existingType =>
      ensure (existingType.name ≠ newType.name)
        s!"Type name collision: {newType.name} already defined by pack {existing.name}"
  else return ()

/-- What is checked before a pack goes in. -/
def checkInstall (self : DomainPackRegistry) (pack : DomainPack) (installerLevel : PrecedenceLevel) :
    Except String Unit := do
  ensure (installerLevel.asU8 ≤ pack.requiredLevel.asU8)
    s!"Insufficient authority: need {pack.requiredLevel.debug}, have {installerLevel.debug}"
  ensure (!self.packs.any (·.id = pack.id))
    s!"Domain pack {hexEncode pack.id.toList} already installed"
  pack.dependencies.forM fun dep =>
    ensure (self.packs.any fun p => p.id = dep && p.active)
      s!"Missing dependency: {hexEncode dep.toList}"
  pack.types.forM fun newType => self.packs.forM (checkName newType)

def install (self : DomainPackRegistry) (pack : DomainPack) (installerLevel : PrecedenceLevel)
    (currentHeight : UInt64) : Except String Unit × DomainPackRegistry :=
  match self.checkInstall pack installerLevel with
  | .error e => (.error e, self)
  | .ok () =>
      (.ok (), ⟨self.packs ++ [{ pack with installedAt := some currentHeight, active := true }]⟩)

/-- The first pack with the id is made inactive, if there is one. -/
def setInactive (packId : Hash) : List DomainPack → Option (List DomainPack)
  | [] => none
  | pack :: packs =>
      if pack.id = packId then some ({ pack with active := false } :: packs)
      else (setInactive packId packs).map (pack :: ·)

def deactivate (self : DomainPackRegistry) (packId : Hash) :
    Except String Unit × DomainPackRegistry :=
  match self.packs.find? (fun p => p.active && p.dependencies.contains packId) with
  | some p => (.error s!"Cannot deactivate: pack '{p.name}' depends on it", self)
  | none =>
      match setInactive packId self.packs with
      | none => (.error "Pack not found", self)
      | some packs => (.ok (), ⟨packs⟩)

/-- What one call of `deactivate` makes of a pack. -/
def deactivated (packId : Hash) (pack : DomainPack) : DomainPack :=
  if pack.id = packId then { pack with active := false } else pack

@[simp] theorem deactivated_id (packId : Hash) (pack : DomainPack) :
    (deactivated packId pack).id = pack.id := by
  unfold deactivated
  split <;> rfl

@[simp] theorem deactivated_dependencies (packId : Hash) (pack : DomainPack) :
    (deactivated packId pack).dependencies = pack.dependencies := by
  unfold deactivated
  split <;> rfl

@[simp] theorem deactivated_types (packId : Hash) (pack : DomainPack) :
    (deactivated packId pack).types = pack.types := by
  unfold deactivated
  split <;> rfl

@[simp] theorem deactivated_active (packId : Hash) (pack : DomainPack) :
    (deactivated packId pack).active = true ↔ pack.id ≠ packId ∧ pack.active = true := by
  unfold deactivated
  split <;> simp [*]

def allDomainLaws (self : DomainPackRegistry) : List Constraint :=
  (self.packs.filter (·.active)).flatMap (·.laws)

/-! ## What is kept -/

def DependsOn (self : DomainPackRegistry) (a b : Hash) : Prop :=
  ∃ p ∈ self.packs, p.id = a ∧ b ∈ p.dependencies

/-- What the registry is to keep across its calls. -/
structure Closed (registry : DomainPackRegistry) : Prop where
  unique : (registry.packs.map (·.id)).Nodup
  depends : ∀ p ∈ registry.packs, p.active = true → ∀ dep ∈ p.dependencies,
    ∃ q ∈ registry.packs, q.id = dep ∧ q.active = true
  acyclic : ∀ a, ¬ Relation.TransGen registry.DependsOn a a
  names : ∀ p ∈ registry.packs, ∀ q ∈ registry.packs, p ≠ q → p.active = true → q.active = true →
    ∀ s ∈ p.types, ∀ t ∈ q.types, s.name ≠ t.name
  laws : (⟨registry.packs.filter (·.active)⟩ : DomainPackRegistry).allDomainLaws = registry.allDomainLaws
    ∧ ∀ law ∈ registry.allDomainLaws, ∃ p ∈ registry.packs, p.active = true ∧ law ∈ p.laws

/-- An earlier pack that a later one can stand on. -/
def Supports (earlier : List DomainPack) (pack : DomainPack) : Prop :=
  ∀ dep ∈ pack.dependencies, ∃ q ∈ earlier, q.id = dep ∧ (pack.active = true → q.active = true)

/-- Two packs that can be in one registry. -/
def Apart (p q : DomainPack) : Prop :=
  p.id ≠ q.id ∧ (p.active = true → q.active = true →
    ∀ s ∈ p.types, ∀ t ∈ q.types, s.name ≠ t.name)

/-- The packs in their order: each is supported by the earlier ones. -/
inductive Layered : List DomainPack → Prop where
  | nil : Layered []
  | snoc {packs : List DomainPack} {pack : DomainPack} (h : Layered packs)
      (hsupports : Supports packs pack) (hapart : ∀ p ∈ packs, Apart p pack) :
      Layered (packs ++ [pack])

/-! ## Calls that succeed -/

/-- What a pack needs to go in. -/
structure Admissible (registry : DomainPackRegistry) (pack : DomainPack)
    (installerLevel : PrecedenceLevel) : Prop where
  level : installerLevel.asU8 ≤ pack.requiredLevel.asU8
  fresh : ∀ p ∈ registry.packs, p.id ≠ pack.id
  supported : ∀ dep ∈ pack.dependencies, ∃ q ∈ registry.packs, q.id = dep ∧ q.active = true
  names : ∀ t ∈ pack.types, ∀ p ∈ registry.packs, p.active = true → ∀ s ∈ p.types, s.name ≠ t.name

theorem checkName_eq_ok_iff {newType : DomainType} {existing : DomainPack} :
    checkName newType existing = .ok () ↔
      (existing.active = true → ∀ s ∈ existing.types, s.name ≠ newType.name) := by
  unfold checkName
  by_cases h : existing.active = true
  · simp [h, List.forM_eq_forM, forM_eq_ok_iff]
  · simp [h, pure, Except.pure]

theorem checkInstall_eq_ok_iff {self : DomainPackRegistry} {pack : DomainPack}
    {installerLevel : PrecedenceLevel} :
    self.checkInstall pack installerLevel = .ok () ↔ self.Admissible pack installerLevel := by
  unfold checkInstall
  simp only [Fallible.check_bind_eq_ok_iff, List.forM_eq_forM, forM_eq_ok_iff, ensure_eq_ok_iff, checkName_eq_ok_iff,
    decide_eq_true_eq, Bool.not_eq_true', List.any_eq_false, List.any_eq_true, Bool.and_eq_true]
  exact ⟨fun h => ⟨h.1, h.2.1, h.2.2.1, h.2.2.2⟩, fun h => ⟨h.1, h.2, h.3, h.4⟩⟩

theorem setInactive_eq_map {packId : Hash} {packs packs' : List DomainPack}
    (h : setInactive packId packs = some packs') (hunique : (packs.map (·.id)).Nodup) :
    packs' = packs.map (deactivated packId) := by
  induction packs generalizing packs' with
  | nil => cases h
  | cons pack packs ih =>
      rw [List.map_cons, List.nodup_cons] at hunique
      unfold setInactive at h
      by_cases hid : pack.id = packId
      · rw [if_pos hid] at h
        cases h
        have hrest : packs.map (deactivated packId) = packs := by
          refine (List.map_congr_left fun p hp => if_neg ?_).trans (List.map_id' packs)
          rintro rfl
          exact hunique.1 (hid ▸ List.mem_map_of_mem hp)
        rw [List.map_cons, hrest, deactivated, if_pos hid]
      · rw [if_neg hid, Option.map_eq_some_iff] at h
        obtain ⟨rest, hrest, rfl⟩ := h
        rw [List.map_cons, ih hrest hunique.2, deactivated, if_neg hid]

/-! ## The order of the packs -/

theorem Layered.pairwise {packs : List DomainPack} (h : Layered packs) : packs.Pairwise Apart := by
  induction h with
  | nil => exact List.Pairwise.nil
  | snoc h hsupports hapart ih =>
      refine List.pairwise_append.mpr ⟨ih, List.pairwise_singleton _ _, fun p hp q hq => ?_⟩
      rw [List.mem_singleton.mp hq]
      exact hapart p hp

theorem Layered.unique {packs : List DomainPack} (h : Layered packs) :
    (packs.map (·.id)).Nodup :=
  List.pairwise_map.mpr (h.pairwise.imp And.left)

theorem Layered.depends {packs : List DomainPack} (h : Layered packs) :
    ∀ p ∈ packs, p.active = true → ∀ dep ∈ p.dependencies,
      ∃ q ∈ packs, q.id = dep ∧ q.active = true := by
  induction h with
  | nil => simp
  | snoc h hsupports hapart ih =>
      intro p hp hactive dep hdep
      rcases List.mem_append.mp hp with hp | hp
      · obtain ⟨q, hq, hid, hqactive⟩ := ih p hp hactive dep hdep
        exact ⟨q, List.mem_append_left _ hq, hid, hqactive⟩
      · rw [List.mem_singleton.mp hp] at hactive hdep
        obtain ⟨q, hq, hid, hqactive⟩ := hsupports dep hdep
        exact ⟨q, List.mem_append_left _ hq, hid, hqactive hactive⟩

/-- A pack stands after what it depends on. -/
theorem Layered.rank {packs : List DomainPack} (h : Layered packs) {a b : Hash}
    (hdep : DependsOn ⟨packs⟩ a b) :
    (packs.map (·.id)).idxOf b < (packs.map (·.id)).idxOf a := by
  induction h with
  | nil =>
      obtain ⟨p, hp, -⟩ := hdep
      cases hp
  | @snoc packs pack h hsupports hapart ih =>
      obtain ⟨p, hp, rfl, hb⟩ := hdep
      have hbefore : ∀ q ∈ packs, q.id ∈ packs.map (·.id) := fun q hq => List.mem_map_of_mem hq
      rw [List.map_append]
      rcases List.mem_append.mp hp with hp | hp
      · have hlt := ih ⟨p, hp, rfl, hb⟩
        rw [List.idxOf_append_of_mem (hbefore p hp)]
        rw [List.idxOf_append_of_mem]
        · exact hlt
        · rw [← List.idxOf_lt_length_iff]
          exact hlt.trans (List.idxOf_lt_length_iff.mpr (hbefore p hp))
      · obtain rfl : p = pack := List.mem_singleton.mp hp
        obtain ⟨q, hq, rfl, -⟩ := hsupports _ hb
        have hfresh : p.id ∉ packs.map (·.id) := by
          intro hmem
          obtain ⟨r, hr, hid⟩ := List.mem_map.mp hmem
          exact (hapart r hr).1 hid
        rw [List.idxOf_append_of_mem (hbefore q hq), List.idxOf_append_of_notMem hfresh]
        exact Nat.lt_add_right _ (List.idxOf_lt_length_iff.mpr (hbefore q hq))

theorem Apart.symm {p q : DomainPack} (h : Apart p q) : Apart q p :=
  ⟨h.1.symm, fun hq hp s hs t ht heq => h.2 hp hq t ht s hs heq.symm⟩

/-- What the order of the packs gives. -/
theorem Layered.closed {self : DomainPackRegistry} (h : Layered self.packs) : self.Closed where
  unique := h.unique
  depends := h.depends
  acyclic := by
    intro a hcycle
    have hlt := hcycle.lift (p := (· > ·)) (self.packs.map (·.id)).idxOf fun a b hab => h.rank hab
    rw [Relation.transGen_eq_self] at hlt
    exact lt_irrefl _ hlt
  names := by
    intro p hp q hq hne
    have : Std.Symm Apart := ⟨fun _ _ => Apart.symm⟩
    exact (h.pairwise.forall hp hq hne).2
  laws := by
    refine ⟨by simp [allDomainLaws], fun law hlaw => ?_⟩
    obtain ⟨p, hp, hmem⟩ := List.mem_flatMap.mp hlaw
    obtain ⟨hp, hactive⟩ := List.mem_filter.mp hp
    exact ⟨p, hp, hactive, hmem⟩

/-! ## Calls -/

theorem install_layered {self : DomainPackRegistry} {pack : DomainPack} {level : PrecedenceLevel}
    {height : UInt64} (h : Layered self.packs) :
    Layered (self.install pack level height).2.packs := by
  unfold install
  cases hcheck : self.checkInstall pack level with
  | error e => exact h
  | ok =>
      have hadmissible := checkInstall_eq_ok_iff.mp hcheck
      refine h.snoc ?_ ?_
      · intro dep hdep
        obtain ⟨q, hq, hid, hactive⟩ := hadmissible.supported dep hdep
        exact ⟨q, hq, hid, fun _ => hactive⟩
      · intro p hp
        exact ⟨hadmissible.fresh p hp, fun hactive _ s hs t ht =>
          hadmissible.names t ht p hp hactive s hs⟩

theorem install_of_error {self : DomainPackRegistry} {pack : DomainPack} {level : PrecedenceLevel}
    {height : UInt64} {e : String} (h : (self.install pack level height).1 = .error e) :
    (self.install pack level height).2 = self := by
  unfold install at *
  cases hcheck : self.checkInstall pack level with
  | error e => rfl
  | ok => rw [hcheck] at h; cases h

/-- A pack goes inactive while no active pack depends on it. -/
theorem Layered.map_deactivated {packs : List DomainPack} {packId : Hash} (h : Layered packs)
    (hfree : ∀ p ∈ packs, p.active = true → packId ∉ p.dependencies) :
    Layered (packs.map (deactivated packId)) := by
  induction h with
  | nil => exact Layered.nil
  | @snoc packs pack h hsupports hapart ih =>
      rw [List.map_append]
      have hpack : pack ∈ packs ++ [pack] := by simp
      refine (ih fun p hp => hfree p (List.mem_append_left _ hp)).snoc ?_ ?_
      · intro dep hdep
        rw [deactivated_dependencies] at hdep
        obtain ⟨q, hq, rfl, hactive⟩ := hsupports dep hdep
        refine ⟨_, List.mem_map_of_mem hq, deactivated_id _ _, fun hpackActive => ?_⟩
        rw [deactivated_active] at hpackActive ⊢
        refine ⟨?_, hactive hpackActive.2⟩
        rintro rfl
        exact hfree pack hpack hpackActive.2 hdep
      · intro p hp
        obtain ⟨q, hq, rfl⟩ := List.mem_map.mp hp
        obtain ⟨hne, hnames⟩ := hapart q hq
        refine ⟨by simpa using hne, fun hqActive hpackActive => ?_⟩
        rw [deactivated_types, deactivated_types]
        exact hnames ((deactivated_active _ _).mp hqActive).2
          ((deactivated_active _ _).mp hpackActive).2

theorem deactivate_layered {self : DomainPackRegistry} {packId : Hash} (h : Layered self.packs) :
    Layered (self.deactivate packId).2.packs := by
  unfold deactivate
  cases hfind : self.packs.find? (fun p => p.active && p.dependencies.contains packId) with
  | some p => exact h
  | none =>
      cases hset : setInactive packId self.packs with
      | none => exact h
      | some packs =>
          show Layered packs
          rw [setInactive_eq_map hset h.unique]
          refine h.map_deactivated fun p hp hactive hdep => ?_
          have hnot := List.find?_eq_none.mp hfind p hp
          simp [hactive, hdep] at hnot

theorem deactivate_of_error {self : DomainPackRegistry} {packId : Hash} {e : String}
    (h : (self.deactivate packId).1 = .error e) : (self.deactivate packId).2 = self := by
  unfold deactivate at *
  cases hfind : self.packs.find? (fun p => p.active && p.dependencies.contains packId) with
  | some p => rfl
  | none =>
      rw [hfind] at h
      cases hset : setInactive packId self.packs with
      | none => rfl
      | some packs => simp only [hset, reduceCtorEq] at h

inductive Call where
  | install (pack : DomainPack) (installerLevel : PrecedenceLevel) (currentHeight : UInt64)
  | deactivate (packId : Hash)

def call (self : DomainPackRegistry) : Call → Except String Unit × DomainPackRegistry
  | .install pack installerLevel currentHeight => self.install pack installerLevel currentHeight
  | .deactivate packId => self.deactivate packId

def step (self : DomainPackRegistry) (c : Call) : DomainPackRegistry := (self.call c).2

theorem step_layered {self : DomainPackRegistry} {c : Call} (h : Layered self.packs) :
    Layered (self.step c).packs := by
  cases c with
  | install pack installerLevel currentHeight => exact install_layered h
  | deactivate packId => exact deactivate_layered h

/-- A call that fails leaves the registry as it was. -/
theorem step_of_error {self : DomainPackRegistry} {c : Call} {e : String}
    (h : (self.call c).1 = .error e) : self.step c = self := by
  cases c with
  | install pack installerLevel currentHeight => exact install_of_error h
  | deactivate packId => exact deactivate_of_error h

/-- From the empty registry, every state that a sequence of calls reaches is
closed, and no failing call changes one. -/
theorem run_closed (calls : List Call) :
    Runs.Throughout step Closed ⟨[]⟩ calls
      ∧ Runs.Along step (fun registry c => ∀ e, (registry.call c).1 = .error e →
        registry.step c = registry) ⟨[]⟩ calls := by
  constructor
  · have hlayered : Runs.Throughout step (fun registry => Layered registry.packs) ⟨[]⟩ calls := by
      refine Runs.throughout_of_step ?_ Layered.nil
      intro registry c h
      exact step_layered h
    exact hlayered.mono fun _ => Layered.closed
  · exact Runs.along_of_invariant (J := fun _ => True) (D := fun _ _ => True)
      (fun _ _ _ _ => trivial) (fun _ _ _ _ _ => step_of_error) trivial Runs.along_true

end DomainPackRegistry

end Sccgub
