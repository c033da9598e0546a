import Mathlib
import Sccgub.Crypto
import Sccgub.Runs

/-!
# Operator keys

One key for each role of an operator.  Whether a key may act is decided by the
first entry with that key which is revoked, expired or of a fitting role, in
whatever order the map is gone through; the height an entry is activated at is
not looked at.

A rotation revokes the entry of a role and then puts the new one in its place,
so the history of revoked entries does not list what was rotated away, unless
the same key stands revoked under another role.
-/

namespace Sccgub

/-! ## Roles -/

inductive KeyRole where
  | genesis
  | governance
  | treasury
  | validator
  | operator
  | auditor
  deriving DecidableEq

inductive AuthorizedAction where
  | signBlock
  | castVote
  | submitGovernanceProposal
  | activateEmergency
  | authorizeMint
  | authorizeBurn
  | distributeReward
  | rotateKey
  | triggerSnapshot
  | queryState
  | queryReceipts
  deriving DecidableEq

namespace KeyRole

def all : List KeyRole := [genesis, governance, treasury, validator, operator, auditor]

theorem mem_all (role : KeyRole) : role ∈ all := by
  cases role <;> simp [all]

def debug : KeyRole → String
  | genesis => "Genesis"
  | governance => "Governance"
  | treasury => "Treasury"
  | validator => "Validator"
  | operator => "Operator"
  | auditor => "Auditor"

def canAuthorize (self : KeyRole) : AuthorizedAction → Bool
  | .signBlock | .castVote => self = validator || self = genesis
  | .submitGovernanceProposal | .activateEmergency => self = governance || self = genesis
  | .authorizeMint | .authorizeBurn | .distributeReward => self = treasury || self = genesis
  | .rotateKey | .triggerSnapshot => self = operator || self = genesis
  | .queryState | .queryReceipts => true

end KeyRole

def AuthorizedAction.debug : AuthorizedAction → String
  | signBlock => "SignBlock"
  | castVote => "CastVote"
  | submitGovernanceProposal => "SubmitGovernanceProposal"
  | activateEmergency => "ActivateEmergency"
  | authorizeMint => "AuthorizeMint"
  | authorizeBurn => "AuthorizeBurn"
  | distributeReward => "DistributeReward"
  | rotateKey => "RotateKey"
  | triggerSnapshot => "TriggerSnapshot"
  | queryState => "QueryState"
  | queryReceipts => "QueryReceipts"

structure RoleKey where
  role : KeyRole
  publicKey : Hash
  activatedAt : UInt64
  expiresAt : UInt64
  revoked : Bool
  deriving DecidableEq

structure KeyRotationEvent where
  role : KeyRole
  oldPublicKey : Hash
  newPublicKey : Hash
  rotatedAtHeight : UInt64
  authorizationProof : Hash
  deriving DecidableEq

structure OperatorKeyring where
  keys : KeyRole → Option RoleKey

/-- What the walk over the entries gives, in the order they come in. -/
def authorizeAmong (publicKey : Hash) (action : AuthorizedAction) (currentHeight : UInt64) :
    List RoleKey → Except String KeyRole
  | [] => .error s!"No authorized key found for action {action.debug}"
  | roleKey :: rest =>
      if roleKey.publicKey ≠ publicKey then
        authorizeAmong publicKey action currentHeight rest
      else if roleKey.revoked then
        .error s!"Key for role {roleKey.role.debug} has been revoked"
      else if roleKey.expiresAt > 0 ∧ currentHeight > roleKey.expiresAt then
        .error s!"Key for role {roleKey.role.debug} expired at height {roleKey.expiresAt}"
      else if roleKey.role.canAuthorize action then .ok roleKey.role
      else authorizeAmong publicKey action currentHeight rest

namespace OperatorKeyring

def empty : OperatorKeyring := ⟨fun _ => none⟩

/-- The entries; the map hands them out in any order. -/
def values (self : OperatorKeyring) : List RoleKey := KeyRole.all.filterMap self.keys

def register (self : OperatorKeyring) (role : KeyRole) (publicKey : Hash) (activatedAt : UInt64) :
    OperatorKeyring :=
  ⟨Function.update self.keys role (some ⟨role, publicKey, activatedAt, 0, false⟩)⟩

def revoke (self : OperatorKeyring) (role : KeyRole) : Except String Unit × OperatorKeyring :=
  match self.keys role with
  | none => (.error "Role not found", self)
  | some key => (.ok (), ⟨Function.update self.keys role (some { key with revoked := true })⟩)

def rotate (self : OperatorKeyring) (role : KeyRole) (newPublicKey : Hash)
    (currentHeight : UInt64) : Except String Hash × OperatorKeyring :=
  match self.keys role with
  | none => (.error "Role not found", self)
  | some key =>
      match self.revoke role with
      | (.error e, keyring) => (.error e, keyring)
      | (.ok (), keyring) => (.ok key.publicKey, keyring.register role newPublicKey currentHeight)

def rotateCeremony (self : OperatorKeyring) (role : KeyRole) (newPublicKey : Hash)
    (currentHeight : UInt64) (authorizationProof : Hash) :
    Except String KeyRotationEvent × OperatorKeyring :=
  match self.keys role with
  | none => (.error "Role not found", self)
  | some oldKey =>
      if oldKey.revoked then
        (.error "Cannot rotate a revoked key — register fresh instead", self)
      else if oldKey.publicKey = newPublicKey then
        (.error "New key must differ from old key", self)
      else
        match self.revoke role with
        | (.error e, keyring) => (.error e, keyring)
        | (.ok (), keyring) =>
            (.ok ⟨role, oldKey.publicKey, newPublicKey, currentHeight, authorizationProof⟩,
              keyring.register role newPublicKey currentHeight)

/-- The entries are public, so a caller can set the height one expires at. -/
def setExpiry (self : OperatorKeyring) (role : KeyRole) (expiresAt : UInt64) : OperatorKeyring :=
  ⟨Function.update self.keys role ((self.keys role).map ({ · with expiresAt := expiresAt }))⟩

theorem keys_register (self : OperatorKeyring) (role : KeyRole) (publicKey : Hash)
    (activatedAt : UInt64) : (self.register role publicKey activatedAt).keys
      = Function.update self.keys role (some ⟨role, publicKey, activatedAt, 0, false⟩) := rfl

theorem keys_setExpiry (self : OperatorKeyring) (role : KeyRole) (expiresAt : UInt64) :
    (self.setExpiry role expiresAt).keys = Function.update self.keys role
      ((self.keys role).map ({ · with expiresAt := expiresAt })) := rfl

def rotationHistory (self : OperatorKeyring) : List RoleKey := self.values.filter (·.revoked)

/-- A way the map can hand its entries out. -/
abbrev IterationOrder (self : OperatorKeyring) : Type :=
  { order : List RoleKey // order.Perm self.values }

def authorize (self : OperatorKeyring) (order : self.IterationOrder) (publicKey : Hash)
    (action : AuthorizedAction) (currentHeight : UInt64) : Except String KeyRole :=
  authorizeAmong publicKey action currentHeight order.1

theorem mem_values {self : OperatorKeyring} {entry : RoleKey} :
    entry ∈ self.values ↔ ∃ role, self.keys role = some entry := by
  simp [values, List.mem_filterMap, KeyRole.mem_all]

end OperatorKeyring

/-! ## Who may act -/

namespace RoleKey

def IsDead (self : RoleKey) (height : UInt64) : Prop :=
  self.revoked = true ∨ self.expiresAt > 0 ∧ height > self.expiresAt

instance (self : RoleKey) (height : UInt64) : Decidable (self.IsDead height) :=
  inferInstanceAs (Decidable (_ ∨ _))

/-- An entry of the key that is neither revoked nor expired, with a role that
fits. -/
def Allows (self : RoleKey) (publicKey : Hash) (action : AuthorizedAction) (height : UInt64) :
    Prop :=
  self.publicKey = publicKey ∧ ¬ self.IsDead height ∧ self.role.canAuthorize action = true

instance (self : RoleKey) (publicKey : Hash) (action : AuthorizedAction) (height : UInt64) :
    Decidable (self.Allows publicKey action height) :=
  inferInstanceAs (Decidable (_ ∧ _ ∧ _))

/-- What is to let a key act. -/
structure Authorizes (entry : RoleKey) (publicKey : Hash) (action : AuthorizedAction)
    (height : UInt64) : Prop where
  publicKey_eq : entry.publicKey = publicKey
  not_revoked : entry.revoked = false
  active : entry.activatedAt ≤ height
  not_expired : entry.expiresAt = 0 ∨ height ≤ entry.expiresAt
  can : entry.role.canAuthorize action = true

theorem not_isDead_iff {entry : RoleKey} {height : UInt64} :
    ¬ entry.IsDead height ↔
      entry.revoked = false ∧ (entry.expiresAt = 0 ∨ height ≤ entry.expiresAt) := by
  have hpos : entry.expiresAt > 0 ↔ entry.expiresAt ≠ 0 := by
    rw [gt_iff_lt, UInt64.pos_iff_ne_zero]
  unfold IsDead
  rw [not_or, Bool.not_eq_true, not_and_or, hpos, not_not, gt_iff_lt, UInt64.not_lt]

theorem authorizes_iff {entry : RoleKey} {publicKey : Hash} {action : AuthorizedAction}
    {height : UInt64} :
    entry.Authorizes publicKey action height ↔
      entry.Allows publicKey action height ∧ entry.activatedAt ≤ height := by
  rw [Allows, not_isDead_iff]
  exact ⟨fun h => ⟨⟨h.1, ⟨h.2, h.4⟩, h.5⟩, h.3⟩, fun h => ⟨h.1.1, h.1.2.1.1, h.2, h.1.2.1.2, h.1.2.2⟩⟩

end RoleKey

/-- The first entry that ends the walk decides. -/
theorem isOk_authorizeAmong_iff {publicKey : Hash} {action : AuthorizedAction} {height : UInt64}
    {entries : List RoleKey} :
    (authorizeAmong publicKey action height entries).isOk = true ↔
      ∃ entry, entries.find? (fun e => e.publicKey = publicKey
        ∧ (e.IsDead height ∨ e.role.canAuthorize action = true)) = some entry
          ∧ ¬ entry.IsDead height := by
  induction entries with
  | nil => simp [authorizeAmong, Except.isOk, Except.toBool]
  | cons entry entries ih =>
      unfold authorizeAmong
      by_cases hkey : entry.publicKey = publicKey
      · rw [if_neg (not_not.mpr hkey)]
        by_cases hrevoked : entry.revoked = true
        · have hdead : entry.IsDead height := .inl hrevoked
          simp [hrevoked, hkey, hdead, Except.isOk, Except.toBool]
        · rw [if_neg hrevoked]
          by_cases hexpired : entry.expiresAt > 0 ∧ height > entry.expiresAt
          · have hdead : entry.IsDead height := .inr hexpired
            simp [hexpired.1, hexpired.2, hkey, hdead, Except.isOk, Except.toBool]
          · have hlive : ¬ entry.IsDead height := not_or.mpr ⟨hrevoked, hexpired⟩
            rw [if_neg hexpired]
            by_cases hcan : entry.role.canAuthorize action = true
            · simp [hcan, hkey, hlive, Except.isOk, Except.toBool]
            · rw [if_neg hcan, ih, List.find?_cons_of_neg]
              simp [hkey, hlive, hcan]
      · rw [if_pos hkey, ih, List.find?_cons_of_neg]
        simp [hkey]

namespace OperatorKeyring

/-- In every order of the entries the verdict is the one that some entry backs. -/
def RightVerdict (self : OperatorKeyring) (publicKey : Hash) (action : AuthorizedAction)
    (height : UInt64) : Prop :=
  ∀ order : self.IterationOrder, (self.authorize order publicKey action height).isOk = true ↔
    ∃ entry ∈ self.values, entry.Authorizes publicKey action height

/-- No entry of the key is both alive and fit to act; or none is dead, and one
that is fit has been activated. -/
def Unshadowed (self : OperatorKeyring) (publicKey : Hash) (action : AuthorizedAction)
    (height : UInt64) : Prop :=
  (∀ entry ∈ self.values, ¬ entry.Allows publicKey action height)
    ∨ (∀ entry ∈ self.values, entry.publicKey = publicKey → ¬ entry.IsDead height)
      ∧ ∃ entry ∈ self.values, entry.Allows publicKey action height ∧ entry.activatedAt ≤ height

instance (self : OperatorKeyring) (publicKey : Hash) (action : AuthorizedAction)
    (height : UInt64) : Decidable (self.Unshadowed publicKey action height) :=
  inferInstanceAs (Decidable (_ ∨ _ ∧ _))

/-- An order that begins with one of the entries. -/
theorem exists_order_cons {self : OperatorKeyring} {entry : RoleKey} (h : entry ∈ self.values) :
    ∃ order : self.IterationOrder, ∃ rest, order.1 = entry :: rest :=
  ⟨⟨_, (List.perm_cons_erase h).symm⟩, _, rfl⟩

theorem rightVerdict_iff (self : OperatorKeyring) (publicKey : Hash) (action : AuthorizedAction)
    (height : UInt64) :
    self.RightVerdict publicKey action height ↔ self.Unshadowed publicKey action height := by
  constructor
  · intro hverdict
    by_cases hnone : ∀ entry ∈ self.values, ¬ entry.Allows publicKey action height
    · exact .inl hnone
    · right
      push Not at hnone
      obtain ⟨entry, hentry, hallows⟩ := hnone
      have hspec : ∃ e ∈ self.values, e.Authorizes publicKey action height := by
        obtain ⟨order, rest, horder⟩ := exists_order_cons hentry
        refine (hverdict order).mp (isOk_authorizeAmong_iff.mpr ⟨entry, ?_, hallows.2.1⟩)
        rw [horder, List.find?_cons_of_pos]
        simp [hallows.1, hallows.2.2]
      refine ⟨fun dead hmem hkey hdead => ?_, ?_⟩
      · obtain ⟨order, rest, horder⟩ := exists_order_cons hmem
        obtain ⟨found, hfound, hlive⟩ := isOk_authorizeAmong_iff.mp ((hverdict order).mpr hspec)
        rw [horder, List.find?_cons_of_pos (by simp [hkey, hdead])] at hfound
        exact hlive (Option.some_inj.mp hfound ▸ hdead)
      · obtain ⟨e, hmem, hauthorizes⟩ := hspec
        exact ⟨e, hmem, RoleKey.authorizes_iff.mp hauthorizes⟩
  · rintro (hnone | ⟨hlive, entry, hentry, hallows, hactive⟩) order
    · constructor
      · intro hok
        obtain ⟨found, hfound, hlive⟩ := isOk_authorizeAmong_iff.mp hok
        have hmem := order.2.mem_iff.mp (List.mem_of_find?_eq_some hfound)
        have hpasses := List.find?_some hfound
        simp only [decide_eq_true_eq] at hpasses
        exact absurd ⟨hpasses.1, hlive, hpasses.2.resolve_left hlive⟩ (hnone found hmem)
      · rintro ⟨e, hmem, hauthorizes⟩
        exact absurd (RoleKey.authorizes_iff.mp hauthorizes).1 (hnone e hmem)
    · have hspec : ∃ e ∈ self.values, e.Authorizes publicKey action height :=
        ⟨entry, hentry, RoleKey.authorizes_iff.mpr ⟨hallows, hactive⟩⟩
      refine ⟨fun _ => hspec, fun _ => isOk_authorizeAmong_iff.mpr ?_⟩
      have hpasses : (order.1.find? fun e => e.publicKey = publicKey
          ∧ (e.IsDead height ∨ e.role.canAuthorize action = true)).isSome = true := by
        rw [List.find?_isSome]
        exact ⟨entry, order.2.mem_iff.mpr hentry, by simp [hallows.1, hallows.2.2]⟩
      obtain ⟨found, hfound⟩ := Option.isSome_iff_exists.mp hpasses
      have hkey := List.find?_some hfound
      simp only [decide_eq_true_eq] at hkey
      exact ⟨found, hfound,
        hlive found (order.2.mem_iff.mp (List.mem_of_find?_eq_some hfound)) hkey.1⟩

/-! ## What the history lists -/

def Lists (self : OperatorKeyring) (publicKey : Hash) : Prop :=
  ∃ entry ∈ self.rotationHistory, entry.publicKey = publicKey

instance (self : OperatorKeyring) (publicKey : Hash) : Decidable (self.Lists publicKey) :=
  inferInstanceAs (Decidable (∃ entry ∈ _, _))

/-- The key stands revoked under another role. -/
def HeldElsewhere (self : OperatorKeyring) (role : KeyRole) (publicKey : Hash) : Prop :=
  ∃ other ≠ role, ∃ entry, self.keys other = some entry ∧ entry.revoked = true
    ∧ entry.publicKey = publicKey

theorem lists_iff {self : OperatorKeyring} {publicKey : Hash} :
    self.Lists publicKey ↔ ∃ role entry, self.keys role = some entry ∧ entry.revoked = true
      ∧ entry.publicKey = publicKey := by
  unfold Lists rotationHistory
  constructor
  · rintro ⟨entry, hentry, hkey⟩
    obtain ⟨hmem, hrevoked⟩ := List.mem_filter.mp hentry
    obtain ⟨role, hrole⟩ := mem_values.mp hmem
    exact ⟨role, entry, hrole, hrevoked, hkey⟩
  · rintro ⟨role, entry, hrole, hrevoked, hkey⟩
    exact ⟨entry, List.mem_filter.mpr ⟨mem_values.mpr ⟨role, hrole⟩, hrevoked⟩, hkey⟩

/-- What is put in the place of an entry is not revoked, so the others are left. -/
theorem lists_register_iff {self : OperatorKeyring} {role : KeyRole} {publicKey newPublicKey : Hash}
    {activatedAt : UInt64} :
    (self.register role newPublicKey activatedAt).Lists publicKey
      ↔ self.HeldElsewhere role publicKey := by
  rw [lists_iff, keys_register]
  constructor
  · rintro ⟨other, entry, hentry, hrevoked, hkey⟩
    by_cases hrole : other = role
    · subst hrole
      rw [Function.update_self] at hentry
      rw [← Option.some_inj.mp hentry] at hrevoked
      cases hrevoked
    · rw [Function.update_of_ne hrole] at hentry
      exact ⟨other, hrole, entry, hentry, hrevoked, hkey⟩
  · rintro ⟨other, hrole, entry, hentry, hrevoked, hkey⟩
    exact ⟨other, entry, by rw [Function.update_of_ne hrole, hentry], hrevoked, hkey⟩

theorem Lists.revoke {self : OperatorKeyring} {publicKey : Hash} (h : self.Lists publicKey)
    (role : KeyRole) : (self.revoke role).2.Lists publicKey := by
  obtain ⟨other, entry, hentry, hrevoked, hkey⟩ := lists_iff.mp h
  rw [lists_iff, OperatorKeyring.revoke]
  cases hheld : self.keys role with
  | none => exact ⟨other, entry, hentry, hrevoked, hkey⟩
  | some key =>
      by_cases hrole : other = role
      · subst hrole
        obtain rfl : key = entry := Option.some_inj.mp (hheld.symm.trans hentry)
        exact ⟨other, _, Function.update_self .., rfl, hkey⟩
      · exact ⟨other, entry, (Function.update_of_ne hrole ..).trans hentry, hrevoked, hkey⟩

theorem Lists.setExpiry {self : OperatorKeyring} {publicKey : Hash} (h : self.Lists publicKey)
    (role : KeyRole) (expiresAt : UInt64) : (self.setExpiry role expiresAt).Lists publicKey := by
  obtain ⟨other, entry, hentry, hrevoked, hkey⟩ := lists_iff.mp h
  rw [lists_iff, keys_setExpiry]
  by_cases hrole : other = role
  · subst hrole
    refine ⟨other, { entry with expiresAt := expiresAt }, ?_, hrevoked, hkey⟩
    rw [Function.update_self, hentry, Option.map_some]
  · exact ⟨other, entry, (Function.update_of_ne hrole ..).trans hentry, hrevoked, hkey⟩

/-! ## Rotations -/

/-- Revoking an entry that is then replaced leaves no trace. -/
theorem rotate_eq (self : OperatorKeyring) (role : KeyRole) (newPublicKey : Hash)
    (currentHeight : UInt64) :
    self.rotate role newPublicKey currentHeight
      = ((self.keys role).elim (.error "Role not found", self)
          fun key => (.ok key.publicKey, self.register role newPublicKey currentHeight)) := by
  unfold rotate revoke register
  cases self.keys role with
  | none => rfl
  | some key => simp [Function.update_idem]

theorem rotateCeremony_of_some {self : OperatorKeyring} {role : KeyRole} {newPublicKey : Hash}
    {currentHeight : UInt64} {authorizationProof : Hash} {key : RoleKey}
    (h : self.keys role = some key) (hrevoked : key.revoked = false)
    (hnew : key.publicKey ≠ newPublicKey) :
    self.rotateCeremony role newPublicKey currentHeight authorizationProof
      = (.ok ⟨role, key.publicKey, newPublicKey, currentHeight, authorizationProof⟩,
          self.register role newPublicKey currentHeight) := by
  unfold rotateCeremony revoke register
  simp [h, hrevoked, hnew, Function.update_idem]

theorem rotateCeremony_refused {self : OperatorKeyring} {role : KeyRole} {newPublicKey : Hash}
    {currentHeight : UInt64} {authorizationProof : Hash}
    (h : ∀ key, self.keys role = some key → key.revoked = true ∨ key.publicKey = newPublicKey) :
    ∃ e, self.rotateCeremony role newPublicKey currentHeight authorizationProof
      = (.error e, self) := by
  unfold rotateCeremony
  cases hheld : self.keys role with
  | none => exact ⟨_, rfl⟩
  | some key =>
      rcases h key hheld with hrevoked | hsame
      · exact ⟨_, by simp only [hrevoked, if_true]; rfl⟩
      · by_cases hrevoked : key.revoked = true
        · exact ⟨_, by simp only [hrevoked, if_true]; rfl⟩
        · exact ⟨_, by simp only [hrevoked, hsame, if_true]; rfl⟩

end OperatorKeyring

/-! ## Runs -/

/-- A keyring with the keys that have been rotated away. -/
structure Custody where
  keyring : OperatorKeyring
  rotatedAway : List Hash

inductive CustodyCall where
  | register (role : KeyRole) (publicKey : Hash) (activatedAt : UInt64)
  | revoke (role : KeyRole)
  | rotate (role : KeyRole) (newPublicKey : Hash) (currentHeight : UInt64)
  | rotateCeremony (role : KeyRole) (newPublicKey : Hash) (currentHeight : UInt64)
      (authorizationProof : Hash)
  | setExpiry (role : KeyRole) (expiresAt : UInt64)

namespace Custody

def step (self : Custody) : CustodyCall → Custody
  | .register role publicKey activatedAt =>
      ⟨self.keyring.register role publicKey activatedAt, self.rotatedAway⟩
  | .revoke role => ⟨(self.keyring.revoke role).2, self.rotatedAway⟩
  | .rotate role newPublicKey currentHeight =>
      let result := self.keyring.rotate role newPublicKey currentHeight
      ⟨result.2, result.1.toOption.toList ++ self.rotatedAway⟩
  | .rotateCeremony role newPublicKey currentHeight authorizationProof =>
      let result := self.keyring.rotateCeremony role newPublicKey currentHeight authorizationProof
      ⟨result.2, result.1.toOption.toList.map (·.oldPublicKey) ++ self.rotatedAway⟩
  | .setExpiry role expiresAt => ⟨self.keyring.setExpiry role expiresAt, self.rotatedAway⟩

def RotatedListed (self : Custody) : Prop :=
  ∀ publicKey ∈ self.rotatedAway, self.keyring.Lists publicKey

/-- A call that replaces an entry finds every key that has been rotated away, and
the one it rotates away, revoked under another role. -/
def KeepsRotated (self : Custody) : CustodyCall → Prop
  | .register role _ _ => ∀ publicKey ∈ self.rotatedAway, self.keyring.HeldElsewhere role publicKey
  | .revoke _ => True
  | .rotate role _ _ => ∀ key, self.keyring.keys role = some key →
      ∀ publicKey ∈ key.publicKey :: self.rotatedAway, self.keyring.HeldElsewhere role publicKey
  | .rotateCeremony role newPublicKey _ _ => ∀ key, self.keyring.keys role = some key →
      key.revoked = false → key.publicKey ≠ newPublicKey →
        ∀ publicKey ∈ key.publicKey :: self.rotatedAway, self.keyring.HeldElsewhere role publicKey
  | .setExpiry _ _ => True

theorem rotatedListed_register_iff {keyring : OperatorKeyring} {role : KeyRole}
    {newPublicKey : Hash} {activatedAt : UInt64} {rotatedAway : List Hash} :
    RotatedListed ⟨keyring.register role newPublicKey activatedAt, rotatedAway⟩ ↔
      ∀ publicKey ∈ rotatedAway, keyring.HeldElsewhere role publicKey :=
  forall₂_congr fun _ _ => OperatorKeyring.lists_register_iff

theorem rotatedListed_step_iff {self : Custody} (h : self.RotatedListed) (c : CustodyCall) :
    (self.step c).RotatedListed ↔ self.KeepsRotated c := by
  cases c with
  | register role publicKey activatedAt => exact rotatedListed_register_iff
  | revoke role =>
      exact iff_of_true (fun publicKey hmem => (h publicKey hmem).revoke role) trivial
  | rotate role newPublicKey currentHeight =>
      cases hheld : self.keyring.keys role with
      | none =>
          have hstep : self.step (.rotate role newPublicKey currentHeight) = self := by
            rw [step, OperatorKeyring.rotate_eq, hheld]
            rfl
          have hkeeps : self.KeepsRotated (.rotate role newPublicKey currentHeight) := by
            intro key hkey
            rw [hheld] at hkey
            cases hkey
          rw [hstep]
          exact iff_of_true h hkeeps
      | some key =>
          have hstep : self.step (.rotate role newPublicKey currentHeight)
              = ⟨self.keyring.register role newPublicKey currentHeight,
                  key.publicKey :: self.rotatedAway⟩ := by
            rw [step, OperatorKeyring.rotate_eq, hheld]
            rfl
          rw [hstep, rotatedListed_register_iff]
          constructor
          · intro hall key' hheld'
            obtain rfl : key = key' := Option.some_inj.mp (hheld.symm.trans hheld')
            exact hall
          · intro hall
            exact hall key hheld
  | rotateCeremony role newPublicKey currentHeight authorizationProof =>
      by_cases hopen : ∃ key, self.keyring.keys role = some key ∧ key.revoked = false
          ∧ key.publicKey ≠ newPublicKey
      · obtain ⟨key, hheld, hrevoked, hnew⟩ := hopen
        have hstep : self.step (.rotateCeremony role newPublicKey currentHeight authorizationProof)
            = ⟨self.keyring.register role newPublicKey currentHeight,
                key.publicKey :: self.rotatedAway⟩ := by
          rw [step, OperatorKeyring.rotateCeremony_of_some hheld hrevoked hnew]
          rfl
        rw [hstep, rotatedListed_register_iff]
        constructor
        · intro hall key' hheld' _ _
          obtain rfl : key = key' := Option.some_inj.mp (hheld.symm.trans hheld')
          exact hall
        · intro hall
          exact hall key hheld hrevoked hnew
      · have hshut : ∀ key, self.keyring.keys role = some key →
            key.revoked = true ∨ key.publicKey = newPublicKey := by
          intro key hheld
          by_contra hnot
          rw [not_or, Bool.not_eq_true] at hnot
          exact hopen ⟨key, hheld, hnot.1, hnot.2⟩
        obtain ⟨e, hrefused⟩ := OperatorKeyring.rotateCeremony_refused hshut
        have hstep : self.step (.rotateCeremony role newPublicKey currentHeight authorizationProof)
            = self := by
          rw [step, hrefused]
          rfl
        rw [hstep]
        refine iff_of_true h fun key hheld hrevoked hnew => ?_
        exact absurd ⟨key, hheld, hrevoked, hnew⟩ hopen
  | setExpiry role expiresAt =>
      exact iff_of_true (fun publicKey hmem => (h publicKey hmem).setExpiry role expiresAt) trivial

/-- Whom a keyring lets act, in every state and so in every one that is reached;
and in which runs the history goes on listing what was rotated away. -/
theorem custody_iff (calls : List CustodyCall) :
    (∀ (keyring : OperatorKeyring) publicKey action height,
        keyring.RightVerdict publicKey action height
          ↔ keyring.Unshadowed publicKey action height)
      ∧ (Runs.Throughout step RotatedListed ⟨.empty, []⟩ calls
          ↔ Runs.Along step KeepsRotated ⟨.empty, []⟩ calls) := by
  refine ⟨OperatorKeyring.rightVerdict_iff, ?_⟩
  refine Runs.throughout_iff_along ?_ ?_
  · intro self c h
    exact rotatedListed_step_iff h c
  · intro publicKey hmem
    cases hmem

/-! ## Keys that are let through, shadowed and lost -/

/-- Activated at height ten. -/
def earlyKeyring : OperatorKeyring :=
  OperatorKeyring.empty.register .governance (Hash.ofByte 1) 10

/-- One key for two roles, revoked for one of them. -/
def sharedKeyring : OperatorKeyring :=
  (((OperatorKeyring.empty.register .governance (Hash.ofByte 1) 0).register .operator
    (Hash.ofByte 1) 0).revoke .operator).2

def rotatedOnce : Custody :=
  [CustodyCall.register .validator (Hash.ofByte 1) 0, .rotate .validator (Hash.ofByte 2) 5].foldl
    step ⟨.empty, []⟩

/-- A key acts before its height, is let through in one order of the entries and
not in another, and is gone from the history once it is rotated away. -/
theorem custody_broken :
    ¬ earlyKeyring.RightVerdict (Hash.ofByte 1) .submitGovernanceProposal 5
      ∧ (∃ order order' : sharedKeyring.IterationOrder,
        (sharedKeyring.authorize order (Hash.ofByte 1) .submitGovernanceProposal 5).isOk = true
          ∧ (sharedKeyring.authorize order' (Hash.ofByte 1) .submitGovernanceProposal 5).isOk
            = false)
      ∧ rotatedOnce.rotatedAway = [Hash.ofByte 1] ∧ ¬ rotatedOnce.RotatedListed := by
  refine ⟨?_, ?_, by decide, ?_⟩
  · rw [OperatorKeyring.rightVerdict_iff]
    decide
  · refine ⟨⟨sharedKeyring.values, List.Perm.refl _⟩,
      ⟨sharedKeyring.values.reverse, List.reverse_perm _⟩, by decide, by decide⟩
  · intro hall
    exact absurd (hall (Hash.ofByte 1) (by decide)) (by decide)

end Custody

end Sccgub
