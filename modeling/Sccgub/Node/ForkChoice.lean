import Mathlib
import Sccgub.Consensus.ForkChoice
import Sccgub.Node.Constants
import Sccgub.Node.FinalityAgreement
import Sccgub.Node.Linkage
import Sccgub.Node.Penalties
import Sccgub.Runs

/-!
# Fork choice

A chain gives way to another one with the same id and a higher score: finalized
height, then height, then the id of the tip.  The score is a total order, so two
chains never give way to each other (`not_shouldSwitchTo_both`).

The score says nothing about where the chains part.  What is final on a chain is
decided while it grows: whenever it takes a block it looks how far below the new
tip the depth lets it go, and what it has found once it never gives up
(`finalized_perform`).  So a switch keeps what is final exactly if no look, in all
the operations that have led to the chain, got past the last block in common
(`shouldSwitchTo_keeps_finalized_iff`).  While the depth stands still that means
fewer than `depth` blocks taken since (`Settled.keepsFinalized_iff`).
-/

namespace Sccgub

open FixedWidth Fallible Runs

/-! ## The choice -/

namespace Chain

/-- Height stands in for the voting power behind a chain. -/
def chainTip (self : Chain) : ChainTip where
  blockId := (self.blocks.getLast?.map (·.header.blockId)).getD zeroHash
  height := self.height
  finalizedDepth := self.finality.finalizedHeight
  cumulativeVotingPower := self.height

/-- Outside deterministic finality the chain stays when the finalized heights are
the same. -/
def shouldSwitchTo (self other : Chain) : Bool :=
  if other.chainId ≠ self.chainId then false
  else
    let bothDeterministic := isDeterministic self.state.governanceState.finalityMode
      && isDeterministic other.state.governanceState.finalityMode
    match other.chainTip.scoreCmp self.chainTip with
    | .gt =>
        if !bothDeterministic
            && self.chainTip.finalizedDepth = other.chainTip.finalizedDepth then false
        else true
    | _ => false

/-- The other chain has the higher score, and a tie of the finalized heights is
not held against it. -/
def GivesWayTo (self other : Chain) : Prop :=
  other.chainId = self.chainId ∧ other.chainTip.scoreCmp self.chainTip = .gt
    ∧ (self.finality.finalizedHeight = other.finality.finalizedHeight →
      isDeterministic self.state.governanceState.finalityMode = true
        ∧ isDeterministic other.state.governanceState.finalityMode = true)

theorem shouldSwitchTo_iff (self other : Chain) :
    self.shouldSwitchTo other = true ↔ self.GivesWayTo other := by
  unfold shouldSwitchTo GivesWayTo
  by_cases hid : other.chainId = self.chainId
  · rw [if_neg (not_not.mpr hid)]
    cases hscore : other.chainTip.scoreCmp self.chainTip with
    | gt =>
        show (if (!(isDeterministic self.state.governanceState.finalityMode
            && isDeterministic other.state.governanceState.finalityMode)
            && decide (self.finality.finalizedHeight = other.finality.finalizedHeight)) = true
          then false else true) = true ↔ _
        by_cases htie : self.finality.finalizedHeight = other.finality.finalizedHeight
        · simp [hid, htie]
        · simp [hid, htie]
    | lt => simp
    | eq => simp
  · simp [hid]

/-- No two chains give way to each other. -/
theorem not_shouldSwitchTo_both (self other : Chain) :
    ¬ (self.shouldSwitchTo other = true ∧ other.shouldSwitchTo self = true) := by
  rintro ⟨hself, hother⟩
  have hgt := ((shouldSwitchTo_iff self other).mp hself).2.1
  have hlt := ((shouldSwitchTo_iff other self).mp hother).2.1
  rw [ChainTip.scoreCmp_swap, hgt] at hlt
  cases hlt

/-! ## Where two chains part -/

/-- How many blocks two chains have in common, from the first one on. -/
def commonBlocks : List Block → List Block → Nat
  | a :: as, b :: bs => if a = b then commonBlocks as bs + 1 else 0
  | _, _ => 0

/-- Blocks agree up to a height as far as the common ones reach it. -/
theorem le_commonBlocks_iff (as bs : List Block) (n : Nat) :
    min n as.length ≤ commonBlocks as bs ↔
      ∀ h < n, ∀ block, as[h]? = some block → bs[h]? = some block := by
  induction as generalizing bs n with
  | nil => simp [commonBlocks]
  | cons a as ih =>
      rcases n with _ | n
      · simp
      · rw [List.length_cons, Nat.add_min_add_right]
        rcases bs with _ | ⟨b, bs⟩
        · simp only [commonBlocks, Nat.le_zero, Nat.succ_ne_zero, false_iff, not_forall]
          exact ⟨0, by omega, a, rfl, by simp⟩
        · by_cases hab : a = b
          · subst hab
            rw [commonBlocks, if_pos rfl, Nat.add_le_add_iff_right, ih]
            constructor
            · intro hrest h hlt block hblock
              cases h with
              | zero => exact hblock
              | succ h => exact hrest h (by omega) block hblock
            · intro hall h hlt block hblock
              exact hall (h + 1) (by omega) block hblock
          · rw [commonBlocks, if_neg hab]
            refine ⟨fun hle => absurd hle (by omega), fun hall => ?_⟩
            have hfirst := hall 0 (by omega) a rfl
            exact absurd (Option.some_inj.mp hfirst).symm hab

/-- The other chain has everything that is final on this one. -/
def KeepsFinalized (self other : Chain) : Prop :=
  ∀ h ≤ self.finality.finalizedHeight.toNat, ∀ block, self.blocks[h]? = some block →
    other.blocks[h]? = some block

theorem keepsFinalized_iff (self other : Chain) :
    self.KeepsFinalized other ↔
      self.finality.finalizedHeight.toNat < commonBlocks self.blocks other.blocks
        ∨ self.blocks.length ≤ commonBlocks self.blocks other.blocks := by
  have hcommon := le_commonBlocks_iff self.blocks other.blocks
    (self.finality.finalizedHeight.toNat + 1)
  simp only [Nat.lt_succ_iff] at hcommon
  unfold KeepsFinalized
  rw [← hcommon]
  omega

/-- Chains with one genesis have a block in common. -/
theorem commonBlocks_pos {as bs : List Block} (h : as.head? = bs.head?) (hne : as ≠ []) :
    0 < commonBlocks as bs := by
  rcases as with _ | ⟨a, as⟩
  · exact absurd rfl hne
  · rcases bs with _ | ⟨b, bs⟩
    · cases h
    · obtain rfl := Option.some.inj h
      rw [commonBlocks, if_pos rfl]
      exact Nat.succ_pos _

/-! ## Looks for final blocks -/

/-- A look at a tip of this height, with so many blocks known, stays below the
first height that is not shared. -/
def LooksBelow (shared : Nat) (mode : FinalityMode) (config : FinalityConfig) (known : Nat)
    (height : UInt64) : Prop :=
  mode = .deterministic →
    height.toNat + 1 < shared + config.confirmationDepth.toNat ∨ known ≤ shared

instance (shared : Nat) (mode : FinalityMode) (config : FinalityConfig) (known : Nat)
    (height : UInt64) : Decidable (LooksBelow shared mode config known height) :=
  inferInstanceAs (Decidable (_ → _))

theorem finalizedHeight_look {shared : Nat} {height : UInt64}
    (hbounded : height.toNat < 2 ^ 64 - 1) (finality : FinalityTracker) (mode : FinalityMode)
    (config : FinalityConfig) (blocks : List Block) :
    (advanceFinality finality mode config blocks height).finalizedHeight.toNat < shared ↔
      finality.finalizedHeight.toNat < shared
        ∧ LooksBelow shared mode config blocks.length height := by
  cases hmode : mode with
  | deterministic =>
      rw [finalizedHeight_advanceFinality rfl _ _ hbounded, max_lt_iff, FinalityTracker.reach,
        LooksBelow]
      simp only [true_implies]
      omega
  | bftCertified quorum =>
      unfold advanceFinality LooksBelow
      simp [isDeterministic, FinalityTracker.onNewBlock]

/-! ## Operations -/

section

variable [Crypto]

/-- What a node calls on its chain: operations on blocks, what comes from users,
peers and votes, and its own snapshot restored. -/
inductive ChainOp where
  | block (op : BlockOp)
  | submit (tx : SymbolicTransition)
  | validators (validators : List ValidatorAuthority)
  | penalize (validatorId : Hash) (penalty : TensionValue)
  | equivocation (proof : EquivocationProof) (epoch : UInt64)
  | certify (certificate : Safety.SafetyCertificate)
  | restore

def perform (self : Chain) : ChainOp → Chain
  | .block op => self.act op
  | .submit tx => orKeep self (self.submitTransition tx)
  | .validators validators => self.setValidatorSet validators
  | .penalize validatorId penalty => (self.executeSlashingPenalty validatorId penalty).2
  | .equivocation proof epoch => self.recordEquivocation proof epoch
  | .certify certificate => self.recordSafetyCertificate certificate
  | .restore => (self.restoreInPlace self.createSnapshot).2

omit [Crypto] in
/-- The certificate is one that the chain has. -/
def HoldsCertificate (self : Chain) (certificate : Safety.SafetyCertificate) : Prop :=
  (self.safetyCertificates.any fun existing => existing.height = certificate.height
    && existing.blockHash = certificate.blockHash && existing.round = certificate.round) = true

/-- What makes nothing final that is not shared.  An import goes by the depth
before the block, production by the depth after it; a certificate counts outside
deterministic finality. -/
def Shallow (shared : Nat) (self : Chain) : ChainOp → Prop
  | .block (.importBlock block) =>
      self.blocks.length < (self.importBlock block).2.blocks.length →
        LooksBelow shared self.state.governanceState.finalityMode self.finalityConfig
          self.blocks.length block.header.height
  | .block (.produce wallHint) =>
      let next := (self.produceBlock wallHint).2
      self.blocks.length < next.blocks.length →
        LooksBelow shared next.state.governanceState.finalityMode next.finalityConfig
          next.blocks.length next.height
  | .certify certificate =>
      ¬ self.HoldsCertificate certificate → self.state.governanceState.finalityMode ≠ .deterministic →
        certificate.height.toNat < shared
  | _ => True

instance decidableShallow (shared : Nat) (self : Chain) :
    (op : ChainOp) → Decidable (self.Shallow shared op)
  | .block (.importBlock _) | .block (.produce _) => inferInstanceAs (Decidable (_ → _))
  | .certify _ =>
      have : Decidable (self.HoldsCertificate ‹_›) := inferInstanceAs (Decidable (_ = true))
      inferInstanceAs (Decidable (_ → _ → _))
  | .block (.gate _ _) | .block (.candidate _) | .block (.build _) | .submit _ | .validators _
  | .penalize _ _ | .equivocation _ _ | .restore => .isTrue trivial

omit [Crypto] in
theorem HoldsCertificate.record {self : Chain} {certificate : Safety.SafetyCertificate}
    (h : self.HoldsCertificate certificate) : self.recordSafetyCertificate certificate = self :=
  if_pos h

/-- A certificate outside deterministic finality is a look of its own. -/
theorem finalizedHeight_record {shared : Nat} (self : Chain)
    (certificate : Safety.SafetyCertificate) :
    (self.recordSafetyCertificate certificate).finality.finalizedHeight.toNat < shared ↔
      self.finality.finalizedHeight.toNat < shared ∧ self.Shallow shared (.certify certificate) := by
  by_cases hholds : self.HoldsCertificate certificate
  · rw [hholds.record]
    exact ⟨fun h => ⟨h, fun hnot => absurd hholds hnot⟩, And.left⟩
  · have hrecord : (self.recordSafetyCertificate certificate).finality =
        if !isDeterministic self.state.governanceState.finalityMode
          && self.finality.finalizedHeight < certificate.height
        then { self.finality with finalizedHeight := certificate.height } else self.finality := by
      unfold recordSafetyCertificate
      rw [if_neg (show ¬ _ = true from hholds)]
    have hshallow : self.Shallow shared (.certify certificate) ↔
        (self.state.governanceState.finalityMode ≠ .deterministic →
          certificate.height.toNat < shared) := by
      simp only [Shallow, hholds, not_false_iff, true_implies]
    rw [hrecord, hshallow]
    cases hmode : self.state.governanceState.finalityMode with
    | deterministic => simp [isDeterministic]
    | bftCertified quorum =>
        simp only [isDeterministic, Bool.not_false, Bool.true_and, decide_eq_true_eq, ne_eq,
          reduceCtorEq, not_false_iff, true_implies]
        split
        · rename_i hlow
          have hlow := UInt64.lt_iff_toNat_lt.mp hlow
          dsimp only
          omega
        · rename_i hhigh
          have hhigh := UInt64.lt_iff_toNat_lt.not.mp hhigh
          omega

omit [Crypto] in
theorem height_of_concat {self : Chain} {blocks : List Block} {block : Block}
    (h : self.blocks = blocks ++ [block]) : self.height = block.header.height := by
  rw [Chain.height, h, List.getLast?_concat]
  rfl

section

variable {shared : Nat} {self next : Chain} {looked : Prop}

omit [Crypto]

theorem finalized_of_still (hblocks : next.blocks = self.blocks)
    (hfinality : next.finality = self.finality) :
    next.finality.finalizedHeight.toNat < shared ↔
      self.finality.finalizedHeight.toNat < shared
        ∧ (self.blocks.length < next.blocks.length → looked) := by
  rw [hblocks, hfinality]
  exact ⟨fun h => ⟨h, fun hmore => absurd hmore (Nat.lt_irrefl _)⟩, And.left⟩

/-- A block that is taken brings a look with it. -/
theorem finalized_of_look {block : Block} {mode : FinalityMode}
    {config : FinalityConfig} {known : List Block} (hblocks : next.blocks = self.blocks ++ [block])
    (hfinality : next.finality = advanceFinality self.finality mode config known block.header.height)
    (hlooked : looked ↔ LooksBelow shared mode config known.length block.header.height)
    (hbounded : ∀ block ∈ next.blocks, block.header.height.toNat < 2 ^ 64 - 1) :
    next.finality.finalizedHeight.toNat < shared ↔
      self.finality.finalizedHeight.toNat < shared
        ∧ (self.blocks.length < next.blocks.length → looked) := by
  have hmem : block ∈ next.blocks := by
    rw [hblocks]
    exact List.mem_append_right _ List.mem_cons_self
  have hmore : self.blocks.length < next.blocks.length := by
    rw [hblocks, List.length_append, List.length_singleton]
    exact Nat.lt_succ_self _
  rw [hfinality, finalizedHeight_look (hbounded block hmem), hlooked]
  exact and_congr_right fun _ => ⟨fun h _ => h, fun h => h hmore⟩

end

/-- What an operation makes final is shared exactly if it is shallow. -/
theorem finalized_perform {shared : Nat} (self : Chain) (op : ChainOp)
    (hbounded : ∀ block ∈ (self.perform op).blocks, block.header.height.toNat < 2 ^ 64 - 1) :
    (self.perform op).finality.finalizedHeight.toNat < shared ↔
      self.finality.finalizedHeight.toNat < shared ∧ self.Shallow shared op := by
  have hquiet {next : Chain} (hsame : next.finality.finalizedHeight = self.finality.finalizedHeight) :
      next.finality.finalizedHeight.toNat < shared ↔
        self.finality.finalizedHeight.toNat < shared ∧ True := by
    rw [hsame, and_true]
  cases op with
  | block op =>
      cases op with
      | gate block parentId => exact hquiet rfl
      | candidate block =>
          refine hquiet ?_
          show (self.validateCandidateBlock block).2.finality.finalizedHeight = _
          rw [validateCandidateBlock_chain]
          rfl
      | build wallHint => exact hquiet rfl
      | produce wallHint =>
          rcases self.produceBlock_looks wallHint with ⟨hblocks, hfinality⟩ |
            ⟨_, block, -, -, hblocks, hfinality⟩
          · exact finalized_of_still hblocks hfinality
          · refine finalized_of_look hblocks hfinality ?_ hbounded
            rw [height_of_concat hblocks]
      | importBlock block =>
          rcases self.importBlock_looks block with ⟨hblocks, hfinality⟩ |
            ⟨_, -, -, hblocks, hfinality⟩
          · exact finalized_of_still hblocks hfinality
          · exact finalized_of_look hblocks hfinality Iff.rfl hbounded
  | submit tx =>
      obtain ⟨mempool, hnext⟩ := self.submit_frame tx
      exact hquiet (congrArg (·.finality.finalizedHeight) hnext)
  | validators validators => exact hquiet rfl
  | penalize validatorId penalty =>
      obtain ⟨balances, treasury, hnext⟩ := self.penalty_frame validatorId penalty
      exact hquiet (congrArg (·.finality.finalizedHeight) hnext)
  | equivocation proof epoch =>
      refine hquiet ?_
      show (self.recordEquivocation proof epoch).finality.finalizedHeight = _
      unfold recordEquivocation
      dsimp only
      split
      · rfl
      · rfl
  | certify certificate => exact self.finalizedHeight_record certificate
  | restore =>
      refine hquiet ?_
      show (self.restoreInPlace self.createSnapshot).2.finality.finalizedHeight = _
      unfold restoreInPlace restoreFromSnapshot
      dsimp only
      split
      · rename_i hrestored
        split at hrestored
        · cases hrestored
        · obtain rfl := Except.ok.inj hrestored
          rfl
      · rfl

/-! ## Runs -/

theorem blocks_perform (self : Chain) (op : ChainOp) : self.blocks <+: (self.perform op).blocks := by
  cases op with
  | block op =>
      rcases self.governed_act op with ⟨hblocks, -⟩ | ⟨block, hblocks, -⟩
      · exact hblocks ▸ List.prefix_rfl
      · exact hblocks ▸ List.prefix_append _ _
  | submit tx =>
      obtain ⟨mempool, hnext⟩ := self.submit_frame tx
      exact (congrArg Chain.blocks hnext) ▸ List.prefix_rfl
  | validators validators => exact List.prefix_rfl
  | penalize validatorId penalty =>
      obtain ⟨balances, treasury, hnext⟩ := self.penalty_frame validatorId penalty
      exact (congrArg Chain.blocks hnext) ▸ List.prefix_rfl
  | equivocation proof epoch =>
      show self.blocks <+: (self.recordEquivocation proof epoch).blocks
      unfold recordEquivocation
      dsimp only
      split
      · exact List.prefix_rfl
      · exact List.prefix_rfl
  | certify certificate =>
      show self.blocks <+: (self.recordSafetyCertificate certificate).blocks
      unfold recordSafetyCertificate
      split
      · exact List.prefix_rfl
      · exact List.prefix_rfl
  | restore =>
      show self.blocks <+: (self.restoreInPlace self.createSnapshot).2.blocks
      unfold restoreInPlace
      rcases hrestored : self.restoreFromSnapshot self.createSnapshot with e | chain
      · exact List.prefix_rfl
      · exact (state_of_restore hrestored).2.1 ▸ List.prefix_rfl

theorem blocks_run (self : Chain) (ops : List ChainOp) :
    self.blocks <+: (ops.foldl perform self).blocks := by
  induction ops generalizing self with
  | nil => exact List.prefix_rfl
  | cons op ops ih => exact (self.blocks_perform op).trans (ih _)

/-- What a run makes final is shared exactly if each of its operations is shallow. -/
theorem finalized_run {shared : Nat} (self : Chain) (ops : List ChainOp)
    (hbounded : ∀ block ∈ (ops.foldl perform self).blocks,
      block.header.height.toNat < 2 ^ 64 - 1) :
    (ops.foldl perform self).finality.finalizedHeight.toNat < shared ↔
      self.finality.finalizedHeight.toNat < shared ∧ Along perform (Shallow shared) self ops := by
  induction ops generalizing self with
  | nil => exact (and_iff_left trivial).symm
  | cons op ops ih =>
      have hnext : ∀ block ∈ (self.perform op).blocks, block.header.height.toNat < 2 ^ 64 - 1 :=
        fun block hblock => hbounded block ((blocks_run _ ops).subset hblock)
      rw [List.foldl_cons, ih _ hbounded, finalized_perform self op hnext, and_assoc]
      rfl

/-- A new chain, or one rebuilt from blocks. -/
def Starts (self : Chain) : Prop :=
  (∃ blockVersion finalityMode validatorKey, self = init blockVersion finalityMode validatorKey)
    ∨ ∃ validatorKey blocks, fromBlocks validatorKey blocks = .ok self

theorem Starts.blocks_ne_nil {self : Chain} (h : self.Starts) : self.blocks ≠ [] := by
  rcases h with ⟨_, _, _, rfl⟩ | ⟨validatorKey, blocks, hrebuilt⟩
  · exact List.cons_ne_nil _ _
  · rcases blocks with _ | ⟨genesis, rest⟩
    · cases hrebuilt
    · obtain ⟨_, _, -, -, rfl⟩ := fromBlocks_cons_eq_ok_iff.mp hrebuilt
      exact List.cons_ne_nil _ _

/-- A chain starts with one look at its tip, by the depth that its last block carries. -/
theorem Starts.finalized {shared : Nat} (hshared : 0 < shared) {self : Chain} (h : self.Starts)
    (hbounded : ∀ block ∈ self.blocks, block.header.height.toNat < 2 ^ 64 - 1) :
    self.finality.finalizedHeight.toNat < shared ↔
      LooksBelow shared self.state.governanceState.finalityMode self.finalityConfig
        self.blocks.length self.height := by
  rcases h with ⟨_, _, _, rfl⟩ | ⟨validatorKey, blocks, hrebuilt⟩
  · exact ⟨fun _ _ => Or.inr hshared, fun _ => hshared⟩
  · rcases blocks with _ | ⟨genesis, rest⟩
    · cases hrebuilt
    · obtain ⟨_, replayed, -, -, rfl⟩ := fromBlocks_cons_eq_ok_iff.mp hrebuilt
      have hlast : (genesis :: rest).getLast? = some (rest.getLast?.getD genesis) :=
        List.getLast?_cons
      have hheight : (ofReplayed validatorKey genesis (rest.getLast?.getD genesis)
          (genesis :: rest) replayed).height = (rest.getLast?.getD genesis).header.height :=
        congrArg (fun last => (last.map (·.header.height)).getD 0) hlast
      rw [hheight]
      exact (finalizedHeight_look (hbounded _ (List.mem_of_getLast? hlast)) {} _ _ _).trans
        (and_iff_right hshared)

/-- Where a chain gives way to another one with the same genesis, the switch keeps
what is final exactly if all of its blocks are shared, or neither its start nor an
operation has looked past the shared ones.  Two chains never give way to each
other. -/
theorem shouldSwitchTo_keeps_finalized_iff {start : Chain} (hstart : start.Starts)
    (ops : List ChainOp) (other : Chain)
    (hgenesis : (ops.foldl perform start).blocks.head? = other.blocks.head?)
    (hbounded : ∀ block ∈ (ops.foldl perform start).blocks,
      block.header.height.toNat < 2 ^ 64 - 1) :
    ((ops.foldl perform start).shouldSwitchTo other = true →
        ((∀ h ≤ (ops.foldl perform start).finality.finalizedHeight.toNat, ∀ block,
            (ops.foldl perform start).blocks[h]? = some block → other.blocks[h]? = some block) ↔
          let shared := commonBlocks (ops.foldl perform start).blocks other.blocks
          (ops.foldl perform start).blocks.length ≤ shared
            ∨ LooksBelow shared start.state.governanceState.finalityMode start.finalityConfig
                start.blocks.length start.height
              ∧ Along perform (Shallow shared) start ops))
      ∧ ¬ ((ops.foldl perform start).shouldSwitchTo other = true
        ∧ other.shouldSwitchTo (ops.foldl perform start) = true) := by
  refine ⟨fun _ => ?_, not_shouldSwitchTo_both _ other⟩
  have hne : (ops.foldl perform start).blocks ≠ [] :=
    fun hnil => hstart.blocks_ne_nil (List.prefix_nil.mp (hnil ▸ blocks_run start ops))
  have hshared := commonBlocks_pos hgenesis hne
  have hfirst : ∀ block ∈ start.blocks, block.header.height.toNat < 2 ^ 64 - 1 :=
    fun block hblock => hbounded block ((blocks_run start ops).subset hblock)
  show (ops.foldl perform start).KeepsFinalized other ↔ _
  rw [keepsFinalized_iff, finalized_run start ops hbounded,
    hstart.finalized hshared hfirst, or_comm]

/-- With the depth in force all along, that is a matter of numbers: fewer blocks
than the depth above the last one that is shared, or none. -/
theorem Settled.keepsFinalized_iff {self : Chain} {last : Block} (h : self.Settled last)
    {other : Chain} (hgenesis : self.blocks.head? = other.blocks.head?) :
    self.KeepsFinalized other ↔
      self.blocks.length
          < commonBlocks self.blocks other.blocks + (snapshotDepth last).toNat
        ∨ self.blocks.length ≤ commonBlocks self.blocks other.blocks := by
  have hshared := commonBlocks_pos hgenesis (List.ne_nil_of_mem (List.mem_of_getLast? h.tip))
  have hposition := h.position
  rw [Chain.keepsFinalized_iff, h.finalized, settledAt]
  omega

end

end Chain

/-! ## Two chains from one genesis -/

/-- Blocks produced one after the other, with the same hint of the clock. -/
def produceMany (wallHint : UInt64) : Nat → Chain → Chain
  | 0, chain => chain
  | n + 1, chain => (@Chain.produceBlock polyCrypto (produceMany wallHint n chain) wallHint).2

/-- Two blocks on the genesis; the first is final. -/
def shortChain : Chain := produceMany 0 2 genesisChain

/-- Three other blocks on the same genesis. -/
def longChain : Chain := produceMany 1 3 genesisChain

/-- The first block is final on the short chain and not on the long one, to which
it gives way. -/
theorem shortChain_reverts :
    shortChain.blocks.head? = longChain.blocks.head?
      ∧ shortChain.chainId = longChain.chainId
      ∧ shortChain.finality.finalizedHeight = 1
      ∧ shortChain.shouldSwitchTo longChain = true
      ∧ shortChain.blocks[1]?.map (·.header.blockId)
        ≠ longChain.blocks[1]?.map (·.header.blockId)
      ∧ ¬ (shortChain.shouldSwitchTo longChain = true →
          ∀ h ≤ shortChain.finality.finalizedHeight.toNat, ∀ block,
            shortChain.blocks[h]? = some block → longChain.blocks[h]? = some block) := by
  have hrun : shortChain.blocks.head? = longChain.blocks.head?
      ∧ shortChain.chainId = longChain.chainId
      ∧ shortChain.finality.finalizedHeight = 1
      ∧ shortChain.shouldSwitchTo longChain = true
      ∧ shortChain.blocks[1]?.map (·.header.blockId)
        ≠ longChain.blocks[1]?.map (·.header.blockId)
      ∧ 1 < shortChain.blocks.length := by
    decide +kernel
  obtain ⟨hgenesis, hchain, hfinal, hswitch, hids, hlength⟩ := hrun
  refine ⟨hgenesis, hchain, hfinal, hswitch, hids, fun h => ?_⟩
  have hblock := List.getElem?_eq_getElem hlength
  have hsame := h hswitch 1 (by rw [hfinal]; decide) _ hblock
  exact hids (by rw [hblock, hsame])

/-- One block on the genesis. -/
def oneBlock : List Chain.ChainOp := [.block (.produce 0)]

/-- A chain whose only block is not final yet gives way and loses nothing final;
after one more block it would. -/
theorem shouldSwitchTo_keeps_finalized_oneBlock :
    (oneBlock.foldl (@Chain.perform polyCrypto) genesisChain).shouldSwitchTo longChain = true
      ∧ (oneBlock.foldl (@Chain.perform polyCrypto) genesisChain).KeepsFinalized longChain
      ∧ ¬ ((oneBlock ++ oneBlock).foldl (@Chain.perform polyCrypto) genesisChain).KeepsFinalized
        longChain := by
  have hstart : @Chain.Starts polyCrypto genesisChain := Or.inl ⟨_, _, _, rfl⟩
  have hruns : ∀ ops ∈ [oneBlock, oneBlock ++ oneBlock],
      let self := ops.foldl (@Chain.perform polyCrypto) genesisChain
      self.blocks.head? = longChain.blocks.head?
        ∧ (∀ block ∈ self.blocks, block.header.height.toNat < 2 ^ 64 - 1)
        ∧ self.shouldSwitchTo longChain = true := by
    decide +kernel
  obtain ⟨hgenesis, hbounded, hswitch⟩ := hruns oneBlock (by simp)
  obtain ⟨hgenesis', hbounded', hswitch'⟩ := hruns (oneBlock ++ oneBlock) (by simp)
  refine ⟨hswitch, ?_, ?_⟩
  · exact ((@Chain.shouldSwitchTo_keeps_finalized_iff polyCrypto genesisChain hstart oneBlock
      longChain hgenesis hbounded).1 hswitch).mpr (by decide +kernel)
  · exact ((@Chain.shouldSwitchTo_keeps_finalized_iff polyCrypto genesisChain hstart
      (oneBlock ++ oneBlock) longChain hgenesis' hbounded').1 hswitch').not.mpr
      (by decide +kernel)

end Sccgub
