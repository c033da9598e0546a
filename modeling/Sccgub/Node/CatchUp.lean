import Mathlib
import Sccgub.Node.Reload
import Sccgub.Node.Replays

/-!
# Catching up

A node that is behind takes the blocks it lacks one after the other.  It asks for
two things that a replay from genesis does not: that the block is one above the
tip, and that its producer is among the validators.  Otherwise an import and a
replay take the same blocks and leave the same state, so a node that has caught
up is the one it caught up with.
-/

namespace Sccgub

open Bincode FixedWidth Fallible Runs

/-- Each block one above the block before it. -/
def RisesFrom : UInt64 → List Block → Prop
  | _, [] => True
  | height, block :: rest =>
      block.header.height = saturatingAdd height 1 ∧ RisesFrom block.header.height rest

instance decidableRisesFrom : (height : UInt64) → (blocks : List Block) →
    Decidable (RisesFrom height blocks)
  | _, [] => .isTrue trivial
  | _, block :: rest =>
      have := decidableRisesFrom block.header.height rest
      inferInstanceAs (Decidable (_ ∧ _))

section

variable [Crypto]

/-- The last block of a replay was taken after the others. -/
theorem replayAll_concat_iff {chainId : Hash} {blockVersion : UInt32} {parentId : Hash}
    {acc next : Replayed} {rest : List Block} {block : Block} :
    replayAll chainId blockVersion parentId acc (rest ++ [block]) = .ok next ↔
      ∃ mid, replayAll chainId blockVersion parentId acc rest = .ok mid
        ∧ replayNext chainId blockVersion
          ((rest.getLast?.map (·.header.blockId)).getD parentId) mid block = .ok next := by
  constructor
  · intro h
    obtain ⟨mid, hmid⟩ := replayAll_append_left h
    refine ⟨mid, hmid, ?_⟩
    induction rest generalizing parentId acc with
    | nil =>
        obtain rfl := Except.ok.inj hmid
        obtain ⟨last, hlast, hnil⟩ := replayAll_cons_eq_ok_iff.mp h
        obtain rfl := Except.ok.inj hnil
        exact hlast
    | cons first rest ih =>
        obtain ⟨after, hafter, hrest⟩ := replayAll_cons_eq_ok_iff.mp h
        obtain ⟨after', hafter', hmid⟩ := replayAll_cons_eq_ok_iff.mp hmid
        obtain rfl := Except.ok.inj (hafter.symm.trans hafter')
        have hlast := ih hrest hmid
        rw [List.getLast?_cons]
        rcases hend : rest.getLast? with _ | last
        · rw [hend] at hlast
          exact hlast
        · rw [hend] at hlast
          exact hlast
  · rintro ⟨mid, hmid, hnext⟩
    exact replayAll_concat hmid hnext

namespace Chain

variable {self : Chain} {genesis : Block} {rest : List Block} {start acc : Replayed}

/-- The validators of the node let the producer of the block produce. -/
def AcceptsProposer (self : Chain) (block : Block) : Prop := self.checkProposer block none = .ok ()

instance (self : Chain) (block : Block) : Decidable (self.AcceptsProposer block) :=
  inferInstanceAs (Decidable (_ = _))

def importing (self : Chain) (block : Block) : Chain := (self.importBlock block).2

/-- What a plain chain asks of a candidate before the gate. -/
theorem Plain.candidateOk_iff (h : self.Plain) {parent block : Block} :
    self.CandidateOk parent block ↔
      block.header.height = saturatingAdd parent.header.height 1
        ∧ block.header.parentId = parent.header.blockId ∧ block.header.chainId = self.chainId
        ∧ block.header.version = self.blockVersion ∧ self.AcceptsProposer block
        ∧ verifyProducerSignature block = .ok () := by
  have hversion : self.checkVersion block = .ok () ↔ block.header.version = self.blockVersion := by
    unfold checkVersion
    rw [h.state.versionHistory]
    by_cases hsame : block.header.version = self.blockVersion
    · simp [hsame]
    · simp [hsame]
  constructor
  · intro hok
    exact ⟨hok.height, hok.parentId, hok.chainId, hversion.mp hok.version, hok.proposer,
      hok.signature⟩
  · rintro ⟨hheight, hparent, hchain, hsame, hproposer, hsignature⟩
    exact ⟨hheight, hparent, hchain, hversion.mpr hsame, hproposer, hsignature⟩

/-- A block that a replay takes is imported where the node asks for nothing
more. -/
theorem Retraces.importBlock (h : Retraces self genesis rest start acc) (hplain : self.Plain)
    {acc' : Replayed} {block : Block}
    (hnext : replayNext genesis.header.chainId genesis.header.version
      ((rest.getLast?.map (·.header.blockId)).getD genesis.header.blockId) acc block = .ok acc')
    (hheight : block.header.height = saturatingAdd self.height 1)
    (hproposer : self.AcceptsProposer block) : ∃ next, self.importBlock block = (.ok (), next) := by
  obtain ⟨hsignature, hchain, hversion, hvalid, state, applied, hnonces, happly, -⟩ :=
    replayNext_eq_ok_iff.mp hnext
  obtain ⟨parent, htip⟩ : ∃ parent, self.blocks.getLast? = some parent := by
    rw [h.blocks]
    exact ⟨_, List.getLast?_cons⟩
  have hparent : self.height = parent.header.height := by
    rw [Chain.height, htip]
    rfl
  rw [hparent] at hheight
  rw [h.parentId htip, h.view.validateCpog] at hvalid
  have hpos : block.header.height ≠ 0 := by
    rw [hheight]
    exact UInt64.pos_iff_ne_zero.mp (saturatingAdd_one_pos _)
  -- the replay worked on another state with the same view
  obtain ⟨state', hnonces', hview⟩ := (h.view.symm.validateNonces block.body.transitions).exists_ok
    hnonces
  have hprice : standardGasPrice state = self.importGasPrice := by
    rw [← hview.standardGasPrice, standardGasPrice, ManagedWorldState.validateNonces_frame hnonces']
    exact (hplain.rates.effectiveFee _ _).symm
  rw [h.balances, h.treasury, ← h.blockVersion, hprice] at happly
  obtain ⟨applied', happly', -⟩ := (hview.applyBlock self.balances self.treasury
    block.body.transitions block.receipts self.blockVersion block.header.validatorId
    self.importGasPrice block.header.height).exists_ok happly
  have hok : self.CandidateOk parent block := hplain.candidateOk_iff.mpr ⟨hheight,
    parentId_of_cpogValid (validateCpog_eq_valid_iff.mp hvalid) hpos, hchain.trans h.chainId.symm,
    hversion.trans h.blockVersion.symm, hproposer, hsignature⟩
  exact ⟨_, hplain.inMemory.importBlock_eq_ok_iff.mpr ⟨parent, state', applied', htip, hok, hvalid,
    hnonces', happly', rfl⟩⟩

theorem Extends.height_next {parent block : Block} {applied : AppliedBlock} {next : Chain}
    (h : Extends self parent block applied next) :
    block.header.height = saturatingAdd self.height 1 ∧ next.height = block.header.height := by
  refine ⟨?_, ?_⟩
  · rw [h.height, Chain.height, h.tip]
    rfl
  · rw [Chain.height, h.blocks, List.getLast?_concat]
    rfl

/-- What import asks of blocks, one after the other, is what a replay asks of
them, their heights, and their producers. -/
theorem Retraces.importAll_iff (h : Retraces self genesis rest start acc) (hmem : self.InMemory)
    (hrates : StandardRates self.economics) {more : List Block} :
    (∃ next, self.importAll more = .ok next) ↔
      (∃ last, replayAll genesis.header.chainId genesis.header.version genesis.header.blockId start
          (rest ++ more) = .ok last)
        ∧ RisesFrom self.height more ∧ Along importing AcceptsProposer self more := by
  induction more generalizing self rest acc with
  | nil =>
      refine ⟨fun _ => ⟨⟨acc, ?_⟩, trivial, trivial⟩, fun _ => ⟨self, rfl⟩⟩
      rw [List.append_nil]
      exact h.replay
  | cons block more ih =>
      have hplain := h.plain hmem hrates
      -- one import, and what it leaves for the others
      have hstep : ∀ {next}, self.importBlock block = (.ok (), next) →
          ((∃ last, next.importAll more = .ok last) ↔
            (∃ last, replayAll genesis.header.chainId genesis.header.version
                genesis.header.blockId start (rest ++ block :: more) = .ok last)
              ∧ RisesFrom block.header.height more ∧ Along importing AcceptsProposer next more)
            ∧ block.header.height = saturatingAdd self.height 1 ∧ self.AcceptsProposer block := by
        intro next himport
        obtain ⟨parent, applied, hext⟩ := hplain.extends_of_importBlock himport
        obtain ⟨acc', hretraces, -⟩ := h.extend hext
        obtain ⟨hheight, hnextHeight⟩ := hext.height_next
        obtain ⟨_, _, _, -, hok, -⟩ := hmem.importBlock_eq_ok_iff.mp himport
        have hrest := ih hretraces (hext.inMemory hmem)
          ⟨hext.economics.1.trans hrates.baseFee, hext.economics.2.trans hrates.alpha⟩
        rw [hnextHeight, List.append_assoc, List.singleton_append] at hrest
        exact ⟨hrest, hheight, hok.proposer⟩
      constructor
      · rintro ⟨last, hlast⟩
        rcases hrun : self.importBlock block with ⟨e | ⟨⟩, next⟩
        · rw [importAll, hrun] at hlast
          cases hlast
        · rw [importAll, hrun] at hlast
          obtain ⟨hrest, hheight, hproposer⟩ := hstep hrun
          obtain ⟨hreplay, hrises, halong⟩ := hrest.mp ⟨last, hlast⟩
          refine ⟨hreplay, ⟨hheight, hrises⟩, hproposer, ?_⟩
          rw [importing, hrun]
          exact halong
      · rintro ⟨⟨last, hlast⟩, ⟨hheight, hrises⟩, hproposer, halong⟩
        obtain ⟨acc', hinit⟩ := replayAll_append_left
          (show replayAll _ _ _ start ((rest ++ [block]) ++ more) = .ok last by
            rw [List.append_assoc, List.singleton_append, hlast])
        obtain ⟨mid, hmid, hnext⟩ := replayAll_concat_iff.mp hinit
        obtain rfl : mid = acc := Except.ok.inj (hmid.symm.trans h.replay)
        obtain ⟨next, hrun⟩ := h.importBlock hplain hnext hheight hproposer
        rw [importing, hrun] at halong
        obtain ⟨done, hdone⟩ := (hstep hrun).1.mpr ⟨⟨last, hlast⟩, hrises, halong⟩
        exact ⟨done, by rw [importAll, hrun]; exact hdone⟩

/-- What every block that is taken keeps holds after an import of many. -/
theorem Plain.importAll {P : Chain → List Block → Prop}
    (hplain : ∀ {chain kept}, P chain kept → chain.Plain)
    (hstep : ∀ {chain next kept parent block applied}, P chain kept →
      Extends chain parent block applied next → P next (kept ++ [block]))
    {kept more : List Block} (h : P self kept) {next : Chain}
    (hrun : self.importAll more = .ok next) : P next (kept ++ more) := by
  induction more generalizing self kept with
  | nil =>
      obtain rfl := Except.ok.inj hrun
      rw [List.append_nil]
      exact h
  | cons block more ih =>
      rcases himport : self.importBlock block with ⟨e | ⟨⟩, after⟩
      · rw [Chain.importAll, himport] at hrun
        cases hrun
      · rw [Chain.importAll, himport] at hrun
        obtain ⟨parent, applied, hext⟩ := (hplain h).extends_of_importBlock himport
        have hdone := ih (hstep h hext) hrun
        rw [List.append_assoc, List.singleton_append] at hdone
        exact hdone

/-- The blocks that were imported, and a replay that follows. -/
theorem Replays.importAll (h : Replays self genesis rest start acc) (hmem : self.InMemory)
    (hrates : StandardRates self.economics) {more : List Block} {next : Chain}
    (hrun : self.importAll more = .ok next) :
    ∃ last, Replays next genesis (rest ++ more) start last := by
  obtain ⟨-, -, hlast⟩ := Plain.importAll
    (P := fun chain kept => chain.InMemory ∧ StandardRates chain.economics
      ∧ ∃ last, Replays chain genesis kept start last)
    (fun ⟨hmem, hrates, _, hreplays⟩ => hreplays.toRetraces.plain hmem hrates)
    (fun ⟨hmem, hrates, _, hreplays⟩ hext => ⟨hext.inMemory hmem,
      ⟨hext.economics.1.trans hrates.baseFee, hext.economics.2.trans hrates.alpha⟩,
      hreplays.extend hext⟩)
    ⟨hmem, hrates, acc, h⟩ hrun
  exact hlast

/-- Two ways from blocks to a chain.  The later blocks can be imported into the
chain of the first exactly when all of them can be replayed, their heights rise
by one, and each producer is accepted when its block comes.  The chains are then
the same but for their settings and validators. -/
theorem importAll_iff_fromBlocks {validatorKey : ValidatorKey} {chain : Chain}
    (h : fromBlocks validatorKey [genesis] = .ok chain) :
    ((∃ imported, chain.importAll rest = .ok imported) ↔
        (∃ rebuilt, fromBlocks validatorKey (genesis :: rest) = .ok rebuilt)
          ∧ RisesFrom 0 rest ∧ Along importing AcceptsProposer chain rest)
      ∧ ∀ imported rebuilt, chain.importAll rest = .ok imported →
          fromBlocks validatorKey (genesis :: rest) = .ok rebuilt → imported.Reproduces rebuilt := by
  obtain ⟨start, replayed, hstart, hreplay, rfl⟩ := fromBlocks_cons_eq_ok_iff.mp h
  obtain rfl := Except.ok.inj hreplay
  have hreplays := @replays_ofReplayed _ validatorKey _ _ _ _ hstart hreplay
  have hmem : (ofReplayed validatorKey genesis genesis [genesis] start).InMemory :=
    (plain_replayGenesis hstart).state.durable
  have hzero : (ofReplayed validatorKey genesis genesis [genesis] start).height = 0 :=
    (replayGenesis_eq_ok_iff.mp hstart).1
  refine ⟨?_, fun imported rebuilt himported hrebuilt => ?_⟩
  · refine (hreplays.toRetraces.importAll_iff hmem ⟨rfl, rfl⟩).trans (and_congr ?_ ?_)
    · constructor
      · rintro ⟨last, hlast⟩
        exact ⟨_, fromBlocks_cons_eq_ok_iff.mpr ⟨start, last, hstart, hlast, rfl⟩⟩
      · rintro ⟨rebuilt, hrebuilt⟩
        obtain ⟨start', last, hstart', hlast, -⟩ := fromBlocks_cons_eq_ok_iff.mp hrebuilt
        obtain rfl : start' = start := Except.ok.inj (hstart'.symm.trans hstart)
        exact ⟨last, hlast⟩
    · rw [List.getLast?_nil, Option.getD_none, hzero]
  · obtain ⟨last, hlast⟩ := hreplays.importAll hmem ⟨rfl, rfl⟩ himported
    obtain ⟨start', last', hstart', hlast', rfl⟩ := fromBlocks_cons_eq_ok_iff.mp hrebuilt
    obtain rfl : start' = start := Except.ok.inj (hstart'.symm.trans hstart)
    obtain rfl : last' = last := Except.ok.inj (hlast'.symm.trans hlast.replay)
    exact hlast.reproduces (replays_ofReplayed hstart' hlast')

/-! ## Two nodes -/

omit [Crypto] in
theorem risesFrom_of_heights {kept more : List Block} {tip : Block} (htip : kept.getLast? = some tip)
    (h : ∀ i (a b : Block), (kept ++ more)[i]? = some a → (kept ++ more)[i + 1]? = some b →
      b.header.height = saturatingAdd a.header.height 1) : RisesFrom tip.header.height more := by
  induction more generalizing kept tip with
  | nil => trivial
  | cons block more ih =>
      have hpos : 0 < kept.length := by
        by_contra hnone
        rw [List.length_eq_zero_iff.mp (by omega : kept.length = 0)] at htip
        cases htip
      rw [List.getLast?_eq_getElem?] at htip
      refine ⟨h (kept.length - 1) tip block ?_ ?_, ?_⟩
      · rw [List.getElem?_append_left (by omega)]
        exact htip
      · rw [List.getElem?_append_right (by omega), show kept.length - 1 + 1 - kept.length = 0 by omega]
        rfl
      · refine @ih (kept ++ [block]) block List.getLast?_concat fun i a b ha hb => ?_
        rw [List.append_assoc, List.singleton_append] at ha hb
        exact h i a b ha hb

/-- Wherever two nodes have got to, one that is behind takes the blocks of the
other as long as it accepts their producers, and is then the same node. -/
theorem caughtUp_of_runs {keyA keyB : ValidatorKey} {chainA chainB : Chain}
    (hA : fromBlocks keyA [genesis] = .ok chainA) (hB : fromBlocks keyB [genesis] = .ok chainB)
    {opsA opsB : List ReplicaOp} (hopsA : Along replica Repeatable chainA opsA)
    (hopsB : Along replica Repeatable chainB opsB) {more : List Block}
    (hmore : (opsB.foldl replica chainB).blocks ++ more = (opsA.foldl replica chainA).blocks) :
    ((∃ next, (opsB.foldl replica chainB).importAll more = .ok next) ↔
        Along importing AcceptsProposer (opsB.foldl replica chainB) more)
      ∧ ∀ next, (opsB.foldl replica chainB).importAll more = .ok next →
          next.blocks = (opsA.foldl replica chainA).blocks
            ∧ (opsA.foldl replica chainA).Reproduces next := by
  obtain ⟨start, hstartA⟩ := Replayable.single hA
  obtain ⟨start', hstartB⟩ := Replayable.single hB
  have hahead := (hstartA.throughout hopsA).last
  have hbehind := (hstartB.throughout hopsB).last
  obtain ⟨restA, accA, hreplaysA⟩ := hahead.replays
  obtain ⟨rest, acc, hreplays⟩ := hbehind.replays
  obtain rfl : start' = start := Except.ok.inj (hreplays.begins.symm.trans hreplaysA.begins)
  obtain rfl : rest ++ more = restA := by
    rw [hreplays.blocks, hreplaysA.blocks, List.cons_append] at hmore
    exact (List.cons.inj hmore).2
  have hrises : RisesFrom (opsB.foldl replica chainB).height more := by
    obtain ⟨tip, htip⟩ : ∃ tip, (opsB.foldl replica chainB).blocks.getLast? = some tip := by
      rw [hreplays.blocks]
      exact ⟨_, List.getLast?_cons⟩
    have hblocks : chainA.blocks = [genesis] := by
      obtain ⟨_, _, -, -, rfl⟩ := fromBlocks_cons_eq_ok_iff.mp hA
      rfl
    have hstacked := stacked_run hblocks opsA
    rw [← hmore] at hstacked
    have := risesFrom_of_heights htip hstacked.height
    rwa [Chain.height, htip]
  refine ⟨?_, fun next hnext => ?_⟩
  · rw [hreplays.toRetraces.importAll_iff hbehind.inMemory hbehind.rates]
    exact ⟨fun h => h.2.2, fun h => ⟨⟨accA, hreplaysA.replay⟩, hrises, h⟩⟩
  · obtain ⟨last, hlast⟩ := hreplays.importAll hbehind.inMemory hbehind.rates hnext
    obtain rfl : last = accA := Except.ok.inj (hlast.replay.symm.trans hreplaysA.replay)
    exact ⟨hlast.blocks.trans hreplaysA.blocks.symm, hreplaysA.reproduces hlast⟩

end Chain

end

/-! ## Transfers that have to be caught up with -/

/-- The block of another transfer, on top of the first. -/
def followingBlock : Block :=
  ([.submit (transferOut 2 1), .block (.produce 0)].foldl (@Chain.replica polyCrypto)
    (transferring.foldl (@Chain.replica polyCrypto) rebuiltHolder)).blocks.getLastD holderGenesis

theorem catchUp_evaluated :
    ((@Chain.fromBlocks polyCrypto nodeKey [holderGenesis, transferBlock, followingBlock]).isOk = true
        ∧ RisesFrom 0 [transferBlock, followingBlock]
        ∧ Along (@Chain.importing polyCrypto) Chain.AcceptsProposer rebuiltHolder
          [transferBlock, followingBlock])
      ∧ servedHolder.AcceptsProposer transferBlock
      ∧ servedHolder.blocks = [holderGenesis] := by
  decide +kernel

theorem importAll_iff_fromBlocks_transfer :
    ∃ imported rebuilt,
      @Chain.importAll polyCrypto rebuiltHolder [transferBlock, followingBlock] = .ok imported
        ∧ @Chain.fromBlocks polyCrypto nodeKey [holderGenesis, transferBlock, followingBlock]
          = .ok rebuilt
        ∧ @Chain.Reproduces polyCrypto imported rebuilt := by
  obtain ⟨⟨hreplay, hrises, hproposers⟩, -⟩ := catchUp_evaluated
  obtain ⟨rebuilt, hrebuilt⟩ := exists_ok_of_isOk hreplay
  obtain ⟨hiff, hsame⟩ := @Chain.importAll_iff_fromBlocks polyCrypto holderGenesis
    [transferBlock, followingBlock] nodeKey rebuiltHolder (eq_ok_orKeep transfer_evaluated.1)
  obtain ⟨imported, himported⟩ := hiff.mpr ⟨⟨rebuilt, hrebuilt⟩, hrises, hproposers⟩
  exact ⟨imported, rebuilt, himported, hrebuilt, hsame imported rebuilt himported hrebuilt⟩

/-- The node that has the block produced it; the other one takes it over. -/
theorem caughtUp_of_runs_transfer :
    ∃ next, @Chain.importAll polyCrypto servedHolder [transferBlock] = .ok next
      ∧ next.blocks = [holderGenesis, transferBlock]
      ∧ @Chain.Reproduces polyCrypto (transferring.foldl (@Chain.replica polyCrypto) rebuiltHolder)
        next := by
  obtain ⟨hbegins, -, -, hahead, -⟩ := transfer_evaluated
  obtain ⟨-, hproposer, hbehind⟩ := catchUp_evaluated
  have hchain : @Chain.fromBlocks polyCrypto nodeKey [holderGenesis] = .ok rebuiltHolder :=
    eq_ok_orKeep hbegins
  obtain ⟨hiff, hsame⟩ := @Chain.caughtUp_of_runs polyCrypto holderGenesis nodeKey nodeKey
    rebuiltHolder rebuiltHolder hchain hchain transferring [.validators []] transferring_repeatable
    ⟨trivial, trivial⟩ [transferBlock] (by
      rw [hahead]
      exact congrArg (· ++ [transferBlock]) hbehind)
  obtain ⟨next, hnext⟩ := hiff.mpr ⟨hproposer, trivial⟩
  obtain ⟨hblocks, hreproduces⟩ := hsame next hnext
  exact ⟨next, hnext, hblocks.trans hahead, hreproduces⟩

end Sccgub
