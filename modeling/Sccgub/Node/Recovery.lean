import Mathlib
import Sccgub.Node.Reload
import Sccgub.Node.Replays

/-!
# A node that may die

A running node with its block directory.  Every block that comes to the chain is
saved in the background; the process may end between any two file operations and
starts again from what the directory holds, without a snapshot.  What comes back
is a chain that a replay arrives at, so it is the chain that the node, or any
other with the same genesis, had over these blocks.

`Durable` ties the chain, its replay and the directory together, and every event
keeps it (`durable_step`).  Two nodes with the same blocks therefore agree.  With
saves in turn nothing is missing in the directory (`TrailingDurable.keeps`), and
then every restart is one to a chain.
-/

namespace Runs

/-- Two conditions on the steps of a run. -/
theorem Along.and {σ ι : Type} {step : σ → ι → σ} {C D : σ → ι → Prop} {s : σ} {ops : List ι}
    (h : Along step C s ops) (hD : Along step D s ops) :
    Along step (fun s op => C s op ∧ D s op) s ops := by
  induction ops generalizing s with
  | nil => trivial
  | cons op ops ih => exact ⟨⟨h.1, hD.1⟩, ih h.2 hD.2⟩

end Runs

namespace Sccgub

open Bincode FixedWidth Fallible Runs AtomicFiles

inductive StartError where
  | noChain
  | importFailed (e : ImportError)

/-- The chain and the directory with the saves under way. -/
structure DurableNode (Text : Type) where
  chain : Chain
  disk : Disk Bytes Text

/-- What happens to a node: an operation, a step of a save, or a crash and a new
start. -/
inductive NodeEvent (Text : Type) where
  | op (op : Chain.ReplicaOp)
  | advance (i : Nat)
  | restart (validatorKey : ValidatorKey) (torn : Bytes → Option Text)

section

variable [Crypto] {Text : Type} (format : BlockFormat Text)

/-- A start from the files of a directory. -/
def loadChain (validatorKey : ValidatorKey) (files : Std.ExtTreeMap Bytes Text) :
    Except StartError Chain :=
  match loadAllBlocks format files with
  | .ok (genesis :: rest) =>
      (Chain.fromBlocks validatorKey (genesis :: rest)).mapError .importFailed
  | _ => .error .noChain

theorem loadChain_of_loaded {validatorKey : ValidatorKey} {files : Std.ExtTreeMap Bytes Text}
    {blocks : List Block} {chain : Chain} (hload : loadAllBlocks format files = .ok blocks)
    (hchain : Chain.fromBlocks validatorKey blocks = .ok chain) :
    loadChain format validatorKey files = .ok chain := by
  unfold loadChain
  rw [hload]
  cases blocks with
  | nil => cases hchain
  | cons genesis rest =>
      dsimp only
      rw [hchain]
      rfl

/-- The blocks of a step, if there are any, can be read again. -/
def Chain.AddsReadable (self : Chain) (op : Chain.ReplicaOp) : Prop :=
  self.blocks.length < 10 ^ 10 ∧ ∀ block ∈ (self.replica op).blocks.drop self.blocks.length,
    block.body.genesisConsensusParams = none ∧ block.header.parentId ≠ zeroHash

instance (chain : Chain) (op : Chain.ReplicaOp) : Decidable (chain.AddsReadable op) :=
  inferInstanceAs (Decidable (_ ∧ _))

/-- A step that a replay can repeat, to blocks that can be read again. -/
def Chain.Saves (self : Chain) (op : Chain.ReplicaOp) : Prop :=
  self.Repeatable op ∧ self.AddsReadable op

namespace DurableNode

variable (self : DurableNode Text)

def store : BlockStore Text := ⟨self.chain.blocks, self.disk⟩

def step : NodeEvent Text → DurableNode Text
  | .op op =>
      let chain := self.chain.replica op
      match chain.blocks[self.chain.blocks.length]? with
      | some block =>
          ⟨chain, self.disk.start (blockFile block.header.height) (format.toJson block)⟩
      | none => { self with chain }
  | .advance i => { self with disk := self.disk.advance fileNaming i }
  | .restart validatorKey torn =>
      let disk := self.disk.reopened fileNaming torn
      ⟨orKeep self.chain (loadChain format validatorKey disk.files), disk⟩

/-- A node whose genesis block has been saved before anything else happens. -/
def opened (chain : Chain) (genesis : Block) : DurableNode Text where
  chain
  disk := (((({} : Disk Bytes Text).start (blockFile genesis.header.height)
    (format.toJson genesis)).advance fileNaming 0).advance fileNaming 0)

/-- A process that finds its saved blocks out of order does not start. -/
def Admits : NodeEvent Text → Prop
  | .op op => self.chain.Saves op
  | .advance _ => True
  | .restart _ _ => self.store.saved <+: self.chain.blocks

/-- The saves get their names one after the other. -/
def InTurn : NodeEvent Text → Prop
  | .op op => self.chain.Saves op
  | .advance i => self.disk.saves[i]?.map (·.written) = some true → i = 0
  | .restart _ _ => True

end DurableNode

/-! ## The chain and its files -/

theorem Chain.Stacked.kept {genesis : Block} {blocks kept : List Block}
    (h : Chain.Stacked genesis blocks) (hinit : kept <+: blocks) (hne : kept ≠ []) :
    Chain.Stacked genesis kept := by
  have hkept : ∀ {i : Nat} {b : Block}, kept[i]? = some b → blocks[i]? = some b := by
    intro i b hb
    obtain ⟨more, rfl⟩ := hinit
    rw [List.getElem?_append_left (List.getElem?_eq_some_iff.mp hb).1]
    exact hb
  refine ⟨?_, fun i a b ha hb => h.height i a b (hkept ha) (hkept hb),
    fun i a b ha hb => h.valid i a b (hkept ha) (hkept hb)⟩
  obtain ⟨first, rest, rfl⟩ := List.exists_cons_of_ne_nil hne
  exact (hkept rfl).symm.trans h.first

/-- The blocks behind genesis are not at its height. -/
theorem Chain.Stacked.height_ne {genesis : Block} {blocks : List Block} {block : Block}
    (h : Chain.Stacked genesis (blocks ++ [block])) (hgenesis : genesis.header.height = 0)
    (hne : blocks ≠ []) : block.header.height ≠ genesis.header.height := by
  obtain ⟨n, hn⟩ : ∃ n, blocks.length = n + 1 :=
    Nat.exists_eq_succ_of_ne_zero (List.length_pos_iff.mpr hne).ne'
  have hparent : (blocks ++ [block])[n]? = some blocks[n] := by
    rw [List.getElem?_append_left (by omega), List.getElem?_eq_getElem (by omega)]
  have hblock : (blocks ++ [block])[n + 1]? = some block := by
    rw [← hn, List.getElem?_concat_length]
  rw [h.height n _ block hparent hblock, hgenesis]
  exact UInt64.pos_iff_ne_zero.mp (saturatingAdd_one_pos _)

/-- What a node is between two events: a chain that a replay arrives at, its
files, and genesis among them. -/
structure Durable (genesis : Block) (start : Replayed) (node : DurableNode Text) : Prop where
  replayable : node.chain.Replayable genesis start
  stacked : Chain.Stacked genesis node.chain.blocks
  stored : BlockStore.Stored format node.store
  saved : genesis ∈ node.store.saved

variable {format}

namespace DurableNode

variable {self : DurableNode Text} {genesis : Block} {start : Replayed}

theorem step_op_of_none {op : Chain.ReplicaOp}
    (h : (self.chain.replica op).blocks[self.chain.blocks.length]? = none) :
    self.step format (.op op) = { self with chain := self.chain.replica op } := by
  simp only [step, h]

theorem step_op_of_some {op : Chain.ReplicaOp} {block : Block}
    (h : (self.chain.replica op).blocks[self.chain.blocks.length]? = some block) :
    self.step format (.op op) = ⟨self.chain.replica op,
      self.disk.start (blockFile block.header.height) (format.toJson block)⟩ := by
  simp only [step, h]

theorem chain_op (op : Chain.ReplicaOp) :
    (self.step format (.op op)).chain = self.chain.replica op := by
  simp only [step]
  split <;> rfl

/-- An operation leaves the files alone, or the save of the next block begins. -/
theorem store_op (hgenesis : Follows [] genesis) (h : Durable format genesis start self)
    {op : Chain.ReplicaOp} (hsaves : self.chain.Saves op) :
    Chain.Stacked genesis (self.chain.replica op).blocks
      ∧ ((self.step format (.op op)).store = self.store
        ∨ ∃ block, (self.step format (.op op)).store = self.store.step format (.append block)
          ∧ Follows self.chain.blocks block ∧ block.header.height ≠ genesis.header.height) := by
  obtain ⟨-, hroom, hclean⟩ := hsaves
  have hgated := self.chain.gated_replica op
  have hstacked := h.stacked.gated hgated
  refine ⟨hstacked, ?_⟩
  rcases hgated with hsame | ⟨parent, block, state, -, -, -, hmore⟩
  · left
    have hnone : (self.chain.replica op).blocks[self.chain.blocks.length]? = none := by
      rw [hsame, List.getElem?_eq_none le_rfl]
    rw [store, step_op_of_none hnone]
    exact congrArg (BlockStore.mk · self.disk) hsame
  · right
    have hblock : (self.chain.replica op).blocks[self.chain.blocks.length]? = some block := by
      rw [hmore, List.getElem?_concat_length]
    have hwide : self.chain.blocks.length ≤ 2 ^ 64 := hroom.le.trans (by norm_num)
    have hwide' : (self.chain.blocks ++ [block]).length ≤ 2 ^ 64 := by
      rw [List.length_append, List.length_singleton]
      exact (Nat.succ_le_of_lt hroom).trans (by norm_num)
    rw [hmore] at hstacked
    refine ⟨block, ?_, ?_, hstacked.height_ne hgenesis.height h.replayable.nonempty⟩
    · rw [store, step_op_of_some hblock]
      exact congrArg (BlockStore.mk · _) hmore
    · have hold := (h.stacked.gapless_iff hgenesis hwide).mp h.stored.gapless
      have hgapless : Gapless (self.chain.blocks ++ [block]) := by
        refine (hstacked.gapless_iff hgenesis hwide').mpr fun other hother => ?_
        rw [List.tail_append_of_ne_nil h.replayable.nonempty] at hother
        rcases List.mem_append.mp hother with hearlier | hlast
        · exact hold other hearlier
        · rw [List.mem_singleton.mp hlast]
          refine hclean block ?_
          rw [hmore, List.drop_left]
          exact List.mem_cons_self
      have hfollows := hgapless _ block List.getElem?_concat_length
      rwa [List.take_left] at hfollows

theorem durable_op (hgenesis : Follows [] genesis) (h : Durable format genesis start self)
    {op : Chain.ReplicaOp} (hsaves : self.chain.Saves op) :
    Durable format genesis start (self.step format (.op op)) := by
  obtain ⟨hstacked, hstore⟩ := store_op hgenesis h hsaves
  refine ⟨?_, ?_, ?_, ?_⟩
  · rw [chain_op]
    exact h.replayable.step hsaves.1
  · rw [chain_op]
    exact hstacked
  · rcases hstore with hstill | ⟨block, hnext, hfollows, -⟩
    · rw [hstill]
      exact h.stored
    · rw [hnext]
      exact h.stored.step ⟨hfollows, hsaves.2.1⟩
  · rcases hstore with hstill | ⟨block, hnext, -, hheight⟩
    · rw [hstill]
      exact h.saved
    · rw [hnext]
      obtain ⟨hmem, hnot⟩ := BlockStore.mem_saved.mp h.saved
      refine BlockStore.mem_saved.mpr ⟨List.mem_append_left _ hmem, ?_⟩
      show _ ∉ (self.disk.saves ++ [_]).map _
      rw [List.map_append, List.mem_append, not_or]
      refine ⟨hnot, fun hsame => hheight ?_⟩
      exact (numberedFile_injective _ (List.mem_singleton.mp hsame)).symm

theorem durable_advance (h : Durable format genesis start self) (i : Nat) :
    Durable format genesis start (self.step format (.advance i)) := by
  refine ⟨h.replayable, h.stacked,
    h.stored.step (show self.store.Admits format (.advance i) from trivial), ?_⟩
  obtain ⟨hmem, hnot⟩ := BlockStore.mem_saved.mp h.saved
  refine BlockStore.mem_saved.mpr ⟨hmem, fun hname => hnot ?_⟩
  have hname : _ ∈ (self.disk.advance fileNaming i).names := hname
  rcases hi : self.disk.saves[i]? with _ | save
  · rwa [Disk.advance, hi] at hname
  · rcases hwritten : save.written with _ | _
    · rwa [Disk.names_unwritten fileNaming hi hwritten] at hname
    · rw [Disk.names_written fileNaming hi hwritten] at hname
      exact List.mem_of_mem_eraseIdx hname

/-- A start from the saved blocks. -/
theorem loadChain_saved (h : Durable format genesis start self) (validatorKey : ValidatorKey)
    (torn : Bytes → Option Text) (hinit : self.store.saved <+: self.chain.blocks) :
    self.store.reload format torn = .ok self.store.saved
      ∧ ∃ rebuilt, loadChain format validatorKey (self.disk.reopened fileNaming torn).files
          = .ok rebuilt
        ∧ rebuilt.blocks = self.store.saved ∧ rebuilt.Replayable genesis start := by
  have hload : self.store.reload format torn = .ok self.store.saved :=
    (h.stored.reload_eq_ok_iff torn).mpr ⟨rfl, hinit⟩
  obtain ⟨rebuilt, hrebuilt, hblocks, hreplayable⟩ :=
    h.replayable.rebuilds validatorKey hinit (List.ne_nil_of_mem h.saved)
  exact ⟨hload, rebuilt, loadChain_of_loaded format hload hrebuilt, hblocks, hreplayable⟩

theorem store_restart (h : Durable format genesis start self) (validatorKey : ValidatorKey)
    (torn : Bytes → Option Text) (hinit : self.store.saved <+: self.chain.blocks) :
    (self.step format (.restart validatorKey torn)).store
      = self.store.step format (.restart torn) := by
  obtain ⟨hload, rebuilt, hrebuilt, hblocks, -⟩ := loadChain_saved h validatorKey torn hinit
  simp only [step, store, hrebuilt, orKeep, hblocks, BlockStore.step]
  show _ = (⟨orKeep [] (self.store.reload format torn), _⟩ : BlockStore Text)
  rw [hload]
  rfl

theorem durable_restart (h : Durable format genesis start self) (validatorKey : ValidatorKey)
    (torn : Bytes → Option Text) (hinit : self.store.saved <+: self.chain.blocks) :
    Durable format genesis start (self.step format (.restart validatorKey torn)) := by
  have hstore := store_restart h validatorKey torn hinit
  obtain ⟨hload, rebuilt, hrebuilt, hblocks, hreplayable⟩ :=
    loadChain_saved h validatorKey torn hinit
  have hchain : (self.step format (.restart validatorKey torn)).chain = rebuilt := by
    simp only [step, hrebuilt]
    rfl
  refine ⟨?_, ?_, ?_, ?_⟩
  · rw [hchain]
    exact hreplayable
  · rw [hchain, hblocks]
    exact h.stacked.kept hinit (List.ne_nil_of_mem h.saved)
  · rw [hstore]
    refine h.stored.step (show (self.store.reload format torn).isOk = true from ?_)
    rw [hload]
    rfl
  · refine BlockStore.mem_saved.mpr ⟨?_, List.not_mem_nil⟩
    show genesis ∈ (self.step format (.restart validatorKey torn)).chain.blocks
    rw [hchain, hblocks]
    exact h.saved

theorem durable_step (hgenesis : Follows [] genesis) (h : Durable format genesis start self)
    {event : NodeEvent Text} (hadmits : self.Admits event) :
    Durable format genesis start (self.step format event) := by
  cases event with
  | op op => exact durable_op hgenesis h hadmits
  | advance i => exact durable_advance h i
  | restart validatorKey torn => exact durable_restart h validatorKey torn hadmits

omit [Crypto] in
variable (format) in
/-- Genesis is saved, and nothing else is. -/
theorem trailing_opened {chain : Chain} (hgenesis : Follows [] genesis)
    (hblocks : chain.blocks = [genesis]) : BlockStore.Trailing format (opened format chain genesis).store := by
  have hstore : (opened format chain genesis).store = (((({} : BlockStore Text).step format
      (.append genesis)).step format (.advance 0)).step format (.advance 0)) :=
    congrArg (BlockStore.mk · _) hblocks
  rw [hstore]
  have hone := (BlockStore.trailing_empty format).step
    (show BlockStore.InTurn {} (.append genesis) from ⟨hgenesis, by norm_num⟩)
  have htwo := hone.step (show BlockStore.InTurn _ (.advance 0) from fun _ => rfl)
  exact htwo.step (show BlockStore.InTurn _ (.advance 0) from fun _ => rfl)

theorem blocks_of_fromBlocks {validatorKey : ValidatorKey} {chain : Chain}
    (h : Chain.fromBlocks validatorKey [genesis] = .ok chain) : chain.blocks = [genesis] := by
  obtain ⟨_, _, -, -, rfl⟩ := Chain.fromBlocks_cons_eq_ok_iff.mp h
  rfl

variable (format) in
theorem durable_opened {validatorKey : ValidatorKey} {chain : Chain}
    (hgenesis : Follows [] genesis)
    (h : Chain.fromBlocks validatorKey [genesis] = .ok chain) :
    ∃ start, Durable format genesis start (opened format chain genesis) := by
  obtain ⟨start, hreplayable⟩ := Chain.Replayable.single h
  have hblocks := blocks_of_fromBlocks h
  refine ⟨start, hreplayable, ?_, (trailing_opened format hgenesis hblocks).toStored,
    BlockStore.mem_saved.mpr ⟨?_, List.not_mem_nil⟩⟩
  · show Chain.Stacked genesis chain.blocks
    rw [hblocks]
    refine ⟨rfl, fun i a b _ hb => ?_, fun i a b _ hb => ?_⟩ <;> simp at hb
  · show genesis ∈ chain.blocks
    rw [hblocks]
    exact List.mem_cons_self

/-! ## Nodes with one genesis -/

/-- Two nodes over the same genesis that have come to the same blocks, each by way
of whatever operations, saves, crashes and starts, have come to the same state. -/
theorem agree {keyA keyB : ValidatorKey} {a b : Chain} (hgenesis : Follows [] genesis)
    (ha : Chain.fromBlocks keyA [genesis] = .ok a) (hb : Chain.fromBlocks keyB [genesis] = .ok b)
    {eventsA eventsB : List (NodeEvent Text)}
    (hA : Along (step format) Admits (opened format a genesis) eventsA)
    (hB : Along (step format) Admits (opened format b genesis) eventsB)
    (hblocks : (eventsB.foldl (step format) (opened format b genesis)).chain.blocks
      = (eventsA.foldl (step format) (opened format a genesis)).chain.blocks) :
    (eventsA.foldl (step format) (opened format a genesis)).chain.Reproduces
      (eventsB.foldl (step format) (opened format b genesis)).chain := by
  obtain ⟨startA, hstartA⟩ := durable_opened format hgenesis ha
  obtain ⟨startB, hstartB⟩ := durable_opened format hgenesis hb
  have hrun {start : Replayed} {node : DurableNode Text} {events : List (NodeEvent Text)}
      (hnode : Durable format genesis start node) (h : Along (step format) Admits node events) :
      Durable format genesis start (events.foldl (step format) node) :=
    (throughout_of_along (I := Durable format genesis start)
      (fun _ _ hnode hadmits => durable_step hgenesis hnode hadmits) hnode h).last
  obtain ⟨restA, accA, hreplaysA⟩ := hstartA.replayable.replays
  obtain ⟨restB, accB, hreplaysB⟩ := hstartB.replayable.replays
  obtain rfl : startA = startB := Except.ok.inj (hreplaysA.begins.symm.trans hreplaysB.begins)
  exact (hrun hstartA hA).replayable.reproduces (hrun hstartB hB).replayable hblocks

/-! ## Saves in turn -/

structure TrailingDurable (format : BlockFormat Text) (genesis : Block) (start : Replayed)
    (node : DurableNode Text) : Prop extends Durable format genesis start node where
  trailing : BlockStore.Trailing format node.store

variable (format) in
theorem trailingDurable_opened {validatorKey : ValidatorKey} {chain : Chain}
    (hgenesis : Follows [] genesis)
    (hchain : Chain.fromBlocks validatorKey [genesis] = .ok chain) :
    ∃ start, TrailingDurable format genesis start (opened format chain genesis) := by
  obtain ⟨start, hstart⟩ := durable_opened format hgenesis hchain
  exact ⟨start, hstart, trailing_opened format hgenesis (blocks_of_fromBlocks hchain)⟩

/-- What a start finds: all blocks but the last ones, whose saves are under way. -/
theorem TrailingDurable.inOrder (h : TrailingDurable format genesis start self) :
    self.store.saved <+: self.chain.blocks := by
  rw [h.trailing.saved_eq]
  exact List.take_prefix _ _

theorem TrailingDurable.keeps (hgenesis : Follows [] genesis)
    (h : TrailingDurable format genesis start self) {event : NodeEvent Text}
    (hturn : self.InTurn event) :
    TrailingDurable format genesis start (self.step format event) := by
  cases event with
  | op op =>
      refine ⟨durable_op hgenesis h.toDurable hturn, ?_⟩
      rcases (store_op hgenesis h.toDurable hturn).2 with hstill | ⟨block, hnext, hfollows, -⟩
      · rw [hstill]
        exact h.trailing
      · rw [hnext]
        exact h.trailing.step (show self.store.InTurn (.append block) from ⟨hfollows, hturn.2.1⟩)
  | advance i =>
      exact ⟨durable_advance h.toDurable i,
        h.trailing.step (show self.store.InTurn (.advance i) from hturn)⟩
  | restart validatorKey torn =>
      refine ⟨durable_restart h.toDurable validatorKey torn h.inOrder, ?_⟩
      rw [store_restart h.toDurable validatorKey torn h.inOrder]
      exact h.trailing.step (show self.store.InTurn (.restart torn) from trivial)

theorem inTurn_ops {ops : List Chain.ReplicaOp}
    (h : Along Chain.replica Chain.Saves self.chain ops) :
    Along (step format) InTurn self (ops.map .op) := by
  induction ops generalizing self with
  | nil => trivial
  | cons op ops ih =>
      refine ⟨h.1, ih ?_⟩
      rw [chain_op]
      exact h.2

/-- Saves in turn leave the files in order. -/
theorem TrailingDurable.admits (hgenesis : Follows [] genesis)
    (h : TrailingDurable format genesis start self) {events : List (NodeEvent Text)}
    (hturn : Along (step format) InTurn self events) : Along (step format) Admits self events := by
  induction events generalizing self with
  | nil => trivial
  | cons event events ih =>
      refine ⟨?_, ih (h.keeps hgenesis hturn.1) hturn.2⟩
      cases event with
      | op op => exact hturn.1
      | advance i => trivial
      | restart validatorKey torn => exact h.inOrder

theorem admits_opened {validatorKey : ValidatorKey} {chain : Chain} (hgenesis : Follows [] genesis)
    (hchain : Chain.fromBlocks validatorKey [genesis] = .ok chain) {events : List (NodeEvent Text)}
    (hturn : Along (step format) InTurn (opened format chain genesis) events) :
    Along (step format) Admits (opened format chain genesis) events := by
  obtain ⟨start, hstart⟩ := trailingDurable_opened format hgenesis hchain
  exact hstart.admits hgenesis hturn

/-- Operations, and then the save of the block they have made and a crash. -/
theorem inTurn_opened {chain : Chain} {ops : List Chain.ReplicaOp}
    (hrepeatable : Along Chain.replica Chain.Repeatable chain ops)
    (hreadable : decide (Along Chain.replica Chain.AddsReadable chain ops) = true)
    (validatorKey : ValidatorKey) (torn : Bytes → Option Text) :
    Along (step format) InTurn (opened format chain genesis)
      (ops.map .op ++ [.advance 0, .advance 0, .restart validatorKey torn]) := by
  have hsaves : Along Chain.replica Chain.Saves chain ops :=
    hrepeatable.and (of_decide_eq_true hreadable)
  exact along_append.mpr ⟨inTurn_ops hsaves,
    fun _ => rfl, fun _ => rfl, trivial, trivial⟩

variable (format) in
/-- After a crash now the node starts, without the blocks whose save is under way. -/
def Restarts (self : DurableNode Text) : Prop :=
  ∀ (validatorKey : ValidatorKey) (torn : Bytes → Option Text), ∃ rebuilt,
    loadChain format validatorKey (self.disk.reopened fileNaming torn).files = .ok rebuilt
      ∧ rebuilt.blocks
        = self.chain.blocks.take (self.chain.blocks.length - self.disk.saves.length)

/-- With the saves in turn a node comes up again after every crash, and only the
blocks whose save was under way are missing. -/
theorem restarts_of_inTurn {validatorKey : ValidatorKey} {chain : Chain}
    (hgenesis : Follows [] genesis) (hchain : Chain.fromBlocks validatorKey [genesis] = .ok chain)
    {events : List (NodeEvent Text)}
    (h : Along (step format) InTurn (opened format chain genesis) events) :
    Throughout (step format) (Restarts format) (opened format chain genesis) events := by
  obtain ⟨start, hstart⟩ := trailingDurable_opened format hgenesis hchain
  refine (throughout_of_along (I := TrailingDurable format genesis start)
    (fun _ _ hnode hturn => hnode.keeps hgenesis hturn) hstart h).mono
    fun node hnode newKey torn => ?_
  obtain ⟨-, rebuilt, hrebuilt, hblocks, -⟩ :=
    loadChain_saved hnode.toDurable newKey torn hnode.inOrder
  exact ⟨rebuilt, hrebuilt, hblocks.trans hnode.trailing.saved_eq⟩

end DurableNode

end

/-! ## A crash after a transfer -/

/-- The node makes a block of a transfer, saves it and dies. -/
def transferEvents : List (NodeEvent Block) :=
  transferring.map .op ++ [.advance 0, .advance 0, .restart nodeKey fun _ => none]

/-- Another one has the block from outside. -/
def receiveEvents : List (NodeEvent Block) :=
  receiving.map .op ++ [.advance 0, .advance 0, .restart nodeKey fun _ => none]

/-- A node over the genesis block. -/
def holderNode : DurableNode Block := DurableNode.opened plainFormat rebuiltHolder holderGenesis

theorem recovery_evaluated :
    Follows [] holderGenesis
      ∧ decide (Along (@Chain.replica polyCrypto) (@Chain.AddsReadable polyCrypto) rebuiltHolder
        transferring) = true
      ∧ decide (Along (@Chain.replica polyCrypto) (@Chain.AddsReadable polyCrypto) rebuiltHolder
        receiving) = true
      ∧ (transferEvents.foldl (@DurableNode.step polyCrypto Block plainFormat)
          holderNode).chain.blocks = [holderGenesis, transferBlock]
      ∧ (receiveEvents.foldl (@DurableNode.step polyCrypto Block plainFormat)
          holderNode).chain.blocks = [holderGenesis, transferBlock] := by
  decide +kernel

theorem transferEvents_inTurn :
    Along (@DurableNode.step polyCrypto Block plainFormat) (@DurableNode.InTurn polyCrypto Block)
      holderNode transferEvents := by
  obtain ⟨-, hreadable, -⟩ := recovery_evaluated
  exact @DurableNode.inTurn_opened polyCrypto Block plainFormat holderGenesis rebuiltHolder
    transferring transferring_repeatable hreadable nodeKey fun _ => none

theorem receiveEvents_inTurn :
    Along (@DurableNode.step polyCrypto Block plainFormat) (@DurableNode.InTurn polyCrypto Block)
      holderNode receiveEvents := by
  obtain ⟨-, -, hreadable, -⟩ := recovery_evaluated
  exact @DurableNode.inTurn_opened polyCrypto Block plainFormat holderGenesis rebuiltHolder
    receiving receiving_repeatable hreadable nodeKey fun _ => none

theorem agree_transfer :
    (receiveEvents.foldl (@DurableNode.step polyCrypto Block plainFormat) holderNode).chain.blocks
        = [holderGenesis, transferBlock]
      ∧ @Chain.Reproduces polyCrypto
        (transferEvents.foldl (@DurableNode.step polyCrypto Block plainFormat) holderNode).chain
        (receiveEvents.foldl (@DurableNode.step polyCrypto Block plainFormat) holderNode).chain := by
  obtain ⟨hgenesis, -, -, hproduced, hreceived⟩ := recovery_evaluated
  have hbegins : @Chain.fromBlocks polyCrypto nodeKey [holderGenesis] = .ok rebuiltHolder :=
    eq_ok_orKeep transfer_evaluated.1
  exact ⟨hreceived, @DurableNode.agree polyCrypto Block plainFormat holderGenesis nodeKey nodeKey
    rebuiltHolder rebuiltHolder hgenesis hbegins hbegins transferEvents receiveEvents
    (@DurableNode.admits_opened polyCrypto _ _ _ _ _ hgenesis hbegins _ transferEvents_inTurn)
    (@DurableNode.admits_opened polyCrypto _ _ _ _ _ hgenesis hbegins _ receiveEvents_inTurn)
    (hreceived.trans hproduced.symm)⟩

theorem restarts_of_inTurn_transfer :
    (transferEvents.foldl (@DurableNode.step polyCrypto Block plainFormat) holderNode).chain.blocks
        = [holderGenesis, transferBlock]
      ∧ Throughout (@DurableNode.step polyCrypto Block plainFormat)
        (@DurableNode.Restarts polyCrypto Block plainFormat) holderNode transferEvents := by
  obtain ⟨hgenesis, -, -, hproduced, -⟩ := recovery_evaluated
  exact ⟨hproduced, @DurableNode.restarts_of_inTurn polyCrypto Block plainFormat holderGenesis
    nodeKey rebuiltHolder hgenesis (eq_ok_orKeep transfer_evaluated.1) transferEvents
    transferEvents_inTurn⟩

end Sccgub
