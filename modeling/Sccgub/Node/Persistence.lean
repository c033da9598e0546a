import Mathlib
import Sccgub.AtomicFiles
import Sccgub.Fallible
import Sccgub.OrderedMap
import Sccgub.Runs
import Sccgub.WriteThrough
import Sccgub.Node.Linkage
import Sccgub.State.Coherence

/-!
# Blocks on disk

Every block has a file of its own, named after its height and written under
another name first.  The runtime gives each save to a task and does not wait for
it, so that saves overtake one another and a crash can leave the file of a block
without those of the blocks before it.  A node that starts again reads the files
in the order of their names and takes nothing but a chain without gaps.

- **names** (`numberedFile_lt`, `numberedFile_injective`): the order of the names is
  that of the heights up to ten digits.
- **reading** (`loadAllBlocks_eq_ok_iff`): the files of some blocks of a chain load
  exactly if the blocks are its first ones.
- **the directory** (`Stored.step`): at any moment it holds blocks of the chain,
  whatever overtook what.
- **saves in turn** (`Trailing.step`): then it holds the first ones.

What a file says is JSON; here it is whatever reads back as it was written.
-/

namespace Sccgub

open Bincode FixedWidth Fallible AtomicFiles Runs WriteThrough

/-! ## File names -/

/-- Decimal digits, the highest first, with zeros in front up to ten. -/
def paddedDigits (n : Nat) : List Nat :=
  List.replicate (10 - (Nat.digits 10 n).length) 0 ++ (Nat.digits 10 n).reverse

def asciiDigit (d : Nat) : UInt8 := UInt8.ofNat (48 + d)

def numberedFile (start : Bytes) (height : UInt64) : Bytes :=
  start ++ (paddedDigits height.toNat).map asciiDigit ++ utf8 ".json"

def blockFile (height : UInt64) : Bytes := numberedFile (utf8 "block_") height

def endsWith (name ending : Bytes) : Bool := ending.isSuffixOf name

def isNumberedFile (start name : Bytes) : Bool :=
  startsWith name start && endsWith name (utf8 ".json") && !endsWith name (utf8 ".tmp")

theorem endsWith_append (name ending : Bytes) : endsWith (name ++ ending) ending = true :=
  List.isSuffixOf_iff_suffix.mpr (List.suffix_append name ending)

def fileNaming : Naming Bytes where
  temporary name := name ++ utf8 ".tmp"
  isTemporary name := endsWith name (utf8 ".tmp")
  isTemporary_temporary name := endsWith_append name _
  injective _ _ h := List.append_cancel_right h

theorem not_isTemporary_numberedFile (start : Bytes) (height : UInt64) :
    fileNaming.isTemporary (numberedFile start height) = false := by
  rw [Bool.eq_false_iff]
  intro h
  obtain ⟨front, hfront⟩ := List.isSuffixOf_iff_suffix.mp h
  have hlast := congrArg List.getLast? hfront
  have htmp : (utf8 ".tmp").getLast? = some 112 := by decide
  have hjson : (utf8 ".json").getLast? = some 110 := by decide
  rw [numberedFile, List.getLast?_append, List.getLast?_append, htmp, hjson] at hlast
  cases hlast

theorem isNumberedFile_numberedFile (start : Bytes) (height : UInt64) :
    isNumberedFile start (numberedFile start height) = true := by
  have htmp : endsWith (numberedFile start height) (utf8 ".tmp") = false :=
    not_isTemporary_numberedFile start height
  rw [isNumberedFile, htmp, numberedFile, endsWith_append, List.append_assoc]
  have hstart : startsWith (start ++ ((paddedDigits height.toNat).map asciiDigit ++ utf8 ".json"))
      start = true := List.isPrefixOf_iff_prefix.mpr (List.prefix_append _ _)
  rw [hstart]
  rfl

/-! ### In order of height, up to ten digits -/

theorem compare_append_of_lt {a b : Bytes} (hlength : a.length = b.length)
    (h : compare a b = .lt) (s t : Bytes) : compare (a ++ s) (b ++ t) = .lt := by
  induction a generalizing b with
  | nil =>
      obtain rfl := List.length_eq_zero_iff.mp hlength.symm
      cases h
  | cons x a ih =>
      rcases b with _ | ⟨y, b⟩
      · cases hlength
      · rw [List.cons_append, List.cons_append, List.compare_cons_cons]
        rw [List.compare_cons_cons] at h
        rcases hxy : compare x y with _ | _ | _
        · rfl
        · rw [hxy] at h
          exact ih (Nat.succ.inj hlength) h
        · rw [hxy] at h
          cases h

theorem compare_asciiDigit {x y : Nat} (hx : x < 10) (hy : y < 10) :
    compare (asciiDigit x) (asciiDigit y) = compare x y := by
  have hall : ∀ x < 10, ∀ y < 10, compare (asciiDigit x) (asciiDigit y) = compare x y := by decide
  exact hall x hx y hy

/-- Numbers of as many digits compare as their digits do. -/
theorem compare_digits {a b : List Nat} (hlength : a.length = b.length) (ha : ∀ d ∈ a, d < 10)
    (hb : ∀ d ∈ b, d < 10) (hlt : Nat.ofDigits 10 a.reverse < Nat.ofDigits 10 b.reverse) :
    compare (a.map asciiDigit) (b.map asciiDigit) = .lt := by
  induction a generalizing b with
  | nil =>
      obtain rfl := List.length_eq_zero_iff.mp hlength.symm
      exact absurd hlt (lt_irrefl _)
  | cons x a ih =>
      rcases b with _ | ⟨y, b⟩
      · cases hlength
      · obtain ⟨hx, hdigits⟩ := List.forall_mem_cons.mp ha
        obtain ⟨hy, hdigits'⟩ := List.forall_mem_cons.mp hb
        have hrest : a.length = b.length := Nat.succ.inj hlength
        have hbelow : Nat.ofDigits 10 b.reverse < 10 ^ b.length := by
          have := Nat.ofDigits_lt_base_pow_length' (b := 8) (l := b.reverse)
            fun d hd => hdigits' d (List.mem_reverse.mp hd)
          rwa [List.length_reverse] at this
        rw [List.reverse_cons, List.reverse_cons, Nat.ofDigits_append, Nat.ofDigits_append,
          List.length_reverse, List.length_reverse, Nat.ofDigits_singleton,
          Nat.ofDigits_singleton, hrest] at hlt
        rw [List.map_cons, List.map_cons, List.compare_cons_cons, compare_asciiDigit hx hy]
        rcases lt_trichotomy x y with hxy | rfl | hxy
        · rw [Nat.compare_eq_lt.mpr hxy]
          rfl
        · rw [Nat.compare_eq_eq.mpr rfl]
          exact ih hrest hdigits hdigits' (Nat.lt_of_add_lt_add_right hlt)
        · -- a larger first digit outweighs all that follow
          exfalso
          have hstep : 10 ^ b.length * (y + 1) ≤ 10 ^ b.length * x := Nat.mul_le_mul_left _ hxy
          rw [Nat.mul_add, Nat.mul_one] at hstep
          omega

theorem ofDigits_paddedDigits (n : Nat) : Nat.ofDigits 10 (paddedDigits n).reverse = n := by
  rw [paddedDigits, List.reverse_append, List.reverse_reverse, List.reverse_replicate,
    Nat.ofDigits_append_replicate_zero, Nat.ofDigits_digits]

theorem mem_paddedDigits {n d : Nat} (h : d ∈ paddedDigits n) : d < 10 := by
  rcases List.mem_append.mp h with hzero | hdigit
  · rw [List.eq_of_mem_replicate hzero]
    decide
  · exact Nat.digits_lt_base (by decide) (List.mem_reverse.mp hdigit)

theorem length_paddedDigits {n : Nat} (h : n < 10 ^ 10) : (paddedDigits n).length = 10 := by
  have hlength : (Nat.digits 10 n).length ≤ 10 :=
    (Nat.digits_length_le_iff (by decide) n).mpr h
  rw [paddedDigits, List.length_append, List.length_replicate, List.length_reverse]
  omega

theorem numberedFile_lt (start : Bytes) {a b : UInt64} (hab : a < b) (hb : b.toNat < 10 ^ 10) :
    compare (numberedFile start a) (numberedFile start b) = .lt := by
  have hab := UInt64.lt_iff_toNat_lt.mp hab
  have hlength : (paddedDigits a.toNat).length = (paddedDigits b.toNat).length := by
    rw [length_paddedDigits hb, length_paddedDigits (hab.trans hb)]
  rw [numberedFile, numberedFile, List.append_assoc, List.append_assoc, compare_append_left]
  refine compare_append_of_lt ?_ ?_ _ _
  · rw [List.length_map, List.length_map, hlength]
  · refine compare_digits hlength (fun _ => mem_paddedDigits) (fun _ => mem_paddedDigits) ?_
    rw [ofDigits_paddedDigits, ofDigits_paddedDigits]
    exact hab

theorem asciiDigit_injective {x y : Nat} (hx : x < 10) (hy : y < 10)
    (h : asciiDigit x = asciiDigit y) : x = y := by
  have hself : compare (asciiDigit x) (asciiDigit y) = .eq := by
    rw [h]
    exact Std.ReflCmp.compare_self
  rw [compare_asciiDigit hx hy] at hself
  exact Nat.compare_eq_eq.mp hself

theorem numberedFile_injective (start : Bytes) : Function.Injective (numberedFile start) := by
  intro a b h
  have hdigits := List.append_cancel_left (List.append_cancel_right h)
  have hsame : paddedDigits a.toNat = paddedDigits b.toNat := by
    generalize ha : paddedDigits a.toNat = da at hdigits
    generalize hb : paddedDigits b.toNat = db at hdigits
    have hda : ∀ d ∈ da, d < 10 := fun d hd => mem_paddedDigits (ha ▸ hd)
    have hdb : ∀ d ∈ db, d < 10 := fun d hd => mem_paddedDigits (hb ▸ hd)
    clear ha hb h
    induction da generalizing db with
    | nil => exact (List.map_eq_nil_iff.mp hdigits.symm).symm
    | cons x da ih =>
        rcases db with _ | ⟨y, db⟩
        · cases hdigits
        · obtain ⟨hx, hda⟩ := List.forall_mem_cons.mp hda
          obtain ⟨hy, hdb⟩ := List.forall_mem_cons.mp hdb
          obtain ⟨hxy, hrest⟩ := List.cons.inj hdigits
          rw [asciiDigit_injective hx hy hxy, ih db hrest hda hdb]
  refine UInt64.toNat_inj.mp ?_
  rw [← ofDigits_paddedDigits a.toNat, hsame, ofDigits_paddedDigits]

/-! ## Reading -/

/-- How a block is written to its file and read back. -/
structure BlockFormat (Text : Type) where
  toJson : Block → Text
  fromJson : Text → Except String Block
  fromJson_toJson : ∀ block, fromJson (toJson block) = .ok block

section

variable {Text : Type} (format : BlockFormat Text)

/-- The files of blocks in the order of their names. -/
def blockEntries (files : Std.ExtTreeMap Bytes Text) : List (Bytes × Text) :=
  files.toList.filter fun entry => isNumberedFile (utf8 "block_") entry.1

def loadNext (blocks : List Block) (entry : Bytes × Text) : Except String (List Block) := do
  let block ← format.fromJson entry.2
  if !block.isStructurallyValid then
    throw s!"Block #{block.header.height} failed structural validation"
  let expectedHeight := UInt64.ofNat blocks.length
  if block.header.height ≠ expectedHeight then
    throw s!"Block height gap: expected {expectedHeight}, got {block.header.height}"
  match blocks.getLast? with
  | some prev =>
      if block.header.parentId ≠ prev.header.blockId then
        throw s!"Parent chain broken at height {block.header.height}: parent {hexEncode block.header.parentId.toList} != prev block {hexEncode prev.header.blockId.toList}"
  | none => pure ()
  return blocks ++ [block]

def loadAllBlocks (files : Std.ExtTreeMap Bytes Text) : Except String (List Block) :=
  (blockEntries files).foldlM (loadNext format) []

end

/-- The block is the next one after these. -/
structure Follows (blocks : List Block) (block : Block) : Prop where
  structure_valid : block.isStructurallyValid = true
  height : block.header.height = UInt64.ofNat blocks.length
  parentId : ∀ prev, blocks.getLast? = some prev → block.header.parentId = prev.header.blockId

section

variable {Text : Type} {format : BlockFormat Text}

theorem loadNext_toJson_eq_ok_iff {blocks next : List Block} {name : Bytes} {block : Block} :
    loadNext format blocks (name, format.toJson block) = .ok next
      ↔ Follows blocks block ∧ next = blocks ++ [block] := by
  unfold loadNext
  simp only [bind_eq_ok_iff, guard_eq_ok_iff, format.fromJson_toJson, not_not, Except.ok.injEq,
    exists_eq_left']
  rcases hlast : blocks.getLast? with _ | prev
  · simp only [pure_eq_ok_iff]
    constructor
    · rintro ⟨hvalid, hheight, rfl⟩
      exact ⟨⟨by simpa using hvalid, hheight, fun prev hprev => by rw [hlast] at hprev; cases hprev⟩,
        rfl⟩
    · rintro ⟨hfollows, rfl⟩
      exact ⟨by simp [hfollows.structure_valid], hfollows.height, rfl⟩
  · simp only [guard_eq_ok_iff, pure_eq_ok_iff, not_not]
    constructor
    · rintro ⟨hvalid, hheight, hparent, rfl⟩
      refine ⟨⟨by simpa using hvalid, hheight, fun other hother => ?_⟩, rfl⟩
      rw [hlast] at hother
      rw [hparent, Option.some.inj hother]
    · rintro ⟨hfollows, rfl⟩
      exact ⟨by simp [hfollows.structure_valid], hfollows.height, hfollows.parentId prev hlast, rfl⟩

/-- Blocks go on from those before them, or the loop stops. -/
theorem foldlM_loadNext_eq_ok_iff {acc blocks bs : List Block} {name : Block → Bytes} :
    (blocks.map fun block => (name block, format.toJson block)).foldlM (loadNext format) acc = .ok bs
      ↔ bs = acc ++ blocks
        ∧ ∀ i block, blocks[i]? = some block → Follows (acc ++ blocks.take i) block := by
  induction blocks generalizing acc with
  | nil => simp [pure_eq_ok_iff]
  | cons first rest ih =>
      rw [List.map_cons, List.foldlM_cons, bind_eq_ok_iff]
      simp only [loadNext_toJson_eq_ok_iff, and_assoc, exists_and_left, exists_eq_left, ih]
      constructor
      · rintro ⟨hfirst, rfl, hrest⟩
        refine ⟨by simp, fun i block hi => ?_⟩
        cases i with
        | zero =>
            obtain rfl := Option.some.inj hi
            simpa using hfirst
        | succ i =>
            have := hrest i block hi
            rwa [List.append_assoc] at this
      · rintro ⟨rfl, hall⟩
        refine ⟨by simpa using hall 0 first rfl, by simp, fun i block hi => ?_⟩
        have := hall (i + 1) block hi
        rwa [List.append_assoc]

/-! ### Files that hold blocks -/

/-- Among the files with such names are those of the blocks and no others. -/
def Holds (format : BlockFormat Text) (files : Std.ExtTreeMap Bytes Text) (blocks : List Block) :
    Prop :=
  ∀ name, isNumberedFile (utf8 "block_") name = true → ∀ text,
    files[name]? = some text
      ↔ ∃ block ∈ blocks, blockFile block.header.height = name ∧ format.toJson block = text

theorem mem_blockEntries {files : Std.ExtTreeMap Bytes Text} {blocks : List Block}
    (h : Holds format files blocks) {entry : Bytes × Text} : entry ∈ blockEntries files
      ↔ ∃ block ∈ blocks, (blockFile block.header.height, format.toJson block) = entry := by
  rw [blockEntries, List.mem_filter, Std.ExtTreeMap.mem_toList_iff_getElem?_eq_some]
  constructor
  · rintro ⟨hentry, hname⟩
    obtain ⟨block, hblock, hfile, htext⟩ := (h _ hname _).mp hentry
    exact ⟨block, hblock, Prod.ext hfile htext⟩
  · rintro ⟨block, hblock, rfl⟩
    have hname := isNumberedFile_numberedFile (utf8 "block_") block.header.height
    exact ⟨(h _ hname _).mpr ⟨block, hblock, rfl, rfl⟩, hname⟩

/-- Blocks of rising heights of up to ten digits are read in their order. -/
theorem blockEntries_eq {files : Std.ExtTreeMap Bytes Text} {blocks : List Block}
    (h : Holds format files blocks)
    (hrising : blocks.Pairwise fun a b => a.header.height < b.header.height)
    (hsmall : ∀ block ∈ blocks, block.header.height.toNat < 10 ^ 10) :
    blockEntries files
      = blocks.map fun block => (blockFile block.header.height, format.toJson block) := by
  refine OrderedMap.eq_of_ordered (Std.ExtTreeMap.ordered_keys_toList.filter _) ?_ fun entry => ?_
  · rw [List.pairwise_map]
    exact hrising.imp_of_mem fun _ hb hlt => numberedFile_lt _ hlt (hsmall _ hb)
  · rw [mem_blockEntries h, List.mem_map]

/-! ## Chains without gaps -/

/-- Each block is the next one after those before it. -/
def Gapless (blocks : List Block) : Prop :=
  ∀ i block, blocks[i]? = some block → Follows (blocks.take i) block

theorem gapless_nil : Gapless [] := fun i block hi => by cases hi

theorem Gapless.height {blocks : List Block} (h : Gapless blocks) {i : Nat} {block : Block}
    (hi : blocks[i]? = some block) : block.header.height = UInt64.ofNat i := by
  have hlt : i < blocks.length := (List.getElem?_eq_some_iff.mp hi).1
  rw [(h i block hi).height, List.length_take, Nat.min_eq_left hlt.le]

theorem Gapless.toNat_height {blocks : List Block} (h : Gapless blocks)
    (hsmall : blocks.length ≤ 2 ^ 64) {i : Nat} {block : Block} (hi : blocks[i]? = some block) :
    block.header.height.toNat = i := by
  have hlt : i < blocks.length := (List.getElem?_eq_some_iff.mp hi).1
  rw [h.height hi, UInt64.toNat_ofNat', Nat.mod_eq_of_lt (hlt.trans_le hsmall)]

theorem Gapless.rising {blocks : List Block} (h : Gapless blocks)
    (hsmall : blocks.length ≤ 2 ^ 64) :
    blocks.Pairwise fun a b => a.header.height < b.header.height := by
  rw [List.pairwise_iff_getElem]
  intro i j hi hj hij
  rw [UInt64.lt_iff_toNat_lt, h.toNat_height hsmall (List.getElem?_eq_getElem hi),
    h.toNat_height hsmall (List.getElem?_eq_getElem hj)]
  exact hij

theorem Gapless.take {blocks : List Block} (h : Gapless blocks) (k : Nat) :
    Gapless (blocks.take k) := by
  intro i block hi
  have hlt : i < k := by
    have := (List.getElem?_eq_some_iff.mp hi).1
    rw [List.length_take] at this
    omega
  rw [List.getElem?_take_of_lt hlt] at hi
  have := h i block hi
  rwa [List.take_take, Nat.min_eq_left hlt.le]

theorem Gapless.concat {blocks : List Block} (h : Gapless blocks) {block : Block}
    (hblock : Follows blocks block) : Gapless (blocks ++ [block]) := by
  intro i other hi
  rcases Nat.lt_or_ge i blocks.length with hlt | hge
  · rw [List.getElem?_append_left hlt] at hi
    rw [List.take_append_of_le_length hlt.le]
    exact h i other hi
  · have hlen := (List.getElem?_eq_some_iff.mp hi).1
    rw [List.length_append, List.length_singleton] at hlen
    obtain rfl : i = blocks.length := by omega
    rw [List.getElem?_concat_length] at hi
    obtain rfl := Option.some.inj hi
    rwa [List.take_left']
    rfl

/-- Blocks of a chain without gaps that have no gaps themselves are the first ones. -/
theorem Gapless.prefix_of_sublist {blocks chain : List Block} (hchain : Gapless chain)
    (hsmall : chain.length ≤ 2 ^ 64) (hsub : blocks.Sublist chain) (h : Gapless blocks) :
    blocks <+: chain := by
  rw [List.prefix_iff_getElem?]
  intro i hi
  obtain ⟨j, hj⟩ := List.getElem?_of_mem (hsub.subset (List.getElem_mem hi))
  have hself := h.toNat_height (hsub.length_le.trans hsmall) (List.getElem?_eq_getElem hi)
  rw [hchain.toNat_height hsmall hj] at hself
  rwa [hself] at hj

instance decidableFollows (blocks : List Block) (block : Block) : Decidable (Follows blocks block) :=
  decidable_of_iff (block.isStructurallyValid = true
      ∧ block.header.height = UInt64.ofNat blocks.length
      ∧ ∀ prev ∈ blocks.getLast?, block.header.parentId = prev.header.blockId)
    ⟨fun ⟨hvalid, hheight, hparent⟩ => ⟨hvalid, hheight, hparent⟩,
      fun h => ⟨h.structure_valid, h.height, h.parentId⟩⟩

/-- What is read back from files that hold some blocks of a chain. -/
theorem loadAllBlocks_eq_ok_iff {files : Std.ExtTreeMap Bytes Text} {chain blocks bs : List Block}
    (h : Holds format files blocks) (hchain : Gapless chain) (hsmall : chain.length ≤ 10 ^ 10)
    (hsub : blocks.Sublist chain) :
    loadAllBlocks format files = .ok bs ↔ bs = blocks ∧ blocks <+: chain := by
  have hwide : chain.length ≤ 2 ^ 64 := hsmall.trans (by norm_num)
  have hheights : ∀ block ∈ blocks, block.header.height.toNat < 10 ^ 10 := by
    intro block hblock
    obtain ⟨i, hi⟩ := List.getElem?_of_mem (hsub.subset hblock)
    rw [hchain.toNat_height hwide hi]
    exact (List.getElem?_eq_some_iff.mp hi).1.trans_le hsmall
  rw [loadAllBlocks, blockEntries_eq h ((hchain.rising hwide).sublist hsub) hheights,
    foldlM_loadNext_eq_ok_iff]
  refine and_congr_right fun hbs => ⟨fun hgapless => ?_, fun hprefix => ?_⟩
  · exact hchain.prefix_of_sublist hwide hsub hgapless
  · rw [List.prefix_iff_eq_take.mp hprefix]
    exact hchain.take _

/-- Files that were all read hold the blocks in the order in which they were read. -/
theorem entries_of_load {entries : List (Bytes × Text)} {acc bs : List Block}
    (hentries : ∀ entry ∈ entries, ∃ block : Block,
      (blockFile block.header.height, format.toJson block) = entry)
    (hload : entries.foldlM (loadNext format) acc = .ok bs) :
    ∃ blocks, bs = acc ++ blocks ∧ entries
      = blocks.map fun block => (blockFile block.header.height, format.toJson block) := by
  induction entries generalizing acc with
  | nil =>
      obtain rfl := Except.ok.inj hload
      exact ⟨[], (List.append_nil _).symm, rfl⟩
  | cons entry rest ih =>
      obtain ⟨⟨block, rfl⟩, hrest⟩ := List.forall_mem_cons.mp hentries
      rw [List.foldlM_cons, bind_eq_ok_iff] at hload
      obtain ⟨next, hnext, hload⟩ := hload
      obtain ⟨-, rfl⟩ := loadNext_toJson_eq_ok_iff.mp hnext
      obtain ⟨blocks, rfl, hblocks⟩ := ih hrest hload
      exact ⟨block :: blocks, by rw [List.append_assoc, List.singleton_append],
        by rw [hblocks, List.map_cons]⟩

theorem entries_of_loadAllBlocks {files : Std.ExtTreeMap Bytes Text} {chain : List Block}
    (h : Holds format files chain) (hload : loadAllBlocks format files = .ok chain) :
    blockEntries files
      = chain.map fun block => (blockFile block.header.height, format.toJson block) := by
  obtain ⟨blocks, hblocks, hentries⟩ := entries_of_load (fun entry hentry => by
    obtain ⟨block, -, hblock⟩ := (mem_blockEntries h).mp hentry
    exact ⟨block, hblock⟩) hload
  obtain rfl : chain = blocks := hblocks
  exact hentries

/-- What is read whole has no gaps. -/
theorem gapless_of_loadAllBlocks {files : Std.ExtTreeMap Bytes Text} {chain : List Block}
    (h : Holds format files chain) (hload : loadAllBlocks format files = .ok chain) :
    Gapless chain := by
  have hentries := entries_of_loadAllBlocks h hload
  rw [loadAllBlocks, hentries, foldlM_loadNext_eq_ok_iff] at hload
  exact hload.2

/-- The files of some blocks. -/
def filesOf (format : BlockFormat Text) (blocks : List Block) : Std.ExtTreeMap Bytes Text :=
  putAll ∅ (blocks.map fun block => (blockFile block.header.height, format.toJson block))

theorem holds_filesOf {blocks : List Block}
    (h : blocks.Pairwise fun a b => a.header.height < b.header.height) :
    Holds format (filesOf format blocks) blocks := by
  intro name _ text
  have hnodup : ((blocks.map fun block =>
      (blockFile block.header.height, format.toJson block)).map Prod.fst).Nodup := by
    rw [List.map_map]
    refine List.pairwise_map.mpr (h.imp fun {a b} hlt hfile => ?_)
    have hheight : a.header.height = b.header.height := numberedFile_injective _ hfile
    exact absurd hlt (hheight ▸ UInt64.lt_irrefl _)
  rw [filesOf, getElem?_putAll, Std.ExtTreeMap.getElem?_empty, Option.or_none]
  constructor
  · intro hlast
    obtain ⟨block, hblock, heq⟩ := List.mem_map.mp (mem_of_lastWrite hlast)
    obtain ⟨rfl, rfl⟩ := Prod.mk.inj heq
    exact ⟨block, hblock, rfl, rfl⟩
  · rintro ⟨block, hblock, rfl, rfl⟩
    exact lastWrite_of_mem hnodup (List.mem_map.mpr ⟨block, hblock, rfl⟩)

/-! ### The eleventh digit -/

/-- The name of the first height with eleven digits comes before that of a lower
one. -/
theorem eleven_digits_early :
    compare (blockFile 10000000000) (blockFile 1000000001) = .lt := by
  rw [blockFile, numberedFile, blockFile, numberedFile, List.append_assoc, List.append_assoc,
    compare_append_left]
  have hlong : paddedDigits (10000000000 : UInt64).toNat = [1, 0, 0, 0, 0, 0, 0, 0, 0, 0, 0] := by
    rw [show (10000000000 : UInt64).toNat = 10000000000 from rfl]
    norm_num [paddedDigits]
  have hshort : paddedDigits (1000000001 : UInt64).toNat = [1, 0, 0, 0, 0, 0, 0, 0, 0, 1] := by
    rw [show (1000000001 : UInt64).toNat = 1000000001 from rfl]
    norm_num [paddedDigits]
  rw [hlong, hshort]
  decide

/-- Files of a chain without gaps are read back as long as ten digits are enough
for its heights. -/
theorem loadAllBlocks_chain_iff {files : Std.ExtTreeMap Bytes Text} {chain : List Block}
    (h : Holds format files chain) (hchain : Gapless chain) (hwide : chain.length ≤ 2 ^ 64) :
    loadAllBlocks format files = .ok chain ↔ chain.length ≤ 10 ^ 10 := by
  constructor
  · intro hload
    by_contra hlong
    have hentries := entries_of_loadAllBlocks h hload
    have hordered : (blockEntries files).Pairwise fun a b => compare a.1 b.1 = .lt :=
      Std.ExtTreeMap.ordered_keys_toList.filter _
    rw [hentries, List.pairwise_map, List.pairwise_iff_getElem] at hordered
    have hlt := hordered 1000000001 10000000000 (by omega) (by omega) (by norm_num)
    have hheight (i : Nat) (hi : i < chain.length) : chain[i].header.height = UInt64.ofNat i :=
      hchain.height (List.getElem?_eq_getElem hi)
    rw [hheight, hheight] at hlt
    have hearly := eleven_digits_early
    have hswap : compare (blockFile 10000000000) (blockFile 1000000001)
        = (compare (blockFile 1000000001) (blockFile 10000000000)).swap := Std.OrientedCmp.eq_swap
    rw [hswap] at hearly
    rw [show blockFile 1000000001 = blockFile (UInt64.ofNat 1000000001) from rfl,
      show blockFile 10000000000 = blockFile (UInt64.ofNat 10000000000) from rfl, hlt] at hearly
    cases hearly
  · intro hsmall
    exact (loadAllBlocks_eq_ok_iff h hchain hsmall (List.Sublist.refl _)).mpr
      ⟨rfl, List.prefix_refl _⟩

end

/-! ## A node and its directory -/

/-- The blocks of a running node, and the directory with the saves under way. -/
structure BlockStore (Text : Type) where
  chain : List Block := []
  disk : Disk Bytes Text := {}

/-- A block comes to the chain and its save begins; a save takes a step; the
process ends, with whatever a file that was being written holds, and starts again. -/
inductive StoreEvent (Text : Type) where
  | append (block : Block)
  | advance (i : Nat)
  | restart (torn : Bytes → Option Text)

namespace BlockStore

section

variable {Text : Type} (format : BlockFormat Text) (self : BlockStore Text)

/-- What the directory is read as after a crash. -/
def reload (torn : Bytes → Option Text) : Except String (List Block) :=
  loadAllBlocks format (self.disk.reopened fileNaming torn).files

def step : StoreEvent Text → BlockStore Text
  | .append block =>
      { chain := self.chain ++ [block]
        disk := self.disk.start (blockFile block.header.height) (format.toJson block) }
  | .advance i => { self with disk := self.disk.advance fileNaming i }
  | .restart torn =>
      { chain := orKeep [] (self.reload format torn)
        disk := self.disk.reopened fileNaming torn }

/-- The blocks of the chain whose save is not under way. -/
def saved : List Block :=
  self.chain.filter fun block => blockFile block.header.height ∉ self.disk.names

/-- A block that comes to the chain is the next one.  A process that cannot read
its files does not go on. -/
def Admits : StoreEvent Text → Prop
  | .append block => Follows self.chain block ∧ self.chain.length < 10 ^ 10
  | .advance _ => True
  | .restart torn => (self.reload format torn).isOk = true

instance decidableAdmits : (event : StoreEvent Text) → Decidable (self.Admits format event)
  | .append block =>
      inferInstanceAs (Decidable (Follows self.chain block ∧ self.chain.length < 10 ^ 10))
  | .advance _ => .isTrue trivial
  | .restart torn => inferInstanceAs (Decidable ((self.reload format torn).isOk = true))

end

/-- The files are those of the saved blocks. -/
structure Stored {Text : Type} (format : BlockFormat Text) (node : BlockStore Text) : Prop where
  gapless : Gapless node.chain
  small : node.chain.length ≤ 10 ^ 10
  saves : ∀ save ∈ node.disk.saves, ∃ block ∈ node.chain,
    blockFile block.header.height = save.name ∧ format.toJson block = save.text
  disk : ∃ content, AtomicFiles.Saved fileNaming content node.disk ∧ ∀ name text,
    content name = some text
      ↔ ∃ block ∈ node.saved, blockFile block.header.height = name ∧ format.toJson block = text

section

variable {Text : Type} {format : BlockFormat Text} {self : BlockStore Text}

theorem mem_saved {block : Block} : block ∈ self.saved
    ↔ block ∈ self.chain ∧ blockFile block.header.height ∉ self.disk.names := by
  rw [saved, List.mem_filter, decide_eq_true_eq]

theorem not_isTemporary_of_isNumberedFile {start name : Bytes}
    (h : isNumberedFile start name = true) : fileNaming.isTemporary name = false := by
  rw [isNumberedFile, Bool.and_eq_true, Bool.not_eq_true'] at h
  exact h.2

theorem Stored.wide (h : self.Stored format) : self.chain.length ≤ 2 ^ 64 :=
  h.small.trans (by norm_num)

/-- A file name is that of one block of the chain. -/
theorem Stored.eq_of_blockFile (h : self.Stored format) {a b : Block} (ha : a ∈ self.chain)
    (hb : b ∈ self.chain) (hfile : blockFile a.header.height = blockFile b.header.height) :
    a = b := by
  obtain ⟨i, hi⟩ := List.getElem?_of_mem ha
  obtain ⟨j, hj⟩ := List.getElem?_of_mem hb
  have hheight := numberedFile_injective _ hfile
  have hi' := h.gapless.toNat_height h.wide hi
  rw [hheight, h.gapless.toNat_height h.wide hj] at hi'
  rw [hi', hi] at hj
  exact Option.some.inj hj

theorem Stored.holds (h : self.Stored format) (torn : Bytes → Option Text) :
    Holds format (self.disk.reopened fileNaming torn).files self.saved := by
  obtain ⟨content, hsaved, hcontent⟩ := h.disk
  intro name hname text
  rw [(hsaved.reopened torn).files name (not_isTemporary_of_isNumberedFile hname)]
  exact hcontent name text

/-- After a crash the saved blocks are read back if they are the first ones of the
chain, and nothing is if they are not. -/
theorem Stored.reload_eq_ok_iff (h : self.Stored format) (torn : Bytes → Option Text)
    {bs : List Block} :
    self.reload format torn = .ok bs ↔ bs = self.saved ∧ self.saved <+: self.chain :=
  loadAllBlocks_eq_ok_iff (h.holds torn) h.gapless h.small List.filter_sublist

theorem stored_empty (format : BlockFormat Text) : Stored format {} where
  gapless := gapless_nil
  small := Nat.zero_le _
  saves := fun save hsave => by cases hsave
  disk := by
    refine ⟨fun _ => none, ⟨fun name _ => rfl, ?_, List.nodup_nil, ?_⟩, fun name text => ?_⟩
    · exact fun save hsave => nomatch hsave
    · exact fun save hsave => nomatch hsave
    · refine ⟨fun h => (nomatch h), ?_⟩
      rintro ⟨block, hblock, -⟩
      cases hblock

theorem Stored.append (h : self.Stored format) {block : Block}
    (hadmits : self.Admits format (.append block)) :
    (self.step format (.append block)).Stored format := by
  obtain ⟨hfollows, hroom⟩ := hadmits
  have hgapless := h.gapless.concat hfollows
  have hlength : (self.chain ++ [block]).length = self.chain.length + 1 := by
    rw [List.length_append, List.length_singleton]
  have hwide : (self.chain ++ [block]).length ≤ 2 ^ 64 := by
    rw [hlength]
    exact hroom.trans (by norm_num)
  have hnew : ∀ other ∈ self.chain,
      blockFile other.header.height ≠ blockFile block.header.height := by
    intro other hother hfile
    obtain ⟨i, hi⟩ := List.getElem?_of_mem hother
    have hlt := (List.getElem?_eq_some_iff.mp hi).1
    have hother := hgapless.toNat_height hwide (by rw [List.getElem?_append_left hlt]; exact hi)
    rw [numberedFile_injective _ hfile, hgapless.toNat_height hwide List.getElem?_concat_length]
      at hother
    omega
  obtain ⟨content, hsaved, hcontent⟩ := h.disk
  have hfresh : blockFile block.header.height ∉ self.disk.names := by
    intro hmem
    obtain ⟨save, hsave, hname⟩ := List.mem_map.mp hmem
    obtain ⟨other, hother, hfile, -⟩ := h.saves save hsave
    exact hnew other hother (hfile.trans hname)
  have hnames : (self.disk.start (blockFile block.header.height) (format.toJson block)).names
      = self.disk.names ++ [blockFile block.header.height] := List.map_append
  refine ⟨hgapless, ?_, fun save hsave => ?_, content,
    hsaved.start _ (not_isTemporary_numberedFile _ _) hfresh, fun name text => ?_⟩
  · exact hlength ▸ hroom
  · rcases List.mem_append.mp hsave with hold | hlast
    · obtain ⟨other, hother, hsame⟩ := h.saves save hold
      exact ⟨other, List.mem_append_left _ hother, hsame⟩
    · rw [List.mem_singleton.mp hlast]
      exact ⟨block, List.mem_append_right _ List.mem_cons_self, rfl, rfl⟩
  · rw [hcontent]
    refine exists_congr fun other => and_congr_left fun _ => ?_
    rw [mem_saved, mem_saved]
    show _ ↔ other ∈ self.chain ++ [block] ∧ _ ∉ (Disk.start _ _ _).names
    rw [hnames, List.mem_append, List.mem_singleton, List.mem_append, List.mem_singleton, not_or]
    constructor
    · exact fun ⟨hother, hnot⟩ => ⟨Or.inl hother, hnot, hnew other hother⟩
    · rintro ⟨hother | rfl, hnot, hne⟩
      · exact ⟨hother, hnot⟩
      · exact absurd rfl hne

/-- A save that is written to its temporary file is still under way. -/
theorem Stored.written (h : self.Stored format) {i : Nat} {save : Save Bytes Text}
    (hi : self.disk.saves[i]? = some save) (hwritten : save.written = false) :
    (self.step format (.advance i)).Stored format := by
  obtain ⟨content, hsaved, hcontent⟩ := h.disk
  refine ⟨h.gapless, h.small, fun other hother => ?_, content, hsaved.write hi hwritten,
    fun name text => ?_⟩
  · have hother : other ∈ (self.disk.advance fileNaming i).saves := hother
    rw [Disk.advance_unwritten fileNaming hi hwritten] at hother
    rcases List.mem_or_eq_of_mem_set hother with hold | rfl
    · exact h.saves other hold
    · exact h.saves save (List.mem_of_getElem? hi)
  · have hsame : (self.step format (.advance i)).saved = self.saved := by
      show self.chain.filter (fun block => blockFile block.header.height
        ∉ (self.disk.advance fileNaming i).names) = _
      rw [Disk.names_unwritten fileNaming hi hwritten]
      rfl
    rw [hsame]
    exact hcontent name text

/-- A save that is renamed has its block saved. -/
theorem Stored.renamed (h : self.Stored format) {i : Nat} {save : Save Bytes Text}
    (hi : self.disk.saves[i]? = some save) (hwritten : save.written = true) :
    (self.step format (.advance i)).Stored format := by
  obtain ⟨content, hsaved, hcontent⟩ := h.disk
  have hmem := List.mem_of_getElem? hi
  obtain ⟨own, hown, hfile, htext⟩ := h.saves save hmem
  have hnames : ∀ name, name ∈ (self.disk.advance fileNaming i).names
      ↔ name ≠ save.name ∧ name ∈ self.disk.names := by
    intro name
    obtain ⟨hlt, hsave⟩ := List.getElem?_eq_some_iff.mp hi
    have hlt' : i < self.disk.names.length := by
      rw [Disk.names, List.length_map]
      exact hlt
    have hname : self.disk.names[i] = save.name := by
      rw [← hsave]
      exact List.getElem_map _
    rw [Disk.names_written fileNaming hi hwritten, ← hsaved.nodup.erase_getElem i hlt',
      hsaved.nodup.mem_erase_iff, hname]
  refine ⟨h.gapless, h.small, fun other hother => ?_, _, hsaved.rename hi hwritten,
    fun name text => ?_⟩
  · have hother : other ∈ (self.disk.advance fileNaming i).saves := hother
    rw [Disk.advance_written fileNaming hi hwritten] at hother
    exact h.saves other (List.mem_of_mem_eraseIdx hother)
  · have hnext : ∀ block, block ∈ (self.step format (.advance i)).saved ↔ block ∈ self.chain
        ∧ (blockFile block.header.height ∈ self.disk.names →
          blockFile block.header.height = save.name) := by
      intro block
      rw [mem_saved]
      refine and_congr_right fun _ => ?_
      show _ ∉ (self.disk.advance fileNaming i).names ↔ _
      rw [hnames, not_and_or, not_not, imp_iff_not_or, or_comm]
    rw [Function.update_apply]
    by_cases hname : name = save.name
    · subst hname
      rw [if_pos rfl]
      constructor
      · intro heq
        exact ⟨own, (hnext own).mpr ⟨hown, fun _ => hfile⟩, hfile, htext.trans (Option.some.inj heq)⟩
      · rintro ⟨block, hblock, hblockFile, rfl⟩
        rw [h.eq_of_blockFile ((hnext block).mp hblock).1 hown (hblockFile.trans hfile.symm), htext]
    · rw [if_neg hname, hcontent]
      refine exists_congr fun block => ?_
      rw [hnext, mem_saved]
      constructor
      · rintro ⟨⟨hblock, hnot⟩, hrest⟩
        exact ⟨⟨hblock, fun hin => absurd hin hnot⟩, hrest⟩
      · rintro ⟨⟨hblock, himp⟩, hblockFile, htext⟩
        refine ⟨⟨hblock, fun hin => hname ?_⟩, hblockFile, htext⟩
        rw [← hblockFile, himp hin]

/-- A process that starts again has the saved blocks and no saves. -/
theorem Stored.restart (h : self.Stored format) {torn : Bytes → Option Text}
    (hadmits : self.Admits format (.restart torn)) :
    (self.step format (.restart torn)).Stored format := by
  obtain ⟨bs, hload⟩ := exists_ok_of_isOk hadmits
  obtain ⟨rfl, hprefix⟩ := (h.reload_eq_ok_iff torn).mp hload
  have hchain : (self.step format (.restart torn)).chain = self.saved := by
    show orKeep [] (self.reload format torn) = _
    rw [hload]
    rfl
  obtain ⟨content, hsaved, hcontent⟩ := h.disk
  refine ⟨?_, ?_, fun save hsave => (nomatch hsave), content, hsaved.reopened torn,
    fun name text => ?_⟩
  · rw [hchain, List.prefix_iff_eq_take.mp hprefix]
    exact h.gapless.take _
  · rw [hchain]
    exact (List.filter_sublist.length_le).trans h.small
  · rw [hcontent]
    refine exists_congr fun block => and_congr_left fun _ => ?_
    refine ⟨fun hblock => mem_saved.mpr ⟨?_, List.not_mem_nil⟩, fun hblock => ?_⟩
    · rw [hchain]
      exact hblock
    · rw [← hchain]
      exact (mem_saved.mp hblock).1

theorem Stored.step (h : self.Stored format) {event : StoreEvent Text}
    (hadmits : self.Admits format event) : (self.step format event).Stored format := by
  cases event with
  | append block => exact h.append hadmits
  | advance i =>
      rcases hi : self.disk.saves[i]? with _ | save
      · have hstill : self.step format (.advance i) = self := by
          show ({ self with disk := self.disk.advance fileNaming i } : BlockStore Text) = self
          rw [Disk.advance, hi]
        rw [hstill]
        exact h
      · rcases hwritten : save.written with _ | _
        · exact h.written hi hwritten
        · exact h.renamed hi hwritten
  | restart torn => exact h.restart hadmits

/-- After any events, whichever saves have overtaken others: the files are read
again exactly where the saved blocks are the first ones of the chain. -/
theorem reload_iff_prefix (format : BlockFormat Text) (events : List (StoreEvent Text))
    (h : Along (step format) (Admits format) {} events) :
    Throughout (step format) (fun node => ∀ (torn : Bytes → Option Text) (bs : List Block),
      node.reload format torn = .ok bs ↔ bs = node.saved ∧ node.saved <+: node.chain) {} events :=
  (throughout_of_along (fun _ _ hstored hadmits => hstored.step hadmits)
    (stored_empty format) h).mono
    fun _ hstored torn _ => hstored.reload_eq_ok_iff torn

/-! ### One save after the other -/

/-- No save gets its name before the one that began earlier. -/
def InTurn (self : BlockStore Text) : StoreEvent Text → Prop
  | .append block => Follows self.chain block ∧ self.chain.length < 10 ^ 10
  | .advance i => self.disk.saves[i]?.map (·.written) = some true → i = 0
  | .restart _ => True

instance decidableInTurn (self : BlockStore Text) :
    (event : StoreEvent Text) → Decidable (self.InTurn event)
  | .append block =>
      inferInstanceAs (Decidable (Follows self.chain block ∧ self.chain.length < 10 ^ 10))
  | .advance i =>
      inferInstanceAs (Decidable (self.disk.saves[i]?.map (·.written) = some true → i = 0))
  | .restart _ => .isTrue trivial

/-- The saves under way are those of the last blocks. -/
structure Trailing (format : BlockFormat Text) (node : BlockStore Text) : Prop
    extends Stored format node where
  names : ∃ k ≤ node.chain.length,
    node.disk.names = (node.chain.drop k).map fun block => blockFile block.header.height

/-- What has to be saved still is the end of the chain. -/
theorem Trailing.saved_eq (h : self.Trailing format) :
    self.saved = self.chain.take (self.chain.length - self.disk.saves.length) := by
  obtain ⟨k, hk, hnames⟩ := h.names
  have hcount : self.disk.saves.length = self.chain.length - k := by
    rw [← self.disk.length_names, hnames, List.length_map, List.length_drop]
  have hparts : ∀ block ∈ self.chain, blockFile block.header.height ∈ self.disk.names
      ↔ block ∈ self.chain.drop k := by
    intro block hblock
    rw [hnames, List.mem_map]
    refine ⟨?_, fun hmem => ⟨block, hmem, rfl⟩⟩
    rintro ⟨other, hother, hfile⟩
    exact h.eq_of_blockFile (List.mem_of_mem_drop hother) hblock hfile ▸ hother
  have hnodup : (self.chain.take k ++ self.chain.drop k).Nodup := by
    rw [List.take_append_drop]
    exact (h.gapless.rising h.wide).imp fun {a b} hlt => by
      rintro rfl
      exact absurd hlt (UInt64.lt_irrefl _)
  have hdisjoint := (List.nodup_append.mp hnodup).2.2
  rw [show self.chain.length - self.disk.saves.length = k by omega]
  unfold saved
  conv_lhs => rw [← List.take_append_drop k self.chain]
  rw [List.filter_append, List.filter_eq_self.mpr, List.filter_eq_nil_iff.mpr, List.append_nil]
  · intro block hblock
    rw [decide_eq_true_eq, not_not]
    exact (hparts block (List.mem_of_mem_drop hblock)).mpr hblock
  · intro block hblock
    rw [decide_eq_true_eq, hparts block (List.mem_of_mem_take hblock)]
    exact fun hdrop => hdisjoint block hblock block hdrop rfl

theorem Trailing.reload_eq (h : self.Trailing format) (torn : Bytes → Option Text) :
    self.reload format torn
      = .ok (self.chain.take (self.chain.length - self.disk.saves.length)) := by
  refine (h.reload_eq_ok_iff torn).mpr ⟨h.saved_eq.symm, ?_⟩
  rw [h.saved_eq]
  exact List.take_prefix _ _

theorem Trailing.step (h : self.Trailing format) {event : StoreEvent Text}
    (hturn : self.InTurn event) : (self.step format event).Trailing format := by
  obtain ⟨k, hk, hnames⟩ := h.names
  cases event with
  | append block =>
      refine ⟨h.toStored.step hturn, k, ?_, ?_⟩
      · show k ≤ (self.chain ++ [block]).length
        rw [List.length_append]
        omega
      · show (self.disk.saves ++ [_]).map _ = ((self.chain ++ [block]).drop k).map _
        rw [List.drop_append_of_le_length hk, List.map_append, List.map_append, ← hnames]
        rfl
  | advance i =>
      refine ⟨h.toStored.step trivial, ?_⟩
      show ∃ k ≤ self.chain.length, (self.disk.advance fileNaming i).names = _
      rcases hi : self.disk.saves[i]? with _ | save
      · rw [Disk.advance, hi]
        exact ⟨k, hk, hnames⟩
      · rcases hwritten : save.written with _ | _
        · rw [Disk.names_unwritten fileNaming hi hwritten]
          exact ⟨k, hk, hnames⟩
        · obtain rfl : i = 0 := hturn (by rw [hi, Option.map_some, hwritten])
          rw [Disk.names_written fileNaming hi hwritten, hnames, List.eraseIdx_zero,
            ← List.map_tail, List.tail_drop]
          refine ⟨k + 1, ?_, rfl⟩
          have hlt := (List.getElem?_eq_some_iff.mp hi).1
          rw [← self.disk.length_names, hnames, List.length_map, List.length_drop] at hlt
          omega
  | restart torn =>
      have hload := h.reload_eq torn
      refine ⟨h.toStored.step (by show (self.reload format torn).isOk = true; rw [hload]; rfl),
        _, le_rfl, ?_⟩
      rw [List.drop_length]
      rfl

theorem trailing_empty (format : BlockFormat Text) : Trailing format {} where
  toStored := stored_empty format
  names := ⟨0, le_rfl, rfl⟩

/-- Saves that finish in turn cost a crash no more than the blocks whose save is
under way, and the node comes back with all others. -/
theorem reload_of_inTurn (format : BlockFormat Text) (events : List (StoreEvent Text))
    (h : Along (step format) InTurn {} events) :
    Throughout (step format) (fun node => ∀ torn : Bytes → Option Text, node.reload format torn
      = .ok (node.chain.take (node.chain.length - node.disk.saves.length))) {} events :=
  (throughout_of_along (fun _ _ htrailing hturn => htrailing.step hturn)
    (trailing_empty format) h).mono
    fun _ htrailing torn => htrailing.reload_eq torn

end

end BlockStore

/-! ## Two blocks -/

def plainFormat : BlockFormat Block := ⟨id, .ok, fun _ => rfl⟩

def firstBlock : Block := twoBlocks.get ⟨0, by decide +kernel⟩

def secondBlock : Block := twoBlocks.get ⟨1, by decide +kernel⟩

/-- The save of the second block finishes before that of the first. -/
def overtaking : List (StoreEvent Block) :=
  [.append firstBlock, .append secondBlock, .advance 1, .advance 1]

/-- The first block is saved when the process ends; the file of the second holds
something else. -/
def savesInTurn : List (StoreEvent Block) :=
  [.append firstBlock, .append secondBlock, .advance 0, .advance 0,
    .restart fun _ => some firstBlock]

theorem loadAllBlocks_chain_iff_two :
    loadAllBlocks plainFormat (filesOf plainFormat [firstBlock, secondBlock])
      = .ok [firstBlock, secondBlock] := by
  have hrising : firstBlock.header.height < secondBlock.header.height := by decide +kernel
  have hfollows : Follows [] firstBlock ∧ Follows [firstBlock] secondBlock := by decide +kernel
  have hgapless : Gapless [firstBlock, secondBlock] :=
    (gapless_nil.concat hfollows.1).concat hfollows.2
  exact (loadAllBlocks_chain_iff (holds_filesOf (List.pairwise_pair.mpr hrising)) hgapless
    (by norm_num)).mpr (by norm_num)

theorem overtaking_admitted :
    ((overtaking.foldl (BlockStore.step plainFormat) {}).reload plainFormat fun _ => none).isOk
        = false
      ∧ Along (BlockStore.step plainFormat) (BlockStore.Admits plainFormat) {} overtaking := by
  decide +kernel

/-- A crash now leaves a directory that is not read any more. -/
theorem reload_iff_prefix_overtaking :
    ((overtaking.foldl (BlockStore.step plainFormat) {}).reload plainFormat fun _ => none).isOk
        = false
      ∧ Throughout (BlockStore.step plainFormat) (fun node => ∀ (torn : Bytes → Option Block)
          (bs : List Block), node.reload plainFormat torn = .ok bs
            ↔ bs = node.saved ∧ node.saved <+: node.chain) {} overtaking :=
  ⟨overtaking_admitted.1,
    BlockStore.reload_iff_prefix plainFormat overtaking overtaking_admitted.2⟩

theorem savesInTurn_inTurn :
    (savesInTurn.foldl (BlockStore.step plainFormat) {}).chain = [firstBlock]
      ∧ Along (BlockStore.step plainFormat) BlockStore.InTurn {} savesInTurn := by
  decide +kernel

theorem reload_of_inTurn_twoBlocks :
    (savesInTurn.foldl (BlockStore.step plainFormat) {}).chain = [firstBlock]
      ∧ Throughout (BlockStore.step plainFormat) (fun node => ∀ torn : Bytes → Option Block,
          node.reload plainFormat torn = .ok (node.chain.take (node.chain.length
            - node.disk.saves.length))) {} savesInTurn :=
  ⟨savesInTurn_inTurn.1, BlockStore.reload_of_inTurn plainFormat savesInTurn savesInTurn_inTurn.2⟩

end Sccgub
