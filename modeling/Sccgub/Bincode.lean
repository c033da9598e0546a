import Mathlib

/-!
# Positional binary codecs

A bincode-style format writes a value as the concatenation of its fields, in
declaration order and without names: fixed-width little-endian integers, a
tag byte in front of an optional value, a `u64` count in front of a sequence,
a `u32` variant index in front of an enumeration.  A decoder reads every field
positionally and hands back the bytes it did not read.

`Codec α` packs the encoder with its decoder and two laws.  Decoding what was
encoded gives the value back (`dec_enc`), and a decoder that returns `a` has
read at least `size a` bytes (`size_le`).  An encoder may write *fewer* than
`size a` bytes, because a field can be configured away when it is empty
(`skipNone`); a value is `Complete` when nothing of it was left out.  The two
laws together make completeness the exact condition for a round trip
(`ofBytes_enc_iff`), which is what a format with omitted fields has to be
judged by.

`Fits` collects the bounds a Lean list does not carry by itself: a count must
be below `2 ^ 64` to be written.
-/

namespace Bincode

abbrev Bytes := List UInt8

/-! ## Little-endian numbers -/

/-- The `w` little-endian bytes of `n`. -/
def leBytes : Nat → Nat → Bytes
  | 0, _ => []
  | w + 1, n => UInt8.ofNat n :: leBytes w (n / 256)

/-- The number a little-endian byte string stands for. -/
def ofLeBytes : Bytes → Nat
  | [] => 0
  | b :: rest => b.toNat + 256 * ofLeBytes rest

@[simp] theorem length_leBytes (w n : Nat) : (leBytes w n).length = w := by
  induction w generalizing n with
  | zero => rfl
  | succ w ih => simp [leBytes, ih]

theorem ofLeBytes_leBytes {w n : Nat} (h : n < 256 ^ w) : ofLeBytes (leBytes w n) = n := by
  induction w generalizing n with
  | zero =>
      have hn : n = 0 := by simpa using h
      simp [leBytes, ofLeBytes, hn]
  | succ w ih =>
      have hdiv : n / 256 < 256 ^ w := by
        rw [Nat.div_lt_iff_lt_mul (by decide)]
        simpa [Nat.pow_succ] using h
      simp only [leBytes, ofLeBytes, ih hdiv, UInt8.toNat_ofNat']
      omega

theorem ofLeBytes_lt (bs : Bytes) : ofLeBytes bs < 256 ^ bs.length := by
  induction bs with
  | nil => simp [ofLeBytes]
  | cons b rest ih =>
      have hb := b.toNat_lt
      simp only [ofLeBytes, List.length_cons, Nat.pow_succ]
      omega

theorem leBytes_ofLeBytes (bs : Bytes) : leBytes bs.length (ofLeBytes bs) = bs := by
  induction bs with
  | nil => rfl
  | cons b rest ih =>
      have hb := b.toNat_lt
      have hdiv : (b.toNat + 256 * ofLeBytes rest) / 256 = ofLeBytes rest := by omega
      have hmod : UInt8.ofNat (b.toNat + 256 * ofLeBytes rest) = b := by
        apply UInt8.toNat_inj.mp
        rw [UInt8.toNat_ofNat']
        omega
      rw [List.length_cons, ofLeBytes, leBytes, hdiv, hmod, ih]

theorem leBytes_inj {w m n : Nat} (hm : m < 256 ^ w) (hn : n < 256 ^ w)
    (h : leBytes w m = leBytes w n) : m = n := by
  rw [← ofLeBytes_leBytes hm, ← ofLeBytes_leBytes hn, h]

/-! ## Codecs and their two laws -/

/-- An encoder with its decoder.  `size a` is what a decoder returning `a`
has consumed at the least; `Fits a` says that the counts in `a` can be
written. -/
structure Codec (α : Type) where
  enc : α → Bytes
  dec : Bytes → Option (α × Bytes)
  size : α → Nat
  Fits : α → Prop
  enc_le : ∀ a, (enc a).length ≤ size a
  size_le : ∀ {bs a rest}, dec bs = some (a, rest) → size a + rest.length ≤ bs.length
  dec_enc : ∀ {a} rest, Fits a → (enc a).length = size a → dec (enc a ++ rest) = some (a, rest)

namespace Codec

variable {α β γ : Type}

/-- Nothing of `a` was left out by the encoder. -/
def Complete (c : Codec α) (a : α) : Prop := (c.enc a).length = c.size a

/-- The whole-message entry point.  Trailing bytes are not an error. -/
def ofBytes (c : Codec α) (bs : Bytes) : Option α := (c.dec bs).map Prod.fst

/-- What decodes to itself was written in full: a decoder that returns `a` has
read `size a` bytes, and a shorter encoding does not have them. -/
theorem complete_of_ofBytes (c : Codec α) {a : α} (h : c.ofBytes (c.enc a) = some a) :
    c.Complete a := by
  obtain ⟨⟨a', rest⟩, hdec, rfl⟩ := Option.map_eq_some_iff.mp h
  have hread := c.size_le hdec
  have hwrote := c.enc_le a'
  simp only [Complete] at hread ⊢
  omega

/-- A message decodes to itself exactly when its encoder left nothing out. -/
theorem ofBytes_enc_iff (c : Codec α) {a : α} (hfit : c.Fits a) :
    c.ofBytes (c.enc a) = some a ↔ c.Complete a := by
  refine ⟨c.complete_of_ofBytes, fun hcomp => ?_⟩
  have hdec := c.dec_enc [] hfit hcomp
  rw [List.append_nil] at hdec
  rw [ofBytes, hdec, Option.map_some]

theorem enc_append_inj (c : Codec α) {a b : α} {r s : Bytes}
    (ha : c.Fits a) (hb : c.Fits b) (hca : c.Complete a) (hcb : c.Complete b)
    (h : c.enc a ++ r = c.enc b ++ s) : a = b ∧ r = s := by
  have hdec := c.dec_enc r ha hca
  rw [h, c.dec_enc s hb hcb, Option.some_inj, Prod.mk.injEq] at hdec
  exact ⟨hdec.1.symm, hdec.2.symm⟩

theorem enc_inj (c : Codec α) {a b : α}
    (ha : c.Fits a) (hb : c.Fits b) (hca : c.Complete a) (hcb : c.Complete b)
    (h : c.enc a = c.enc b) : a = b :=
  (c.enc_append_inj ha hb hca hcb (congrArg (· ++ []) h)).1

/-! ## Changing the value type -/

/-- A codec for `β` by way of `α`: `g` says what is written, `f` what a read
value stands for, and `f` may refuse it. -/
def refine (c : Codec α) (f : α → Option β) (g : β → α) (hfg : ∀ b, f (g b) = some b)
    (hsize : ∀ a b, f a = some b → c.size (g b) ≤ c.size a) : Codec β where
  enc b := c.enc (g b)
  dec bs := (c.dec bs).bind fun r => (f r.1).map fun b => (b, r.2)
  size b := c.size (g b)
  Fits b := c.Fits (g b)
  enc_le b := c.enc_le (g b)
  size_le := by
    intro bs b rest h
    obtain ⟨⟨a, rest'⟩, hdec, h⟩ := Option.bind_eq_some_iff.mp h
    obtain ⟨b', hb', heq⟩ := Option.map_eq_some_iff.mp h
    obtain ⟨rfl, rfl⟩ := Prod.mk.inj heq
    have hle := hsize a b' hb'
    have hread := c.size_le hdec
    simp only at hread ⊢
    omega
  dec_enc := by
    intro b rest hfit hcomp
    simp only [c.dec_enc rest hfit hcomp, Option.bind_some, hfg, Option.map_some]

/-- A codec for a type that is another one under new names, such as a
structure seen as the tuple of its fields. -/
def iso (c : Codec α) (f : α → β) (g : β → α) (hfg : ∀ b, f (g b) = b)
    (hgf : ∀ a, g (f a) = a) : Codec β :=
  c.refine (fun a => some (f a)) g (fun b => congrArg some (hfg b)) (by
    intro a b h
    rw [← Option.some_inj.mp h, hgf])

@[simp] theorem refine_enc (c : Codec α) {f : α → Option β} {g : β → α} {hfg hsize} (b : β) :
    (c.refine f g hfg hsize).enc b = c.enc (g b) := rfl

@[simp] theorem refine_complete (c : Codec α) {f : α → Option β} {g : β → α} {hfg hsize} (b : β) :
    (c.refine f g hfg hsize).Complete b ↔ c.Complete (g b) := Iff.rfl

@[simp] theorem refine_fits (c : Codec α) {f : α → Option β} {g : β → α} {hfg hsize} (b : β) :
    (c.refine f g hfg hsize).Fits b ↔ c.Fits (g b) := Iff.rfl

@[simp] theorem iso_enc (c : Codec α) {f : α → β} {g : β → α} {hfg hgf} (b : β) :
    (c.iso f g hfg hgf).enc b = c.enc (g b) := rfl

@[simp] theorem iso_complete (c : Codec α) {f : α → β} {g : β → α} {hfg hgf} (b : β) :
    (c.iso f g hfg hgf).Complete b ↔ c.Complete (g b) := Iff.rfl

@[simp] theorem iso_fits (c : Codec α) {f : α → β} {g : β → α} {hfg hgf} (b : β) :
    (c.iso f g hfg hgf).Fits b ↔ c.Fits (g b) := Iff.rfl

/-! ## Fixed-width values -/

/-- A byte string whose length the type fixes: written raw, no count. -/
def bytes (n : Nat) : Codec (List.Vector UInt8 n) where
  enc v := v.toList
  dec bs := if h : n ≤ bs.length
    then some (⟨bs.take n, List.length_take_of_le h⟩, bs.drop n) else none
  size _ := n
  Fits _ := True
  enc_le v := le_of_eq v.toList_length
  size_le := by
    intro bs v rest h
    split at h
    · obtain ⟨-, rfl⟩ := Prod.mk.inj (Option.some_inj.mp h)
      rw [List.length_drop]
      omega
    · cases h
  dec_enc := by
    intro v rest _ _
    have hlen : n ≤ (v.toList ++ rest).length := by
      rw [List.length_append, v.toList_length]
      omega
    rw [dif_pos hlen]
    obtain ⟨l, rfl⟩ := v
    simp [List.Vector.toList]

@[simp] theorem bytes_enc {n : Nat} (v : List.Vector UInt8 n) : (bytes n).enc v = v.toList := rfl

@[simp] theorem bytes_complete {n : Nat} (v : List.Vector UInt8 n) : (bytes n).Complete v :=
  v.toList_length

@[simp] theorem bytes_fits {n : Nat} (v : List.Vector UInt8 n) : (bytes n).Fits v := trivial

/-- A number in `w` little-endian bytes. -/
def nat (w : Nat) : Codec Nat where
  enc n := leBytes w n
  dec bs := if w ≤ bs.length then some (ofLeBytes (bs.take w), bs.drop w) else none
  size _ := w
  Fits n := n < 256 ^ w
  enc_le n := le_of_eq (length_leBytes w n)
  size_le := by
    intro bs n rest h
    split at h
    · obtain ⟨-, rfl⟩ := Prod.mk.inj (Option.some_inj.mp h)
      rw [List.length_drop]
      omega
    · cases h
  dec_enc := by
    intro n rest hfit _
    have hlen : w ≤ (leBytes w n ++ rest).length := by
      rw [List.length_append, length_leBytes]
      omega
    rw [if_pos hlen, List.take_left' (length_leBytes w n), List.drop_left' (length_leBytes w n),
      ofLeBytes_leBytes hfit]

@[simp] theorem nat_enc (w n : Nat) : (nat w).enc n = leBytes w n := rfl

@[simp] theorem nat_complete (w n : Nat) : (nat w).Complete n := length_leBytes w n

@[simp] theorem nat_fits (w n : Nat) : (nat w).Fits n ↔ n < 256 ^ w := Iff.rfl

/-- A number type of `w` bytes, seen through its value. -/
def word (w : Nat) (ofNat : Nat → β) (toNat : β → Nat) (h : ∀ b, ofNat (toNat b) = b) : Codec β :=
  (nat w).refine (fun n => some (ofNat n)) toNat (fun b => congrArg some (h b))
    (fun _ _ _ => Nat.le_refl w)

@[simp] theorem word_enc {w : Nat} {ofNat : Nat → β} {toNat h} (b : β) :
    (word w ofNat toNat h).enc b = leBytes w (toNat b) := rfl

@[simp] theorem word_complete {w : Nat} {ofNat : Nat → β} {toNat h} (b : β) :
    (word w ofNat toNat h).Complete b := length_leBytes w (toNat b)

@[simp] theorem word_fits {w : Nat} {ofNat : Nat → β} {toNat h} (b : β) :
    (word w ofNat toNat h).Fits b ↔ toNat b < 256 ^ w := Iff.rfl

def u8 : Codec UInt8 := word 1 UInt8.ofNat UInt8.toNat fun _ => UInt8.ofNat_toNat

def u32 : Codec UInt32 := word 4 UInt32.ofNat UInt32.toNat fun _ => UInt32.ofNat_toNat

def u64 : Codec UInt64 := word 8 UInt64.ofNat UInt64.toNat fun _ => UInt64.ofNat_toNat

def u128 : Codec (BitVec 128) :=
  word 16 (BitVec.ofNat 128) BitVec.toNat fun b => by simp

@[simp] theorem u8_complete (n : UInt8) : u8.Complete n := word_complete n

@[simp] theorem u8_fits (n : UInt8) : u8.Fits n := n.toNat_lt

@[simp] theorem u32_complete (n : UInt32) : u32.Complete n := word_complete n

@[simp] theorem u32_fits (n : UInt32) : u32.Fits n := n.toNat_lt

@[simp] theorem u64_complete (n : UInt64) : u64.Complete n := word_complete n

@[simp] theorem u64_fits (n : UInt64) : u64.Fits n := n.toNat_lt

@[simp] theorem u128_complete (n : BitVec 128) : u128.Complete n := word_complete n

@[simp] theorem u128_fits (n : BitVec 128) : u128.Fits n := n.isLt

/-! ## Pairs -/

/-- Two fields, one after the other. -/
def pair (c : Codec α) (d : Codec β) : Codec (α × β) where
  enc p := c.enc p.1 ++ d.enc p.2
  dec bs := (c.dec bs).bind fun r => (d.dec r.2).map fun s => ((r.1, s.1), s.2)
  size p := c.size p.1 + d.size p.2
  Fits p := c.Fits p.1 ∧ d.Fits p.2
  enc_le p := by
    rw [List.length_append]
    exact Nat.add_le_add (c.enc_le p.1) (d.enc_le p.2)
  size_le := by
    rintro bs ⟨a, b⟩ rest h
    obtain ⟨⟨a', r⟩, hc, h⟩ := Option.bind_eq_some_iff.mp h
    obtain ⟨⟨b', s⟩, hd, heq⟩ := Option.map_eq_some_iff.mp h
    obtain ⟨⟨rfl, rfl⟩, rfl⟩ := by simpa only [Prod.mk.injEq] using heq
    have hreadc := c.size_le hc
    have hreadd := d.size_le hd
    simp only at hreadc hreadd ⊢
    omega
  dec_enc := by
    intro p rest hfit hcomp
    have hlea := c.enc_le p.1
    have hleb := d.enc_le p.2
    simp only [List.length_append] at hcomp
    simp only [List.append_assoc, c.dec_enc _ hfit.1 (by omega), d.dec_enc _ hfit.2 (by omega),
      Option.bind_some, Option.map_some]

@[simp] theorem pair_enc (c : Codec α) (d : Codec β) (p : α × β) :
    (c.pair d).enc p = c.enc p.1 ++ d.enc p.2 := rfl

@[simp] theorem pair_fits (c : Codec α) (d : Codec β) (p : α × β) :
    (c.pair d).Fits p ↔ c.Fits p.1 ∧ d.Fits p.2 := Iff.rfl

@[simp] theorem pair_complete (c : Codec α) (d : Codec β) (p : α × β) :
    (c.pair d).Complete p ↔ c.Complete p.1 ∧ d.Complete p.2 := by
  have hlea := c.enc_le p.1
  have hleb := d.enc_le p.2
  simp only [Complete, pair, List.length_append]
  omega

/-! ## Optional values -/

/-- One tag byte, then the value if there is one. -/
def decOption (c : Codec α) : Bytes → Option (Option α × Bytes)
  | [] => none
  | tag :: rest =>
      if tag = 0 then some (none, rest)
      else if tag = 1 then (c.dec rest).map fun r => (some r.1, r.2)
      else none

def sizeOption (c : Codec α) : Option α → Nat
  | none => 1
  | some a => 1 + c.size a

theorem size_le_of_decOption (c : Codec α) {bs rest : Bytes} {o : Option α}
    (h : decOption c bs = some (o, rest)) : sizeOption c o + rest.length ≤ bs.length := by
  cases bs with
  | nil => cases h
  | cons tag bs =>
      simp only [decOption] at h
      split at h
      · obtain ⟨rfl, rfl⟩ := by simpa only [Option.some_inj, Prod.mk.injEq] using h
        simp only [sizeOption, List.length_cons]
        omega
      · split at h
        · obtain ⟨⟨a, r⟩, hdec, heq⟩ := Option.map_eq_some_iff.mp h
          obtain ⟨rfl, rfl⟩ := Prod.mk.inj heq
          have hread := c.size_le hdec
          simp only [sizeOption, List.length_cons] at hread ⊢
          omega
        · cases h

/-- An optional value: a tag byte, then the value. -/
def option (c : Codec α) : Codec (Option α) where
  enc
    | none => [0]
    | some a => 1 :: c.enc a
  dec := decOption c
  size := sizeOption c
  Fits o := ∀ a, o = some a → c.Fits a
  enc_le o := by
    cases o with
    | none => exact Nat.le_refl 1
    | some a =>
        have hle := c.enc_le a
        simp only [sizeOption, List.length_cons]
        omega
  size_le := size_le_of_decOption c
  dec_enc := by
    intro o rest hfit hcomp
    cases o with
    | none => rfl
    | some a =>
        simp only [sizeOption, List.length_cons] at hcomp
        simp [decOption, c.dec_enc rest (hfit a rfl) (by omega)]

@[simp] theorem option_fits (c : Codec α) (o : Option α) :
    c.option.Fits o ↔ ∀ a, o = some a → c.Fits a := Iff.rfl

@[simp] theorem option_complete (c : Codec α) (o : Option α) :
    c.option.Complete o ↔ ∀ a, o = some a → c.Complete a := by
  cases o with
  | none => simp [Complete, option, sizeOption]
  | some a =>
      simp only [Complete, option, sizeOption, List.length_cons, Option.some.injEq, forall_eq']
      omega

/-- An optional field that the encoder leaves out when it is empty, while the
decoder goes on expecting its tag. -/
def skipNone (c : Codec α) : Codec (Option α) where
  enc
    | none => []
    | some a => 1 :: c.enc a
  dec := decOption c
  size := sizeOption c
  Fits o := ∀ a, o = some a → c.Fits a
  enc_le o := by
    cases o with
    | none => exact Nat.zero_le 1
    | some a =>
        have hle := c.enc_le a
        simp only [sizeOption, List.length_cons]
        omega
  size_le := size_le_of_decOption c
  dec_enc := by
    intro o rest hfit hcomp
    cases o with
    | none => cases hcomp
    | some a =>
        simp only [sizeOption, List.length_cons] at hcomp
        simp [decOption, c.dec_enc rest (hfit a rfl) (by omega)]

@[simp] theorem skipNone_fits (c : Codec α) (o : Option α) :
    c.skipNone.Fits o ↔ ∀ a, o = some a → c.Fits a := Iff.rfl

/-- A field that may be left out is complete only when it is there. -/
@[simp] theorem skipNone_complete (c : Codec α) (o : Option α) :
    c.skipNone.Complete o ↔ ∃ a, o = some a ∧ c.Complete a := by
  cases o with
  | none => simp [Complete, skipNone, sizeOption]
  | some a =>
      simp only [Complete, skipNone, sizeOption, List.length_cons, Option.some.injEq,
        exists_eq_left']
      omega

/-! ## Sequences -/

/-- The elements of a sequence, without their count. -/
def encSeq (c : Codec α) : List α → Bytes
  | [] => []
  | a :: rest => c.enc a ++ encSeq c rest

def decSeq (c : Codec α) : Nat → Bytes → Option (List α × Bytes)
  | 0, bs => some ([], bs)
  | n + 1, bs =>
      (c.dec bs).bind fun r => (decSeq c n r.2).map fun s => (r.1 :: s.1, s.2)

def sizeSeq (c : Codec α) : List α → Nat
  | [] => 0
  | a :: rest => c.size a + sizeSeq c rest

theorem encSeq_le (c : Codec α) (l : List α) : (encSeq c l).length ≤ sizeSeq c l := by
  induction l with
  | nil => exact Nat.le_refl 0
  | cons a rest ih =>
      have hle := c.enc_le a
      simp only [encSeq, sizeSeq, List.length_append]
      omega

theorem sizeSeq_le_of_decSeq (c : Codec α) {n : Nat} {bs rest : Bytes} {l : List α}
    (h : decSeq c n bs = some (l, rest)) :
    l.length = n ∧ sizeSeq c l + rest.length ≤ bs.length := by
  induction n generalizing bs l with
  | zero =>
      obtain ⟨rfl, rfl⟩ := by simpa only [decSeq, Option.some_inj, Prod.mk.injEq] using h
      simp [sizeSeq]
  | succ n ih =>
      obtain ⟨⟨a, r⟩, hc, h⟩ := Option.bind_eq_some_iff.mp h
      obtain ⟨⟨l', s⟩, hd, heq⟩ := Option.map_eq_some_iff.mp h
      obtain ⟨rfl, rfl⟩ := by simpa only [Prod.mk.injEq] using heq
      obtain ⟨hlen, hread⟩ := ih hd
      have hreadc := c.size_le hc
      simp only [sizeSeq, List.length_cons] at hreadc hread ⊢
      omega

theorem decSeq_encSeq (c : Codec α) {l : List α} (rest : Bytes) (hfit : ∀ a ∈ l, c.Fits a)
    (hcomp : (encSeq c l).length = sizeSeq c l) :
    decSeq c l.length (encSeq c l ++ rest) = some (l, rest) := by
  induction l with
  | nil => rfl
  | cons a l ih =>
      have hle := c.enc_le a
      have hles := encSeq_le c l
      simp only [encSeq, sizeSeq, List.length_append] at hcomp
      simp only [encSeq, List.length_cons, decSeq, List.append_assoc,
        c.dec_enc _ (hfit a List.mem_cons_self) (by omega),
        ih (fun x hx => hfit x (List.mem_cons_of_mem a hx)) (by omega),
        Option.bind_some, Option.map_some]

/-- A growable sequence: its `u64` count, then its elements. -/
def list (c : Codec α) : Codec (List α) where
  enc l := leBytes 8 l.length ++ encSeq c l
  dec bs := ((nat 8).dec bs).bind fun r => decSeq c r.1 r.2
  size l := 8 + sizeSeq c l
  Fits l := l.length < 256 ^ 8 ∧ ∀ a ∈ l, c.Fits a
  enc_le l := by
    have hle := encSeq_le c l
    simp only [List.length_append, length_leBytes]
    omega
  size_le := by
    intro bs l rest h
    obtain ⟨⟨n, r⟩, hn, h⟩ := Option.bind_eq_some_iff.mp h
    have hread := (nat 8).size_le hn
    obtain ⟨-, hreads⟩ := sizeSeq_le_of_decSeq c h
    simp only [nat] at hread hreads ⊢
    omega
  dec_enc := by
    rintro l rest ⟨hlen, hfit⟩ hcomp
    simp only [List.length_append, length_leBytes] at hcomp
    have hcount := (nat 8).dec_enc (encSeq c l ++ rest) hlen (length_leBytes 8 l.length)
    rw [nat_enc] at hcount
    rw [List.append_assoc, hcount, Option.bind_some, decSeq_encSeq c rest hfit (by omega)]

theorem list_enc (c : Codec α) (l : List α) :
    c.list.enc l = leBytes 8 l.length ++ encSeq c l := rfl

@[simp] theorem list_fits (c : Codec α) (l : List α) :
    c.list.Fits l ↔ l.length < 256 ^ 8 ∧ ∀ a ∈ l, c.Fits a := Iff.rfl

@[simp] theorem list_complete (c : Codec α) (l : List α) :
    c.list.Complete l ↔ ∀ a ∈ l, c.Complete a := by
  have hseq : (encSeq c l).length = sizeSeq c l ↔ ∀ a ∈ l, c.Complete a := by
    induction l with
    | nil => simp [encSeq, sizeSeq]
    | cons a l ih =>
        have hle := c.enc_le a
        have hles := encSeq_le c l
        rw [List.forall_mem_cons, ← ih]
        simp only [encSeq, sizeSeq, List.length_append, Complete]
        omega
  rw [← hseq]
  simp only [Complete, list, List.length_append, length_leBytes]
  omega

/-- A byte string of any length: its count, then its bytes. -/
def blob : Codec Bytes := u8.list

theorem encSeq_u8 (bs : Bytes) : encSeq u8 bs = bs := by
  induction bs with
  | nil => rfl
  | cons b rest ih =>
      have hb : u8.enc b = [b] := by simp [u8, leBytes]
      rw [encSeq, ih, hb, List.singleton_append]

theorem blob_enc (bs : Bytes) : blob.enc bs = leBytes 8 bs.length ++ bs := by
  rw [blob, list_enc, encSeq_u8]

@[simp] theorem blob_complete (bs : Bytes) : blob.Complete bs := by
  simp [blob]

@[simp] theorem blob_fits (bs : Bytes) : blob.Fits bs ↔ bs.length < 256 ^ 8 := by
  simp [blob]

/-- Text is the byte string of its UTF-8 form; other bytes are refused. -/
def string : Codec String :=
  blob.refine (fun bs => String.fromUTF8? ⟨bs.toArray⟩) (fun s => s.toUTF8.data.toList)
    (by
      intro s
      simp only [String.fromUTF8?, Array.toArray_toList]
      exact dif_pos s.isValidUTF8)
    (by
      intro bs s h
      simp only [String.fromUTF8?] at h
      split at h
      · rw [← Option.some_inj.mp h]
        simp [String.fromUTF8]
      · cases h)

@[simp] theorem string_complete (s : String) : string.Complete s := blob_complete _

@[simp] theorem string_fits (s : String) :
    string.Fits s ↔ s.toUTF8.data.toList.length < 256 ^ 8 := blob_fits _

/-- `true` and `false` are the bytes one and zero. -/
def bool : Codec Bool :=
  u8.refine (fun b => if b = 0 then some false else if b = 1 then some true else none)
    (fun b => if b then 1 else 0) (by decide) (fun _ _ _ => Nat.le_refl 1)

@[simp] theorem bool_complete (b : Bool) : bool.Complete b := u8_complete _

@[simp] theorem bool_fits (b : Bool) : bool.Fits b := u8_fits _

/-! ## Enumerations -/

/-- A variant without payload. -/
def unit : Codec Unit where
  enc _ := []
  dec bs := some ((), bs)
  size _ := 0
  Fits _ := True
  enc_le _ := Nat.le_refl 0
  size_le := by
    intro bs a rest h
    obtain ⟨-, rfl⟩ := Prod.mk.inj (Option.some_inj.mp h)
    simp
  dec_enc := fun _ _ _ => rfl

@[simp] theorem unit_complete (u : Unit) : unit.Complete u := rfl

@[simp] theorem unit_fits (u : Unit) : unit.Fits u := trivial

/-- An enumeration without payloads is its variant index. -/
def fieldless (ofIndex : Nat → Option β) (index : β → Nat)
    (h : ∀ b, ofIndex (index b) = some b) : Codec β :=
  (nat 4).refine ofIndex index h (fun _ _ _ => Nat.le_refl 4)

@[simp] theorem fieldless_complete {ofIndex : Nat → Option β} {index h} (b : β) :
    (fieldless ofIndex index h).Complete b := nat_complete 4 _

@[simp] theorem fieldless_fits {ofIndex : Nat → Option β} {index h} (b : β) :
    (fieldless ofIndex index h).Fits b ↔ index b < 256 ^ 4 := Iff.rfl

end Codec

/-- The variants of an enumeration, numbered from zero, each with the codec of
its payload. -/
structure Variants (α : Type) where
  index : α → Nat
  enc : α → Bytes
  dec : Nat → Bytes → Option (α × Bytes)
  size : α → Nat
  Fits : α → Prop
  enc_le : ∀ a, (enc a).length ≤ size a
  size_le : ∀ {i bs a rest}, dec i bs = some (a, rest) → size a + rest.length ≤ bs.length
  dec_enc : ∀ {a} rest, Fits a → (enc a).length = size a →
    dec (index a) (enc a ++ rest) = some (a, rest)

namespace Variants

variable {α β : Type}

def Complete (v : Variants α) (a : α) : Prop := (v.enc a).length = v.size a

/-- The last variant. -/
def last (c : Codec α) : Variants α where
  index _ := 0
  enc := c.enc
  dec i bs := if i = 0 then c.dec bs else none
  size := c.size
  Fits := c.Fits
  enc_le := c.enc_le
  size_le := by
    intro i bs a rest h
    split at h
    · exact c.size_le h
    · cases h
  dec_enc := by
    intro a rest hfit hcomp
    rw [if_pos rfl]
    exact c.dec_enc rest hfit hcomp

/-- A first variant in front of the others. -/
def cons (c : Codec α) (v : Variants β) : Variants (α ⊕ β) where
  index := Sum.elim (fun _ => 0) (fun b => v.index b + 1)
  enc := Sum.elim c.enc v.enc
  dec
    | 0, bs => (c.dec bs).map fun r => (.inl r.1, r.2)
    | i + 1, bs => (v.dec i bs).map fun r => (.inr r.1, r.2)
  size := Sum.elim c.size v.size
  Fits := Sum.elim c.Fits v.Fits
  enc_le := by
    rintro (a | b)
    · exact c.enc_le a
    · exact v.enc_le b
  size_le := by
    intro i bs x rest h
    cases i with
    | zero =>
        obtain ⟨⟨a, r⟩, hdec, heq⟩ := Option.map_eq_some_iff.mp h
        obtain ⟨rfl, rfl⟩ := Prod.mk.inj heq
        exact c.size_le hdec
    | succ i =>
        obtain ⟨⟨b, r⟩, hdec, heq⟩ := Option.map_eq_some_iff.mp h
        obtain ⟨rfl, rfl⟩ := Prod.mk.inj heq
        exact v.size_le hdec
  dec_enc := by
    rintro (a | b) rest hfit hcomp
    · exact congrArg (Option.map _) (c.dec_enc rest hfit hcomp)
    · exact congrArg (Option.map _) (v.dec_enc rest hfit hcomp)

/-- A run of variants with the same payload, told apart by a key, in front of
the others. -/
def family {κ : Type} (n : Nat) (ofIndex : Nat → Option κ) (index : κ → Nat)
    (h : ∀ k, ofIndex (index k) = some k) (hlt : ∀ k, index k < n) (c : Codec α)
    (v : Variants β) : Variants ((κ × α) ⊕ β) where
  index := Sum.elim (fun p => index p.1) (fun b => n + v.index b)
  enc := Sum.elim (fun p => c.enc p.2) v.enc
  dec i bs :=
    if i < n then
      (ofIndex i).bind fun k => (c.dec bs).map fun r => (.inl (k, r.1), r.2)
    else (v.dec (i - n) bs).map fun r => (.inr r.1, r.2)
  size := Sum.elim (fun p => c.size p.2) v.size
  Fits := Sum.elim (fun p => c.Fits p.2) v.Fits
  enc_le := by
    rintro (p | b)
    · exact c.enc_le p.2
    · exact v.enc_le b
  size_le := by
    intro i bs x rest hdec
    split at hdec
    · obtain ⟨k, -, hmap⟩ := Option.bind_eq_some_iff.mp hdec
      obtain ⟨⟨a, r⟩, hread, heq⟩ := Option.map_eq_some_iff.mp hmap
      obtain ⟨rfl, rfl⟩ := Prod.mk.inj heq
      exact c.size_le hread
    · obtain ⟨⟨b, r⟩, hread, heq⟩ := Option.map_eq_some_iff.mp hdec
      obtain ⟨rfl, rfl⟩ := Prod.mk.inj heq
      exact v.size_le hread
  dec_enc := by
    rintro (p | b) rest hfit hcomp
    · refine (if_pos (hlt p.1)).trans ?_
      show ((ofIndex (index p.1)).bind fun k => _) = _
      rw [h, Option.bind_some]
      exact congrArg (Option.map _) (c.dec_enc rest hfit hcomp)
    · refine (if_neg (Nat.not_lt.mpr (Nat.le_add_right n (v.index b)))).trans ?_
      show Option.map _ (v.dec (n + v.index b - n) _) = _
      rw [Nat.add_sub_cancel_left]
      exact congrArg (Option.map _) (v.dec_enc rest hfit hcomp)

@[simp] theorem family_complete_inl {κ : Type} {n : Nat} {ofIndex : Nat → Option κ} {index h hlt}
    (c : Codec α) (v : Variants β) (p : κ × α) :
    (family n ofIndex index h hlt c v).Complete (.inl p) ↔ c.Complete p.2 := Iff.rfl

@[simp] theorem family_complete_inr {κ : Type} {n : Nat} {ofIndex : Nat → Option κ} {index h hlt}
    (c : Codec α) (v : Variants β) (b : β) :
    (family n ofIndex index h hlt c v).Complete (.inr b) ↔ v.Complete b := Iff.rfl

@[simp] theorem last_complete (c : Codec α) (a : α) : (last c).Complete a ↔ c.Complete a := Iff.rfl

@[simp] theorem cons_complete_inl (c : Codec α) (v : Variants β) (a : α) :
    (cons c v).Complete (.inl a) ↔ c.Complete a := Iff.rfl

@[simp] theorem cons_complete_inr (c : Codec α) (v : Variants β) (b : β) :
    (cons c v).Complete (.inr b) ↔ v.Complete b := Iff.rfl

end Variants

namespace Codec

variable {α β : Type}

/-- An enumeration: the `u32` index of the variant, then its payload. -/
def enum (v : Variants α) : Codec α where
  enc a := leBytes 4 (v.index a) ++ v.enc a
  dec bs := ((nat 4).dec bs).bind fun r => v.dec r.1 r.2
  size a := 4 + v.size a
  Fits a := v.index a < 256 ^ 4 ∧ v.Fits a
  enc_le a := by
    have hle := v.enc_le a
    simp only [List.length_append, length_leBytes]
    omega
  size_le := by
    intro bs a rest h
    obtain ⟨⟨i, r⟩, hi, h⟩ := Option.bind_eq_some_iff.mp h
    have hread := (nat 4).size_le hi
    have hreadv := v.size_le h
    simp only [nat] at hread hreadv ⊢
    omega
  dec_enc := by
    rintro a rest ⟨hindex, hfit⟩ hcomp
    simp only [List.length_append, length_leBytes] at hcomp
    have htag := (nat 4).dec_enc (v.enc a ++ rest) hindex (length_leBytes 4 (v.index a))
    rw [nat_enc] at htag
    rw [List.append_assoc, htag, Option.bind_some, v.dec_enc rest hfit (by omega)]

@[simp] theorem enum_fits (v : Variants α) (a : α) :
    (enum v).Fits a ↔ v.index a < 256 ^ 4 ∧ v.Fits a := Iff.rfl

@[simp] theorem enum_complete (v : Variants α) (a : α) : (enum v).Complete a ↔ v.Complete a := by
  simp only [Complete, Variants.Complete, enum, List.length_append, length_leBytes]
  omega

end Codec

/-! ## Lengths -/

theorem length_u32 (n : UInt32) : (Codec.u32.enc n).length = 4 := length_leBytes 4 _

theorem length_u64 (n : UInt64) : (Codec.u64.enc n).length = 8 := length_leBytes 8 _

theorem length_encSeq {α : Type} (c : Codec α) (l : List α) :
    (Codec.encSeq c l).length = (l.map fun a => (c.enc a).length).sum := by
  induction l with
  | nil => rfl
  | cons a l ih => rw [Codec.encSeq, List.length_append, ih, List.map_cons, List.sum_cons]

/-- A sequence that is permuted takes the same space. -/
theorem length_list_enc_of_perm {α : Type} {c : Codec α} {l l' : List α} (h : l.Perm l') :
    (c.list.enc l).length = (c.list.enc l').length := by
  rw [Codec.list_enc, Codec.list_enc, List.length_append, List.length_append, length_leBytes,
    length_leBytes, length_encSeq, length_encSeq, (h.map _).sum_eq]

theorem length_list_enc_cons {α : Type} (c : Codec α) (a : α) (l : List α) :
    (c.list.enc (a :: l)).length = (c.list.enc l).length + (c.enc a).length := by
  rw [Codec.list_enc, Codec.list_enc, Codec.encSeq]
  simp only [List.length_append, length_leBytes]
  omega

theorem length_le_list_enc {α : Type} {c : Codec α} (hc : ∀ a, 0 < (c.enc a).length) (l : List α) :
    l.length ≤ (c.list.enc l).length := by
  induction l with
  | nil => simp
  | cons a l ih =>
      have ha := hc a
      rw [length_list_enc_cons, List.length_cons]
      omega

theorem mem_le_list_enc {α : Type} {c : Codec α} {l : List α} {a : α} (ha : a ∈ l) :
    (c.enc a).length ≤ (c.list.enc l).length := by
  induction l with
  | nil => cases ha
  | cons b l ih =>
      rw [length_list_enc_cons]
      rcases List.mem_cons.mp ha with rfl | ha
      · omega
      · have hle := ih ha
        omega

end Bincode
