import Mathlib
import Sccgub.Bincode

/-!
# Saturating machine integers

Lean's `UIntN` types wrap; consensus code saturates.  This module adds the
saturating operations on `UInt64` with their values, and a signed 128-bit
integer that carries its own range, so that an out-of-range value cannot be
built and every operation states where it clamps.
-/

namespace FixedWidth

open Bincode

/-! ## Unsigned 64-bit -/

def u64Max : Nat := 2 ^ 64 - 1

def saturatingAdd (a b : UInt64) : UInt64 := UInt64.ofNat (min (a.toNat + b.toNat) u64Max)

def saturatingSub (a b : UInt64) : UInt64 := UInt64.ofNat (a.toNat - b.toNat)

def saturatingMul (a b : UInt64) : UInt64 := UInt64.ofNat (min (a.toNat * b.toNat) u64Max)

@[simp] theorem toNat_saturatingAdd (a b : UInt64) :
    (saturatingAdd a b).toNat = min (a.toNat + b.toNat) (2 ^ 64 - 1) := by
  rw [saturatingAdd, UInt64.toNat_ofNat', Nat.mod_eq_of_lt, u64Max]
  rw [u64Max]
  omega

@[simp] theorem toNat_saturatingSub (a b : UInt64) :
    (saturatingSub a b).toNat = a.toNat - b.toNat := by
  have ha := a.toNat_lt
  rw [saturatingSub, UInt64.toNat_ofNat', Nat.mod_eq_of_lt]
  omega

@[simp] theorem toNat_saturatingMul (a b : UInt64) :
    (saturatingMul a b).toNat = min (a.toNat * b.toNat) (2 ^ 64 - 1) := by
  rw [saturatingMul, UInt64.toNat_ofNat', Nat.mod_eq_of_lt, u64Max]
  rw [u64Max]
  omega

/-! ## Signed 64-bit -/

/-- Two's complement, little-endian. -/
def i64Codec : Codec Int64 :=
  Codec.u64.iso UInt64.toInt64 Int64.toUInt64 (fun _ => rfl) (fun _ => rfl)

@[simp] theorem i64Codec_complete (n : Int64) : i64Codec.Complete n := Codec.u64_complete _

@[simp] theorem i64Codec_fits (n : Int64) : i64Codec.Fits n := Codec.u64_fits _

/-! ## Signed 128-bit -/

/-- An integer in the signed 128-bit range. -/
structure I128 where
  val : Int
  ge_min : -2 ^ 127 ≤ val
  le_max : val ≤ 2 ^ 127 - 1
  deriving DecidableEq, Repr

namespace I128

/-- The nearest representable value. -/
def saturate (x : Int) : I128 where
  val := max (-2 ^ 127) (min (2 ^ 127 - 1) x)
  ge_min := le_max_left _ _
  le_max := by omega

theorem val_saturate (x : Int) : (saturate x).val = max (-2 ^ 127) (min (2 ^ 127 - 1) x) := rfl

theorem val_saturate_of_range {x : Int} (hlo : -2 ^ 127 ≤ x) (hhi : x ≤ 2 ^ 127 - 1) :
    (saturate x).val = x := by
  rw [val_saturate]
  omega

instance : OfNat I128 n := ⟨saturate n⟩

instance : LE I128 := ⟨fun a b => a.val ≤ b.val⟩

instance : LT I128 := ⟨fun a b => a.val < b.val⟩

instance (a b : I128) : Decidable (a ≤ b) := inferInstanceAs (Decidable (a.val ≤ b.val))

instance (a b : I128) : Decidable (a < b) := inferInstanceAs (Decidable (a.val < b.val))

instance : Inhabited I128 := ⟨0⟩

@[ext] theorem ext {a b : I128} (h : a.val = b.val) : a = b := by
  cases a
  cases b
  simpa using h

theorem le_def (a b : I128) : a ≤ b ↔ a.val ≤ b.val := Iff.rfl

def saturatingAdd (a b : I128) : I128 := saturate (a.val + b.val)

def saturatingSub (a b : I128) : I128 := saturate (a.val - b.val)

def saturatingMul (a b : I128) : I128 := saturate (a.val * b.val)

/-- The two's-complement pattern as a natural number. -/
def toBits (a : I128) : Nat := (a.val % 2 ^ 128).toNat

/-- The value of a two's-complement pattern. -/
def ofBits (n : Nat) : I128 := saturate (if n < 2 ^ 127 then n else n - 2 ^ 128)

theorem toBits_lt (a : I128) : a.toBits < 256 ^ 16 := by
  have hlo := a.ge_min
  have hhi := a.le_max
  simp only [toBits]
  omega

theorem ofBits_toBits (a : I128) : ofBits a.toBits = a := by
  have hlo := a.ge_min
  have hhi := a.le_max
  apply ext
  simp only [ofBits, toBits, val_saturate]
  split_ifs <;> omega

theorem toBits_ofBits {n : Nat} (h : n < 256 ^ 16) : (ofBits n).toBits = n := by
  simp only [ofBits, toBits, val_saturate]
  split_ifs <;> omega

/-- Sixteen little-endian bytes. -/
def codec : Codec I128 := Codec.word 16 ofBits toBits ofBits_toBits

@[simp] theorem codec_complete (a : I128) : codec.Complete a := Codec.word_complete a

@[simp] theorem codec_fits (a : I128) : codec.Fits a := a.toBits_lt

/-! ### Decimal text

Printing is canonical; parsing, like the standard library's, also takes a plus
sign and leading zeros.  A parsed value therefore prints in no more bytes than
it was read from. -/

/-- ASCII decimal digits, most significant first. -/
def natToAscii (n : Nat) : Bytes :=
  if n = 0 then [48] else ((Nat.digits 10 n).reverse.map fun d => UInt8.ofNat (48 + d))

def parseDigit (acc : Nat) (b : UInt8) : Option Nat :=
  if 48 ≤ b ∧ b ≤ 57 then some (acc * 10 + (b.toNat - 48)) else none

/-- `None` on an empty string or a byte that is not a digit. -/
def parseDigits : Bytes → Option Nat
  | [] => none
  | bs => bs.foldlM parseDigit 0

/-- The value, if it is in range. -/
def ofInt? (x : Int) : Option I128 :=
  if h : -2 ^ 127 ≤ x ∧ x ≤ 2 ^ 127 - 1 then some ⟨x, h.1, h.2⟩ else none

def toAscii (a : I128) : Bytes :=
  if a.val < 0 then 45 :: natToAscii a.val.natAbs else natToAscii a.val.natAbs

/-- A minus or plus sign and then digits. -/
def parse : Bytes → Option I128
  | [] => none
  | b :: rest =>
      if b = 45 then (parseDigits rest).bind fun n => ofInt? (-(n : Int))
      else if b = 43 then (parseDigits rest).bind fun n => ofInt? n
      else (parseDigits (b :: rest)).bind fun n => ofInt? n

theorem foldlM_digits (ds : List Nat) (hds : ∀ d ∈ ds, d < 10) (acc : Nat) :
    (ds.map fun d => UInt8.ofNat (48 + d)).foldlM parseDigit acc =
      some (acc * 10 ^ ds.length + Nat.ofDigits 10 ds.reverse) := by
  induction ds generalizing acc with
  | nil => simp
  | cons d ds ih =>
      obtain ⟨hd, hds⟩ := List.forall_mem_cons.mp hds
      have hval : (UInt8.ofNat (48 + d)).toNat = 48 + d := UInt8.toNat_ofNat_of_lt (show 48 + d < 256 by omega)
      have hrange : 48 ≤ UInt8.ofNat (48 + d) ∧ UInt8.ofNat (48 + d) ≤ 57 := by
        rw [UInt8.le_iff_toNat_le, UInt8.le_iff_toNat_le, hval]
        simp only [UInt8.reduceToNat]
        omega
      rw [List.map_cons, List.foldlM_cons, parseDigit, if_pos hrange, hval]
      simp only [Option.bind_eq_bind, Option.bind_some]
      rw [ih hds, List.reverse_cons, Nat.ofDigits_append]
      simp only [List.length_cons, List.length_reverse, Nat.ofDigits_singleton, Option.some_inj,
        pow_succ]
      rw [Nat.add_sub_cancel_left]
      ring

theorem parseDigits_natToAscii (n : Nat) : parseDigits (natToAscii n) = some n := by
  unfold natToAscii
  split
  · rename_i hn
    subst hn
    decide
  · rename_i hn
    have hne : Nat.digits 10 n ≠ [] := Nat.digits_ne_nil_iff_ne_zero.mpr hn
    have hfold := foldlM_digits (Nat.digits 10 n).reverse
      (fun d hd => Nat.digits_lt_base (by omega) (List.mem_reverse.mp hd)) 0
    rw [List.reverse_reverse, Nat.ofDigits_digits] at hfold
    unfold parseDigits
    split
    · rename_i h
      simp [hne, hn] at h
    · simpa using hfold

theorem natToAscii_length_le {n k : Nat} (hk : 0 < k) (h : n < 10 ^ k) :
    (natToAscii n).length ≤ k := by
  unfold natToAscii
  split
  · exact hk
  · rw [List.length_map, List.length_reverse]
    exact (Nat.digits_length_le_iff (by omega) n).mpr h

theorem foldlM_lt (bs : Bytes) {acc n : Nat} (h : bs.foldlM parseDigit acc = some n) :
    n < (acc + 1) * 10 ^ bs.length := by
  induction bs generalizing acc with
  | nil =>
      obtain rfl : acc = n := by simpa using h
      simp
  | cons b bs ih =>
      rw [List.foldlM_cons, parseDigit] at h
      split at h
      · rename_i hb
        have hlt := ih h
        have hb2 : b.toNat ≤ 57 := by simpa [UInt8.le_iff_toNat_le] using hb.2
        calc n < (acc * 10 + (b.toNat - 48) + 1) * 10 ^ bs.length := hlt
          _ ≤ ((acc + 1) * 10) * 10 ^ bs.length := Nat.mul_le_mul_right _ (by omega)
          _ = (acc + 1) * 10 ^ (b :: bs).length := by rw [List.length_cons, pow_succ]; ring
      · cases h

theorem natToAscii_length_le_of_parse {bs : Bytes} {n : Nat} (h : parseDigits bs = some n) :
    (natToAscii n).length ≤ bs.length := by
  cases bs with
  | nil => cases h
  | cons b rest =>
      have hlt := foldlM_lt (b :: rest) h
      exact natToAscii_length_le (by simp) (by simpa using hlt)

/-- A printed number starts with a digit, not with a sign. -/
theorem natToAscii_head (n : Nat) :
    ∃ b rest, natToAscii n = b :: rest ∧ b ≠ 45 ∧ b ≠ 43 := by
  have hdigit : ∀ b ∈ natToAscii n, 48 ≤ b := by
    intro b hb
    unfold natToAscii at hb
    split at hb
    · simp only [List.mem_singleton] at hb
      rw [hb]
      decide
    · obtain ⟨d, hd, rfl⟩ := List.mem_map.mp hb
      have hlt : d < 10 := Nat.digits_lt_base (by omega) (List.mem_reverse.mp hd)
      have hval : (UInt8.ofNat (48 + d)).toNat = 48 + d :=
        UInt8.toNat_ofNat_of_lt (show 48 + d < 256 by omega)
      rw [UInt8.le_iff_toNat_le, hval]
      simp only [UInt8.reduceToNat]
      omega
  cases h : natToAscii n with
  | nil =>
      have hparse := parseDigits_natToAscii n
      rw [h] at hparse
      cases hparse
  | cons b rest =>
      have hb := hdigit b (by rw [h]; exact List.mem_cons_self)
      refine ⟨b, rest, rfl, ?_, ?_⟩ <;> rintro rfl <;> exact absurd hb (by decide)

theorem ofInt?_val (a : I128) : ofInt? a.val = some a := by
  rw [ofInt?, dif_pos ⟨a.ge_min, a.le_max⟩]

theorem val_of_ofInt? {x : Int} {a : I128} (h : ofInt? x = some a) : a.val = x := by
  unfold ofInt? at h
  split at h
  · rw [← Option.some_inj.mp h]
  · cases h

theorem parse_toAscii (a : I128) : parse (toAscii a) = some a := by
  unfold toAscii
  split
  · rename_i hneg
    have habs : -(a.val.natAbs : Int) = a.val := by omega
    simp only [parse, if_pos, parseDigits_natToAscii, Option.bind_some, habs, ofInt?_val]
  · rename_i hpos
    have habs : (a.val.natAbs : Int) = a.val := by omega
    obtain ⟨b, rest, hcons, hminus, hplus⟩ := natToAscii_head a.val.natAbs
    have hparse := parseDigits_natToAscii a.val.natAbs
    rw [hcons] at hparse ⊢
    simp only [parse, if_neg hminus, if_neg hplus, hparse, Option.bind_some, habs, ofInt?_val]

theorem toAscii_length_le_of_parse {bs : Bytes} {a : I128} (h : parse bs = some a) :
    (toAscii a).length ≤ bs.length := by
  -- the digits behind the sign, and what they read as
  have hdigits : ∀ {ds : Bytes} {n : Nat}, parseDigits ds = some n → a.val.natAbs = n →
      (natToAscii a.val.natAbs).length ≤ ds.length := by
    rintro ds n hds rfl
    exact natToAscii_length_le_of_parse hds
  cases bs with
  | nil => cases h
  | cons b rest =>
      simp only [parse] at h
      split at h
      · obtain ⟨n, hn, hval⟩ := Option.bind_eq_some_iff.mp h
        have hle := hdigits hn (by rw [val_of_ofInt? hval]; omega)
        unfold toAscii
        split <;> simp only [List.length_cons] <;> omega
      · split at h
        · obtain ⟨n, hn, hval⟩ := Option.bind_eq_some_iff.mp h
          have hle := hdigits hn (by rw [val_of_ofInt? hval]; omega)
          unfold toAscii
          split <;> simp only [List.length_cons] <;> omega
        · obtain ⟨n, hn, hval⟩ := Option.bind_eq_some_iff.mp h
          have hle := hdigits hn (by rw [val_of_ofInt? hval]; omega)
          have hnonneg : ¬ a.val < 0 := by
            rw [val_of_ofInt? hval]
            omega
          rwa [toAscii, if_neg hnonneg]

/-- A signed 128-bit integer as decimal text. -/
def decimalCodec : Codec I128 :=
  Codec.blob.refine parse toAscii parse_toAscii (by
    intro bs a h
    have hle := toAscii_length_le_of_parse h
    have hsize : ∀ bs : Bytes, Codec.blob.size bs = 8 + bs.length := by
      intro bs
      have hcomplete : (Codec.blob.enc bs).length = Codec.blob.size bs := Codec.blob_complete bs
      rw [← hcomplete, Codec.blob_enc, List.length_append, length_leBytes]
    rw [hsize, hsize]
    omega)

@[simp] theorem decimalCodec_complete (a : I128) : decimalCodec.Complete a :=
  Codec.blob_complete _

end I128

end FixedWidth
