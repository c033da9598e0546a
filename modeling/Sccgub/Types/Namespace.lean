import Mathlib
import Sccgub.Types.Transition

/-!
# Trie keys and text

The namespaces of the state trie with the constructors of their keys, and the
three ways bytes appear as text: hexadecimal, UTF-8 with replacement
characters, and the decimal form of a tension value.
-/

namespace Sccgub

open Bincode FixedWidth

def utf8 (s : String) : Bytes := s.toUTF8.data.toList

/-! ## Hexadecimal -/

/-- Lower-case digit, as an ASCII byte. -/
def hexDigit (n : UInt8) : UInt8 := if n < 10 then 48 + n else 87 + n

/-- Value of a digit of either case. -/
def hexValue (b : UInt8) : Option UInt8 :=
  if 48 ≤ b && b ≤ 57 then some (b - 48)
  else if 97 ≤ b && b ≤ 102 then some (b - 87)
  else if 65 ≤ b && b ≤ 70 then some (b - 55)
  else none

def hexBytes (bs : Bytes) : Bytes := bs.flatMap fun b => [hexDigit (b / 16), hexDigit (b % 16)]

/-- Fails on a stray byte or an odd number of digits. -/
def hexDecode : Bytes → Option Bytes
  | [] => some []
  | [_] => none
  | hi :: lo :: rest => do
      let h ← hexValue hi
      let l ← hexValue lo
      let tail ← hexDecode rest
      return (h * 16 + l) :: tail

/-- Lower-case hexadecimal text. -/
def hexEncode (bs : Bytes) : String :=
  String.ofList ((hexBytes bs).map fun b => Char.ofNat b.toNat)

/-! ## UTF-8 with replacement -/

def isContinuation (b : UInt8) : Bool := 0x80 ≤ b && b ≤ 0xBF

/-- Which second bytes may follow a leading byte of three or four. -/
def isSecondByte (first second : UInt8) : Bool :=
  if first = 0xE0 then 0xA0 ≤ second && second ≤ 0xBF
  else if first = 0xED then 0x80 ≤ second && second ≤ 0x9F
  else if first = 0xF0 then 0x90 ≤ second && second ≤ 0xBF
  else if first = 0xF4 then 0x80 ≤ second && second ≤ 0x8F
  else isContinuation second

def joinBits (lead : Nat) (rest : List UInt8) : Char :=
  Char.ofNat (rest.foldl (fun acc b => acc * 64 + (b.toNat - 0x80)) lead)

/-- One character off the front: a well-formed sequence, or the replacement
character for the longest prefix of one. -/
def decodeChar (b : UInt8) (rest : Bytes) : Char × Bytes :=
  let bad := Char.ofNat 0xFFFD
  if b < 0x80 then (Char.ofNat b.toNat, rest)
  else if 0xC2 ≤ b && b ≤ 0xDF then
    match rest with
    | c :: tail => if isContinuation c then (joinBits (b.toNat - 0xC0) [c], tail) else (bad, rest)
    | [] => (bad, rest)
  else if 0xE0 ≤ b && b ≤ 0xEF then
    match rest with
    | c :: tail =>
        if isSecondByte b c then
          match tail with
          | d :: tail' =>
              if isContinuation d then (joinBits (b.toNat - 0xE0) [c, d], tail') else (bad, tail)
          | [] => (bad, tail)
        else (bad, rest)
    | [] => (bad, rest)
  else if 0xF0 ≤ b && b ≤ 0xF4 then
    match rest with
    | c :: tail =>
        if isSecondByte b c then
          match tail with
          | d :: tail' =>
              if isContinuation d then
                match tail' with
                | e :: tail'' =>
                    if isContinuation e then (joinBits (b.toNat - 0xF0) [c, d, e], tail'')
                    else (bad, tail')
                | [] => (bad, tail')
              else (bad, tail)
          | [] => (bad, tail)
        else (bad, rest)
    | [] => (bad, rest)
  else (bad, rest)

/-- Every character takes at least one byte, so the length is fuel enough. -/
def decodeChars : Nat → Bytes → List Char
  | 0, _ => []
  | _, [] => []
  | fuel + 1, b :: rest =>
      let (c, tail) := decodeChar b rest
      c :: decodeChars fuel tail

def fromUtf8Lossy (bs : Bytes) : String := String.ofList (decodeChars bs.length bs)

/-- Whole part, a point, and eighteen digits. -/
def TensionValue.display (t : TensionValue) : String :=
  let whole := t.raw.val.tdiv scale
  let frac := toString (t.raw.val.tmod scale).natAbs
  let padded := String.ofList (List.replicate (18 - frac.length) '0') ++ frac
  if t.raw.val < 0 && whole = 0 then "-0." ++ padded else toString whole ++ "." ++ padded

/-! ## Namespaces -/

def nsSystem : Bytes := utf8 "system/"
def nsBalance : Bytes := utf8 "balance/"
def nsEscrow : Bytes := utf8 "escrow/"
def nsTreasury : Bytes := utf8 "treasury/"
def nsAgents : Bytes := utf8 "agents/"
def nsNorms : Bytes := utf8 "norms/"
def nsConstraints : Bytes := utf8 "constraints/"
def nsContract : Bytes := utf8 "contract/"
def nsData : Bytes := utf8 "data/"

/-- `balance/` and the account in hexadecimal. -/
def balanceKey (agentId : Hash) : Bytes := nsBalance ++ hexBytes agentId.toList

def startsWith (key prefixed : Bytes) : Bool := prefixed.isPrefixOf key

end Sccgub
