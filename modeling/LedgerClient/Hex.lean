import LedgerClient.Text.Quoted

/-!
# Hexadecimal text

Bytes as pairs of hex digits. `encode` writes upper-case digits; `decode` reads either case and
refuses, in this order, an odd number of bytes and the first byte that is no digit. Texts are read
byte by byte, so a character outside ASCII counts once for each byte that it takes.
-/

namespace LedgerClient.Hex

/-- Why a text is not hexadecimal. -/
inductive Fault
  /-- It has an odd number of bytes. -/
  | oddLength
  /-- It has another number of bytes than asked for. -/
  | wrongLength
  /-- The byte at this index is no digit. -/
  | notDigit (byte : UInt8) (index : Nat)
deriving DecidableEq, Repr

def Fault.message : Fault → String
  | .oddLength => "Odd number of digits"
  | .wrongLength => "Invalid string length"
  | .notDigit byte index =>
    "Invalid character " ++ Text.quotedChar (Char.ofNat byte.toNat) ++ " at position " ++
      toString index

/-- The upper-case digit of a number below sixteen. -/
def digit (n : Nat) : Char := Char.ofNat (if n < 10 then 48 + n else 55 + n)

/-- The value of a hex digit of either case. -/
def digitValue? (byte : UInt8) : Option Nat :=
  let n := byte.toNat
  if 48 ≤ n ∧ n ≤ 57 then some (n - 48)
  else if 65 ≤ n ∧ n ≤ 70 then some (n - 55)
  else if 97 ≤ n ∧ n ≤ 102 then some (n - 87)
  else none

/-- The digits of some bytes, two for each. -/
def encodeChars : List UInt8 → List Char
  | [] => []
  | b :: bs => digit (b.toNat / 16) :: digit (b.toNat % 16) :: encodeChars bs

def encode (bytes : List UInt8) : String := String.ofList (encodeChars bytes)

/-- Reads pairs of digits, the first of which stands at `index`. -/
def decodePairs (index : Nat) : List UInt8 → Except Fault (List UInt8)
  | [] => .ok []
  | [_] => .error .oddLength
  | a :: b :: rest =>
    match digitValue? a, digitValue? b with
    | none, _ => .error (.notDigit a index)
    | some _, none => .error (.notDigit b (index + 1))
    | some x, some y =>
      match decodePairs (index + 2) rest with
      | .error fault => .error fault
      | .ok bytes => .ok (UInt8.ofNat (16 * x + y) :: bytes)

def bytesOf (s : String) : List UInt8 := s.toUTF8.toList

def decode (s : String) : Except Fault (List UInt8) :=
  let bytes := bytesOf s
  if bytes.length % 2 = 1 then .error .oddLength else decodePairs 0 bytes

/-- Reads the hexadecimal text of exactly `count` bytes. -/
def decodeExactly (count : Nat) (s : String) : Except Fault (List UInt8) :=
  let bytes := bytesOf s
  if bytes.length % 2 = 1 then .error .oddLength
  else if bytes.length ≠ 2 * count then .error .wrongLength
  else decodePairs 0 bytes

end LedgerClient.Hex
