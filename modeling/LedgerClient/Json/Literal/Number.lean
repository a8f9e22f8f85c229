import LedgerClient.Json.Literal.Word

/-!
# Numbers in a JSON text

`readNumber` reads a number. One without fraction and exponent that fits 64 bits is an integer, all
others are doubles: the digits go into a 64-bit significand while it has room, the rest only move
the point, and the value is rounded as `Double.ofParts?` says. `skipNumber` passes over a number of
any size.
-/

namespace LedgerClient.Json

open Decimal (Double)

def digitValue (c : Char) : Nat := c.toNat - 48

def digitsOf (cs : List Char) : List Char := cs.takeWhile isDigit

def afterDigits (cs : List Char) : List Char := cs.dropWhile isDigit

/-- The digits of a number as they are taken in: those that the significand has no room for are
dropped. The decimal point stands `scale` places to the right of the significand's last digit. -/
structure Significand where
  value : Nat
  scale : Int
  /-- Whether a digit had to be dropped. -/
  full : Bool
deriving DecidableEq, Repr

namespace Significand

def zero : Significand := ⟨0, 0, false⟩

/-- Takes in a digit left of the point. -/
def whole (s : Significand) (c : Char) : Significand :=
  let next := s.value * 10 + digitValue c
  if s.full = false ∧ next < UInt64.size then ⟨next, s.scale, false⟩
  else ⟨s.value, s.scale + 1, true⟩

/-- Takes in a digit right of the point. -/
def part (s : Significand) (c : Char) : Significand :=
  let next := s.value * 10 + digitValue c
  if s.full = false ∧ next < UInt64.size then ⟨next, s.scale - 1, false⟩
  else { s with full := true }

/-- The digits of a fraction, taken in behind those left of the point. -/
def parts (s : Significand) (digits : List Char) : Significand :=
  digits.foldl part { s with full := false }

end Significand

/-- The double of a number whose text ends before `rest`. -/
def double (negative : Bool) (s : Significand) (scale : Int) (rest : List Char) : Step Number :=
  match Double.ofParts? negative s.value.toUInt64 scale with
  | some x => .ok (.double x, rest)
  | none => fail .numberOutOfRange rest

/-- The digits of an exponent: their value, or the text behind the digit with which it leaves 31
bits. -/
def exponentDigits : (value : Nat) → List Char → Except (List Char) Nat
  | value, [] => .ok value
  | value, c :: cs =>
    if isDigit c then
      let next := value * 10 + digitValue c
      if next < 1 <<< 31 then exponentDigits next cs else .error cs
    else .ok value

/-- Reads an exponent from behind its letter on. -/
def readExponent (negative : Bool) (s : Significand) (cs : List Char) : Step Number :=
  let (down, digits) := match cs with
    | '-' :: r => (true, r)
    | '+' :: r => (false, r)
    | r => (false, r)
  match digits with
  | [] => fail .endInValue []
  | c :: _ =>
    if isDigit c then
      match exponentDigits 0 digits with
      | .ok e => double negative s (if down then s.scale - e else s.scale + e) (afterDigits digits)
      | .error behind =>
        if s.value ≠ 0 ∧ down = false then fail .numberOutOfRange behind
        else double negative Significand.zero 0 (afterDigits digits)
    else failNext .invalidNumber digits

/-- Reads a fraction from behind its point on. -/
def readFraction (negative : Bool) (s : Significand) (cs : List Char) : Step Number :=
  if digitsOf cs = [] then
    if cs = [] then fail .endInValue [] else failNext .invalidNumber cs
  else
    let s := s.parts (digitsOf cs)
    match afterDigits cs with
    | 'e' :: rest | 'E' :: rest => readExponent negative s rest
    | rest => double negative s s.scale rest

/-- The number without fraction and exponent: an integer if it fits, and never `-0`. -/
def wholeNumber (negative : Bool) (s : Significand) (rest : List Char) : Step Number :=
  if s.full then double negative s s.scale rest
  else if negative then
    if s.value = 0 ∨ 1 <<< 63 < s.value then double true s 0 rest
    else .ok (.int (-(s.value : Int)), rest)
  else .ok (.int s.value, rest)

/-- Reads a number from behind its digits left of the point on. -/
def readAfterWhole (negative : Bool) (s : Significand) : List Char → Step Number
  | '.' :: rest => readFraction negative s rest
  | 'e' :: rest | 'E' :: rest => readExponent negative s rest
  | rest => wholeNumber negative s rest

/-- Reads a number from behind its sign on. -/
def readUnsigned (negative : Bool) : List Char → Step Number
  | [] => fail .endInValue []
  | c :: cs =>
    if c = '0' then
      if digitsOf cs = [] then readAfterWhole negative .zero cs else failNext .invalidNumber cs
    else if isDigit c then
      readAfterWhole negative ((digitsOf (c :: cs)).foldl Significand.whole .zero)
        (afterDigits (c :: cs))
    else failNext .invalidNumber (c :: cs)

/-- Reads a number that begins with a digit or a minus sign. -/
def readNumber : List Char → Step Number
  | '-' :: cs => readUnsigned true cs
  | cs => readUnsigned false cs

/-- The text behind an exponent, from behind its letter on. -/
def skipExponent (cs : List Char) : Except Stop (List Char) :=
  let digits := match cs with
    | '-' :: r => r
    | '+' :: r => r
    | r => r
  if digitsOf digits = [] then failNext .invalidNumber digits else .ok (afterDigits digits)

/-- The text behind a fraction and the exponent after it, from behind the point on. -/
def skipFraction (cs : List Char) : Except Stop (List Char) :=
  if digitsOf cs = [] then failNext .invalidNumber cs
  else match afterDigits cs with
    | 'e' :: rest | 'E' :: rest => skipExponent rest
    | rest => .ok rest

/-- The text behind the parts of a number that follow the digits left of the point. -/
def skipAfterWhole : List Char → Except Stop (List Char)
  | '.' :: rest => skipFraction rest
  | 'e' :: rest | 'E' :: rest => skipExponent rest
  | rest => .ok rest

/-- The text behind a number, from behind its sign on. -/
def skipUnsigned : List Char → Except Stop (List Char)
  | [] => failNext .invalidNumber []
  | c :: cs =>
    if c = '0' then
      if digitsOf cs = [] then skipAfterWhole cs else failNext .invalidNumber cs
    else if isDigit c then skipAfterWhole (afterDigits cs)
    else failNext .invalidNumber (c :: cs)

/-- The text behind a number that begins with a digit or a minus sign. -/
def skipNumber : List Char → Except Stop (List Char)
  | '-' :: cs => skipUnsigned cs
  | cs => skipUnsigned cs

end LedgerClient.Json
