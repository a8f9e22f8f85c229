/-!
# Double-precision numbers

A double is its 64 bits, so that equality is equality of bits and the number it stands for is a
plain pair of integers: `mantissa * 2 ^ exponent`. `Double.ofParts?` is the value that a decimal
literal stands for.
-/

namespace LedgerClient.Decimal

/-- A finite double-precision number, by its bits. -/
structure Double where
  /-- Sign, eleven bits of exponent, 52 bits of fraction. -/
  bits : UInt64
deriving DecidableEq, Repr

namespace Double

/-- The double of a floating-point value. -/
def ofFloat (x : Float) : Double := ⟨x.toBits⟩

/-- The leading bit of a mantissa, which only its exponent tells. -/
def hiddenBit : Nat := 1 <<< 52

/-- Whether the sign bit is set; it is for `-0.0`. -/
def isNegative (x : Double) : Bool := x.bits.toNat >>> 63 == 1

/-- The exponent field. -/
def biased (x : Double) : Nat := (x.bits.toNat >>> 52) % 2048

/-- The fraction field. -/
def fraction (x : Double) : Nat := x.bits.toNat % hiddenBit

/-- The integer that the power of two multiplies. -/
def mantissa (x : Double) : Nat := if x.biased = 0 then x.fraction else hiddenBit + x.fraction

/-- The power of two that multiplies the mantissa. -/
def exponent (x : Double) : Int := (if x.biased = 0 then 1 else (x.biased : Int)) - 1075

/-- A power of ten up to `10 ^ 308`, rounded to a double. -/
def powerOfTen (k : Nat) : Float := Float.ofScientific 1 false k

/-- A value divided by `10 ^ k`, in steps that doubles can hold. -/
def shrink (x : Float) (k : Nat) : Float :=
  if k ≤ 308 then x / powerOfTen k
  else if x == 0 then x
  else shrink (x / powerOfTen 308) (k - 308)
termination_by k
decreasing_by omega

/-- The magnitude `significand * 10 ^ scale` as literals are read: the significand is rounded to a
double first and then multiplied or divided once for each power of ten that doubles can hold.
There is none when the result is too large. -/
def magnitude? (significand : UInt64) (scale : Int) : Option Float :=
  let x := significand.toFloat
  match scale with
  | .ofNat k =>
    if k ≤ 308 then
      let y := x * powerOfTen k
      if y.isInf then none else some y
    else if x == 0 then some x else none
  | .negSucc k => some (shrink x (k + 1))

/-- The double of a literal with this sign, significand and power of ten. -/
def ofParts? (negative : Bool) (significand : UInt64) (scale : Int) : Option Double :=
  (magnitude? significand scale).map fun x => ofFloat (if negative then -x else x)

end Double

end LedgerClient.Decimal
