import LedgerClient.Decimal.Double

/-!
# The shortest decimal of a double

`shortest x` is the decimal with the fewest digits that reads back as the double `x`, and of those
the one nearest to it. A decimal reads back when it lies in the interval of numbers that round to
`x`; the ends belong to the interval when the mantissa is even. On a grid of decimals only the two
neighbours of `x` have to be looked at, so one grid after the other is tried, one digit finer each
time, and seventeen digits are always enough.
-/

namespace LedgerClient.Decimal

/-- The number `digits * 10 ^ scale`. -/
structure Scaled where
  digits : Nat
  scale : Int
deriving DecidableEq, Repr

/-- A positive double as quarters of its last place, `value * 2 ^ shift`, with the ends of the
interval of numbers that round to it. -/
structure Interval where
  low : Nat
  value : Nat
  high : Nat
  shift : Int
  /-- Whether the ends round to the double too. -/
  closed : Bool

/-- The interval of a double. Below a power of two the doubles lie twice as dense. -/
def Interval.of (x : Double) : Interval :=
  let m := x.mantissa
  { low := if x.fraction = 0 ∧ 1 < x.biased then 4 * m - 1 else 4 * m - 2
    value := 4 * m
    high := 4 * m + 2
    shift := x.exponent - 2
    closed := m % 2 == 0 }

namespace Interval

/-- Numerator and denominator of the factor from quarters to the grid `10 ^ scale`. -/
def factor (i : Interval) (scale : Int) : Nat × Nat :=
  (Nat.pow 10 (-scale).toNat <<< i.shift.toNat, Nat.pow 10 scale.toNat <<< (-i.shift).toNat)

/-- Whether the decimal `n * 10 ^ scale` rounds to the double. -/
def holds (i : Interval) (scale : Int) (n : Nat) : Bool :=
  let (num, den) := i.factor scale
  if i.closed then i.low * num ≤ n * den && n * den ≤ i.high * num
  else i.low * num < n * den && n * den < i.high * num

/-- The decimal of the grid `10 ^ scale` that rounds to the double and lies nearest to it. -/
def onGrid? (i : Interval) (scale : Int) : Option Nat :=
  let (num, den) := i.factor scale
  let below := i.value * num / den
  let above := below + 1
  let toBelow := i.value * num - below * den
  let toAbove := above * den - i.value * num
  match i.holds scale below, i.holds scale above with
  | true, true =>
    some (if toBelow < toAbove ∨ (toBelow = toAbove ∧ below % 2 = 0) then below else above)
  | true, false => some below
  | false, true => some above
  | false, false => none

/-- The power of ten of the leading digit. -/
def leading (i : Interval) : Int :=
  let (num, den) := i.factor (-400)
  ((Nat.toDigits 10 (i.value * num / den)).length : Int) - 401

/-- Tries `count` grids, the first of them with `10 ^ scale`. -/
def search (i : Interval) : (count : Nat) → (scale : Int) → Scaled
  | 0, scale => ⟨i.value * (i.factor scale).1 / (i.factor scale).2, scale⟩
  | count + 1, scale =>
    match i.onGrid? scale with
    | some n => ⟨n, scale⟩
    | none => i.search count (scale - 1)

end Interval

/-- The shortest decimal that reads back as a double other than zero. -/
def shortest (x : Double) : Scaled :=
  let i := Interval.of x
  i.search 17 i.leading

end LedgerClient.Decimal
