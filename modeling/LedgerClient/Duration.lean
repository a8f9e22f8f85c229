/-!
# Durations

A length of time in whole nanoseconds. `Duration.text` is how messages show one: in the largest of
the units s, ms, µs and ns that it fills, with as many decimals as it has and no trailing zeros.
-/

namespace LedgerClient

/-- A length of time. -/
structure Duration where
  nanos : Nat
deriving DecidableEq, Repr

namespace Duration

def perSecond : Nat := 1000000000

def perMilli : Nat := 1000000

def ofSeconds (n : Nat) : Duration := ⟨n * perSecond⟩

def ofMillis (n : Nat) : Duration := ⟨n * perMilli⟩

def seconds (d : Duration) : Nat := d.nanos / perSecond

def subsecond (d : Duration) : Nat := d.nanos % perSecond

def isZero (d : Duration) : Bool := d.nanos == 0

/-- The longest duration: its seconds fit 64 bits. -/
def limit : Duration := ⟨UInt64.size * perSecond - 1⟩

/-- Whether a duration can be held: its seconds fit 64 bits. -/
def isHeld (d : Duration) : Bool := d.nanos ≤ limit.nanos

/-- A digit `0` to `9` repeated at the end of a text is dropped when it is zero. -/
def dropTrailingZeros (cs : List Char) : List Char :=
  (cs.reverse.dropWhile (· == '0')).reverse

/-- The decimals of `part / 10 ^ places`, with the point before them; nothing for zero. -/
def decimals (part places : Nat) : String :=
  if part = 0 then "" else
    let digits := (Nat.toDigits 10 part)
    let padded := List.replicate (places - digits.length) '0' ++ digits
    "." ++ String.ofList (dropTrailingZeros padded)

def text (d : Duration) : String :=
  if d.nanos ≥ perSecond then toString d.seconds ++ decimals d.subsecond 9 ++ "s"
  else if d.nanos ≥ perMilli then
    toString (d.nanos / perMilli) ++ decimals (d.nanos % perMilli) 6 ++ "ms"
  else if d.nanos ≥ 1000 then toString (d.nanos / 1000) ++ decimals (d.nanos % 1000) 3 ++ "µs"
  else toString d.nanos ++ "ns"

end Duration

end LedgerClient
