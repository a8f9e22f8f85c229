import LedgerClient.Decimal.Shortest

/-!
# Decimal notation

How a decimal is laid out: which magnitudes are written positionally, and what an exponent looks
like. The layout is one `Notation` value, `Notation.plain` being the one of JSON texts.
-/

namespace LedgerClient.Decimal

/-- A layout of decimals. -/
structure Notation where
  /-- The least power of ten of a leading digit that is still written positionally. -/
  least : Int
  /-- The first power of ten that is no longer written positionally. -/
  beyond : Int
  /-- What stands before an exponent that is not negative. -/
  positiveMark : String

/-- Positional from `10 ^ -5` to below `10 ^ 16`, and else with a signed exponent. -/
def Notation.plain : Notation := ⟨-5, 16, "+"⟩

/-- The digits of a decimal without the zeros it ends with, which go into the scale. -/
def Scaled.trimmed (d : Scaled) : List Char × Int :=
  let digits := Nat.toDigits 10 d.digits
  let kept := (digits.reverse.dropWhile (· == '0')).reverse
  (kept, d.scale + (digits.length - kept.length : Nat))

/-- The significant digits `digits`, the last of which counts `10 ^ scale`. -/
def Notation.layout (n : Notation) (digits : List Char) (scale : Int) : List Char :=
  let point := (digits.length : Int) + scale
  if n.least < point ∧ point ≤ n.beyond then
    if 0 ≤ scale then digits ++ List.replicate scale.toNat '0' ++ ['.', '0']
    else if 0 < point then digits.take point.toNat ++ '.' :: digits.drop point.toNat
    else '0' :: '.' :: List.replicate (-point).toNat '0' ++ digits
  else
    let power := point - 1
    let mark := if power < 0 then "-" else n.positiveMark
    let head := match digits with
      | [] => []
      | [d] => [d]
      | d :: rest => d :: '.' :: rest
    head ++ 'e' :: mark.toList ++ (toString power.natAbs).toList

/-- The text of a double. -/
def Notation.text (n : Notation) (x : Double) : List Char :=
  let sign := if x.isNegative then ['-'] else []
  if x.mantissa = 0 then sign ++ ['0', '.', '0']
  else
    let (digits, scale) := (shortest x).trimmed
    sign ++ n.layout digits scale

end LedgerClient.Decimal
