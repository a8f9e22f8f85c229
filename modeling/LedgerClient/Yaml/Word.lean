/-!
# What a plain text means

A plain scalar stands for nothing, a truth value, a number or itself. Numbers are written in
decimal, hexadecimal, octal or binary digits, or with a fraction and an exponent; more than one
decimal digit after a leading zero makes no number.
-/

namespace LedgerClient.Yaml

/-- A text behind a beginning. -/
def behind? : List Char → List Char → Option (List Char)
  | [], cs => some cs
  | _ :: _, [] => none
  | p :: ps, c :: cs => if p = c then behind? ps cs else none

/-- Whether a text stands for nothing; so does the empty text where nothing is written. -/
def isNullWord (s : String) : Bool := ["null", "Null", "NULL", "~"].contains s

/-- Whether a text is a truth value. -/
def isTruthWord (s : String) : Bool :=
  ["true", "True", "TRUE", "false", "False", "FALSE"].contains s

/-! ## Whole numbers -/

/-- The value of a digit in some base. -/
def digitIn? (base : Nat) (c : Char) : Option Nat :=
  let n := c.toNat
  let value? :=
    if 48 ≤ n ∧ n ≤ 57 then some (n - 48)
    else if 65 ≤ n ∧ n ≤ 70 then some (n - 55)
    else if 97 ≤ n ∧ n ≤ 102 then some (n - 87)
    else none
  value?.filter (· < base)

/-- The number that digits stand for, of which there is at least one. -/
def digits? (base : Nat) (cs : List Char) : Option Nat :=
  if cs.isEmpty then none
  else cs.foldlM (fun n c => (digitIn? base c).map (base * n + ·)) 0

/-- A text without its sign. -/
def unsigned : List Char → List Char
  | '+' :: cs => cs
  | '-' :: cs => cs
  | cs => cs

/-- Whether a text is digits with a leading zero. -/
def isZeroLed (cs : List Char) : Bool :=
  match unsigned cs with
  | '0' :: c :: cs => (c :: cs).all Char.isDigit
  | _ => false

/-- The ways to announce the digits of a base. -/
def bases : List (List Char × Nat) := [(['0', 'x'], 16), (['0', 'o'], 8), (['0', 'b'], 2)]

/-- The number of a text that has no sign. -/
def magnitude? (cs : List Char) : Option Nat :=
  match bases.findSome? fun (start, base) => (behind? start cs).bind (digits? base) with
  | some n => some n
  | none => if isZeroLed cs then none else digits? 10 cs

/-- The number of a text, which may have a plus sign and is at most `limit`. -/
def natural? (limit : Nat) (s : String) : Option Nat :=
  let cs := match s.toList with
    | '+' :: cs => cs
    | cs => cs
  (magnitude? cs).filter (· ≤ limit)

/-- Whether a text is a whole number of at most 128 bits. -/
def isInteger (s : String) : Bool :=
  match s.toList with
  | '-' :: cs => ((magnitude? cs).filter (· ≤ 1 <<< 127)).isSome
  | _ => (natural? ((1 <<< 128) - 1) s).isSome

/-! ## Other numbers -/

/-- The first number that is too large for a double. -/
def tooLarge : Nat := (1 <<< 1024) - (1 <<< 970)

/-- Whether `n * 10 ^ scale` is held by a double. -/
def fitsDouble (n : Nat) (scale : Int) : Bool :=
  let places := (Nat.toDigits 10 n).length + scale
  if n = 0 ∨ places ≤ 308 then true
  else if 309 < places then false
  else n * Nat.pow 10 scale.toNat < tooLarge * Nat.pow 10 (-scale).toNat

/-- The exponent that a text is: none at all, or a letter, a sign and digits. -/
def exponent? : List Char → Option Int
  | [] => some 0
  | c :: cs =>
    if c = 'e' ∨ c = 'E' then
      (digits? 10 (unsigned cs)).map fun n => if cs.head? = some '-' then -(n : Int) else n
    else none

/-- Whether a text without a sign is a decimal number that a double holds. -/
def isDecimal (cs : List Char) : Bool :=
  let whole := cs.takeWhile Char.isDigit
  let rest := cs.dropWhile Char.isDigit
  let (part, rest) := match rest with
    | '.' :: rest => (rest.takeWhile Char.isDigit, rest.dropWhile Char.isDigit)
    | rest => ([], rest)
  match digits? 10 (whole ++ part), exponent? rest with
  | some n, some e => fitsDouble n (e - part.length)
  | _, _ => false

/-- Whether a text is a number with a fraction or an exponent, an infinity, or no number. -/
def isFloat (s : String) : Bool :=
  [".inf", ".Inf", ".INF", "+.inf", "+.Inf", "+.INF", "-.inf", "-.Inf", "-.INF", ".nan", ".NaN",
    ".NAN"].contains s || isDecimal (unsigned s.toList)

/-- Whether a text means something else than itself when it is plain, or did so once. -/
def isMeaning (s : String) : Bool :=
  s.isEmpty || isNullWord s || isTruthWord s || isInteger s || isZeroLed s.toList || isFloat s

end LedgerClient.Yaml
