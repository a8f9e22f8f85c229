import LedgerClient.Text.LowerCase.Table

/-!
# Lower case

`lower` maps a text to lower case by the rules of Unicode: most capitals have one lower-case
partner, a dotted capital I becomes an i and a dot above it, and a capital sigma at the end of a
word takes its final shape.
-/

namespace LedgerClient.Text

namespace LowerCase

/-- Whether a code point lies in one of some ranges. -/
def inRanges (ranges : List (Nat × Nat)) (n : Nat) : Bool :=
  ranges.any fun r => r.1 ≤ n && n ≤ r.2

/-- The lower-case partner of a code point outside ASCII, itself if it has none. -/
def partner (n : Nat) : Nat :=
  let isIn : Nat × Nat × Nat × Nat → Bool := fun (first, last, step, _) =>
    first ≤ n && n ≤ last && (n - first) % step == 0
  match runs.find? isIn with
  | some (first, _, _, low) => low + (n - first)
  | none => n

/-- Whether a letter of either case; those that `isIgnorable` skips do not count. -/
def isCased (c : Char) : Bool := inRanges casedRanges c.toNat

/-- Whether a mark or sign that stands inside words without having a case. -/
def isIgnorable (c : Char) : Bool := inRanges ignorableRanges c.toNat

/-- Whether the first character that counts is a letter with a case. -/
def meetsCased (cs : List Char) : Bool :=
  match cs.dropWhile isIgnorable with
  | [] => false
  | c :: _ => isCased c

/-- The lower-case form of a character other than a capital sigma. -/
def single (c : Char) : List Char :=
  if c.toNat < 0x80 then [c.toLower]
  else if c.toNat = 0x130 then ['i', Char.ofNat 0x307]
  else [Char.ofNat (partner c.toNat)]

end LowerCase

/-- A text in lower case; `before` holds, last first, what stands before it. -/
def lowerAfter (before : List Char) : List Char → List Char
  | [] => []
  | c :: cs =>
    let low :=
      if c.toNat = 0x3A3 then
        let isLast := LowerCase.meetsCased before && !LowerCase.meetsCased cs
        [Char.ofNat (if isLast then 0x3C2 else 0x3C3)]
      else LowerCase.single c
    low ++ lowerAfter (c :: before) cs

def lower (cs : List Char) : List Char := lowerAfter [] cs

end LedgerClient.Text
