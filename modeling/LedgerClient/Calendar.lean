/-!
# Dates

`utcText` writes a number of seconds since the beginning of 1970 as a date and time of the
proleptic Gregorian calendar. A year beyond 9999 has a plus sign.
-/

namespace LedgerClient.Calendar

def padded (width n : Nat) : String :=
  let digits := Nat.toDigits 10 n
  String.ofList (List.replicate (width - digits.length) '0' ++ digits)

/-- Year, month and day of a day counted from the first of January 1970. Days are counted in eras of
400 years that begin on the first of March of the year zero. -/
def date (day : Nat) : Nat × Nat × Nat :=
  let z := day + 719468
  let era := z / 146097
  let dayOfEra := z % 146097
  let yearOfEra := (dayOfEra - dayOfEra / 1460 + dayOfEra / 36524 - dayOfEra / 146096) / 365
  let dayOfYear := dayOfEra - (365 * yearOfEra + yearOfEra / 4 - yearOfEra / 100)
  let monthFromMarch := (5 * dayOfYear + 2) / 153
  let day := dayOfYear - (153 * monthFromMarch + 2) / 5 + 1
  let month := if monthFromMarch < 10 then monthFromMarch + 3 else monthFromMarch - 9
  let year := yearOfEra + era * 400 + (if month ≤ 2 then 1 else 0)
  (year, month, day)

def yearText (year : Nat) : String :=
  (if 9999 < year then "+" else "") ++ padded 4 year

/-- The date and time `seconds` after the beginning of 1970, in UTC. -/
def utcText (seconds : Nat) : String :=
  let (year, month, day) := date (seconds / 86400)
  let time := seconds % 86400
  yearText year ++ "-" ++ padded 2 month ++ "-" ++ padded 2 day ++ "T" ++
    padded 2 (time / 3600) ++ ":" ++ padded 2 (time / 60 % 60) ++ ":" ++ padded 2 (time % 60) ++
    "+00:00"

/-- The last second that has a date: the end of the year 262142. -/
def lastSecond : Nat := 8210266876799

end LedgerClient.Calendar
