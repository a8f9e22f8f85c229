import LedgerClient.Decimal.Double

/-!
# JSON values

The values of JSON as a program keeps them when it has no declared shape for them. Integers that fit
64 bits stay integers and every other number is a double. The members of an object are sorted by
key and no key occurs twice: `Members.insert` keeps both.
-/

namespace LedgerClient.Json

open Decimal (Double)

/-- A number: an integer of at most 64 bits, or a double. -/
inductive Number
  | int (i : Int)
  | double (x : Double)
deriving DecidableEq, Repr

/-- A JSON value. -/
inductive Value
  | null
  | bool (b : Bool)
  | number (n : Number)
  | text (s : String)
  | list (items : List Value)
  | object (members : List (String × Value))
deriving Repr, BEq, Inhabited

/-- The members of an object, sorted by key. -/
abbrev Members := List (String × Value)

namespace Members

/-- Sets the value of a key, replacing the one that it had. -/
def insert (key : String) (value : Value) : Members → Members
  | [] => [(key, value)]
  | (k, v) :: rest =>
    if key < k then (key, value) :: (k, v) :: rest
    else if key = k then (key, value) :: rest
    else (k, v) :: insert key value rest

def erase (key : String) (members : Members) : Members := members.filter (·.1 != key)

def get? (key : String) (members : Members) : Option Value :=
  (members.find? (·.1 == key)).map (·.2)

/-- Members given in any order, a later one replacing an earlier one of the same key. -/
def ofList (pairs : List (String × Value)) : Members :=
  pairs.foldl (fun members p => insert p.1 p.2 members) []

end Members

namespace Value

/-- The member of an object with this key. -/
def get? (key : String) : Value → Option Value
  | .object members => Members.get? key members
  | _ => none

def text? : Value → Option String
  | .text s => some s
  | _ => none

end Value

end LedgerClient.Json
