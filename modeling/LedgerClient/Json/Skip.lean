import LedgerClient.Json.Literal.Text
import LedgerClient.Json.Literal.Number

/-!
# Passing over a JSON value

`skip` gives the text behind a value that nobody wants. It keeps only the stack of containers that
are open, so nesting is bounded by nothing but the text, and numbers and surrogates are not judged.
-/

namespace LedgerClient.Json

/-- A container that has been opened. -/
inductive Container
  | list
  | object
deriving DecidableEq, Repr

namespace Container

def close : Container → Char
  | .list => ']'
  | .object => '\x7d'

def unclosed : Container → Cause
  | .list => .endInList
  | .object => .endInObject

/-- Neither a comma nor the end of the container follows a value. -/
def endExpected : Container → Cause
  | .list => .itemEndExpected
  | .object => .memberEndExpected

end Container

def colon (cs : List Char) : Except Stop (List Char) :=
  match dropSpace cs with
  | [] => fail .endInObject []
  | c :: rest => if c = ':' then .ok rest else failNext .colonExpected (c :: rest)

/-- The text where the next value of a container begins: in an object a key comes first. -/
def skipToValue : Container → List Char → Except Stop (List Char)
  | .list, cs => .ok cs
  | .object, cs =>
    match dropSpace cs with
    | [] => fail .endInObject []
    | c :: rest =>
      if c = '"' then
        match skipText rest with
        | .error stop => .error stop
        | .ok rest => colon rest
      else failNext .keyNotString (c :: rest)

/-- What stands at the beginning of a value. -/
inductive Opening
  /-- A value without parts, and the text behind it. -/
  | scalar (rest : List Char)
  /-- A container and the text behind its bracket. -/
  | container (kind : Container) (rest : List Char)

/-- Looks at the beginning of a value and passes over one without parts. -/
def skipOpening (cs : List Char) : Except Stop Opening :=
  match dropSpace cs with
  | [] => fail .endInValue []
  | c :: rest =>
    if c = 'n' then (word ['u', 'l', 'l'] rest).map .scalar
    else if c = 't' then (word ['r', 'u', 'e'] rest).map .scalar
    else if c = 'f' then (word ['a', 'l', 's', 'e'] rest).map .scalar
    else if c = '"' then (skipText rest).map .scalar
    else if c = '-' ∨ isDigit c then (skipNumber (c :: rest)).map .scalar
    else if c = '[' then .ok (.container .list rest)
    else if c = '\x7b' then .ok (.container .object rest)
    else failNext .valueExpected (c :: rest)

/-- The text behind the value that the innermost of the `open` containers is part of. `behind` tells
whether one of its values has just been read or one is due. -/
def skipWithin : (bound : List Char) → (opened : List Container) → (behind : Bool) → List Char →
    Except Stop (List Char)
  | _, [], true, cs => .ok cs
  | [], _, _, cs => fail .endInValue cs
  | _ :: bound, kind :: opened, true, cs =>
    match dropSpace cs with
    | [] => fail kind.unclosed []
    | c :: rest =>
      if c = ',' then
        match skipToValue kind rest with
        | .error stop => .error stop
        | .ok rest => skipWithin bound (kind :: opened) false rest
      else if c = kind.close then skipWithin bound opened true rest
      else failNext kind.endExpected (c :: rest)
  | _ :: bound, opened, false, cs =>
    match skipOpening cs with
    | .error stop => .error stop
    | .ok (.scalar rest) => skipWithin bound opened true rest
    | .ok (.container kind rest) =>
      match dropSpace rest with
      | [] => fail kind.unclosed []
      | c :: more =>
        if c = kind.close then skipWithin bound opened true more
        else match skipToValue kind (c :: more) with
          | .error stop => .error stop
          | .ok rest => skipWithin bound (kind :: opened) false rest

def skip (cs : List Char) : Except Stop (List Char) := skipWithin (' ' :: cs) [] false cs

end LedgerClient.Json
