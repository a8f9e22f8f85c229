import LedgerClient.Text.Blank

/-!
# Addresses of resources

`Uri.parse` splits a text into a scheme, an authority, a path and a query; a fragment is checked for
nothing and left out. The authority holds user information, a host and a port, of which the host may
be in brackets; the path may hold characters beyond ASCII.
-/

namespace LedgerClient

/-- What is wrong with a text that should be an address. -/
inductive Uri.Fault
  | empty
  | tooLong
  | schemeTooLong
  | invalidCharacter
  | invalidAuthority
  | invalidFormat
deriving DecidableEq, Repr

def Uri.Fault.message : Uri.Fault → String
  | .empty => "empty string"
  | .tooLong => "uri too long"
  | .schemeTooLong => "scheme too long"
  | .invalidCharacter => "invalid uri character"
  | .invalidAuthority => "invalid authority"
  | .invalidFormat => "invalid format"

/-- The address of a resource. -/
structure Uri where
  scheme : Option String
  authority : List Char
  path : List Char
  query : Option (List Char)
deriving DecidableEq, Repr

namespace Uri

/-! ## Characters -/

/-- Whether a character may be in a scheme. -/
def isSchemeChar (c : Char) : Bool := c.isAlphanum || "+-.~".contains c

/-- Whether a character may be in an authority. -/
def isAuthorityChar (c : Char) : Bool := c.isAlphanum || "!$&'()*+,-.:;=@[]_~%".contains c

def endsAuthority (c : Char) : Bool := c = '/' || c = '?' || c = '#'

/-- Whether a character may be in a path. -/
def isPathChar (c : Char) : Bool :=
  0x7F ≤ c.toNat || (0x20 < c.toNat && !"#<>?".contains c && c ≠ '\x60')

/-- Whether a character may be in a query. -/
def isQueryChar (c : Char) : Bool := 0x20 < c.toNat && !"\"#<>".contains c

/-! ## Schemes -/

def maxScheme : Nat := 64

/-- The scheme of a text and what is behind it; `http` and `https` are known in any case of
letters. -/
def splitScheme (cs : List Char) : Except Fault (Option String × List Char) :=
  let name := cs.takeWhile isSchemeChar
  match Text.stripStart? [':', '/', '/'] (cs.dropWhile isSchemeChar) with
  | none => .ok (none, cs)
  | some rest =>
    let lower := String.ofList (name.map Char.toLower)
    if lower = "http" ∨ lower = "https" then .ok (some lower, rest)
    else if cs.length ≤ 3 then .ok (none, cs)
    else if maxScheme < name.length then .error .schemeTooLong
    else .ok (some (String.ofList name), rest)

/-! ## Authorities -/

/-- What has been seen of an authority. The count of colons and the percent sign are forgotten where
user information or a bracketed host ends. -/
structure Seen where
  colons : Nat
  opened : Bool
  closed : Bool
  percent : Bool
  /-- Whether the last character is an at sign. -/
  atSign : Bool
deriving DecidableEq, Repr

/-- At most so many colons are in a bracketed host and before a port. -/
def maxColons : Nat := 8

def look (seen : Seen) (c : Char) : Except Fault Seen :=
  let next := { seen with atSign := false }
  if !isAuthorityChar c then .error .invalidCharacter
  else if c = ':' then
    if maxColons ≤ seen.colons then .error .invalidAuthority
    else .ok { next with colons := seen.colons + 1 }
  else if c = '[' then
    if seen.percent || seen.opened then .error .invalidAuthority
    else .ok { next with opened := true }
  else if c = ']' then
    if !seen.opened || seen.closed then .error .invalidAuthority
    else .ok { next with closed := true, colons := 0, percent := false }
  else if c = '@' then .ok { next with colons := 0, percent := false, atSign := true }
  else if c = '%' then .ok { next with percent := true }
  else .ok next

/-- Checks the characters of an authority and splits it from what is behind it. -/
def splitAuthority (cs : List Char) : Except Fault (List Char × List Char) :=
  let authority := cs.takeWhile (!endsAuthority ·)
  match authority.foldlM look ⟨0, false, false, false, false⟩ with
  | .error fault => .error fault
  | .ok seen =>
    if seen.opened != seen.closed || 1 < seen.colons || seen.atSign || seen.percent then
      .error .invalidAuthority
    else .ok (authority, cs.dropWhile (!endsAuthority ·))

/-! ## Paths -/

/-- Splits a path and a query from what is behind an authority. -/
def splitPath (cs : List Char) : Except Fault (List Char × Option (List Char)) :=
  let path := cs.takeWhile isPathChar
  match cs.dropWhile isPathChar with
  | [] => .ok (path, none)
  | c :: rest =>
    if c = '#' then .ok (path, none)
    else if c = '?' then
      match rest.dropWhile isQueryChar with
      | [] => .ok (path, some (rest.takeWhile isQueryChar))
      | d :: _ =>
        if d = '#' then .ok (path, some (rest.takeWhile isQueryChar)) else .error .invalidCharacter
    else .error .invalidCharacter

def ofPath (scheme : Option String) (authority : List Char) (cs : List Char) : Except Fault Uri :=
  match splitPath cs with
  | .error fault => .error fault
  | .ok (path, query) => .ok ⟨scheme, authority, if path.isEmpty then ['/'] else path, query⟩

def maxLength : Nat := 65534

/-- Splits an address with a scheme, or one that is only an authority. -/
def parseFull (cs : List Char) : Except Fault Uri :=
  match splitScheme cs with
  | .error fault => .error fault
  | .ok (scheme, rest) =>
    if rest.isEmpty then .error .empty
    else match splitAuthority rest with
      | .error fault => .error fault
      | .ok (authority, behind) =>
        if scheme.isNone then
          if behind.isEmpty then .ok ⟨none, authority, [], none⟩
          else if cs.length = 1 then .error .invalidCharacter
          else .error .invalidFormat
        else if authority.isEmpty then .error .invalidFormat
        else ofPath scheme authority behind

def parse (s : String) : Except Fault Uri :=
  let cs := s.toList
  if maxLength < s.utf8ByteSize then .error .tooLong
  else match cs with
    | [] => .error .empty
    | ['*'] => .ok ⟨none, [], ['*'], none⟩
    | '/' :: _ => ofPath none [] cs
    | _ => parseFull cs

/-! ## Hosts and ports -/

/-- What follows the last occurrence of a character, if there is one. -/
def afterLast? (c : Char) (cs : List Char) : Option (List Char) :=
  if cs.contains c then some (cs.reverse.takeWhile (· ≠ c)).reverse else none

/-- The host of an authority, with its brackets. -/
def host (u : Uri) : List Char :=
  let hostPort := (afterLast? '@' u.authority).getD u.authority
  match hostPort with
  | '[' :: _ => hostPort.takeWhile (· ≠ ']') ++ [']']
  | _ => hostPort.takeWhile (· ≠ ':')

/-- The number that digits stand for, if it fits 16 bits. A plus sign may come before them. -/
def portNumber? (cs : List Char) : Option Nat :=
  let digits := (Text.stripStart? ['+'] cs).getD cs
  if digits.isEmpty || !digits.all Char.isDigit then none
  else
    let n := digits.foldl (fun n c => 10 * n + (c.toNat - 48)) 0
    if n < UInt16.size then some n else none

def port? (u : Uri) : Option Nat := (afterLast? ':' u.authority).bind portNumber?

end Uri

end LedgerClient
