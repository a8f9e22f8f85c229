import LedgerClient.SystemError

/-!
# Files

What a program may read. The file system is a function from names to contents, so that reading is
an ordinary function too.
-/

namespace LedgerClient

/-- The files that can be read, by their names. -/
abbrev Files := String → Except SystemError (List UInt8)

/-- Why a file cannot be read. -/
inductive FileError
  | system (e : SystemError)
  /-- The name holds the character that ends names. -/
  | nulInName
  | notText
deriving DecidableEq, Repr

namespace FileError

def message : FileError → String
  | .system e => e.message
  | .nulInName => "file name contained an unexpected NUL byte"
  | .notText => "stream did not contain valid UTF-8"

def inspect : FileError → String
  | .system e => e.inspect
  | .nulInName =>
    Text.Inspect.named "Error"
      [("kind", "InvalidInput"), ("message", Text.quoted FileError.nulInName.message)]
  | .notText =>
    Text.Inspect.named "Error"
      [("kind", "InvalidData"), ("message", Text.quoted FileError.notText.message)]

end FileError

namespace Files

def empty : Files := fun _ => .error .fileNotFound

def read (files : Files) (name : String) : Except FileError (List UInt8) :=
  if name.toList.contains '\x00' then .error .nulInName else (files name).mapError .system

def readText (files : Files) (name : String) : Except FileError String :=
  match files.read name with
  | .error e => .error e
  | .ok bytes =>
    match String.fromUTF8? ⟨bytes.toArray⟩ with
    | some text => .ok text
    | none => .error .notText

end Files

end LedgerClient
