import LedgerClient.Text.Inspect

/-!
# Errors of the operating system

What the system reports when a connection or a file cannot be opened: a number, the kind of the
error and a text.
-/

namespace LedgerClient

/-- An error that the operating system reports. -/
structure SystemError where
  code : Nat
  kind : String
  text : String
deriving DecidableEq, Repr

namespace SystemError

def message (e : SystemError) : String := e.text ++ " (os error " ++ toString e.code ++ ")"

def inspect (e : SystemError) : String :=
  Text.Inspect.named "Os"
    [("code", toString e.code), ("kind", e.kind), ("message", Text.quoted e.text)]

def fileNotFound : SystemError := ⟨2, "NotFound", "No such file or directory"⟩

def isADirectory : SystemError := ⟨21, "IsADirectory", "Is a directory"⟩

def networkUnreachable : SystemError := ⟨101, "NetworkUnreachable", "Network is unreachable"⟩

end SystemError

end LedgerClient
