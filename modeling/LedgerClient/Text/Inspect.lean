import LedgerClient.Text.Blank
import LedgerClient.Text.Quoted

/-!
# Values in diagnostics

How diagnostics show a value with parts: its name, then its parts in parentheses, or its named parts
in braces. Texts inside are quoted.
-/

namespace LedgerClient.Text.Inspect

/-- A value with parts that have no names. -/
def parts (name : String) (shown : List String) : String :=
  name ++ "(" ++ joinWith ", " shown ++ ")"

def named (name : String) (shown : List (String × String)) : String :=
  name ++ " \x7b " ++ joinWith ", " (shown.map fun p => p.1 ++ ": " ++ p.2) ++ " \x7d"

def optional {α : Type} (inspect : α → String) : Option α → String
  | none => "None"
  | some a => parts "Some" [inspect a]

end LedgerClient.Text.Inspect
