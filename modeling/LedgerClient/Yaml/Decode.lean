import LedgerClient.Yaml.Node
import LedgerClient.Yaml.Word

/-!
# Reading values out of documents

Every scalar is a text. A number is a plain scalar, or a literal one with the tag of numbers.
Nothing at all is an empty list and a structure without fields. Fields with unknown names are passed
over, and a field may be there once.
-/

namespace LedgerClient.Yaml

/-- The tag of nothing. -/
def nullTag : String := "tag:yaml.org,2002:null"

/-- The tag of whole numbers. -/
def integerTag : String := "tag:yaml.org,2002:int"

namespace Scalar

/-- Whether nothing is written, or an empty text without quotes. -/
def isNothing (s : Scalar) : Bool := s.style == .plain && s.text.isEmpty

/-- The number of a scalar, which is at most `limit`. -/
def natural? (limit : Nat) (s : Scalar) : Option Nat :=
  if s.style = .plain ∨ (s.style = .literal ∧ s.tag = some integerTag) then
    Yaml.natural? limit s.text
  else none

/-- The value of a scalar that may stand for nothing. -/
def optional? {α : Type} (read : Scalar → Option α) (s : Scalar) : Option (Option α) :=
  if s.style ≠ .plain then (read s).map some
  else match s.tag with
    | none => if s.text.isEmpty || isNullWord s.text then some none else (read s).map some
    | some tag =>
      if tag = nullTag then if isNullWord s.text then some none else none
      else (read s).map some

/-- The name that a scalar chooses: its text, or a tag of its own in front of nothing. -/
def choice? (s : Scalar) : Option String :=
  match s.tag.bind fun tag => behind? ['!'] tag.toList with
  | some name =>
    if s.style = .plain ∧ (s.text.isEmpty || isNullWord s.text) then some (String.ofList name)
    else none
  | none => some s.text

end Scalar

namespace Document

/-- The scalar of a node. -/
def scalar? (d : Document) (node : Node) : Option Scalar :=
  match d.resolve? node with
  | some (.scalar s) => some s
  | _ => none

/-- The text of a node. -/
def text? (d : Document) (node : Node) : Option String := (d.scalar? node).map (·.text)

/-- The items of a node. -/
def items? (d : Document) (node : Node) : Option (List Node) :=
  match d.resolve? node with
  | some (.sequence items) => some items
  | some (.scalar s) => if s.isNothing then some [] else none
  | _ => none

/-- The fields of a node by their names. -/
def fields? (d : Document) (node : Node) : Option (List (String × Node)) :=
  match d.resolve? node with
  | some (.mapping pairs) => pairs.mapM fun (name, value) => (d.text? name).map (·, value)
  | some (.scalar s) => if s.isNothing then some [] else none
  | _ => none

end Document

/-- The field of this name, or what stands for it where it is missing. -/
def field? {α : Type} (fields : List (String × Node)) (name : String) (missing : α)
    (read : Node → Option α) : Option α :=
  match fields.filter (·.1 == name) with
  | [] => some missing
  | [(_, node)] => read node
  | _ => none

end LedgerClient.Yaml
