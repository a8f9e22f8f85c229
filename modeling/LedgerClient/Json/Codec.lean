import LedgerClient.Json.Reader

/-!
# Codecs

A `Codec` pairs the reader of a type with its writer. Here are those of the types that the members
of records have.
-/

namespace LedgerClient.Json

/-- How the values of a type are read and written. -/
structure Codec (α : Type) where
  read : Reader α
  write : α → List Char

namespace Codec

def integer (expected : String) (low high : Int) : Codec Int :=
  ⟨Reader.integer expected low high, intChars⟩

def int32 : Codec Int := integer "i32" (-2147483648) 2147483647

/-- Natural numbers of a certain number of bits. -/
def natural (expected : String) (bits : Nat) : Codec Nat where
  read := fun room cs =>
    match Reader.integer expected 0 ((1 <<< bits : Nat) - 1) room cs with
    | .error stop => .error stop
    | .ok (i, rest) => .ok (i.toNat, rest)
  write := natChars

def nat32 : Codec Nat := natural "u32" 32

def nat64 : Codec Nat := natural "u64" 64

def bool : Codec Bool := ⟨Reader.bool, boolChars⟩

def text : Codec String := ⟨Reader.text, textChars⟩

def value : Codec Value := ⟨Reader.value, Value.chars⟩

def members : Codec Members := ⟨Reader.members, fun ms => (Value.object ms).chars⟩

def list {α : Type} (item : Codec α) : Codec (List α) :=
  ⟨Reader.list item.read, fun as => itemsChars (as.map item.write)⟩

def refined {α : Type} (parse : String → Except String α) (text : α → String) : Codec α :=
  ⟨Reader.refined parse, fun a => textChars (text a)⟩

def choice {α : Type} (known : List (String × α)) (name : α → String) : Codec α :=
  ⟨Reader.choice known, fun a => textChars (name a)⟩

def encode {α : Type} (c : Codec α) (a : α) : String := String.ofList (c.write a)

/-- The value of a text, or the first fault in it. -/
def decode {α : Type} (c : Codec α) (text : String) : Except Fault α := c.read.parse text

end Codec

end LedgerClient.Json
