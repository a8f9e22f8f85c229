import LedgerClient.Json.Codec

/-!
# Records

A record is a JSON object with declared fields. A `Field` says how its value is read and written and
what it is when it is not there; `Fields` lists the fields of a record, and a `Row` holds a value
for each of them.

A `Record` is read from an object, whose other members are passed over, or from a list of the values
in the order of the declaration. An `OpenRecord` keeps the other members and is read from an object
only. In both a field may occur only once.
-/

namespace LedgerClient.Json

/-- A declared member of a record. -/
structure Field (β : Type) where
  name : String
  read : Reader β
  /-- The text of its value, unless the member is left out. -/
  write : β → Option (List Char)
  /-- Its value in an object without it. -/
  absent : Option β
  /-- Its value in a list that ends before it. -/
  lacking : Option β

namespace Field

variable {β : Type}

def required (name : String) (c : Codec β) : Field β :=
  ⟨name, c.read, fun b => some (c.write b), none, none⟩

def defaulted (name : String) (c : Codec β) (default : β) : Field β :=
  ⟨name, c.read, fun b => some (c.write b), some default, some default⟩

/-- A field with a default that is left out when `omits` says so. -/
def omitting (name : String) (c : Codec β) (default : β) (omits : β → Bool) : Field β :=
  ⟨name, c.read, fun b => if omits b then none else some (c.write b), some default, some default⟩

def optional (name : String) (c : Codec β) : Field (Option β) :=
  ⟨name, c.read.option, fun b => b.map c.write, some none, some none⟩

/-- A field that may be missing from an object, but not from a list. -/
def optionalInObject (name : String) (c : Codec β) : Field (Option β) :=
  { optional name c with lacking := none }

end Field

def Row : List Type → Type
  | [] => Unit
  | β :: βs => β × Row βs

/-- The values of each of some types that have been read so far. -/
def Slots : List Type → Type
  | [] => Unit
  | β :: βs => Option β × Slots βs

/-- The fields of a record, by the types of their values. -/
inductive Fields : List Type → Type 1
  | nil : Fields []
  | cons {β : Type} {βs : List Type} (field : Field β) (rest : Fields βs) : Fields (β :: βs)

namespace Fields

def empty : {βs : List Type} → Fields βs → Slots βs
  | _, .nil => ()
  | _, .cons _ rest => (none, rest.empty)

/-- Whether a field is declared under a key. -/
def declares (key : String) : {βs : List Type} → Fields βs → Bool
  | _, .nil => false
  | _, .cons field rest => field.name == key || rest.declares key

/-- Reads the member with this key, from behind the key on, into its slot; there must be none there
yet. A key that no field has is left to `other`. -/
def readMember (room : Nat) (key : String) : {βs : List Type} → Fields βs → Slots βs →
    (cs : List Char) → Step (Slots βs)
  | _, .nil, slots, cs => .ok (slots, cs)
  | _, .cons field rest, (slot, slots), cs =>
    if field.name = key then
      match slot with
      | some _ => .error (.loose (.duplicate field.name) cs)
      | none =>
        match afterColon (field.read room) cs with
        | .error stop => .error stop
        | .ok (b, behind) => .ok ((some b, slots), behind)
    else
      match rest.readMember room key slots cs with
      | .error stop => .error stop
      | .ok (slots, behind) => .ok ((slot, slots), behind)

/-- The values of all fields, those that were not read as their declaration says. -/
def complete : {βs : List Type} → Fields βs → Slots βs → Except Cause (Row βs)
  | _, .nil, () => .ok ()
  | _, .cons field rest, (slot, slots) =>
    match slot <|> field.absent with
    | none => .error (.missing field.name)
    | some b =>
      match rest.complete slots with
      | .error cause => .error cause
      | .ok row => .ok (b, row)

/-- Reads the values of the fields as the items of a list; `index` fields come before them. A list
that ends too early is at fault at the first field that may not be lacking. -/
def readItems (room : Nat) (expected : String) : {βs : List Type} → Fields βs → (index : Nat) →
    (cs : List Char) → Step (Row βs)
  | _, .nil, _, cs => .ok ((), cs)
  | _, .cons field rest, index, cs =>
    match nextItem (index == 0) cs with
    | .error stop => .error stop
    | .ok (.part item) =>
      match field.read room item with
      | .error stop => .error stop
      | .ok (b, behind) =>
        match rest.readItems room expected (index + 1) behind with
        | .error stop => .error stop
        | .ok (row, behind) => .ok ((b, row), behind)
    | .ok (.closing behind) =>
      match field.lacking with
      | none => .error (.loose (.wrongLength index expected) behind)
      | some b =>
        match rest.readItems room expected (index + 1) behind with
        | .error stop => .error stop
        | .ok (row, behind) => .ok ((b, row), behind)

/-- The members that are written, in the order of the declaration. -/
def texts : {βs : List Type} → Fields βs → Row βs → List (String × List Char)
  | _, .nil, () => []
  | _, .cons field rest, (b, row) =>
    match field.write b with
    | none => rest.texts row
    | some cs => (field.name, cs) :: rest.texts row

end Fields

/-- A record type: the fields it is written with and how it is made of their values. -/
structure Record (α : Type) (βs : List Type) where
  /-- What a reader calls it that finds something else. -/
  name : String
  fields : Fields βs
  make : Row βs → α
  row : α → Row βs

namespace Record

variable {α : Type} {βs : List Type}

/-- How a list with too few items is judged. -/
def expectation (r : Record α βs) : String :=
  "struct " ++ r.name ++ " with " ++ toString βs.length ++
    (if βs.length = 1 then " element" else " elements")

/-- Reads a member into its slot or passes over it. -/
def member (r : Record α βs) (room : Nat) (key : String) (slots : Slots βs) (cs : List Char) :
    Step (Slots βs) :=
  if r.fields.declares key then r.fields.readMember room key slots cs
  else
    match colon cs with
    | .error stop => .error stop
    | .ok rest =>
      match skip rest with
      | .error stop => .error stop
      | .ok rest => .ok (slots, rest)

/-- Reads a record from behind the brace of its object on. -/
def readObject (r : Record α βs) (room : Nat) (cs : List Char) : Step α :=
  objectBody r.fields.empty (r.member room) (fun slots => (r.fields.complete slots).map r.make) cs

/-- Reads a record from behind the bracket of its list on. -/
def readList (r : Record α βs) (room : Nat) (cs : List Char) : Step α :=
  enclose closeList settleList <|
    match r.fields.readItems room r.expectation 0 cs with
    | .error stop => .error stop
    | .ok (row, rest) => .ok (r.make row, rest)

def read (r : Record α βs) : Reader α := fun room => atValue fun c rest =>
  if c = '[' then
    match room with
    | 0 => tooDeep rest
    | room + 1 => r.readList room rest
  else if c = '\x7b' then
    match room with
    | 0 => tooDeep rest
    | room + 1 => r.readObject room rest
  else unexpected ("struct " ++ r.name) (c :: rest)

/-- The members of a record as they are written. -/
def texts (r : Record α βs) (a : α) : List (String × List Char) := r.fields.texts (r.row a)

def codec (r : Record α βs) : Codec α := ⟨r.read, fun a => membersChars (r.texts a)⟩

end Record

/-- A record type that keeps the members that it does not declare. -/
structure OpenRecord (α : Type) (βs : List Type) where
  /-- What a reader calls it that finds something else. -/
  name : String
  fields : Fields βs
  make : Row βs → Members → α
  row : α → Row βs
  others : α → Members

namespace OpenRecord

variable {α : Type} {βs : List Type}

/-- Reads a member into its slot or keeps it. -/
def member (r : OpenRecord α βs) (room : Nat) (key : String) (state : Slots βs × Members)
    (cs : List Char) : Step (Slots βs × Members) :=
  if r.fields.declares key then
    match r.fields.readMember room key state.1 cs with
    | .error stop => .error stop
    | .ok (slots, rest) => .ok ((slots, state.2), rest)
  else
    match keepMember (Reader.value room) key state.2 cs with
    | .error stop => .error stop
    | .ok (others, rest) => .ok ((state.1, others), rest)

def read (r : OpenRecord α βs) : Reader α := fun room => atValue fun c rest =>
  if c = '\x7b' then
    match room with
    | 0 => tooDeep rest
    | room + 1 =>
      objectBody (r.fields.empty, []) (r.member room)
        (fun state => (r.fields.complete state.1).map (r.make · state.2)) rest
  else unexpected ("struct " ++ r.name) (c :: rest)

/-- The members of a record as they are written: the declared ones first. -/
def texts (r : OpenRecord α βs) (a : α) : List (String × List Char) :=
  r.fields.texts (r.row a) ++ Value.memberTexts (r.others a)

def codec (r : OpenRecord α βs) : Codec α := ⟨r.read, fun a => membersChars (r.texts a)⟩

end OpenRecord

end LedgerClient.Json
