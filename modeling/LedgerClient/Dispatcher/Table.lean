import LedgerClient.ClientError
import LedgerClient.Command.Basic
import LedgerClient.Response

/-!
# Pending commands

The commands that wait for their answers, by id. An id is in the table at most once: `insert?`
refuses a second entry and leaves the first as it is. What a caller gets in the end is a `Verdict`.
-/

namespace LedgerClient

/-- The place of a caller that waits for an answer. -/
abbrev Ticket := Nat

/-- What becomes of a command. -/
inductive Verdict
  | told (reply : Except ClientError Response)
  /-- The caller had gone before the command was looked at. -/
  | skipped
  /-- The command was given up without a word to the caller. -/
  | dropped

/-- A command that waits for its answer. -/
structure Pending where
  name : String
  shape : Shape
  ticket : Ticket
deriving DecidableEq, Repr

/-- The pending commands by id. -/
structure Table where
  entries : List (Nat × Pending)
  nodup : (entries.map (·.1)).Nodup

namespace Table

def empty : Table := ⟨[], .nil⟩

def find? (t : Table) (id : Nat) : Option Pending := (t.entries.find? (·.1 == id)).map (·.2)

def size (t : Table) : Nat := t.entries.length

def contains (t : Table) (id : Nat) : Bool := t.entries.any (·.1 == id)

def erase (t : Table) (id : Nat) : Table :=
  ⟨t.entries.filter (·.1 != id), (List.filter_sublist.map _).nodup t.nodup⟩

theorem not_mem_of_contains_eq_false {t : Table} {id : Nat} (h : ¬ t.contains id = true) :
    id ∉ t.entries.map (·.1) := by
  simp only [contains, List.any_eq_true, beq_iff_eq, not_exists, not_and] at h
  simp only [List.mem_map, not_exists, not_and]
  exact h

/-- The table with one more command, unless its id is taken. -/
def insert? (t : Table) (id : Nat) (p : Pending) : Option Table :=
  if h : t.contains id then none
  else some ⟨(id, p) :: t.entries,
    List.nodup_cons.2 ⟨not_mem_of_contains_eq_false h, t.nodup⟩⟩

/-- What the callers of all pending commands are told when there is no connection any more. -/
def closingVerdicts (t : Table) : List (Ticket × Verdict) :=
  t.entries.map fun e => (e.2.ticket, .told (.error .connectionClosed))

end Table

end LedgerClient
