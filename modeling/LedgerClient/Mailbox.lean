/-!
# Mailboxes

The queues between the tasks of a session. Items come out in the order in which they went in. A
bounded mailbox has room for so many items, and either end may be given up: what is sent to a
mailbox without a receiver is lost, and a mailbox without a sender ends once it is empty.
-/

namespace LedgerClient

/-- A queue between two tasks. -/
structure Mailbox (α : Type) where
  /-- How many items it holds at most, if there is a bound. -/
  capacity : Option Nat
  items : List α
  hasSender : Bool
  hasReceiver : Bool

/-- What a receiver finds in a mailbox. -/
inductive Mailbox.Head (α : Type)
  | item (a : α) (rest : Mailbox α)
  /-- There is nothing, but something may come. -/
  | empty
  /-- There is nothing and nothing will come. -/
  | ended

namespace Mailbox

variable {α : Type}

def bounded (capacity : Nat) : Mailbox α := ⟨some capacity, [], true, true⟩

def unbounded : Mailbox α := ⟨none, [], true, true⟩

def hasRoom (m : Mailbox α) : Bool :=
  match m.capacity with
  | none => true
  | some capacity => m.items.length < capacity

/-- A mailbox with one more item, if it has room and a receiver. -/
def push? (a : α) (m : Mailbox α) : Option (Mailbox α) :=
  if m.hasReceiver && m.hasRoom then some { m with items := m.items ++ [a] } else none

def head (m : Mailbox α) : Head α :=
  match m.items with
  | a :: rest => .item a { m with items := rest }
  | [] => if m.hasSender then .empty else .ended

def dropSender (m : Mailbox α) : Mailbox α := { m with hasSender := false }

/-- The mailbox after its receiver is gone, and its items with it. -/
def dropReceiver (m : Mailbox α) : Mailbox α := { m with hasReceiver := false, items := [] }

theorem eq_of_push? {a : α} {m m' : Mailbox α} (h : m.push? a = some m') :
    m.hasReceiver = true ∧ m' = { m with items := m.items ++ [a] } := by
  unfold push? at h
  split at h
  · rename_i hr
    exact ⟨(Bool.and_eq_true_iff.mp hr).1, (Option.some.inj h).symm⟩
  · simp at h

theorem items_of_push? {a : α} {m m' : Mailbox α} (h : m.push? a = some m') :
    m'.items = m.items ++ [a] := by
  rw [(eq_of_push? h).2]

end Mailbox

end LedgerClient
