import LedgerClient.Dispatcher.Input
import LedgerClient.Proofs.Dispatcher.Table

/-!
# What a dispatcher does in one move

A move of a dispatcher is one `Act`: it stops, deals with one of its inputs, or gets rid of what it
has in its hand. `act?` says which act comes next and `perform` does it, so that `step` is the two
of them together (`step_eq`); `Ready` collects what the choice of an act tells about the queues. All
that is said of moves elsewhere is said by cases on acts.
-/

namespace LedgerClient.Dispatcher

/-- What a dispatcher does in one move. -/
inductive Act
  | stop (reason : Shutdown)
  | abandon (id : Nat)
  | fail (failure : WriteFailure)
  | handle (frame : String)
  | submit (s : Submission)
  /-- It hands the command in its hand to the writer. -/
  | forward (out : Outbound)
  /-- It finds no writer for the command in its hand, and stops. -/
  | lose (out : Outbound)
  /-- It hands the event in its hand to the consumer. -/
  | deliver (event : Stream.Event)
  /-- It finds no consumer for the event in its hand. -/
  | forget
  /-- It drops the event in its hand as the session is to be closed. -/
  | giveUp

/-! ## Choosing an act -/

/-- What an idle dispatcher turns to. -/
def turn? (d : Dispatcher) : Option Act :=
  if d.signal.isRaised then some (.stop .closed)
  else match d.abandoned.head with
    | .item id _ => some (.abandon id)
    | .ended => some (.stop .closed)
    | .empty => match d.failures.head with
      | .item failure _ => some (.fail failure)
      | .ended => some (.stop .writerGone)
      | .empty => match d.frames.head with
        | .item frame _ => some (.handle frame)
        | .ended => some (.stop .framesEnded)
        | .empty => match d.intake.head with
          | .item s _ => some (.submit s)
          | .ended => some (.stop .closed)
          | .empty => none

/-- How a dispatcher gets rid of an event. -/
def release? (closeFirst : Bool) (event : Stream.Event) (d : Dispatcher) : Option Act :=
  let given : Option Act :=
    if d.events.hasReceiver then if d.events.hasRoom then some (.deliver event) else none
    else some .forget
  let left : Option Act := if d.signal.isRaised then some .giveUp else none
  if closeFirst then left <|> given else given <|> left

/-- The next act of a dispatcher; there is none while it waits and after it has stopped. -/
def act? (closeFirst : Bool) (d : Dispatcher) : Option Act :=
  match d.phase with
  | .idle => d.turn?
  | .sending out =>
    if d.outbound.hasReceiver then if d.outbound.hasRoom then some (.forward out) else none
    else some (.lose out)
  | .delivering event => d.release? closeFirst event
  | .stopped _ => none

/-! ## Doing it -/

/-- What callers are told when there is no connection any more. -/
def closed : Verdict := .told (.error .connectionClosed)

def resolve (id : Nat) (verdict : Pending → Verdict) (d : Dispatcher) : Dispatcher :=
  match d.table.find? id with
  | none => d
  | some p => { d with table := d.table.erase id }.settle p.ticket (verdict p)

/-- The dispatcher after an act. -/
def perform (d : Dispatcher) : Act → Dispatcher
  | .stop reason => d.stop reason
  | .abandon id => { d with abandoned := dropHead d.abandoned }.abandon id
  | .fail failure => { d with failures := dropHead d.failures }.writeFailed failure
  | .handle frame => { d with frames := dropHead d.frames }.handleFrame frame
  | .submit s => { d with intake := dropHead d.intake }.submit s
  | .forward out =>
    { d with outbound := { d.outbound with items := d.outbound.items ++ [out] }, phase := .idle }
  | .lose out => (d.resolve out.id fun _ => closed).stop .writerGone
  | .deliver event =>
    { d with events := { d.events with items := d.events.items ++ [event] }, phase := .idle }
  | .forget => { d with delivers := false, phase := .idle }
  | .giveUp => { d with phase := .idle }

theorem head_eq_item {α : Type} {a : α} {m rest : Mailbox α} (h : m.head = .item a rest) :
    m.items.head? = some a ∧ rest = dropHead m := by
  obtain ⟨capacity, items, hasSender, hasReceiver⟩ := m
  cases items with
  | nil => cases hasSender <;> simp [Mailbox.head] at h
  | cons b items =>
    obtain ⟨rfl, rfl⟩ := Mailbox.Head.item.inj h
    exact ⟨rfl, rfl⟩

theorem eq_of_head_empty {α : Type} {m : Mailbox α} (h : m.head = .empty) :
    m.items = [] ∧ m.hasSender = true := by
  unfold Mailbox.head at h
  split at h
  · cases h
  · rename_i hi
    split at h
    · rename_i hs
      exact ⟨hi, hs⟩
    · cases h

theorem eq_of_head_ended {α : Type} {m : Mailbox α} (h : m.head = .ended) :
    m.items = [] ∧ m.hasSender = false := by
  unfold Mailbox.head at h
  split at h
  · cases h
  · rename_i hi
    split at h
    · cases h
    · rename_i hs
      exact ⟨hi, by simpa using hs⟩

theorem serve_eq (d : Dispatcher) : d.serve = d.turn?.map d.perform := by
  unfold serve turn?
  -- both look at the signal and at the four queues in the same order
  split
  · rfl
  · cases ha : d.abandoned.head with
    | item id rest => rw [(head_eq_item ha).2]; rfl
    | ended => rfl
    | empty =>
      simp only
      cases hf : d.failures.head with
      | item failure rest => rw [(head_eq_item hf).2]; rfl
      | ended => rfl
      | empty =>
        simp only
        cases hr : d.frames.head with
        | item frame rest => rw [(head_eq_item hr).2]; rfl
        | ended => rfl
        | empty =>
          simp only
          cases hi : d.intake.head with
          | item s rest => rw [(head_eq_item hi).2]; rfl
          | ended => rfl
          | empty => rfl

theorem send_eq (out : Outbound) (d : Dispatcher) (h : d.phase = .sending out) (b : Bool) :
    d.send out = (d.act? b).map d.perform := by
  rw [act?, h]
  simp only [send, Mailbox.push?]
  cases hr : d.outbound.hasReceiver with
  | true => cases hm : d.outbound.hasRoom <;> simp [perform, hr]
  | false =>
    simp only [Bool.false_eq_true, if_false, Option.map_some, perform, resolve]
    cases ht : d.table.find? out.id <;> rfl

theorem pushEvent_eq (event : Stream.Event) (d : Dispatcher) (b : Bool) :
    d.pushEvent b event = (d.release? b event).map d.perform := by
  simp only [pushEvent, release?, Mailbox.push?]
  cases hr : d.events.hasReceiver <;> cases d.events.hasRoom <;> cases d.signal.isRaised <;>
    cases b <;> simp [perform, hr]

/-- A move is an act. -/
theorem step_eq (b : Bool) (d : Dispatcher) : d.step b = (d.act? b).map d.perform := by
  cases h : d.phase with
  | idle => rw [step, act?, h]; exact d.serve_eq
  | sending out => rw [step, h]; exact send_eq out d h b
  | delivering event => rw [step, act?, h]; exact pushEvent_eq event d b
  | stopped reason => rw [step, act?, h]; rfl

/-! ## What a choice tells -/

/-- What is known of a dispatcher that is about to act. -/
def Ready (d : Dispatcher) : Act → Prop
  | .stop _ => d.phase = .idle
  | .abandon id => d.phase = .idle ∧ d.abandoned.items.head? = some id
  | .fail failure =>
    d.phase = .idle ∧ d.abandoned.items = [] ∧ d.failures.items.head? = some failure
  | .handle frame =>
    d.phase = .idle ∧ d.abandoned.items = [] ∧ d.failures.items = [] ∧
      d.frames.items.head? = some frame
  | .submit s =>
    d.phase = .idle ∧ d.abandoned.items = [] ∧ d.failures.items = [] ∧ d.frames.items = [] ∧
      d.intake.items.head? = some s
  | .forward out => d.phase = .sending out ∧ d.outbound.hasReceiver = true
  | .lose out => d.phase = .sending out ∧ d.outbound.hasReceiver = false
  | .deliver event => d.phase = .delivering event
  | .forget => ∃ event, d.phase = .delivering event
  | .giveUp => ∃ event, d.phase = .delivering event

theorem Ready.phase_ne {d : Dispatcher} {a : Act} (h : d.Ready a) (reason : Shutdown) :
    d.phase ≠ .stopped reason := by
  intro hp
  cases a <;> simp [Ready, hp] at h

theorem Ready.mem_abandoned {d : Dispatcher} {id : Nat} (h : d.Ready (.abandon id)) :
    id ∈ d.abandoned.items :=
  List.mem_of_mem_head? h.2

theorem Ready.mem_intake {d : Dispatcher} {s : Submission} (h : d.Ready (.submit s)) :
    s ∈ d.intake.items :=
  List.mem_of_mem_head? h.2.2.2.2

theorem ready_of_turn? {d : Dispatcher} {a : Act} (hi : d.phase = .idle) (h : d.turn? = some a) :
    d.Ready a := by
  unfold turn? at h
  split at h
  · obtain rfl := Option.some.inj h
    exact hi
  · cases ha : d.abandoned.head with
    | item id rest =>
      simp only [ha, Option.some.injEq] at h
      exact h ▸ ⟨hi, (head_eq_item ha).1⟩
    | ended =>
      simp only [ha, Option.some.injEq] at h
      exact h ▸ hi
    | empty =>
      have ha' := (eq_of_head_empty ha).1
      simp only [ha] at h
      cases hf : d.failures.head with
      | item failure rest =>
        simp only [hf, Option.some.injEq] at h
        exact h ▸ ⟨hi, ha', (head_eq_item hf).1⟩
      | ended =>
        simp only [hf, Option.some.injEq] at h
        exact h ▸ hi
      | empty =>
        have hf' := (eq_of_head_empty hf).1
        simp only [hf] at h
        cases hr : d.frames.head with
        | item frame rest =>
          simp only [hr, Option.some.injEq] at h
          exact h ▸ ⟨hi, ha', hf', (head_eq_item hr).1⟩
        | ended =>
          simp only [hr, Option.some.injEq] at h
          exact h ▸ hi
        | empty =>
          have hr' := (eq_of_head_empty hr).1
          simp only [hr] at h
          cases hs : d.intake.head with
          | item s rest =>
            simp only [hs, Option.some.injEq] at h
            exact h ▸ ⟨hi, ha', hf', hr', (head_eq_item hs).1⟩
          | ended =>
            simp only [hs, Option.some.injEq] at h
            exact h ▸ hi
          | empty => simp [hs] at h

theorem ready_of_release? {d : Dispatcher} {a : Act} {b : Bool} {event : Stream.Event}
    (hd : d.phase = .delivering event) (h : d.release? b event = some a) : d.Ready a := by
  have ha : a = .deliver event ∨ a = .forget ∨ a = .giveUp := by
    revert h
    simp only [release?]
    cases d.events.hasReceiver <;> cases d.events.hasRoom <;> cases d.signal.isRaised <;>
      cases b <;> simp +contextual [eq_comm]
  rcases ha with rfl | rfl | rfl
  · exact hd
  · exact ⟨event, hd⟩
  · exact ⟨event, hd⟩

theorem ready_of_act? {d : Dispatcher} {a : Act} {b : Bool} (h : d.act? b = some a) :
    d.Ready a := by
  cases hp : d.phase with
  | idle => rw [act?, hp] at h; exact ready_of_turn? hp h
  | sending out =>
    rw [act?, hp] at h
    simp only at h
    cases hr : d.outbound.hasReceiver with
    | true =>
      cases hm : d.outbound.hasRoom <;> simp only [hr, hm] at h
      · simp at h
      · obtain rfl := Option.some.inj h
        exact ⟨hp, hr⟩
    | false =>
      simp only [hr] at h
      obtain rfl := Option.some.inj h
      exact ⟨hp, hr⟩
  | delivering event => rw [act?, hp] at h; exact ready_of_release? hp h
  | stopped reason => simp [act?, hp] at h

/-! ## Nothing to do -/

/-- All inputs of a dispatcher are empty, though something may come in, and the session is not to be
closed. -/
structure Unoccupied (d : Dispatcher) : Prop where
  signal : d.signal.isRaised = false
  abandoned : d.abandoned.items = [] ∧ d.abandoned.hasSender = true
  failures : d.failures.items = [] ∧ d.failures.hasSender = true
  frames : d.frames.items = [] ∧ d.frames.hasSender = true
  intake : d.intake.items = [] ∧ d.intake.hasSender = true

theorem unoccupied_of_act? {d : Dispatcher} {b : Bool} (hi : d.phase = .idle)
    (h : d.act? b = none) : d.Unoccupied := by
  rw [act?, hi] at h
  simp only [turn?] at h
  split at h
  · cases h
  · rename_i hs
    cases ha : d.abandoned.head with
    | item id rest => simp [ha] at h
    | ended => simp [ha] at h
    | empty =>
      simp only [ha] at h
      cases hf : d.failures.head with
      | item failure rest => simp [hf] at h
      | ended => simp [hf] at h
      | empty =>
        simp only [hf] at h
        cases hr : d.frames.head with
        | item frame rest => simp [hr] at h
        | ended => simp [hr] at h
        | empty =>
          simp only [hr] at h
          cases hq : d.intake.head with
          | item s rest => simp [hq] at h
          | ended => simp [hq] at h
          | empty =>
            exact ⟨by simpa using hs, eq_of_head_empty ha, eq_of_head_empty hf,
              eq_of_head_empty hr, eq_of_head_empty hq⟩

theorem full_of_sending {d : Dispatcher} {b : Bool} {out : Outbound} (hp : d.phase = .sending out)
    (hn : d.act? b = none) : d.outbound.hasReceiver = true ∧ d.outbound.hasRoom = false := by
  rw [act?, hp] at hn
  simp only at hn
  split at hn
  · rename_i hc
    split at hn
    · cases hn
    · rename_i hr
      exact ⟨hc, by simpa using hr⟩
  · cases hn

end LedgerClient.Dispatcher
