import LedgerClient.Proofs.Session.Step
import LedgerClient.Proofs.Session.Tasks

/-!
# What happens in a session beside its dispatcher

In a moment in which the dispatcher of a session does not move, a call gets its id, a call with an id
comes to its next stage, or the calls stay as they are (`Change`). `Progress` lists the stages and
what a call leaves with the dispatcher on its way: its command in the intake, itself among those that
are gone, or its id among those that are given up. All else that the tasks and the owners do leaves
the dispatcher as it was but for the ends of its queues (`Alike`).
-/

namespace LedgerClient

open scoped List

/-- Two dispatchers that know the same of callers and frames, whatever the writer, the reader and the
consumer of events did between them. -/
structure Dispatcher.Alike (d e : Dispatcher) : Prop where
  phase : e.phase = d.phase
  table : e.table = d.table
  replies : e.replies = d.replies
  discarded : e.discarded = d.discarded
  gone : e.gone = d.gone
  intake : e.intake.items = d.intake.items
  abandoned : e.abandoned.items = d.abandoned.items ∧
    e.abandoned.capacity = d.abandoned.capacity ∧
    e.abandoned.hasReceiver = d.abandoned.hasReceiver

theorem Dispatcher.alike_queues (d : Dispatcher) (outbound : Mailbox Outbound)
    (failures : Mailbox WriteFailure) (frames : Mailbox String) :
    Alike d { d with outbound, failures, frames } :=
  ⟨rfl, rfl, rfl, rfl, rfl, rfl, rfl, rfl, rfl⟩

theorem Dispatcher.Alike.refl (d : Dispatcher) : Alike d d :=
  d.alike_queues d.outbound d.failures d.frames

namespace Session

def outgoing (s : Session) : List Outbound := s.writer.outgoing s.dispatcher

def registered (s : Session) : List Outbound := s.writer.registered s.dispatcher

def requests (s : Session) : List Nat := s.writer.requests s.dispatcher

/-- What a moment leaves of the tasks of a session, if callers leave the dispatcher like `d`, with
more commands in its intake. -/
structure Beside (s s' : Session) (d : Dispatcher) (submitted : List Nat) : Prop where
  alike : d.Alike s'.dispatcher
  settings : s'.settings = s.settings
  outgoing : ∀ out ∈ s'.outgoing, out ∈ s.outgoing
  requests : ∀ id, s'.requests.count id ≤ s.requests.count id + submitted.count id

/-- How a call with an id comes to its next stage, what it makes of the dispatcher, and which ids it
puts into the intake. -/
inductive Progress (s : Session) (x : Exchange) : Stage → Dispatcher → List Nat → Prop
  | enqueued (h : x.stage = .queueing) :
    Progress s x .waiting
      { s.dispatcher with intake :=
          { s.dispatcher.intake with
            items := s.dispatcher.intake.items ++ [⟨x.id, x.command, x.id⟩] } } [x.id]
  | refused (h : x.stage = .queueing) :
    Progress s x (.returned (.error .connectionClosed)) s.dispatcher []
  | collected (v : Verdict) (h : x.stage = .waiting) (hv : (x.id, v) ∈ s.dispatcher.replies) :
    Progress s x (.returned (replyOf v)) s.dispatcher []
  | expired (h : x.stage = .queueing ∨ x.stage = .waiting) :
    Progress s x .expired { s.dispatcher with gone := x.id :: s.dispatcher.gone } []
  | abandoned (limit : Duration) (h : x.stage = .expired) :
    Progress s x (.returned (.error (.timeout limit)))
      { s.dispatcher with
        abandoned := (s.dispatcher.abandoned.push? x.id).getD s.dispatcher.abandoned } []

/-- What a moment does in which the dispatcher does not move. -/
inductive Change (s s' : Session) : Prop
  | aside (b : Beside s s' s.dispatcher []) (he : s'.exchanges = s.exchanges)
    (hn : s'.nextId = s.nextId)
  | allocated (command : Command) (b : Beside s s' s.dispatcher [])
    (he : s'.exchanges = s.exchanges ++ [⟨s.nextId, command, .queueing⟩])
    (hn : s'.nextId = s.nextId + 1)
  | staged (x : Exchange) (stage : Stage) (d : Dispatcher) (submitted : List Nat)
    (hx : x ∈ s.exchanges) (p : Progress s x stage d submitted) (b : Beside s s' d submitted)
    (he : s'.exchanges = (s.setStage x.id stage).exchanges) (hn : s'.nextId = s.nextId)

theorem Change.refl (s : Session) : Change s s :=
  .aside ⟨.refl _, rfl, fun _ h => h, fun _ => Nat.le_add_right _ _⟩ rfl rfl

/-! ## The tasks -/

theorem alike_of_writer_moves {w : Writer} {d : Dispatcher} {r : Writer × Dispatcher}
    (h : w.Moves d r) : d.Alike r.2 := by
  obtain ⟨outbound, failures, he, -⟩ := h
  rw [he]
  exact d.alike_queues outbound failures d.frames

theorem change_withWriter {s : Session} {r : Writer × Dispatcher}
    (h : s.writer.Moves s.dispatcher r) : Change s (s.withWriter r) :=
  .aside ⟨alike_of_writer_moves h, rfl, fun _ => Writer.mem_outgoing_moves h,
    Writer.count_requests_moves h⟩ rfl rfl

theorem change_withReader {s : Session} {got : Option String} {r : Reader × Dispatcher}
    {ending : Option SessionEnd} (h : s.reader.Moves got s.dispatcher r) :
    Change s { s.withReader r with ending } := by
  obtain ⟨r, d⟩ := r
  obtain ⟨frames, rfl, -⟩ := h
  exact .aside ⟨s.dispatcher.alike_queues _ _ frames, rfl, fun _ h => h,
    fun _ => Nat.le_add_right _ _⟩ rfl rfl

/-! ## Callers and owners -/

theorem mem_of_find? {s : Session} {id : Nat} {x : Exchange} (h : s.find? id = some x) :
    x ∈ s.exchanges ∧ x.id = id :=
  ⟨List.mem_of_find?_eq_some h, by simpa using List.find?_some h⟩

theorem settleIntake_eq (s : Session) :
    ∃ intake, s.settleIntake = { s with dispatcher := { s.dispatcher with intake } } ∧
      intake.items = s.dispatcher.intake.items := by
  rw [settleIntake]
  cases s.feedsIntake with
  | true => exact ⟨s.dispatcher.intake, rfl, rfl⟩
  | false => exact ⟨s.dispatcher.intake.dropSender, rfl, rfl⟩

theorem gone_settleIntake (s : Session) : s.settleIntake.dispatcher.gone = s.dispatcher.gone := by
  obtain ⟨intake, he, -⟩ := settleIntake_eq s
  rw [he]

theorem signal_settleIntake (s : Session) :
    s.settleIntake.dispatcher.signal = s.dispatcher.signal := by
  obtain ⟨intake, he, -⟩ := settleIntake_eq s
  rw [he]

theorem Beside.settleIntake {s s' : Session} {d : Dispatcher} {submitted : List Nat}
    (b : Beside s s' d submitted) : Beside s s'.settleIntake d submitted := by
  obtain ⟨intake, he, hi⟩ := settleIntake_eq s'
  rw [he]
  refine ⟨{ b.alike with intake := hi.trans b.alike.intake }, b.settings, b.outgoing, ?_⟩
  intro id
  have h := b.requests id
  rw [Session.requests, Writer.requests, ← hi] at h
  exact h

theorem Change.settleIntake {s s' : Session} (c : Change s s') : Change s s'.settleIntake := by
  have he : s'.settleIntake.exchanges = s'.exchanges ∧ s'.settleIntake.nextId = s'.nextId := by
    obtain ⟨intake, h, -⟩ := settleIntake_eq s'
    rw [h]
    exact ⟨rfl, rfl⟩
  cases c with
  | aside b hx hn => exact .aside b.settleIntake (he.1.trans hx) (he.2.trans hn)
  | allocated command b hx hn =>
    exact .allocated command b.settleIntake (he.1.trans hx) (he.2.trans hn)
  | staged x stage d submitted hm p b hx hn =>
    exact .staged x stage d submitted hm p b.settleIntake (he.1.trans hx) (he.2.trans hn)

theorem change_setStage {s : Session} {id : Nat} {x : Exchange} {stage : Stage} {d : Dispatcher}
    (hx : s.find? id = some x) (p : Progress s x stage d [])
    (hd : d.outbound = s.dispatcher.outbound ∧ d.failures = s.dispatcher.failures ∧
      d.intake = s.dispatcher.intake ∧ d.phase = s.dispatcher.phase) :
    Change s ({ s with dispatcher := d }.setStage id stage) := by
  obtain ⟨hm, rfl⟩ := mem_of_find? hx
  refine .staged x stage d [] hm p ⟨.refl d, rfl, fun out ho => ?_, fun id => ?_⟩ rfl rfl
  · simpa [outgoing, Writer.outgoing, setStage, hd.1] using ho
  · simp [requests, Writer.requests, Writer.registered, Writer.outgoing, setStage, hd,
      Dispatcher.hand_of_phase_eq hd.2.2.2]

theorem change_leave {s : Session} {id : Nat} {x : Exchange} (hx : s.find? id = some x)
    (h : x.stage = .queueing ∨ x.stage = .waiting) : Change s (expire.leave id s) := by
  obtain ⟨-, rfl⟩ := mem_of_find? hx
  exact (change_setStage hx (.expired h) ⟨rfl, rfl, rfl, rfl⟩).settleIntake

theorem change_enqueue {s : Session} {id : Nat} {x : Exchange} {intake : Mailbox Submission}
    (hx : s.find? id = some x) (hq : x.stage = .queueing)
    (hp : s.dispatcher.intake.push? ⟨id, x.command, id⟩ = some intake) :
    Change s (setStage id .waiting { s with dispatcher := { s.dispatcher with intake } }) := by
  obtain ⟨hm, rfl⟩ := mem_of_find? hx
  obtain ⟨-, rfl⟩ := Mailbox.eq_of_push? hp
  refine .staged x .waiting _ [x.id] hm (.enqueued hq) ⟨.refl _, rfl, fun _ h => h, fun id => ?_⟩
    rfl rfl
  simp only [requests, Writer.requests, Writer.registered, Writer.outgoing, setStage,
    Dispatcher.hand, List.map_append, List.count_append, List.map_cons, List.map_nil]
  omega

theorem change_of_ends {s : Session} {isOpen : Bool} {entered : List Command}
    {signal : CloseSignal} {abandoned : Mailbox Nat} {events : Mailbox Stream.Event}
    (h : abandoned.items = s.dispatcher.abandoned.items ∧
      abandoned.capacity = s.dispatcher.abandoned.capacity ∧
      abandoned.hasReceiver = s.dispatcher.abandoned.hasReceiver) :
    Change s { s with
      isOpen, entered, dispatcher := { s.dispatcher with signal, abandoned, events } } :=
  .aside ⟨⟨rfl, rfl, rfl, rfl, rfl, rfl, h⟩, rfl, fun _ h => h, fun _ => Nat.le_add_right _ _⟩
    rfl rfl

/-- What a moment does in which the dispatcher does not move. -/
theorem change_step {s s' : Session} {m : Moment} (hm : ∀ b, m ≠ .dispatch b)
    (h : s.step m = some s') : Change s s' := by
  cases step_cases h with
  | dispatch => exact absurd rfl (hm _)
  | allocate =>
    exact .allocated _ ⟨.refl _, rfl, fun _ h => h, fun _ => Nat.le_add_right _ _⟩ rfl rfl
  | enqueue hx hq hp => exact (change_enqueue hx hq hp).settleIntake
  | refuse hx hq => exact (change_setStage hx (.refused hq) ⟨rfl, rfl, rfl, rfl⟩).settleIntake
  | @collect id x r hx hw hr =>
    have hid : r.1 = id := by simpa using List.find?_some hr
    have hm : (id, r.2) ∈ s.dispatcher.replies := hid ▸ List.mem_of_find?_eq_some hr
    obtain ⟨-, rfl⟩ := mem_of_find? hx
    exact change_setStage hx (.collected r.2 hw hm) ⟨rfl, rfl, rfl, rfl⟩
  | expire _ hx hs => exact change_leave hx hs
  | @abandon id x limit _ hx he =>
    obtain ⟨-, rfl⟩ := mem_of_find? hx
    exact change_setStage hx (.abandoned limit he) ⟨rfl, rfl, rfl, rfl⟩
  | shut | disown => exact Change.settleIntake (change_of_ends ⟨rfl, rfl, rfl⟩)
  | enter | raise | takeEvent | dropEvents => exact change_of_ends ⟨rfl, rfl, rfl⟩
  | take hr => exact change_withWriter (Writer.moves_take hr)
  | ping hw => exact change_withWriter (Writer.moves_ping hw s.dispatcher)
  | written hr => exact change_withWriter (Writer.moves_learn hr)
  | arrive hr => exact change_withReader (Reader.moves_receive hr)
  | hand hr => exact change_withReader (Reader.moves_hand hr)
  | silence hr => exact change_withReader (Reader.moves_expire hr)
  | conclude => exact change_withReader (Reader.moves_giveUp s.reader s.dispatcher)

/-! ## Moments -/

/-- What the dispatcher of a session does in a moment. -/
def act? (s : Session) : Moment → Option Dispatcher.Act
  | .dispatch b => s.dispatcher.act? b
  | _ => none

/-- A moment is an act of the dispatcher, or the dispatcher does not move. -/
theorem live_cases (s : Session) (m : Moment) :
    (∃ a, s.act? m = some a ∧ s.dispatcher.Ready a ∧
      s.live m = { s with dispatcher := s.dispatcher.perform a }) ∨
    (s.act? m = none ∧ Change s (s.live m)) := by
  cases hs : s.step m with
  | none =>
    have hl : s.live m = s := by rw [live, hs]; rfl
    rw [hl]
    refine .inr ⟨?_, Change.refl s⟩
    cases m with
    | dispatch b => simpa [act?, step, Dispatcher.step_eq] using hs
    | _ => rfl
  | some s' =>
    have hl : s.live m = s' := by rw [live, hs]; rfl
    rw [hl]
    by_cases hm : ∃ b, m = .dispatch b
    · obtain ⟨b, rfl⟩ := hm
      rw [step, Dispatcher.step_eq, Option.map_map] at hs
      obtain ⟨a, ha, rfl⟩ := Option.map_eq_some_iff.mp hs
      exact .inl ⟨a, ha, Dispatcher.ready_of_act? ha, rfl⟩
    · refine .inr ⟨?_, change_step (fun b hb => hm ⟨b, hb⟩) hs⟩
      cases m with
      | dispatch b => exact absurd ⟨b, rfl⟩ hm
      | _ => rfl

end Session

end LedgerClient
