import LedgerClient.Proofs.Dispatcher.Act
import LedgerClient.Session.Moment

/-!
# What happens in one moment of a session

`Step` lists what a moment can make of a session, with all that its task, caller or owner has looked
at, and `step_cases` says that there is nothing else. All that is said of moments elsewhere is said by
cases on steps.
-/

namespace LedgerClient.Session

open Dispatcher (Act)

variable {s s' : Session}

/-! ## The consumer -/

theorem takeEvent_of_cons {event : Stream.Event} {rest : List Stream.Event}
    (h : s.dispatcher.events.items = event :: rest) :
    s.takeEvent = some (event, { s with
      dispatcher := { s.dispatcher with events := { s.dispatcher.events with items := rest } } }) := by
  rw [Session.takeEvent, Mailbox.head, h]

theorem eq_of_takeEvent {event : Stream.Event} (h : s.takeEvent = some (event, s')) :
    ∃ rest, s.dispatcher.events.items = event :: rest ∧ s' = { s with
      dispatcher := { s.dispatcher with events := { s.dispatcher.events with items := rest } } } := by
  cases hi : s.dispatcher.events.items with
  | nil =>
    rw [Session.takeEvent, Mailbox.head, hi] at h
    cases hs : s.dispatcher.events.hasSender <;> simp [hs] at h
  | cons event' rest =>
    rw [takeEvent_of_cons hi] at h
    obtain ⟨rfl, rfl⟩ := Prod.mk.inj (Option.some.inj h)
    exact ⟨rest, rfl, rfl⟩

/-! ## Steps -/

/-- What a moment makes of a session. -/
inductive Step (s : Session) : Moment → Session → Prop
  | enter {call : Call} {command : Command} (hc : call.command? = .ok command)
    (ho : s.isOpen = true) : Step s (.enter call) { s with entered := s.entered ++ [command] }
  | allocate {place : Nat} {command : Command} (hc : s.entered[place]? = some command) :
    Step s (.allocate place) { s with
      entered := s.entered.eraseIdx place
      nextId := s.nextId + 1
      exchanges := s.exchanges ++ [⟨s.nextId, command, .queueing⟩] }
  | enqueue {id : Nat} {x : Exchange} {intake : Mailbox Submission} (hx : s.find? id = some x)
    (hq : x.stage = .queueing) (hp : s.dispatcher.intake.push? ⟨id, x.command, id⟩ = some intake) :
    Step s (.enqueue id)
      (setStage id .waiting { s with dispatcher := { s.dispatcher with intake } }).settleIntake
  | refuse {id : Nat} {x : Exchange} (hx : s.find? id = some x) (hq : x.stage = .queueing)
    (hr : s.dispatcher.intake.hasReceiver = false) :
    Step s (.enqueue id) (s.setStage id (.returned (.error .connectionClosed))).settleIntake
  | collect {id : Nat} {x : Exchange} {r : Ticket × Verdict} (hx : s.find? id = some x)
    (hw : x.stage = .waiting) (hr : s.dispatcher.replies.find? (·.1 == id) = some r) :
    Step s (.collect id) (s.setStage id (.returned (replyOf r.2)))
  | expire {id : Nat} {x : Exchange} {limit : Duration}
    (hl : s.settings.requestTimeout = some limit) (hx : s.find? id = some x)
    (hs : x.stage = .queueing ∨ x.stage = .waiting) : Step s (.expire id) (expire.leave id s)
  | abandon {id : Nat} {x : Exchange} {limit : Duration}
    (hl : s.settings.requestTimeout = some limit) (hx : s.find? id = some x)
    (he : x.stage = .expired) :
    Step s (.abandon id) (setStage id (.returned (.error (.timeout limit))) { s with
      dispatcher := { s.dispatcher with
        abandoned := (s.dispatcher.abandoned.push? id).getD s.dispatcher.abandoned } })
  | shut : Step s .shut s.shut
  | raise (ho : s.isOpen = false) (hs : s.dispatcher.signal ≠ .ownerless) :
    Step s .raise { s with dispatcher := { s.dispatcher with signal := .raised } }
  | disown (he : s.entered = []) (hx : ∀ x ∈ s.exchanges, x.stage.isReturned = true) :
    Step s .disown (settleIntake { s with
      isOpen := false
      dispatcher := { s.dispatcher with
        abandoned := s.dispatcher.abandoned.dropSender
        signal := .ownerless } })
  | takeEvent {event : Stream.Event} {rest : List Stream.Event}
    (hi : s.dispatcher.events.items = event :: rest) :
    Step s .takeEvent { s with
      dispatcher := { s.dispatcher with events := { s.dispatcher.events with items := rest } } }
  | dropEvents : Step s .dropEvents s.dropEvents
  | dispatch {b : Bool} {a : Act} (ha : s.dispatcher.act? b = some a) :
    Step s (.dispatch b) { s with dispatcher := s.dispatcher.perform a }
  | take {r : Writer × Dispatcher} (hr : s.writer.take s.dispatcher = some r) :
    Step s .take (s.withWriter r)
  | ping {writer : Writer} (hw : s.writer.ping = some writer) : Step s .ping { s with writer }
  | written {w : Sender.Written} {r : Writer × Dispatcher}
    (hr : s.writer.learn s.settings.writeTimeout w s.dispatcher = some r) :
    Step s (.written w) (s.withWriter r)
  | arrive {item : Incoming} {r : Reader × Dispatcher}
    (hr : s.reader.receive item s.dispatcher = some r) : Step s (.arrive item) (s.withReader r)
  | hand {r : Reader × Dispatcher} (hr : s.reader.hand s.dispatcher = some r) :
    Step s .hand (s.withReader r)
  | silence {r : Reader × Dispatcher}
    (hr : s.reader.expire s.settings.livenessWindow s.dispatcher = some r) :
    Step s .silence (s.withReader r)
  | conclude {shutdown : Shutdown} {written : SessionEnd} (he : s.ending = none)
    (hp : s.dispatcher.phase = .stopped shutdown) (hw : s.writer.reason? = some written) :
    Step s .conclude { s.withReader (s.reader.giveUp s.dispatcher) with
      ending := some (judge shutdown s.reader.reason? written) }

/-- What happens in a moment is a step. -/
theorem step_cases {m : Moment} (h : s.step m = some s') : Step s m s' := by
  cases m with
  | enter call =>
    rw [step, enter?] at h
    split at h
    · cases h
    · rename_i command hc
      split at h
      · rename_i ho
        exact Option.some.inj h ▸ .enter hc ho
      · cases h
  | allocate place =>
    rw [step, Session.allocate] at h
    split at h
    · cases h
    · rename_i command hc
      exact Option.some.inj h ▸ .allocate hc
  | enqueue id =>
    rw [step, Session.enqueue] at h
    split at h
    · rename_i hx
      split at h
      · split at h
        · cases h
        · rename_i intake hp
          exact Option.some.inj h ▸ .enqueue hx rfl hp
      · rename_i hr
        exact Option.some.inj h ▸ .refuse hx rfl (by simpa using hr)
    · cases h
  | collect id =>
    rw [step, Session.collect] at h
    split at h
    · rename_i hx
      obtain ⟨r, hr, rfl⟩ := Option.map_eq_some_iff.mp h
      exact .collect hx rfl hr
    · cases h
  | expire id =>
    rw [step, Session.expire] at h
    split at h
    · rename_i hl hx
      exact Option.some.inj h ▸ .expire hl hx (.inl rfl)
    · rename_i hl hx
      exact Option.some.inj h ▸ .expire hl hx (.inr rfl)
    · cases h
  | abandon id =>
    rw [step, Session.abandon] at h
    split at h
    · rename_i hl hx
      exact Option.some.inj h ▸ .abandon hl hx rfl
    · cases h
  | shut => exact Option.some.inj h ▸ .shut
  | raise =>
    rw [step, Session.raise] at h
    split at h
    · cases h
    · rename_i ho
      split at h
      · cases h
      · rename_i hs
        exact Option.some.inj h ▸ .raise (by simpa using ho) hs
  | disown =>
    rw [step, Session.disown] at h
    split at h
    · rename_i hd
      obtain ⟨he, hx⟩ := Bool.and_eq_true_iff.mp hd
      exact Option.some.inj h ▸ .disown (List.isEmpty_iff.mp he) (List.all_eq_true.mp hx)
    · cases h
  | takeEvent =>
    obtain ⟨⟨event, s'⟩, ht, rfl⟩ := Option.map_eq_some_iff.mp h
    obtain ⟨rest, hi, rfl⟩ := eq_of_takeEvent ht
    exact .takeEvent hi
  | dropEvents => exact Option.some.inj h ▸ .dropEvents
  | dispatch b =>
    rw [step, Dispatcher.step_eq, Option.map_map] at h
    obtain ⟨a, ha, rfl⟩ := Option.map_eq_some_iff.mp h
    exact .dispatch ha
  | take =>
    obtain ⟨r, hr, rfl⟩ := Option.map_eq_some_iff.mp h
    exact .take hr
  | ping =>
    obtain ⟨w, hw, rfl⟩ := Option.map_eq_some_iff.mp h
    exact .ping hw
  | written w =>
    obtain ⟨r, hr, rfl⟩ := Option.map_eq_some_iff.mp h
    exact .written hr
  | arrive item =>
    obtain ⟨r, hr, rfl⟩ := Option.map_eq_some_iff.mp h
    exact .arrive hr
  | hand =>
    obtain ⟨r, hr, rfl⟩ := Option.map_eq_some_iff.mp h
    exact .hand hr
  | silence =>
    obtain ⟨r, hr, rfl⟩ := Option.map_eq_some_iff.mp h
    exact .silence hr
  | conclude =>
    rw [step, Session.conclude] at h
    split at h
    · rename_i he hp hw
      exact Option.some.inj h ▸ .conclude he hp hw
    · cases h

/-! ## Moments -/

theorem live_of_step {m : Moment} (h : s.step m = some s') : s.live m = s' := by
  rw [live, h]
  rfl

theorem live_of_none {m : Moment} (h : s.step m = none) : s.live m = s := by
  rw [live, h]
  rfl

theorem run_append (s : Session) (earlier later : List Moment) :
    s.run (earlier ++ later) = (s.run earlier).run later :=
  List.foldl_append

/-! ## Runs -/

section Runs

variable {P : Session → Prop}

/-- What every moment keeps is kept by every run. -/
theorem run_of_live (hlive : ∀ {s : Session}, P s → ∀ m, P (s.live m)) (h : P s)
    (moments : List Moment) : P (s.run moments) := by
  induction moments generalizing s with
  | nil => exact h
  | cons m moments ih => exact ih (hlive h m)

theorem live_of_kept {m : Moment} (h : P s) (hstep : ∀ {s' : Session}, s.step m = some s' → P s') :
    P (s.live m) := by
  cases hs : s.step m with
  | none =>
    rw [live_of_none hs]
    exact h
  | some s' =>
    rw [live_of_step hs]
    exact hstep hs

/-- What every step keeps is kept by every run. -/
theorem run_of_step
    (hstep : ∀ {s s' : Session} {m : Moment}, P s → s.step m = some s' → P s') (h : P s)
    (moments : List Moment) : P (s.run moments) :=
  run_of_live (fun h _ => live_of_kept h (hstep h)) h moments

end Runs

end LedgerClient.Session
