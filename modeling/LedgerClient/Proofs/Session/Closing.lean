import LedgerClient.Proofs.Dispatcher.Closing
import LedgerClient.Proofs.Session.Answer

/-!
# Closing a session

An owner closes a session in two steps, and other callers may do anything between and after them.
Once no call is let in any more, every later call is refused and leaves no trace: no id is given out
but to the calls that were let in before (`Shut`). Once the close signal is raised, or nobody is left
to raise it, it stays so, and the dispatcher finishes what it has in its hand and stops, before it
looks at anything that is queued.
-/

namespace LedgerClient

open Dispatcher (Closing ClosedFirst)

namespace Session

variable {s s' : Session}

/-! ## The signal -/

theorem raised_live (h : s.dispatcher.signal.isRaised = true) (m : Moment) :
    (s.live m).dispatcher.signal.isRaised = true := by
  cases ha : s.act? m with
  | some a =>
    obtain ⟨b, rfl, hb⟩ := act?_eq_some ha
    rw [live_dispatch hb, (Dispatcher.frame_perform s.dispatcher a).1]
    exact h
  | none =>
    cases m with
    | takeEvent =>
      obtain ⟨items, he⟩ := live_takeEvent s
      rw [he]
      exact h
    | dropEvents => exact h
    | _ => exact (steady_live ha (by simp) (by simp)).raised h

theorem raised_of_step {m : Moment} (hm : m = .raise ∨ m = .disown) (h : s.step m = some s') :
    s'.dispatcher.signal.isRaised = true := by
  cases step_cases h with
  | raise => rfl
  | disown =>
    rw [signal_settleIntake]
    rfl
  | _ => rcases hm with hm | hm <;> cases hm

/-- A moment takes the dispatcher of a session that is to be closed closer to its stop, or
changes nothing of that. -/
theorem closing_live {d : Dispatcher} {acts : List Dispatcher.Act}
    (h : Closing d acts s.dispatcher) (m : Moment) :
    Closing d (acts ++ (s.act? m).toList) (s.live m).dispatcher := by
  cases ha : s.act? m with
  | some a =>
    obtain ⟨b, rfl, hb⟩ := act?_eq_some ha
    rw [live_dispatch hb]
    exact h.act hb
  | none =>
    have htable : (s.live m).dispatcher.table = s.dispatcher.table := by
      rcases live_cases s m with ⟨a, ha', -⟩ | ⟨-, hc⟩
      · rw [ha] at ha'
        cases ha'
      · exact hc.keeps.1
    have hreplies := replies_live s m
    rw [ha] at hreplies
    rw [Option.toList_none, List.append_nil]
    exact h.same (raised_live h.raised m) (phase_live ha) htable hreplies
      fun _ hr => absurd hr List.not_mem_nil

theorem closing_run (h : s.dispatcher.signal.isRaised = true) (moments : List Moment) :
    Closing s.dispatcher (s.acts moments) (s.run moments).dispatcher := by
  induction moments using List.reverseRecOn with
  | nil => exact .refl h
  | append_singleton moments m ih =>
    rw [run_concat, acts, trail_concat]
    exact closing_live ih m

/-! ## Calls -/

/-- No call is let in any more, and ids are given out only up to this one. -/
structure Shut (last : Nat) (s : Session) : Prop where
  isOpen : s.isOpen = false
  ids : s.nextId + s.entered.length = last

theorem Shut.settleIntake {last : Nat} (h : Shut last s) : Shut last s.settleIntake := by
  obtain ⟨intake, he, -⟩ := settleIntake_eq s
  rw [he]
  exact ⟨h.isOpen, h.ids⟩

theorem shut_step {last : Nat} {m : Moment} (h : Shut last s) (hs : s.step m = some s') :
    Shut last s' := by
  cases step_cases hs with
  | enter _ ho => cases h.isOpen.symm.trans ho
  | allocate hc =>
    obtain ⟨hlt, -⟩ := List.getElem?_eq_some_iff.mp hc
    refine ⟨h.isOpen, ?_⟩
    -- one of the calls that were let in has its id now
    have hids := h.ids
    simp only [List.length_eraseIdx_of_lt hlt]
    omega
  | enqueue | refuse | expire => exact Shut.settleIntake ⟨h.isOpen, h.ids⟩
  | shut | disown => exact Shut.settleIntake ⟨rfl, h.ids⟩
  | _ => exact ⟨h.isOpen, h.ids⟩

theorem shut_run {last : Nat} (h : Shut last s) (moments : List Moment) :
    Shut last (s.run moments) :=
  run_of_step shut_step h moments

/-- A call that comes after a session was shut is refused and leaves no trace. -/
theorem enter?_of_shut {last : Nat} (h : Shut last s) {call : Call} {command : Command}
    (hc : call.command? = .ok command) : s.enter? call = .error .notConnected := by
  rw [enter?, hc]
  simp only [h.isOpen, Bool.false_eq_true, if_false]

theorem live_enter_of_shut {last : Nat} (h : Shut last s) (call : Call) :
    s.live (.enter call) = s := by
  cases hs : s.step (.enter call) with
  | none => exact live_of_none hs
  | some s' =>
    cases step_cases hs with
    | enter _ ho => cases h.isOpen.symm.trans ho

/-! ## Both halves -/

/-- How closing goes before all else that dispatchers and sessions do. -/
structure CloseWins (settings : Connection.Settings) (moments : List Moment) : Prop where
  /-- A dispatcher whose close signal is raised finishes what it has in its hand and stops, whatever
  its queues hold and others do to them, as long as the signal is not taken back. -/
  dispatcher : ∀ (d : Dispatcher) (inputs : List Dispatcher.Moment), d.signal.isRaised = true →
    (∀ m ∈ inputs, m ≠ .input (.signal false)) → ClosedFirst d (d.acts inputs) (d.run inputs)
  /-- In a session the signal is raised by closing it and by giving it up. -/
  raised : ∀ earlier m later, moments = earlier ++ m :: later → m = .raise ∨ m = .disown →
    (((start settings).run earlier).step m).isSome →
      ((start settings).run (earlier ++ [m])).dispatcher.signal.isRaised = true
  /-- From then on the dispatcher of the session finishes what it has in its hand and stops. -/
  session : ∀ earlier later, moments = earlier ++ later →
    ((start settings).run earlier).dispatcher.signal.isRaised = true →
      ClosedFirst ((start settings).run earlier).dispatcher
        (((start settings).run earlier).acts later) ((start settings).run moments).dispatcher
  /-- Once no call is let in any more, every call is refused, however it is mixed with other calls. -/
  refused : ∀ earlier later call command, moments = earlier ++ .shut :: later →
    call.command? = .ok command →
      ((start settings).run moments).enter? call = .error .notConnected
  /-- It leaves no trace. -/
  traceless : ∀ earlier later call, moments = earlier ++ .shut :: later →
    (start settings).run (moments ++ [.enter call]) = (start settings).run moments
  /-- Ids are given out only to the calls that had been let in before. -/
  ids : ∀ earlier later, moments = earlier ++ .shut :: later →
    ((start settings).run moments).nextId + ((start settings).run moments).entered.length =
      ((start settings).run earlier).nextId + ((start settings).run earlier).entered.length

/-- **Closing goes before everything else**, at whatever point of a session it comes. -/
theorem closeWins (settings : Connection.Settings) (moments : List Moment) :
    CloseWins settings moments := by
  have hshut (earlier later : List Moment) (hm : moments = earlier ++ .shut :: later) :
      Shut (((start settings).run earlier).nextId + ((start settings).run earlier).entered.length)
        ((start settings).run moments) := by
    rw [hm, List.append_cons, run_append, run_concat]
    refine shut_run ?_ later
    exact Shut.settleIntake ⟨rfl, rfl⟩
  exact
    { dispatcher := fun d inputs hd hm => (Dispatcher.closing_run hd hm).closedFirst
      raised := fun earlier m later _ hm hs => by
        obtain ⟨s', hs⟩ := Option.isSome_iff_exists.mp hs
        rw [run_concat, live_of_step hs]
        exact raised_of_step hm hs
      session := fun earlier later hm hs => by
        rw [hm, run_append]
        exact (closing_run hs later).closedFirst
      refused := fun earlier later call command hm hc => enter?_of_shut (hshut earlier later hm) hc
      traceless := fun earlier later call hm => by
        rw [run_concat]
        exact live_enter_of_shut (hshut earlier later hm) call
      ids := fun earlier later hm => (hshut earlier later hm).ids }

-- The dispatcher waits with the second event for its consumer as the session is closed, and an answer
-- to the one pending command is queued.
example :
    let settings := { Connection.Settings.ofEndpoint Connection.defaultEndpoint with
      streamCapacity := 1 }
    let full := "\x7b\"type\":\"serverStatus\",\"server_status\":\"full\"\x7d"
    let answer := "\x7b\"type\":\"response\",\"id\":1\x7d"
    let s := (start settings).run
      [.enter .ping, .allocate 0, .enqueue 1, .dispatch true, .dispatch true, .arrive (.text full),
        .hand, .arrive (.text full), .hand, .arrive (.text answer), .hand, .dispatch true,
        .dispatch true, .dispatch true]
    let closing : List Moment := [.dispatch true, .shut, .raise, .dispatch true, .dispatch true]
    s.acts closing = [.giveUp, .stop .closed] ∧
      (s.run closing).dispatcher.replies = [(1, .told (.error .connectionClosed))] :=
  ⟨rfl, rfl⟩

end Session

end LedgerClient
