import LedgerClient.Proofs.Session.Delivery
import LedgerClient.Proofs.Session.Timeout
import LedgerClient.Proofs.Session.Writing
import LedgerClient.Proofs.Socket.Farewell

/-!
# Tasks that wait for one another

The dispatcher waits with a command for room in the queue of the writer, and with an event for its
consumer; the reader waits with a text for the dispatcher, and the writer for commands. The writer
never waits to report a command, as the queue of reports has no bound, and it is never longer with
the socket than a write may take. `Wired` says what a session keeps of that, and from it follows that
a dispatcher with a command in its hand has a writer that goes on by itself (`writer_of_sending`). So
the tasks never wait for one another in a circle.
-/

namespace LedgerClient

open Dispatcher (Act dropHead)

/-! ## How long a write takes -/

namespace Sender

variable {setting : Setting}

theorem now_send_le (setting : Setting) (frame : Outgoing) (s : State) :
    (s.send setting frame).2.now ≤ setting.clock.wake (s.now + setting.writeTimeout.nanos) :=
  outcomeBy_le setting _ s.now (setting.sink s.writes)

theorem now_finish_le (h : 0 < setting.clock.resolution) (reason : SessionEnd) (s : State) :
    (s.finish setting reason).now ≤ setting.clock.wake (s.now + setting.writeTimeout.nanos) := by
  rw [State.finish]
  split
  · exact Nat.le_trans (Nat.le_add_right _ _) (Clock.le_wake h _)
  · have hsend := now_send_le setting .close { s with reason := some reason }
    split
    · rename_i s' he
      rwa [he] at hsend
    · rename_i s' _ _
      exact outcomeBy_le setting (setting.limit s.now) s'.now setting.shutting

end Sender

/-! ## What a session keeps -/

/-- Whether a writer waits for the socket. -/
def Writer.isBusy (w : Writer) : Bool :=
  match w.phase with
  | .writing => true
  | .closing _ => true
  | _ => false

/-- The queues between the dispatcher and the writer: one way is bounded and the other is not, and a
writer that has stopped has given up its end. -/
structure Wired (w : Writer) (d : Dispatcher) : Prop where
  outbound : d.outbound.capacity = some innerCapacity
  failures : d.failures.capacity = none
  fits : d.outbound.items.length ≤ innerCapacity
  released : w.isStopped = true → d.outbound.hasReceiver = false

namespace Wired

variable {w : Writer} {d : Dispatcher}

theorem start (intake events : Nat) :
    Wired .start (.start ⟨intake, innerCapacity, innerCapacity, events⟩) :=
  ⟨rfl, rfl, Nat.zero_le _, fun h => by cases h⟩

theorem of_same {e : Dispatcher} (h : Wired w d) (ho : e.outbound = d.outbound)
    (hf : e.failures = d.failures) : Wired w e := by
  refine ⟨?_, ?_, ?_, ?_⟩
  · exact ho ▸ h.outbound
  · exact hf ▸ h.failures
  · exact ho ▸ h.fits
  · exact ho ▸ h.released

theorem perform {b : Bool} {a : Act} (h : Wired w d) (ha : d.act? b = some a) :
    Wired w (d.perform a) := by
  have ho := Dispatcher.outbound_perform d a
  have hf := Dispatcher.failures_perform d a
  refine ⟨?_, ?_, ?_, ?_⟩
  · rw [ho]
    cases a <;> exact h.outbound
  · rw [hf]
    cases a <;> exact h.failures
  · rw [ho]
    cases a with
    | forward out =>
      have hphase := (Dispatcher.ready_of_act? ha).1
      have hroom : d.outbound.hasRoom = true := by
        by_contra hroom
        rw [Dispatcher.act?, hphase] at ha
        simp only [hroom] at ha
        split at ha
        · cases ha
        · cases ha
      rw [Mailbox.hasRoom, h.outbound] at hroom
      simp only [Dispatcher.Queues.after, Dispatcher.queues, List.length_append,
        List.length_singleton]
      exact of_decide_eq_true hroom
    | _ => exact h.fits
  · rw [ho]
    intro hw
    cases a <;> exact h.released hw

theorem dropHead {w' : Writer} (h : Wired w d) (hw : w'.isStopped = true → w.isStopped = true) :
    Wired w' { d with outbound := Dispatcher.dropHead d.outbound } where
  outbound := h.outbound
  failures := h.failures
  fits := by
    rw [Dispatcher.dropHead, List.length_drop]
    exact Nat.le_trans (Nat.sub_le _ _) h.fits
  released hs := h.released (hw hs)

theorem report {failure : WriteFailure} (h : Wired w d) : Wired w (Writer.report failure d) := by
  rw [Writer.report]
  cases hp : d.failures.push? failure with
  | none => exact h
  | some failures =>
    obtain ⟨-, rfl⟩ := Mailbox.eq_of_push? hp
    exact ⟨h.outbound, h.failures, h.fits, h.released⟩

theorem release {w' : Writer} (h : Wired w d) : Wired w' (Writer.release d) :=
  ⟨h.outbound, h.failures, Nat.zero_le _, fun _ => rfl⟩

theorem goOn {w' : Writer} (h : Wired w d) (hw : w'.isStopped = false) : Wired w' d :=
  ⟨h.outbound, h.failures, h.fits, fun hs => by rw [hw] at hs; cases hs⟩

theorem take {r : Writer × Dispatcher} (h : Wired w d) (ht : w.take d = some r) :
    Wired r.1 r.2 := by
  obtain ⟨hp, hc⟩ := Writer.takes_of_take ht
  cases hc with
  | handed out text ho he => exact h.dropHead (fun hs => by cases hs)
  | reported out error ho he => exact (h.dropHead id).report
  | ended ho => exact h.goOn rfl

theorem learn {limit : Duration} {written : Sender.Written} {r : Writer × Dispatcher}
    (h : Wired w d) (ht : w.learn limit written d = some r) : Wired r.1 r.2 := by
  cases Writer.learns_of_learn ht with
  | done hp => exact h.goOn rfl
  | failed _ reason hp hw => exact h.release
  | late _ reason hp hw => exact h.goOn rfl
  | closed _ reason hp => exact h.release

end Wired

namespace Session

variable {s s' : Session}

theorem wired_settleIntake (h : Wired s.writer s.dispatcher) :
    Wired s.settleIntake.writer s.settleIntake.dispatcher := by
  obtain ⟨intake, he, -⟩ := settleIntake_eq s
  rw [he]
  exact h.of_same rfl rfl

theorem wired_withReader {got : Option String} {r : Reader × Dispatcher}
    (h : Wired s.writer s.dispatcher) (hr : s.reader.Moves got s.dispatcher r) :
    Wired (s.withReader r).writer (s.withReader r).dispatcher := by
  obtain ⟨reader, d⟩ := r
  obtain ⟨frames, rfl, -⟩ := hr
  exact h.of_same rfl rfl

theorem wired_step {m : Moment} (h : Wired s.writer s.dispatcher) (hs : s.step m = some s') :
    Wired s'.writer s'.dispatcher := by
  cases step_cases hs with
  | dispatch ha => exact h.perform ha
  | take hr => exact h.take hr
  | ping hw =>
    obtain ⟨-, rfl⟩ := Writer.ping_eq_some hw
    exact h.goOn rfl
  | written hr => exact h.learn hr
  | arrive hr => exact wired_withReader h (Reader.moves_receive hr)
  | hand hr => exact wired_withReader h (Reader.moves_hand hr)
  | silence hr => exact wired_withReader h (Reader.moves_expire hr)
  | conclude =>
    have hc := wired_withReader h (Reader.moves_giveUp s.reader s.dispatcher)
    exact hc
  | enqueue | refuse | expire | shut | disown => exact wired_settleIntake (h.of_same rfl rfl)
  | _ => exact h.of_same rfl rfl

/-- What the queues of the writer look like after any run. -/
theorem wired_run (settings : Connection.Settings) (moments : List Moment) :
    Wired ((start settings).run moments).writer ((start settings).run moments).dispatcher :=
  run_of_step (P := fun s => Wired s.writer s.dispatcher) wired_step (.start _ _) moments

/-! ## Waiting with a command -/

/-- A dispatcher that waits with a command has a writer that goes on by itself: it takes a
command, or it is busy with the socket. -/
theorem writer_of_sending {w : Writer} {d : Dispatcher} {b : Bool} {out : Outbound}
    (h : Wired w d) (hp : d.phase = .sending out) (hn : d.act? b = none) :
    w.isBusy = true ∨ w.phase = .idle ∧ ∃ first, d.outbound.items.head? = some first := by
  obtain ⟨hc, hroom⟩ := Dispatcher.full_of_sending hp hn
  cases hw : w.phase with
  | idle =>
    refine .inr ⟨rfl, ?_⟩
    rw [Mailbox.hasRoom, h.outbound] at hroom
    cases hi : d.outbound.items with
    | nil =>
      rw [hi] at hroom
      cases hroom
    | cons first rest => exact ⟨first, rfl⟩
  | writing => exact .inl (by rw [Writer.isBusy, hw])
  | closing reason => exact .inl (by rw [Writer.isBusy, hw])
  | stopped reason =>
    -- a writer that has stopped is not there any more
    have hstopped : w.isStopped = true := by rw [Writer.isStopped, Writer.reason?, hw]; rfl
    rw [h.released hstopped] at hc
    cases hc

theorem act?_isSome_of_sending {d : Dispatcher} {out : Outbound} (hp : d.phase = .sending out)
    (h : d.outbound.hasRoom = true ∨ d.outbound.hasReceiver = false) (b : Bool) :
    (d.act? b).isSome := by
  rw [Option.isSome_iff_ne_none]
  intro hn
  obtain ⟨hc, hroom⟩ := Dispatcher.full_of_sending hp hn
  rcases h with h | h
  · rw [hroom] at h
    cases h
  · rw [hc] at h
    cases h

/-- What the writer does next, if the socket comes to this end with what it is busy with. -/
def next (s : Session) (written : Sender.Written) : Moment :=
  match s.writer.phase with
  | .idle => .take
  | _ => .written written

theorem live_take {first : Outbound} (hw : s.writer.phase = .idle)
    (ho : s.dispatcher.outbound.items.head? = some first) :
    (s.step .take).isSome ∧ (s.live .take).dispatcher.phase = s.dispatcher.phase ∧
      (s.live .take).dispatcher.outbound = dropHead s.dispatcher.outbound := by
  obtain ⟨rest, hi⟩ := List.head?_eq_some_iff.mp ho
  have hsome : ∃ r, s.writer.take s.dispatcher = some r := by
    rw [Writer.take, hw]
    simp only [Mailbox.head, hi]
    cases first.command.encode first.id with
    | ok text => exact ⟨_, rfl⟩
    | error error => exact ⟨_, rfl⟩
  obtain ⟨r, hr⟩ := hsome
  have hstep : s.step .take = some (s.withWriter r) := by rw [step, hr]; rfl
  rw [live_of_step hstep, hstep]
  refine ⟨rfl, ?_⟩
  cases (Writer.takes_of_take hr).2 with
  | handed out text _ _ => exact ⟨rfl, rfl⟩
  | reported out error _ _ =>
    simp only [withWriter, Writer.report]
    split <;> exact ⟨rfl, rfl⟩
  | ended hnil =>
    rw [hi] at hnil
    cases hnil

theorem live_written (h : s.writer.isBusy = true) (written : Sender.Written) :
    ∃ r, s.writer.learn s.settings.writeTimeout written s.dispatcher = some r ∧
      s.step (.written written) = some (s.withWriter r) := by
  have hsome : ∃ r, s.writer.learn s.settings.writeTimeout written s.dispatcher = some r := by
    rw [Writer.learn]
    cases hw : s.writer.phase with
    | writing =>
      simp only
      split
      · exact ⟨_, rfl⟩
      · exact ⟨_, rfl⟩
    | closing reason => exact ⟨_, rfl⟩
    | idle =>
      rw [Writer.isBusy, hw] at h
      cases h
    | stopped reason =>
      rw [Writer.isBusy, hw] at h
      cases h
  obtain ⟨r, hr⟩ := hsome
  exact ⟨r, hr, by rw [step, hr]; rfl⟩

theorem act?_isSome_of_take {out first : Outbound} (h : Wired s.writer s.dispatcher)
    (hp : s.dispatcher.phase = .sending out) (hw : s.writer.phase = .idle)
    (ho : s.dispatcher.outbound.items.head? = some first) (b : Bool) :
    ((s.live .take).dispatcher.act? b).isSome := by
  obtain ⟨-, hphase, hqueue⟩ := live_take hw ho
  refine act?_isSome_of_sending (hphase.trans hp) (.inl ?_) b
  have hfits := h.fits
  have hpos : 0 < innerCapacity := by decide
  rw [hqueue, Mailbox.hasRoom]
  simp only [dropHead, h.outbound, List.length_drop]
  exact decide_eq_true (by omega)

theorem act?_isSome_of_release {d : Dispatcher} {out : Outbound} (hp : d.phase = .sending out)
    (b : Bool) : ((Writer.release d).act? b).isSome :=
  act?_isSome_of_sending (d := Writer.release d) hp (.inr rfl) b

/-- A dispatcher waits with a command for two moves of the writer at most, whatever comes of its
writes: the writer takes a command, or it stops. -/
theorem freed {out : Outbound} {b : Bool} (h : Wired s.writer s.dispatcher)
    (hp : s.dispatcher.phase = .sending out) (hn : s.dispatcher.act? b = none)
    (first second : Sender.Written) :
    (s.step (s.next first)).isSome ∧
      ((∀ b, ((s.live (s.next first)).dispatcher.act? b).isSome) ∨
        ∀ b, (((s.live (s.next first)).live
          ((s.live (s.next first)).next second)).dispatcher.act? b).isSome) := by
  rcases writer_of_sending h hp hn with hbusy | ⟨hw, out', ho⟩
  · obtain ⟨r, hr, hstep⟩ := live_written hbusy first
    have hnext : s.next first = .written first := by
      unfold Writer.isBusy at hbusy
      unfold next
      cases hw : s.writer.phase <;> simp [hw] at hbusy ⊢
    rw [hnext, live_of_step hstep, hstep]
    refine ⟨rfl, ?_⟩
    cases Writer.learns_of_learn hr with
    | done hw =>
      -- the queue is as full as before
      have hdone : Wired { s.writer with phase := .idle } s.dispatcher := h.goOn rfl
      refine .inr fun b => ?_
      rcases writer_of_sending hdone hp hn with hidle | ⟨-, out', ho⟩
      · cases hidle
      · exact act?_isSome_of_take (s := s.withWriter ({ s.writer with phase := .idle }, s.dispatcher))
          hdone hp rfl ho b
    | failed _ reason hw hf => exact .inl fun b => act?_isSome_of_release hp b
    | late _ reason hw hf =>
      -- the close frame is the last write
      refine .inr fun b => ?_
      exact act?_isSome_of_release hp b
    | closed _ reason hw => exact .inl fun b => act?_isSome_of_release hp b
  · have hnext : s.next first = .take := by rw [next, hw]
    rw [hnext]
    exact ⟨(live_take hw ho).1, .inl fun b => act?_isSome_of_take h hp hw ho b⟩

/-! ## Who waits for whom -/

/-- The tasks of a session, and the consumer of its events. -/
inductive Task
  | dispatcher
  | writer
  | reader
  | consumer

/-- A task cannot go on before another one does something. A dispatcher with nothing to do waits for
nobody in particular. -/
inductive Awaits (s : Session) : Task → Task → Prop
  /-- The dispatcher has a command in its hand. -/
  | room (out : Outbound) (hp : s.dispatcher.phase = .sending out)
    (hn : ∀ b, s.step (.dispatch b) = none) : Awaits s .dispatcher .writer
  /-- It has an event in its hand. -/
  | consumer (event : Stream.Event) (hp : s.dispatcher.phase = .delivering event)
    (hn : ∀ b, s.step (.dispatch b) = none) : Awaits s .dispatcher .consumer
  /-- The writer has nothing to write. -/
  | command (hp : s.writer.phase = .idle) (hn : s.step .take = none) : Awaits s .writer .dispatcher
  /-- The reader has a text in its hand. -/
  | frame (text : String) (hp : s.reader = .holding text) (hn : s.step .hand = none) :
    Awaits s .reader .dispatcher

theorem act?_of_step_eq_none {b : Bool} (h : s.step (.dispatch b) = none) :
    s.dispatcher.act? b = none := by
  rwa [step, Option.map_eq_none_iff, Dispatcher.step_eq, Option.map_eq_none_iff] at h

theorem not_awaits_of_room (h : Wired s.writer s.dispatcher)
    (hd : Awaits s .dispatcher .writer) : ¬ Awaits s .writer .dispatcher := by
  intro hw
  cases hd with
  | room out hp hn =>
    cases hw with
    | command hidle htake =>
      rcases writer_of_sending h hp (act?_of_step_eq_none (hn true)) with hbusy | ⟨-, first, ho⟩
      · rw [Writer.isBusy, hidle] at hbusy
        cases hbusy
      · have hsome := (live_take hidle ho).1
        rw [htake] at hsome
        cases hsome

theorem not_transGen_of_rank {α : Type} {r : α → α → Prop} (rank : α → Nat)
    (h : ∀ a b, r a b → rank b < rank a) (a : α) : ¬ Relation.TransGen r a a := by
  have hfalls : ∀ b, Relation.TransGen r a b → rank b < rank a := by
    intro b hab
    induction hab with
    | single hb => exact h _ _ hb
    | tail _ hb ih => exact Nat.lt_trans (h _ _ hb) ih
  exact fun ha => Nat.lt_irrefl _ (hfalls a ha)

/-- No task waits for itself through others. -/
theorem awaits_acyclic (h : Wired s.writer s.dispatcher) (t : Task) :
    ¬ Relation.TransGen (Awaits s) t t := by
  -- the writer stands below the dispatcher while the dispatcher waits for it, and else above
  by_cases hroom : Awaits s .dispatcher .writer
  · refine not_transGen_of_rank (fun
      | .consumer => 0
      | .writer => 0
      | .dispatcher => 1
      | .reader => 2) ?_ t
    intro t u htu
    cases htu with
    | command hp hn => exact absurd (.command hp hn) (not_awaits_of_room h hroom)
    | _ => decide
  · refine not_transGen_of_rank (fun
      | .consumer => 0
      | .dispatcher => 1
      | .writer => 2
      | .reader => 2) ?_ t
    intro t u htu
    cases htu with
    | room out hp hn => exact absurd (.room out hp hn) hroom
    | _ => decide

theorem waiting_cases {d : Dispatcher} {b : Bool} (hs : ∀ reason, d.phase ≠ .stopped reason)
    (hn : d.act? b = none) :
    d.phase = .idle ∧ d.Unoccupied ∨ (∃ out, d.phase = .sending out) ∨
      ∃ event, d.phase = .delivering event ∧ d.signal.isRaised = false := by
  cases hp : d.phase with
  | idle => exact .inl ⟨rfl, Dispatcher.unoccupied_of_act? hp hn⟩
  | sending out => exact .inr (.inl ⟨out, rfl⟩)
  | delivering event =>
    rw [Dispatcher.act?_of_delivering hp] at hn
    exact .inr (.inr ⟨event, rfl, (Dispatcher.release?_eq_none_iff.mp hn).2.2⟩)
  | stopped reason => exact absurd hp (hs reason)

/-- How the tasks of a session wait for one another after a run. -/
structure NeverDeadlocked (settings : Connection.Settings) (moments : List Moment) : Prop where
  /-- Until the dispatcher stops, it can go on, or its writer takes a command or is busy with the
  socket, or there is nothing to do, or the consumer has left the queue of events full and the
  session is not to be closed. -/
  goesOn : (∀ reason, ((start settings).run moments).dispatcher.phase ≠ .stopped reason) → ∀ b,
    (((start settings).run moments).step (.dispatch b)).isSome ∨
    (((start settings).run moments).step .take).isSome ∨
    (((start settings).run moments).writer.isBusy = true ∧
      ∀ written, (((start settings).run moments).step (.written written)).isSome) ∨
    (((start settings).run moments).dispatcher.phase = .idle ∧
      ((start settings).run moments).dispatcher.Unoccupied) ∨
    ∃ event, ((start settings).run moments).dispatcher.phase = .delivering event ∧
      ((start settings).run moments).dispatcher.events.hasReceiver = true ∧
      ((start settings).run moments).dispatcher.events.items.length = settings.streamCapacity ∧
      ((start settings).run moments).dispatcher.signal.isRaised = false
  /-- What a sender is busy with comes to an end by the time limit of a write, the close frame
  included. -/
  timely : ∀ (setting : Sender.Setting) (state : Sender.State), 0 < setting.clock.resolution →
    (∀ frame, (state.send setting frame).2.now ≤
      setting.clock.wake (state.now + setting.writeTimeout.nanos)) ∧
    ∀ reason, (state.finish setting reason).now ≤
      setting.clock.wake (state.now + setting.writeTimeout.nanos)
  /-- The writer does not wait to report a command, and no caller waits to give up its id. -/
  unbounded : ((start settings).run moments).dispatcher.failures.hasRoom = true ∧
    ((start settings).run moments).dispatcher.abandoned.hasRoom = true
  /-- While the dispatcher waits with a command, the writer does not wait for the dispatcher. -/
  apart : ((start settings).run moments).Awaits .dispatcher .writer →
    ¬ ((start settings).run moments).Awaits .writer .dispatcher
  /-- After two moves of the writer at most, the dispatcher goes on, whatever comes of the writes. -/
  freed : ∀ b out, ((start settings).run moments).dispatcher.phase = .sending out →
    ((start settings).run moments).step (.dispatch b) = none → ∀ first second,
      ∃ later : List Moment,
        (later = [((start settings).run moments).next first] ∨
          later = [((start settings).run moments).next first,
            (((start settings).run moments).live
              (((start settings).run moments).next first)).next second]) ∧
        ∀ b', (((start settings).run (moments ++ later)).step (.dispatch b')).isSome
  /-- No task waits for itself through others. -/
  acyclic : ∀ t, ¬ Relation.TransGen (((start settings).run moments).Awaits) t t

/-- **The tasks of a session never wait for one another in a circle**, whatever callers, owners, the
peer and the consumer do. -/
theorem neverDeadlocked (settings : Connection.Settings) (moments : List Moment) :
    NeverDeadlocked settings moments where
  goesOn hs b := by
    have hwired := wired_run settings moments
    have hdelivery := (flow_run settings moments).delivery
    rw [settings_run] at hdelivery
    generalize (start settings).run moments = s at hs hwired hdelivery ⊢
    cases hn : s.step (.dispatch b) with
    | some s' => exact .inl rfl
    | none =>
      have hact := act?_of_step_eq_none hn
      refine .inr ?_
      rcases waiting_cases hs hact with hidle | ⟨out, hp⟩ | ⟨event, hp, hquiet⟩
      · exact .inr (.inr (.inl hidle))
      · rcases writer_of_sending hwired hp hact with hbusy | ⟨hidle, first, ho⟩
        · refine .inr (.inl ⟨hbusy, fun written => ?_⟩)
          obtain ⟨r, -, hstep⟩ := live_written hbusy written
          rw [hstep]
          rfl
        · exact .inl (live_take hidle ho).1
      · obtain ⟨hc, hfull⟩ := hdelivery.full_of_waiting hp hact
        exact .inr (.inr (.inr ⟨event, hp, hc, hfull, hquiet⟩))
  timely setting state h :=
    ⟨fun frame => Sender.now_send_le setting frame state, fun reason => Sender.now_finish_le h reason state⟩
  unbounded := by
    have hfailures := (wired_run settings moments).failures
    have habandoned := (sound_run (sound_start settings) moments).roomy
    rw [Mailbox.hasRoom, Mailbox.hasRoom, hfailures, habandoned]
    exact ⟨rfl, rfl⟩
  apart := not_awaits_of_room (wired_run settings moments)
  freed b out hp hn first second := by
    obtain ⟨-, hfirst | hsecond⟩ :=
      Session.freed (wired_run settings moments) hp (act?_of_step_eq_none hn) first second
    · refine ⟨_, .inl rfl, fun b' => ?_⟩
      rw [run_append]
      have hsome := hfirst b'
      simp only [step, Dispatcher.step_eq, Option.isSome_map]
      exact hsome
    · refine ⟨_, .inr rfl, fun b' => ?_⟩
      rw [run_append]
      have hsome := hsecond b'
      simp only [step, Dispatcher.step_eq, Option.isSome_map]
      exact hsome
  acyclic := awaits_acyclic (wired_run settings moments)

end Session

end LedgerClient
