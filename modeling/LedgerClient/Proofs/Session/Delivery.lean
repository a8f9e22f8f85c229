import LedgerClient.Proofs.Session.Change
import LedgerClient.Proofs.Session.Inflow
import LedgerClient.Proofs.Trail

/-!
# The events of a session

A text that the reader gets off the socket goes through its hand and the queue of frames to the
dispatcher (`Inflow`), and from there, if it brings an event, through the dispatcher's hand and the
queue of events to the consumer (`Dispatcher.Delivery`). Both ways keep the order. A session only
ever raises the close signal, so whatever the callers, the consumer and the tasks do and in
whichever order, the consumer receives the first of the events that the peer sent, and all of them
if the frames come to their end while it is there.
-/

namespace LedgerClient

open Dispatcher (Act Delivery Steady)

namespace Session

/-! ## What a run leaves behind -/

/-- What the dispatcher of a session does in a run, in order. -/
def acts (s : Session) (moments : List Moment) : List Act :=
  trail live (fun s m => (s.act? m).toList) s moments

/-- The frames that the dispatcher of a session deals with in a run, in order. -/
def handled (s : Session) (moments : List Moment) : List String :=
  (s.acts moments).filterMap Act.frame?

/-- The event that the consumer receives in a moment. -/
def event? (s : Session) : Moment → Option Stream.Event
  | .takeEvent => s.takeEvent.map (·.1)
  | _ => none

/-- The events that the consumer receives in a run, in order. -/
def received (s : Session) (moments : List Moment) : List Stream.Event :=
  trail live (fun s m => (s.event? m).toList) s moments

/-- The text that the reader gets off the socket in a moment. -/
def text? (s : Session) : Moment → Option String
  | .arrive item => (s.reader.receive item s.dispatcher).bind fun _ => item.text?
  | _ => none

/-- The texts that the reader gets off the socket in a run, in order. -/
def arrived (s : Session) (moments : List Moment) : List String :=
  trail live (fun s m => (s.text? m).toList) s moments

theorem handled_concat (s : Session) (moments : List Moment) (m : Moment) :
    s.handled (moments ++ [m]) =
      s.handled moments ++ (((s.run moments).act? m).bind Act.frame?).toList := by
  rw [handled, acts, trail_concat, List.filterMap_append]
  refine congrArg (s.handled moments ++ ·) ?_
  change (((s.run moments).act? m).toList).filterMap Act.frame? = _
  cases h : (s.run moments).act? m with
  | none => rfl
  | some a => cases hf : a.frame? <;> simp [hf]

theorem received_concat (s : Session) (moments : List Moment) (m : Moment) :
    s.received (moments ++ [m]) = s.received moments ++ ((s.run moments).event? m).toList :=
  trail_concat s moments m

theorem arrived_concat (s : Session) (moments : List Moment) (m : Moment) :
    s.arrived (moments ++ [m]) = s.arrived moments ++ ((s.run moments).text? m).toList :=
  trail_concat s moments m

/-! ## Moments -/

/-- Whether a moment is the doing of a caller, an owner or the writer. -/
def Moment.isAside : Moment → Bool
  | .dispatch _ => false
  | .takeEvent => false
  | .dropEvents => false
  | .arrive _ => false
  | .hand => false
  | .silence => false
  | .conclude => false
  | _ => true

/-- What callers, owners and the writer leave as it is. -/
structure Aside (s s' : Session) : Prop where
  steady : Steady s.dispatcher s'.dispatcher
  reader : s'.reader = s.reader
  frames : s'.dispatcher.frames = s.dispatcher.frames

theorem Aside.settleIntake {s s' : Session} (h : Aside s s') : Aside s s'.settleIntake := by
  obtain ⟨intake, he, -⟩ := settleIntake_eq s'
  rw [he]
  exact ⟨⟨h.steady.phase, h.steady.events, h.steady.delivers, h.steady.raised⟩, h.reader, h.frames⟩

theorem aside_withWriter {s : Session} {r : Writer × Dispatcher}
    (h : s.writer.Moves s.dispatcher r) : Aside s (s.withWriter r) := by
  obtain ⟨w, d⟩ := r
  obtain ⟨outbound, failures, rfl, -⟩ := h
  exact ⟨⟨rfl, rfl, rfl, id⟩, rfl, rfl⟩

theorem aside_step {s s' : Session} {m : Moment} (hm : m.isAside = true)
    (h : s.step m = some s') : Aside s s' := by
  cases step_cases h with
  | enter | allocate | collect | abandon | ping => exact ⟨⟨rfl, rfl, rfl, id⟩, rfl, rfl⟩
  | enqueue | refuse | expire | shut => exact Aside.settleIntake ⟨⟨rfl, rfl, rfl, id⟩, rfl, rfl⟩
  | raise => exact ⟨⟨rfl, rfl, rfl, fun _ => rfl⟩, rfl, rfl⟩
  | disown => exact Aside.settleIntake ⟨⟨rfl, rfl, rfl, fun _ => rfl⟩, rfl, rfl⟩
  | take hr => exact aside_withWriter (Writer.moves_take hr)
  | written hr => exact aside_withWriter (Writer.moves_learn hr)
  | _ => cases hm

theorem steady_withReader {s : Session} {got : Option String} {r : Reader × Dispatcher}
    (h : s.reader.Moves got s.dispatcher r) : Steady s.dispatcher (s.withReader r).dispatcher := by
  obtain ⟨reader, d⟩ := r
  obtain ⟨frames, rfl, -⟩ := h
  exact ⟨rfl, rfl, rfl, id⟩

/-! ## The consumer -/

theorem live_takeEvent (s : Session) :
    ∃ items, s.live .takeEvent = { s with
      dispatcher := { s.dispatcher with events := { s.dispatcher.events with items } } } := by
  cases h : s.takeEvent with
  | none => exact ⟨s.dispatcher.events.items, live_of_none (by rw [step, h]; rfl)⟩
  | some r =>
    obtain ⟨event, s'⟩ := r
    obtain ⟨rest, -, rfl⟩ := eq_of_takeEvent h
    exact ⟨rest, live_of_step (by rw [step, h]; rfl)⟩

/-! ## Runs -/

/-- Where the frames and the events of a session are. -/
structure Flow (handled arrived : List String) (received : List Stream.Event) (s : Session) :
    Prop where
  inflow : Inflow handled arrived s.reader s.dispatcher
  delivery : Delivery s.settings.streamCapacity handled received s.dispatcher

theorem flow_start (settings : Connection.Settings) : Flow [] [] [] (start settings) where
  inflow := .start _
  delivery := .start
    ⟨settings.outgoingCapacity, innerCapacity, innerCapacity, settings.streamCapacity⟩

section

variable {handled arrived : List String} {received : List Stream.Event} {s s' : Session}

theorem Flow.aside (h : Flow handled arrived received s) (ha : Aside s s')
    (hs : s'.settings = s.settings) : Flow handled arrived received s' :=
  ⟨ha.reader ▸ h.inflow.of_same ha.steady.phase ha.frames, hs ▸ h.delivery.steady ha.steady⟩

theorem Flow.perform {b : Bool} {a : Act} (h : Flow handled arrived received s)
    (ha : s.dispatcher.act? b = some a) :
    Flow (handled ++ a.frame?.toList) arrived received
      { s with dispatcher := s.dispatcher.perform a } :=
  ⟨h.inflow.perform ha, h.delivery.perform ha⟩

theorem Flow.takeEvent {event : Stream.Event} (h : Flow handled arrived received s)
    (hs : s.takeEvent = some (event, s')) : Flow handled arrived (received ++ [event]) s' := by
  obtain ⟨rest, hi, rfl⟩ := eq_of_takeEvent hs
  exact ⟨h.inflow.of_same rfl rfl, h.delivery.receive hi⟩

theorem nothing_of_none {m : Moment} (h : s.step m = none) :
    s.act? m = none ∧ s.text? m = none ∧ s.event? m = none := by
  refine ⟨?_, ?_, ?_⟩
  · cases m with
    | dispatch b => simpa [act?, step, Dispatcher.step_eq] using h
    | _ => rfl
  · cases m with
    | arrive item =>
      rw [step, Option.map_eq_none_iff] at h
      rw [text?, h, Option.bind_none]
    | _ => rfl
  · cases m with
    | takeEvent =>
      rw [step, Option.map_eq_none_iff] at h
      rw [event?, h, Option.map_none]
    | _ => rfl

theorem settings_live (s : Session) (m : Moment) : (s.live m).settings = s.settings := by
  rcases live_cases s m with ⟨a, -, -, he⟩ | ⟨-, hc⟩
  · rw [he]
  · cases hc with
    | aside b => exact b.settings
    | allocated command b => exact b.settings
    | staged x stage d submitted hx p b => exact b.settings

theorem settings_run (s : Session) (moments : List Moment) :
    (s.run moments).settings = s.settings :=
  run_of_live (P := (·.settings = s.settings)) (fun h m => (settings_live _ m).trans h) rfl moments

/-- A moment moves frames and events on, and leaves behind what got to the end of its way. -/
theorem flow_live (h : Flow handled arrived received s) (m : Moment) :
    Flow (handled ++ ((s.act? m).bind Act.frame?).toList) (arrived ++ (s.text? m).toList)
      (received ++ (s.event? m).toList) (s.live m) := by
  have hsame {s' : Session} (hf : Flow handled arrived received s') :
      Flow (handled ++ (none : Option String).toList) (arrived ++ (none : Option String).toList)
        (received ++ (none : Option Stream.Event).toList) s' := by
    simp only [Option.toList_none, List.append_nil]
    exact hf
  cases hs : s.step m with
  | none =>
    obtain ⟨ha, ht, he⟩ := nothing_of_none hs
    rw [ha, ht, he, live_of_none hs]
    exact hsame h
  | some s' =>
    have hl := live_of_step hs
    have hset : s'.settings = s.settings := hl ▸ settings_live s m
    rw [hl]
    cases step_cases hs with
    | dispatch ha =>
      simp only [act?, ha, text?, event?, Option.bind_some, Option.toList_none, List.append_nil]
      exact h.perform ha
    | takeEvent hi =>
      have ht := takeEvent_of_cons hi
      simp only [act?, text?, event?, ht, Option.bind_none, Option.map_some, Option.toList_none,
        Option.toList_some, List.append_nil]
      exact h.takeEvent ht
    | dropEvents => exact hsame ⟨h.inflow.of_same rfl rfl, h.delivery.leave⟩
    | arrive hr =>
      simp only [act?, text?, event?, hr, Option.bind_none, Option.bind_some, Option.toList_none,
        List.append_nil]
      exact ⟨h.inflow.receive hr, h.delivery.steady (steady_withReader (Reader.moves_receive hr))⟩
    | hand hr =>
      exact hsame
        ⟨h.inflow.hand hr, h.delivery.steady (steady_withReader (Reader.moves_hand hr))⟩
    | silence hr =>
      exact hsame
        ⟨h.inflow.expire hr, h.delivery.steady (steady_withReader (Reader.moves_expire hr))⟩
    | conclude _ hp =>
      exact hsame ⟨h.inflow.giveUp hp,
        h.delivery.steady (steady_withReader (Reader.moves_giveUp s.reader s.dispatcher))⟩
    | _ => exact hsame (h.aside (aside_step rfl hs) hset)

/-- Where the frames and the events of a session are after any run. -/
theorem flow_run (settings : Connection.Settings) (moments : List Moment) :
    Flow ((start settings).handled moments) ((start settings).arrived moments)
      ((start settings).received moments) ((start settings).run moments) := by
  induction moments using List.reverseRecOn with
  | nil => exact flow_start settings
  | append_singleton moments m ih =>
    rw [handled_concat, arrived_concat, received_concat, run_concat]
    exact flow_live ih m

/-! ## Waiting for the consumer -/

theorem steady_live {m : Moment} (ha : s.act? m = none) (ht : m ≠ .takeEvent)
    (hl : m ≠ .dropEvents) : Steady s.dispatcher (s.live m).dispatcher := by
  refine live_of_kept (P := fun t => Steady s.dispatcher t.dispatcher) ⟨rfl, rfl, rfl, id⟩ ?_
  intro s' hs
  cases step_cases hs with
  | takeEvent => exact absurd rfl ht
  | dropEvents => exact absurd rfl hl
  | dispatch ha' => cases ha.symm.trans ha'
  | arrive hr => exact steady_withReader (Reader.moves_receive hr)
  | hand hr => exact steady_withReader (Reader.moves_hand hr)
  | silence hr => exact steady_withReader (Reader.moves_expire hr)
  | conclude => exact steady_withReader (Reader.moves_giveUp s.reader s.dispatcher)
  | _ => exact (aside_step rfl hs).steady

theorem phase_live {m : Moment} (ha : s.act? m = none) :
    (s.live m).dispatcher.phase = s.dispatcher.phase := by
  cases m with
  | takeEvent =>
    obtain ⟨items, he⟩ := live_takeEvent s
    rw [he]
  | dropEvents => rfl
  | _ => exact (steady_live ha (by simp) (by simp)).phase

theorem live_dispatch {b : Bool} {a : Act} (h : s.dispatcher.act? b = some a) :
    s.live (.dispatch b) = { s with dispatcher := s.dispatcher.perform a } :=
  live_of_step (by rw [step, Dispatcher.step_eq, h]; rfl)

theorem act?_eq_some {m : Moment} {a : Act} (h : s.act? m = some a) :
    ∃ b, m = .dispatch b ∧ s.dispatcher.act? b = some a := by
  cases m with
  | dispatch b => exact ⟨b, rfl, h⟩
  | _ => cases h

theorem stopped_live {reason : Shutdown} (h : s.dispatcher.phase = .stopped reason) (m : Moment) :
    (s.live m).dispatcher.phase = .stopped reason := by
  refine (phase_live ?_).trans h
  by_contra ha
  obtain ⟨a, ha⟩ := Option.ne_none_iff_exists'.mp ha
  obtain ⟨b, rfl, hb⟩ := act?_eq_some ha
  exact absurd h ((Dispatcher.ready_of_act? hb).phase_ne reason)

theorem delivers_live (h : s.dispatcher.delivers = false) (m : Moment) :
    (s.live m).dispatcher.delivers = false := by
  cases ha : s.act? m with
  | some a =>
    obtain ⟨b, rfl, hb⟩ := act?_eq_some ha
    rw [live_dispatch hb, (Dispatcher.frame_perform s.dispatcher a).2]
    cases a <;> first | rfl | exact h
  | none =>
    cases m with
    | takeEvent =>
      obtain ⟨items, he⟩ := live_takeEvent s
      rw [he]
      exact h
    | dropEvents => exact h
    | _ => exact (steady_live ha (by simp) (by simp)).delivers.trans h

theorem delivers_of_forget {moments : List Moment} (h : .forget ∈ s.acts moments) :
    (s.run moments).dispatcher.delivers = false := by
  induction moments using List.reverseRecOn with
  | nil => cases h
  | append_singleton moments m ih =>
    rw [run_concat]
    rw [acts, trail_concat, List.mem_append] at h
    rcases h with h | h
    · exact delivers_live (ih h) m
    · obtain ⟨b, rfl, hb⟩ := act?_eq_some (Option.mem_toList.mp h)
      rw [live_dispatch (s := s.run moments) hb]
      rfl

theorem received_replicate (s : Session) :
    s.received (.replicate s.dispatcher.events.items.length .takeEvent) =
      s.dispatcher.events.items := by
  generalize hi : s.dispatcher.events.items = items
  induction items generalizing s with
  | nil => rfl
  | cons event rest ih =>
    have ht := takeEvent_of_cons hi
    have hl := live_of_step (m := .takeEvent) (by rw [step, ht]; rfl)
    rw [List.length_cons, List.replicate_succ, received, trail, hl]
    simp only [event?, ht, Option.map_some, Option.toList_some, List.singleton_append]
    exact congrArg (event :: ·) (ih _ rfl)

end

theorem received_of_framesEnded (settings : Connection.Settings) (moments : List Moment)
    (hp : ((start settings).run moments).dispatcher.phase = .stopped .framesEnded)
    (hc : ((start settings).run moments).dispatcher.events.hasReceiver = true) :
    (start settings).received moments ++ ((start settings).run moments).dispatcher.events.items =
      ((start settings).handled moments).filterMap eventOf? := by
  have ho := (flow_run settings moments).delivery.order_of_not_mute fun hm => by
    rcases hm with hm | ⟨-, hm | hm⟩
    · rw [hm] at hc
      cases hc
    · rw [hm] at hp
      cases hp
    · rw [hm] at hp
      cases hp
  rwa [Dispatcher.handEvent, hp, List.append_nil] at ho

/-- How the events of a session reach its consumer in a run. -/
structure DeliveredInOrder (settings : Connection.Settings) (moments : List Moment) : Prop where
  /-- What the consumer receives are the first of the events that the handled frames bring. -/
  ordered : (start settings).received moments <+:
    ((start settings).handled moments).filterMap eventOf?
  /-- Frames are handled in the order in which they came in. -/
  arrival : (start settings).handled moments <+: (start settings).arrived moments
  /-- If the frames have come to their end and the consumer is there, every frame was handled, and
  every event was received or is queued. -/
  whole : ((start settings).run moments).dispatcher.phase = .stopped .framesEnded →
    ((start settings).run moments).dispatcher.events.hasReceiver = true →
      (start settings).handled moments = (start settings).arrived moments ∧
      (start settings).received moments ++
          ((start settings).run moments).dispatcher.events.items =
        ((start settings).handled moments).filterMap eventOf?
  /-- A consumer that then takes what is queued has received every event. -/
  drained : ((start settings).run moments).dispatcher.phase = .stopped .framesEnded →
    ((start settings).run moments).dispatcher.events.hasReceiver = true →
      (start settings).received (moments ++
          .replicate ((start settings).run moments).dispatcher.events.items.length .takeEvent) =
        ((start settings).handled moments).filterMap eventOf?
  /-- A frame whose type names a kind of event leaves the table alone, whatever becomes of it. -/
  streams : ∀ b frame kind,
    ((start settings).run moments).dispatcher.act? b = some (.handle frame) →
    kindOf? frame = some kind →
      ((start settings).run (moments ++ [.dispatch b])).dispatcher.table =
        ((start settings).run moments).dispatcher.table
  /-- So does getting rid of an event. -/
  releases : ∀ b event,
    ((start settings).run moments).dispatcher.phase = .delivering event →
      ((start settings).run (moments ++ [.dispatch b])).dispatcher.table =
        ((start settings).run moments).dispatcher.table
  /-- The dispatcher waits with an event only for a consumer that is there and has left the queue
  full, and as soon as one event is taken from it the dispatcher has something to do. -/
  waits : 0 < settings.streamCapacity → ∀ b event,
    ((start settings).run moments).dispatcher.phase = .delivering event →
    ((start settings).run moments).dispatcher.step b = none →
      ((start settings).run moments).dispatcher.events.hasReceiver = true ∧
      ((start settings).run moments).dispatcher.events.items.length = settings.streamCapacity ∧
      ∀ b', (((start settings).run (moments ++ [.takeEvent])).dispatcher.step b').isSome
  /-- Once the consumer is gone, the dispatcher never waits with an event. -/
  free : ((start settings).run moments).dispatcher.events.hasReceiver = false → ∀ b event,
    ((start settings).run moments).dispatcher.phase = .delivering event →
      (((start settings).run moments).dispatcher.step b).isSome
  /-- Once it has found the consumer gone, it does not take an event in hand any more. -/
  deaf : .forget ∈ (start settings).acts moments → ∀ event,
    ((start settings).run moments).dispatcher.phase ≠ .delivering event

/-- **Events are delivered in order, without loss and without doubling**, whatever callers, the
consumer and the tasks of a session do, and in whichever order. -/
theorem deliveredInOrder (settings : Connection.Settings) (moments : List Moment) :
    DeliveredInOrder settings moments := by
  obtain ⟨inflow, delivery⟩ := flow_run settings moments
  rw [settings_run] at delivery
  exact
    { ordered := (List.prefix_append _ _).trans delivery.isPrefix
      arrival := inflow.isPrefix
      whole := fun hp hc =>
        ⟨(inflow.whole hp).1, received_of_framesEnded settings moments hp hc⟩
      drained := by
        intro hp hc
        rw [received, trail_append]
        exact (congrArg _ (received_replicate ((start settings).run moments))).trans
          (received_of_framesEnded settings moments hp hc)
      streams := by
        intro b frame kind ha hk
        rw [run_concat, live_dispatch ha]
        exact (Dispatcher.handleFrame_of_kind hk _).1
      releases := by
        intro b event hp
        rw [run_concat]
        cases ha : ((start settings).run moments).dispatcher.act? b with
        | none => rw [live_of_none (by rw [step, Dispatcher.step_eq, ha]; rfl)]
        | some a =>
          rw [live_dispatch ha]
          exact (Dispatcher.perform_of_delivering hp ha).1
      waits := by
        intro hcap b event hp hs
        rw [Dispatcher.step_eq, Option.map_eq_none_iff] at hs
        obtain ⟨hc, hfull⟩ := delivery.full_of_waiting hp hs
        refine ⟨hc, hfull, fun b' => ?_⟩
        obtain ⟨first, rest, hi⟩ := List.exists_cons_of_length_pos (hfull ▸ hcap)
        rw [run_concat, live_of_step (m := .takeEvent) (by rw [step, takeEvent_of_cons hi]; rfl),
          Dispatcher.step_eq, Option.isSome_map]
        have hgo := delivery.act?_isSome_of_taken hcap hp b'
        rw [Dispatcher.dropHead, hi] at hgo
        exact hgo
      free := by
        intro hc b event hp
        rw [Dispatcher.step_eq, Option.isSome_map]
        exact Delivery.act?_isSome_of_dropped hp hc b
      deaf := by
        intro hf event hp
        have hh := delivery.idle (delivers_of_forget hf)
        rw [Dispatcher.handEvent, hp] at hh
        cases hh }

-- The second event has to wait for the consumer, and an answer to nobody goes by in between.
example :
    let settings := { Connection.Settings.ofEndpoint Connection.defaultEndpoint with
      streamCapacity := 1 }
    let full := "\x7b\"type\":\"serverStatus\",\"server_status\":\"full\"\x7d"
    let busy := "\x7b\"type\":\"serverStatus\",\"server_status\":\"busy\"\x7d"
    let answer := "\x7b\"type\":\"response\",\"id\":1\x7d"
    let moments : List Moment :=
      [.arrive (.text full), .hand, .arrive (.text answer), .hand, .arrive (.text busy), .hand,
        .dispatch true, .dispatch true, .dispatch true, .dispatch true, .dispatch true, .takeEvent,
        .dispatch true, .takeEvent]
    (start settings).received moments =
      [.server ⟨"full", 0, 0, none, none⟩, .server ⟨"busy", 0, 0, none, none⟩] :=
  rfl

end Session

end LedgerClient
