import LedgerClient.Proofs.Dispatcher.Queues

/-!
# Events reach the consumer in order

An event is read off a frame (`eventOf?`), taken in hand, put into the queue of events and received
from there. `Delivery` says that nothing gets lost or doubled on that way: what was received, what
is queued and what is in hand are the events of the frames that were handled. Once the consumer is
gone, or the session is to be closed, an event may be dropped; then no later event is handed over
either, so what was received are the first of the events. One lemma for each thing that can happen
shows that it stays so.
-/

namespace LedgerClient

/-- The kind of event that the type of a frame names. -/
def kindOf? (frame : String) : Option Stream.Kind :=
  match Envelope.decode frame with
  | .error _ => none
  | .ok envelope => Stream.Kind.ofType? envelope.type

/-- The event that a frame brings, if its type names a kind and it can be read as one of that kind. -/
def eventOf? (frame : String) : Option Stream.Event :=
  (kindOf? frame).bind fun kind => (Stream.Event.decode kind frame).toOption

namespace Dispatcher

/-- The frame with which an act deals. -/
def Act.frame? : Act → Option String
  | .handle frame => some frame
  | _ => none

/-- The event that a dispatcher has in its hand. -/
def handEvent (d : Dispatcher) : List Stream.Event :=
  match d.phase with
  | .delivering event => [event]
  | _ => []

theorem handEvent_of_phase_eq {d e : Dispatcher} (h : d.phase = e.phase) :
    d.handEvent = e.handEvent := by
  rw [handEvent, handEvent, h]

variable {d : Dispatcher} {b : Bool}

/-! ## Stream frames -/

theorem kindOf?_eq_some {frame : String} {kind : Stream.Kind} (h : kindOf? frame = some kind) :
    ∃ envelope, Envelope.decode frame = .ok envelope ∧ envelope.route = .stream kind := by
  unfold kindOf? at h
  split at h
  · simp at h
  · rename_i envelope he
    exact ⟨envelope, he, by rw [Envelope.route, h]⟩

theorem answeredId?_of_kind {frame : String} {kind : Stream.Kind} (h : kindOf? frame = some kind) :
    answeredId? frame = none := by
  obtain ⟨envelope, he, hr⟩ := kindOf?_eq_some h
  rw [answeredId?, he]
  simp only [hr]

theorem eventOf?_eq_some {frame : String} {event : Stream.Event} (h : eventOf? frame = some event) :
    ∃ kind, kindOf? frame = some kind ∧ Stream.Event.decode kind frame = .ok event := by
  obtain ⟨kind, hk, hd⟩ := Option.bind_eq_some_iff.mp h
  refine ⟨kind, hk, ?_⟩
  cases he : Stream.Event.decode kind frame with
  | error e => simp [he, Except.toOption] at hd
  | ok event' =>
    rw [he] at hd
    rw [Option.some.inj hd]

theorem handleFrame_of_event {frame : String} {event : Stream.Event}
    (h : eventOf? frame = some event) (d : Dispatcher) : d.handleFrame frame = d.deliver event := by
  obtain ⟨kind, hk, hd⟩ := eventOf?_eq_some h
  obtain ⟨envelope, he, hr⟩ := kindOf?_eq_some hk
  simp only [handleFrame, he, hr, hd]

theorem handleFrame_of_none {frame : String} (ha : answeredId? frame = none)
    (h : eventOf? frame = none) (d : Dispatcher) : ∃ e, d.handleFrame frame = d.discard e := by
  unfold answeredId? at ha
  unfold handleFrame
  cases he : Envelope.decode frame with
  | error e => exact ⟨e, rfl⟩
  | ok envelope =>
    rw [he] at ha
    simp only at ha ⊢
    cases hr : envelope.route with
    | response id => rw [hr] at ha; simp at ha
    | unrouted type => exact ⟨_, rfl⟩
    | stream kind =>
      -- a frame of a kind that brings no event cannot be read as one
      have hk : kindOf? frame = some kind := by
        unfold Envelope.route at hr
        simp only [kindOf?, he]
        split at hr
        · rename_i kind' hk
          rw [hk, Route.stream.inj hr]
        · split at hr <;> cases hr
      simp only
      cases hd : Stream.Event.decode kind frame with
      | error e => exact ⟨e, rfl⟩
      | ok event => simp [eventOf?, hk, hd, Except.toOption] at h

theorem phase_handleFrame_of_none {frame : String} (h : eventOf? frame = none) (d : Dispatcher) :
    (d.handleFrame frame).phase = d.phase := by
  cases ha : answeredId? frame with
  | some id =>
    obtain ⟨discarded, he⟩ := handleFrame_of_answer ha d
    rw [he]
    exact phase_resolve id _ d
  | none =>
    obtain ⟨e, he⟩ := handleFrame_of_none ha h d
    rw [he]
    rfl

/-- A stream frame leaves the table and the callers alone. -/
theorem handleFrame_of_kind {frame : String} {kind : Stream.Kind} (h : kindOf? frame = some kind)
    (d : Dispatcher) :
    (d.handleFrame frame).table = d.table ∧ (d.handleFrame frame).replies = d.replies := by
  obtain ⟨phase, noted, he, -⟩ := handleFrame_of_other (answeredId?_of_kind h) d
  rw [he]
  exact ⟨rfl, rfl⟩

/-! ## Letting an event go -/

theorem release?_cases {event : Stream.Event} {a : Act} (h : d.release? b event = some a) :
    (a = .deliver event ∧ d.events.hasReceiver = true ∧ d.events.hasRoom = true) ∨
      (a = .forget ∧ d.events.hasReceiver = false) ∨
      (a = .giveUp ∧ d.signal.isRaised = true) := by
  revert h
  rw [release?]
  cases d.events.hasReceiver <;> cases d.events.hasRoom <;> cases d.signal.isRaised <;> cases b <;>
    simp +contextual [eq_comm]

theorem release?_eq_none_iff {event : Stream.Event} :
    d.release? b event = none ↔
      d.events.hasReceiver = true ∧ d.events.hasRoom = false ∧ d.signal.isRaised = false := by
  rw [release?]
  cases d.events.hasReceiver <;> cases d.events.hasRoom <;> cases d.signal.isRaised <;> cases b <;>
    simp

theorem act?_of_delivering {event : Stream.Event} (h : d.phase = .delivering event) :
    d.act? b = d.release? b event := by
  rw [act?, h]

theorem act?_of_raised (hi : d.phase = .idle) (h : d.signal.isRaised = true) :
    d.act? b = some (.stop .closed) := by
  rw [act?, hi]
  simp only [turn?, h, if_true]

/-! ## What an act does to events -/

theorem frame_perform (d : Dispatcher) (a : Act) :
    (d.perform a).signal = d.signal ∧
      (d.perform a).delivers =
        match a with
        | .stop _ => false
        | .lose _ => false
        | .forget => false
        | _ => d.delivers := by
  cases a with
  | abandon id => rw [perform, abandon_eq, resolve_frame]; exact ⟨rfl, rfl⟩
  | fail failure => rw [perform, writeFailed_eq, resolve_frame]; exact ⟨rfl, rfl⟩
  | handle frame =>
    obtain ⟨_, _, _, _, he⟩ := handleFrame_frame frame { d with frames := dropHead d.frames }
    rw [perform, he]
    exact ⟨rfl, rfl⟩
  | submit s =>
    obtain ⟨_, _, _, he⟩ := submit_frame s { d with intake := dropHead d.intake }
    rw [perform, he]
    exact ⟨rfl, rfl⟩
  | lose out =>
    rw [perform, resolve_frame]
    exact ⟨rfl, rfl⟩
  | _ => exact ⟨rfl, rfl⟩

theorem events_perform (d : Dispatcher) (a : Act) :
    (d.perform a).events = (d.queues.after a).events :=
  congrArg Queues.events (queues_perform d a)

/-- The event that an act takes in hand. -/
def seized (d : Dispatcher) : Act → List Stream.Event
  | .handle frame => if d.delivers then (eventOf? frame).toList else []
  | _ => []

theorem handEvent_perform {a : Act} (hr : d.Ready a) : (d.perform a).handEvent = d.seized a := by
  have hidle : d.phase = .idle → d.handEvent = [] := fun h => by rw [handEvent, h]
  cases a with
  | abandon id =>
    refine (handEvent_of_phase_eq ?_).trans (hidle hr.1)
    exact phase_resolve id _ { d with abandoned := dropHead d.abandoned }
  | fail failure =>
    refine (handEvent_of_phase_eq ?_).trans (hidle hr.1)
    exact phase_resolve failure.id _ { d with failures := dropHead d.failures }
  | submit s =>
    rcases phase_submit s { d with intake := dropHead d.intake } with hp | hp
    · exact (handEvent_of_phase_eq hp).trans (hidle hr.1)
    · rw [perform, handEvent, hp]
      rfl
  | handle frame =>
    rw [perform, seized]
    cases he : eventOf? frame with
    | none =>
      rw [Option.toList_none, ite_self]
      exact (handEvent_of_phase_eq (phase_handleFrame_of_none he _)).trans (hidle hr.1)
    | some event =>
      rw [handleFrame_of_event he, deliver, Option.toList_some]
      cases hd : d.delivers with
      | true => rfl
      | false => exact hidle hr.1
  | _ => rfl

theorem perform_of_delivering {event : Stream.Event} {a : Act} (h : d.phase = .delivering event)
    (ha : d.act? b = some a) :
    (d.perform a).table = d.table ∧ (d.perform a).replies = d.replies := by
  rw [act?_of_delivering h] at ha
  rcases release?_cases ha with ⟨rfl, -⟩ | ⟨rfl, -⟩ | ⟨rfl, -⟩ <;> exact ⟨rfl, rfl⟩

/-! ## The way of events -/

/-- No event is going to be handed over any more. -/
def Mute (d : Dispatcher) : Prop :=
  d.events.hasReceiver = false ∨
    d.signal.isRaised = true ∧ (d.phase = .idle ∨ d.phase = .stopped .closed)

/-- What stays as it is while neither the dispatcher nor the consumer does anything. -/
structure Steady (d e : Dispatcher) : Prop where
  phase : e.phase = d.phase
  events : e.events = d.events
  delivers : e.delivers = d.delivers
  raised : d.signal.isRaised = true → e.signal.isRaised = true

theorem Steady.mute {e : Dispatcher} (hs : Steady d e) (hm : d.Mute) : e.Mute := by
  rw [Mute, hs.events, hs.phase]
  exact hm.imp_right fun hr => ⟨hs.raised hr.1, hr.2⟩

/-- Where the events are of the frames that a dispatcher has handled. -/
structure Delivery (bound : Nat) (handled : List String) (received : List Stream.Event)
    (d : Dispatcher) : Prop where
  /-- They were received, are queued or are in hand, in order; or some were dropped, and no later one
  is going to be handed over. -/
  order : received ++ d.events.items ++ d.handEvent = handled.filterMap eventOf? ∨
    received ++ d.events.items <+: handled.filterMap eventOf? ∧ d.Mute
  /-- A dispatcher that does not take events in hand has lost the consumer or has stopped. -/
  heard : d.delivers = false → d.events.hasReceiver = false ∨ ∃ reason, d.phase = .stopped reason
  idle : d.delivers = false → d.handEvent = []
  capacity : d.events.capacity = some bound
  room : d.events.items.length ≤ bound

namespace Delivery

variable {bound : Nat} {handled : List String} {received : List Stream.Event}

theorem start (c : Capacities) : Delivery c.events [] [] (.start c) :=
  ⟨.inl rfl, fun h => (by cases h), fun h => (by cases h), rfl, Nat.zero_le _⟩

theorem isPrefix (h : Delivery bound handled received d) :
    received ++ d.events.items <+: handled.filterMap eventOf? := by
  rcases h.order with ho | ⟨hp, -⟩
  · rw [← ho]
    exact List.prefix_append _ _
  · exact hp

theorem order_of_not_mute (h : Delivery bound handled received d) (hm : ¬ d.Mute) :
    received ++ d.events.items ++ d.handEvent = handled.filterMap eventOf? :=
  h.order.resolve_right fun hr => hm hr.2

/-! ### Acts -/

theorem dropped_of_mute {a : Act} (hm : d.Mute) (ha : d.act? b = some a) (hs : a ≠ .stop .closed) :
    d.events.hasReceiver = false := by
  rcases hm with hm | ⟨hs', hp | hp⟩
  · exact hm
  · rw [act?_of_raised hp hs'] at ha
    exact absurd (Option.some.inj ha).symm hs
  · simp [act?, hp] at ha

theorem events_of_idle {a : Act} (hr : d.Ready a) (hh : d.handEvent = []) (hf : a.frame? = none) :
    d.seized a = [] ∧ (d.perform a).events.items = d.events.items ∧
      (d.perform a).events.hasReceiver = d.events.hasReceiver := by
  rw [events_perform]
  cases a with
  | handle frame => cases hf
  | deliver event => simp [handEvent, show d.phase = .delivering event from hr] at hh
  | _ => exact ⟨rfl, rfl, rfl⟩

theorem order_idle {a : Act} (h : Delivery bound handled received d) (ha : d.act? b = some a)
    (hh : d.handEvent = []) (hf : a.frame? = none) :
    received ++ (d.perform a).events.items ++ (d.perform a).handEvent =
        handled.filterMap eventOf? ∨
      received ++ (d.perform a).events.items <+: handled.filterMap eventOf? ∧
        (d.perform a).Mute := by
  have hready := ready_of_act? ha
  obtain ⟨hs, hi, hc⟩ := events_of_idle hready hh hf
  rcases h.order with ho | ⟨hp, hm⟩
  · left
    rw [handEvent_perform hready, hs, hi, ← ho, hh]
  · right
    rw [hi]
    refine ⟨hp, ?_⟩
    by_cases hclosed : a = .stop .closed
    · subst hclosed
      -- a stop leaves the signal and the consumer as they were
      rcases hm with hm | ⟨hraised, -⟩
      · exact .inl (hc.trans hm)
      · exact .inr ⟨hraised, .inr rfl⟩
    · exact .inl (hc.trans (dropped_of_mute hm ha hclosed))

theorem order_handle {frame : String} (h : Delivery bound handled received d)
    (ha : d.act? b = some (.handle frame)) :
    received ++ (d.perform (.handle frame)).events.items ++ (d.perform (.handle frame)).handEvent =
        (handled ++ [frame]).filterMap eventOf? ∨
      received ++ (d.perform (.handle frame)).events.items <+:
          (handled ++ [frame]).filterMap eventOf? ∧
        (d.perform (.handle frame)).Mute := by
  have hready := ready_of_act? ha
  have hhand : d.handEvent = [] := by rw [handEvent, hready.1]
  have hf : [frame].filterMap eventOf? = (eventOf? frame).toList := by
    cases he : eventOf? frame <;> simp [he]
  have hevents : (d.perform (.handle frame)).events = d.events := events_perform d _
  rw [hevents, handEvent_perform hready, List.filterMap_append, hf]
  -- the event is taken in hand, unless events have no consumer any more
  by_cases hd : d.delivers = true ∧ received ++ d.events.items ++ d.handEvent =
      handled.filterMap eventOf?
  · left
    rw [seized, if_pos hd.1, ← hd.2, hhand, List.append_nil]
  · right
    have hgone : d.events.hasReceiver = false := by
      rcases h.order with ho | ⟨-, hm⟩
      · have hdelivers : d.delivers = false := by
          simpa only [ho, and_true, Bool.not_eq_true] using hd
        refine (h.heard hdelivers).resolve_right ?_
        rintro ⟨reason, hp⟩
        exact hready.phase_ne reason hp
      · exact dropped_of_mute hm ha (by simp)
    exact ⟨h.isPrefix.trans (List.prefix_append _ _), .inl (by rw [hevents]; exact hgone)⟩

theorem order_delivering {event : Stream.Event} {a : Act} (h : Delivery bound handled received d)
    (hp : d.phase = .delivering event) (ha : d.act? b = some a) :
    received ++ (d.perform a).events.items ++ (d.perform a).handEvent =
        handled.filterMap eventOf? ∨
      received ++ (d.perform a).events.items <+: handled.filterMap eventOf? ∧
        (d.perform a).Mute := by
  have hhand : d.handEvent = [event] := by rw [handEvent, hp]
  have hr := ha
  rw [act?_of_delivering hp] at hr
  rcases release?_cases hr with ⟨rfl, hc, -⟩ | ⟨rfl, hc⟩ | ⟨rfl, hs⟩
  · -- the event goes from the hand to the end of the queue
    have ho := h.order_of_not_mute fun hm => by
      rw [dropped_of_mute hm ha (by simp)] at hc
      cases hc
    left
    rw [← ho, hhand]
    simp [perform, handEvent]
  · exact .inr ⟨h.isPrefix, .inl hc⟩
  · exact .inr ⟨h.isPrefix, .inr ⟨hs, .inl rfl⟩⟩

theorem heard_perform {a : Act} (h : Delivery bound handled received d) (ha : d.act? b = some a)
    (hd : (d.perform a).delivers = false) :
    (d.perform a).events.hasReceiver = false ∨ ∃ reason, (d.perform a).phase = .stopped reason := by
  have hready := ready_of_act? ha
  rw [(frame_perform d a).2] at hd
  have hsame (hd : d.delivers = false) : d.events.hasReceiver = false := by
    refine (h.heard hd).resolve_right ?_
    rintro ⟨reason, hp⟩
    exact hready.phase_ne reason hp
  cases a with
  | stop reason => exact .inr ⟨reason, rfl⟩
  | lose out => exact .inr ⟨.writerGone, rfl⟩
  | forget =>
    obtain ⟨event, hp⟩ := hready
    rw [act?_of_delivering hp] at ha
    have hc := release?_cases ha
    simp only [reduceCtorEq, false_and, false_or, or_false, true_and] at hc
    exact .inl hc
  | _ =>
    left
    rw [events_perform]
    exact hsame hd

theorem room_perform {a : Act} (h : Delivery bound handled received d) (ha : d.act? b = some a) :
    (d.perform a).events.items.length ≤ bound := by
  have hready := ready_of_act? ha
  rw [events_perform]
  cases a with
  | deliver event =>
    rw [act?_of_delivering hready] at ha
    have hroom : d.events.hasRoom = true := by
      have hc := release?_cases ha
      simp only [reduceCtorEq, false_and, or_false] at hc
      exact hc.2.2
    rw [Mailbox.hasRoom, h.capacity] at hroom
    rw [decide_eq_true_iff] at hroom
    simpa [Queues.after, queues] using Nat.succ_le_of_lt hroom
  | _ => exact h.room

theorem perform {a : Act} (h : Delivery bound handled received d) (ha : d.act? b = some a) :
    Delivery bound (handled ++ a.frame?.toList) received (d.perform a) where
  order := by
    cases hf : a.frame? with
    | some frame =>
      obtain rfl : a = .handle frame := by cases a <;> simp_all [Act.frame?]
      exact h.order_handle ha
    | none =>
      rw [Option.toList_none, List.append_nil]
      cases hp : d.phase with
      | delivering event => exact h.order_delivering hp ha
      | _ => exact h.order_idle ha (by rw [handEvent, hp]) hf
  heard := h.heard_perform ha
  idle hd := by
    rw [(frame_perform d a).2] at hd
    rw [handEvent_perform (ready_of_act? ha)]
    cases a with
    | handle frame =>
      have hd : d.delivers = false := hd
      rw [seized, hd, if_neg Bool.false_ne_true]
    | _ => rfl
  capacity := by
    rw [events_perform]
    cases a <;> exact h.capacity
  room := h.room_perform ha

/-! ### The consumer and the other tasks -/

theorem steady {e : Dispatcher} (h : Delivery bound handled received d) (hs : Steady d e) :
    Delivery bound handled received e where
  order := by
    rw [hs.events, handEvent_of_phase_eq hs.phase]
    exact h.order.imp_right fun hr => ⟨hr.1, hs.mute hr.2⟩
  heard hd := by
    rw [hs.events, hs.phase]
    exact h.heard (hs.delivers ▸ hd)
  idle hd := by
    rw [handEvent_of_phase_eq hs.phase]
    exact h.idle (hs.delivers ▸ hd)
  capacity := by rw [hs.events, h.capacity]
  room := by rw [hs.events]; exact h.room

theorem receive {event : Stream.Event} {rest : List Stream.Event}
    (h : Delivery bound handled received d) (hi : d.events.items = event :: rest) :
    Delivery bound handled (received ++ [event])
      { d with events := { d.events with items := rest } } where
  order := by
    have ho := h.order
    rw [hi] at ho
    simpa [Mute, handEvent] using ho
  heard := h.heard
  idle := h.idle
  capacity := h.capacity
  room := by
    have hr := h.room
    rw [hi, List.length_cons] at hr
    exact Nat.le_of_succ_le hr

theorem leave (h : Delivery bound handled received d) :
    Delivery bound handled received { d with events := d.events.dropReceiver } where
  order := by
    refine .inr ⟨?_, .inl rfl⟩
    exact (List.append_nil received).symm ▸ (List.prefix_append _ _).trans h.isPrefix
  heard _ := .inl rfl
  idle := h.idle
  capacity := h.capacity
  room := Nat.zero_le _

/-! ### Waiting -/

theorem full_of_waiting (h : Delivery bound handled received d) {event : Stream.Event}
    (hp : d.phase = .delivering event) (hn : d.act? b = none) :
    d.events.hasReceiver = true ∧ d.events.items.length = bound := by
  rw [act?_of_delivering hp] at hn
  obtain ⟨hc, hroom, -⟩ := release?_eq_none_iff.mp hn
  rw [Mailbox.hasRoom, h.capacity] at hroom
  simp only [decide_eq_false_iff_not, Nat.not_lt] at hroom
  exact ⟨hc, Nat.le_antisymm h.room hroom⟩

theorem act?_isSome_of_taken (h : Delivery bound handled received d) (hb : 0 < bound)
    {event : Stream.Event} (hp : d.phase = .delivering event) (b : Bool) :
    ({ d with events := dropHead d.events }.act? b).isSome := by
  rw [act?_of_delivering (d := { d with events := dropHead d.events }) hp, Option.isSome_iff_ne_none]
  intro hn
  have hroom := (release?_eq_none_iff.mp hn).2.1
  have hlen := h.room
  simp only [dropHead, Mailbox.hasRoom, h.capacity, List.length_drop, decide_eq_false_iff_not]
    at hroom
  omega

theorem act?_isSome_of_dropped {event : Stream.Event} (hp : d.phase = .delivering event)
    (hc : d.events.hasReceiver = false) (b : Bool) : (d.act? b).isSome := by
  rw [act?_of_delivering hp, Option.isSome_iff_ne_none]
  intro hn
  rw [(release?_eq_none_iff.mp hn).1] at hc
  cases hc

end Delivery

end Dispatcher

end LedgerClient
