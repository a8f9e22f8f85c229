import LedgerClient.Proofs.Session.Answer
import LedgerClient.Proofs.Session.Watch

/-!
# What a monitor prints

A monitor takes no event before its call has the result, and the frame with the result is handled
only after the events that came in before it have found room in the queue. If they do not, the
dispatcher waits for the monitor and the monitor for the dispatcher, for good (`heldUp_run`).
Otherwise nothing is in the way: a session at rest has handled all that came in (`rest_cases`), and
what was handled is printed in order.
-/

namespace LedgerClient

open Dispatcher (Act)

namespace Watch

variable {settings : Connection.Settings} {interest : Interest} {moments : List Moment}

/-- The frames that the dispatcher of a monitor deals with in a run, in order. -/
def handled (settings : Connection.Settings) (interest : Interest) (moments : List Moment) :
    List String :=
  (Session.start settings).handled (course settings interest moments)

/-- The texts that a monitor gets off the socket in a run, in order. -/
def arrived (settings : Connection.Settings) (interest : Interest) (moments : List Moment) :
    List String :=
  (Session.start settings).arrived (course settings interest moments)

/-- The call of a monitor has its result, and it is not an error. -/
def Phase.isServed : Phase → Bool
  | .asking => false
  | .following => true
  | .failed _ => false
  | .over _ => true

theorem session_eq (settings : Connection.Settings) (interest : Interest) (moments : List Moment) :
    ((start settings interest).run moments).session =
      (Session.start settings).run (course settings interest moments) :=
  (run_eq settings interest moments).1

theorem flow_run (settings : Connection.Settings) (interest : Interest) (moments : List Moment) :
    Session.Flow (handled settings interest moments) (arrived settings interest moments)
      ((start settings interest).run moments).printed
      ((start settings interest).run moments).session := by
  rw [(run_eq settings interest moments).1, (run_eq settings interest moments).2]
  exact Session.flow_run settings (course settings interest moments)

theorem sound_run (settings : Connection.Settings) (interest : Interest) (moments : List Moment) :
    Session.Sound ((start settings interest).run moments).session := by
  rw [session_eq]
  exact Session.sound_run (Session.sound_start settings) _

theorem settings_run (settings : Connection.Settings) (interest : Interest)
    (moments : List Moment) :
    ((start settings interest).run moments).session.settings = settings := by
  rw [session_eq, Session.settings_run]
  rfl

theorem printed_append (settings : Connection.Settings) (interest : Interest)
    (moments : List Moment) :
    ((start settings interest).run moments).printed ++
        ((start settings interest).run moments).session.dispatcher.events.items ++
        ((start settings interest).run moments).session.dispatcher.handEvent =
      (handled settings interest moments).filterMap eventOf? := by
  refine (flow_run settings interest moments).delivery.order_of_not_mute ?_
  have hout := (attended_run settings interest moments).outline
  have hconsumer := congrArg Dispatcher.Outline.hasConsumer hout
  have hsignal := congrArg Dispatcher.Outline.signal hout
  rintro (hm | ⟨hm, -⟩)
  · exact absurd (hconsumer.symm.trans hm) (by simp [Session.start, Dispatcher.start,
      Dispatcher.outline, Dispatcher.queues, Mailbox.bounded])
  · rw [show ((start settings interest).run moments).session.dispatcher.signal = .quiet from
      hsignal] at hm
    cases hm

/-! ### Before the answer -/

theorem answer?_eq_some {w : Watch} {answer : Except ClientError Outcome}
    (h : w.answer? = some answer) :
    ∃ x reply, w.session.exchanges = [x] ∧ x.stage = .returned reply ∧
      answer = reply.bind Response.callResult := by
  unfold answer? at h
  split at h
  · rename_i id command reply hx
    exact ⟨_, reply, hx, rfl, (Option.some.inj h).symm⟩
  · cases h

theorem told_of_answer {result : Outcome}
    (h : ((start settings interest).run moments).answer? = some (.ok result)) :
    ∃ r, (1, .told (.ok r)) ∈
      ((start settings interest).run moments).session.dispatcher.replies := by
  have hlone := (attended_run settings interest moments).lone
  rw [session_eq] at hlone ⊢
  obtain ⟨x, reply, hx, hst, ha⟩ := answer?_eq_some h
  rw [session_eq] at hx
  have hid : x.id = 1 := by
    cases hlone with
    | entered command he hx' => simp [hx] at hx'
    | numbered y he hx' hi =>
      obtain rfl := (List.singleton_inj.mp (hx.symm.trans hx'))
      exact hi
  cases reply with
  | error e => cases ha
  | ok r =>
    have ht := Session.told_of_returned settings _ (hx ▸ List.mem_singleton_self x) hst
    exact ⟨r, hid ▸ ht⟩

/-- A monitor prints nothing before its call has the result, which it has only from the dispatcher. -/
structure Patient (w : Watch) : Prop where
  silent : w.phase.isServed = false → w.printed = []
  told : w.phase.isServed = true → ∃ r, (1, .told (.ok r)) ∈ w.session.dispatcher.replies

theorem patient_run (settings : Connection.Settings) (interest : Interest)
    (moments : List Moment) : Patient ((start settings interest).run moments) := by
  induction moments using List.reverseRecOn with
  | nil => exact ⟨fun _ => rfl, fun h => (by cases h)⟩
  | append_singleton moments m ih =>
    rw [run_concat]
    cases h : ((start settings interest).run moments).step m with
    | none => rwa [live_of_none h]
    | some w' =>
      rw [live_of_step h]
      cases step_cases h with
      | @within inner session hi hs =>
        refine ⟨ih.silent, fun hp => ?_⟩
        obtain ⟨r, hr⟩ := ih.told hp
        have hpre := Session.replies_prefix_live ((start settings interest).run moments).session inner
        rw [Session.live_of_step hs] at hpre
        exact ⟨r, hpre.subset hr⟩
      | succeed hp ha => exact ⟨fun h => (by cases h), fun _ => told_of_answer ha⟩
      | fail hp ha => exact ⟨fun _ => ih.silent (by rw [hp]; rfl), fun h => (by cases h)⟩
      | @print event session hp ht =>
        refine ⟨fun hn => by simp [hp, Phase.isServed] at hn, fun _ => ?_⟩
        obtain ⟨r, hr⟩ := ih.told (by rw [hp]; rfl)
        have hs : ((start settings interest).run moments).session.step .takeEvent = some session := by
          rw [Session.step, ht]
          rfl
        have hpre := Session.replies_prefix_live ((start settings interest).run moments).session
          .takeEvent
        rw [Session.live_of_step hs] at hpre
        exact ⟨r, hpre.subset hr⟩
      | finish hp => exact ⟨fun h => (by cases h), fun _ => ih.told (by rw [hp]; rfl)⟩

theorem answer_of_served (h : ((start settings interest).run moments).phase.isServed = true) :
    ∃ frame ∈ handled settings interest moments, answeredId? frame = some 1 := by
  obtain ⟨r, hr⟩ := (patient_run settings interest moments).told h
  rw [session_eq] at hr
  obtain ⟨frame, hf, ha, -⟩ := Session.answer_of_reply settings _ hr
  exact ⟨frame, hf, ha⟩

/-! ### Held up -/

theorem handled_concat (settings : Connection.Settings) (interest : Interest)
    (moments : List Moment) (m : Moment) :
    handled settings interest (moments ++ [m]) =
      handled settings interest moments ++
        ((((start settings interest).run moments).doing? m).bind fun inner =>
          (((start settings interest).run moments).session.act? inner).bind Act.frame?).toList := by
  rw [handled, course_concat, session_eq]
  cases ((start settings interest).run moments).doing? m with
  | none => rw [Option.toList_none, List.append_nil, Option.bind_none, Option.toList_none,
      List.append_nil, handled]
  | some inner => exact Session.handled_concat _ _ _

theorem arrived_isPrefix (settings : Connection.Settings) (interest : Interest)
    (earlier later : List Moment) :
    arrived settings interest earlier <+: arrived settings interest (earlier ++ later) := by
  rw [arrived, arrived, course_append]
  exact trail_prefix _ _ _

theorem length_events_le (hs : ((start settings interest).run moments).phase.isServed = false)
    (hp : ((start settings interest).run moments).session.dispatcher.phase = .idle) :
    ((handled settings interest moments).filterMap eventOf?).length ≤ settings.streamCapacity := by
  have hroom := (flow_run settings interest moments).delivery.room
  rw [settings_run] at hroom
  rw [← printed_append, (patient_run settings interest moments).silent hs, Dispatcher.handEvent, hp]
  simpa using hroom

/-- A monitor is held up for good by frames that bring more events than the queue has room for
and do not answer its call: nothing behind them is handled. -/
theorem heldUp_run {frames : List String} (hno : ∀ frame ∈ frames, answeredId? frame ≠ some 1)
    (hmany : settings.streamCapacity < (frames.filterMap eventOf?).length)
    (hc : arrived settings interest moments <+: frames ∨
      frames <+: arrived settings interest moments) :
    handled settings interest moments <+: frames ∧
      ((start settings interest).run moments).phase.isServed = false := by
  -- an answer among the handled frames would be one of these
  have hunserved : ∀ {moments}, handled settings interest moments <+: frames →
      ((start settings interest).run moments).phase.isServed = false := by
    intro moments hh
    refine Bool.eq_false_iff.mpr fun hs => ?_
    obtain ⟨frame, hf, ha⟩ := answer_of_served hs
    exact hno frame (hh.subset hf) ha
  suffices hh : handled settings interest moments <+: frames from ⟨hh, hunserved hh⟩
  induction moments using List.reverseRecOn with
  | nil => exact List.nil_prefix
  | append_singleton moments m ih =>
    have hpre := arrived_isPrefix settings interest moments [m]
    have hih : handled settings interest moments <+: frames := by
      refine ih ?_
      rcases hc with hc | hc
      · exact .inl (hpre.trans hc)
      · exact List.prefix_or_prefix_of_prefix hpre hc
    have hall := (flow_run settings interest (moments ++ [m])).inflow.isPrefix
    rw [handled_concat] at hall ⊢
    cases hd : (((start settings interest).run moments).doing? m).bind fun inner =>
        (((start settings interest).run moments).session.act? inner).bind Act.frame? with
    | none => simpa using hih
    | some frame =>
      rw [hd] at hall
      -- the dispatcher is free to handle a frame, so not all of these were handled yet
      have hidle : ((start settings interest).run moments).session.dispatcher.phase = .idle := by
        obtain ⟨inner, -, ha⟩ := Option.bind_eq_some_iff.mp hd
        obtain ⟨a, ha, hf⟩ := Option.bind_eq_some_iff.mp ha
        obtain rfl : a = .handle frame := by cases a <;> simp_all [Act.frame?]
        obtain ⟨b, -, hb⟩ := Session.act?_eq_some ha
        exact (Dispatcher.ready_of_act? hb).1
      have hfew := length_events_le (hunserved hih) hidle
      have hlt : (handled settings interest moments).length < frames.length := by
        refine Nat.lt_of_le_of_ne hih.length_le fun he => ?_
        rw [hih.eq_of_length he] at hfew
        omega
      rcases hc with hc | hc
      · exact hall.trans hc
      · exact List.prefix_of_prefix_length_le hall hc (by simpa using Nat.succ_le_of_lt hlt)

theorem unserved_of_heldUp {earlier : List Moment} (count : Nat)
    (hno : ∀ frame ∈ (arrived settings interest earlier).take count, answeredId? frame ≠ some 1)
    (hmany : settings.streamCapacity <
      (((arrived settings interest earlier).take count).filterMap eventOf?).length)
    (later : List Moment) :
    ((start settings interest).run (earlier ++ later)).phase.isServed = false ∧
      ((start settings interest).run (earlier ++ later)).printed = [] := by
  have hpre := (List.take_prefix count _).trans (arrived_isPrefix settings interest earlier later)
  have hs := (heldUp_run hno hmany (.inr hpre)).2
  exact ⟨hs, (patient_run settings interest (earlier ++ later)).silent hs⟩

/-! ### The end -/

theorem unclosed_run (settings : Connection.Settings) (interest : Interest)
    (moments : List Moment) :
    ((start settings interest).run moments).session.dispatcher.phase ≠ .stopped .closed := by
  induction moments using List.reverseRecOn with
  | nil =>
    intro h
    cases h
  | append_singleton moments m ih =>
    rw [run_concat, (live_eq _ m).1]
    cases ((start settings interest).run moments).doing? m with
    | none => exact ih
    | some inner => exact Session.unclosed_live (attended_run settings interest moments) ih inner

theorem stopped_of_unsent
    (h : ((start settings interest).run moments).session.dispatcher.events.hasSender = false) :
    ∃ reason, ((start settings interest).run moments).session.dispatcher.phase =
      .stopped reason := by
  rw [session_eq] at h ⊢
  exact Session.stopped_of_unsent settings _ h

theorem drained_run (settings : Connection.Settings) (interest : Interest) (moments : List Moment)
    {reason : SessionEnd} (h : ((start settings interest).run moments).phase = .over reason) :
    ((start settings interest).run moments).session.dispatcher.events.items = [] ∧
      ((start settings interest).run moments).session.dispatcher.events.hasSender = false := by
  induction moments using List.reverseRecOn with
  | nil => cases h
  | append_singleton moments m ih =>
    rw [run_concat] at h ⊢
    cases hs : ((start settings interest).run moments).step m with
    | none =>
      rw [live_of_none hs] at h ⊢
      exact ih h
    | some w' =>
      rw [live_of_step hs] at h ⊢
      cases step_cases hs with
      | @within inner session hi hin =>
        obtain ⟨he, hsender⟩ := ih h
        obtain ⟨stop, hp⟩ := stopped_of_unsent hsender
        have hact : ((start settings interest).run moments).session.act? inner = none := by
          cases inner with
          | dispatch b => rw [Session.act?, Dispatcher.act?, hp]
          | _ => rfl
        have hsteady := Session.steady_live hact (by rintro rfl; cases hi) (by rintro rfl; cases hi)
        rw [Session.live_of_step hin] at hsteady
        exact hsteady.events ▸ ⟨he, hsender⟩
      | finish hp hh he => exact Dispatcher.eq_of_head_ended hh
      | print hp => rw [hp] at h; cases h
      | _ => cases h

/-! ### At rest -/

/-- What the dispatcher, the reader, the call and the monitor itself do of their own accord. -/
def own : List Moment :=
  [.within (.dispatch true), .within .hand, .within (.collect 1), .within (.abandon 1), .answered,
    .print]

/-- Nothing goes on in a monitor until something happens to it from outside. -/
def AtRest (w : Watch) : Prop := ∀ m ∈ own, w.step m = none

theorem AtRest.session {w : Watch} (h : AtRest w) {m : Session.Moment} (hm : .within m ∈ own)
    (hi : isInner m = true) : w.session.step m = none :=
  step_of_doing? (by rw [doing?, if_pos hi]) (h _ hm)

theorem rest_cases (h : AtRest ((start settings interest).run moments)) :
    (∃ reason, ((start settings interest).run moments).session.dispatcher.phase =
        .stopped reason) ∨
      (∃ event, ((start settings interest).run moments).session.dispatcher.phase =
          .delivering event ∧
        ((start settings interest).run moments).session.dispatcher.events.items.length =
          settings.streamCapacity) ∨
      ((start settings interest).run moments).session.dispatcher.phase = .idle ∧
        handled settings interest moments = arrived settings interest moments := by
  have hd := h.session (m := .dispatch true) (by simp [own]) rfl
  have hr := h.session (m := .hand) (by simp [own]) rfl
  have hc := Session.rest_cases (sound_run settings interest moments)
    (attended_run settings interest moments) (flow_run settings interest moments)
    (Option.map_eq_none_iff.mp hd) (Option.map_eq_none_iff.mp hr)
  rwa [settings_run] at hc

theorem answer?_of_rest {w : Watch} (h : AtRest w) (hp : w.phase = .asking) : w.answer? = none := by
  have hs := h .answered (by simp [own])
  obtain ⟨session, phase, printed⟩ := w
  obtain rfl : phase = .asking := hp
  exact Option.map_eq_none_iff.mp hs

theorem events_of_rest {w : Watch} (h : AtRest w) (hp : w.phase = .following) :
    w.session.dispatcher.events.items = [] := by
  have hs : w.session.step .takeEvent = none :=
    step_of_doing? (by rw [doing?, hp]) (h .print (by simp [own]))
  cases hi : w.session.dispatcher.events.items with
  | nil => rfl
  | cons event rest =>
    rw [Session.step, Session.takeEvent_of_cons hi] at hs
    cases hs

theorem untold_of_rest (h : AtRest ((start settings interest).run moments))
    (hp : ((start settings interest).run moments).phase = .asking) (r : Response) :
    (1, .told (.ok r)) ∉ ((start settings interest).run moments).session.dispatcher.replies := by
  intro hr
  have hunheard := Session.unheard_run settings (course settings interest moments)
  rw [← session_eq] at hunheard
  have hheard : ¬ ∀ x ∈ ((start settings interest).run moments).session.exchanges,
      x.stage.isQueueing = true := by
    intro hq
    have hnil := hunheard hq
    simp only [Dispatcher.places, List.append_eq_nil_iff, List.map_eq_nil_iff] at hnil
    rw [hnil.2] at hr
    cases hr
  have hcollect := h.session (m := .collect 1) (by simp [own]) rfl
  have habandon := h.session (m := .abandon 1) (by simp [own]) rfl
  cases (attended_run settings interest moments).lone with
  | entered command he hx hn => exact hheard (by simp [hx])
  | numbered x he hx hi ht =>
    obtain ⟨id, command, stage⟩ := x
    obtain rfl : id = 1 := hi
    have hfind : ((start settings interest).run moments).session.find? 1 =
        some ⟨1, command, stage⟩ := by
      rw [Session.find?, hx]
      rfl
    cases stage with
    | queueing => exact hheard (by simp [hx, Stage.isQueueing])
    | waiting =>
      rw [Session.step, Session.collect, hfind] at hcollect
      simp only [Option.map_eq_none_iff] at hcollect
      exact absurd (List.find?_eq_none.mp hcollect _ hr) (by simp)
    | expired =>
      obtain ⟨limit, hl⟩ := Option.isSome_iff_exists.mp (ht rfl)
      rw [Session.step, Session.abandon, hfind, hl] at habandon
      cases habandon
    | returned reply =>
      have ha : ((start settings interest).run moments).answer? =
          some (reply.bind Response.callResult) := by
        rw [answer?, hx]
      rw [answer?_of_rest h hp] at ha
      cases ha

theorem handled_of_stopped (settings : Connection.Settings) (interest : Interest)
    (moments : List Moment) {reason : Shutdown}
    (h : ((start settings interest).run moments).session.dispatcher.phase = .stopped reason) :
    handled settings interest moments = arrived settings interest moments ∨
      ((start settings interest).run moments).session.dispatcher.phase = .stopped .writerGone := by
  cases reason with
  | closed => exact absurd h (unclosed_run settings interest moments)
  | framesEnded => exact .inl ((flow_run settings interest moments).inflow.whole h).1
  | writerGone => exact .inr h

/-- While nothing has been printed, a dispatcher at rest has handled every frame in front of which
there came in no more events than the queue has room for. -/
theorem reached_of_rest (hrest : AtRest ((start settings interest).run moments))
    (hsilent : ((start settings interest).run moments).printed = [])
    (hlive : ∀ reason, ((start settings interest).run moments).session.dispatcher.phase ≠
      .stopped reason)
    {frames : List String} {frame : String}
    (hpre : frames ++ [frame] <+: arrived settings interest moments)
    (hfew : (frames.filterMap eventOf?).length ≤ settings.streamCapacity) :
    frames ++ [frame] <+: handled settings interest moments := by
  rcases rest_cases hrest with ⟨stop, hstop⟩ | ⟨event, hdel, hfull⟩ | ⟨-, hw⟩
  · exact absurd hstop (hlive stop)
  · -- the queue is full and an event is in hand, so more came in than it has room for
    have hall := printed_append settings interest moments
    rw [hsilent, Dispatcher.handEvent, hdel] at hall
    have hlen : ((handled settings interest moments).filterMap eventOf?).length =
        settings.streamCapacity + 1 := by
      rw [← hall, ← hfull]
      simp
    have hhandled := (flow_run settings interest moments).inflow.isPrefix
    rcases List.prefix_or_prefix_of_prefix hpre hhandled with hh | hh
    · exact hh
    · rcases List.prefix_concat_iff.mp hh with he | hh
      · exact he ▸ List.prefix_rfl
      · have hle := (hh.filterMap eventOf?).length_le
        omega
  · rwa [hw]

/-- What a monitor prints in a run. -/
structure PrintedUnlessHeldUp (settings : Connection.Settings) (interest : Interest)
    (moments : List Moment) : Prop where
  /-- Nothing is printed before the call has succeeded. -/
  silent : ((start settings interest).run moments).phase.isServed = false →
    ((start settings interest).run moments).printed = []
  /-- What is printed are the first of the events that the handled frames bring. -/
  ordered : ((start settings interest).run moments).printed <+:
    (handled settings interest moments).filterMap eventOf?
  /-- Frames are handled in the order in which they came in. -/
  arrival : handled settings interest moments <+: arrived settings interest moments
  /-- A monitor that is over has printed the event of every frame that was handled, and every frame
  that came in was, unless the session ended as the writer was gone. -/
  ended : ∀ reason, ((start settings interest).run moments).phase = .over reason →
    ((start settings interest).run moments).printed =
        (handled settings interest moments).filterMap eventOf? ∧
      (handled settings interest moments = arrived settings interest moments ∨
        ((start settings interest).run moments).session.dispatcher.phase = .stopped .writerGone)
  /-- A monitor at rest whose call has succeeded has printed the event of every frame that came in,
  unless the writer was gone. -/
  caughtUp : 0 < settings.streamCapacity → AtRest ((start settings interest).run moments) →
    ((start settings interest).run moments).phase = .following →
      ((start settings interest).run moments).printed =
          (arrived settings interest moments).filterMap eventOf? ∨
        ((start settings interest).run moments).session.dispatcher.phase = .stopped .writerGone
  /-- While the call waits, a monitor at rest has handled every frame in front of which there came in
  no more events than the queue has room for. -/
  reached : AtRest ((start settings interest).run moments) →
    ((start settings interest).run moments).phase = .asking →
    (∀ reason, ((start settings interest).run moments).session.dispatcher.phase ≠
      .stopped reason) →
    ∀ frames frame, frames ++ [frame] <+: arrived settings interest moments →
      (frames.filterMap eventOf?).length ≤ settings.streamCapacity →
        frames ++ [frame] <+: handled settings interest moments
  /-- If one of these is the answer, a monitor at rest does not wait any more. -/
  answered : AtRest ((start settings interest).run moments) →
    ((start settings interest).run moments).phase = .asking → ∀ r,
      (1, .told (.ok r)) ∉ ((start settings interest).run moments).session.dispatcher.replies
  /-- But if more events than the queue has room for come in and no answer among them, nothing behind
  them is ever handled, and nothing is printed. -/
  heldUp : ∀ frames, frames <+: arrived settings interest moments →
    (∀ frame ∈ frames, answeredId? frame ≠ some 1) →
    settings.streamCapacity < (frames.filterMap eventOf?).length →
      handled settings interest moments <+: frames ∧
        ((start settings interest).run moments).phase.isServed = false ∧
        ((start settings interest).run moments).printed = []

/-- **A monitor prints every event in order unless it is held up**, whatever the order in which the
tasks, the peer and the monitor do their work. -/
theorem printedUnlessHeldUp (settings : Connection.Settings) (interest : Interest)
    (moments : List Moment) : PrintedUnlessHeldUp settings interest moments := by
  have hflow := flow_run settings interest moments
  have hall := printed_append settings interest moments
  have hpatient := patient_run settings interest moments
  exact
    { silent := hpatient.silent
      ordered := by
        rw [← hall, List.append_assoc]
        exact List.prefix_append _ _
      arrival := hflow.inflow.isPrefix
      ended := by
        intro reason hp
        obtain ⟨hi, hs⟩ := drained_run settings interest moments hp
        obtain ⟨stop, hp⟩ := stopped_of_unsent hs
        rw [hi, Dispatcher.handEvent, hp] at hall
        exact ⟨by simpa using hall, handled_of_stopped settings interest moments hp⟩
      caughtUp := by
        intro hcap hrest hp
        have hempty := events_of_rest hrest hp
        rcases rest_cases hrest with ⟨stop, hstop⟩ | ⟨event, -, hfull⟩ | ⟨hidle, hw⟩
        · refine (handled_of_stopped settings interest moments hstop).imp_left fun hw => ?_
          rw [hempty, Dispatcher.handEvent, hstop] at hall
          rw [← hw, ← hall, List.append_nil, List.append_nil]
        · rw [hempty] at hfull
          exact absurd hfull (Nat.ne_of_lt hcap)
        · rw [hempty, Dispatcher.handEvent, hidle] at hall
          rw [← hw, ← hall]
          exact .inl (by simp)
      reached := by
        intro hrest hp hlive frames frame hpre hfew
        exact reached_of_rest hrest (hpatient.silent (by rw [hp]; rfl)) hlive hpre hfew
      answered := untold_of_rest
      heldUp := by
        intro frames hpre hno hmany
        obtain ⟨hh, hs⟩ := heldUp_run hno hmany (.inr hpre)
        exact ⟨hh, hs, hpatient.silent hs⟩ }

-- With room for both events the answer gets through, and both are printed.
example :
    let settings := { Connection.Settings.ofEndpoint Connection.defaultEndpoint with
      streamCapacity := 2 }
    let full := "\x7b\"type\":\"serverStatus\",\"server_status\":\"full\"\x7d"
    let busy := "\x7b\"type\":\"serverStatus\",\"server_status\":\"busy\"\x7d"
    let answer := "\x7b\"type\":\"response\",\"id\":1,\"status\":\"success\",\"result\":\x7b\x7d\x7d"
    let moments : List Moment :=
      [.within (.allocate 0), .within (.enqueue 1), .within (.dispatch true),
        .within (.dispatch true), .within (.arrive (.text full)), .within .hand,
        .within (.arrive (.text busy)), .within .hand, .within (.arrive (.text answer)),
        .within .hand, .within (.dispatch true), .within (.dispatch true),
        .within (.dispatch true), .within (.dispatch true), .within (.dispatch true),
        .within (.collect 1), .answered, .print, .print]
    ((start settings ⟨[.server], []⟩).run moments).printed =
      [.server ⟨"full", 0, 0, none, none⟩, .server ⟨"busy", 0, 0, none, none⟩] :=
  rfl

/-- Two events come in before the answer and the queue has room for one: the call succeeds no more, and
neither event is ever printed. -/
theorem heldUp_by_two_events :
    let settings := { Connection.Settings.ofEndpoint Connection.defaultEndpoint with
      streamCapacity := 1 }
    let interest : Interest := ⟨[.server], []⟩
    let full := "\x7b\"type\":\"serverStatus\",\"server_status\":\"full\"\x7d"
    let busy := "\x7b\"type\":\"serverStatus\",\"server_status\":\"busy\"\x7d"
    let answer := "\x7b\"type\":\"response\",\"id\":1,\"status\":\"success\",\"result\":\x7b\x7d\x7d"
    let moments : List Moment :=
      [.within (.allocate 0), .within (.enqueue 1), .within (.dispatch true),
        .within (.dispatch true), .within .take, .within (.written .done),
        .within (.arrive (.text full)), .within .hand, .within (.arrive (.text busy)),
        .within .hand, .within (.arrive (.text answer)), .within .hand]
    arrived settings interest moments = [full, busy, answer] ∧
      [full, busy, answer].filterMap eventOf? =
        [.server ⟨"full", 0, 0, none, none⟩, .server ⟨"busy", 0, 0, none, none⟩] ∧
      ((start settings interest).run moments).session.registered =
        [⟨1, .subscribe interest⟩] ∧
      answeredId? answer = some 1 ∧
      ((Response.decode (Command.subscribe interest).shape answer).toOption.bind fun r =>
        r.callResult.toOption).isSome = true ∧
      ∀ later, ((start settings interest).run (moments ++ later)).phase.isServed = false ∧
        ((start settings interest).run (moments ++ later)).printed = [] :=
  ⟨rfl, rfl, rfl, rfl, rfl,
    unserved_of_heldUp 2 (by decide +kernel) (by decide +kernel)⟩

end Watch

end LedgerClient
