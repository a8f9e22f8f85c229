import LedgerClient.Proofs.Session.Attended

/-!
# The session of a monitor

A monitor is a session with one call and a consumer that takes events only after the call has its
result. What happens to a monitor is a run of its session, and what it prints is what the consumer
receives in that run (`run_eq`), so all that holds of sessions holds of it. Its session is one that
nobody ends (`attended_run`).
-/

namespace LedgerClient

open Dispatcher (Act)

namespace Watch

/-! ## The run of the session -/

/-- What a moment of a monitor is for its session. -/
def doing? (w : Watch) : Moment → Option Session.Moment
  | .within m => if isInner m then some m else none
  | .print =>
    match w.phase with
    | .following => some .takeEvent
    | _ => none
  | _ => none

/-- What happens in the session of a monitor in a run: its call is let in, and then the doings of its
moments. -/
def course (settings : Connection.Settings) (interest : Interest) (moments : List Moment) :
    List Session.Moment :=
  .enter (.subscribe interest.streams interest.accounts) ::
    trail live (fun w m => (w.doing? m).toList) (start settings interest) moments

theorem run_concat (w : Watch) (moments : List Moment) (m : Moment) :
    w.run (moments ++ [m]) = (w.run moments).live m := by
  simp [run]

theorem course_append (settings : Connection.Settings) (interest : Interest)
    (earlier later : List Moment) :
    course settings interest (earlier ++ later) =
      course settings interest earlier ++
        trail live (fun w m => (w.doing? m).toList) ((start settings interest).run earlier) later := by
  rw [course, trail_append]
  rfl

theorem course_concat (settings : Connection.Settings) (interest : Interest)
    (moments : List Moment) (m : Moment) :
    course settings interest (moments ++ [m]) =
      course settings interest moments ++
        (((start settings interest).run moments).doing? m).toList := by
  rw [course_append, trail, trail, List.append_nil]

theorem live_of_step {w w' : Watch} {m : Moment} (h : w.step m = some w') : w.live m = w' := by
  rw [live, h]
  rfl

theorem live_of_none {w : Watch} {m : Moment} (h : w.step m = none) : w.live m = w := by
  rw [live, h]
  rfl

/-- What a moment makes of a monitor. -/
inductive Step (w : Watch) : Moment → Watch → Prop
  | within {m : Session.Moment} {session : Session} (hi : isInner m = true)
    (hs : w.session.step m = some session) : Step w (.within m) { w with session }
  | succeed {result : Outcome} (hp : w.phase = .asking) (ha : w.answer? = some (.ok result)) :
    Step w .answered { w with phase := .following }
  | fail {e : ClientError} (hp : w.phase = .asking) (ha : w.answer? = some (.error e)) :
    Step w .answered { w with phase := .failed e }
  | print {event : Stream.Event} {session : Session} (hp : w.phase = .following)
    (ht : w.session.takeEvent = some (event, session)) :
    Step w .print { w with session, printed := w.printed ++ [event] }
  | finish {reason : SessionEnd} (hp : w.phase = .following)
    (hh : w.session.dispatcher.events.head = .ended) (he : w.session.ending = some reason) :
    Step w .finish { w with phase := .over reason }

theorem step_cases {w w' : Watch} {m : Moment} (h : w.step m = some w') : Step w m w' := by
  obtain ⟨session, phase, printed⟩ := w
  cases m with
  | within m =>
    simp only [step] at h
    split at h
    · rename_i hi
      obtain ⟨s, hs, rfl⟩ := Option.map_eq_some_iff.mp h
      exact .within hi hs
    · cases h
  | answered =>
    cases phase with
    | asking =>
      obtain ⟨answer, ha, rfl⟩ := Option.map_eq_some_iff.mp h
      cases answer with
      | ok result => exact .succeed rfl ha
      | error e => exact .fail rfl ha
    | _ => cases h
  | print =>
    cases phase with
    | following =>
      obtain ⟨⟨event, s⟩, ht, rfl⟩ := Option.map_eq_some_iff.mp h
      exact .print rfl ht
    | _ => cases h
  | finish =>
    cases phase with
    | following =>
      simp only [step] at h
      split at h
      · rename_i reason hh he
        obtain rfl := Option.some.inj h
        exact .finish rfl hh he
      · cases h
    | _ => cases h

theorem step_of_doing? {w : Watch} {m : Moment} {inner : Session.Moment}
    (hd : w.doing? m = some inner) (h : w.step m = none) : w.session.step inner = none := by
  obtain ⟨session, phase, printed⟩ := w
  cases m with
  | within m =>
    simp only [doing?, Option.ite_none_right_eq_some] at hd
    obtain ⟨hi, hm⟩ := hd
    obtain rfl := Option.some.inj hm
    simpa only [step, hi, if_true, Option.map_eq_none_iff] using h
  | print =>
    cases phase with
    | following =>
      obtain rfl := Option.some.inj hd
      simpa only [step, Option.map_eq_none_iff, Session.step] using h
    | _ => cases hd
  | _ => cases hd

/-- A moment of a monitor is at most one of its session, and prints what the consumer receives in
that one. -/
theorem live_eq (w : Watch) (m : Moment) :
    (w.live m).session = w.session.run (w.doing? m).toList ∧
      (w.live m).printed = w.printed ++ w.session.received (w.doing? m).toList := by
  cases h : w.step m with
  | none =>
    rw [live_of_none h]
    cases hd : w.doing? m with
    | none => exact ⟨rfl, (List.append_nil _).symm⟩
    | some inner =>
      have hn := step_of_doing? hd h
      have he := (Session.nothing_of_none hn).2.2
      refine ⟨(Session.live_of_none hn).symm, ?_⟩
      rw [Session.received, Option.toList_some, trail, he]
      exact (List.append_nil _).symm
  | some w' =>
    rw [live_of_step h]
    cases step_cases h with
    | @within inner session hi hs =>
      have he : w.session.event? inner = none := by
        cases inner with
        | takeEvent => cases hi
        | _ => rfl
      rw [doing?, if_pos hi, Option.toList_some, Session.received, trail, he]
      exact ⟨(Session.live_of_step hs).symm, (List.append_nil _).symm⟩
    | @print event session hp ht =>
      have hs : w.session.step .takeEvent = some session := by rw [Session.step, ht]; rfl
      rw [doing?, hp, Session.received]
      simp only [Option.toList_some, trail, Session.event?, ht]
      exact ⟨(Session.live_of_step hs).symm, rfl⟩
    | _ => exact ⟨rfl, (List.append_nil _).symm⟩

/-- What happens to a monitor is a run of its session, and what it prints is what the consumer
receives in that run. -/
theorem run_eq (settings : Connection.Settings) (interest : Interest) (moments : List Moment) :
    ((start settings interest).run moments).session =
        (Session.start settings).run (course settings interest moments) ∧
      ((start settings interest).run moments).printed =
        (Session.start settings).received (course settings interest moments) := by
  induction moments using List.reverseRecOn with
  | nil => exact ⟨rfl, rfl⟩
  | append_singleton moments m ih =>
    obtain ⟨hs, hp⟩ := live_eq ((start settings interest).run moments) m
    rw [run_concat, course_concat, Session.run_append, Session.received, trail_append, hs, hp, ih.1,
      ih.2]
    exact ⟨rfl, rfl⟩

theorem attended_of_doing? {w : Watch} {m : Moment} {inner : Session.Moment}
    (h : w.doing? m = some inner) : isInner inner = true ∨ inner = .takeEvent := by
  cases m with
  | within m =>
    simp only [doing?, Option.ite_none_right_eq_some] at h
    exact .inl (Option.some.inj h.2 ▸ h.1)
  | print =>
    simp only [doing?] at h
    split at h
    · exact .inr (Option.some.inj h).symm
    · cases h
  | _ => cases h

end Watch

/-- Nobody but the consumer of events and the one caller has a hand in the session of a monitor. -/
theorem Watch.attended_run (settings : Connection.Settings) (interest : Interest)
    (moments : List Moment) : ((start settings interest).run moments).session.Attended := by
  induction moments using List.reverseRecOn with
  | nil => exact ⟨rfl, rfl, .entered _ rfl rfl rfl⟩
  | append_singleton moments m ih =>
    rw [run_concat, (live_eq _ m).1]
    cases hd : ((start settings interest).run moments).doing? m with
    | none => exact ih
    | some inner =>
      exact Session.live_of_kept ih (Session.attended_step (attended_of_doing? hd) ih)

end LedgerClient
