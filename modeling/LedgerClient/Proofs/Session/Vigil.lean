import LedgerClient.Proofs.Session.Ending
import LedgerClient.Proofs.Session.Watch
import LedgerClient.Session.Vigil

/-!
# The supervisor and the monitor

Two systems around a session in which the reason why it is over matters. The supervisor says it, and
gives the reader a grace for its own reason (`Supervised.Patient`); the monitor is told it, and exits
by it (`Vigil.Kept`). What happens to either is a run of its session, so that all that was said of the
ends of sessions holds of theirs, and what is left to see is what each adds: that no reader is given
up too early, and that a monitor that was not told to stop parts with nothing.
-/

namespace LedgerClient

/-! ## The grace of the reader -/

namespace Supervised

theorem live_of_step {t t' : Supervised} {m : Moment} (h : t.step m = some t') : t.live m = t' := by
  rw [live, h]
  rfl

theorem live_of_none {t : Supervised} {m : Moment} (h : t.step m = none) : t.live m = t := by
  rw [live, h]
  rfl

theorem run_concat (t : Supervised) (moments : List Moment) (m : Moment) :
    t.run (moments ++ [m]) = (t.run moments).live m := by
  simp [run]

/-- What a moment makes of a supervised session. -/
inductive Step (t : Supervised) : Moment → Supervised → Prop
  | pass (nanos : Nat) : Step t (.pass nanos) { t with now := t.now + nanos }
  | within {m : Session.Moment} {session : Session} (ha : t.allows m = true)
    (hs : t.session.step m = some session) : Step t (.within m) (t.withSession session)

theorem step_cases {t t' : Supervised} {m : Moment} (h : t.step m = some t') : Step t m t' := by
  cases m with
  | pass nanos =>
    obtain rfl := Option.some.inj h
    exact .pass nanos
  | within m =>
    simp only [step] at h
    split at h
    · rename_i ha
      obtain ⟨session, hs, rfl⟩ := Option.map_eq_some_iff.mp h
      exact .within ha hs
    · cases h

theorem session_eq (settings : Connection.Settings) (moments : List Moment) :
    ∃ inner, ((start settings).run moments).session = (Session.start settings).run inner := by
  induction moments using List.reverseRecOn with
  | nil => exact ⟨[], rfl⟩
  | append_singleton moments m ih =>
    obtain ⟨inner, ih⟩ := ih
    rw [run_concat]
    cases h : ((start settings).run moments).step m with
    | none =>
      rw [live_of_none h]
      exact ⟨inner, ih⟩
    | some t =>
      rw [live_of_step h]
      cases step_cases h with
      | pass => exact ⟨inner, ih⟩
      | @within m session ha hs =>
        refine ⟨inner ++ [m], ?_⟩
        rw [Session.run_concat, ← ih, Session.live_of_step hs]
        rfl

/-- What a supervisor that keeps to the grace has made of time. -/
structure Patient (t : Supervised) : Prop where
  /-- The grace begins as the dispatcher and the writer have stopped. -/
  marked : t.since.isSome = t.session.isFinished
  past : ∀ since, t.since = some since → since ≤ t.now
  judged : ∀ reason, t.session.ending = some reason → t.session.Judged reason
  /-- A reader is given up only as its time is up, unless the session was closed on this side. -/
  late : t.session.ending.isSome = true → t.session.dispatcher.phase ≠ .stopped .closed →
    t.session.reader.reason? = none → t.isLate = true

theorem patient_start (settings : Connection.Settings) : Patient (start settings) where
  marked := rfl
  past since h := by cases h
  judged reason h := by cases h
  late h := by cases h

theorem isLate_iff {t : Supervised} :
    t.isLate = true ↔ ∃ since, t.since = some since ∧ since + readerGrace.nanos ≤ t.now := by
  unfold isLate
  constructor
  · intro h
    split at h
    · rename_i since hsince
      exact ⟨since, hsince, of_decide_eq_true h⟩
    · cases h
  · rintro ⟨since, hsince, hle⟩
    rw [hsince]
    exact decide_eq_true hle

section Step

variable {t : Supervised} {session : Session} {m : Session.Moment}

theorem isLate_pass (h : t.isLate = true) (nanos : Nat) :
    { t with now := t.now + nanos : Supervised }.isLate = true := by
  obtain ⟨since, hsince, hle⟩ := isLate_iff.mp h
  exact isLate_iff.mpr ⟨since, hsince, Nat.le_trans hle (Nat.le_add_right _ _)⟩

theorem isLate_withSession (h : t.isLate = true) (session : Session) :
    (t.withSession session).isLate = true := by
  obtain ⟨since, hsince, hle⟩ := isLate_iff.mp h
  refine isLate_iff.mpr ⟨since, ?_, hle⟩
  rw [withSession, hsince]
  rfl

theorem Patient.marked_within (h : Patient t) (hs : t.session.step m = some session) :
    (t.withSession session).since.isSome = session.isFinished := by
  show (t.since <|> if session.isFinished then some t.now else none).isSome = session.isFinished
  cases hsince : t.since with
  | some since =>
    have hfinished : t.session.isFinished = true := by
      rw [← h.marked, hsince]
      rfl
    rw [← Session.live_of_step hs, Session.isFinished_live hfinished m]
    rfl
  | none => cases session.isFinished <;> rfl

theorem Patient.past_within (h : Patient t) {since : Nat}
    (hsince : (t.withSession session).since = some since) : since ≤ t.now := by
  cases hbefore : t.since with
  | some since' =>
    rw [withSession, hbefore] at hsince
    obtain rfl := Option.some.inj hsince
    exact h.past _ hbefore
  | none =>
    simp only [withSession, hbefore] at hsince
    cases hfinished : session.isFinished with
    | true =>
      rw [hfinished] at hsince
      exact Nat.le_of_eq (Option.some.inj hsince).symm
    | false =>
      rw [hfinished] at hsince
      cases hsince

theorem Patient.late_within (h : Patient t) (ha : t.allows m = true)
    (hs : t.session.step m = some session) (he : session.ending.isSome = true)
    (hp : session.dispatcher.phase ≠ .stopped .closed) (hr : session.reader.reason? = none) :
    t.isLate = true := by
  cases hending : t.session.ending with
  | some reason =>
    -- it was said before, so the reader was given up before
    have hbefore := h.judged reason hending
    obtain ⟨shutdown, written, hphase, -, -⟩ := hbefore.stopped
    rw [← Session.live_of_step hs, Session.reader_live hbefore.done] at hr
    rw [← Session.live_of_step hs, Session.stopped_live hphase] at hp
    refine h.late ?_ (by rw [hphase]; exact hp) hr
    rw [hending]
    rfl
  | none =>
    cases Session.step_cases hs with
    | @conclude shutdown written hnone hphase hwritten =>
      have hreason : t.session.reader.reason? = none :=
        (Session.reason?_giveUp _ t.session.dispatcher).1.symm.trans hr
      have hopen : t.session.dispatcher.phase ≠ .stopped .closed := by
        intro hc
        exact hp ((Session.phase_giveUp _ _).trans hc)
      change t.isSettled = true at ha
      unfold isSettled at ha
      split at ha
      · rename_i hc
        exact absurd hc hopen
      · rw [hreason] at ha
        exact ha
    | _ =>
      have hkept := Session.ending_step (by simp) hs
      rw [hkept, hending] at he
      cases he

end Step

/-- The supervisor keeps to the grace from one moment to the next. -/
theorem patient_step {t t' : Supervised} {m : Moment} (h : Patient t) (hs : t.step m = some t') :
    Patient t' := by
  cases step_cases hs with
  | pass nanos =>
    refine ⟨h.marked, ?_, h.judged, ?_⟩
    · intro since hsince
      exact Nat.le_trans (h.past since hsince) (Nat.le_add_right _ _)
    · intro he hp hr
      exact isLate_pass (h.late he hp hr) nanos
  | @within m session ha hsession =>
    have hjudged := (Session.judged_live h.judged m).2
    rw [Session.live_of_step hsession] at hjudged
    refine ⟨h.marked_within hsession, ?_, hjudged, ?_⟩
    · intro since hsince
      exact h.past_within hsince
    · intro he hp hr
      exact isLate_withSession (h.late_within ha hsession he hp hr) session

theorem patient_run (settings : Connection.Settings) (moments : List Moment) :
    Patient ((start settings).run moments) := by
  induction moments using List.reverseRecOn with
  | nil => exact patient_start settings
  | append_singleton moments m ih =>
    rw [run_concat]
    cases h : ((start settings).run moments).step m with
    | none =>
      rw [live_of_none h]
      exact ih
    | some t =>
      rw [live_of_step h]
      exact patient_step ih h

/-- After the grace it is said why the session is over, if that was not said before. -/
theorem ending_of_pass {t : Supervised} (h : Patient t) (hf : t.session.isFinished = true) :
    ((t.live (.pass readerGrace.nanos)).live (.within .conclude)).session.ending.isSome = true := by
  have hlate : (t.live (.pass readerGrace.nanos)).isLate = true := by
    have hsome : t.since.isSome = true := by rw [h.marked, hf]
    obtain ⟨since, hsince⟩ := Option.isSome_iff_exists.mp hsome
    exact isLate_iff.mpr ⟨since, hsince, Nat.add_le_add_right (h.past since hsince) _⟩
  have hallows : (t.live (.pass readerGrace.nanos)).allows .conclude = true := by
    show (t.live (.pass readerGrace.nanos)).isSettled = true
    unfold isSettled
    split
    · rfl
    · rw [hlate]
      exact Bool.or_true _
  obtain ⟨⟨shutdown, hp⟩, hw⟩ := Session.isFinished_iff.mp hf
  have hending := Session.ending_of_conclude hp hw
  cases hs : t.session.step .conclude with
  | none =>
    rw [Session.live_of_none hs] at hending
    have hnone : (t.live (.pass readerGrace.nanos)).step (.within .conclude) = none := by
      show (if (t.live (.pass readerGrace.nanos)).allows .conclude then
        (t.session.step .conclude).map _ else none) = none
      rw [hs, Option.map_none, ite_self]
    rw [live_of_none hnone]
    exact hending
  | some session =>
    rw [Session.live_of_step hs] at hending
    have hsome : (t.live (.pass readerGrace.nanos)).step (.within .conclude) =
        some ((t.live (.pass readerGrace.nanos)).withSession session) := by
      show (if (t.live (.pass readerGrace.nanos)).allows .conclude then
        (t.session.step .conclude).map _ else none) = _
      rw [if_pos hallows, hs]
      rfl
    rw [live_of_step hsome]
    exact hending

end Supervised

/-! ## The exit of the monitor -/

namespace Vigil

theorem run_concat (v : Vigil) (moments : List Moment) (m : Moment) :
    v.run (moments ++ [m]) = (v.run moments).live m := by
  simp [run]

theorem live_of_step {v v' : Vigil} {m : Moment} (h : v.step m = some v') : v.live m = v' := by
  rw [live, h]
  rfl

theorem live_of_none {v : Vigil} {m : Moment} (h : v.step m = none) : v.live m = v := by
  rw [live, h]
  rfl

/-- What a moment makes of a monitor that may be interrupted. -/
inductive Step (v : Vigil) : Moment → Vigil → Prop
  | within {m : Watch.Moment} {watch : Watch} (hs : v.watch.step m = some watch) :
    Step v (.within m) { v with watch }
  | interrupt (hp : v.watch.phase = .following) :
    Step v .interrupt { v.withSession v.watch.session.shut with interrupted := true }
  | raise {session : Session} (hi : v.interrupted = true)
    (hs : v.watch.session.raise = some session) : Step v .raise (v.withSession session)
  | leave {reason : SessionEnd} (hi : v.interrupted = true)
    (he : v.watch.session.ending = some reason) :
    Step v .leave { v with watch := { v.watch with phase := .over reason } }

theorem step_cases {v v' : Vigil} {m : Moment} (h : v.step m = some v') : Step v m v' := by
  unfold step at h
  split at h
  · split at h
    · cases h
    · obtain ⟨watch, hs, rfl⟩ := Option.map_eq_some_iff.mp h
      exact .within hs
  · rename_i hp _
    obtain rfl := Option.some.inj h
    exact .interrupt hp
  · rename_i hi
    obtain ⟨session, hs, rfl⟩ := Option.map_eq_some_iff.mp h
    exact .raise hi hs
  · rename_i hi
    obtain ⟨reason, he, rfl⟩ := Option.map_eq_some_iff.mp h
    exact .leave hi he
  · cases h

/-- What a monitor keeps: its session is one that nobody has parted with unless it was told to stop,
and it is over only as its session is. -/
structure Kept (settings : Connection.Settings) (v : Vigil) : Prop where
  session : ∃ inner, v.watch.session = (Session.start settings).run inner ∧
    (v.interrupted = false → ∀ m ∈ inner, m.isParting = false)
  ended : ∀ reason, v.watch.phase = .over reason → v.watch.session.ending = some reason

theorem kept_start (settings : Connection.Settings) (interest : Interest) :
    Kept settings (start settings interest) where
  session := by
    refine ⟨[.enter (.subscribe interest.streams interest.accounts)], rfl, ?_⟩
    intro _ m hm
    rw [List.mem_singleton.mp hm]
    rfl
  ended reason h := by cases h

theorem not_isParting_of_doing? {w : Watch} {m : Watch.Moment} {inner : Session.Moment}
    (h : w.doing? m = some inner) : inner.isParting = false := by
  rcases Watch.attended_of_doing? h with hi | rfl
  · cases inner with
    | shut | disown => cases hi
    | _ => rfl
  · rfl

theorem ending_run {s : Session} {reason : SessionEnd} (h : s.ending = some reason)
    (moments : List Session.Moment) : (s.run moments).ending = some reason :=
  Session.run_of_live (P := (·.ending = some reason)) Session.ending_live h moments

theorem kept_step {settings : Connection.Settings} {v v' : Vigil} {m : Moment}
    (h : Kept settings v) (hs : v.step m = some v') : Kept settings v' := by
  obtain ⟨inner, hsession, hopen⟩ := h.session
  cases step_cases hs with
  | @within m watch hwatch =>
    have hlive := (Watch.live_eq v.watch m).1
    rw [Watch.live_of_step hwatch] at hlive
    refine ⟨⟨inner ++ (v.watch.doing? m).toList, ?_, ?_⟩, ?_⟩
    · rw [Session.run_append, ← hsession]
      exact hlive
    · intro hi m' hm'
      rcases List.mem_append.mp hm' with hm' | hm'
      · exact hopen hi m' hm'
      · exact not_isParting_of_doing? (Option.mem_toList.mp hm')
    · intro reason hp
      show watch.session.ending = some reason
      cases Watch.step_cases hwatch with
      | finish _ _ he =>
        obtain rfl := Watch.Phase.over.inj hp
        exact he
      | succeed | fail => cases hp
      | within | print =>
        rw [hlive]
        exact ending_run (h.ended reason hp) _
  | interrupt hp =>
    refine ⟨⟨inner ++ [.shut], ?_, fun hi => by cases hi⟩, ?_⟩
    · rw [Session.run_concat, ← hsession]
      rfl
    · intro reason hover
      cases hp.symm.trans hover
  | @raise session hi hraise =>
    have hlive : v.watch.session.live .raise = session := Session.live_of_step hraise
    refine ⟨⟨inner ++ [.raise], ?_, fun hi' => by cases hi.symm.trans hi'⟩, ?_⟩
    · rw [Session.run_concat, ← hsession, hlive]
      rfl
    · intro reason hover
      have he := Session.ending_live (h.ended reason hover) .raise
      rw [hlive] at he
      exact he
  | @leave reason hi he =>
    refine ⟨⟨inner, hsession, hopen⟩, ?_⟩
    intro reason' hover
    obtain rfl := Watch.Phase.over.inj hover
    exact he

theorem kept_run (settings : Connection.Settings) (interest : Interest) (moments : List Moment) :
    Kept settings ((start settings interest).run moments) := by
  induction moments using List.reverseRecOn with
  | nil => exact kept_start settings interest
  | append_singleton moments m ih =>
    rw [run_concat]
    cases h : ((start settings interest).run moments).step m with
    | none =>
      rw [live_of_none h]
      exact ih
    | some v =>
      rw [live_of_step h]
      exact kept_step ih h

end Vigil

theorem Shell.Monitor.code_ended (reason : SessionEnd) :
    (Shell.Monitor.ended reason).code = 0 ↔ reason = .closed := by
  cases reason with
  | closed => exact ⟨fun _ => rfl, fun _ => rfl⟩
  | _ =>
    constructor
    · intro h
      cases h
    · intro h
      cases h

/-! ## All of it -/

namespace Session

/-- What is said about the end of a session is true, as the session has it, as its supervisor says it
in time, and as a monitor exits by it. -/
structure EndsTruthfully (settings : Connection.Settings) : Prop where
  /-- In every run of a session. -/
  run : ∀ moments, EndOf settings moments ((start settings).run moments)
  /-- In time a run of a supervised session is a run of the session. Unless the session was closed on
  this side, the reader has stopped by the time it is said why the session is over, or it is given up
  after the grace, counted from when the dispatcher and the writer had both stopped, and the reason is
  the writer's. After the grace it can always be said. -/
  graced : ∀ timeline t, (Supervised.start settings).run timeline = t →
    (∃ moments, t.session = (start settings).run moments) ∧
    t.since.isSome = t.session.isFinished ∧
    (t.session.isFinished = true →
      ((t.live (.pass readerGrace.nanos)).live (.within .conclude)).session.ending.isSome = true) ∧
    ∀ reason shutdown, t.session.ending = some reason →
      t.session.dispatcher.phase = .stopped shutdown → shutdown ≠ .closed →
      (∃ read, t.session.reader = .stopped read) ∨
        t.session.reader = .abandoned ∧ t.session.writer.reason? = some reason ∧
          ∃ since, t.since = some since ∧ since + readerGrace.nanos ≤ t.now
  /-- A monitor exits with success only if it was told to stop and its session was closed by that. -/
  monitor : ∀ interest moments v p, (Vigil.start settings interest).run moments = v →
    v.exit? = some p → p.code = 0 →
      v.interrupted = true ∧ v.watch.session.ending = some .closed ∧
        v.watch.session.dispatcher.phase = .stopped .closed

/-- **What is said about the end of a session is true.** -/
theorem endsTruthfully (settings : Connection.Settings) : EndsTruthfully settings := by
  refine ⟨endOf settings, ?_, ?_⟩
  · rintro timeline t rfl
    have hpatient := Supervised.patient_run settings timeline
    have hsession := Supervised.session_eq settings timeline
    generalize (Supervised.start settings).run timeline = t at hpatient hsession ⊢
    refine ⟨hsession, hpatient.marked, Supervised.ending_of_pass hpatient, ?_⟩
    intro reason shutdown hr hp hne
    have hjudged := hpatient.judged reason hr
    obtain ⟨⟨shutdown', written, hp', hw, hj⟩, hdone⟩ := hjudged
    obtain rfl : shutdown = shutdown' := Phase.stopped.inj (hp.symm.trans hp')
    cases hreader : t.session.reader with
    | stopped read => exact .inl ⟨read, rfl⟩
    | abandoned =>
      have hnone : t.session.reader.reason? = none := by rw [hreader]; rfl
      have hlate : t.isLate = true := by
        refine hpatient.late (by rw [hr]; rfl) ?_ hnone
        rw [hp]
        intro hc
        exact hne (Phase.stopped.inj hc)
      rw [judge_of_ne_closed hne, hnone] at hj
      exact .inr ⟨rfl, by rw [hw, hj], Supervised.isLate_iff.mp hlate⟩
    | _ =>
      rw [hreader] at hdone
      cases hdone
  · rintro interest moments v p rfl hexit hcode
    have hkept := Vigil.kept_run settings interest moments
    generalize (Vigil.start settings interest).run moments = v at hkept hexit ⊢
    unfold Vigil.exit? at hexit
    split at hexit
    · rename_i reason hover
      obtain rfl := Option.some.inj hexit
      obtain rfl := (Shell.Monitor.code_ended reason).mp hcode
      have hending := hkept.ended _ hover
      obtain ⟨inner, hsession, hopen⟩ := hkept.session
      have hend := endOf settings inner
      rw [← hsession] at hend
      obtain ⟨hphase, -, ⟨m, hm, hparting⟩, -⟩ := hend.closed (.inr hending)
      refine ⟨?_, hending, hphase⟩
      by_contra hi
      rw [Bool.not_eq_true] at hi
      rw [hopen hi m hm] at hparting
      cases hparting
    · cases hexit

-- The write of a command takes too long, so the writer stops and is missed. The reader has not stopped
-- as its time is up.
example :
    let settings := Connection.Settings.ofEndpoint Connection.defaultEndpoint
    let lost : List Moment :=
      [.enter .ping, .allocate 0, .enqueue 1, .dispatch true, .dispatch true, .take, .written .late,
        .written .late, .dispatch true]
    let t := (Supervised.start settings).run (lost.map .within)
    (t.live (.within .conclude)).session.ending = none ∧
      ((t.live (.pass readerGrace.nanos)).live (.within .conclude)).session.ending =
        some (.writeTimeout (.ofSeconds 10)) :=
  ⟨rfl, rfl⟩

end Session

end LedgerClient
