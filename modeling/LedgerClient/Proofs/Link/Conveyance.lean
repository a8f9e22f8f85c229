import LedgerClient.Proofs.Dispatcher.Matter
import LedgerClient.Proofs.Link.Registration
import LedgerClient.Proofs.Session.Writing
import LedgerClient.Proofs.Trail

/-!
# Commands on their way to the socket

A command that the dispatcher takes from the intake is skipped, refused or noted. One that is noted
goes through the hand of the dispatcher and the queue of the writer to the socket, or it is reported
back. `Conveyed` says that commands keep their order on this way and that none is lost or doubled:
those that were noted are the ones that the writer is done with, the one under way at the socket,
those in the queue and the one in hand. Pings, the peer and the callers leave all that alone.
-/

namespace LedgerClient

open scoped List
open Dispatcher (Act dropHead)

/-- A command on its way to the writer. -/
def Submission.outbound (s : Submission) : Outbound := ⟨s.id, s.command⟩

namespace Dispatcher

/-- What becomes of a command that is taken from the intake. -/
inductive Admission
  /-- Its caller is gone. -/
  | skipped
  /-- Its id is taken. -/
  | refused
  | noted
deriving DecidableEq

def admission (s : Submission) (d : Dispatcher) : Admission :=
  if s.ticket ∈ d.gone then .skipped
  else if (d.table.find? s.id).isSome then .refused
  else .noted

def Act.submission? : Act → Option Submission
  | .submit s => some s
  | _ => none

/-- The command that an act puts into the queue of the writer. -/
def Act.forwarded? : Act → Option Outbound
  | .forward out => some out
  | _ => none

/-- The report with which an act deals. -/
def Act.failure? : Act → Option WriteFailure
  | .fail failure => some failure
  | _ => none

variable {d : Dispatcher} {b : Bool}

theorem taken_submit (s : Submission) (d : Dispatcher) :
    d.taken (.submit s) = if d.admission s = .noted then [s.outbound] else [] := by
  rw [taken, admission]
  by_cases hg : s.ticket ∈ d.gone
  · simp [hg]
  · cases (d.table.find? s.id).isSome <;> simp [hg, Submission.outbound]

/-- What the caller of a command is told as it is taken from the intake. -/
def Admission.tell (s : Submission) : Admission → List (Ticket × Verdict)
  | .skipped => [(s.ticket, .skipped)]
  | .refused => [(s.ticket, .told (.error (.duplicateId s.id)))]
  | .noted => []

theorem replies_submit (s : Submission) (d : Dispatcher) :
    (d.perform (.submit s)).replies = d.replies ++ (d.admission s).tell s := by
  rw [replies_perform, news, admission]
  by_cases hg : s.ticket ∈ d.gone
  · simp [hg, Admission.tell]
  · cases (d.table.find? s.id).isSome <;> simp [hg, Admission.tell]

theorem noted_of_pending {a : Act} {id : Nat} {p : Pending}
    (h : (d.perform a).table.find? id = some p) :
    d.table.find? id = some p ∨
      ∃ s, a = .submit s ∧ d.admission s = .noted ∧ s.id = id ∧ p = s.pending := by
  rcases pending_of_perform h with h | ⟨s, rfl, rfl, hg, rfl⟩
  · exact .inl h
  · cases hf : d.table.find? s.id with
    | none => exact .inr ⟨s, rfl, by simp [admission, hg, hf], rfl, rfl⟩
    | some p =>
      left
      rw [perform, submit_of_taken (d := { d with intake := dropHead d.intake }) hg hf] at h
      exact hf ▸ h

theorem act?_ne_submit (h : d.failures.hasSender = false) (s : Submission) :
    d.act? b ≠ some (.submit s) := by
  intro ha
  have hready := ready_of_act? ha
  rw [act?, hready.1] at ha
  simp only [turn?] at ha
  split at ha
  · cases ha
  · have hempty : d.failures.head = .ended := by
      rw [Mailbox.head, hready.2.2.1]
      simp [h]
    cases hab : d.abandoned.head <;> simp [hab, hempty] at ha

/-! ## The hand -/

/-- A command that was noted was forwarded or is in hand, unless the dispatcher lost the writer with
the command in its hand. -/
def Passed (noted forwarded : List Outbound) (d : Dispatcher) : Prop :=
  noted = forwarded ++ d.hand ∨
    d.phase = .stopped .writerGone ∧ d.outbound.hasReceiver = false ∧
      ∃ out, noted = forwarded ++ [out]

theorem Passed.isPrefix {noted forwarded : List Outbound} (h : Passed noted forwarded d) :
    forwarded <+: noted := by
  rcases h with rfl | ⟨-, -, out, rfl⟩
  · exact List.prefix_append _ _
  · exact List.prefix_append _ _

theorem Passed.of_phase_eq {noted forwarded : List Outbound} {e : Dispatcher}
    (h : Passed noted forwarded d) (hp : e.phase = d.phase)
    (hc : d.outbound.hasReceiver = false → e.outbound.hasReceiver = false) :
    Passed noted forwarded e := by
  rw [Passed, hand_of_phase_eq hp, hp]
  exact h.imp_right fun hs => ⟨hs.1, hc hs.2.1, hs.2.2⟩

/-- The command that an act takes out of the hand. -/
def Act.carried : Act → List Outbound
  | .forward out => [out]
  | .lose out => [out]
  | _ => []

theorem hand_of_ready {a : Act} (hr : d.Ready a) : d.hand = a.carried := by
  cases a with
  | stop reason =>
    rw [hand, show d.phase = .idle from hr]
    rfl
  | deliver event =>
    rw [hand, show d.phase = .delivering event from hr]
    rfl
  | forget =>
    obtain ⟨event, hp⟩ := hr
    rw [hand, hp]
    rfl
  | giveUp =>
    obtain ⟨event, hp⟩ := hr
    rw [hand, hp]
    rfl
  | _ =>
    rw [hand, hr.1]
    rfl

theorem Passed.perform {noted forwarded : List Outbound} {a : Act} (h : Passed noted forwarded d)
    (hr : d.Ready a) :
    Passed (noted ++ d.taken a) (forwarded ++ a.forwarded?.toList) (d.perform a) := by
  have hn : noted = forwarded ++ d.hand :=
    h.resolve_right fun hs => hr.phase_ne _ hs.1
  rw [hand_of_ready hr] at hn
  cases a with
  | lose out =>
    refine .inr ⟨rfl, ?_, out, by simpa [taken, Act.forwarded?, Act.carried] using hn⟩
    rw [outbound_perform]
    exact hr.2
  | _ =>
    left
    rw [hand_perform hr, hn]
    simp [Act.forwarded?, Act.carried]

end Dispatcher

namespace Link

/-! ## What a run leaves behind -/

/-- The commands that the dispatcher takes from the intake in a run, in order, and what becomes of
them. -/
def admissions (l : Link) (moments : List Moment) : List (Submission × Dispatcher.Admission) :=
  trail live (fun l m => (((l.act? m).bind Act.submission?).map fun s =>
    (s, l.dispatcher.admission s)).toList) l moments

/-- The commands that the dispatcher notes in a run, in order. -/
def noted (l : Link) (moments : List Moment) : List Submission :=
  ((l.admissions moments).filter (·.2 = .noted)).map (·.1)

/-- The commands that the dispatcher puts into the queue of the writer, in order. -/
def forwarded (l : Link) (moments : List Moment) : List Outbound :=
  (l.acts moments).filterMap Act.forwarded?

/-- The reports with which the dispatcher deals in a run, in order. -/
def failed (l : Link) (moments : List Moment) : List WriteFailure :=
  (l.acts moments).filterMap Act.failure?

/-- The command with which the writer gets done in a moment: its text is written, or it has none and
is reported. -/
def finishes? (l : Link) : Moment → Option Outbound
  | .take => l.writer.refuses? l.dispatcher
  | .written w => l.writer.completes? w
  | _ => none

/-- The commands with which the writer gets done in a run, in order. -/
def finished (l : Link) (moments : List Moment) : List Outbound :=
  trail live (fun l m => (l.finishes? m).toList) l moments

variable {l : Link} {m : Moment}

theorem admissions_concat (l : Link) (moments : List Moment) (m : Moment) :
    l.admissions (moments ++ [m]) = l.admissions moments ++
      ((((l.run moments).act? m).bind Act.submission?).map fun s =>
        (s, (l.run moments).dispatcher.admission s)).toList :=
  trail_concat l moments m

theorem finished_concat (l : Link) (moments : List Moment) (m : Moment) :
    l.finished (moments ++ [m]) = l.finished moments ++ ((l.run moments).finishes? m).toList :=
  trail_concat l moments m

theorem forwarded_concat (l : Link) (moments : List Moment) (m : Moment) :
    l.forwarded (moments ++ [m]) =
      l.forwarded moments ++ (((l.run moments).act? m).bind Act.forwarded?).toList := by
  rw [forwarded, acts_concat, List.filterMap_append]
  refine congrArg (l.forwarded moments ++ ·) ?_
  cases h : (l.run moments).act? m with
  | none => rfl
  | some a => cases hf : a.forwarded? <;> simp [hf]

theorem failed_concat (l : Link) (moments : List Moment) (m : Moment) :
    l.failed (moments ++ [m]) =
      l.failed moments ++ (((l.run moments).act? m).bind Act.failure?).toList := by
  rw [failed, acts_concat, List.filterMap_append]
  refine congrArg (l.failed moments ++ ·) ?_
  cases h : (l.run moments).act? m with
  | none => rfl
  | some a => cases hf : a.failure? <;> simp [hf]

theorem noted_concat (l : Link) (moments : List Moment) (m : Moment) :
    l.noted (moments ++ [m]) = l.noted moments ++
      (((l.run moments).act? m).bind Act.submission?).toList.filter
        fun s => (l.run moments).dispatcher.admission s = .noted := by
  rw [noted, admissions_concat, List.filter_append, List.map_append]
  refine congrArg (l.noted moments ++ ·) ?_
  cases h : ((l.run moments).act? m).bind Act.submission? with
  | none => rfl
  | some s => by_cases ha : (l.run moments).dispatcher.admission s = .noted <;> simp [ha]

theorem noted_of_act (d : Dispatcher) (a : Act) :
    (a.submission?.toList.filter fun s => d.admission s = .noted).map Submission.outbound =
      d.taken a := by
  cases a with
  | submit s =>
    rw [Dispatcher.taken_submit]
    by_cases ha : d.admission s = .noted <;> simp [Act.submission?, ha]
  | _ => rfl

/-! ## Moments -/

/-- Whether a moment is the doing of the dispatcher or of the writer. -/
def Moment.isInner : Moment → Bool
  | .dispatch _ => true
  | .take => true
  | .ping => true
  | .written _ => true
  | _ => false

/-- What callers, the consumer of events, the reader and the peer do. -/
structure Apart (m : Moment) (l l' : Link) : Prop where
  writer : l'.writer = l.writer
  /-- Something happens to the dispatcher from outside, or the reader does something to its queue. -/
  dispatcher :
    (∃ i : Dispatcher.Input, m = .outside i ∧ i.isOutside = true ∧
      l'.dispatcher = l.dispatcher.live (.input i)) ∨
    ∃ frames, l'.dispatcher = { l.dispatcher with frames }

theorem apart_withReader {got : Option String} {wire : List Incoming} {r : Reader × Dispatcher}
    (h : l.reader.Moves got l.dispatcher r) : Apart m l ({ l with wire }.withReader r) := by
  obtain ⟨r, d⟩ := r
  obtain ⟨frames, rfl, -⟩ := h
  exact ⟨rfl, .inr ⟨frames, rfl⟩⟩

theorem apart_live (hm : m.isInner = false) (l : Link) : Apart m l (l.live m) := by
  have hsame : ∃ frames, l.dispatcher = { l.dispatcher with frames } := ⟨l.dispatcher.frames, rfl⟩
  cases hs : l.step m with
  | none =>
    rw [live_of_none hs]
    exact ⟨rfl, .inr hsame⟩
  | some l' =>
    rw [live_of_step hs]
    cases m with
    | outside i =>
      rw [step] at hs
      split at hs
      · rename_i hi
        exact Option.some.inj hs ▸ ⟨rfl, .inl ⟨i, rfl, hi, rfl⟩⟩
      · cases hs
    | read =>
      obtain ⟨p, -, rfl⟩ := Option.map_eq_some_iff.mp hs
      exact ⟨rfl, .inr hsame⟩
    | send item => exact Option.some.inj hs ▸ ⟨rfl, .inr hsame⟩
    | arrive =>
      rw [step] at hs
      split at hs
      · cases hs
      · obtain ⟨r, hr, rfl⟩ := Option.map_eq_some_iff.mp hs
        exact apart_withReader (Reader.moves_receive hr)
    | broken fault =>
      obtain ⟨r, hr, rfl⟩ := Option.map_eq_some_iff.mp hs
      exact apart_withReader (Reader.moves_receive hr)
    | ended =>
      obtain ⟨r, hr, rfl⟩ := Option.map_eq_some_iff.mp hs
      exact apart_withReader (Reader.moves_receive hr)
    | hand =>
      obtain ⟨r, hr, rfl⟩ := Option.map_eq_some_iff.mp hs
      exact apart_withReader (Reader.moves_hand hr)
    | silence =>
      obtain ⟨r, hr, rfl⟩ := Option.map_eq_some_iff.mp hs
      exact apart_withReader (Reader.moves_expire hr)
    | giveUp =>
      obtain rfl := Option.some.inj hs
      exact apart_withReader (Reader.moves_giveUp l.reader l.dispatcher)
    | _ => cases hm

theorem Apart.keeps {l' : Link} (h : Apart m l l') :
    l'.dispatcher.phase = l.dispatcher.phase ∧
      l'.dispatcher.outbound = l.dispatcher.outbound ∧
      l'.dispatcher.failures = l.dispatcher.failures := by
  rcases h.dispatcher with ⟨i, -, hi, he⟩ | ⟨frames, he⟩
  · obtain ⟨_, _, _, _, _, _, ha, -⟩ := Dispatcher.apply_outside hi l.dispatcher
    rw [he, Dispatcher.live, ha]
    exact ⟨rfl, rfl, rfl⟩
  · rw [he]
    exact ⟨rfl, rfl, rfl⟩

theorem dispatcher_live (ha : l.act? m = none) :
    (∃ i : Dispatcher.Input, m = .outside i ∧ i.isOutside = true ∧
        (l.live m).dispatcher = l.dispatcher.live (.input i)) ∨
      ∃ outbound failures frames,
        (l.live m).dispatcher = { l.dispatcher with outbound, failures, frames } := by
  have hsame : ∃ outbound failures frames,
      l.dispatcher = { l.dispatcher with outbound, failures, frames } :=
    ⟨l.dispatcher.outbound, l.dispatcher.failures, l.dispatcher.frames, rfl⟩
  have hwriter : ∀ r, l.writer.Moves l.dispatcher r → ∃ outbound failures frames,
      (l.withWriter r).dispatcher = { l.dispatcher with outbound, failures, frames } := by
    rintro ⟨w, d⟩ ⟨outbound, failures, rfl, -⟩
    exact ⟨outbound, failures, l.dispatcher.frames, rfl⟩
  by_cases hm : m.isInner = false
  · rcases (apart_live hm l).dispatcher with hi | ⟨frames, he⟩
    · exact .inl hi
    · exact .inr ⟨_, _, frames, he⟩
  · right
    cases hs : l.step m with
    | none =>
      rw [live_of_none hs]
      exact hsame
    | some l' =>
      rw [live_of_step hs]
      cases m with
      | dispatch b =>
        rw [step, Dispatcher.step_eq, show l.dispatcher.act? b = none from ha] at hs
        cases hs
      | take =>
        obtain ⟨r, hr, rfl⟩ := Option.map_eq_some_iff.mp hs
        exact hwriter r (Writer.moves_take hr)
      | ping =>
        obtain ⟨w, -, rfl⟩ := Option.map_eq_some_iff.mp hs
        exact hsame
      | written w =>
        obtain ⟨r, hr, rfl⟩ := Option.map_eq_some_iff.mp hs
        exact hwriter r (Writer.moves_learn hr)
      | _ => exact absurd rfl hm

theorem live_of_act? {a : Act} (h : l.act? m = some a) :
    l.live m = { l with dispatcher := l.dispatcher.perform a } ∧ l.dispatcher.Ready a := by
  cases m with
  | dispatch b =>
    have h : l.dispatcher.act? b = some a := h
    exact ⟨live_of_step (by rw [step, Dispatcher.step_eq, h]; rfl), Dispatcher.ready_of_act? h⟩
  | _ => cases h

/-! ## How commands get on -/

/-- Where the commands are that the dispatcher noted. -/
structure Conveyed (noted : List Submission) (forwarded finished : List Outbound)
    (failed : List WriteFailure) (l : Link) : Prop where
  passed : l.dispatcher.Passed (noted.map Submission.outbound) forwarded
  belt : ∃ underway, l.writer.Belt forwarded finished underway l.dispatcher
  reported : Writer.Reported failed finished l.dispatcher
  heard : (∀ reason, l.dispatcher.phase ≠ .stopped reason) →
    l.dispatcher.failures.hasReceiver = true

namespace Conveyed

variable {noted : List Submission} {forwarded finished : List Outbound}
  {failed : List WriteFailure}

theorem start (limit window : Duration) (c : Capacities) :
    Conveyed [] [] [] [] (start limit window c) where
  passed := .inl rfl
  belt := ⟨[], .start c⟩
  reported := .start c
  heard _ := rfl

theorem apart {l' : Link} (h : Conveyed noted forwarded finished failed l)
    (ha : Apart m l l') : Conveyed noted forwarded finished failed l' := by
  obtain ⟨hp, ho, hf⟩ := ha.keeps
  obtain ⟨underway, hb⟩ := h.belt
  refine ⟨h.passed.of_phase_eq hp (ho ▸ id), ⟨underway, ?_⟩, ?_, fun hs => ?_⟩
  · rw [ha.writer]
    exact hb.same (congrArg _ ho) (congrArg _ ho) (congrArg _ hf)
  · exact h.reported.same (congrArg _ hf) (congrArg _ hf) (congrArg _ hf)
  · rw [hf]
    exact h.heard fun reason => hp ▸ hs reason

/-! ### The dispatcher -/

theorem belt_perform {a : Act} {underway : List Outbound} {w : Writer} {d : Dispatcher}
    (h : w.Belt forwarded finished underway d) (hr : d.Ready a) :
    w.Belt (forwarded ++ a.forwarded?.toList) finished underway (d.perform a) := by
  refine h.more ?_ ?_ ?_
  · rw [Dispatcher.outbound_perform]
    cases a with
    | forward out => rfl
    | _ => exact (List.append_nil _).symm
  · rw [Dispatcher.outbound_perform]
    cases a <;> rfl
  · rw [Dispatcher.failures_perform]
    cases a <;> rfl

theorem reported_perform {a : Act} {d : Dispatcher} (h : Writer.Reported failed finished d)
    (hr : d.Ready a) (hc : d.failures.hasReceiver = true) :
    Writer.Reported (failed ++ a.failure?.toList) finished (d.perform a) := by
  have hq := h.queued hc
  have hsame : failed ++ (none : Option WriteFailure).toList = failed := List.append_nil failed
  cases a with
  | fail failure =>
    obtain ⟨rest, hi⟩ := List.head?_eq_some_iff.mp hr.2.2
    have hf := Dispatcher.failures_perform d (.fail failure)
    have hq : failed ++ [failure] ++ rest = finished.filterMap Outbound.failure? := by
      rw [← hq, hi]
      simp
    refine ⟨hq ▸ List.prefix_append _ _, fun _ => ?_, by rw [hf]; exact h.unbounded⟩
    rw [hf, ← hq]
    simp [Dispatcher.Queues.after, Dispatcher.queues, dropHead, hi, Act.failure?]
  | stop reason => exact ⟨hsame.symm ▸ h.begun, fun h => (by cases h), h.unbounded⟩
  | lose out =>
    refine ⟨hsame.symm ▸ h.begun, fun h => (by cases h), ?_⟩
    rw [Dispatcher.failures_perform]
    exact h.unbounded
  | _ =>
    rw [Act.failure?, hsame]
    · refine h.same ?_ ?_ ?_ <;> rw [Dispatcher.failures_perform] <;> rfl
    · simp

theorem perform {a : Act} (h : Conveyed noted forwarded finished failed l)
    (hr : l.dispatcher.Ready a) :
    Conveyed (noted ++ a.submission?.toList.filter fun s => l.dispatcher.admission s = .noted)
      (forwarded ++ a.forwarded?.toList) finished (failed ++ a.failure?.toList)
      { l with dispatcher := l.dispatcher.perform a } where
  passed := by
    rw [List.map_append, noted_of_act]
    exact h.passed.perform hr
  belt := by
    obtain ⟨underway, hb⟩ := h.belt
    exact ⟨underway, belt_perform hb hr⟩
  reported := reported_perform h.reported hr (h.heard hr.phase_ne)
  heard hs := by
    have hc := h.heard hr.phase_ne
    simp only at hs ⊢
    rw [Dispatcher.failures_perform]
    cases a with
    | stop reason => exact absurd rfl (hs reason)
    | lose out => exact absurd rfl (hs .writerGone)
    | _ => exact hc

/-! ### The writer -/

theorem moved {r : Writer × Dispatcher} {done : List Outbound}
    (h : Conveyed noted forwarded finished failed l)
    (hb : ∃ underway, r.1.Belt forwarded (finished ++ done) underway r.2 ∧
      Writer.Reported failed (finished ++ done) r.2 ∧ Writer.Spares l.dispatcher r.2) :
    Conveyed noted forwarded (finished ++ done) failed (l.withWriter r) := by
  obtain ⟨underway, hbelt, hreported, hs⟩ := hb
  exact ⟨h.passed.of_phase_eq hs.phase hs.gone, ⟨underway, hbelt⟩, hreported, fun hp =>
    hs.hears.trans (h.heard fun reason => hs.phase ▸ hp reason)⟩

/-! ### Runs -/

theorem finishes?_of_none (h : l.step m = none) : l.finishes? m = none := by
  cases m with
  | take =>
    rw [step, Option.map_eq_none_iff] at h
    rw [finishes?, Writer.refuses?]
    split
    · rename_i out rest hp ho
      rw [Writer.take, hp] at h
      simp only [Mailbox.head, ho] at h
      cases he : out.command.encode out.id <;> simp [he] at h
    · rfl
  | written w =>
    rw [step, Option.map_eq_none_iff] at h
    cases w with
    | done =>
      rw [finishes?, Writer.completes?]
      split
      · rename_i hp
        simp [Writer.learn, hp, Sender.Written.reason?] at h
      · rfl
    | _ => rfl
  | _ => rfl

/-- A moment takes commands on, and leaves behind what the dispatcher and the writer did. -/
theorem live (h : Conveyed noted forwarded finished failed l) (m : Moment) :
    Conveyed
      (noted ++ ((l.act? m).bind Act.submission?).toList.filter
        fun s => l.dispatcher.admission s = .noted)
      (forwarded ++ ((l.act? m).bind Act.forwarded?).toList)
      (finished ++ (l.finishes? m).toList)
      (failed ++ ((l.act? m).bind Act.failure?).toList) (l.live m) := by
  cases ha : l.act? m with
  | some a =>
    obtain ⟨hl, hr⟩ := live_of_act? ha
    obtain ⟨b, rfl⟩ : ∃ b, m = .dispatch b := by
      cases m with
      | dispatch b => exact ⟨b, rfl⟩
      | _ => cases ha
    rw [hl]
    simp only [Option.bind_some, finishes?, Option.toList_none, List.append_nil]
    exact h.perform hr
  | none =>
    simp only [Option.bind_none, Option.toList_none, List.filter_nil, List.append_nil]
    cases hs : l.step m with
    | none =>
      rw [finishes?_of_none hs, live_of_none hs, Option.toList_none, List.append_nil]
      exact h
    | some l' =>
      cases m with
      | dispatch b =>
        rw [step, Dispatcher.step_eq, show l.dispatcher.act? b = none from ha] at hs
        cases hs
      | take =>
        obtain ⟨underway, hb⟩ := h.belt
        rw [live_of_step hs]
        obtain ⟨r, hr, rfl⟩ := Option.map_eq_some_iff.mp hs
        exact h.moved (Writer.belt_take hb h.reported hr)
      | written w =>
        obtain ⟨underway, hb⟩ := h.belt
        rw [live_of_step hs]
        obtain ⟨r, hr, rfl⟩ := Option.map_eq_some_iff.mp hs
        exact h.moved (Writer.belt_learn hb h.reported hr)
      | ping =>
        obtain ⟨underway, hb⟩ := h.belt
        rw [live_of_step hs]
        obtain ⟨w, hw, rfl⟩ := Option.map_eq_some_iff.mp hs
        rw [finishes?, Option.toList_none, List.append_nil]
        · exact { h with belt := ⟨underway, hb.ping hw⟩ }
        all_goals simp
      | _ =>
        rw [finishes?, Option.toList_none, List.append_nil]
        · exact h.apart (apart_live rfl l)
        all_goals simp

/-- Where the commands are after any run. -/
theorem run (limit window : Duration) (c : Capacities) (moments : List Moment) :
    Conveyed ((Link.start limit window c).noted moments)
      ((Link.start limit window c).forwarded moments)
      ((Link.start limit window c).finished moments)
      ((Link.start limit window c).failed moments)
      ((Link.start limit window c).run moments) := by
  induction moments using List.reverseRecOn with
  | nil => exact start limit window c
  | append_singleton moments m ih =>
    rw [noted_concat, forwarded_concat, finished_concat, failed_concat, run_concat]
    exact ih.live m

end Conveyed

end Link

end LedgerClient
