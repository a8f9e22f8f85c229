import LedgerClient.Proofs.Dispatcher.Settlement
import LedgerClient.Proofs.Link.Conveyance

/-!
# Every command has one lot

What becomes of the commands that the dispatcher takes from the intake, in any run of a dispatcher
with its writer (`ConveyedOnce`): a command is skipped, refused, written, reported as it has no text,
or left when the writer stops, and each of these only once and in the order of the intake.
-/

namespace LedgerClient.Link

open scoped List
open Dispatcher (Act Admission)

variable {limit window : Duration} {c : Capacities} {l : Link} {m : Moment}
  {moments : List Moment}

/-! ## The order of the intake -/

theorem replies_live (l : Link) (m : Moment) :
    l.dispatcher.replies <+: (l.live m).dispatcher.replies := by
  cases ha : l.act? m with
  | some a =>
    rw [(live_of_act? ha).1, Dispatcher.replies_perform]
    exact List.prefix_append _ _
  | none =>
    rcases dispatcher_live ha with ⟨i, -, -, he⟩ | ⟨outbound, failures, frames, he⟩
    · rw [he]
      exact Dispatcher.replies_prefix_live l.dispatcher (.input i)
    · exact he ▸ List.prefix_rfl

/-- The commands that the dispatcher takes from the intake in a run, in order. -/
def taken (l : Link) (moments : List Moment) : List Submission :=
  (l.admissions moments).map (·.1)

theorem taken_concat (l : Link) (moments : List Moment) (m : Moment) :
    l.taken (moments ++ [m]) =
      l.taken moments ++ (((l.run moments).act? m).bind Act.submission?).toList := by
  rw [taken, admissions_concat, List.map_append]
  refine congrArg (l.taken moments ++ ·) ?_
  cases ((l.run moments).act? m).bind Act.submission? <;> rfl

theorem intake_live (l : Link) (m : Moment) :
    ((l.act? m).bind Act.submission?).toList ++ (l.live m).dispatcher.intake.items <+
      l.dispatcher.intake.items ++ m.submission?.toList := by
  cases ha : l.act? m with
  | some a =>
    obtain ⟨hl, hr⟩ := live_of_act? ha
    rw [hl, Option.bind_some]
    refine List.Sublist.trans ?_ (List.sublist_append_left _ _)
    simp only
    rw [Dispatcher.intake_perform]
    cases a with
    | submit s =>
      obtain ⟨rest, hi⟩ := List.head?_eq_some_iff.mp hr.2.2.2.2
      simp [Act.submission?, Dispatcher.Queues.after, Dispatcher.queues, Dispatcher.dropHead, hi]
    | stop reason => exact List.nil_sublist _
    | lose out => exact List.nil_sublist _
    | _ => exact List.Sublist.refl _
  | none =>
    rw [Option.bind_none, Option.toList_none, List.nil_append]
    rcases dispatcher_live ha with ⟨i, rfl, hi, he⟩ | ⟨outbound, failures, frames, he⟩
    · obtain ⟨_, _, _, _, _, _, happly, hintake, -⟩ := Dispatcher.apply_outside hi l.dispatcher
      rw [he, Dispatcher.live, happly]
      exact hintake
    · rw [he]
      exact List.sublist_append_left _ _

/-- Commands are taken from the intake in the order in which they were handed in. -/
theorem taken_sublist (limit window : Duration) (c : Capacities) (moments : List Moment) :
    (start limit window c).taken moments ++
        ((start limit window c).run moments).dispatcher.intake.items <+
      submissions moments := by
  induction moments using List.reverseRecOn with
  | nil => exact List.Sublist.refl _
  | append_singleton moments m ih =>
    have hs : submissions (moments ++ [m]) = submissions moments ++ m.submission?.toList := by
      rw [submissions, List.filterMap_append]
      cases h : m.submission? <;> simp [submissions, h]
    have hl := intake_live ((start limit window c).run moments) m
    rw [taken_concat, run_concat, hs, List.append_assoc]
    -- what the last moment takes was at the head of the intake
    refine (hl.append_left _).trans ?_
    rw [← List.append_assoc]
    exact ih.append_right _

theorem noted_sublist (limit window : Duration) (c : Capacities) (moments : List Moment) :
    (start limit window c).noted moments <+ submissions moments :=
  (List.filter_sublist.map _).trans
    ((List.sublist_append_left _ _).trans (taken_sublist limit window c moments))

/-! ## Callers -/

theorem told_of_admission (l : Link) (moments : List Moment) :
    ∀ e ∈ l.admissions moments, e.2.tell e.1 ⊆ (l.run moments).dispatcher.replies := by
  induction moments using List.reverseRecOn with
  | nil =>
    intro e he
    cases he
  | append_singleton moments m ih =>
    intro e he
    rw [admissions_concat, List.mem_append] at he
    rw [run_concat]
    rcases he with he | he
    · exact List.Subset.trans (ih e he) (replies_live _ m).subset
    · rw [Option.mem_toList, Option.map_eq_some_iff] at he
      obtain ⟨s, hs, rfl⟩ := he
      obtain ⟨a, ha, has⟩ := Option.bind_eq_some_iff.mp hs
      obtain rfl : a = .submit s := by cases a <;> simp_all [Act.submission?]
      rw [(live_of_act? ha).1]
      simp only [Dispatcher.replies_submit]
      exact List.subset_append_right _ _

/-! ## Entries in the table -/

/-- The command that was noted last under an id. -/
def latest? (id : Nat) (noted : List Submission) : Option Submission :=
  (noted.filter (·.id = id)).getLast?

theorem latest?_append_of_notMem {id : Nat} {earlier later : List Submission}
    (h : id ∉ later.map (·.id)) : latest? id (earlier ++ later) = latest? id earlier := by
  have hnil : later.filter (·.id = id) = [] :=
    List.filter_eq_nil_iff.mpr fun s hs hid =>
      h (List.mem_map.mpr ⟨s, hs, of_decide_eq_true hid⟩)
  rw [latest?, List.filter_append, hnil, List.append_nil]
  rfl

theorem latest?_append_cons {s : Submission} (earlier later : List Submission) :
    latest? s.id (earlier ++ s :: later) = latest? s.id (s :: later) := by
  rw [latest?, List.filter_append, List.filter_cons_of_pos (by simp), List.getLast?_append_cons,
    latest?, List.filter_cons_of_pos (by simp)]

theorem latest?_cons_of_notMem {s : Submission} {later : List Submission}
    (h : s.id ∉ later.map (·.id)) : latest? s.id (s :: later) = some s := by
  rw [← List.singleton_append, latest?_append_of_notMem h, latest?,
    List.filter_cons_of_pos (by simp)]
  rfl

theorem notMem_of_entry {m : Moment} {id : Nat} {p : Pending}
    (h : l.dispatcher.table.find? id = some p) :
    id ∉ ((((l.act? m).bind Act.submission?).toList.filter
      (fun s => l.dispatcher.admission s = .noted)).map (·.id)) := by
  intro hm
  obtain ⟨s, hs, rfl⟩ := List.mem_map.mp hm
  have hn := of_decide_eq_true (List.mem_filter.mp hs).2
  simp only [Dispatcher.admission, h, Option.isSome_some, if_true] at hn
  split at hn <;> cases hn

theorem latest_of_entry {id : Nat} {p : Pending} {l : Link} (hl : l.dispatcher.table = .empty)
    (h : (l.run moments).dispatcher.table.find? id = some p) :
    (latest? id (l.noted moments)).map Submission.pending = some p := by
  induction moments using List.reverseRecOn with
  | nil =>
    rw [run, List.foldl_nil, hl, Table.find?_empty] at h
    cases h
  | append_singleton moments m ih =>
    rw [run_concat] at h
    rw [noted_concat]
    -- an entry that is not new stays that of the same command, as its id is not noted again
    have hold : (l.run moments).dispatcher.table.find? id = some p →
        (latest? id (l.noted moments ++ (((l.run moments).act? m).bind
          Act.submission?).toList.filter
            (fun s => (l.run moments).dispatcher.admission s = .noted))).map
              Submission.pending = some p := by
      intro h
      rw [latest?_append_of_notMem (notMem_of_entry h)]
      exact ih h
    cases ha : (l.run moments).act? m with
    | some a =>
      rw [(live_of_act? ha).1] at h
      rw [ha] at hold
      rcases Dispatcher.noted_of_pending h with h | ⟨s, rfl, hn, rfl, rfl⟩
      · exact hold h
      · rw [Option.bind_some, Act.submission?, Option.toList_some,
          List.filter_cons_of_pos (by simpa using hn), List.filter_nil, latest?_append_cons]
        simp [latest?]
    | none =>
      rw [ha] at hold
      rcases dispatcher_live ha with ⟨i, -, hi, he⟩ | ⟨outbound, failures, frames, he⟩
      · obtain ⟨_, _, _, _, _, _, happly, -⟩ :=
          Dispatcher.apply_outside hi (l.run moments).dispatcher
        rw [he, Dispatcher.live, happly] at h
        exact hold h
      · rw [he] at h
        exact hold h

/-! ## After the writer has stopped -/

theorem writer_live_of_stopped (h : l.writer.isStopped = true) (m : Moment) :
    (l.live m).writer = l.writer ∧ l.finishes? m = none := by
  obtain ⟨reason, hp⟩ : ∃ reason, l.writer.phase = .stopped reason := by
    rw [Writer.isStopped, Writer.reason?] at h
    split at h
    · exact ⟨_, ‹_›⟩
    · cases h
  cases m with
  | take =>
    rw [live_of_none (by rw [step, Writer.take, hp]; rfl), finishes?, Writer.refuses?, hp]
    exact ⟨rfl, rfl⟩
  | ping => exact ⟨by rw [live_of_none (by rw [step, Writer.ping, hp]; rfl)], rfl⟩
  | written w =>
    rw [live_of_none (by rw [step, Writer.learn, hp]; rfl)]
    exact ⟨rfl, by cases w <;> simp [finishes?, Writer.completes?, hp]⟩
  | dispatch b =>
    cases ha : l.dispatcher.act? b with
    | none =>
      rw [live_of_none (by rw [step, Dispatcher.step_eq, ha]; rfl)]
      exact ⟨rfl, rfl⟩
    | some a =>
      rw [(live_of_act? (m := .dispatch b) ha).1]
      exact ⟨rfl, rfl⟩
  | _ => exact ⟨(apart_live rfl l).writer, rfl⟩

theorem ended_run (limit window : Duration) (c : Capacities)
    (h : ((start limit window c).run moments).writer.isStopped = true) (later : List Moment) :
    ((start limit window c).run (moments ++ later)).writer =
        ((start limit window c).run moments).writer ∧
      (start limit window c).admissions (moments ++ later) =
        (start limit window c).admissions moments ∧
      (start limit window c).finished (moments ++ later) =
        (start limit window c).finished moments := by
  induction later using List.reverseRecOn with
  | nil => simp
  | append_singleton later m ih =>
    obtain ⟨hw, ha, hf⟩ := ih
    rw [← List.append_assoc, run_concat, admissions_concat, finished_concat, ha, hf]
    have hstopped : ((start limit window c).run (moments ++ later)).writer.isStopped = true :=
      hw ▸ h
    obtain ⟨hlive, hdone⟩ := writer_live_of_stopped hstopped m
    obtain ⟨underway, hb⟩ := (Conveyed.run limit window c (moments ++ later)).belt
    have hnone : (((start limit window c).run (moments ++ later)).act? m).bind
        Act.submission? = none := by
      cases m with
      | dispatch b =>
        cases ha : ((start limit window c).run (moments ++ later)).act? (.dispatch b) with
        | none => rfl
        | some a =>
          cases a with
          | submit s => exact absurd ha (Dispatcher.act?_ne_submit (hb.released hstopped).2 s)
          | _ => rfl
      | _ => rfl
    rw [hlive, hdone, hnone]
    exact ⟨hw, by simp, by simp⟩

/-! ## Lots -/

/-- What becomes of a command that is taken from the intake. -/
inductive Lot
  /-- Its caller was gone. -/
  | skipped
  /-- Its id was taken. -/
  | refused
  | written
  /-- It has no text, and was reported. -/
  | failed
  /-- It is under way at the socket, queued for the writer or in hand; or it was when the writer
  stopped. -/
  | left
deriving DecidableEq

/-- The lot of a command, if the writer has got done with it or has not. -/
def lotOf (done : Bool) (s : Submission) : Admission → Lot
  | .skipped => .skipped
  | .refused => .refused
  | .noted => if done then if s.outbound.text?.isSome then .written else .failed else .left

/-- The commands with a lot, in order. -/
def withLot (lot : Lot) (lots : List (Submission × Lot)) : List Submission :=
  (lots.filter (·.2 = lot)).map (·.1)

theorem withLot_map (lot : Lot) (done : Bool) (admissions : List (Submission × Admission)) :
    withLot lot (admissions.map fun e => (e.1, lotOf done e.1 e.2)) =
      (admissions.filter fun e => lotOf done e.1 e.2 = lot).map (·.1) := by
  rw [withLot, List.filter_map, List.map_map]
  rfl

theorem withLot_append (lot : Lot) (earlier later : List (Submission × Lot)) :
    withLot lot (earlier ++ later) = withLot lot earlier ++ withLot lot later := by
  rw [withLot, List.filter_append, List.map_append]
  rfl

theorem lotOf_eq_iff {done : Bool} {s : Submission} {x : Admission} {lot : Lot} :
    lotOf done s x = lot ↔
      match lot with
      | .skipped => x = .skipped
      | .refused => x = .refused
      | .written => done = true ∧ s.outbound.text?.isSome = true ∧ x = .noted
      | .failed => done = true ∧ s.outbound.text?.isSome = false ∧ x = .noted
      | .left => done = false ∧ x = .noted := by
  cases x <;> cases lot <;> cases done <;> cases h : s.outbound.text?.isSome <;> simp [lotOf, h]

theorem exists_lots {admissions : List (Submission × Admission)} {finished rest : List Outbound}
    (h : ((admissions.filter (·.2 = .noted)).map (·.1)).map Submission.outbound =
      finished ++ rest) :
    ∃ lots : List (Submission × Lot), lots.map (·.1) = admissions.map (·.1) ∧
      withLot .skipped lots = (admissions.filter (·.2 = .skipped)).map (·.1) ∧
      withLot .refused lots = (admissions.filter (·.2 = .refused)).map (·.1) ∧
      (withLot .written lots).map Submission.outbound =
        finished.filter (·.text?.isSome = true) ∧
      (withLot .failed lots).map Submission.outbound =
        finished.filter (·.text?.isSome = false) ∧
      (withLot .left lots).map Submission.outbound = rest := by
  -- the admissions split where those that are done end
  obtain ⟨first, second, hfst, rfl, rfl⟩ := List.map_eq_append_iff.mp h
  obtain ⟨first, second, hfilter, rfl, rfl⟩ := List.map_eq_append_iff.mp hfst
  obtain ⟨early, late, rfl, rfl, rfl⟩ := List.filter_eq_append_iff.mp hfilter
  refine ⟨early.map (fun e => (e.1, lotOf true e.1 e.2)) ++
    late.map (fun e => (e.1, lotOf false e.1 e.2)), ?_, ?_, ?_, ?_, ?_, ?_⟩
  · simp [Function.comp_def]
  · simp only [withLot_append, withLot_map, lotOf_eq_iff, List.filter_append, List.map_append]
  · simp only [withLot_append, withLot_map, lotOf_eq_iff, List.filter_append, List.map_append]
  · simp [withLot_append, withLot_map, lotOf_eq_iff, List.filter_map, Function.comp_def,
      List.filter_filter]
  · simp [withLot_append, withLot_map, lotOf_eq_iff, List.filter_map, Function.comp_def,
      List.filter_filter]
  · simp [withLot_append, withLot_map, lotOf_eq_iff, Function.comp_def]

/-! ## Reports -/

theorem exists_of_filterMap_eq {α β : Type} {f : α → Option β} {xs : List α} {ys zs : List β}
    {b : β} (h : xs.filterMap f = ys ++ b :: zs) :
    ∃ earlier a later, xs = earlier ++ a :: later ∧ earlier.filterMap f = ys ∧ f a = some b := by
  obtain ⟨first, second, rfl, hfirst, hsecond⟩ := List.filterMap_eq_append_iff.mp h
  obtain ⟨passed, a, later, rfl, hpassed, ha, -⟩ := List.filterMap_eq_cons_iff.mp hsecond
  refine ⟨first ++ passed, a, later, by simp, ?_, ha⟩
  rw [List.filterMap_append, hfirst, List.filterMap_eq_nil_iff.mpr hpassed, List.append_nil]

theorem noted_of_report {b : Bool} {failure : WriteFailure}
    (ha : ((start limit window c).run moments).dispatcher.act? b = some (.fail failure)) :
    ∃ earlier s later, (start limit window c).noted moments = earlier ++ s :: later ∧
      earlier.filterMap (·.outbound.failure?) = (start limit window c).failed moments ∧
      s.outbound.failure? = some failure := by
  have h := Conveyed.run limit window c moments
  have hready := Dispatcher.ready_of_act? ha
  obtain ⟨underway, hb⟩ := h.belt
  obtain ⟨more, hmore⟩ := List.head?_eq_some_iff.mp hready.2.2
  have hq := h.reported.queued (h.heard hready.phase_ne)
  -- what the writer is done with was forwarded, and what was forwarded was noted
  obtain ⟨rest, hrest⟩ := (hb.begun.trans h.passed.isPrefix)
  have hfailures : ((start limit window c).noted moments).filterMap (·.outbound.failure?) =
      (start limit window c).failed moments ++
        failure :: (more ++ (underway ++ rest).filterMap Outbound.failure?) := by
    rw [← List.cons_append, ← List.append_assoc, ← hmore, hq, ← List.filterMap_append,
      ← List.append_assoc, hrest, List.filterMap_map]
    rfl
  exact exists_of_filterMap_eq hfailures

theorem notMem_of_own (own : OwnIds moments) {earlier later : List Submission} {s : Submission}
    (h : (start limit window c).noted moments = earlier ++ s :: later) :
    s.id ∉ later.map (·.id) := by
  have hn : (((start limit window c).noted moments).map (·.id)).Nodup :=
    ((noted_sublist limit window c moments).map _).nodup own
  rw [h, List.map_append, List.map_cons] at hn
  exact (List.nodup_cons.mp hn.of_append_right).1

theorem id_of_failure? {out : Outbound} {failure : WriteFailure}
    (h : out.failure? = some failure) : failure.id = out.id := by
  unfold Outbound.failure? at h
  split at h
  · cases h
  · exact Option.some.inj h ▸ rfl

/-- A report is on the first command without a text that was not reported before. The entry under its
id is that of the command, unless another one was noted under the id since. -/
theorem entry_of_report {b : Bool} {failure : WriteFailure}
    (ha : ((start limit window c).run moments).dispatcher.act? b = some (.fail failure)) :
    ∃ earlier s later, (start limit window c).noted moments = earlier ++ s :: later ∧
      earlier.filterMap (·.outbound.failure?) = (start limit window c).failed moments ∧
      s.id = failure.id ∧ s.outbound.failure? = some failure ∧
      (∀ p, ((start limit window c).run moments).dispatcher.table.find? failure.id = some p →
        (latest? failure.id (s :: later)).map Submission.pending = some p ∧
        (failure.id ∉ later.map (·.id) → p = s.pending)) ∧
      (OwnIds moments → failure.id ∉ later.map (·.id)) := by
  obtain ⟨earlier, s, later, hnoted, hfailed, hf⟩ := noted_of_report ha
  have hid : s.id = failure.id := (id_of_failure? hf).symm
  refine ⟨earlier, s, later, hnoted, hfailed, hid, hf, fun p hp => ?_, fun own => ?_⟩
  · have hlatest := latest_of_entry (l := start limit window c) rfl hp
    rw [hnoted, ← hid, latest?_append_cons] at hlatest
    refine ⟨hid ▸ hlatest, fun hnot => ?_⟩
    rw [latest?_cons_of_notMem (hid ▸ hnot)] at hlatest
    exact (Option.some.inj hlatest).symm
  · exact hid ▸ notMem_of_own own hnoted

/-! ## Single moves of the writer -/

theorem finishes?_take {out : Outbound} {failure : WriteFailure} (hp : l.writer.phase = .idle)
    (ho : l.dispatcher.outbound.items.head? = some out) (hf : out.failure? = some failure) :
    l.finishes? .take = some out := by
  obtain ⟨rest, hi⟩ := List.head?_eq_some_iff.mp ho
  rw [finishes?, Writer.refuses?, hp, hi]
  simp only [hf, Option.isSome_some, if_true]

theorem writer_live_take {out : Outbound} {failure : WriteFailure}
    (ho : l.dispatcher.outbound.items.head? = some out) (hf : out.failure? = some failure) :
    (l.live .take).writer = l.writer := by
  cases ht : l.writer.take l.dispatcher with
  | none => rw [live_of_none (by rw [step, ht]; rfl)]
  | some r =>
    rw [live_of_step (by rw [step, ht]; rfl)]
    obtain ⟨-, hc⟩ := Writer.takes_of_take ht
    cases hc with
    | handed out' text ho' he =>
      obtain rfl := Option.some.inj (ho.symm.trans ho')
      rw [Outbound.failure?, he] at hf
      cases hf
    | reported out' error ho' he => rfl
    | ended hnil =>
      rw [hnil] at ho
      cases ho

theorem live_ping (l : Link) :
    (l.live .ping).writer.commands = l.writer.commands ∧
      (l.live .ping).dispatcher = l.dispatcher := by
  cases hw : l.writer.ping with
  | none =>
    rw [live_of_none (by rw [step, hw]; rfl)]
    exact ⟨rfl, rfl⟩
  | some w =>
    rw [live_of_step (by rw [step, hw]; rfl)]
    obtain ⟨-, rfl⟩ := Writer.ping_eq_some hw
    exact ⟨(Writer.commands_hand .ping _ l.writer).trans (List.append_nil _), rfl⟩

/-! ## The main result -/

/-- What becomes of the commands that the dispatcher takes from the intake in a run. -/
structure ConveyedOnce (l : Link) (moments : List Moment) : Prop where
  /-- Commands are taken from the intake in the order in which they were handed in. -/
  ordered : l.taken moments <+ submissions moments
  /-- What was handed to the socket are the texts of some of these commands, in the same order and
  each at most once. -/
  written : ∃ served : List Submission, served <+ l.taken moments ∧
    (l.run moments).writer.commands = served.map Submission.outbound ∧
    (l.run moments).writer.texts.map some = served.map (·.outbound.text?)
  /-- Each command that was taken has one lot. The writer is done with those that are written or
  failed, in their order; at most one is under way at the socket; and while the writer is at work,
  all others that were noted are in its queue or in the hand of the dispatcher. -/
  lots : ∃ (lots : List (Submission × Lot)) (underway queued : List Outbound),
    lots.map (·.1) = l.taken moments ∧
    withLot .skipped lots = ((l.admissions moments).filter (·.2 = .skipped)).map (·.1) ∧
    withLot .refused lots = ((l.admissions moments).filter (·.2 = .refused)).map (·.1) ∧
    (withLot .written lots).map Submission.outbound =
      (l.finished moments).filter (·.text?.isSome = true) ∧
    (withLot .failed lots).map Submission.outbound =
      (l.finished moments).filter (·.text?.isSome = false) ∧
    (withLot .left lots).map Submission.outbound = underway ++ queued ∧
    underway.length ≤ 1 ∧
    (l.run moments).writer.commands =
      (withLot .written lots).map Submission.outbound ++ underway ∧
    ((l.run moments).writer.isStopped = false →
      queued = (l.run moments).dispatcher.outbound.items ++ (l.run moments).dispatcher.hand)
  /-- The callers of commands that are skipped or refused are told. -/
  told : ∀ e ∈ l.admissions moments, e.2.tell e.1 ⊆ (l.run moments).dispatcher.replies
  /-- Each command without a text is reported once, in order, and the reports reach the dispatcher in
  this order as long as it is at work. -/
  reports : l.failed moments <+: (l.finished moments).filterMap Outbound.failure? ∧
    ((∀ reason, (l.run moments).dispatcher.phase ≠ .stopped reason) →
      l.failed moments ++ (l.run moments).dispatcher.failures.items =
        (l.finished moments).filterMap Outbound.failure?)
  /-- The reports with which the dispatcher deals are on the commands without a text, in the order in
  which these were noted. The caller that waits under the id of a report is told why, and no other
  entry is affected. The entry is that of the command itself, unless another command was noted under
  the id since, as cannot be with distinct ids; then it is that of the last one. -/
  reported : ∀ b failure,
    (l.run moments).dispatcher.act? b = some (.fail failure) →
      (∃ earlier s later, l.noted moments = earlier ++ s :: later ∧
        earlier.filterMap (·.outbound.failure?) = l.failed moments ∧
        s.id = failure.id ∧ s.outbound.failure? = some failure ∧
        (∀ p, (l.run moments).dispatcher.table.find? failure.id = some p →
          (latest? failure.id (s :: later)).map Submission.pending = some p ∧
          (failure.id ∉ later.map (·.id) → p = s.pending)) ∧
        (OwnIds moments → failure.id ∉ later.map (·.id))) ∧
      (l.run (moments ++ [.dispatch b])).dispatcher.replies =
        (l.run moments).dispatcher.replies ++
          Pending.tell (fun _ => .told (.error (.serialize failure.id failure.error.message)))
            ((l.run moments).dispatcher.table.find? failure.id) ∧
      ∀ id, (l.run (moments ++ [.dispatch b])).dispatcher.table.find? id =
        if failure.id = id then none else (l.run moments).dispatcher.table.find? id
  /-- The writer goes on after a command without a text. -/
  continues : ∀ out failure, (l.run moments).writer.phase = .idle →
    (l.run moments).dispatcher.outbound.items.head? = some out → out.failure? = some failure →
      (l.run (moments ++ [.take])).writer = (l.run moments).writer ∧
      l.finished (moments ++ [.take]) = l.finished moments ++ [out]
  /-- A ping moves no command. -/
  pings : (l.run (moments ++ [.ping])).writer.commands = (l.run moments).writer.commands ∧
    (l.run (moments ++ [.ping])).dispatcher = (l.run moments).dispatcher ∧
    l.finished (moments ++ [.ping]) = l.finished moments
  /-- After the writer has stopped nothing more is taken or written, so the commands that are left
  are those that were under way, queued or in hand. -/
  ended : (l.run moments).writer.isStopped = true → ∀ later,
    l.admissions (moments ++ later) = l.admissions moments ∧
    l.finished (moments ++ later) = l.finished moments ∧
    (l.run (moments ++ later)).writer = (l.run moments).writer
  /-- The callers that are still waiting when the dispatcher stops are told. -/
  stop : ∀ b a reason, (l.run moments).dispatcher.act? b = some a →
    ((l.run moments).dispatcher.perform a).phase = .stopped reason →
      ∀ s : Submission, (l.run moments).dispatcher.table.find? s.id = some s.pending →
        (s.ticket, .told (.error .connectionClosed)) ∈
          (l.run (moments ++ [.dispatch b])).dispatcher.replies

theorem map_some_filterMap {α β : Type} {f : α → Option β} {xs : List α}
    (h : ∀ a ∈ xs, (f a).isSome = true) : (xs.filterMap f).map some = xs.map f := by
  induction xs with
  | nil => rfl
  | cons a xs ih =>
    obtain ⟨b, hb⟩ := Option.isSome_iff_exists.mp (h a List.mem_cons_self)
    rw [List.filterMap_cons_some hb, List.map_cons, List.map_cons, hb,
      ih fun a' ha => h a' (List.mem_cons_of_mem _ ha)]

theorem exists_served {noted : List Submission} {finished underway rest : List Outbound}
    {w : Writer} (hf : w.Faithful)
    (hc : w.commands = finished.filter (·.text?.isSome) ++ underway)
    (hn : noted.map Submission.outbound = finished ++ underway ++ rest) :
    ∃ served : List Submission, served <+ noted ∧
      w.commands = served.map Submission.outbound ∧
      w.texts.map some = served.map (·.outbound.text?) := by
  have htext : ∀ out ∈ w.commands, out.text?.isSome = true := by
    intro out ho
    obtain ⟨text, ht⟩ := hf.text?_of_mem ho
    rw [ht]
    rfl
  -- those that are done or under way are the first, and those among them with a text were served
  obtain ⟨first, second, rfl, hfirst, -⟩ := List.map_eq_append_iff.mp hn
  have hu : underway.filter (·.text?.isSome) = underway :=
    List.filter_eq_self.mpr fun out ho => htext out (hc ▸ List.mem_append_right _ ho)
  have hserved : w.commands = (first.filter (·.outbound.text?.isSome)).map Submission.outbound := by
    rw [hc, ← hu, ← List.filter_append, ← hfirst, List.filter_map]
    rfl
  refine ⟨first.filter (·.outbound.text?.isSome),
    List.filter_sublist.trans (List.sublist_append_left _ _), hserved, ?_⟩
  rw [hf.texts_eq, map_some_filterMap htext, hserved, List.map_map]
  rfl

/-- **Every command has one lot**: it is skipped, refused, written, reported or left, once and in its
turn, wherever pings fall. -/
theorem conveyedOnce (limit window : Duration) (c : Capacities) (moments : List Moment) :
    ConveyedOnce (start limit window c) moments := by
  have h := Conveyed.run limit window c moments
  obtain ⟨underway, hb⟩ := h.belt
  obtain ⟨rest, hrest⟩ := h.passed.isPrefix
  obtain ⟨queue, hqueue⟩ := hb.begun
  have hnoted : ((start limit window c).noted moments).map Submission.outbound =
      (start limit window c).finished moments ++ underway ++ (queue ++ rest) := by
    rw [← hrest, ← hqueue, List.append_assoc]
  have hnoted_taken : (start limit window c).noted moments <+ (start limit window c).taken moments :=
    List.filter_sublist.map _
  exact
    { ordered := (List.sublist_append_left _ _).trans (taken_sublist limit window c moments)
      written := by
        obtain ⟨served, hs, hcommands, htexts⟩ := exists_served hb.faithful hb.commands hnoted
        exact ⟨served, hs.trans hnoted_taken, hcommands, htexts⟩
      lots := by
        obtain ⟨lots, hall, hskipped, hrefused, hwritten, hfailed, hleft⟩ :=
          exists_lots (hnoted.trans (List.append_assoc _ _ _))
        refine ⟨lots, underway, queue ++ rest, hall, hskipped, hrefused, hwritten, hfailed, hleft,
          hb.single, ?_, fun hlive => ?_⟩
        · rw [hwritten, hb.commands]
          simp
        · -- a writer at work has lost nothing, so the dispatcher has not lost a command either
          obtain ⟨hq, hc, -⟩ := hb.queued hlive
          rcases h.passed with hpassed | ⟨-, hgone, -⟩
          · rw [← hqueue] at hq
            rw [← hrest] at hpassed
            rw [List.append_cancel_left hq, List.append_cancel_left hpassed]
          · rw [hc] at hgone
            cases hgone
      told := told_of_admission _ moments
      reports := ⟨h.reported.begun, fun hs => h.reported.queued (h.heard hs)⟩
      reported := by
        intro b failure ha
        refine ⟨entry_of_report ha, ?_, fun id => ?_⟩
        · rw [run_concat, (live_of_act? (m := .dispatch b) ha).1]
          exact Dispatcher.replies_perform _ (.fail failure)
        · rw [run_concat, (live_of_act? (m := .dispatch b) ha).1]
          exact Dispatcher.find?_resolve id failure.id _
            { ((start limit window c).run moments).dispatcher with
              failures := Dispatcher.dropHead
                ((start limit window c).run moments).dispatcher.failures }
      continues := by
        intro out failure hp ho hf
        rw [run_concat, finished_concat]
        exact ⟨writer_live_take ho hf, by rw [finishes?_take hp ho hf]; rfl⟩
      pings := by
        rw [run_concat, finished_concat]
        obtain ⟨hcommands, hd⟩ := live_ping ((start limit window c).run moments)
        exact ⟨hcommands, hd, List.append_nil _⟩
      ended := by
        intro hstopped later
        obtain ⟨hw, ha, hf⟩ := ended_run limit window c hstopped later
        exact ⟨ha, hf, hw⟩
      stop := by
        intro b a reason ha hp s hs
        obtain ⟨-, hpending, -⟩ := Dispatcher.stop_spec (Dispatcher.ready_of_act? ha) hp
        rw [run_concat, (live_of_act? (m := .dispatch b) ha).1]
        exact hpending (s.id, s.pending) (Table.find?_eq_some_iff.mp hs) }

/-- A command without a text whose id is given up and registered again before the report on it comes:
the caller of the other command is told, and its entry is gone. -/
theorem told_of_another_with_its_id :
    let unwritten : Submission := ⟨1, .unwritable "sign" "no key", 0⟩
    let ping : Submission := ⟨1, .ping, 1⟩
    let failure : WriteFailure := ⟨1, .json ⟨.refused "no key", none⟩⟩
    let moments : List Moment :=
      [.outside (.submit unwritten), .dispatch true, .dispatch true, .outside (.abandon 1),
        .dispatch true, .outside (.submit ping), .dispatch true, .dispatch true, .take]
    let l := start ⟨1⟩ ⟨1⟩ ⟨4, 4, 4, 4⟩
    l.noted moments = [unwritten, ping] ∧
      (l.run moments).dispatcher.act? true = some (.fail failure) ∧
      (l.run moments).dispatcher.table.find? 1 = some ping.pending ∧
      (∀ s ∈ l.noted moments, s.outbound.failure? = some failure → ping.pending ≠ s.pending) ∧
      (l.run (moments ++ [.dispatch true])).dispatcher.table.find? 1 = none ∧
      (l.run (moments ++ [.dispatch true])).dispatcher.replies =
        [(0, .dropped), (1, .told (.error (.serialize 1 "JSON error: no key")))] := by
  refine ⟨rfl, rfl, rfl, ?_, rfl, rfl⟩
  intro s hs hf
  -- the ping has a text, so the report is on the other command
  rcases List.mem_cons.mp hs with rfl | hs
  · exact fun he => Nat.one_ne_zero (congrArg Pending.ticket he)
  · obtain rfl := List.mem_singleton.mp hs
    cases hf

-- The second command has no text, the third has the id of the first, and a ping comes in between.
example :
    let submit (id : Nat) (command : Command) (ticket : Ticket) : Moment :=
      .outside (.submit ⟨id, command, ticket⟩)
    let moments : List Moment :=
      [submit 1 .ping 0, submit 2 (.unwritable "sign" "no key") 1, submit 1 .ping 2,
        submit 3 .ping 3, .dispatch true, .dispatch true, .dispatch true, .dispatch true,
        .dispatch true, .dispatch true, .dispatch true, .take, .written .done, .ping,
        .written .done, .take, .take, .dispatch true]
    let l := (start ⟨1⟩ ⟨1⟩ ⟨4, 4, 4, 4⟩).run moments
    l.writer.texts =
        ["\x7b\"id\":1,\"command\":\"ping\"\x7d", "\x7b\"id\":3,\"command\":\"ping\"\x7d"] ∧
      l.dispatcher.replies = [(2, .told (.error (.duplicateId 1))),
        (1, .told (.error (.serialize 2 "JSON error: no key")))] :=
  ⟨rfl, rfl⟩

end LedgerClient.Link
