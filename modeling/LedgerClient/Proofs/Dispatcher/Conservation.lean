import LedgerClient.Proofs.Dispatcher.Effect
import Mathlib.Data.List.Induction

/-!
# Every ticket has one place

The ticket of a command that was handed in is in one of three places: with the command in the
intake, with its entry in the table, or in the log of replies. No act makes a ticket or loses one,
and each input brings just the tickets of the commands it hands in; so over a whole run the tickets
in the three places are those that were handed in (`places_run`), and if no two commands share a
ticket then no ticket has two places. In particular no caller is told twice (`length_verdicts_le`).

`live_cases` says what a moment is to a dispatcher; what is proved of all moments, here and elsewhere,
is proved by its cases.
-/

namespace LedgerClient.Dispatcher

open scoped List

/-- The tickets in the intake, in the table and in the log of replies. -/
def places (d : Dispatcher) : List Ticket :=
  d.intake.items.map (·.ticket) ++ d.table.tickets ++ d.replies.map (·.1)

theorem places_congr {d e : Dispatcher} (hi : d.intake.items = e.intake.items)
    (ht : d.table = e.table) (hr : d.replies = e.replies) : d.places = e.places := by
  rw [places, places, hi, ht, hr]

/-! ## Acts -/

theorem places_settle (t : Ticket) (v : Verdict) (d : Dispatcher) :
    (d.settle t v).places = d.places ++ [t] := by
  simp [places, settle]

theorem places_resolve (id : Nat) (verdict : Pending → Verdict) (d : Dispatcher) :
    (d.resolve id verdict).places.Perm d.places := by
  cases h : d.table.find? id with
  | none => rw [resolve_of_none h]
  | some p =>
    have ht := Table.tickets_perm_of_find?_eq_some h
    rw [resolve_of_some h]
    simp only [places, List.map_append, List.map_cons, List.map_nil, List.append_assoc]
    refine List.Perm.append_left _ ?_
    -- the ticket goes from the front of the table to the end of the log
    calc (d.table.erase id).tickets ++ (d.replies.map (·.1) ++ [p.ticket])
        ~ p.ticket :: ((d.table.erase id).tickets ++ d.replies.map (·.1)) := by
          rw [← List.append_assoc]
          exact List.perm_append_singleton _ _
      _ = (p.ticket :: (d.table.erase id).tickets) ++ d.replies.map (·.1) := rfl
      _ ~ d.table.tickets ++ d.replies.map (·.1) := ht.symm.append_right _

theorem places_stop (reason : Shutdown) (d : Dispatcher) :
    (d.stop reason).places.Perm d.places := by
  have hc : d.table.closingVerdicts.map (·.1) = d.table.tickets := by
    simp [Table.closingVerdicts, Table.tickets]
  have hi : (d.intake.items.map fun s => (s.ticket, Verdict.dropped)).map (·.1) =
      d.intake.items.map (·.ticket) := by
    simp
  simp only [places, stop, Mailbox.dropReceiver, List.map_nil, List.nil_append, List.map_append,
    Table.tickets_empty, hc, hi]
  calc d.replies.map (·.1) ++ d.table.tickets ++ d.intake.items.map (·.ticket)
      ~ d.intake.items.map (·.ticket) ++ (d.replies.map (·.1) ++ d.table.tickets) :=
        List.perm_append_comm
    _ ~ d.intake.items.map (·.ticket) ++ (d.table.tickets ++ d.replies.map (·.1)) :=
        List.perm_append_comm.append_left _
    _ = d.intake.items.map (·.ticket) ++ d.table.tickets ++ d.replies.map (·.1) :=
        (List.append_assoc _ _ _).symm

theorem places_handleFrame (frame : String) (d : Dispatcher) :
    (d.handleFrame frame).places.Perm d.places := by
  cases h : answeredId? frame with
  | none =>
    obtain ⟨phase, noted, he, -⟩ := handleFrame_of_other h d
    rw [he]
    exact List.Perm.refl _
  | some id =>
    obtain ⟨discarded, he⟩ := handleFrame_of_answer h d
    rw [he]
    exact places_resolve id _ d

theorem places_submit (s : Submission) (d : Dispatcher) :
    (d.submit s).places.Perm (s.ticket :: d.places) := by
  by_cases hg : s.ticket ∈ d.gone
  · rw [submit_of_gone hg, places_settle]
    exact List.perm_append_singleton _ _
  · cases hf : d.table.find? s.id with
    | some p =>
      rw [submit_of_taken hg hf, places_settle]
      exact List.perm_append_singleton _ _
    | none =>
      obtain ⟨table, hi, he⟩ := submit_of_free hg hf
      rw [he]
      simp only [places, Table.tickets_of_insert? hi, List.append_assoc, List.cons_append]
      exact List.perm_middle

/-- An act neither makes a ticket nor loses one. -/
theorem places_perform {d : Dispatcher} {a : Act} (h : d.Ready a) :
    (d.perform a).places.Perm d.places := by
  cases a with
  | stop reason => exact places_stop reason d
  | abandon id => exact places_resolve id _ _
  | fail failure => exact places_resolve failure.id _ _
  | handle frame => exact places_handleFrame frame _
  | submit s =>
    obtain ⟨items, hs⟩ := List.head?_eq_some_iff.mp h.2.2.2.2
    refine (places_submit s _).trans ?_
    rw [places, places, hs]
    simp [dropHead, hs]
  | forward out => exact List.Perm.refl _
  | lose out => exact (places_stop _ _).trans (places_resolve out.id _ d)
  | deliver event => exact List.Perm.refl _
  | forget => exact List.Perm.refl _
  | giveUp => exact List.Perm.refl _

/-! ## Runs -/

/-- The command that a moment hands in. -/
def Moment.submission? : Moment → Option Submission
  | .input (.submit s) => some s
  | _ => none

/-- The commands that are handed in, in order. -/
def submissions (moments : List Moment) : List Submission :=
  moments.filterMap Moment.submission?

theorem live_move {b : Bool} {d : Dispatcher} {a : Act} (h : d.act? b = some a) :
    d.live (.move b) = d.perform a := by
  simp [live, step_eq, h]

theorem live_move_of_none {b : Bool} {d : Dispatcher} (h : d.act? b = none) :
    d.live (.move b) = d := by
  simp [live, step_eq, h]

theorem live_submit (s : Submission) (d : Dispatcher) :
    (d.live (.input (.submit s)) =
      { d with intake := { d.intake with items := d.intake.items ++ [s] } } ∧
        d.intake.hasReceiver = true) ∨
    d.live (.input (.submit s)) = d.settle s.ticket .dropped := by
  cases hs : d.intake.hasSender with
  | false => exact .inr (by simp [live, apply, offer, hs])
  | true =>
    cases hp : d.intake.push? s with
    | none => exact .inr (by simp [live, apply, offer, hs, hp])
    | some intake =>
      obtain ⟨hr, rfl⟩ := Mailbox.eq_of_push? hp
      exact .inl ⟨by simp [live, apply, offer, hs, hp], hr⟩

/-- What stays as it is unless the dispatcher acts or gets a command. -/
structure Undisturbed (d e : Dispatcher) : Prop where
  phase : e.phase = d.phase
  table : e.table = d.table
  replies : e.replies = d.replies
  intake : e.intake.items = d.intake.items ∧ e.intake.hasReceiver = d.intake.hasReceiver

/-- A moment is an act, or a command is handed in, or nothing happens that callers notice. -/
theorem live_cases (d : Dispatcher) (m : Moment) :
    (∃ b a, m = .move b ∧ d.act? b = some a ∧ d.Ready a ∧ d.live m = d.perform a) ∨
    (∃ s, m = .input (.submit s) ∧
      ((d.live m = { d with intake := { d.intake with items := d.intake.items ++ [s] } } ∧
          d.intake.hasReceiver = true) ∨
        d.live m = d.settle s.ticket .dropped)) ∨
    (m.submission? = none ∧ (∀ b, m = .move b → d.act? b = none) ∧ Undisturbed d (d.live m)) := by
  cases m with
  | move b =>
    cases ha : d.act? b with
    | some a => exact .inl ⟨b, a, rfl, ha, ready_of_act? ha, live_move ha⟩
    | none =>
      rw [live_move_of_none ha]
      exact .inr (.inr ⟨rfl, fun _ hb => Moment.move.inj hb ▸ ha, rfl, rfl, rfl, rfl, rfl⟩)
  | input i =>
    cases i with
    | submit s => exact .inr (.inl ⟨s, rfl, live_submit s d⟩)
    | signal raised =>
      refine .inr (.inr ⟨rfl, nofun, ?_⟩)
      cases hs : d.signal <;> simp only [live, apply, hs] <;> exact ⟨rfl, rfl, rfl, rfl, rfl⟩
    | _ => exact .inr (.inr ⟨rfl, nofun, rfl, rfl, rfl, rfl, rfl⟩)

theorem replies_prefix_live (d : Dispatcher) (m : Moment) : d.replies <+: (d.live m).replies := by
  rcases live_cases d m with ⟨b, a, rfl, -, -, he⟩ | ⟨s, rfl, ⟨he, -⟩ | he⟩ | ⟨-, -, h⟩
  · rw [he, replies_perform]
    exact List.prefix_append _ _
  · simp only [he, List.prefix_rfl]
  · rw [he]
    exact List.prefix_append _ _
  · simp only [h.replies, List.prefix_rfl]

theorem replies_prefix_run (d : Dispatcher) (moments : List Moment) :
    d.replies <+: (d.run moments).replies := by
  induction moments generalizing d with
  | nil => exact List.prefix_refl _
  | cons m moments ih => exact (replies_prefix_live d m).trans (ih (d.live m))

theorem places_live (d : Dispatcher) (m : Moment) :
    (d.live m).places.Perm (d.places ++ m.submission?.toList.map (·.ticket)) := by
  rcases live_cases d m with ⟨b, a, rfl, -, hr, he⟩ | ⟨s, rfl, ⟨he, -⟩ | he⟩ | ⟨hm, -, h⟩
  · rw [he]
    exact (places_perform hr).trans (List.Perm.of_eq (List.append_nil _).symm)
  · rw [he]
    simp only [places, List.map_append, List.append_assoc, Moment.submission?,
      Option.toList_some, List.map_cons, List.map_nil]
    rw [← List.append_assoc d.table.tickets]
    exact List.perm_append_comm.append_left _
  · exact List.Perm.of_eq (he ▸ places_settle s.ticket .dropped d)
  · rw [hm, places_congr h.intake.1 h.table h.replies]
    exact List.Perm.of_eq (List.append_nil _).symm

/-- The tickets of a run are those of the commands that were handed in. -/
theorem places_run (c : Capacities) (moments : List Moment) :
    ((start c).run moments).places.Perm ((submissions moments).map (·.ticket)) := by
  induction moments using List.reverseRecOn with
  | nil => exact List.Perm.refl _
  | append_singleton moments m ih =>
    rw [run_append, submissions, List.filterMap_append, List.map_append]
    -- the last moment brings the tickets that it hands in, and no others
    refine (places_live _ m).trans ?_
    refine (ih.append_right _).trans (List.Perm.of_eq ?_)
    cases h : m.submission? <;> simp [submissions, h]

/-- Each command of a run has a ticket of its own, as each caller waits for its own answer. -/
def OwnTickets (moments : List Moment) : Prop :=
  ((submissions moments).map (·.ticket)).Nodup

instance (moments : List Moment) : Decidable (OwnTickets moments) :=
  inferInstanceAs (Decidable (List.Nodup _))

theorem OwnTickets.nodup {moments : List Moment} (h : OwnTickets moments) (c : Capacities) :
    ((start c).run moments).places.Nodup :=
  (places_run c moments).nodup_iff.mpr h

theorem OwnTickets.of_append {earlier later : List Moment} (h : OwnTickets (earlier ++ later)) :
    OwnTickets earlier := by
  unfold OwnTickets submissions at h ⊢
  rw [List.filterMap_append, List.map_append] at h
  exact h.of_append_left

/-! ## Verdicts -/

/-- What a caller was told, in order. -/
def verdicts (t : Ticket) (d : Dispatcher) : List Verdict :=
  (d.replies.filter (·.1 == t)).map (·.2)

theorem filter_eq_singleton {t : Ticket} {v : Verdict} {log : List (Ticket × Verdict)}
    (hn : (log.map (·.1)).Nodup) (h : (t, v) ∈ log) : log.filter (·.1 == t) = [(t, v)] := by
  obtain ⟨before, after, rfl⟩ := List.append_of_mem h
  simp only [List.map_append, List.map_cons, List.nodup_append, List.nodup_cons] at hn
  have hb : before.filter (·.1 == t) = [] := by
    refine List.filter_eq_nil_iff.mpr fun e he => ?_
    rw [beq_iff_eq]
    exact hn.2.2 e.1 (List.mem_map_of_mem he) t (by simp)
  have ha : after.filter (·.1 == t) = [] := by
    refine List.filter_eq_nil_iff.mpr fun e he => ?_
    rw [beq_iff_eq]
    rintro rfl
    exact hn.2.1.1 (List.mem_map_of_mem he)
  rw [List.filter_append, List.filter_cons_of_pos (by simp), hb, ha]
  rfl

variable {d : Dispatcher}

theorem verdicts_of_mem {t : Ticket} {v : Verdict} (hn : d.places.Nodup)
    (h : (t, v) ∈ d.replies) : d.verdicts t = [v] := by
  rw [verdicts, filter_eq_singleton (List.nodup_append.mp hn).2.1 h]
  rfl

theorem verdicts_eq_nil_iff {t : Ticket} : d.verdicts t = [] ↔ t ∉ d.replies.map (·.1) := by
  rw [verdicts, List.map_eq_nil_iff, List.filter_eq_nil_iff]
  simp only [beq_iff_eq, List.mem_map, not_exists, not_and]

theorem not_mem_tickets_of_mem {t : Ticket} {v : Verdict} (hn : d.places.Nodup)
    (h : (t, v) ∈ d.replies) : t ∉ d.table.tickets := fun ht =>
  (List.nodup_append.mp hn).2.2 t (List.mem_append_right _ ht) t (List.mem_map_of_mem h) rfl

theorem verdicts_of_pending {t : Ticket} (hn : d.places.Nodup) (h : t ∈ d.table.tickets) :
    d.verdicts t = [] :=
  verdicts_eq_nil_iff.mpr fun ht =>
    (List.nodup_append.mp hn).2.2 t (List.mem_append_right _ h) t ht rfl

theorem length_verdicts_le (hn : d.places.Nodup) (t : Ticket) : (d.verdicts t).length ≤ 1 := by
  by_cases h : t ∈ d.replies.map (·.1)
  · obtain ⟨⟨_, v⟩, hm, rfl⟩ := List.mem_map.mp h
    simp [verdicts_of_mem hn hm]
  · simp [verdicts_eq_nil_iff.mpr h]

end LedgerClient.Dispatcher
