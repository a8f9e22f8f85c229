import LedgerClient.Proofs.Dispatcher.Queues
import LedgerClient.Proofs.Dispatcher.Settlement

/-!
# Each id has a dispatcher of its own

The callers of different ids share a table and a loop, and yet each is served as if its id were the
only one: what the caller of a command is told is what the lane of its id tells it, and the lane sees
nothing but the matters of the id. What is no matter of an id changes nothing for it, so responses
may come in any order (`mem_replies_of_answers`).
-/

namespace LedgerClient

open scoped List

/-- What a lane told a caller, in order. -/
def Lane.verdicts (t : Ticket) (l : Lane) : List Verdict :=
  (l.replies.filter (·.1 == t)).map (·.2)

theorem Lane.run_append (id : Nat) (l : Lane) (earlier later : List Matter) :
    l.run id (earlier ++ later) = (l.run id earlier).run id later :=
  List.foldl_append

namespace Dispatcher

/-- The lane of an id after a run. -/
def laneOf (id : Nat) (c : Capacities) (moments : List Moment) : Lane :=
  Lane.start.run id ((start c).matters id moments)

/-- A command is taken from the intake in a run. -/
def Taken (c : Capacities) (moments : List Moment) (s : Submission) : Prop :=
  ∃ earlier b later, moments = earlier ++ .move b :: later ∧
    ((start c).run earlier).act? b = some (.submit s)

variable {c : Capacities} {moments : List Moment} {d : Dispatcher}

theorem Taken.append {s : Submission} (h : Taken c moments s) (later : List Moment) :
    Taken c (moments ++ later) s := by
  obtain ⟨earlier, b, rest, rfl, ha⟩ := h
  exact ⟨earlier, b, rest ++ later, by simp, ha⟩

/-! ## Callers and lanes -/

theorem follows_laneOf (id : Nat) (c : Capacities) (moments : List Moment) :
    Follows id (laneOf id c moments) ((start c).run moments) :=
  follows_run (follows_start id c) moments

theorem Follows.verdicts_eq {id : Nat} {l : Lane} {p : Pending} {verdict : Option Verdict}
    (h : Follows id l d) (hn : d.places.Nodup) (hl : Lane.Decided p verdict l) :
    d.verdicts p.ticket = l.verdicts p.ticket := by
  have hd := verdicts_of_decided hn (h.decided hl)
  have hsub : l.verdicts p.ticket <+ d.verdicts p.ticket := (h.replies.filter _).map _
  -- the lane's part of the log is a sublist, and no longer than one
  cases verdict with
  | none =>
    rw [hd] at hsub ⊢
    exact (List.sublist_nil.mp hsub).symm
  | some v =>
    have hv : v ∈ l.verdicts p.ticket :=
      List.mem_map.mpr ⟨_, List.mem_filter.mpr ⟨hl, beq_self_eq_true _⟩, rfl⟩
    refine (hsub.eq_of_length_le ?_).symm
    rw [hd]
    exact List.length_pos_of_mem hv

theorem verdicts_eq_laneOf {s : Submission} (own : OwnTickets moments)
    (h : Taken c moments s) :
    ((start c).run moments).verdicts s.ticket = (laneOf s.id c moments).verdicts s.ticket := by
  obtain ⟨earlier, b, later, rfl, ha⟩ := h
  obtain ⟨_, hl⟩ : ∃ verdict,
      Lane.Decided s.pending verdict (laneOf s.id c (earlier ++ .move b :: later)) := by
    -- the lane takes the command in the same moment
    rw [laneOf, matters_append, Lane.run_append, matters, matterOf_submit ha]
    exact ⟨_, Lane.decided_fate _ s _ _⟩
  exact (follows_laneOf s.id c _).verdicts_eq (own.nodup c) hl

theorem verdicts_eq_fate {earlier later : List Moment} {b : Bool} {s : Submission}
    (own : OwnTickets (earlier ++ .move b :: later))
    (ha : ((start c).run earlier).act? b = some (.submit s)) :
    ((start c).run (earlier ++ .move b :: later)).verdicts s.ticket =
      (Lane.fate (((start c).run earlier).table.find? s.id) s
        (((start c).run earlier).gone.contains s.ticket)
        (((start c).run (earlier ++ [.move b])).matters s.id later)).toList := by
  have hn := own.nodup c
  rw [run_append] at hn ⊢
  rw [run_concat]
  exact verdicts_of_decided hn (fate_run later ha)

/-! ## Commands that are not taken -/

theorem mem_intake_perform {a : Act} (hr : d.Ready a) {s : Submission} (hs : s ∈ d.intake.items) :
    a = .submit s ∨ s ∈ (d.perform a).intake.items ∨
      (s.ticket, .dropped) ∈ (d.perform a).replies := by
  cases a with
  | stop reason => exact .inr (.inr (dropped_of_stop reason hs))
  | lose out =>
    refine .inr (.inr (dropped_of_stop _ ?_))
    rw [resolve_frame]
    exact hs
  | submit s' =>
    obtain ⟨items, hi⟩ := List.head?_eq_some_iff.mp hr.2.2.2.2
    rcases List.mem_cons.mp (hi ▸ hs) with rfl | hs
    · exact .inl rfl
    · refine .inr (.inl ?_)
      rw [intake_perform, Queues.after, queues, dropHead, hi]
      exact hs
  | _ =>
    refine .inr (.inl ?_)
    rw [intake_perform]
    exact hs

theorem taken_or_queued (c : Capacities) (moments : List Moment) {s : Submission}
    (hs : s ∈ submissions moments) :
    Taken c moments s ∨ s ∈ ((start c).run moments).intake.items ∨
      (s.ticket, .dropped) ∈ ((start c).run moments).replies := by
  induction moments using List.reverseRecOn with
  | nil => simp [submissions] at hs
  | append_singleton moments m ih =>
    rw [run_concat]
    have hlog := (replies_prefix_live ((start c).run moments) m).subset
    have hold : s ∈ submissions moments ∨ m.submission? = some s := by
      rw [submissions, List.filterMap_append, List.mem_append] at hs
      refine hs.imp_right fun h => ?_
      obtain ⟨m', hm, hs⟩ := List.mem_filterMap.mp h
      exact List.mem_singleton.mp hm ▸ hs
    rcases live_cases ((start c).run moments) m with
      ⟨b, a, rfl, ha, hr, he⟩ | ⟨s', rfl, hl⟩ | ⟨hm, -, hu⟩
    · have hs := hold.resolve_right (by simp [Moment.submission?])
      rcases ih hs with h | hq | h
      · exact .inl (h.append _)
      · rw [he]
        rcases mem_intake_perform hr hq with rfl | h
        · exact .inl ⟨moments, b, [], rfl, ha⟩
        · exact .inr h
      · exact .inr (.inr (hlog h))
    · rcases hold with hs | hs
      · rcases ih hs with h | hq | h
        · exact .inl (h.append _)
        · rcases hl with ⟨he, -⟩ | he
          · rw [he]
            exact .inr (.inl (List.mem_append_left _ hq))
          · rw [he]
            exact .inr (.inl hq)
        · exact .inr (.inr (hlog h))
      · obtain rfl := Option.some.inj hs
        rcases hl with ⟨he, -⟩ | he
        · rw [he]
          exact .inr (.inl (List.mem_append_right _ (List.mem_singleton_self _)))
        · rw [he]
          exact .inr (.inr (List.mem_append_right _ (List.mem_singleton_self _)))
    · have hs := hold.resolve_right (by simp [hm])
      rcases ih hs with h | hq | h
      · exact .inl (h.append _)
      · rw [hu.intake.1]
        exact .inr (.inl hq)
      · exact .inr (.inr (hlog h))

theorem verdicts_of_not_taken {s : Submission} (own : OwnTickets moments)
    (hs : s ∈ submissions moments) (h : ¬ Taken c moments s) :
    ((start c).run moments).verdicts s.ticket = [] ∨
      ((start c).run moments).verdicts s.ticket = [.dropped] := by
  have hn := own.nodup c
  rcases taken_or_queued c moments hs with ht | hq | hr
  · exact absurd ht h
  · refine .inl (verdicts_eq_nil_iff.mpr fun hl => ?_)
    rw [places, List.append_assoc] at hn
    exact (List.nodup_append.mp hn).2.2 _ (List.mem_map_of_mem hq) _
      (List.mem_append_right _ hl) rfl
  · exact .inr (verdicts_of_mem hn hr)

/-! ## What does not concern an id -/

/-- A moment leaves an id alone: the pending command with the id stays, and the callers of commands
with the id are told nothing. -/
def LeavesAlone (c : Capacities) (moments : List Moment) (m : Moment) (id : Nat) : Prop :=
  ((start c).run (moments ++ [m])).table.find? id = ((start c).run moments).table.find? id ∧
  ∀ s, s.id = id → Taken c moments s →
    ((start c).run (moments ++ [m])).verdicts s.ticket = ((start c).run moments).verdicts s.ticket

theorem leavesAlone_of_matterOf {m : Moment} {id : Nat} (own : OwnTickets (moments ++ [m]))
    (h : ((start c).run moments).matterOf id m = none) : LeavesAlone c moments m id := by
  have hl : laneOf id c (moments ++ [m]) = laneOf id c moments := by
    rw [laneOf, matters_append, matters, h]
    simp [matters, laneOf]
  refine ⟨?_, ?_⟩
  · rw [← (follows_laneOf id c (moments ++ [m])).holder, hl]
    exact (follows_laneOf id c moments).holder
  · rintro s rfl ht
    rw [verdicts_eq_laneOf own (ht.append [m]), hl, verdicts_eq_laneOf own.of_append ht]

theorem answeredId?_ne_some {frame : String} {id : Nat}
    (h : ∀ envelope, Envelope.decode frame = .ok envelope → envelope.route ≠ .response id) :
    answeredId? frame ≠ some id := by
  intro ha
  obtain ⟨envelope, he, hr⟩ := answeredId?_eq_some ha
  exact h envelope he hr

/-! ## Responses in any order -/

/-- A dispatcher that has nothing to look at but frames. -/
structure Attentive (d : Dispatcher) : Prop where
  phase : d.phase = .idle
  signal : d.signal = .quiet
  abandoned : d.abandoned.items = [] ∧ d.abandoned.hasSender = true
  failures : d.failures.items = [] ∧ d.failures.hasSender = true

theorem act?_of_attentive (h : Attentive d) {frame : String} {rest : List String}
    (hf : d.frames.items = frame :: rest) (b : Bool) : d.act? b = some (.handle frame) := by
  simp [act?, h.phase, turn?, h.signal, CloseSignal.isRaised, Mailbox.head, h.abandoned,
    h.failures, hf]

theorem attentive_live (h : Attentive d) {id : Nat} {frame : String} {rest : List String}
    (ha : answeredId? frame = some id) (hf : d.frames.items = frame :: rest) (b : Bool) :
    Attentive (d.live (.move b)) ∧ (d.live (.move b)).frames.items = rest := by
  obtain ⟨discarded, he⟩ := handleFrame_of_answer ha { d with frames := dropHead d.frames }
  rw [live_move (act?_of_attentive h hf b), perform, he, resolve_frame]
  exact ⟨⟨h.phase, h.signal, h.abandoned, h.failures⟩, by simp [dropHead, hf]⟩

/-- Every caller gets its own response, whatever the order in which the responses come in. -/
theorem mem_replies_of_answers {answers : List (Nat × String)} {rest : List String}
    (hd : Attentive d) (hf : d.frames.items = answers.map (·.2) ++ rest)
    (hid : ∀ a ∈ answers, answeredId? a.2 = some a.1) (hn : (answers.map (·.1)).Nodup)
    (bs : List Bool) (hb : bs.length = answers.length) {a : Nat × String} (ha : a ∈ answers)
    {p : Pending} (hp : d.table.find? a.1 = some p) :
    (p.ticket, .told (replyTo a.1 p.shape a.2)) ∈ (d.run (bs.map .move)).replies := by
  induction answers generalizing d bs with
  | nil => simp at ha
  | cons x answers ih =>
    obtain ⟨b, bs, rfl⟩ := List.exists_cons_of_length_eq_add_one hb
    have hx := hid x List.mem_cons_self
    have hact := act?_of_attentive hd hf b
    obtain ⟨hd', hf'⟩ := attentive_live hd hx hf b
    rw [List.map_cons, List.nodup_cons] at hn
    have hdec := decided_run [.move b] hp
    simp only [matters, matterOf, hact, Option.bind_some, matter?, hx, Option.some.injEq] at hdec
    rcases List.mem_cons.mp ha with rfl | ha
    · rw [if_pos rfl] at hdec
      exact (replies_prefix_run (d.live (.move b)) (bs.map .move)).subset hdec
    · -- the response is for another id
      have hne : x.1 ≠ a.1 := fun he => hn.1 (he ▸ List.mem_map_of_mem ha)
      rw [if_neg hne] at hdec
      exact ih hd' hf' (fun y hy => hid y (List.mem_cons_of_mem _ hy)) hn.2 bs
        (by simpa using hb) ha hdec

/-! ## Runs -/

/-- How the commands with an id fare in a run of a dispatcher that serves all ids. -/
structure ServedApart (c : Capacities) (moments : List Moment) : Prop where
  /-- What is pending under an id is what its lane holds. -/
  pending : ∀ id, ((start c).run moments).table.find? id = (laneOf id c moments).holder
  /-- What the caller of a command is told is what the lane of its id tells it. -/
  outcome : ∀ s, Taken c moments s →
    ((start c).run moments).verdicts s.ticket = (laneOf s.id c moments).verdicts s.ticket
  /-- A command that was not taken has no outcome before it is dropped. -/
  untaken : ∀ s ∈ submissions moments, ¬ Taken c moments s →
    ((start c).run moments).verdicts s.ticket = [] ∨
      ((start c).run moments).verdicts s.ticket = [.dropped]
  /-- A command is skipped if its caller is gone and refused while its id is held; otherwise the
  first matter of its id that follows decides it. -/
  decided : ∀ earlier b later s, moments = earlier ++ .move b :: later →
    ((start c).run earlier).act? b = some (.submit s) →
      ((start c).run moments).verdicts s.ticket =
        (if s.ticket ∈ ((start c).run earlier).gone then some .skipped
          else if (((start c).run earlier).table.find? s.id).isSome then
            some (.told (.error (.duplicateId s.id)))
          else (((start c).run (earlier ++ [.move b])).matters s.id later).findSome?
            (·.verdict? s.id s.pending)).toList
  /-- What is no matter of an id leaves it alone. -/
  alone : ∀ earlier m later id, moments = earlier ++ m :: later →
    ((start c).run earlier).matterOf id m = none → LeavesAlone c earlier m id
  /-- A frame that is no response with an id leaves it alone, whatever else it is. -/
  frame : ∀ earlier b later frame id, moments = earlier ++ .move b :: later →
    ((start c).run earlier).act? b = some (.handle frame) →
    (∀ envelope, Envelope.decode frame = .ok envelope → envelope.route ≠ .response id) →
      LeavesAlone c earlier (.move b) id
  /-- Responses with different ids may come in any order: each goes to the caller that waits for
  it. -/
  responses : ∀ earlier later (answers : List (Nat × String)) rest (bs : List Bool),
    moments = earlier ++ bs.map .move ++ later →
    Attentive ((start c).run earlier) →
    ((start c).run earlier).frames.items = answers.map (·.2) ++ rest →
    (∀ a ∈ answers, answeredId? a.2 = some a.1) → (answers.map (·.1)).Nodup →
    bs.length = answers.length →
    ∀ a ∈ answers, ∀ p, ((start c).run earlier).table.find? a.1 = some p →
      ((start c).run moments).verdicts p.ticket = [.told (replyTo a.1 p.shape a.2)]

/-- **Each id is served as if it were the only one.** -/
theorem servedApart (c : Capacities) (moments : List Moment) (own : OwnTickets moments) :
    ServedApart c moments where
  pending id := ((follows_laneOf id c moments).holder).symm
  outcome s h := verdicts_eq_laneOf own h
  untaken s hs h := verdicts_of_not_taken own hs h
  decided earlier b later s hm ha := by
    subst hm
    rw [verdicts_eq_fate own ha]
    cases ((start c).run earlier).table.find? s.id <;> simp [Lane.fate]
  alone earlier m later id hm h := by
    subst hm
    rw [List.append_cons] at own
    exact leavesAlone_of_matterOf own.of_append h
  frame earlier b later frame id hm ha hf := by
    subst hm
    refine leavesAlone_of_matterOf (OwnTickets.move own.of_append b) ?_
    rw [matterOf, ha, Option.bind_some, matter?, if_neg (answeredId?_ne_some hf)]
  responses earlier later answers rest bs hm hd hf hid hn hb a ha p hp := by
    subst hm
    refine verdicts_of_mem (own.nodup c) ?_
    have h := mem_replies_of_answers hd hf hid hn bs hb ha hp
    rw [run_append, run_append]
    exact (replies_prefix_run _ later).subset h

/-- Two callers whose responses come in the other order, after an event with the id of one of
them. -/
theorem servedApart_of_two_callers :
    let event := "\x7b\"type\":\"ledgerClosed\",\"id\":1\x7d"
    let first := "\x7b\"type\":\"response\",\"id\":1,\"status\":\"success\",\"result\":\x7b\x7d\x7d"
    let second := "\x7b\"type\":\"response\",\"id\":2,\"status\":\"success\",\"result\":\x7b\x7d\x7d"
    let moments : List Moment :=
      [.input (.submit ⟨1, .ping, 0⟩), .input (.submit ⟨2, .ping, 1⟩),
        .move true, .move true, .move true, .move true,
        .input (.frame event), .input (.frame second), .input (.frame first),
        .move true, .move true, .move true, .move true]
    OwnTickets moments ∧ ServedApart ⟨4, 4, 4, 4⟩ moments ∧
      ((start ⟨4, 4, 4, 4⟩).run moments).replies =
        [(1, .told (replyTo 2 Command.ping.shape second)),
          (0, .told (replyTo 1 Command.ping.shape first))] :=
  ⟨by decide, servedApart _ _ (by decide), rfl⟩

end Dispatcher

end LedgerClient
