import LedgerClient.Proofs.Dispatcher.Matter

/-!
# Every command is settled once

For every run of a dispatcher, whatever its callers, the writer, the peer and the owner do and in
whichever order, a command that was taken from the intake is pending, settled, skipped or abandoned,
and only one of these (`Standing`). No caller is told twice, and once the dispatcher has stopped no
caller is left without an outcome. All of it follows from two facts: every ticket has one place, and
the fate of a command is what its caller is told.
-/

namespace LedgerClient.Dispatcher

/-- How a command stands that was taken from the intake. -/
inductive Standing
  /-- It is in the table. -/
  | pending
  /-- Its caller was told a reply, once. -/
  | settled
  /-- Its caller was gone when it was taken. -/
  | skipped
  /-- It was dropped without a reply as its id was abandoned while it was pending. -/
  | abandoned
deriving DecidableEq

/-- Whether a command stands so after `later`, where `d` takes it from its intake in the first of
these moments. -/
def Stands (d : Dispatcher) (later : List Moment) (s : Submission) : Standing → Prop
  | .pending =>
    (d.run later).table.find? s.id = some s.pending ∧ (d.run later).verdicts s.ticket = []
  | .settled =>
    s.ticket ∉ (d.run later).table.tickets ∧
      ∃ reply, (d.run later).verdicts s.ticket = [.told reply]
  | .skipped =>
    s.ticket ∉ (d.run later).table.tickets ∧ (d.run later).verdicts s.ticket = [.skipped] ∧
      s.ticket ∈ d.gone
  | .abandoned =>
    s.ticket ∉ (d.run later).table.tickets ∧ (d.run later).verdicts s.ticket = [.dropped] ∧
      ∃ before b after, later = before ++ .move b :: after ∧
        (d.run before).act? b = some (.abandon s.id) ∧
        (d.run before).table.find? s.id = some s.pending

variable {d : Dispatcher}

/-! ## One standing -/

theorem verdicts_of_decided {id : Nat} {p : Pending} {verdict : Option Verdict}
    (hn : d.places.Nodup) (h : Decided id p verdict d) : d.verdicts p.ticket = verdict.toList := by
  cases verdict with
  | none => exact verdicts_of_pending hn (mem_tickets_of_find? h)
  | some v => exact verdicts_of_mem hn h

/-- The standing to which the verdicts on a command belong. -/
def Standing.ofVerdicts : List Verdict → Standing
  | [.told _] => .settled
  | [.skipped] => .skipped
  | [.dropped] => .abandoned
  | _ => .pending

theorem Stands.eq_ofVerdicts {later : List Moment} {s : Submission} {x : Standing}
    (h : Stands d later s x) : x = .ofVerdicts ((d.run later).verdicts s.ticket) := by
  cases x with
  | pending => rw [h.2]; rfl
  | settled => obtain ⟨-, reply, hv⟩ := h; rw [hv]; rfl
  | skipped => rw [h.2.1]; rfl
  | abandoned => rw [h.2.1]; rfl

theorem eq_abandoned_of_verdict?_eq_dropped {id : Nat} {p : Pending} {x : Matter}
    (h : x.verdict? id p = some .dropped) : x = .abandoned := by
  cases x <;> simp [Matter.verdict?, closed] at h ⊢

theorem verdict?_ne_skipped {id : Nat} {p : Pending} (x : Matter) :
    x.verdict? id p ≠ some .skipped := by
  cases x <;> simp [Matter.verdict?, closed]

theorem act?_of_matterOf_abandoned {id : Nat} {m : Moment}
    (h : d.matterOf id m = some .abandoned) : ∃ b, m = .move b ∧ d.act? b = some (.abandon id) := by
  cases m with
  | input i => simp [matterOf] at h
  | move b =>
    refine ⟨b, rfl, ?_⟩
    cases ha : d.act? b with
    | none => simp [matterOf, ha] at h
    | some a =>
      rw [matterOf, ha, Option.bind_some] at h
      cases a with
      | abandon other =>
        obtain ⟨rfl, -⟩ := Option.ite_some_none_eq_some.mp h
        rfl
      | _ => simp [matter?] at h

theorem abandon_of_dropped {id : Nat} {p : Pending} {moments : List Moment}
    (h : d.table.find? id = some p)
    (hv : (d.matters id moments).findSome? (·.verdict? id p) = some .dropped) :
    ∃ before b after, moments = before ++ .move b :: after ∧
      (d.run before).act? b = some (.abandon id) ∧ (d.run before).table.find? id = some p := by
  obtain ⟨xs, x, ys, hs, hx, hnone⟩ := List.findSome?_eq_some_iff.mp hv
  obtain rfl := eq_abandoned_of_verdict?_eq_dropped hx
  obtain ⟨before, m, after, rfl, hb, hm⟩ := matters_split hs
  obtain ⟨b, rfl, ha⟩ := act?_of_matterOf_abandoned hm
  have hp := decided_run before h
  rw [hb, List.findSome?_eq_none_iff.mpr hnone] at hp
  exact ⟨before, b, after, rfl, ha, hp⟩

theorem gone_of_fate_skipped {holder : Option Pending} {s : Submission} {gone : Bool}
    {later : List Matter} (h : Lane.fate holder s gone later = some .skipped) : gone = true := by
  cases gone with
  | true => rfl
  | false =>
    cases holder with
    | some p => simp [Lane.fate] at h
    | none =>
      obtain ⟨_, x, _, _, hx, _⟩ := List.findSome?_eq_some_iff.mp h
      exact absurd hx (verdict?_ne_skipped x)

theorem free_of_fate_dropped {holder : Option Pending} {s : Submission} {gone : Bool}
    {later : List Matter} (h : Lane.fate holder s gone later = some .dropped) :
    gone = false ∧ holder = none ∧
      later.findSome? (·.verdict? s.id s.pending) = some .dropped := by
  cases gone with
  | true => simp [Lane.fate] at h
  | false =>
    cases holder with
    | some p => simp [Lane.fate] at h
    | none => exact ⟨rfl, rfl, h⟩

/-- A command that was taken from the intake stands in exactly one way. -/
theorem existsUnique_stands {b : Bool} {s : Submission} {later : List Moment}
    (ha : d.act? b = some (.submit s)) (hn : (d.run (.move b :: later)).places.Nodup) :
    ∃! x, Stands d (.move b :: later) s x := by
  suffices h : ∃ x, Stands d (.move b :: later) s x by
    obtain ⟨x, hx⟩ := h
    exact ⟨x, hx, fun y hy => hy.eq_ofVerdicts.trans hx.eq_ofVerdicts.symm⟩
  have hf := fate_run later ha
  have hv := verdicts_of_decided hn hf
  -- each fate is a standing; only those without a reply say more
  cases hw : Lane.fate (d.table.find? s.id) s (d.gone.contains s.ticket)
      ((d.live (.move b)).matters s.id later) with
  | none =>
    rw [hw] at hf hv
    exact ⟨.pending, hf, hv⟩
  | some v =>
    rw [hw] at hf hv
    have ht := not_mem_tickets_of_mem hn hf
    cases v with
    | told reply => exact ⟨.settled, ht, reply, hv⟩
    | skipped => exact ⟨.skipped, ht, hv, by simpa using gone_of_fate_skipped hw⟩
    | dropped =>
      obtain ⟨hg, hfree, hw⟩ := free_of_fate_dropped hw
      have hreg : (d.live (.move b)).table.find? s.id = some s.pending := by
        have h := fate_run (d := d) [] ha
        rw [hg, hfree] at h
        exact h
      obtain ⟨before, b', after, rfl, hab, hpend⟩ := abandon_of_dropped hreg hw
      exact ⟨.abandoned, ht, hv, .move b :: before, b', after, rfl, hab, hpend⟩

/-! ## Duplicates -/

/-- A second command with an id is refused, and the first stays as it is. -/
theorem live_of_duplicate {b : Bool} {s : Submission} {p : Pending}
    (ha : d.act? b = some (.submit s)) (hg : s.ticket ∉ d.gone)
    (hp : d.table.find? s.id = some p) :
    d.live (.move b) = { d with
      intake := dropHead d.intake
      replies := d.replies ++ [(s.ticket, .told (.error (.duplicateId s.id)))] } := by
  rw [live_move ha, perform, submit_of_taken (d := { d with intake := dropHead d.intake }) hg hp]
  rfl

/-! ## The stop -/

theorem stopping {a : Act} {reason : Shutdown} (hr : d.Ready a)
    (h : (d.perform a).phase = .stopped reason) : a = .stop reason ∨ ∃ out, a = .lose out := by
  cases a with
  | stop r => exact .inl (congrArg Act.stop (Phase.stopped.inj h))
  | lose out => exact .inr ⟨out, rfl⟩
  | abandon id =>
    rw [perform, abandon_eq, phase_resolve] at h
    exact absurd (hr.1.symm.trans h) (by simp)
  | fail failure =>
    rw [perform, writeFailed_eq, phase_resolve] at h
    exact absurd (hr.1.symm.trans h) (by simp)
  | handle frame =>
    rw [perform] at h
    rcases phase_handleFrame frame { d with frames := dropHead d.frames } with hp | ⟨event, hp⟩
    · exact absurd (hr.1.symm.trans (hp.symm.trans h)) (by simp)
    · exact absurd (hp.symm.trans h) (by simp)
  | submit s =>
    rw [perform] at h
    rcases phase_submit s { d with intake := dropHead d.intake } with hp | hp
    · exact absurd (hr.1.symm.trans (hp.symm.trans h)) (by simp)
    · exact absurd (hp.symm.trans h) (by simp)
  | forward out => simp [perform] at h
  | deliver event => simp [perform] at h
  | forget => simp [perform] at h
  | giveUp => simp [perform] at h

/-- What a dispatcher looks like that has stopped. -/
structure AtRest (d : Dispatcher) : Prop where
  table : d.table = .empty
  intake : d.intake.items = []
  closed : d.intake.hasReceiver = false

theorem atRest_stop (reason : Shutdown) (d : Dispatcher) : (d.stop reason).AtRest := ⟨rfl, rfl, rfl⟩

theorem dropped_of_stop {s : Submission} (reason : Shutdown) (h : s ∈ d.intake.items) :
    (s.ticket, .dropped) ∈ (d.stop reason).replies :=
  List.mem_append_right _ (List.mem_map.mpr ⟨s, h, rfl⟩)

/-- The stop: the callers of all pending commands are told, and queued commands are dropped. -/
theorem stop_spec {a : Act} {reason : Shutdown} (hr : d.Ready a)
    (h : (d.perform a).phase = .stopped reason) :
    (d.perform a).AtRest ∧
      (∀ e ∈ d.table.entries, (e.2.ticket, .told (.error .connectionClosed)) ∈
        (d.perform a).replies) ∧
      ∀ s ∈ d.intake.items, (s.ticket, .dropped) ∈ (d.perform a).replies := by
  have hpending : ∀ id, d.matter? id a = some .stopped → ∀ p, d.table.find? id = some p →
      (p.ticket, .told (.error .connectionClosed)) ∈ (d.perform a).replies := by
    intro id hm p hp
    have ht := tells_sublist_news hm
    rw [hp] at ht
    rw [replies_perform]
    exact List.mem_append_right _ (ht.subset (List.mem_singleton_self _))
  rcases stopping hr h with rfl | ⟨out, rfl⟩
  · exact ⟨atRest_stop reason d,
      fun e he => hpending e.1 rfl e.2 (Table.find?_eq_some_iff.mpr he),
      fun s hs => dropped_of_stop reason hs⟩
  · refine ⟨atRest_stop _ _,
      fun e he => hpending e.1 rfl e.2 (Table.find?_eq_some_iff.mpr he),
      fun s hs => dropped_of_stop _ ?_⟩
    rw [resolve_frame]
    exact hs

theorem atRest_live {m : Moment} (hd : ∀ reason, d.phase = .stopped reason → d.AtRest)
    {reason : Shutdown} (h : (d.live m).phase = .stopped reason) : (d.live m).AtRest := by
  rcases live_cases d m with ⟨b, a, rfl, -, hr, he⟩ | ⟨s, rfl, ⟨he, ho⟩ | he⟩ | ⟨-, -, hu⟩
  · rw [he] at h ⊢
    exact (stop_spec hr h).1
  · -- a command was queued, so the dispatcher had not stopped
    rw [he] at h
    rw [(hd reason h).closed] at ho
    cases ho
  · rw [he] at h ⊢
    obtain ⟨ht, hi, hc⟩ := hd reason h
    exact ⟨ht, hi, hc⟩
  · obtain ⟨ht, hi, hc⟩ := hd reason (hu.phase ▸ h)
    exact ⟨hu.table.trans ht, hu.intake.1.trans hi, hu.intake.2.trans hc⟩

theorem atRest_run (c : Capacities) (moments : List Moment) {reason : Shutdown}
    (h : ((start c).run moments).phase = .stopped reason) : ((start c).run moments).AtRest := by
  induction moments using List.reverseRecOn generalizing reason with
  | nil => simp [run, start] at h
  | append_singleton moments m ih =>
    rw [run_append] at h ⊢
    exact atRest_live (fun _ => ih) h

/-! ## Runs -/

/-- What is settled, and how, in a run of a dispatcher. -/
structure SettledOnce (c : Capacities) (moments : List Moment) : Prop where
  /-- A command that was taken from the intake stands in exactly one way. -/
  stands : ∀ earlier b later s, moments = earlier ++ .move b :: later →
    ((start c).run earlier).act? b = some (.submit s) →
      ∃! x, Stands ((start c).run earlier) (.move b :: later) s x
  /-- No caller is told twice. -/
  once : ∀ t, (((start c).run moments).verdicts t).length ≤ 1
  /-- What a caller was told, the dispatcher never takes back. -/
  kept : ∀ later, ((start c).run moments).replies <+: ((start c).run (moments ++ later)).replies
  /-- A second command with an id is refused, and the entry of the first stays as it is. -/
  duplicate : ∀ b s p, ((start c).run moments).act? b = some (.submit s) →
    s.ticket ∉ ((start c).run moments).gone →
    ((start c).run moments).table.find? s.id = some p →
      ((start c).run (moments ++ [.move b])).table = ((start c).run moments).table ∧
      ((start c).run (moments ++ [.move b])).outbound = ((start c).run moments).outbound ∧
      ((start c).run (moments ++ [.move b])).verdicts p.ticket = [] ∧
      ((start c).run (moments ++ [.move b])).verdicts s.ticket =
        [.told (.error (.duplicateId s.id))]
  /-- When the dispatcher stops, for whatever reason, the callers of all pending commands are told
  and all queued commands are dropped. -/
  stop : ∀ b d reason, ((start c).run moments).step b = some d → d.phase = .stopped reason →
    d.table.entries = [] ∧ d.intake.items = [] ∧
    (∀ e ∈ ((start c).run moments).table.entries,
      d.verdicts e.2.ticket = [.told (.error .connectionClosed)]) ∧
    ∀ s ∈ ((start c).run moments).intake.items, d.verdicts s.ticket = [.dropped]
  /-- Once the dispatcher has stopped, every command that was ever handed in has its outcome. -/
  stopped : ∀ reason, ((start c).run moments).phase = .stopped reason →
    ((start c).run moments).table.entries = [] ∧ ((start c).run moments).intake.items = [] ∧
    ∀ s ∈ submissions moments, ∃ v, ((start c).run moments).verdicts s.ticket = [v]

theorem OwnTickets.move {moments : List Moment} (h : OwnTickets moments) (b : Bool) :
    OwnTickets (moments ++ [.move b]) := by
  have hs : submissions (moments ++ [.move b]) = submissions moments := by
    simp [submissions, Moment.submission?]
  rwa [OwnTickets, hs]

theorem run_concat (d : Dispatcher) (moments : List Moment) (m : Moment) :
    d.run (moments ++ [m]) = (d.run moments).live m := by
  rw [run_append]
  rfl

/-- **Every command is settled once, and no caller is left waiting.** -/
theorem settledOnce (c : Capacities) (moments : List Moment) (own : OwnTickets moments) :
    SettledOnce c moments where
  stands earlier b later s hm ha := by
    subst hm
    have hn := own.nodup c
    rw [run_append] at hn
    exact existsUnique_stands ha hn
  once t := length_verdicts_le (own.nodup c) t
  kept later := by
    rw [run_append]
    exact replies_prefix_run _ later
  duplicate b s p ha hg hp := by
    have hn := (own.move b).nodup c
    rw [run_concat] at hn ⊢
    have hl := live_of_duplicate ha hg hp
    have ht : (((start c).run moments).live (.move b)).table = ((start c).run moments).table := by
      rw [hl]
    refine ⟨ht, by rw [hl], verdicts_of_pending hn ?_, verdicts_of_mem hn ?_⟩
    · rw [ht]
      exact mem_tickets_of_find? hp
    · rw [hl]
      exact List.mem_append_right _ (List.mem_singleton_self _)
  stop b d reason hs hp := by
    have hn := (own.move b).nodup c
    rw [run_concat] at hn
    have hd : ((start c).run moments).live (.move b) = d := by simp [live, hs]
    rw [hd] at hn
    obtain ⟨a, ha, rfl⟩ : ∃ a, ((start c).run moments).act? b = some a ∧
        ((start c).run moments).perform a = d := by
      rw [step_eq] at hs
      exact Option.map_eq_some_iff.mp hs
    obtain ⟨hrest, hpending, hqueued⟩ := stop_spec (ready_of_act? ha) hp
    exact ⟨hrest.table ▸ rfl, hrest.intake, fun e he => verdicts_of_mem hn (hpending e he),
      fun s hs => verdicts_of_mem hn (hqueued s hs)⟩
  stopped reason hp := by
    have hrest := atRest_run c moments hp
    refine ⟨hrest.table ▸ rfl, hrest.intake, fun s hs => ?_⟩
    -- the log is the only place left for a ticket
    have hplace : s.ticket ∈ ((start c).run moments).places :=
      (places_run c moments).mem_iff.mpr (List.mem_map_of_mem hs)
    have hlog : s.ticket ∈ ((start c).run moments).replies.map (·.1) := by
      simpa only [places, hrest.table, hrest.intake, Table.tickets_empty, List.map_nil,
        List.nil_append] using hplace
    obtain ⟨⟨t, v⟩, hm, ht⟩ := List.mem_map.mp hlog
    exact ⟨v, verdicts_of_mem (own.nodup c) (ht ▸ hm)⟩

/-- Three callers, the second with the id of the first and the third with an id that is abandoned,
before the session is closed. -/
theorem settledOnce_of_three_callers :
    let moments : List Moment :=
      [.input (.submit ⟨1, .ping, 0⟩), .input (.submit ⟨1, .ping, 1⟩),
        .input (.submit ⟨2, .ping, 2⟩), .move true, .move true, .move true, .move true, .move true,
        .input (.abandon 2), .move true, .input (.signal true), .move true]
    OwnTickets moments ∧ SettledOnce ⟨4, 4, 4, 4⟩ moments ∧
      ((start ⟨4, 4, 4, 4⟩).run moments).replies =
        [(1, .told (.error (.duplicateId 1))), (2, .dropped),
          (0, .told (.error .connectionClosed))] :=
  ⟨by decide, settledOnce _ _ (by decide), rfl⟩

end LedgerClient.Dispatcher
