import LedgerClient.Proofs.Session.Reading
import LedgerClient.Proofs.Session.Waiting

/-!
# Why the tasks of a session stop

Each task stops for a reason of its own, or because the task at the other end of a queue has stopped.
The point is that the reasons never form a circle. A dispatcher that misses its writer has a writer
that stopped first, so the writer did not stop for want of a dispatcher (`Linked.gone`). A dispatcher
that has no more frames to come has a reader that stopped first, so the reader did not stop for want
of a dispatcher either (`reader_of_framesEnded`). And a dispatcher that was closed has owners that
closed it or gave it up (`Owned`). The three are invariants of a session, each kept by its own lemma
for one step.
-/

namespace LedgerClient

open Dispatcher (Act)

/-! ## The writer -/

theorem Sender.Written.ne_closed_of_reason? {limit : Duration} {written : Written}
    {reason : SessionEnd} (h : written.reason? limit = some reason) : reason ≠ .closed := by
  rintro rfl
  cases written <;> cases h

namespace Writer

variable {w : Writer} {d : Dispatcher} {r : Writer × Dispatcher} {reason : SessionEnd}

/-- Why a writer has stopped or is about to. -/
def farewell? (w : Writer) : Option SessionEnd :=
  match w.phase with
  | .closing reason => some reason
  | .stopped reason => some reason
  | _ => none

theorem farewell?_of_reason? (h : w.reason? = some reason) : w.farewell? = some reason := by
  unfold reason? at h
  unfold farewell?
  split at h
  · rename_i hp
    rw [hp]
    exact h
  · cases h

theorem isStopped_of_reason? (h : w.reason? = some reason) : w.isStopped = true := by
  rw [isStopped, h]
  rfl

theorem farewell?_finish (reason : SessionEnd) (w : Writer) (d : Dispatcher) :
    (w.finish reason d).1.farewell? = some reason := by
  unfold finish
  split
  · rfl
  · rfl

theorem farewell?_of_take (h : w.take d = some r) (hr : r.1.farewell? = some reason) :
    reason = .closed ∧ d.outbound.hasSender = false := by
  unfold take at h
  split at h
  · rename_i hp
    have hidle : w.farewell? = none := by rw [farewell?, hp]
    cases hd : d.outbound.head with
    | empty => simp [hd] at h
    | ended =>
      simp only [hd, Option.some.injEq] at h
      subst h
      rw [farewell?_finish] at hr
      exact ⟨(Option.some.inj hr).symm, (Dispatcher.eq_of_head_ended hd).2⟩
    | item out rest =>
      simp only [hd] at h
      split at h
      · obtain rfl := Option.some.inj h
        cases hr
      · obtain rfl := Option.some.inj h
        rw [hidle] at hr
        cases hr
  · cases h

theorem farewell?_of_learn {limit : Duration} {written : Sender.Written}
    (h : w.learn limit written d = some r) (hr : r.1.farewell? = some reason) :
    w.farewell? = some reason ∨ written.reason? limit = some reason := by
  unfold learn at h
  split at h
  · split at h
    · obtain rfl := Option.some.inj h
      cases hr
    · rename_i found hfound
      obtain rfl := Option.some.inj h
      rw [farewell?_finish] at hr
      exact .inr (hfound.trans hr)
  · rename_i found hp
    obtain rfl := Option.some.inj h
    refine .inl ?_
    rw [farewell?, hp]
    exact hr
  · cases h

end Writer

/-- What a writer and a dispatcher know of each other. -/
structure Linked (w : Writer) (d : Dispatcher) : Prop where
  /-- A writer that has not stopped holds its ends of the queues. -/
  held : w.isStopped = false → d.outbound.hasReceiver = true ∧ d.failures.hasSender = true
  /-- So does the dispatcher, and one that has stopped does not. -/
  fed : d.outbound.hasSender = true ↔ ∀ reason, d.phase ≠ .stopped reason
  /-- The writer ends for want of commands only after the dispatcher has stopped of itself. -/
  closed : w.farewell? = some .closed →
    ∃ shutdown, d.phase = .stopped shutdown ∧ shutdown ≠ .writerGone
  /-- The dispatcher misses only a writer that has stopped of itself. -/
  gone : d.phase = .stopped .writerGone → ∃ reason, w.reason? = some reason ∧ reason ≠ .closed

namespace Linked

variable {w : Writer} {d : Dispatcher} {r : Writer × Dispatcher}

theorem start (c : Capacities) : Linked .start (.start c) where
  held _ := ⟨rfl, rfl⟩
  fed := ⟨fun _ reason h => (by cases h), fun _ => rfl⟩
  closed h := by cases h
  gone h := by cases h

theorem of_same {e : Dispatcher} (h : Linked w d) (hp : e.phase = d.phase)
    (ho : e.outbound.hasReceiver = d.outbound.hasReceiver ∧
      e.outbound.hasSender = d.outbound.hasSender)
    (hf : e.failures.hasSender = d.failures.hasSender) : Linked w e where
  held := by
    rw [ho.1, hf]
    exact h.held
  fed := by
    rw [ho.2, hp]
    exact h.fed
  closed := by
    rw [hp]
    exact h.closed
  gone := by
    rw [hp]
    exact h.gone

theorem reason_of_released (h : Linked w d) (hlive : ∀ reason, d.phase ≠ .stopped reason)
    (hreleased : d.outbound.hasReceiver = false ∨ d.failures.hasSender = false) :
    ∃ reason, w.reason? = some reason ∧ reason ≠ .closed := by
  cases hw : w.reason? with
  | none =>
    have hstopped : w.isStopped = false := by
      rw [Writer.isStopped, hw]
      rfl
    obtain ⟨ho, hf⟩ := h.held hstopped
    rcases hreleased with hr | hr
    · rw [ho] at hr
      cases hr
    · rw [hf] at hr
      cases hr
  | some reason =>
    refine ⟨reason, rfl, ?_⟩
    rintro rfl
    obtain ⟨shutdown, hp, -⟩ := h.closed (Writer.farewell?_of_reason? hw)
    exact hlive shutdown hp

/-- A dispatcher that misses its writer has one that stopped first. -/
theorem perform {b : Bool} {a : Act} (h : Linked w d) (ha : d.act? b = some a) :
    Linked w (d.perform a) := by
  have hready := Dispatcher.ready_of_act? ha
  have hlive := hready.phase_ne
  have ho := Dispatcher.outbound_perform d a
  have hf := Dispatcher.failures_perform d a
  refine ⟨?_, ?_, ?_, ?_⟩
  · intro hw
    obtain ⟨hreceiver, hsender⟩ := h.held hw
    rw [ho, hf]
    cases a <;> exact ⟨hreceiver, hsender⟩
  · by_cases hstop : ∃ reason, (d.perform a).phase = .stopped reason
    · obtain ⟨reason, hp⟩ := hstop
      have hsender : (d.perform a).outbound.hasSender = false := by
        rw [ho]
        rcases Dispatcher.stopping hready hp with rfl | ⟨out, rfl⟩
        · rfl
        · rfl
      rw [hsender]
      exact ⟨fun hs => (by cases hs), fun hs => absurd hp (hs reason)⟩
    · have hgoes : ∀ reason, (d.perform a).phase ≠ .stopped reason := by
        intro reason hp
        exact hstop ⟨reason, hp⟩
      have hsender : (d.perform a).outbound.hasSender = true := by
        rw [ho]
        cases a with
        | stop reason => exact absurd rfl (hgoes reason)
        | lose out => exact absurd rfl (hgoes .writerGone)
        | _ => exact h.fed.mpr hlive
      exact ⟨fun _ => hgoes, fun _ => hsender⟩
  · intro hw
    obtain ⟨shutdown, hp, -⟩ := h.closed hw
    exact absurd hp (hlive shutdown)
  · intro hp
    rcases Dispatcher.stopping hready hp with rfl | ⟨out, rfl⟩
    · exact h.reason_of_released hlive (.inr (Dispatcher.ended_of_stop ha).2)
    · exact h.reason_of_released hlive (.inl hready.2)

theorem write {w' : Writer} {e : Dispatcher} (h : Linked w d) (hw : w.isStopped = false)
    (hp : e.phase = d.phase) (hs : e.outbound.hasSender = d.outbound.hasSender)
    (hends : w'.isStopped = false →
      e.outbound.hasReceiver = d.outbound.hasReceiver ∧
        e.failures.hasSender = d.failures.hasSender)
    (hreason : w'.farewell? = some .closed →
      w.farewell? = some .closed ∨ d.outbound.hasSender = false) : Linked w' e where
  held hw' := by
    rw [(hends hw').1, (hends hw').2]
    exact h.held hw
  fed := by
    rw [hs, hp]
    exact h.fed
  closed hc := by
    rw [hp]
    rcases hreason hc with hc | hc
    · exact h.closed hc
    · have hstopped : ¬ ∀ reason, d.phase ≠ .stopped reason := by
        intro hlive
        rw [h.fed.mpr hlive] at hc
        cases hc
      obtain ⟨shutdown, hp⟩ := not_forall_not.mp hstopped
      refine ⟨shutdown, hp, ?_⟩
      rintro rfl
      -- the writer that is missed has stopped already
      obtain ⟨reason, hr, -⟩ := h.gone hp
      rw [Writer.isStopped_of_reason? hr] at hw
      cases hw
  gone hgone := by
    rw [hp] at hgone
    obtain ⟨reason, hr, -⟩ := h.gone hgone
    rw [Writer.isStopped_of_reason? hr] at hw
    cases hw

theorem ping {w' : Writer} (h : Linked w d) (ht : w.ping = some w') : Linked w' d := by
  obtain ⟨hp, rfl⟩ := Writer.ping_eq_some ht
  exact h.write (Writer.Belt.isStopped_of_idle hp) rfl rfl (fun _ => ⟨rfl, rfl⟩)
    (fun hc => by cases hc)

theorem take (h : Linked w d) (ht : w.take d = some r) : Linked r.1 r.2 := by
  have hreason (hc : r.1.farewell? = some .closed) :
      w.farewell? = some .closed ∨ d.outbound.hasSender = false :=
    .inr (Writer.farewell?_of_take ht hc).2
  obtain ⟨hp, hcases⟩ := Writer.takes_of_take ht
  have hw := Writer.Belt.isStopped_of_idle hp
  cases hcases with
  | handed out text ho he => exact h.write hw rfl rfl (fun _ => ⟨rfl, rfl⟩) hreason
  | reported out error ho he =>
    simp only [Writer.report] at hreason ⊢
    split
    · rename_i failures hpush
      obtain ⟨-, rfl⟩ := Mailbox.eq_of_push? hpush
      exact h.write hw rfl rfl (fun _ => ⟨rfl, rfl⟩) (fun hc => by
        rw [Writer.farewell?, hp] at hc
        cases hc)
    · exact h.write hw rfl rfl (fun _ => ⟨rfl, rfl⟩) (fun hc => by
        rw [Writer.farewell?, hp] at hc
        cases hc)
  | ended ho => exact h.write hw rfl rfl (fun _ => ⟨rfl, rfl⟩) hreason

theorem learn {limit : Duration} {written : Sender.Written} (h : Linked w d)
    (ht : w.learn limit written d = some r) : Linked r.1 r.2 := by
  have hreason (hc : r.1.farewell? = some .closed) :
      w.farewell? = some .closed ∨ d.outbound.hasSender = false := by
    rcases Writer.farewell?_of_learn ht hc with hc | hc
    · exact .inl hc
    · exact absurd rfl (Sender.Written.ne_closed_of_reason? hc)
  have hclosing {reason : SessionEnd} (hp : w.phase = .closing reason) : w.isStopped = false := by
    rw [Writer.isStopped, Writer.reason?, hp]
    rfl
  cases Writer.learns_of_learn ht with
  | done hp =>
    exact h.write (Writer.Belt.isStopped_of_writing hp) rfl rfl (fun _ => ⟨rfl, rfl⟩) hreason
  | late _ _ hp =>
    exact h.write (Writer.Belt.isStopped_of_writing hp) rfl rfl (fun _ => ⟨rfl, rfl⟩) hreason
  | failed _ _ hp =>
    exact h.write (Writer.Belt.isStopped_of_writing hp) rfl rfl (fun hw => by cases hw) hreason
  | closed _ _ hp => exact h.write (hclosing hp) rfl rfl (fun hw => by cases hw) hreason

end Linked

namespace Session

variable {s s' : Session}

theorem linked_withReader {got : Option String} {r : Reader × Dispatcher}
    (h : Linked s.writer s.dispatcher) (hr : s.reader.Moves got s.dispatcher r) :
    Linked (s.withReader r).writer (s.withReader r).dispatcher := by
  obtain ⟨reader, d⟩ := r
  obtain ⟨frames, rfl, -⟩ := hr
  exact h.of_same rfl ⟨rfl, rfl⟩ rfl

theorem linked_settleIntake (h : Linked s.writer s.dispatcher) :
    Linked s.settleIntake.writer s.settleIntake.dispatcher := by
  obtain ⟨intake, he, -⟩ := settleIntake_eq s
  rw [he]
  exact h.of_same rfl ⟨rfl, rfl⟩ rfl

theorem linked_step {m : Moment} (h : Linked s.writer s.dispatcher) (hs : s.step m = some s') :
    Linked s'.writer s'.dispatcher := by
  cases step_cases hs with
  | dispatch ha => exact h.perform ha
  | take hr => exact h.take hr
  | ping hw => exact h.ping hw
  | written hr => exact h.learn hr
  | arrive hr => exact linked_withReader h (Reader.moves_receive hr)
  | hand hr => exact linked_withReader h (Reader.moves_hand hr)
  | silence hr => exact linked_withReader h (Reader.moves_expire hr)
  | conclude =>
    have hc := linked_withReader h (Reader.moves_giveUp s.reader s.dispatcher)
    exact hc
  | enqueue | refuse | expire | shut | disown =>
    exact linked_settleIntake (h.of_same rfl ⟨rfl, rfl⟩ rfl)
  | _ => exact h.of_same rfl ⟨rfl, rfl⟩ rfl

theorem linked_run (settings : Connection.Settings) (moments : List Moment) :
    Linked ((start settings).run moments).writer ((start settings).run moments).dispatcher :=
  run_of_step (P := fun s => Linked s.writer s.dispatcher) linked_step (.start _) moments

/-! ## The owners -/

/-- The dispatcher of a session that nobody has closed or given up. -/
structure Owned (d : Dispatcher) : Prop where
  signal : d.signal.isRaised = false
  abandoned : d.abandoned.hasSender = true
  intake : d.intake.hasSender = true
  phase : d.phase ≠ .stopped .closed

theorem settleIntake_of_isOpen (h : s.isOpen = true) : s.settleIntake = s := by
  have hfeeds : s.feedsIntake = true := by
    rw [feedsIntake, h]
    rfl
  rw [settleIntake, if_pos hfeeds]

theorem isOpen_settleIntake (s : Session) : s.settleIntake.isOpen = s.isOpen := by
  obtain ⟨intake, he, -⟩ := settleIntake_eq s
  rw [he]

/-- Whether a moment is one in which an owner lets no call in any more. -/
def Moment.isParting : Moment → Bool
  | .shut => true
  | .disown => true
  | _ => false

theorem isOpen_step {m : Moment} (hs : s.step m = some s') :
    s'.isOpen = (s.isOpen && ! m.isParting) := by
  cases step_cases hs with
  | shut =>
    rw [shut, isOpen_settleIntake]
    exact (Bool.and_false _).symm
  | disown =>
    rw [isOpen_settleIntake]
    exact (Bool.and_false _).symm
  | enqueue | refuse | expire =>
    refine (isOpen_settleIntake _).trans ?_
    exact (Bool.and_true _).symm
  | _ => exact (Bool.and_true _).symm

/-- A dispatcher is closed only by its owners. -/
theorem Owned.perform {d : Dispatcher} {b : Bool} {a : Act} (h : Owned d)
    (ha : d.act? b = some a) : Owned (d.perform a) where
  signal := by
    rw [(Dispatcher.frame_perform d a).1]
    exact h.signal
  abandoned := by
    rw [Dispatcher.abandoned_perform]
    cases a <;> exact h.abandoned
  intake := by
    rw [Dispatcher.intake_perform]
    cases a <;> exact h.intake
  phase := by
    intro hp
    rcases Dispatcher.stopping (Dispatcher.ready_of_act? ha) hp with rfl | ⟨out, rfl⟩
    · rcases Dispatcher.ended_of_stop ha with hs | hs | hs
      · rw [h.signal] at hs
        cases hs
      · rw [h.abandoned] at hs
        cases hs
      · rw [h.intake] at hs
        cases hs
    · cases hp

theorem owned_withWriter {r : Writer × Dispatcher} (h : Owned s.dispatcher)
    (hr : s.writer.Moves s.dispatcher r) : Owned (s.withWriter r).dispatcher := by
  obtain ⟨w, d⟩ := r
  obtain ⟨outbound, failures, rfl, -⟩ := hr
  exact ⟨h.signal, h.abandoned, h.intake, h.phase⟩

theorem owned_withReader {got : Option String} {r : Reader × Dispatcher} (h : Owned s.dispatcher)
    (hr : s.reader.Moves got s.dispatcher r) : Owned (s.withReader r).dispatcher := by
  obtain ⟨reader, d⟩ := r
  obtain ⟨frames, rfl, -⟩ := hr
  exact ⟨h.signal, h.abandoned, h.intake, h.phase⟩

theorem owned_settleIntake (h : Owned s.dispatcher) (ho : s.isOpen = true) :
    Owned s.settleIntake.dispatcher := by
  rw [settleIntake_of_isOpen ho]
  exact h

theorem owned_step {m : Moment} (h : Owned s.dispatcher) (hs : s.step m = some s')
    (ho : s'.isOpen = true) : Owned s'.dispatcher := by
  have hopen : s.isOpen = true ∧ m.isParting = false := by
    rw [isOpen_step hs] at ho
    simpa using ho
  cases step_cases hs with
  | dispatch ha => exact h.perform ha
  | raise hshut => cases hshut.symm.trans hopen.1
  | shut | disown => cases hopen.2
  | enqueue _ _ hp =>
    obtain ⟨-, rfl⟩ := Mailbox.eq_of_push? hp
    exact owned_settleIntake ⟨h.signal, h.abandoned, h.intake, h.phase⟩ hopen.1
  | refuse | expire => exact owned_settleIntake ⟨h.signal, h.abandoned, h.intake, h.phase⟩ hopen.1
  | @abandon id =>
    refine ⟨h.signal, ?_, h.intake, h.phase⟩
    show ((s.dispatcher.abandoned.push? id).getD s.dispatcher.abandoned).hasSender = true
    cases hp : s.dispatcher.abandoned.push? id with
    | none => exact h.abandoned
    | some abandoned =>
      obtain ⟨-, rfl⟩ := Mailbox.eq_of_push? hp
      exact h.abandoned
  | take hr => exact owned_withWriter h (Writer.moves_take hr)
  | written hr => exact owned_withWriter h (Writer.moves_learn hr)
  | arrive hr => exact owned_withReader h (Reader.moves_receive hr)
  | hand hr => exact owned_withReader h (Reader.moves_hand hr)
  | silence hr => exact owned_withReader h (Reader.moves_expire hr)
  | conclude =>
    have hc := owned_withReader h (Reader.moves_giveUp s.reader s.dispatcher)
    exact hc
  | _ => exact ⟨h.signal, h.abandoned, h.intake, h.phase⟩

/-- A session is open until one of its owners parts with it, and while it is open nothing closes
its dispatcher. -/
theorem owned_run (settings : Connection.Settings) (moments : List Moment) :
    ((∀ m ∈ moments, m.isParting = false) → ((start settings).run moments).isOpen = true) ∧
      (((start settings).run moments).isOpen = true →
        Owned ((start settings).run moments).dispatcher) := by
  induction moments using List.reverseRecOn with
  | nil => exact ⟨fun _ => rfl, fun _ => ⟨rfl, rfl, rfl, fun h => by cases h⟩⟩
  | append_singleton moments m ih =>
    rw [run_concat]
    obtain ⟨hopen, howned⟩ := ih
    cases hs : ((start settings).run moments).step m with
    | none =>
      rw [live_of_none hs]
      exact ⟨fun hm => hopen fun m' hm' => hm m' (List.mem_append_left _ hm'), howned⟩
    | some s' =>
      rw [live_of_step hs]
      refine ⟨fun hm => ?_, fun ho => ?_⟩
      · rw [isOpen_step hs, hopen fun m' hm' => hm m' (List.mem_append_left _ hm'),
          hm m (List.mem_append_right _ (List.mem_singleton_self m))]
        rfl
      · have hbefore : ((start settings).run moments).isOpen = true := by
          rw [isOpen_step hs] at ho
          exact (Bool.and_eq_true_iff.mp ho).1
        exact owned_step (howned hbefore) hs ho

/-! ## The reader -/

theorem reader_live (h : s.reader.isDone = true) (m : Moment) : (s.live m).reader = s.reader := by
  refine live_of_kept (P := (·.reader = s.reader)) rfl ?_
  intro s' hs
  cases step_cases hs with
  | arrive hr =>
    rw [(Reader.receive_cases hr).1] at h
    cases h
  | hand hr =>
    obtain ⟨text, ht, -⟩ := Reader.hand_cases hr
    rw [ht] at h
    cases h
  | silence hr =>
    rw [(Reader.expire_cases hr).1] at h
    cases h
  | conclude =>
    show (s.reader.giveUp s.dispatcher).1 = s.reader
    cases hreader : s.reader with
    | stopped reason => rfl
    | abandoned => rfl
    | _ =>
      rw [hreader] at h
      cases h
  | dispatch | takeEvent | dropEvents => rfl
  | _ => exact (aside_step rfl hs).reader

/-- A dispatcher that has no more frames to come has a reader that stopped first. -/
theorem reader_of_framesEnded (settings : Connection.Settings) (moments : List Moment)
    (h : ((start settings).run moments).dispatcher.phase = .stopped .framesEnded) :
    ∃ reason, ((start settings).run moments).reader = .stopped reason ∧ reason ≠ .closed := by
  induction moments using List.reverseRecOn with
  | nil => cases h
  | append_singleton moments m ih =>
    have hinflow := (flow_run settings (moments ++ [m])).inflow
    have hleft := stopped_of_left settings moments
    have hdone := hinflow.spent (hinflow.whole h).2
    rw [run_concat] at h hdone ⊢
    generalize (start settings).run moments = s at h hdone hleft ih ⊢
    cases ha : s.act? m with
    | some a =>
      -- the dispatcher stops in this moment, so the reader was done while it ran
      obtain ⟨b, rfl, hb⟩ := act?_eq_some ha
      have hlive := (Dispatcher.ready_of_act? hb).phase_ne
      rw [live_dispatch hb] at hdone ⊢
      show ∃ reason, s.reader = .stopped reason ∧ reason ≠ .closed
      cases hreader : s.reader with
      | stopped reason =>
        refine ⟨reason, rfl, ?_⟩
        rintro rfl
        obtain ⟨shutdown, hp⟩ := hleft (.inl hreader)
        exact hlive shutdown hp
      | abandoned =>
        obtain ⟨shutdown, hp⟩ := hleft (.inr hreader)
        exact absurd hp (hlive shutdown)
      | _ =>
        change s.reader.isDone = true at hdone
        rw [hreader] at hdone
        cases hdone
    | none =>
      rw [phase_live ha] at h
      obtain ⟨reason, hreader, hne⟩ := ih h
      refine ⟨reason, ?_, hne⟩
      rw [reader_live (by rw [hreader]; rfl), hreader]

end Session

theorem Reader.Account.cause {window : Duration} {items : List Incoming} {given : List String}
    {reason : SessionEnd} (h : Reader.Account window items given (.stopped reason))
    (hne : reason ≠ .closed) :
    reason = .closedByPeer ∨ reason = .livenessExpired window ∨
      ∃ fault : SocketFault, reason = .socket fault.message := by
  cases h with
  | met _ earlier last hi he =>
    cases last with
    | close => exact .inl (Option.some.inj he).symm
    | ended => exact .inl (Option.some.inj he).symm
    | failed fault => exact .inr (.inr ⟨fault, (Option.some.inj he).symm⟩)
    | _ => cases he
  | silent => exact .inr (.inl rfl)
  | lost => exact absurd rfl hne

end LedgerClient
