import LedgerClient.Connection.Settings
import LedgerClient.Proofs.Socket.Farewell
import LedgerClient.Proofs.Socket.Reading

/-!
# Pings keep a session alive

Where timers fire at their deadlines and writes take no time, a sender writes a ping at every
multiple of its interval, whatever commands come in between (`pings_of_isDue`): a command is written
before the next ping is due, so its clock never runs past that ping (`OnTime`).

A receiver that gave up would have read nothing for a whole window. The first ping after its last
arrival was written less than an interval later, and a peer that answers it in what is left of the
window would have been heard (`KeptAlive`).
-/

namespace LedgerClient

namespace Sender

/-- Circumstances in which timers fire at their deadlines and writes take no time. -/
structure Setting.Prompt (setting : Setting) : Prop where
  clock : setting.clock = .exact
  sink : ∀ n, setting.sink n = .after 0

/-- A ping is written at a time. -/
def Setting.Pings (setting : Setting) (time : Nat) : Prop :=
  ∃ turns written, .send time .ping written ∈ (run setting turns).calls

variable {setting : Setting} {s s' : State}

/-! ## Writes -/

theorem send_of_prompt (h : setting.Prompt) (frame : Outgoing) (s : State) :
    s.send setting frame = (.done, { s with
      writes := s.writes + 1
      calls := s.calls ++ [.send s.now frame .done] }) := by
  have ho : outcome setting s.now (setting.sink s.writes) = (.done, s.now) := by
    rw [h.sink, outcome, outcomeBy, settled, Setting.limit, h.clock, Clock.wake_exact,
      Clock.wake_exact]
    simp
  rw [State.send, ho]

theorem write_of_prompt (h : setting.Prompt) (frame : Outgoing) (s : State) :
    s.write setting frame = { s with
      writes := s.writes + 1
      calls := s.calls ++ [.send s.now frame .done] } := by
  rw [State.write, send_of_prompt h]
  rfl

theorem finish_of_prompt (h : setting.Prompt) (s : State) :
    ∃ now gone parting, s.finish setting .closed = { s with
      now
      reason := some .closed
      writes := s.writes + 1
      calls := s.calls ++ [.send s.now .close .done] ++ [.close gone]
      parting } := by
  rw [State.finish]
  simp only [SessionEnd.isSocket, Bool.false_eq_true, if_false, send_of_prompt h, shut_eq]
  exact ⟨_, _, _, rfl⟩

theorem takeCommand_of_prompt (h : setting.Prompt) (out : Outbound) (s : State) :
    ∃ writes calls failures, s.takeCommand setting out = { s with
        writes, calls := s.calls ++ calls, failures } ∧
      ∀ time written, .send time .ping written ∉ calls := by
  rw [State.takeCommand]
  cases out.command.encode out.id with
  | ok text => exact ⟨_, [.send s.now (.text text) .done], _, write_of_prompt h _ s, by simp⟩
  | error error => exact ⟨_, [], _, by rw [List.append_nil], by simp⟩

/-! ## Turns -/

/-- A turn of a sender that writes at once. -/
inductive Turns (setting : Setting) (s s' : State) : Prop
  /-- It writes or reports a command before the next ping is due. -/
  | command (rest : List (Nat × Outbound)) (hlen : s.commands.length = rest.length + 1)
    (hc : s'.commands = rest) (ht : s'.tick = s.tick) (hn : s'.now ≤ s.tick)
    (hr : s'.reason = none)
    (hp : ∀ time written, .send time .ping written ∈ s'.calls →
      .send time .ping written ∈ s.calls) : Turns setting s s'
  /-- It finds its queue closed, and ends. -/
  | ended (time : Nat) (hc : setting.closing = some time) (hle : time ≤ s.tick)
    (ht : s'.tick = s.tick) (hr : s'.reason = some .closed)
    (hp : ∀ time written, .send time .ping written ∈ s'.calls →
      .send time .ping written ∈ s.calls) : Turns setting s s'
  /-- It writes a ping when it is due. -/
  | ping (hc : s'.commands = s.commands) (ht : s'.tick = s.tick + setting.pingInterval.nanos)
    (hn : s'.now = s.tick) (hr : s'.reason = none)
    (hp : s'.calls = s.calls ++ [.send s.tick .ping .done]) : Turns setting s s'

theorem tickTime_of_prompt (h : setting.Prompt) (hn : s.now ≤ s.tick) :
    s.tickTime setting = s.tick := by
  rw [State.tickTime, h.clock, Clock.wake_exact]
  exact Nat.max_eq_right hn

theorem turns_of_prompt (h : setting.Prompt) (hr : s.reason = none) (hn : s.now ≤ s.tick) :
    Turns setting s (s.turn setting) := by
  have htick := tickTime_of_prompt h hn
  rw [State.turn, hr]
  simp only
  split
  · rename_i hq
    -- the queue comes first, so it has something by the time of the ping
    obtain ⟨time, ht, hle⟩ : ∃ time, s.queueTime setting = some time ∧ time ≤ s.tick := by
      rw [State.queueFirst] at hq
      cases hqt : s.queueTime setting with
      | none => simp [hqt] at hq
      | some time =>
        simp only [hqt, htick, Bool.or_eq_true, decide_eq_true_eq, Bool.and_eq_true,
          beq_iff_eq] at hq
        exact ⟨time, rfl, by omega⟩
    rw [ht, Option.getD_some, State.takeNext]
    cases hc : s.commands with
    | nil =>
      rw [State.queueTime, hc] at ht
      obtain ⟨closing, hclosing, rfl⟩ := Option.map_eq_some_iff.mp ht
      obtain ⟨now, gone, parting, he⟩ := finish_of_prompt h
        { s with turns := s.turns + 1, now := max s.now closing, commands := [], reason := none }
      simp only [he]
      refine .ended closing hclosing (Nat.le_trans (Nat.le_max_right _ _) hle) rfl rfl ?_
      intro time written hm
      simpa using hm
    | cons entry rest =>
      obtain ⟨due, out⟩ := entry
      obtain ⟨writes, calls, failures, he, hnot⟩ := takeCommand_of_prompt h out
        { s with turns := s.turns + 1, now := time, commands := rest, reason := none }
      simp only [he]
      refine .command rest (by rw [hc, List.length_cons]) rfl rfl hle rfl ?_
      intro time written hm
      exact (List.mem_append.mp hm).resolve_right (hnot time written)
  · rw [State.ping, htick]
    have hbase : ¬ s.tick + tolerance < s.tick := by omega
    simp only [hbase, if_false, write_of_prompt h]
    exact .ping rfl rfl rfl rfl rfl

/-! ## The clock of a sender -/

/-- Whether a ping is due at a time: a positive multiple of the interval. -/
def Setting.IsDue (setting : Setting) (time : Nat) : Prop :=
  setting.pingInterval.nanos ∣ time ∧ setting.pingInterval.nanos ≤ time

/-- The clock of a sender at work has not run past the next ping, and pings are written when they are
due. -/
structure OnTime (setting : Setting) (s : State) : Prop where
  now_le : s.reason = none → s.now ≤ s.tick
  tick : setting.IsDue s.tick
  pings : ∀ time written, .send time .ping written ∈ s.calls → setting.IsDue time

theorem onTime_start (setting : Setting) : OnTime setting (start setting) :=
  ⟨fun _ => Nat.zero_le _, ⟨Nat.dvd_refl _, Nat.le_refl _⟩, fun _ _ hm => by cases hm⟩

theorem OnTime.turn (ho : OnTime setting s) (h : Turns setting s s') : OnTime setting s' := by
  cases h with
  | command rest hlen hc ht hn hr hp =>
    exact ⟨fun _ => ht ▸ hn, ht ▸ ho.tick,
      fun time written hm => ho.pings time written (hp time written hm)⟩
  | ended time hc hle ht hr hp =>
    exact ⟨fun hn => by simp [hr] at hn, ht ▸ ho.tick,
      fun time written hm => ho.pings time written (hp time written hm)⟩
  | ping hc ht hn hr hp =>
    refine ⟨fun _ => by omega, ?_, fun time written hm => ?_⟩
    · rw [ht]
      exact ⟨Nat.dvd_add ho.tick.1 (Nat.dvd_refl _), Nat.le_add_left _ _⟩
    · rw [hp, List.mem_append, List.mem_singleton] at hm
      rcases hm with hm | hm
      · exact ho.pings time written hm
      · cases hm
        exact ho.tick

theorem onTime_after (h : setting.Prompt) (ho : OnTime setting s) (turns : Nat) :
    OnTime setting (s.after setting turns) := by
  induction turns generalizing s with
  | zero => exact ho
  | succ turns ih =>
    rw [State.after]
    cases hr : s.reason with
    | some reason => exact ho
    | none => exact ih (ho.turn (turns_of_prompt h hr (ho.now_le hr)))

theorem isDue_of_pings (h : setting.Prompt) {time : Nat} (hp : setting.Pings time) :
    setting.IsDue time := by
  obtain ⟨turns, written, hm⟩ := hp
  exact (onTime_after h (onTime_start setting) turns).pings time written hm

/-- The next pings are written, as long as the queue is not closed: each turn gets rid of a
command or comes closer to the ping. -/
theorem exists_ping (h : setting.Prompt) (hi : 0 < setting.pingInterval.nanos) {time : Nat}
    (hd : setting.IsDue time) (hc : ∀ closing ∈ setting.closing, time < closing)
    (ho : OnTime setting s) (hr : s.reason = none) (hle : s.tick ≤ time) :
    ∃ turns, .send time .ping .done ∈ (s.after setting turns).calls := by
  induction hm : s.commands.length + (time - s.tick) using Nat.strongRecOn
    generalizing s with
  | _ measure ih =>
    subst hm
    have hafter (turns : Nat) :
        s.after setting (turns + 1) = (s.turn setting).after setting turns := by
      rw [State.after, hr]
    have hturn := turns_of_prompt h hr (ho.now_le hr)
    have hnext := ho.turn hturn
    cases hturn with
    | command rest hlen hcommands ht hn hr' hp =>
      obtain ⟨turns, hm⟩ := ih _ (by rw [hcommands, ht]; omega) hnext hr' (ht ▸ hle) rfl
      exact ⟨turns + 1, hafter turns ▸ hm⟩
    | ended closing hclosing hdue =>
      have hlt := hc closing hclosing
      omega
    | ping hcommands ht hn hr' hp =>
      rcases Nat.eq_or_lt_of_le hle with rfl | hlt
      · refine ⟨1, hafter 0 ▸ ?_⟩
        rw [State.after, hp]
        exact List.mem_append_right _ (List.mem_singleton_self _)
      · -- the next multiple of the interval is not past the ping
        have hstep : s.tick + setting.pingInterval.nanos ≤ time := by
          have hdiff := Nat.le_of_dvd (Nat.sub_pos_of_lt hlt) (Nat.dvd_sub hd.1 ho.tick.1)
          omega
        obtain ⟨turns, hm⟩ :=
          ih _ (by rw [hcommands, ht]; omega) hnext hr' (ht ▸ hstep) rfl
        exact ⟨turns + 1, hafter turns ▸ hm⟩

/-- Every ping that is due is written, as long as the queue is not closed. -/
theorem pings_of_isDue (h : setting.Prompt) (hi : 0 < setting.pingInterval.nanos) {time : Nat}
    (hd : setting.IsDue time) (hc : ∀ closing ∈ setting.closing, time < closing) :
    setting.Pings time := by
  obtain ⟨turns, hm⟩ := exists_ping h hi hd hc (onTime_start setting) rfl hd.2
  exact ⟨turns, .done, hm⟩

end Sender

/-! ## The receiver -/

/-- A dispatcher that does not hold a receiver up. -/
def Receiver.Consumer.Prompt (consumer : Receiver.Consumer) : Prop :=
  ∀ n delay, consumer n = some delay → delay = 0

/-- A receiver that has given up has heard nothing for a whole window. -/
theorem Receiver.silence_of_expired {window : Duration} {consumer : Consumer}
    (hc : consumer.Prompt) {arrivals : List Arrival} (ho : arrivals.Pairwise (·.time ≤ ·.time))
    {limit : Duration}
    (h : (run ⟨.exact, window⟩ consumer arrivals).reason = .livenessExpired limit) :
    ∃ last, (run ⟨.exact, window⟩ consumer arrivals).time = last + window.nanos ∧
      ∀ arrival ∈ arrivals, arrival.time ≤ last ∨ last + window.nanos < arrival.time := by
  obtain ⟨read, rest, s, rfl, hreads, hends⟩ :=
    exists_reads ⟨.exact, window⟩ consumer arrivals (start ⟨.exact, window⟩)
  rw [← run] at hends
  have hdeadline := hreads.deadline_eq hc (Nat.zero_add _).symm
  have hexpiry : s.expiry ⟨.exact, window⟩ = s.now + window.nanos := by
    rw [State.expiry, Clock.wake_exact, hdeadline]
    exact Nat.max_eq_right (Nat.le_add_right _ _)
  generalize run ⟨.exact, window⟩ consumer (read ++ rest) = report at h hends ⊢
  cases hends with
  | silent _ hsilent =>
    refine ⟨s.now, hexpiry, fun arrival ha => ?_⟩
    rcases List.mem_append.mp ha with ha | ha
    · exact .inl (hreads.time_le.2 arrival ha)
    · -- what was not read is no earlier than the first that was not
      obtain ⟨first, later, rfl⟩ := List.exists_cons_of_ne_nil (List.ne_nil_of_mem ha)
      have hfirst : s.now + window.nanos < first.time := hexpiry ▸ hsilent first rfl
      have hlater := (List.pairwise_cons.mp (List.pairwise_append.mp ho).2.1).1
      rcases List.mem_cons.mp ha with rfl | ha
      · exact .inr hfirst
      · exact .inr (Nat.lt_of_lt_of_le hfirst (hlater arrival ha))
  | met arrival later report hd hr => exact absurd h (not_expired_of_receive hr limit)

/-! ## Both together -/

theorem Connection.Settings.pingInterval_pos {settings : Connection.Settings}
    (h : settings.check = .ok ()) : 0 < settings.pingInterval.nanos := by
  refine Nat.pos_of_ne_zero fun hz => ?_
  have hzero : settings.pingInterval.isZero = true := by rw [Duration.isZero, hz]; rfl
  rw [check, if_pos hzero] at h
  cases h

/-- A peer answers the pings of a sender, each within a delay, as far as the answers are due by a
horizon. -/
def Sender.Setting.AnsweredWithin (setting : Setting) (delay horizon : Nat)
    (arrivals : List Arrival) : Prop :=
  ∀ time, setting.Pings time → time + delay ≤ horizon →
    ∃ arrival ∈ arrivals,
      arrival.item = .pong ∧ time ≤ arrival.time ∧ arrival.time ≤ time + delay

variable {settings : Connection.Settings} {sender : Sender.Setting} {consumer : Receiver.Consumer}
  {delay : Nat}

theorem Receiver.lt_time_of_answered (hs : settings.check = .ok ()) (hp : sender.Prompt)
    (hi : sender.pingInterval = settings.pingInterval) (hc : consumer.Prompt)
    (hd : settings.pingInterval.nanos + delay < settings.livenessWindow.nanos) {horizon : Nat}
    (hh : ∀ closing ∈ sender.closing, horizon ≤ closing) {arrivals : List Arrival}
    (ho : arrivals.Pairwise (·.time ≤ ·.time)) (ha : sender.AnsweredWithin delay horizon arrivals)
    {limit : Duration}
    (h : (Receiver.run ⟨.exact, settings.livenessWindow⟩ consumer arrivals).reason =
      .livenessExpired limit) :
    horizon < (Receiver.run ⟨.exact, settings.livenessWindow⟩ consumer arrivals).time := by
  refine Nat.lt_of_not_le fun hle => ?_
  obtain ⟨last, htime, hgap⟩ := Receiver.silence_of_expired hc ho h
  have hpos : 0 < sender.pingInterval.nanos := hi ▸ Connection.Settings.pingInterval_pos hs
  rw [← hi] at hd
  -- the first ping after the last that was heard
  obtain ⟨ping, hisDue, hlast, hnext⟩ : ∃ ping, sender.IsDue ping ∧ last < ping ∧
      ping ≤ last + sender.pingInterval.nanos := by
    have hdiv := Nat.div_add_mod last sender.pingInterval.nanos
    have hmod := Nat.mod_lt last hpos
    refine ⟨sender.pingInterval.nanos * (last / sender.pingInterval.nanos) +
      sender.pingInterval.nanos, ⟨?_, Nat.le_add_left _ _⟩, ?_, ?_⟩
    · exact Nat.dvd_add (Nat.dvd_mul_right _ _) (Nat.dvd_refl _)
    · omega
    · omega
  have hdue : ping + delay ≤ horizon := by omega
  have hpings : sender.Pings ping := by
    refine Sender.pings_of_isDue hp hpos hisDue fun closing hclosing => ?_
    have hopen := hh closing hclosing
    omega
  obtain ⟨arrival, hmem, -, hafter, hbefore⟩ := ha ping hpings hdue
  rcases hgap arrival hmem with hold | hnew
  · omega
  · omega

/-- How long a session with an attentive peer is kept alive. -/
structure KeptAlive (settings : Connection.Settings) (sender : Sender.Setting)
    (consumer : Receiver.Consumer) (delay : Nat) : Prop where
  /-- Pings are written at the multiples of the interval, whatever the commands are. -/
  pings : ∀ time, (∀ closing ∈ sender.closing, time < closing) →
    (sender.Pings time ↔ sender.IsDue time)
  /-- While the peer answers the pings and the queue is not closed, the receiver does not give up. -/
  upTo : ∀ horizon arrivals limit, (∀ closing ∈ sender.closing, horizon ≤ closing) →
    arrivals.Pairwise (·.time ≤ ·.time) → sender.AnsweredWithin delay horizon arrivals →
    (Receiver.run ⟨.exact, settings.livenessWindow⟩ consumer arrivals).reason =
      .livenessExpired limit →
      horizon < (Receiver.run ⟨.exact, settings.livenessWindow⟩ consumer arrivals).time
  /-- If the peer never stops answering, the receiver never gives up: whatever it has read, the
  next arrival is there by its deadline. -/
  forEver : sender.closing = none → ∀ peer : Nat → Arrival,
    (∀ i j, i ≤ j → (peer i).time ≤ (peer j).time) →
    (∀ time, sender.Pings time → ∃ i, (peer i).item = .pong ∧ time ≤ (peer i).time ∧
      (peer i).time ≤ time + delay) →
    ∀ n limit,
      (Receiver.run ⟨.exact, settings.livenessWindow⟩ consumer
          ((List.range n).map peer)).reason = .livenessExpired limit →
        (peer n).time ≤ (Receiver.run ⟨.exact, settings.livenessWindow⟩ consumer
          ((List.range n).map peer)).time

/-- **Pings keep a session alive** whose peer answers them in what the interval leaves of the liveness
window, whatever else is sent and received. -/
theorem keptAlive (hs : settings.check = .ok ()) (hp : sender.Prompt)
    (hi : sender.pingInterval = settings.pingInterval) (hc : consumer.Prompt)
    (hd : settings.pingInterval.nanos + delay < settings.livenessWindow.nanos) :
    KeptAlive settings sender consumer delay where
  pings time hclosing :=
    ⟨Sender.isDue_of_pings hp, fun hdue => Sender.pings_of_isDue hp
      (hi ▸ Connection.Settings.pingInterval_pos hs) hdue hclosing⟩
  upTo horizon arrivals limit hh ho ha h := Receiver.lt_time_of_answered hs hp hi hc hd hh ho ha h
  forEver hclosing peer hpeer hanswers n limit h := by
    refine Nat.le_of_not_lt fun hlate => ?_
    -- the answers that were due by then are among the arrivals before the next
    refine Nat.lt_irrefl _ (Receiver.lt_time_of_answered hs hp hi hc hd (by simp [hclosing]) ?_ ?_ h)
    · rw [List.pairwise_map]
      exact List.pairwise_le_range.imp fun hij => hpeer _ _ hij
    · intro time hping hdue
      obtain ⟨i, hpong, hafter, hbefore⟩ := hanswers time hping
      have hin : i < n := by
        refine Nat.lt_of_not_le fun hni => ?_
        have hlater := hpeer n i hni
        omega
      exact ⟨peer i, List.mem_map_of_mem (List.mem_range.mpr hin), hpong, hafter, hbefore⟩

/-- A peer that answers two pings, one at the time of a command, and no more: the receiver waits for a
window after the second answer. -/
theorem keptAlive_by_two_answers :
    let settings := Connection.Settings.ofEndpoint Connection.defaultEndpoint
    let sender : Sender.Setting :=
      { clock := .exact, pingInterval := settings.pingInterval
        writeTimeout := settings.writeTimeout, sink := fun _ => .after 0, ties := fun _ => true
        commands := [((Duration.ofSeconds 54).nanos, ⟨1, .ping⟩)], closing := none }
    let consumer : Receiver.Consumer := fun _ => some 0
    let delay := (Duration.ofSeconds 5).nanos
    let arrivals : List Arrival :=
      [⟨(Duration.ofSeconds 55).nanos, .pong⟩, ⟨(Duration.ofSeconds 113).nanos, .pong⟩]
    let report := Receiver.run ⟨.exact, settings.livenessWindow⟩ consumer arrivals
    settings.check = .ok () ∧ sender.Prompt ∧ consumer.Prompt ∧
      sender.AnsweredWithin delay (Duration.ofSeconds 166).nanos arrivals ∧
      KeptAlive settings sender consumer delay ∧
      report.reason = .livenessExpired settings.livenessWindow ∧
      report.time = (Duration.ofSeconds 173).nanos := by
  have hc : Receiver.Consumer.Prompt fun _ => some 0 := fun _ _ h => (Option.some.inj h).symm
  refine ⟨rfl, ⟨rfl, fun _ => rfl⟩, hc, ?_,
    keptAlive rfl ⟨rfl, fun _ => rfl⟩ rfl hc (by decide), rfl, rfl⟩
  intro time hping hdue
  obtain ⟨⟨k, rfl⟩, hfirst⟩ := Sender.isDue_of_pings ⟨rfl, fun _ => rfl⟩ hping
  -- only the first two pings are due so early
  obtain rfl | rfl : k = 1 ∨ k = 2 := by
    change 54000000000 * k + 5000000000 ≤ 166000000000 at hdue
    change 54000000000 ≤ 54000000000 * k at hfirst
    omega
  · exact ⟨_, List.mem_cons_self, rfl, by decide, by decide⟩
  · exact ⟨_, List.mem_cons_of_mem _ List.mem_cons_self, rfl, by decide, by decide⟩

end LedgerClient
