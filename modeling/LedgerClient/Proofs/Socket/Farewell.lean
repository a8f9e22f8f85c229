import LedgerClient.Socket.Sender

/-!
# How a sender parts from its socket

While a sender is at work, all that it did to its socket was to write texts and pings, and every write
succeeded (`Working`). A turn leaves it at work or ends it, and then what it did last shows why
(`Ended`): it found its queue closed, a write was late, or a write failed. In the first two cases, and
only in these, it tries a close frame and closes the socket behind it (`Farewell`), both up to the
limit of one write. So a socket that has failed is left alone, unless it was the close frame that
failed: then it is still closed, whatever comes of that.
-/

namespace LedgerClient.Sender

variable {setting : Setting} {s : State}

/-! ## One write -/

/-- How long a socket is busy with a write, unless it is so for good. -/
def Response.delay? : Response → Option Nat
  | .after delay => some delay
  | .fails _ delay => some delay
  | .never => none

theorem settled_cases {written : Written} (hw : written ≠ .late) (setting : Setting)
    (limit start delay : Nat) :
    (∃ w time, settled setting limit start delay written = (w, time) ∧ w ≠ .late ∧
        setting.clock.wake time = time ∧ time ≤ limit) ∨
      settled setting limit start delay written = (.late, limit) ∧
        ∀ d ∈ some delay, limit < setting.clock.wake (start + d) := by
  by_cases h : setting.clock.wake (start + delay) ≤ limit
  · exact .inl ⟨written, _, if_pos h, hw, setting.clock.wake_wake _, h⟩
  · exact .inr ⟨if_neg h, fun d hd => Option.some.inj hd ▸ Nat.not_le.mp h⟩

/-- What is asked of a socket is done when the clock next goes off, or is late and ends at the
limit. -/
theorem outcomeBy_cases (setting : Setting) (limit start : Nat) (response : Response) :
    (∃ written time, outcomeBy setting limit start response = (written, time) ∧ written ≠ .late ∧
        setting.clock.wake time = time ∧ time ≤ limit) ∨
      outcomeBy setting limit start response = (.late, limit) ∧
        ∀ delay ∈ response.delay?, limit < setting.clock.wake (start + delay) := by
  cases response with
  | never => exact .inr ⟨rfl, nofun⟩
  | after delay => exact settled_cases (by simp) setting limit start delay
  | fails fault delay => exact settled_cases (by simp) setting limit start delay

theorem eq_limit_of_late {limit start time : Nat} {response : Response}
    (h : outcomeBy setting limit start response = (.late, time)) :
    time = limit ∧
      ∀ delay ∈ response.delay?, limit < setting.clock.wake (start + delay) := by
  rcases outcomeBy_cases setting limit start response with ⟨written, _, he, hw, -⟩ | ⟨he, hlate⟩
  · exact absurd (Prod.mk.inj (he.symm.trans h)).1 hw
  · exact ⟨(Prod.mk.inj (h.symm.trans he)).2, hlate⟩

theorem outcomeBy_le (setting : Setting) (limit start : Nat) (response : Response) :
    (outcomeBy setting limit start response).2 ≤ limit := by
  rcases outcomeBy_cases setting limit start response with ⟨_, _, he, -, -, hle⟩ | ⟨he, -⟩
  · exact he ▸ hle
  · exact he ▸ Nat.le_refl limit

/-- What takes no time is done at once behind what was not late. -/
theorem outcomeBy_at_once {limit start time : Nat} {response : Response} {written : Written}
    (h : outcomeBy setting limit start response = (written, time)) (hw : written ≠ .late) :
    outcomeBy setting limit time (.after 0) = (.done, time) := by
  rcases outcomeBy_cases setting limit start response with ⟨_, _, he, -, hwake, hle⟩ | ⟨he, -⟩
  · obtain ⟨-, rfl⟩ := Prod.mk.inj (h.symm.trans he)
    rw [outcomeBy, settled, Nat.add_zero, hwake]
    exact if_pos hle
  · exact absurd (Prod.mk.inj (h.symm.trans he)).1 hw

theorem exists_send (setting : Setting) (frame : Outgoing) (s : State) :
    ∃ written time, outcome setting s.now (setting.sink s.writes) = (written, time) ∧
      s.send setting frame = (written, { s with
        now := time
        writes := s.writes + 1
        calls := s.calls ++ [.send time frame written] }) :=
  ⟨_, _, rfl, rfl⟩

theorem shut_eq (setting : Setting) (limit : Nat) (s : State) :
    s.shut setting limit = { s with
      now := (outcomeBy setting limit s.now setting.shutting).2
      calls := s.calls ++ [.close (outcomeBy setting limit s.now setting.shutting).2]
      parting := some (outcomeBy setting limit s.now setting.shutting).1 } :=
  rfl

/-! ## At work and at the end -/

/-- What a sender does to its socket at work: it writes a text or a ping, and succeeds. -/
def Call.IsWork : Call → Prop
  | .send _ frame written => frame ≠ .close ∧ written = .done
  | .close _ => False

/-- A sender that is not over. -/
structure Working (s : State) : Prop where
  reason : s.reason = none
  calls : ∀ call ∈ s.calls, call.IsWork

/-- How a sender takes leave of its socket, from a time on. -/
inductive Farewell (setting : Setting) (start : Nat) : List Call → Prop
  /-- The close frame takes too long. -/
  | late {n time : Nat} (h : outcome setting start (setting.sink n) = (.late, time)) :
    Farewell setting start [.send time .close .late]
  /-- The socket is closed behind the close frame, whether that was written or failed, in what is left
  of the time for the close frame. -/
  | shut {n time : Nat} {written : Written}
    (h : outcome setting start (setting.sink n) = (written, time)) (hw : written ≠ .late) :
    Farewell setting start [.send time .close written,
      .close (outcomeBy setting (setting.limit start) time setting.shutting).2]

/-- How a sender has come to its end, after some work. -/
inductive Ended (setting : Setting) (s : State) : Prop
  /-- It had written or reported all commands and found its queue closed. -/
  | closed (work farewell : List Call) (closing start : Nat) (hr : s.reason = some .closed)
    (hw : ∀ call ∈ work, call.IsWork) (hc : s.calls = work ++ farewell) (hq : s.commands = [])
    (ht : setting.closing = some closing) (hs : closing ≤ start)
    (hf : Farewell setting start farewell)
  /-- A text or a ping was not written by its limit. -/
  | late (work farewell : List Call) (frame : Outgoing) (n start : Nat)
    (hr : s.reason = some (.writeTimeout setting.writeTimeout))
    (hw : ∀ call ∈ work, call.IsWork)
    (hc : s.calls = work ++ .send (setting.limit start) frame .late :: farewell)
    (hn : frame ≠ .close)
    (hl : ∀ delay ∈ (setting.sink n).delay?, setting.limit start < setting.clock.wake (start + delay))
    (hf : Farewell setting (setting.limit start) farewell)
  /-- A text or a ping could not be written. -/
  | failed (work : List Call) (frame : Outgoing) (time : Nat) (fault : SocketFault)
    (hr : s.reason = some (.socket fault.message)) (hw : ∀ call ∈ work, call.IsWork)
    (hc : s.calls = work ++ [.send time frame (.failed fault)]) (hn : frame ≠ .close)

theorem finish_eq (setting : Setting) {reason : SessionEnd} (hr : reason.isSocket = false)
    (s : State) :
    ∃ now writes farewell parting, Farewell setting s.now farewell ∧
      s.finish setting reason =
        { s with now, writes, reason := some reason, calls := s.calls ++ farewell, parting } := by
  rw [State.finish]
  simp only [hr, Bool.false_eq_true, if_false]
  obtain ⟨written, time, ho, hsend⟩ := exists_send setting .close { s with reason := some reason }
  rw [hsend]
  cases written with
  | late => exact ⟨time, s.writes + 1, _, s.parting, .late ho, rfl⟩
  | done | failed =>
    simp only [shut_eq, List.append_assoc, List.cons_append, List.nil_append]
    exact ⟨_, s.writes + 1, _, _, .shut ho (by simp), rfl⟩

/-! ## Turns -/

/-- A write leaves a sender at work or ends it. -/
theorem write_cases {frame : Outgoing} (h : Working s) (hn : frame ≠ .close) :
    Working (s.write setting frame) ∨ Ended setting (s.write setting frame) := by
  rw [State.write]
  obtain ⟨written, time, ho, hsend⟩ := exists_send setting frame s
  rw [hsend]
  cases written with
  | done =>
    refine .inl ⟨h.reason, fun call hm => ?_⟩
    rcases List.mem_append.mp hm with hm | hm
    · exact h.calls call hm
    · exact List.mem_singleton.mp hm ▸ ⟨hn, rfl⟩
  | failed fault => exact .inr (.failed s.calls frame time fault rfl h.calls rfl hn)
  | late =>
    obtain ⟨rfl, hlate⟩ := eq_limit_of_late ho
    have hr : (SessionEnd.writeTimeout setting.writeTimeout).isSocket = false := rfl
    obtain ⟨now, writes, farewell, parting, hf, he⟩ := finish_eq setting hr { s with
      now := setting.limit s.now
      writes := s.writes + 1
      calls := s.calls ++ [.send (setting.limit s.now) frame .late] }
    simp only [Written.reason?, he]
    refine .inr (.late s.calls farewell frame s.writes s.now rfl h.calls ?_ hn hlate hf)
    simp only [List.append_assoc, List.cons_append, List.nil_append]

theorem takeCommand_cases (h : Working s) (out : Outbound) :
    Working (s.takeCommand setting out) ∨ Ended setting (s.takeCommand setting out) := by
  rw [State.takeCommand]
  split
  · exact write_cases h (by simp)
  · exact .inl ⟨h.reason, h.calls⟩

theorem le_queueTime {time : Nat} (hq : s.commands = []) (h : s.queueTime setting = some time) :
    ∃ closing, setting.closing = some closing ∧ closing ≤ time := by
  rw [State.queueTime, hq] at h
  obtain ⟨closing, hc, rfl⟩ := Option.map_eq_some_iff.mp h
  exact ⟨closing, hc, Nat.le_max_right _ _⟩

/-- A turn leaves a sender at work or ends it. -/
theorem turn_cases (setting : Setting) (h : Working s) :
    Working (s.turn setting) ∨ Ended setting (s.turn setting) := by
  rw [State.turn, h.reason]
  simp only
  split
  · rename_i hfirst
    obtain ⟨time, htime⟩ : ∃ time, s.queueTime setting = some time := by
      rw [State.queueFirst] at hfirst
      cases ht : s.queueTime setting with
      | none => simp [ht] at hfirst
      | some time => exact ⟨time, rfl⟩
    rw [htime, Option.getD_some, State.takeNext]
    cases hq : s.commands with
    | nil =>
      obtain ⟨closing, hclosing, hle⟩ := le_queueTime hq htime
      have hr : SessionEnd.closed.isSocket = false := rfl
      obtain ⟨now, writes, farewell, parting, hf, he⟩ := finish_eq setting hr { s with
        turns := s.turns + 1, now := time, commands := [], reason := none }
      simp only [he]
      exact .inr (.closed s.calls farewell closing time rfl h.calls rfl rfl hclosing hle hf)
    | cons entry rest =>
      obtain ⟨queued, out⟩ := entry
      have hnext : Working { s with
          turns := s.turns + 1, now := time, commands := rest, reason := none } := ⟨rfl, h.calls⟩
      exact takeCommand_cases hnext out
  · rw [State.ping]
    exact write_cases ⟨rfl, h.calls⟩ (by simp)

theorem Ended.exists_reason (h : Ended setting s) : ∃ reason, s.reason = some reason := by
  cases h with
  | closed _ _ _ _ hr => exact ⟨_, hr⟩
  | late _ _ _ _ _ hr => exact ⟨_, hr⟩
  | failed _ _ _ _ hr => exact ⟨_, hr⟩

theorem after_of_over {reason : SessionEnd} (h : s.reason = some reason) (turns : Nat) :
    s.after setting turns = s := by
  cases turns with
  | zero => rfl
  | succ turns => rw [State.after, h]

/-- A sender is at work or has come to its end. -/
theorem run_cases (setting : Setting) (turns : Nat) :
    Working (run setting turns) ∨ Ended setting (run setting turns) := by
  suffices h : ∀ s, Working s →
      Working (s.after setting turns) ∨ Ended setting (s.after setting turns) from
    h (start setting) ⟨rfl, nofun⟩
  induction turns with
  | zero => exact fun _ h => .inl h
  | succ turns ih =>
    intro s h
    rw [State.after, h.reason]
    rcases turn_cases setting h with h | h
    · exact ih _ h
    · obtain ⟨reason, hr⟩ := h.exists_reason
      simp only [after_of_over hr]
      exact .inr h

/-! ## Frames -/

def Call.frame? : Call → Option Outgoing
  | .send _ frame _ => some frame
  | .close _ => none

/-- The frames that a sender has handed to its socket, in order. -/
def State.frames (s : State) : List Outgoing := s.calls.filterMap Call.frame?

theorem frames_of_work {work : List Call} (h : ∀ call ∈ work, call.IsWork) :
    .close ∉ work.filterMap Call.frame? := by
  intro hm
  obtain ⟨call, hc, hf⟩ := List.mem_filterMap.mp hm
  cases call with
  | send time frame written => exact (h _ hc).1 (Option.some.inj hf)
  | close time => exact h _ hc

theorem Farewell.frames {start : Nat} {calls : List Call} (h : Farewell setting start calls) :
    calls.filterMap Call.frame? = [.close] := by
  cases h <;> rfl

theorem Ended.frames (h : Ended setting s) :
    ∃ sent, .close ∉ sent ∧
      (s.frames = sent ++ [.close] ∧
          (s.reason = some .closed ∨ s.reason = some (.writeTimeout setting.writeTimeout)) ∨
        s.frames = sent ∧ ∃ fault : SocketFault, s.reason = some (.socket fault.message)) := by
  cases h with
  | closed work farewell closing start hr hw hc hq ht hs hf =>
    refine ⟨work.filterMap Call.frame?, frames_of_work hw, .inl ⟨?_, .inl hr⟩⟩
    rw [State.frames, hc, List.filterMap_append, hf.frames]
  | late work farewell frame n start hr hw hc hn hl hf =>
    refine ⟨work.filterMap Call.frame? ++ [frame], ?_, .inl ⟨?_, .inr hr⟩⟩
    · rw [List.mem_append, List.mem_singleton]
      exact fun hm => hm.elim (frames_of_work hw) fun he => hn he.symm
    · rw [State.frames, hc, List.filterMap_append, List.append_assoc]
      exact congrArg (_ ++ frame :: ·) hf.frames
  | failed work frame time fault hr hw hc hn =>
    refine ⟨work.filterMap Call.frame? ++ [frame], ?_, .inr ⟨?_, fault, hr⟩⟩
    · rw [List.mem_append, List.mem_singleton]
      exact fun hm => hm.elim (frames_of_work hw) fun he => hn he.symm
    · rw [State.frames, hc, List.filterMap_append]
      rfl

/-- How a sender that has made so many turns at most parts from its socket. -/
structure PartsInOrder (setting : Setting) (s : State) : Prop where
  /-- Texts and pings come first, at most one close frame follows, and nothing follows that. -/
  order : ∃ sent, .close ∉ sent ∧ (s.frames = sent ∨ s.frames = sent ++ [.close])
  /-- A close frame is tried just if the queue was closed or a write was late. -/
  closes : .close ∈ s.frames ↔
    s.reason = some .closed ∨ s.reason = some (.writeTimeout setting.writeTimeout)
  broken : ∀ message, s.reason = some (.socket message) → .close ∉ s.frames
  /-- A sender is over only as it found its queue closed, or as a write was late or failed. -/
  returns : ∀ reason, s.reason = some reason → Ended setting s
  /-- As long as it is not, all its writes have succeeded. -/
  works : s.reason = none → ∀ call ∈ s.calls, call.IsWork

/-- **A sender tries a close frame last**, and only if its socket has not failed. -/
theorem partsInOrder (setting : Setting) (turns : Nat) :
    PartsInOrder setting (run setting turns) := by
  have hcases := run_cases setting turns
  generalize run setting turns = s at hcases ⊢
  rcases hcases with h | h
  · have hnone : .close ∉ s.frames := frames_of_work h.calls
    exact
      { order := ⟨s.frames, hnone, .inl rfl⟩
        closes := ⟨fun hm => absurd hm hnone, fun hr => by simp [h.reason] at hr⟩
        broken := fun _ _ => hnone
        returns := fun reason hr => by simp [h.reason] at hr
        works := fun _ => h.calls }
  · obtain ⟨reason, hover⟩ := h.exists_reason
    obtain ⟨sent, hsent, ⟨hf, hr⟩ | ⟨hf, fault, hr⟩⟩ := h.frames
    · exact
        { order := ⟨sent, hsent, .inr hf⟩
          closes := ⟨fun _ => hr, fun _ => hf ▸ List.mem_append_right _ (List.mem_singleton_self _)⟩
          broken := fun message hb => by rcases hr with hr | hr <;> simp [hr] at hb
          returns := fun _ _ => h
          works := fun hn => by simp [hover] at hn }
    · exact
        { order := ⟨sent, hsent, .inl hf⟩
          closes := ⟨fun hm => absurd (hf ▸ hm) hsent, fun hc => by simp [hr] at hc⟩
          broken := fun _ _ => hf ▸ hsent
          returns := fun _ _ => h
          works := fun hn => by simp [hover] at hn }

/-! ## Faults -/

/-- Nothing is done to a socket that has failed. -/
def LeftAlone (calls : List Call) : Prop :=
  ∀ before time frame fault after,
    calls = before ++ .send time frame (.failed fault) :: after → after = []

theorem split_behind {work rest before after : List Call} {call : Call}
    (hw : ∀ call ∈ work, call.IsWork) (hn : ¬ call.IsWork)
    (h : work ++ rest = before ++ call :: after) :
    ∃ between, rest = between ++ call :: after := by
  rcases List.append_eq_append_iff.mp h with ⟨between, rfl, hrest⟩ | ⟨between, rfl, hrest⟩
  · exact ⟨between, hrest⟩
  · cases between with
    | nil => exact ⟨[], hrest.symm⟩
    | cons first between =>
      obtain ⟨rfl, -⟩ := List.cons.inj hrest
      exact absurd (hw _ (List.mem_append_right _ List.mem_cons_self)) hn

/-- What a sender does behind a call that is not work. -/
inductive Behind (setting : Setting) : Call → List Call → Prop
  | failed {time : Nat} {frame : Outgoing} {fault : SocketFault} (hn : frame ≠ .close) :
    Behind setting (.send time frame (.failed fault)) []
  /-- Behind a write that was late it takes leave. -/
  | late {time : Nat} {frame : Outgoing} {after : List Call} :
    Behind setting (.send time frame .late) after
  | parting {start n time : Nat} {written : Written}
    (h : outcome setting start (setting.sink n) = (written, time)) (hw : written ≠ .late) :
    Behind setting (.send time .close written)
      [.close (outcomeBy setting (setting.limit start) time setting.shutting).2]
  | closed {time : Nat} : Behind setting (.close time) []

theorem Farewell.behind {start : Nat} {call : Call} {calls before after : List Call}
    (h : Farewell setting start calls) (he : calls = before ++ call :: after) :
    Behind setting call after := by
  cases h with
  | late _ =>
    obtain ⟨-, he⟩ | ⟨_, -, he⟩ := List.cons_eq_append_iff.mp he
    · cases he
      exact .late
    · simp at he
  | shut h hw =>
    obtain ⟨-, he⟩ | ⟨_, -, he⟩ := List.cons_eq_append_iff.mp he
    · cases he
      exact .parting h hw
    · obtain ⟨-, he⟩ | ⟨_, -, he⟩ := List.cons_eq_append_iff.mp he
      · cases he
        exact .closed
      · simp at he

theorem Ended.behind {call : Call} {before after : List Call} (h : Ended setting s)
    (hcall : ¬ call.IsWork) (he : s.calls = before ++ call :: after) :
    Behind setting call after := by
  cases h with
  | closed work farewell closing start hr hw hc hq ht hs hf =>
    obtain ⟨between, hrest⟩ := split_behind hw hcall (hc ▸ he)
    exact hf.behind hrest
  | late work farewell frame n start hr hw hc hn hl hf =>
    obtain ⟨between, hrest⟩ := split_behind hw hcall (hc ▸ he)
    obtain ⟨-, hrest⟩ | ⟨between, -, hrest⟩ := List.cons_eq_append_iff.mp hrest
    · cases hrest
      exact .late
    · exact hf.behind hrest
  | failed work frame time fault hr hw hc hn =>
    obtain ⟨between, hrest⟩ := split_behind hw hcall (hc ▸ he)
    obtain ⟨-, hrest⟩ | ⟨between, -, hrest⟩ := List.cons_eq_append_iff.mp hrest
    · cases hrest
      exact .failed hn
    · simp at hrest

/-- What becomes of a socket that has failed. -/
structure LeftAloneUnlessClosing (setting : Setting) (calls : List Call) : Prop where
  /-- Nothing is done to it any more after a text or a ping. -/
  work : ∀ before time frame fault after, frame ≠ .close →
    calls = before ++ .send time frame (.failed fault) :: after → after = []
  /-- It is closed after a close frame, in what is left of the time for that; so it is closed at once
  if closing takes no time. -/
  close : ∀ before time fault after,
    calls = before ++ .send time .close (.failed fault) :: after →
      (∃ start n, outcome setting start (setting.sink n) = (.failed fault, time) ∧
        after = [.close (outcomeBy setting (setting.limit start) time setting.shutting).2]) ∧
      (setting.shutting = .after 0 → after = [.close time])
  /-- It is closed last, whatever comes of that. -/
  closed : ∀ before time after, calls = before ++ .close time :: after → after = []
  /-- So it is left alone just if no close frame fails. -/
  leftAlone_iff : LeftAlone calls ↔ ∀ time fault, .send time .close (.failed fault) ∉ calls

theorem behind_of_calls (h : Working s ∨ Ended setting s) {call : Call} {before after : List Call}
    (hcall : ¬ call.IsWork) (he : s.calls = before ++ call :: after) :
    Behind setting call after := by
  rcases h with h | h
  · exact absurd (h.calls call (he ▸ List.mem_append_right _ List.mem_cons_self)) hcall
  · exact h.behind hcall he

theorem after_failure (h : Working s ∨ Ended setting s) {before after : List Call} {time : Nat}
    {frame : Outgoing} {fault : SocketFault}
    (he : s.calls = before ++ .send time frame (.failed fault) :: after) :
    after = [] ∧ frame ≠ .close ∨
      frame = .close ∧ ∃ start n, outcome setting start (setting.sink n) = (.failed fault, time) ∧
        after = [.close (outcomeBy setting (setting.limit start) time setting.shutting).2] := by
  have hcall : ¬ (Call.send time frame (.failed fault)).IsWork := fun h => nomatch h.2
  cases behind_of_calls h hcall he with
  | failed hn => exact .inl ⟨rfl, hn⟩
  | parting ho _ => exact .inr ⟨rfl, _, _, ho, rfl⟩

/-- **A socket that has failed is left alone**, unless it failed at the close frame. -/
theorem leftAloneUnlessClosing (setting : Setting) (turns : Nat) :
    LeftAloneUnlessClosing setting (run setting turns).calls := by
  have hcases := run_cases setting turns
  generalize run setting turns = s at hcases ⊢
  have hleft : LeftAlone s.calls ↔ ∀ time fault, .send time .close (.failed fault) ∉ s.calls := by
    constructor
    · intro h time fault hm
      obtain ⟨before, after, he⟩ := List.append_of_mem hm
      rcases after_failure hcases he with ⟨-, hf⟩ | ⟨-, _, _, -, rfl⟩
      · exact hf rfl
      · exact absurd (h _ _ _ _ _ he) (by simp)
    · intro h before time frame fault after he
      rcases after_failure hcases he with ⟨ha, -⟩ | ⟨rfl, -⟩
      · exact ha
      · exact absurd (he ▸ List.mem_append_right _ List.mem_cons_self) (h time fault)
  exact
    { work := fun _ _ _ _ _ hn he => ((after_failure hcases he).resolve_right fun ha => hn ha.1).1
      close := fun _ time _ _ he => by
        obtain ⟨-, start, n, ho, ha⟩ := (after_failure hcases he).resolve_left fun ha => ha.2 rfl
        refine ⟨⟨start, n, ho, ha⟩, fun hs => ?_⟩
        rw [ha, hs, outcomeBy_at_once ho (by simp)]
      closed := fun _ _ _ he => by
        cases behind_of_calls hcases id he with
        | closed => rfl
      leftAlone_iff := hleft }

/-- A sender whose queue is closed after a while, with a socket that fails. -/
def brokenFromTheStart : Setting where
  clock := .millis
  pingInterval := .ofMillis 5000
  writeTimeout := .ofMillis 10000
  sink := fun _ => .fails .connectionClosed
  ties := fun _ => true
  commands := []
  closing := some (Duration.ofMillis 100).nanos

/-- **A socket that has failed is closed all the same** when it fails at the close frame. -/
theorem closed_of_brokenFromTheStart : ¬ LeftAlone (run brokenFromTheStart 1).calls := by
  have hcalls : (run brokenFromTheStart 1).calls =
      [.send 100000000 .close (.failed .connectionClosed), .close 100000000] := by cbv
  intro h
  exact absurd (h [] _ _ _ _ hcalls) (by simp)

end LedgerClient.Sender
