import LedgerClient.Proofs.Session.Stopping
import LedgerClient.Session.Supervisor

/-!
# Why a session is over

What is said about the end of a session is true. It is said once, after the dispatcher and the writer
have stopped, and by then the reader has stopped or is given up, so nothing that it was judged by
changes any more (`published_run`). Whether it is true is a matter of the reasons for which the tasks
stop: the cases are those of the dispatcher, and in none of them can a reason that means "closed on
this side" come from a task that stopped only because another one had.
-/

namespace LedgerClient

namespace Session

variable {s s' : Session}

/-! ## Saying so -/

/-- What is said about the end of a session in a moment. -/
def published? (s : Session) : Moment → Option SessionEnd
  | .conclude => s.conclude.bind (·.ending)
  | _ => none

/-- What is said about the end of a session in a run, in order. -/
def published (s : Session) (moments : List Moment) : List SessionEnd :=
  trail live (fun s m => (s.published? m).toList) s moments

/-- Why a session is over, as its tasks have it that have stopped. -/
structure Judged (s : Session) (reason : SessionEnd) : Prop where
  stopped : ∃ shutdown written, s.dispatcher.phase = .stopped shutdown ∧
    s.writer.reason? = some written ∧ reason = judge shutdown s.reader.reason? written
  done : s.reader.isDone = true

theorem reason?_giveUp (r : Reader) (d : Dispatcher) :
    (r.giveUp d).1.reason? = r.reason? ∧ (r.giveUp d).1.isDone = true := by
  cases r <;> exact ⟨rfl, rfl⟩

theorem phase_giveUp (r : Reader) (d : Dispatcher) : (r.giveUp d).2.phase = d.phase := by
  cases r <;> rfl

theorem ending_step {m : Moment} (hm : m ≠ .conclude) (hs : s.step m = some s') :
    s'.ending = s.ending := by
  have hsettle (s : Session) : s.settleIntake.ending = s.ending := by
    obtain ⟨intake, he, -⟩ := settleIntake_eq s
    rw [he]
  cases step_cases hs with
  | conclude => exact absurd rfl hm
  | enqueue | refuse | expire | shut | disown => exact hsettle _
  | _ => rfl

theorem writer_live {written : SessionEnd} (h : s.writer.reason? = some written) (m : Moment) :
    (s.live m).writer.reason? = some written := by
  have hstopped : s.writer.phase = .stopped written := by
    unfold Writer.reason? at h
    split at h
    · rename_i hp
      rw [hp, Option.some.inj h]
    · cases h
  have hsettle (s : Session) : s.settleIntake.writer = s.writer := by
    obtain ⟨intake, he, -⟩ := settleIntake_eq s
    rw [he]
  refine live_of_kept (P := (·.writer.reason? = some written)) h ?_
  intro s' hs
  cases step_cases hs with
  | take hr => cases hstopped.symm.trans (Writer.takes_of_take hr).1
  | ping hw => cases hstopped.symm.trans (Writer.ping_eq_some hw).1
  | written hr =>
    rw [Writer.learn, hstopped] at hr
    cases hr
  | enqueue | refuse | expire | shut | disown =>
    exact (congrArg Writer.reason? (hsettle _)).trans h
  | _ => exact h

theorem Judged.live {reason : SessionEnd} (h : s.Judged reason) (m : Moment) :
    (s.live m).Judged reason := by
  obtain ⟨⟨shutdown, written, hp, hw, hj⟩, hdone⟩ := h
  have hreader := reader_live hdone m
  refine ⟨⟨shutdown, written, stopped_live hp m, writer_live hw m, ?_⟩, ?_⟩
  · rw [hreader]
    exact hj
  · rw [hreader]
    exact hdone

/-- It is said once why a session is over, and by the reasons of tasks that have stopped. -/
theorem judged_live (h : ∀ reason, s.ending = some reason → s.Judged reason) (m : Moment) :
    s.ending.toList ++ (s.published? m).toList = (s.live m).ending.toList ∧
      ∀ reason, (s.live m).ending = some reason → (s.live m).Judged reason := by
  cases hs : s.step m with
  | none =>
    have hnone : s.published? m = none := by
      cases m with
      | conclude =>
        rw [published?, show s.conclude = none from hs]
        rfl
      | _ => rfl
    rw [live_of_none hs, hnone]
    exact ⟨List.append_nil _, h⟩
  | some s' =>
    by_cases hm : m = .conclude
    · subst hm
      have hpub : s.published? .conclude = s'.ending := by
        rw [published?, show s.conclude = some s' from hs]
        rfl
      rw [live_of_step hs, hpub]
      cases step_cases hs with
      | @conclude shutdown written he hp hw =>
        rw [he]
        refine ⟨rfl, ?_⟩
        intro reason hr
        obtain rfl := Option.some.inj hr
        obtain ⟨hreason, hdone⟩ := reason?_giveUp s.reader s.dispatcher
        refine ⟨⟨shutdown, written, ?_, hw, ?_⟩, hdone⟩
        · exact (phase_giveUp _ _).trans hp
        · show judge shutdown s.reader.reason? written =
            judge shutdown (s.reader.giveUp s.dispatcher).1.reason? written
          rw [hreason]
    · have hnone : s.published? m = none := by
        cases m with
        | conclude => exact absurd rfl hm
        | _ => rfl
      have he := ending_step hm hs
      rw [← live_of_step hs] at he
      rw [hnone, he]
      exact ⟨List.append_nil _, fun reason hr => (h reason hr).live m⟩

theorem published_run (settings : Connection.Settings) (moments : List Moment) :
    (start settings).published moments = ((start settings).run moments).ending.toList ∧
      ∀ reason, ((start settings).run moments).ending = some reason →
        ((start settings).run moments).Judged reason := by
  induction moments using List.reverseRecOn with
  | nil => exact ⟨rfl, fun reason h => by cases h⟩
  | append_singleton moments m ih =>
    obtain ⟨hp, hj⟩ := ih
    obtain ⟨hp', hj'⟩ := judged_live hj m
    rw [run_concat]
    refine ⟨?_, hj'⟩
    rw [← hp', ← hp]
    exact trail_concat _ _ _

theorem ending_live {reason : SessionEnd} (h : s.ending = some reason) (m : Moment) :
    (s.live m).ending = some reason := by
  refine live_of_kept (P := (·.ending = some reason)) h ?_
  intro s' hs
  by_cases hm : m = .conclude
  · subst hm
    rw [step, conclude, h] at hs
    cases hs
  · rw [ending_step hm hs]
    exact h

theorem isFinished_iff : s.isFinished = true ↔
    (∃ shutdown, s.dispatcher.phase = .stopped shutdown) ∧ s.writer.reason?.isSome = true := by
  unfold isFinished
  constructor
  · intro h
    split at h
    · rename_i shutdown written hp hw
      exact ⟨⟨shutdown, hp⟩, by rw [hw]; rfl⟩
    · cases h
  · rintro ⟨⟨shutdown, hp⟩, hw⟩
    obtain ⟨written, hw⟩ := Option.isSome_iff_exists.mp hw
    rw [hp, hw]

theorem isFinished_live (h : s.isFinished = true) (m : Moment) : (s.live m).isFinished = true := by
  obtain ⟨⟨shutdown, hp⟩, hw⟩ := isFinished_iff.mp h
  obtain ⟨written, hw⟩ := Option.isSome_iff_exists.mp hw
  refine isFinished_iff.mpr ⟨⟨shutdown, stopped_live hp m⟩, ?_⟩
  rw [writer_live hw m]
  rfl

/-! ## Coming to the end -/

/-- How far a writer is from its stop, if nothing is added to its queue and no ping comes between. -/
def remaining (s : Session) : Nat :=
  match s.writer.phase with
  | .stopped _ => 0
  | .closing _ => 1
  | .idle => 2 * s.dispatcher.outbound.items.length + 2
  | .writing => 2 * s.dispatcher.outbound.items.length + 3

/-- The session after the writer has gone on by itself for so many moments, the socket coming to these
ends with what it is given. -/
def goOn (outcomes : Nat → Sender.Written) : Nat → Session → Session
  | 0, s => s
  | n + 1, s => goOn (fun i => outcomes (i + 1)) n (s.live (s.next (outcomes 0)))

/-- The writer gets on: once the dispatcher has stopped, each of its moments takes it closer to its
own stop. -/
theorem remaining_lt {shutdown : Shutdown} (h : Linked s.writer s.dispatcher)
    (hp : s.dispatcher.phase = .stopped shutdown) (hw : s.writer.reason? = none)
    (written : Sender.Written) : (s.live (s.next written)).remaining < s.remaining := by
  have hunfed : s.dispatcher.outbound.hasSender = false := by
    by_contra hs
    rw [Bool.not_eq_false] at hs
    exact h.fed.mp hs shutdown hp
  cases hphase : s.writer.phase with
  | stopped reason =>
    rw [Writer.reason?, hphase] at hw
    cases hw
  | idle =>
    have hnext : s.next written = .take := by rw [next, hphase]
    have hbefore : s.remaining = 2 * s.dispatcher.outbound.items.length + 2 := by
      rw [remaining, hphase]
    rw [hnext, hbefore]
    cases hi : s.dispatcher.outbound.items with
    | nil =>
      have htake : s.step .take = some (s.withWriter (s.writer.finish .closed s.dispatcher)) := by
        rw [step, Writer.take, hphase, Mailbox.head, hi, hunfed]
        rfl
      rw [live_of_step htake]
      show 1 < 2 * 0 + 2
      decide
    | cons first rest =>
      obtain ⟨-, -, hqueue⟩ := live_take hphase (by rw [hi]; rfl : _ = some first)
      have hlength : (s.live .take).dispatcher.outbound.items.length = rest.length := by
        rw [hqueue, Dispatcher.dropHead, hi]
        rfl
      have hafter : (s.live .take).remaining ≤
          2 * (s.live .take).dispatcher.outbound.items.length + 3 := by
        unfold remaining
        split <;> omega
      rw [hlength] at hafter
      rw [List.length_cons]
      omega
  | writing =>
    have hbusy : s.writer.isBusy = true := by rw [Writer.isBusy, hphase]
    have hnext : s.next written = .written written := by rw [next, hphase]
    have hbefore : s.remaining = 2 * s.dispatcher.outbound.items.length + 3 := by
      rw [remaining, hphase]
    obtain ⟨r, hr, hs⟩ := live_written hbusy written
    rw [hnext, hbefore, live_of_step hs]
    cases Writer.learns_of_learn hr with
    | done => exact Nat.lt_succ_self _
    | failed => exact Nat.succ_pos _
    | late =>
      show 1 < 2 * s.dispatcher.outbound.items.length + 3
      omega
    | closed _ _ hc => cases hphase.symm.trans hc
  | closing reason =>
    have hbusy : s.writer.isBusy = true := by rw [Writer.isBusy, hphase]
    have hnext : s.next written = .written written := by rw [next, hphase]
    have hbefore : s.remaining = 1 := by rw [remaining, hphase]
    obtain ⟨r, hr, hs⟩ := live_written hbusy written
    rw [hnext, hbefore, live_of_step hs]
    cases Writer.learns_of_learn hr with
    | closed => exact Nat.zero_lt_one
    | done hc | failed _ _ hc | late _ _ hc => cases hphase.symm.trans hc

theorem stopped_of_goOn {shutdown : Shutdown} (h : Linked s.writer s.dispatcher)
    (hp : s.dispatcher.phase = .stopped shutdown) (outcomes : Nat → Sender.Written) :
    ∃ n ≤ s.remaining, (s.goOn outcomes n).dispatcher.phase = .stopped shutdown ∧
      (s.goOn outcomes n).writer.reason?.isSome = true := by
  induction hn : s.remaining using Nat.strongRecOn generalizing s outcomes with
  | ind n ih =>
    cases hw : s.writer.reason? with
    | some reason =>
      refine ⟨0, Nat.zero_le _, hp, ?_⟩
      show s.writer.reason?.isSome = true
      rw [hw]
      rfl
    | none =>
      have hlt := remaining_lt h hp hw (outcomes 0)
      have hlinked : Linked (s.live (s.next (outcomes 0))).writer
          (s.live (s.next (outcomes 0))).dispatcher :=
        live_of_kept (P := fun s => Linked s.writer s.dispatcher) h (linked_step h)
      rw [hn] at hlt
      obtain ⟨k, hk, hphase, hreason⟩ := ih _ hlt hlinked (stopped_live hp _)
        (fun i => outcomes (i + 1)) rfl
      exact ⟨k + 1, by omega, hphase, hreason⟩

theorem ending_of_conclude {shutdown : Shutdown} (hp : s.dispatcher.phase = .stopped shutdown)
    (hw : s.writer.reason?.isSome = true) : (s.live .conclude).ending.isSome = true := by
  obtain ⟨written, hw⟩ := Option.isSome_iff_exists.mp hw
  cases he : s.ending with
  | some reason =>
    have hnone : s.step .conclude = none := by rw [step, conclude, he]
    rw [live_of_none hnone, he]
    rfl
  | none =>
    have hsome : s.step .conclude = some { s.withReader (s.reader.giveUp s.dispatcher) with
        ending := some (judge shutdown s.reader.reason? written) } := by
      rw [step, conclude, he, hp, hw]
      rfl
    rw [live_of_step hsome]
    rfl

/-! ## The reasons -/

theorem judge_of_ne_closed {shutdown : Shutdown} {read : Option SessionEnd}
    {written : SessionEnd} (h : shutdown ≠ .closed) :
    judge shutdown read written =
      (match read with
        | some reason => if reason = .closed then written else reason
        | none => written) := by
  cases shutdown with
  | closed => exact absurd rfl h
  | _ => cases read <;> rfl

/-- Why a session is over, in one run of it. -/
structure EndOf (settings : Connection.Settings) (moments : List Moment) (s : Session) : Prop where
  /-- It is said at most once, and that stands. -/
  once : (start settings).published moments = s.ending.toList
  /-- By then the dispatcher and the writer have stopped, and the reader has or is given up. -/
  stopped : ∀ reason, s.ending = some reason → s.Judged reason
  /-- It can be said as soon as they have, and the writer stops within so many moments of its own after
  the dispatcher, whatever comes of its writes. -/
  reached : ∀ shutdown, s.dispatcher.phase = .stopped shutdown → ∀ outcomes, ∃ n ≤ s.remaining,
    ((s.goOn outcomes n).live .conclude).ending.isSome = true
  /-- The session is said to be closed on this side only if its dispatcher was closed, and that only
  if one of its owners has parted with it. -/
  closed : s.dispatcher.phase = .stopped .closed ∨ s.ending = some .closed →
    s.dispatcher.phase = .stopped .closed ∧ s.isOpen = false ∧ (∃ m ∈ moments, m.isParting = true) ∧
      ∀ reason, s.ending = some reason → reason = .closed
  /-- If there were no more frames to come, the reader has stopped with a reason of its own, and that
  is why. -/
  framesEnded : s.dispatcher.phase = .stopped .framesEnded → ∃ read, s.reader = .stopped read ∧
    (read = .closedByPeer ∨ read = .livenessExpired settings.livenessWindow ∨
      ∃ fault : SocketFault, read = .socket fault.message) ∧
    ∀ reason, s.ending = some reason → reason = read
  /-- If the writer was missed, it has stopped with a reason of its own. The reason of the reader goes
  first if the reader has said one that is its own. -/
  writerGone : s.dispatcher.phase = .stopped .writerGone → ∃ written,
    s.writer.reason? = some written ∧ written ≠ .closed ∧
    ∀ reason, s.ending = some reason →
      reason = (match s.reader.reason? with
        | some read => if read = .closed then written else read
        | none => written)
  /-- A session that was lost is not said to be closed on this side. -/
  lost : ∀ shutdown, s.dispatcher.phase = .stopped shutdown → shutdown ≠ .closed →
    s.ending ≠ some .closed

theorem endOf (settings : Connection.Settings) (moments : List Moment) :
    EndOf settings moments ((start settings).run moments) := by
  obtain ⟨honce, hjudged⟩ := published_run settings moments
  have hlinked := linked_run settings moments
  obtain ⟨hopen, howned⟩ := owned_run settings moments
  have hframes := reader_of_framesEnded settings moments
  have haccount := account_run settings moments
  generalize (start settings).run moments = s at honce hjudged hlinked hopen howned hframes haccount ⊢
  -- with the phase of the dispatcher given, the verdict is that of the two other tasks
  have hverdict {shutdown : Shutdown} {reason : SessionEnd} (hp : s.dispatcher.phase = .stopped shutdown)
      (hr : s.ending = some reason) : ∃ written, s.writer.reason? = some written ∧
        reason = judge shutdown s.reader.reason? written := by
    obtain ⟨⟨shutdown', written, hp', hw, hj⟩, -⟩ := hjudged reason hr
    obtain rfl : shutdown = shutdown' := Phase.stopped.inj (hp.symm.trans hp')
    exact ⟨written, hw, hj⟩
  have hended : s.dispatcher.phase = .stopped .framesEnded → ∃ read, s.reader = .stopped read ∧
      read ≠ .closed ∧ ∀ reason, s.ending = some reason → reason = read := by
    intro hp
    obtain ⟨read, hreader, hne⟩ := hframes hp
    refine ⟨read, hreader, hne, ?_⟩
    intro reason hr
    obtain ⟨written, -, hj⟩ := hverdict hp hr
    rw [judge_of_ne_closed (by simp), hreader] at hj
    exact hj.trans (if_neg hne)
  have hmissed : s.dispatcher.phase = .stopped .writerGone → ∃ written,
      s.writer.reason? = some written ∧ written ≠ .closed ∧
      ∀ reason, s.ending = some reason →
        reason = (match s.reader.reason? with
          | some read => if read = .closed then written else read
          | none => written) := by
    intro hp
    obtain ⟨written, hw, hne⟩ := hlinked.gone hp
    refine ⟨written, hw, hne, ?_⟩
    intro reason hr
    obtain ⟨written', hw', hj⟩ := hverdict hp hr
    obtain rfl : written = written' := Option.some.inj (hw.symm.trans hw')
    rw [judge_of_ne_closed (by simp)] at hj
    exact hj
  have hlost : ∀ shutdown, s.dispatcher.phase = .stopped shutdown → shutdown ≠ .closed →
      s.ending ≠ some .closed := by
    intro shutdown hp hne he
    cases shutdown with
    | closed => exact hne rfl
    | framesEnded =>
      obtain ⟨read, -, hread, hreason⟩ := hended hp
      exact hread (hreason _ he).symm
    | writerGone =>
      obtain ⟨written, -, hwritten, hreason⟩ := hmissed hp
      have hclosed := hreason _ he
      split at hclosed
      · split at hclosed
        · exact hwritten hclosed.symm
        · rename_i hread
          exact hread hclosed.symm
      · exact hwritten hclosed.symm
  refine ⟨honce, hjudged, ?_, ?_, ?_, hmissed, hlost⟩
  · intro shutdown hp outcomes
    obtain ⟨n, hn, hphase, hreason⟩ := stopped_of_goOn hlinked hp outcomes
    exact ⟨n, hn, ending_of_conclude hphase hreason⟩
  · intro h
    have hp : s.dispatcher.phase = .stopped .closed := by
      rcases h with hp | he
      · exact hp
      · obtain ⟨⟨shutdown, written, hp, -, -⟩, -⟩ := hjudged _ he
        by_cases hne : shutdown = .closed
        · rw [hp, hne]
        · exact absurd he (hlost shutdown hp hne)
    have hshut : s.isOpen = false := by
      by_contra ho
      rw [Bool.not_eq_false] at ho
      exact (howned ho).phase hp
    refine ⟨hp, hshut, ?_, ?_⟩
    · by_contra hnone
      have hall : ∀ m ∈ moments, m.isParting = false := by
        intro m hm
        by_contra hparting
        rw [Bool.not_eq_false] at hparting
        exact hnone ⟨m, hm, hparting⟩
      rw [hopen hall] at hshut
      cases hshut
    · intro reason hr
      obtain ⟨written, -, hj⟩ := hverdict hp hr
      exact hj
  · intro hp
    obtain ⟨read, hreader, hne, hreason⟩ := hended hp
    rw [hreader] at haccount
    exact ⟨read, hreader, haccount.cause hne, hreason⟩

end Session

end LedgerClient
