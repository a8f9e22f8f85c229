import LedgerClient.Proofs.Session.Dialogue
import LedgerClient.Proofs.Session.Ending
import LedgerClient.Proofs.Session.HeldUp
import LedgerClient.Shell.Client
import LedgerClient.Shell.Monitor

/-!
# Programs and their sessions

The programs are written over a conversation, which is there as a whole before they begin. Here the
conversation is what a session has brought while its program went on beside it. The monitor and the
watching client print the events that their session has handed out, and end as it does
(`follow_of_watch`, `watch_of_watch`). A client with one call prints the report on the reply to it
(`once_of_dialogue`), and a prompt prints what its lines come to with the results of a caller that
makes the calls of these lines one after the other (`talk_of_dialogue`).
-/

namespace LedgerClient

open scoped List

/-! ## A session with a single call -/

namespace Watch

variable {settings : Connection.Settings} {interest : Interest} {w : Watch}
  {answer : Except ClientError Outcome}

theorem answer?_live {session : Session} {m : Session.Moment} (h : w.session.Attended)
    (hc : w.session.Counted) (hm : isInner m = true ∨ m = .takeEvent)
    (hs : w.session.step m = some session) (ha : w.answer? = some answer) :
    ({ w with session } : Watch).answer? = some answer := by
  obtain ⟨x, reply, hx, hr, rfl⟩ := answer?_eq_some ha
  have hentered : w.session.entered = [] := by
    cases h.lone with
    | entered command he hx' => simp [hx] at hx'
    | numbered y he => exact he
  have hadmitted : w.session.admitted? m = none := by
    rcases hm with hm | rfl
    · cases m with
      | enter call => cases hm
      | _ => rfl
    · rfl
  have hsettled : w.session.Settled [x] [] := by
    refine ⟨fun y hy => ?_, [], hx, ?_⟩
    · rw [List.mem_singleton.mp hy, hr]
      rfl
    · rw [hentered]
      exact .refl _
  have hlive := (Session.settled_live hsettled hc.nodup hadmitted).eq_of_nil.1
  rw [Session.live_of_step hs] at hlive
  obtain ⟨id, command, stage⟩ := x
  obtain rfl : stage = .returned reply := hr
  rw [answer?, hlive]

/-- What the phase of a monitor says of its call, its session and what it has printed. -/
def Phase.Suits (w : Watch) : Phase → Prop
  | .asking => w.printed = []
  | .failed e => w.printed = [] ∧ w.answer? = some (.error e)
  | .following => ∃ result, w.answer? = some (.ok result)
  | .over reason => w.session.ending = some reason ∧ ∃ result, w.answer? = some (.ok result)

theorem Phase.Suits.result {phase : Phase} {reason : SessionEnd} (h : phase.Suits w)
    (hp : phase = .following ∨ phase = .over reason) : ∃ result, w.answer? = some (.ok result) := by
  obtain rfl | rfl := hp
  · exact h
  · exact h.2

theorem suits_live (h : w.session.Attended) (hc : w.session.Counted) (hp : w.phase.Suits w)
    (m : Moment) : (w.live m).phase.Suits (w.live m) := by
  cases hs : w.step m with
  | none =>
    rw [live_of_none hs]
    exact hp
  | some w' =>
    rw [live_of_step hs]
    cases step_cases hs with
    | @within inner session hi hsession =>
      have hanswer {answer} (ha : w.answer? = some answer) :
          ({ w with session } : Watch).answer? = some answer :=
        answer?_live h hc (.inl hi) hsession ha
      have hending {reason : SessionEnd} (he : w.session.ending = some reason) :
          session.ending = some reason := by
        rw [← Session.live_of_step hsession]
        exact Session.ending_live he inner
      show Phase.Suits { w with session } w.phase
      revert hp
      cases w.phase with
      | asking => exact id
      | failed e => exact And.imp_right hanswer
      | following => exact Exists.imp fun _ => hanswer
      | «over» reason => exact And.imp hending (Exists.imp fun _ => hanswer)
    | @succeed result _ ha => exact ⟨result, ha⟩
    | @fail e hasking ha =>
      rw [hasking] at hp
      exact ⟨hp, ha⟩
    | @print event session hfollowing ht =>
      rw [hfollowing] at hp ⊢
      obtain ⟨result, ha⟩ := hp
      have hstep : w.session.step .takeEvent = some session := by
        rw [Session.step, ht]
        rfl
      exact ⟨result, answer?_live h hc (.inr rfl) hstep ha⟩
    | @finish reason hfollowing _ he =>
      rw [hfollowing] at hp
      exact ⟨he, hp⟩

theorem suits_run (settings : Connection.Settings) (interest : Interest) (moments : List Moment) :
    ((start settings interest).run moments).phase.Suits ((start settings interest).run moments) := by
  induction moments using List.reverseRecOn with
  | nil => rfl
  | append_singleton moments m ih =>
    rw [run_concat]
    refine suits_live (attended_run settings interest moments) ?_ ih m
    rw [session_eq]
    exact Session.counted_run settings _

theorem call_of_answer (ha : w.answer? = some answer) (streams : List Stream.Category)
    (accounts : List String) (events : List Stream.Event) (reason : SessionEnd) :
    (w.session.conversation events reason).call (.subscribe streams accounts) =
      (answer, ⟨[], events, reason, false⟩) := by
  obtain ⟨x, reply, hx, hr, rfl⟩ := answer?_eq_some ha
  have hreplies : w.session.replies = [reply] := by
    rw [Session.replies, hx, List.filterMap_cons_some (by rw [Exchange.reply?, hr])]
    rfl
  simp only [Conversation.call, Call.command?, Session.conversation, hreplies]

end Watch

namespace Shell

/-! ## Programs that watch -/

/-- How a monitor goes with a session beside it. -/
structure Monitor.FollowsSession (s : Config.Subscription) (w : Watch) : Prop where
  asking : w.phase = .asking → w.printed = []
  /-- A monitor whose call fails prints nothing and fails with the error. -/
  failed : ∀ e, w.phase = .failed e → w.printed = [] ∧ ∀ reason,
    follow s (w.session.conversation w.printed reason) = .failed e.inspect
  /-- One whose call succeeds prints a line for each event that it has taken, in order, and ends for
  the reason for which the session does. -/
  following : ∀ reason, w.phase = .following ∨ w.phase = .over reason →
    follow s (w.session.conversation w.printed reason) =
      (ended reason).before (eventLines w.printed) ""
  ended : ∀ reason, w.phase = .over reason → w.session.ending = some reason

/-- A monitor prints what its session has brought. -/
theorem Monitor.follow_of_watch (settings : Connection.Settings) (s : Config.Subscription)
    (moments : List Watch.Moment) :
    FollowsSession s ((Watch.start settings ⟨s.streams, s.accounts⟩).run moments) := by
  have h := Watch.suits_run settings ⟨s.streams, s.accounts⟩ moments
  generalize (Watch.start settings ⟨s.streams, s.accounts⟩).run moments = w at h ⊢
  refine ⟨fun hp => ?_, fun e hp => ?_, fun reason hp => ?_, fun reason hp => ?_⟩
  · rw [hp] at h
    exact h
  · rw [hp] at h
    refine ⟨h.1, fun reason => ?_⟩
    rw [follow, Watch.call_of_answer h.2]
  · obtain ⟨result, ha⟩ := h.result hp
    rw [follow, Watch.call_of_answer ha]
  · rw [hp] at h
    exact h.1

/-- A client that watches prints what its session has brought, and says why that is over. -/
theorem Client.watch_of_watch (settings : Connection.Settings) (around : Surroundings)
    (streams : List Stream.Category) (accounts : List String) (moments : List Watch.Moment)
    (reason : SessionEnd) :
    let w := (Watch.start settings ⟨streams, accounts⟩).run moments
    (∀ e, w.phase = .failed e →
      watch around streams accounts (w.session.conversation w.printed reason) =
        refused around.colours (.client e)) ∧
    (w.phase = .following ∨ w.phase = .over reason →
      ∃ greeting, watch around streams accounts (w.session.conversation w.printed reason) =
        ⟨0, eventLines w.printed, greeting ++
          (Text.paint around.colours .red "Connection closed" ++ ": " ++ reason.message ++ "\n")⟩) := by
  intro w
  have h : w.phase.Suits w := Watch.suits_run settings ⟨streams, accounts⟩ moments
  refine ⟨fun e hp => ?_, fun hp => ?_⟩
  · rw [hp] at h
    rw [watch, Watch.call_of_answer h.2]
  · obtain ⟨result, ha⟩ := h.result hp
    refine ⟨Text.paint around.colours .green "Watching" ++ " " ++
      Text.paint around.colours .cyan (Stream.Category.join streams) ++ " (ledger: " ++
      ledgerOf result ++ ")\n" ++
      Text.paint around.colours .dimmed "Press Ctrl+C to stop..." ++ "\n", ?_⟩
    rw [watch, Watch.call_of_answer ha]
    simp only [String.append_assoc]

/-! ## Programs that make one call after the other -/

/-- What a client with one call leaves behind, by the result. -/
def Client.reported (around : Surroundings) (report : Report) :
    Except ClientError Outcome → Printed
  | .ok result => ⟨0, report.text around.colours result ++ "\n", ""⟩
  | .error e => refused around.colours (.client e)

/-- A client with one call reports on the reply to it. -/
theorem Client.once_of_dialogue (settings : Connection.Settings) (around : Surroundings) (c : Call)
    (report : Report) (moments : List Dialogue.Moment) (events : List Stream.Event)
    (ending : SessionEnd) {result : Except ClientError Outcome}
    (h : ((Dialogue.start settings [c]).run moments).results = [result]) :
    once around (.call c report)
        (((Dialogue.start settings [c]).run moments).session.conversation events ending) =
      reported around report result := by
  have hd := Dialogue.answeredInTurn settings [c] moments
  generalize (Dialogue.start settings [c]).run moments = d at h hd ⊢
  have hresults := hd.results (d.session.conversation events ending) List.prefix_rfl
  rw [h] at hresults
  have hcall : ((d.session.conversation events ending).call c).1 = result :=
    (List.cons.inj hresults).1
  rw [once, Prompt.perform]
  cases hc : (d.session.conversation events ending).call c with
  | mk first v =>
    rw [hc] at hcall
    obtain rfl : first = result := hcall
    cases first <;> rfl

namespace Prompt

variable {colours : Bool} {files : Files}

def callsOf : Task → List Call
  | .call c _ => [c]
  | _ => []

/-- What is shown for a task whose call has the first of these results, and the results behind it. -/
def spoken (colours : Bool) :
    Task → List (Except ClientError Outcome) → String × List (Except ClientError Outcome)
  | .say text, results => (text, results)
  | .refuse e, results => (showRefusal colours e, results)
  | .call _ report, .ok result :: results => (report.text colours result, results)
  | .call _ _, .error e :: results => (showRefusal colours (.client e), results)
  | .call _ _, [] => ("", [])

/-- The calls that the lines at a prompt come down to, up to the line that ends it. -/
def script (files : Files) : List String → List Call
  | [] => []
  | line :: rest =>
    if (Text.trim line.toList).isEmpty then script files rest
    else match Task.ofLine? files (String.ofList (Text.trim line.toList)) with
      | none => []
      | some task => callsOf task ++ script files rest

/-- What is printed for the lines at a prompt if their calls have these results. -/
def transcript (colours : Bool) (files : Files) :
    List String → List (Except ClientError Outcome) → String
  | [], _ => mark colours ++ "^D\n"
  | line :: rest, results =>
    mark colours ++
      if (Text.trim line.toList).isEmpty then transcript colours files rest results
      else match Task.ofLine? files (String.ofList (Text.trim line.toList)) with
        | none => ""
        | some task =>
          (spoken colours task results).1 ++ "\n\n" ++
            transcript colours files rest (spoken colours task results).2

/-! ### Conversations that are not over -/

theorem isOver_call {c : Call} {v : Conversation} (h : (v.call c).2.isOver = false) :
    v.isOver = false := by
  rw [Conversation.call] at h
  split at h
  · exact h
  · split at h
    · cases h
    · exact h

theorem isOver_answers {calls : List Call} {v : Conversation}
    (h : (v.answers calls).2.isOver = false) : v.isOver = false := by
  induction calls generalizing v with
  | nil => exact h
  | cons c calls ih => exact isOver_call (ih h)

/-! ### Tasks -/

def shown (colours : Bool) : Except Refusal String → String
  | .ok text => text
  | .error e => showRefusal colours e

theorem perform_eq_spoken (colours : Bool) (task : Task) (more : List Call) (v : Conversation) :
    (v.answers (callsOf task ++ more)).2 = ((perform colours task v).2.answers more).2 ∧
      spoken colours task (v.answers (callsOf task ++ more)).1 =
        (shown colours (perform colours task v).1, ((perform colours task v).2.answers more).1) := by
  cases task with
  | say text => exact ⟨rfl, rfl⟩
  | refuse e => exact ⟨rfl, rfl⟩
  | call c report =>
    simp only [callsOf, List.singleton_append, Conversation.answers, perform]
    cases v.call c with
    | mk result v => cases result <;> exact ⟨rfl, rfl⟩

theorem talk_cons (colours : Bool) (files : Files) (line : String) (rest : List String)
    {v : Conversation} (h : v.isOver = false) :
    talk colours files (line :: rest) v =
      mark colours ++
        if (Text.trim line.toList).isEmpty then talk colours files rest v
        else match Task.ofLine? files (String.ofList (Text.trim line.toList)) with
          | none => ""
          | some task =>
            shown colours (perform colours task v).1 ++ "\n\n" ++
              talk colours files rest (perform colours task v).2 := by
  rw [talk, if_neg (by rw [h]; exact Bool.false_ne_true)]
  refine congrArg (mark colours ++ ·) (if_congr Iff.rfl rfl ?_)
  cases Task.ofLine? files (String.ofList (Text.trim line.toList)) with
  | none => rfl
  | some task =>
    cases hp : perform colours task v with
    | mk result v => cases result <;> simp only [hp, shown]

theorem talk_eq_transcript (colours : Bool) (files : Files) {lines : List String}
    {v : Conversation} (h : (v.answers (script files lines)).2.isOver = false) :
    talk colours files lines v =
      transcript colours files lines (v.answers (script files lines)).1 := by
  induction lines generalizing v with
  | nil =>
    rw [talk, if_neg (by rw [isOver_answers h]; exact Bool.false_ne_true)]
    rfl
  | cons line rest ih =>
    rw [talk_cons colours files line rest (isOver_answers h), transcript]
    rw [script] at h ⊢
    refine congrArg (mark colours ++ ·) ?_
    by_cases hempty : (Text.trim line.toList).isEmpty = true
    · simp only [if_pos hempty] at h ⊢
      exact ih h
    · simp only [if_neg hempty] at h ⊢
      cases htask : Task.ofLine? files (String.ofList (Text.trim line.toList)) with
      | none => rfl
      | some task =>
        rw [htask] at h
        obtain ⟨hover, hspoken⟩ := perform_eq_spoken colours task (script files rest) v
        simp only [hspoken]
        exact congrArg (shown colours (perform colours task v).1 ++ "\n\n" ++ ·) (ih (hover ▸ h))

/-- A prompt prints what its lines come to with the replies of its session. -/
theorem talk_of_dialogue (settings : Connection.Settings) (colours : Bool) (files : Files)
    (lines : List String) (moments : List Dialogue.Moment) (events : List Stream.Event)
    (ending : SessionEnd)
    (h : ((Dialogue.start settings (script files lines)).run moments).results.length =
      (script files lines).length) :
    talk colours files lines
        (((Dialogue.start settings (script files lines)).run moments).session.conversation events
          ending) =
      transcript colours files lines
        ((Dialogue.start settings (script files lines)).run moments).results := by
  have hd := Dialogue.answeredInTurn settings (script files lines) moments
  generalize (Dialogue.start settings (script files lines)).run moments = d at h hd ⊢
  have hwaiting : d.isWaiting = false := by
    obtain ⟨asked, hcalls, hlength⟩ := hd.inTurn
    have hle := congrArg List.length hcalls
    rw [List.length_append] at hle
    cases hw : d.isWaiting with
    | false => rfl
    | true =>
      rw [hw, Bool.toNat_true] at hlength
      omega
  have hanswers := hd.usedUp hwaiting events ending
  rw [h, List.take_length] at hanswers
  rw [talk_eq_transcript colours files (by rw [hanswers]), hanswers]

end Prompt

end Shell

end LedgerClient
