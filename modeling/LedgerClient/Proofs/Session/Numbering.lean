import LedgerClient.Proofs.Command.Submission
import LedgerClient.Proofs.Session.Delivery
import LedgerClient.Proofs.Session.Timeout
import LedgerClient.Proofs.Text.Words

/-!
# The ids of calls

A call gets the next number as it has passed all checks, so the ids that were given out are 1, 2, 3
and so on, in the order in which the calls got them, and a call that is refused takes none. That no id
is pending twice needs more than that: an id that is pending must not be queued a second time. The
invariant is `Distinct`. A call is pending only after it left the place where it waited for room in
the intake, which it does once, so its command is not in the intake any more as it is noted. Hence
the table never refuses a command, and nobody is told that an id is taken.
-/

namespace LedgerClient

open scoped List
open Dispatcher (Act)

/-! ## Refused arguments -/

/-- The calls whose arguments are refused. -/
inductive Call.Faulty : Call → Prop
  | noBytes : Faulty (.submit [])
  /-- The blob is not hexadecimal, or has no bytes. -/
  | badBlob (blob : String)
    (h : ∀ bytes, Hex.decode (String.ofList (Text.trim blob.toList)) = .ok bytes → bytes = []) :
    Faulty (.submitBlob blob)
  | noName (name : String) (parameters : Json.Value)
    (h : ∀ c ∈ name.toList, Text.isBlank c = true) : Faulty (.raw name parameters)
  | noObject (name : String) (parameters : Json.Value) (hn : parameters ≠ .null)
    (h : ∀ members, parameters ≠ .object members) : Faulty (.raw name parameters)

/-- Which calls are refused for their arguments. -/
theorem Call.faulty_iff (call : Call) : (∃ e, call.command? = .error e) ↔ call.Faulty := by
  cases call with
  | submit bytes =>
    cases bytes with
    | nil => exact ⟨fun _ => .noBytes, fun _ => ⟨_, rfl⟩⟩
    | cons b bytes =>
      constructor
      · rintro ⟨e, h⟩
        cases h
      · intro h
        cases h
  | submitBlob blob =>
    have hrefused : (∃ e, command? (.submitBlob blob) = .error e) ↔
        ∃ e, SubmitCommand.ofBlob blob = .error e := by
      rw [command?]
      cases SubmitCommand.ofBlob blob with
      | error e => exact ⟨fun _ => ⟨e, rfl⟩, fun _ => ⟨_, rfl⟩⟩
      | ok c => exact ⟨nofun, nofun⟩
    rw [hrefused, SubmitCommand.exists_ofBlob_error_iff]
    constructor
    · exact .badBlob blob
    · intro h
      cases h with
      | badBlob _ h => exact h
  | raw name parameters =>
    by_cases hb : ∀ c ∈ name.toList, Text.isBlank c = true
    · have hempty : (Text.trim name.toList).isEmpty = true := by
        rw [Text.trim_eq_nil_iff.mpr hb]
        rfl
      simp only [command?, if_pos hempty]
      exact ⟨fun _ => .noName name parameters hb, fun _ => ⟨_, rfl⟩⟩
    · have hfull : ¬ (Text.trim name.toList).isEmpty = true := by
        intro h
        exact hb (Text.trim_eq_nil_iff.mp (List.isEmpty_iff.mp h))
      have hgood (h : Faulty (.raw name parameters)) :
          parameters ≠ .null ∧ ∀ members, parameters ≠ .object members := by
        cases h with
        | noName _ _ h => exact absurd h hb
        | noObject _ _ hn h => exact ⟨hn, h⟩
      simp only [command?, if_neg hfull]
      cases parameters with
      | object members => exact ⟨by simp, fun h => absurd rfl ((hgood h).2 members)⟩
      | null => exact ⟨by simp, fun h => absurd rfl (hgood h).1⟩
      | _ => exact ⟨fun _ => .noObject name _ (by simp) (by simp), fun _ => ⟨_, rfl⟩⟩
  | _ =>
    constructor
    · rintro ⟨e, h⟩
      cases h
    · intro h
      cases h

namespace Session

variable {s s' : Session}

/-! ## Giving out ids -/

/-- The command of a call that is let in in a moment. -/
def admitted? (s : Session) : Moment → Option Command
  | .enter call => if s.isOpen then call.command?.toOption else none
  | _ => none

/-- The commands of the calls that are let in in a run, in order. -/
def admitted (s : Session) (moments : List Moment) : List Command :=
  trail live (fun s m => (s.admitted? m).toList) s moments

/-- The commands that have an id or wait for one. -/
def calls (s : Session) : List Command := s.exchanges.map (·.command) ++ s.entered

theorem calls_settleIntake (s : Session) : s.settleIntake.calls = s.calls := by
  obtain ⟨intake, he, -⟩ := settleIntake_eq s
  rw [he]
  rfl

theorem calls_setStage (s : Session) (id : Nat) (stage : Stage) :
    (s.setStage id stage).calls = s.calls := by
  refine congrArg (· ++ s.entered) ?_
  rw [setStage, List.map_map]
  refine List.map_congr_left fun x _ => ?_
  simp only [Function.comp_apply]
  split <;> rfl

theorem calls_step {m : Moment} (hs : s.step m = some s') :
    s'.calls ~ s.calls ++ (s.admitted? m).toList := by
  have hsame {t : Session} (h : t.calls = s.calls) :
      t.calls ~ s.calls ++ (none : Option Command).toList := by
    rw [h, Option.toList_none, List.append_nil]
  cases step_cases hs with
  | @enter call command hc ho =>
    rw [admitted?, if_pos ho, hc]
    show s.exchanges.map (·.command) ++ (s.entered ++ [command]) ~ s.calls ++ [command]
    rw [calls, List.append_assoc]
  | @allocate place command hc =>
    obtain ⟨hlt, hget⟩ := List.getElem?_eq_some_iff.mp hc
    show (s.exchanges ++ [⟨s.nextId, command, .queueing⟩] : List Exchange).map (·.command) ++
      s.entered.eraseIdx place ~ s.exchanges.map (·.command) ++ s.entered ++ []
    rw [List.map_append, List.append_assoc, List.append_nil]
    refine List.Perm.append_left _ ?_
    rw [List.map_singleton, List.singleton_append, ← hget]
    exact List.getElem_cons_eraseIdx_perm hlt
  | enqueue | refuse | expire =>
    exact hsame ((calls_settleIntake _).trans (calls_setStage _ _ _))
  | collect | abandon => exact hsame (calls_setStage _ _ _)
  | shut | disown => exact hsame (calls_settleIntake _)
  | _ => exact hsame rfl

theorem calls_run (settings : Connection.Settings) (moments : List Moment) :
    ((start settings).run moments).calls ~ (start settings).admitted moments := by
  induction moments using List.reverseRecOn with
  | nil => exact .nil
  | append_singleton moments m ih =>
    have hadmitted : (start settings).admitted (moments ++ [m]) =
        (start settings).admitted moments ++
          (((start settings).run moments).admitted? m).toList :=
      trail_concat _ _ _
    rw [run_concat, hadmitted]
    refine List.Perm.trans ?_ (ih.append_right _)
    cases hs : ((start settings).run moments).step m with
    | some s' =>
      rw [live_of_step hs]
      exact calls_step hs
    | none =>
      have hnone : ((start settings).run moments).admitted? m = none := by
        cases m with
        | enter call =>
          rw [admitted?]
          cases hc : call.command? with
          | error e => exact ite_self _
          | ok command =>
            by_cases ho : ((start settings).run moments).isOpen = true
            · rw [step, enter?, hc] at hs
              simp only [ho, if_true] at hs
              cases hs
            · rw [if_neg ho]
        | _ => rfl
      rw [live_of_none hs, hnone, Option.toList_none, List.append_nil]

/-- The ids that were given out are the first numbers, in the order of the calls. -/
structure Counted (s : Session) : Prop where
  ids : s.exchanges.map (·.id) = List.range' 1 s.exchanges.length
  next : s.nextId = s.exchanges.length + 1

theorem counted_live (h : Counted s) (m : Moment) : Counted (s.live m) := by
  rcases live_cases s m with ⟨a, -, -, he⟩ | ⟨-, c⟩
  · rw [he]
    exact ⟨h.ids, h.next⟩
  · cases c with
    | aside b he hn =>
      refine ⟨?_, ?_⟩
      · rw [he]
        exact h.ids
      · rw [he, hn]
        exact h.next
    | allocated command b he hn =>
      refine ⟨?_, ?_⟩
      · rw [he, List.map_append, h.ids, List.length_append, List.length_singleton,
          List.range'_concat, h.next]
        simp [Nat.add_comm]
      · rw [he, hn, List.length_append, List.length_singleton, h.next]
    | staged x stage d submitted hx p b he hn =>
      have hlength : (s.live m).exchanges.length = s.exchanges.length := by
        rw [he, setStage, List.length_map]
      refine ⟨?_, ?_⟩
      · rw [hlength, he, ids_setStage]
        exact h.ids
      · rw [hlength, hn]
        exact h.next

theorem counted_run (settings : Connection.Settings) (moments : List Moment) :
    Counted ((start settings).run moments) :=
  run_of_live counted_live ⟨rfl, rfl⟩ moments

/-! ## Pending ids -/

/-- Nobody is told that an id is taken. -/
def Undoubled (reply : Except ClientError Response) : Prop :=
  ∀ id, reply ≠ .error (.duplicateId id)

theorem undoubled_closed : Undoubled (.error .connectionClosed) := by
  intro id h
  cases h

theorem undoubled_replyTo (id : Nat) (shape : Shape) (frame : String) :
    Undoubled (replyTo id shape frame) := by
  intro other h
  rw [replyTo] at h
  cases hd : Response.decode shape frame with
  | ok r =>
    rw [hd] at h
    cases h
  | error e =>
    rw [hd] at h
    cases h

theorem undoubled_news {d : Dispatcher} {a : Act}
    (h : ∀ sub, a = .submit sub → d.table.find? sub.id = none) :
    ∀ r ∈ d.news a, Undoubled (replyOf r.2) := by
  rintro ⟨t, v⟩ hr id hv
  cases Dispatcher.tells_of_mem_news hr with
  | answered => exact undoubled_replyTo _ _ _ id hv
  | taken ha hp =>
    rw [h _ ha] at hp
    cases hp
  | _ => cases hv

/-- What keeps ids apart. -/
structure Distinct (s : Session) : Prop where
  /-- A command in the intake is that of a call. -/
  owned : ∀ sub ∈ s.dispatcher.intake.items,
    ∃ x ∈ s.exchanges, x.id = sub.id ∧ x.command = sub.command
  /-- A call is pending only after it has left the place where it waits for room in the intake. -/
  left : ∀ id p, s.dispatcher.table.find? id = some p →
    ∃ x ∈ s.exchanges, x.id = id ∧ x.stage.isQueueing = false
  /-- An id that is pending is not queued. -/
  apart : ∀ id p, s.dispatcher.table.find? id = some p →
    ∀ sub ∈ s.dispatcher.intake.items, sub.id ≠ id
  told : ∀ r ∈ s.dispatcher.replies, Undoubled (replyOf r.2)
  returned : ∀ x ∈ s.exchanges, ∀ reply, x.stage = .returned reply → Undoubled reply

theorem distinct_start (settings : Connection.Settings) : Distinct (start settings) where
  owned sub h := by cases h
  left id p h := by cases h
  apart id p h := by cases h
  told r h := by cases h
  returned x h := by cases h

theorem Distinct.free (h : Distinct s) {sub : Submission}
    (hr : s.dispatcher.Ready (.submit sub)) : s.dispatcher.table.find? sub.id = none := by
  cases hf : s.dispatcher.table.find? sub.id with
  | none => rfl
  | some p => exact absurd rfl (h.apart sub.id p hf sub hr.mem_intake)

theorem Sound.count_intake_le (h : Sound s) (id : Nat) :
    (s.dispatcher.intake.items.map (·.id)).count id ≤ 1 := by
  have hone := h.once id
  rw [requests, Writer.requests, List.count_append, List.count_append] at hone
  omega

theorem Sound.left_of_mem (h : Sound s) {id : Nat} (hm : id ∈ s.requests) :
    ∃ x ∈ s.exchanges, x.id = id ∧ x.stage.isQueueing = false := by
  by_contra hnone
  have hall : ∀ x ∈ s.exchanges, x.id = id → x.stage.isQueueing = true := by
    intro x hx hid
    by_contra hq
    rw [Bool.not_eq_true] at hq
    exact hnone ⟨x, hx, hid, hq⟩
  have hzero := h.outside id hall
  have hpos := List.count_pos_iff.mpr hm
  omega

theorem mem_requests_of_intake {sub : Submission} (h : sub ∈ s.dispatcher.intake.items) :
    sub.id ∈ s.requests := by
  rw [requests, Writer.requests]
  exact List.mem_append_left _ (List.mem_append_left _ (List.mem_map_of_mem h))

/-- An act of the dispatcher keeps ids apart. -/
theorem distinct_perform {a : Act} (h : Distinct s) (hs : Sound s) (hr : s.dispatcher.Ready a) :
    Distinct { s with dispatcher := s.dispatcher.perform a } where
  owned sub hm := h.owned sub (Dispatcher.intake_perform_subset _ a hm)
  left id p hp := by
    rcases Dispatcher.pending_of_perform hp with hp | ⟨sub, rfl, rfl, -, -⟩
    · exact h.left id p hp
    · exact hs.left_of_mem (mem_requests_of_intake hr.mem_intake)
  apart id p hp other hm := by
    rcases Dispatcher.pending_of_perform hp with hp | ⟨sub, rfl, rfl, -, -⟩
    · exact h.apart id p hp other (Dispatcher.intake_perform_subset _ a hm)
    · -- the command that was taken was the one with its id
      intro hid
      obtain ⟨rest, hi⟩ := List.head?_eq_some_iff.mp hr.2.2.2.2
      have hone := hs.count_intake_le sub.id
      change other ∈ (s.dispatcher.perform (.submit sub)).intake.items at hm
      rw [Dispatcher.intake_perform] at hm
      have hrest : other ∈ rest := by
        simpa [Dispatcher.Queues.after, Dispatcher.queues, Dispatcher.dropHead, hi] using hm
      have hpos : 0 < (rest.map (·.id)).count sub.id :=
        List.count_pos_iff.mpr (hid ▸ List.mem_map_of_mem hrest)
      rw [hi, List.map_cons, List.count_cons_self] at hone
      omega
  told r hm := by
    change r ∈ (s.dispatcher.perform a).replies at hm
    rw [Dispatcher.replies_perform, List.mem_append] at hm
    rcases hm with hm | hm
    · exact h.told r hm
    · refine undoubled_news ?_ r hm
      rintro sub rfl
      exact h.free hr
  returned := h.returned

theorem Progress.undoubled {x : Exchange} {stage : Stage} {d : Dispatcher} {submitted : List Nat}
    (h : Distinct s) (p : Progress s x stage d submitted) {reply : Except ClientError Response}
    (hr : stage = .returned reply) : Undoubled reply := by
  cases p with
  | enqueued => cases hr
  | refused =>
    obtain rfl := Stage.returned.inj hr
    exact undoubled_closed
  | collected v _ hv =>
    obtain rfl := Stage.returned.inj hr
    exact h.told _ hv
  | expired => cases hr
  | abandoned =>
    obtain rfl := Stage.returned.inj hr
    intro id hd
    cases hd

theorem Change.call (c : Change s s') {x : Exchange} (hx : x ∈ s.exchanges) :
    ∃ y ∈ s'.exchanges, y.id = x.id ∧ y.command = x.command ∧
      (x.stage.isQueueing = false → y.stage.isQueueing = false) := by
  cases c with
  | aside b he hn => exact ⟨x, he ▸ hx, rfl, rfl, id⟩
  | allocated command b he hn => exact ⟨x, he ▸ List.mem_append_left _ hx, rfl, rfl, id⟩
  | staged z stage d submitted hz p b he hn =>
    obtain ⟨-, -, -, -, -, -, -, hstage, -⟩ := p.keeps
    refine ⟨_, he ▸ mem_setStage_of_mem z.id stage hx, ?_, ?_, ?_⟩
    · split <;> rfl
    · split <;> rfl
    · intro hleft
      split
      · exact hstage
      · exact hleft

theorem Change.replies (c : Change s s') : s'.dispatcher.replies = s.dispatcher.replies := by
  cases c with
  | aside b | allocated _ b => exact b.alike.replies
  | staged x stage d submitted hx p b =>
    obtain ⟨-, -, hreplies, -⟩ := p.keeps
    exact b.alike.replies.trans hreplies

theorem Change.intake (c : Change s s') {sub : Submission} (hm : sub ∈ s'.dispatcher.intake.items) :
    sub ∈ s.dispatcher.intake.items ∨
      ∃ x ∈ s.exchanges, x.stage = .queueing ∧ x.id = sub.id ∧ x.command = sub.command := by
  cases c with
  | aside b | allocated _ b => exact .inl (b.alike.intake ▸ hm)
  | staged x stage d submitted hx p b =>
    rw [b.alike.intake] at hm
    cases p with
    | enqueued hq =>
      rcases List.mem_append.mp hm with hm | hm
      · exact .inl hm
      · rw [List.mem_singleton.mp hm]
        exact .inr ⟨x, hx, hq, rfl, rfl⟩
    | _ => exact .inl hm

theorem Change.returned (c : Change s s') {y : Exchange} (hy : y ∈ s'.exchanges)
    {reply : Except ClientError Response} (hr : y.stage = .returned reply) :
    y ∈ s.exchanges ∨ ∃ x d submitted, Progress s x (.returned reply) d submitted := by
  cases c with
  | aside b he => exact .inl (he ▸ hy)
  | allocated command b he =>
    rw [he, List.mem_append, List.mem_singleton] at hy
    rcases hy with hy | rfl
    · exact .inl hy
    · cases hr
  | staged x stage d submitted hx p b he =>
    obtain ⟨z, hz, -, ⟨-, hst⟩ | ⟨-, rfl⟩⟩ := mem_setStage (he ▸ hy)
    · exact .inr ⟨x, d, submitted, hst.symm.trans hr ▸ p⟩
    · exact .inl hz

/-- What calls do keeps ids apart. -/
theorem distinct_change (h : Distinct s) (hs : Sound s) (c : Change s s') : Distinct s' where
  owned sub hm := by
    obtain ⟨x, hx, hid, hcommand⟩ : ∃ x ∈ s.exchanges, x.id = sub.id ∧ x.command = sub.command := by
      rcases c.intake hm with hm | ⟨x, hx, -, hsub⟩
      · exact h.owned sub hm
      · exact ⟨x, hx, hsub⟩
    obtain ⟨y, hy, hyid, hycommand, -⟩ := c.call hx
    exact ⟨y, hy, hyid.trans hid, hycommand.trans hcommand⟩
  left id p hp := by
    rw [c.keeps.1] at hp
    obtain ⟨x, hx, hid, hleft⟩ := h.left id p hp
    obtain ⟨y, hy, hyid, -, hstays⟩ := c.call hx
    exact ⟨y, hy, hyid.trans hid, hstays hleft⟩
  apart id p hp sub hm := by
    rw [c.keeps.1] at hp
    rcases c.intake hm with hm | ⟨x, hx, hqueue, hid, -⟩
    · exact h.apart id p hp sub hm
    · -- a call that enters the intake was not pending before
      rintro rfl
      obtain ⟨z, hz, hzid, hleft⟩ := h.left _ p hp
      obtain rfl : z = x := List.inj_on_of_nodup_map hs.ids hz hx (hzid.trans hid.symm)
      rw [hqueue] at hleft
      cases hleft
  told := by
    rw [c.replies]
    exact h.told
  returned y hy reply hreply := by
    rcases c.returned hy hreply with hy | ⟨x, d, submitted, p⟩
    · exact h.returned y hy reply hreply
    · exact p.undoubled h rfl

theorem distinct_run (settings : Connection.Settings) (moments : List Moment) :
    Distinct ((start settings).run moments) := by
  induction moments using List.reverseRecOn with
  | nil => exact distinct_start settings
  | append_singleton moments m ih =>
    have hs := sound_run (sound_start settings) moments
    rw [run_concat]
    rcases live_cases ((start settings).run moments) m with ⟨a, -, hr, he⟩ | ⟨-, c⟩
    · rw [he]
      exact distinct_perform ih hs hr
    · exact distinct_change ih hs c

/-! ## All of it -/

/-- How ids are given out, and that they never collide. -/
structure NumberedApart (settings : Connection.Settings) (moments : List Moment) (s : Session) :
    Prop where
  /-- The calls that got an id have 1, 2, 3 and so on, each once and in order. -/
  ids : s.exchanges.map (·.id) = List.range' 1 s.exchanges.length ∧
    s.nextId = s.exchanges.length + 1
  /-- They are the calls that were let in, but for those that wait for an id. -/
  calls : s.exchanges.map (·.command) ++ s.entered ~ (start settings).admitted moments
  /-- With fewer calls than there are numbers of 64 bits, all ids are among these. -/
  fits : ((start settings).admitted moments).length < UInt64.size →
    ∀ x ∈ s.exchanges, x.id < UInt64.size
  /-- A call is refused for its arguments if it is faulty, or as the session is shut. Then it leaves
  the session as it was, and so takes no id. -/
  refused : ∀ call, (∃ e, s.enter? call = .error e) ↔ call.Faulty ∨ s.isOpen = false
  traceless : ∀ call, call.Faulty ∨ s.isOpen = false → s.live (.enter call) = s
  /-- A command in the intake is that of a call, under the id of the call. -/
  owned : ∀ sub ∈ s.dispatcher.intake.items,
    ∃ x ∈ s.exchanges, x.id = sub.id ∧ x.command = sub.command
  /-- All ids that are pending or on their way, in the intake, the hand of the dispatcher, the queue of
  the writer, at the socket or among the reports, lie below the next. -/
  below : (∀ id p, s.dispatcher.table.find? id = some p → id < s.nextId) ∧
    ∀ id ∈ s.requests, id < s.nextId
  /-- Each of them is on its way once. -/
  once : ∀ id, s.requests.count id ≤ 1
  /-- The table takes every command that the dispatcher takes from the intake. -/
  inserted : ∀ b sub, s.dispatcher.act? b = some (.submit sub) →
    ∀ p, s.dispatcher.table.insert? sub.id p ≠ none
  /-- Nobody is told that an id is taken. -/
  untold : ∀ t id, (t, .told (.error (.duplicateId id))) ∉ s.dispatcher.replies
  unreturned : ∀ x ∈ s.exchanges, ∀ id, x.stage ≠ .returned (.error (.duplicateId id))

/-- **Ids never collide.** -/
theorem numberedApart (settings : Connection.Settings) (moments : List Moment) :
    NumberedApart settings moments ((start settings).run moments) := by
  have hcounted := counted_run settings moments
  have hcalls := calls_run settings moments
  have hdistinct := distinct_run settings moments
  have hsound := sound_run (sound_start settings) moments
  generalize (start settings).run moments = s at hcounted hcalls hdistinct hsound ⊢
  have hbelow : ∀ id, (∃ x ∈ s.exchanges, x.id = id ∧ x.stage.isQueueing = false) →
      id < s.nextId := by
    rintro id ⟨x, hx, rfl, -⟩
    exact hsound.fresh x hx
  have hrefused (call : Call) :
      (∃ e, s.enter? call = .error e) ↔ call.Faulty ∨ s.isOpen = false := by
    rw [← Call.faulty_iff, enter?]
    cases hc : call.command? with
    | error e => exact ⟨fun _ => .inl ⟨e, rfl⟩, fun _ => ⟨e, rfl⟩⟩
    | ok command =>
      cases ho : s.isOpen with
      | true => simp
      | false => simp
  refine
    { ids := ⟨hcounted.ids, hcounted.next⟩
      calls := hcalls
      fits := ?_
      refused := hrefused
      traceless := ?_
      owned := hdistinct.owned
      below := ⟨fun id p hp => hbelow id (hdistinct.left id p hp),
        fun id hm => hbelow id (hsound.left_of_mem hm)⟩
      once := hsound.once
      inserted := ?_
      untold := ?_
      unreturned := ?_ }
  · intro hlt x hx
    have hlength := hcalls.length_eq
    rw [Session.calls, List.length_append, List.length_map] at hlength
    have hid := hsound.fresh x hx
    rw [hcounted.next] at hid
    omega
  · intro call hr
    obtain ⟨e, he⟩ := (hrefused call).mpr hr
    exact live_of_none (by rw [step, he]; rfl)
  · intro b sub ha p hnone
    obtain ⟨q, hq⟩ := Table.insert?_eq_none_iff.mp hnone
    rw [hdistinct.free (Dispatcher.ready_of_act? ha)] at hq
    cases hq
  · intro t id hm
    exact hdistinct.told _ hm id rfl
  · intro x hx id hstage
    exact hdistinct.returned x hx _ hstage id rfl

-- Two calls get their ids in the other order; the calls between and after them are refused.
example :
    let settings := Connection.Settings.ofEndpoint Connection.defaultEndpoint
    let s := (start settings).run
      [.enter .ping, .enter (.submit []), .enter .serverInfo, .enter (.raw " " .null), .allocate 1,
        .allocate 0, .enqueue 1, .expire 1, .abandon 1, .shut, .enter .ping, .allocate 0]
    s.exchanges.map (fun x => (x.id, x.command.name)) = [(1, "server_info"), (2, "ping")] ∧
      s.nextId = 3 :=
  ⟨rfl, rfl⟩

end Session

end LedgerClient
