import LedgerClient.Proofs.Session.Numbering
import LedgerClient.Proofs.Session.Stopping
import LedgerClient.Session.Dialogue

/-!
# The results of calls that are made one after the other

A conversation has all its replies before the first call is made; in a session each comes when its
call is answered. For a caller that makes one call after the other this makes no difference: its
results are those of the conversation that its session has brought (`answeredInTurn`).

A call that has returned stays as it is, and the next one is the only other call of the session
(`Settled`). So the replies known so far are a beginning of all there will be, and what they come to
is said with any more of them behind (`Answered`). `Serial` is the invariant of the caller.
-/

namespace LedgerClient

open scoped List

namespace Session

variable {s s' : Session} {m : Moment} {done later : List Exchange} {waiting : List Command}

/-! ## Calls that have returned -/

theorem Progress.isReturned {x : Exchange} {stage : Stage} {d : Dispatcher}
    {submitted : List Nat} (p : Progress s x stage d submitted) : x.stage.isReturned = false := by
  cases p with
  | enqueued h | refused h | collected _ h | abandoned _ h =>
    rw [h]
    rfl
  | expired h => rcases h with h | h <;> rw [h] <;> rfl

theorem exchanges_live (hn : (s.exchanges.map (·.id)).Nodup) (he : s.exchanges = done ++ later)
    (hr : ∀ x ∈ done, x.stage.isReturned = true) (m : Moment) :
    ∃ later', (s.live m).exchanges = done ++ later' := by
  rcases live_cases s m with ⟨a, -, -, hl⟩ | ⟨-, c⟩
  · rw [hl]
    exact ⟨later, he⟩
  · cases c with
    | aside b hx => exact ⟨later, hx.trans he⟩
    | allocated command b hx =>
      refine ⟨later ++ [⟨s.nextId, command, .queueing⟩], ?_⟩
      rw [hx, he, List.append_assoc]
    | staged x stage d submitted hx p b hs =>
      have hsame : ∀ y ∈ done, (if y.id == x.id then { y with stage } else y) = y := by
        intro y hy
        refine if_neg fun hid => ?_
        -- the call that moves on would be one that has returned
        obtain rfl : y = x := List.inj_on_of_nodup_map hn (he ▸ List.mem_append_left _ hy) hx
          (by simpa using hid)
        have hreturned := hr y hy
        rw [p.isReturned] at hreturned
        cases hreturned
      refine ⟨later.map fun y => if y.id == x.id then { y with stage } else y, ?_⟩
      rw [hs, setStage, he, List.map_append, List.map_congr_left hsame, List.map_id']

/-- The first calls of a session have returned, and these are the commands of the others. -/
structure Settled (done : List Exchange) (waiting : List Command) (s : Session) : Prop where
  returned : ∀ x ∈ done, x.stage.isReturned = true
  rest : ∃ later, s.exchanges = done ++ later ∧ later.map (·.command) ++ s.entered ~ waiting

theorem settled_live (h : Settled done waiting s) (hn : (s.exchanges.map (·.id)).Nodup)
    (hm : s.admitted? m = none) : Settled done waiting (s.live m) := by
  obtain ⟨later, he, hp⟩ := h.rest
  obtain ⟨later', he'⟩ := exchanges_live hn he h.returned m
  have hcalls : (s.live m).calls ~ s.calls := by
    refine live_of_kept (P := fun t => t.calls ~ s.calls) (.refl _) fun hs => ?_
    have hstep := calls_step hs
    rwa [hm, Option.toList_none, List.append_nil] at hstep
  refine ⟨h.returned, later', he', ?_⟩
  rw [calls, calls, he, he', List.map_append, List.map_append, List.append_assoc,
    List.append_assoc] at hcalls
  exact ((List.perm_append_left_iff _).mp hcalls).trans hp

theorem Settled.eq_of_nil (h : Settled done [] s) : s.exchanges = done ∧ s.entered = [] := by
  obtain ⟨later, he, hp⟩ := h.rest
  obtain ⟨hlater, hentered⟩ := List.append_eq_nil_iff.mp hp.eq_nil
  rw [List.map_eq_nil_iff.mp hlater, List.append_nil] at he
  exact ⟨he, hentered⟩

theorem Counted.nodup (h : Counted s) : (s.exchanges.map (·.id)).Nodup := by
  rw [h.ids]
  exact List.nodup_range'

end Session

namespace Dialogue

variable {settings : Connection.Settings} {calls made : List Call} {c : Call} {d d' : Dialogue}
  {replies : List (Except ClientError Response)} {results : List (Except ClientError Outcome)}

/-! ## Conversations -/

theorem answers_concat (calls : List Call) (c : Call) (v : Conversation) :
    v.answers (calls ++ [c]) =
      ((v.answers calls).1 ++ [((v.answers calls).2.call c).1], ((v.answers calls).2.call c).2) := by
  induction calls generalizing v with
  | nil => rfl
  | cons first calls ih =>
    simp only [List.cons_append, Conversation.answers, ih]

theorem length_answers (calls : List Call) (v : Conversation) :
    (v.answers calls).1.length = calls.length := by
  induction calls generalizing v with
  | nil => rfl
  | cons c calls ih => exact congrArg (· + 1) (ih _)

/-- The results of calls in every conversation that has these replies first: there the calls take just
these. -/
def Answered (calls : List Call) (replies : List (Except ClientError Response))
    (results : List (Except ClientError Outcome)) : Prop :=
  ∀ (v : Conversation) (more : List (Except ClientError Response)), v.replies = replies ++ more →
    v.answers calls = (results, { v with replies := more })

theorem Answered.length_eq (h : Answered calls replies results) : results.length = calls.length := by
  have hv := h ⟨replies, [], .closed, false⟩ [] (List.append_nil _).symm
  rw [← length_answers calls ⟨replies, [], .closed, false⟩, hv]

theorem Answered.refused (h : Answered calls replies results) {e : ClientError}
    (hc : c.command? = .error e) : Answered (calls ++ [c]) replies (results ++ [.error e]) := by
  intro v more hv
  rw [answers_concat, h v more hv, Conversation.call, hc]

theorem Answered.replied (h : Answered calls replies results) {command : Command}
    (hc : c.command? = .ok command) (reply : Except ClientError Response) :
    Answered (calls ++ [c]) (replies ++ [reply])
      (results ++ [reply.bind Response.callResult]) := by
  intro v more hv
  rw [List.append_assoc, List.singleton_append] at hv
  rw [answers_concat, h v (reply :: more) hv, Conversation.call, hc]

/-! ## The caller -/

theorem run_concat (d : Dialogue) (moments : List Moment) (m : Moment) :
    d.run (moments ++ [m]) = (d.run moments).live m := by
  simp [run]

theorem admitted?_of_isOther {m : Session.Moment} (hm : isOther m = true) (s : Session) :
    s.admitted? m = none := by
  cases m with
  | enter call => cases hm
  | _ => rfl

theorem isParting_of_isOther {m : Session.Moment} (hm : isOther m = true) :
    m.isParting = false := by
  cases m with
  | shut | disown => cases hm
  | _ => rfl

/-- How far a caller is: it has the results of the calls it has made, but for one at most, and that
one is the only call of its session that has not returned. -/
inductive Turn (calls : List Call) (d : Dialogue) : Prop
  | idle (made : List Call) (done : List Exchange) (hw : d.isWaiting = false)
    (hc : calls = made ++ d.calls) (hs : d.session.Settled done [])
    (ha : Answered made (done.filterMap Exchange.reply?) d.results)
  | waiting (made : List Call) (c : Call) (command : Command) (done : List Exchange)
    (hw : d.isWaiting = true) (hc : calls = made ++ c :: d.calls) (hok : c.command? = .ok command)
    (hs : d.session.Settled done [command])
    (ha : Answered made (done.filterMap Exchange.reply?) d.results)

structure Serial (calls : List Call) (d : Dialogue) : Prop where
  counted : d.session.Counted
  isOpen : d.session.isOpen = true
  turn : Turn calls d

theorem serial_start (settings : Connection.Settings) (calls : List Call) :
    Serial calls (start settings calls) where
  counted := ⟨rfl, rfl⟩
  isOpen := rfl
  turn := by
    refine .idle [] [] rfl rfl ⟨List.forall_mem_nil _, [], rfl, .refl _⟩
      fun v more hv => ?_
    obtain ⟨replies, events, ending, isOver⟩ := v
    obtain rfl : replies = more := hv
    rfl

theorem serial_within {m : Session.Moment} {session : Session} (h : Serial calls d)
    (hm : isOther m = true) (hs : d.session.step m = some session) :
    Serial calls { d with session } := by
  have hlive : d.session.live m = session := Session.live_of_step hs
  have hsettled {done : List Exchange} {waiting : List Command}
      (h' : d.session.Settled done waiting) : session.Settled done waiting :=
    hlive ▸ Session.settled_live h' h.counted.nodup (admitted?_of_isOther hm d.session)
  refine ⟨hlive ▸ Session.counted_live h.counted m, ?_, ?_⟩
  · rw [Session.isOpen_step hs, h.isOpen, isParting_of_isOther hm]
    rfl
  · cases h.turn with
    | idle made done hw hc hs ha => exact .idle made done hw hc (hsettled hs) ha
    | waiting made c command done hw hc hok hs ha =>
      exact .waiting made c command done hw hc hok (hsettled hs) ha

theorem serial_ask {rest : List Call} (h : Serial calls d) (hw : d.isWaiting = false)
    (hc : d.calls = c :: rest) :
    (∀ e, d.session.enter? c = .error e →
      Serial calls { d with calls := rest, results := d.results ++ [.error e] }) ∧
    ∀ session, d.session.enter? c = .ok session →
      Serial calls { d with session, calls := rest, isWaiting := true } := by
  obtain ⟨made, done, hcalls, hs, ha⟩ : ∃ made done, calls = made ++ d.calls ∧
      d.session.Settled done [] ∧ Answered made (done.filterMap Exchange.reply?) d.results := by
    cases h.turn with
    | idle made done _ hcalls hs ha => exact ⟨made, done, hcalls, hs, ha⟩
    | waiting _ _ _ _ hw' => simp [hw] at hw'
  rw [hc] at hcalls
  rw [Session.enter?]
  cases hcommand : c.command? with
  | error refusal =>
    refine ⟨fun e he => ⟨h.counted, h.isOpen, ?_⟩, fun _ hs => (by cases hs)⟩
    obtain rfl := Except.error.inj he
    exact .idle (made ++ [c]) done hw (by simp [hcalls]) hs (ha.refused hcommand)
  | ok command =>
    simp only [h.isOpen, if_true]
    refine ⟨fun _ hs => (by cases hs), fun session hsession => ?_⟩
    obtain rfl := Except.ok.inj hsession
    obtain ⟨hexchanges, hentered⟩ := hs.eq_of_nil
    refine ⟨⟨h.counted.ids, h.counted.next⟩, rfl, ?_⟩
    refine .waiting made c command done rfl hcalls hcommand ⟨hs.returned, [], ?_, ?_⟩ ha
    · exact hexchanges.trans (List.append_nil _).symm
    · rw [hentered]
      exact .refl _

theorem serial_answered {x : Exchange} {reply : Except ClientError Response}
    (h : Serial calls d) (hw : d.isWaiting = true) (he : d.session.entered = [])
    (hx : d.session.exchanges.getLast? = some x) (hr : x.stage = .returned reply) :
    Serial calls { d with
      isWaiting := false
      results := d.results ++ [reply.bind Response.callResult] } := by
  refine ⟨h.counted, h.isOpen, ?_⟩
  cases h.turn with
  | idle _ _ hw' => simp [hw] at hw'
  | waiting made c command done _ hcalls hcommand hs ha =>
    obtain ⟨later, hexchanges, hp⟩ := hs.rest
    rw [he, List.append_nil, List.perm_singleton] at hp
    -- the call that has not returned before is the last that got an id
    obtain ⟨y, rfl, -⟩ := List.map_eq_singleton_iff.mp hp
    rw [hexchanges, List.getLast?_concat, Option.some.injEq] at hx
    subst hx
    have hreply : y.reply? = some reply := by rw [Exchange.reply?, hr]
    refine .idle (made ++ [c]) (done ++ [y]) rfl (by simp [hcalls]) ⟨?_, [], ?_, ?_⟩ ?_
    · intro z hz
      rcases List.mem_append.mp hz with hz | hz
      · exact hs.returned z hz
      · rw [List.mem_singleton.mp hz, hr]
        rfl
    · exact hexchanges.trans (List.append_nil _).symm
    · rw [he]
      exact .refl _
    · rw [List.filterMap_append, List.filterMap_cons_some hreply]
      exact ha.replied hcommand reply

theorem serial_step {m : Moment} (h : Serial calls d) (hs : d.step m = some d') :
    Serial calls d' := by
  cases m with
  | within m =>
    rw [step] at hs
    split at hs
    · rename_i hm
      obtain ⟨session, hsession, rfl⟩ := Option.map_eq_some_iff.mp hs
      exact serial_within h hm hsession
    · cases hs
  | ask =>
    rw [step] at hs
    split at hs
    · rename_i c rest hw hc
      obtain ⟨hrefused, hlet⟩ := serial_ask h hw hc
      split at hs
      · rename_i e he
        exact Option.some.inj hs ▸ hrefused e he
      · rename_i session he
        exact Option.some.inj hs ▸ hlet session he
    · cases hs
  | answered =>
    rw [step] at hs
    split at hs
    · rename_i id command reply hw he hx
      exact Option.some.inj hs ▸ serial_answered h hw he hx rfl
    · cases hs

theorem serial_run (settings : Connection.Settings) (calls : List Call) (moments : List Moment) :
    Serial calls ((start settings calls).run moments) := by
  induction moments using List.reverseRecOn with
  | nil => exact serial_start settings calls
  | append_singleton moments m ih =>
    rw [run_concat, live]
    cases hs : ((start settings calls).run moments).step m with
    | none => exact ih
    | some d => exact serial_step ih hs

/-! ## The main result -/

/-- What a caller gets that makes its calls one after the other. -/
structure AnsweredInTurn (calls : List Call) (d : Dialogue) : Prop where
  /-- The calls are made in order, and all but the last that was made have their results. -/
  inTurn : ∃ asked, calls = asked ++ d.calls ∧
    asked.length = d.results.length + d.isWaiting.toNat
  /-- The results are those of every conversation that begins with the replies of the session. -/
  results : ∀ v : Conversation, d.session.replies <+: v.replies →
    (v.answers (calls.take d.results.length)).1 = d.results
  /-- Without a call that waits, these take all replies of the session. -/
  usedUp : d.isWaiting = false → ∀ events ending,
    (d.session.conversation events ending).answers (calls.take d.results.length) =
      (d.results, ⟨[], events, ending, false⟩)

/-- A caller that makes one call after the other gets the results of a conversation with the
replies of its session, at any time and whatever else goes on. -/
theorem answeredInTurn (settings : Connection.Settings) (calls : List Call)
    (moments : List Moment) :
    AnsweredInTurn calls ((start settings calls).run moments) := by
  have h := (serial_run settings calls moments).turn
  generalize (start settings calls).run moments = d at h ⊢
  obtain ⟨made, done, later, behind, hcalls, hlength, hidle, hx, ha⟩ : ∃ made done later behind,
      calls = made ++ (behind ++ d.calls) ∧ behind.length = d.isWaiting.toNat ∧
      (d.isWaiting = false → later = []) ∧ d.session.exchanges = done ++ later ∧
      Answered made (done.filterMap Exchange.reply?) d.results := by
    cases h with
    | idle made done hw hc hs ha =>
      refine ⟨made, done, [], [], hc, by rw [hw]; rfl, fun _ => rfl, ?_, ha⟩
      rw [hs.eq_of_nil.1, List.append_nil]
    | waiting made c command done hw hc hok hs ha =>
      obtain ⟨later, hx, -⟩ := hs.rest
      exact ⟨made, done, later, [c], hc, by rw [hw]; rfl, by simp [hw], hx, ha⟩
  have hmade : calls.take d.results.length = made := by
    rw [hcalls, ha.length_eq, List.take_left]
  refine ⟨⟨made ++ behind, by rw [hcalls, List.append_assoc], ?_⟩, ?_, ?_⟩
  · rw [List.length_append, ha.length_eq, hlength]
  · rintro v ⟨more, hv⟩
    rw [hmade]
    rw [Session.replies, hx, List.filterMap_append, List.append_assoc] at hv
    rw [ha v _ hv.symm]
  · intro hw events ending
    obtain rfl := hidle hw
    rw [hmade]
    refine ha (d.session.conversation events ending) [] ?_
    rw [Session.conversation, Session.replies, hx, List.append_nil, List.append_nil]

-- The first call is refused at once, and the time of the second is up.
example :
    let settings := { Connection.Settings.ofEndpoint Connection.defaultEndpoint with
      requestTimeout := some (.ofSeconds 30) }
    let moments : List Moment :=
      [.ask, .ask, .within (.allocate 0), .answered, .within (.enqueue 1), .within (.expire 1),
        .within (.abandon 1), .answered]
    ((start settings [.submit [], .ping]).run moments).results =
      [.error (.invalidArgument "transaction blob is empty"), .error (.timeout (.ofSeconds 30))] :=
  rfl

end Dialogue

end LedgerClient
