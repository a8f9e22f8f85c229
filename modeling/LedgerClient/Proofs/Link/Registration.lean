import LedgerClient.Proofs.Dispatcher.Matter
import LedgerClient.Proofs.Link.Basic

/-!
# Commands are registered before they are sent

An id on its way to the peer and back can be in many places: with the command in the intake, in the
hand of the dispatcher, in the outbound queue, among the write failures or on the socket, and with
the response on the way back. Distinct ids are in one of the first places at most
(`count_requests_run`), and a peer that answers what it has read, once, has no response on the way
for an id that was answered (`count_flying_le`). So an id that left the intake stays in the table
until its response is dealt with, unless it is given up (`Known`).
-/

namespace LedgerClient.Link

open scoped List
open Dispatcher (Act)

/-! ## Ids on their way -/

/-- The ids of the commands that the peer has read. -/
def questions (l : Link) : List Nat := (l.read.filterMap Parcel.command?).map (·.id)

/-- The ids of the responses that the peer has sent. -/
def answers (l : Link) : List Nat := (l.sent.filterMap Incoming.text?).filterMap answeredId?

/-- The ids of the responses that the dispatcher has not dealt with yet. -/
def flying (l : Link) : List Nat := l.texts.filterMap answeredId?

def submissions (moments : List Moment) : List Submission := moments.filterMap Moment.submission?

/-- Each command of a run has an id of its own. -/
def OwnIds (moments : List Moment) : Prop := ((submissions moments).map (·.id)).Nodup

instance (moments : List Moment) : Decidable (OwnIds moments) :=
  inferInstanceAs (Decidable (List.Nodup _))

/-- The peer sends a response in a moment only to a command that it has read and not answered. -/
def Moment.Honest (l : Link) (m : Moment) : Prop :=
  ∀ id ∈ m.text?.bind answeredId?, l.answers.count id < l.questions.count id

instance (l : Link) (m : Moment) : Decidable (m.Honest l) :=
  inferInstanceAs (Decidable (∀ _ ∈ (_ : Option Nat), _))

/-- The peer is honest in all of a run. -/
def Honest : Link → List Moment → Prop
  | _, [] => True
  | l, m :: moments => m.Honest l ∧ Honest (l.live m) moments

instance decidableHonest : (l : Link) → (moments : List Moment) → Decidable (Honest l moments)
  | _, [] => isTrue trivial
  | l, m :: moments =>
    let _ := decidableHonest (l.live m) moments
    inferInstanceAs (Decidable (_ ∧ _))

theorem honest_concat {l : Link} {moments : List Moment} {m : Moment} :
    Honest l (moments ++ [m]) ↔ Honest l moments ∧ m.Honest (l.run moments) := by
  induction moments generalizing l with
  | nil => simp [Honest, run]
  | cons x moments ih =>
    rw [List.cons_append, Honest, Honest, ih, and_assoc]
    rfl

theorem honest_append {l : Link} {earlier later : List Moment} (h : Honest l (earlier ++ later)) :
    Honest l earlier := by
  induction earlier generalizing l with
  | nil => trivial
  | cons m earlier ih => exact ⟨h.1, ih h.2⟩

theorem OwnIds.of_append {earlier later : List Moment} (h : OwnIds (earlier ++ later)) :
    OwnIds earlier := by
  unfold OwnIds submissions at h ⊢
  rw [List.filterMap_append, List.map_append] at h
  exact h.of_append_left

/-! ## Requests -/

theorem count_requests_live (l : Link) (m : Moment) (id : Nat) :
    (l.live m).requests.count id ≤
      l.requests.count id + (m.submission?.toList.map (·.id)).count id := by
  rcases live_cases l m with ⟨a, -, hr, -, -, he⟩ | ⟨-, h⟩
  · rw [he]
    exact Nat.le_add_right_of_le (Writer.count_requests_perform l.writer hr id)
  · exact h.requests id

variable {limit window : Duration} {c : Capacities} {moments : List Moment}

theorem count_requests_run (limit window : Duration) (c : Capacities) (moments : List Moment)
    (id : Nat) :
    ((start limit window c).run moments).requests.count id ≤
      ((submissions moments).map (·.id)).count id := by
  induction moments using List.reverseRecOn with
  | nil => exact Nat.le_refl _
  | append_singleton moments m ih =>
    have hs : submissions (moments ++ [m]) = submissions moments ++ m.submission?.toList := by
      rw [submissions, List.filterMap_append]
      cases h : m.submission? <;> simp [submissions, h]
    have hl := count_requests_live ((start limit window c).run moments) m id
    rw [run_concat, hs, List.map_append, List.count_append]
    omega

theorem count_requests_le_one (limit window : Duration) (c : Capacities) (own : OwnIds moments)
    (id : Nat) : ((start limit window c).run moments).requests.count id ≤ 1 :=
  Nat.le_trans (count_requests_run limit window c moments id)
    (List.nodup_iff_count_le_one.mp own id)

/-! ## Responses -/

theorem texts_perform {l : Link} {a : Act} (hr : l.dispatcher.Ready a) :
    match a with
    | .handle frame =>
      l.texts = frame :: ({ l with dispatcher := l.dispatcher.perform a } : Link).texts
    | _ => ({ l with dispatcher := l.dispatcher.perform a } : Link).texts <+ l.texts := by
  have hq := Dispatcher.frames_perform l.dispatcher a
  cases a with
  | handle frame =>
    obtain ⟨items, hf⟩ := List.head?_eq_some_iff.mp hr.2.2.2
    simp [texts, hq, Dispatcher.Queues.after, Dispatcher.queues, Dispatcher.dropHead, hf]
  | _ =>
    simp [texts, hq, Dispatcher.Queues.after, Dispatcher.queues, Dispatcher.Queues.closed,
      Mailbox.dropReceiver]

theorem texts_perform_sublist {l : Link} {a : Act} (hr : l.dispatcher.Ready a) :
    ({ l with dispatcher := l.dispatcher.perform a } : Link).texts <+ l.texts := by
  have h := texts_perform hr
  cases a with
  | handle frame => rw [h]; exact List.sublist_cons_self _ _
  | _ => exact h

theorem sent_live (l : Link) (m : Moment) :
    (l.live m).sent.filterMap Incoming.text? =
      l.sent.filterMap Incoming.text? ++ m.text?.toList := by
  rcases live_cases l m with ⟨a, -, -, ht, -, he⟩ | ⟨-, h⟩
  · rw [he, ht]
    exact (List.append_nil _).symm
  · exact h.sent

theorem texts_sublist_sent (limit window : Duration) (c : Capacities) (moments : List Moment) :
    ((start limit window c).run moments).texts <+
      ((start limit window c).run moments).sent.filterMap Incoming.text? := by
  induction moments using List.reverseRecOn with
  | nil => exact List.Sublist.refl _
  | append_singleton moments m ih =>
    rw [run_concat, sent_live]
    rcases live_cases ((start limit window c).run moments) m with ⟨a, -, hr, -, -, he⟩ | ⟨-, h⟩
    · rw [he]
      exact (texts_perform_sublist hr).trans (ih.trans (List.sublist_append_left _ _))
    · exact h.texts.trans (ih.append_right _)

theorem count_flying_le (limit window : Duration) (c : Capacities) (moments : List Moment)
    (id : Nat) :
    ((start limit window c).run moments).flying.count id ≤
      ((start limit window c).run moments).answers.count id :=
  ((texts_sublist_sent limit window c moments).filterMap _).count_le id

theorem read_live (l : Link) (m : Moment) : l.read <+: (l.live m).read := by
  rcases live_cases l m with ⟨a, -, -, -, -, he⟩ | ⟨-, h⟩
  · simp only [he, List.prefix_rfl]
  · exact h.read

theorem read_prefix_handed (limit window : Duration) (c : Capacities) (moments : List Moment) :
    ((start limit window c).run moments).read <+:
      ((start limit window c).run moments).writer.handed := by
  induction moments using List.reverseRecOn with
  | nil => exact List.prefix_refl _
  | append_singleton moments m ih =>
    rw [run_concat]
    rcases live_cases ((start limit window c).run moments) m with ⟨a, -, -, -, -, he⟩ | ⟨-, h⟩
    · rw [he]
      exact ih
    · exact h.readable ih

theorem answers_live (l : Link) (m : Moment) :
    (l.live m).answers = l.answers ++ (m.text?.bind answeredId?).toList := by
  rw [answers, sent_live, List.filterMap_append]
  cases ht : m.text? with
  | none => rfl
  | some text => cases hi : answeredId? text <;> simp [answers, hi]

theorem count_answers_le {l : Link} (honest : Honest l moments)
    (h : ∀ id, l.answers.count id ≤ l.questions.count id) (id : Nat) :
    (l.run moments).answers.count id ≤ (l.run moments).questions.count id := by
  induction moments using List.reverseRecOn with
  | nil => exact h id
  | append_singleton moments m ih =>
    rw [honest_concat] at honest
    have ha := ih honest.1
    have hq : (l.run moments).questions.count id ≤ ((l.run moments).live m).questions.count id :=
      ((((read_live (l.run moments) m).sublist).filterMap _).map _).count_le id
    rw [run_concat, answers_live, List.count_append]
    refine Nat.le_trans ?_ hq
    cases hi : m.text?.bind answeredId? with
    | none => simpa using ha
    | some other =>
      have ho := honest.2 other hi
      -- the one more answer is to a question that was open
      by_cases h : other = id
      · subst h
        rw [Option.toList_some, List.count_singleton_self]
        exact ho
      · simpa [h] using ha

/-! ## The table -/

/-- The table has an entry for a command. -/
def Noted (d : Dispatcher) (out : Outbound) : Prop :=
  ∃ p, d.table.find? out.id = some p ∧ p.name = out.command.name ∧ p.shape = out.command.shape

theorem noted_of_mem_taken {d : Dispatcher} {a : Act} {out : Outbound} (h : out ∈ d.taken a) :
    Noted (d.perform a) out := by
  obtain ⟨s, rfl, hg, hf, rfl⟩ := Dispatcher.mem_taken h
  refine ⟨s.pending, ?_, rfl, rfl⟩
  rw [Dispatcher.find?_perform, Dispatcher.matter?, if_pos rfl, hf]
  simp [Dispatcher.after, Matter.next, hg]

theorem noted_of_mem_hand {out : Outbound}
    (h : out ∈ ((start limit window c).run moments).dispatcher.hand) :
    Noted ((start limit window c).run moments).dispatcher out := by
  induction moments using List.reverseRecOn with
  | nil => simp [run, start, Dispatcher.start, Dispatcher.hand] at h
  | append_singleton moments m ih =>
    rw [run_concat] at h ⊢
    rcases live_cases ((start limit window c).run moments) m with ⟨a, -, hr, -, -, he⟩ | ⟨-, hb⟩
    · rw [he] at h ⊢
      exact noted_of_mem_taken (Dispatcher.hand_perform hr ▸ h)
    · rw [Noted, hb.table]
      exact ih (Dispatcher.hand_of_phase_eq hb.phase ▸ h)

/-- What is known of an id that has left the intake, after some acts: it is in the table, unless the
dispatcher has stopped, the id was given up, or its response has come. -/
def Known (l : Link) (acts : List Act) (id : Nat) : Prop :=
  (∃ reason, l.dispatcher.phase = .stopped reason) ∨ (l.dispatcher.table.find? id).isSome ∨
    .abandon id ∈ acts ∨ l.flying.count id < l.answers.count id

theorem known_of_bystands {m : Moment} {l l' : Link} {acts : List Act} {id : Nat}
    (hb : Bystands m l l') (h : Known l acts id) : Known l' acts id := by
  have hf := (hb.texts.filterMap answeredId?).count_le id
  have ha : l'.answers = l.answers ++ m.text?.toList.filterMap answeredId? := by
    rw [answers, hb.sent, List.filterMap_append]
    rfl
  rw [List.filterMap_append, List.count_append] at hf
  rw [Known, hb.phase, hb.table, ha, List.count_append]
  refine h.imp_right (Or.imp_right (Or.imp_right fun h => ?_))
  rw [flying] at h ⊢
  omega

theorem known_perform {l : Link} {a : Act} {acts : List Act} {id : Nat}
    (hr : l.dispatcher.Ready a) (hone : l.requests.count id ≤ 1)
    (hid : id ∈ l.registered.map (·.id)) (hf : l.flying.count id ≤ l.answers.count id)
    (h : Known l acts id) :
    Known { l with dispatcher := l.dispatcher.perform a } (acts ++ [a]) id := by
  rcases h with ⟨reason, hp⟩ | hs | hm | hlt
  · exact absurd hp (hr.phase_ne reason)
  · obtain ⟨p, hp⟩ := Option.isSome_iff_exists.mp hs
    -- if the id leaves the table, then by one of five acts
    cases hn : (l.dispatcher.perform a).table.find? id with
    | some q => exact .inr (.inl (Option.isSome_iff_exists.mpr ⟨q, hn⟩))
    | none =>
      rcases Dispatcher.act_of_left hp hn with
        ⟨reason, rfl⟩ | ⟨out, rfl⟩ | rfl | ⟨failure, rfl, rfl⟩ | ⟨frame, rfl, ho⟩
      · exact .inl ⟨reason, rfl⟩
      · exact .inl ⟨.writerGone, rfl⟩
      · exact .inr (.inr (.inl (List.mem_append_right _ (List.mem_singleton_self _))))
      · -- the failure would be a second place for the id
        obtain ⟨items, hi⟩ := List.head?_eq_some_iff.mp hr.2.2
        have hreg := List.count_pos_iff.mpr hid
        rw [registered] at hreg
        rw [requests, Writer.requests, hi, List.count_append, List.count_append, List.map_cons,
          List.count_cons_self] at hone
        omega
      · have hfly := congrArg (List.filterMap answeredId?) (texts_perform hr)
        rw [List.filterMap_cons_some ho] at hfly
        rw [flying, hfly, List.count_cons_self] at hf
        exact .inr (.inr (.inr hf))
  · exact .inr (.inr (.inl (List.mem_append_left _ hm)))
  · have ht := (texts_perform_sublist hr).filterMap answeredId?
    exact .inr (.inr (.inr (Nat.lt_of_le_of_lt (ht.count_le id) hlt)))

/-- An id that left the intake is known. -/
theorem known_run (own : OwnIds moments) {id : Nat}
    (hid : id ∈ ((start limit window c).run moments).registered.map (·.id)) :
    Known ((start limit window c).run moments) ((start limit window c).acts moments) id := by
  induction moments using List.reverseRecOn with
  | nil => simp [run, start, Dispatcher.start, Dispatcher.hand, registered,
      Writer.registered, Writer.outgoing, Writer.commands, Writer.start, Mailbox.bounded] at hid
  | append_singleton moments m ih =>
    have ih := ih own.of_append
    rw [run_concat] at hid ⊢
    rw [acts_concat]
    obtain ⟨out, ho, rfl⟩ := List.mem_map.mp hid
    rcases live_cases ((start limit window c).run moments) m with ⟨a, ha, hr, -, -, he⟩ | ⟨ha, hb⟩
    · rw [he] at ho ⊢
      rw [ha, Option.toList_some]
      rcases Writer.mem_registered_perform hr ho with ho | ho
      · have hm := List.mem_map_of_mem (f := (·.id)) ho
        exact known_perform hr (count_requests_le_one limit window c own.of_append _) hm
          (count_flying_le limit window c moments _) (ih hm)
      · obtain ⟨p, hp, -⟩ := noted_of_mem_taken ho
        exact .inr (.inl (Option.isSome_iff_exists.mpr ⟨p, hp⟩))
    · rw [ha, Option.toList_none, List.append_nil]
      have hold := Writer.mem_registered_of_phase_eq hb.phase hb.outgoing ho
      exact known_of_bystands hb (ih (List.mem_map_of_mem hold))

/-! ## Ids that are given up -/

theorem mem_abandoned {id : Nat}
    (h : id ∈ ((start limit window c).run moments).dispatcher.abandoned.items) :
    .outside (.abandon id) ∈ moments := by
  induction moments using List.reverseRecOn with
  | nil => simp [run, start, Dispatcher.start, Mailbox.unbounded] at h
  | append_singleton moments m ih =>
    rw [run_concat] at h
    rcases live_cases ((start limit window c).run moments) m with ⟨a, -, -, -, -, he⟩ | ⟨-, hb⟩
    · rw [he] at h
      exact List.mem_append_left _ (ih (Dispatcher.abandoned_perform_subset _ a h))
    · rcases List.mem_append.mp (hb.abandoned.subset h) with h | h
      · exact List.mem_append_left _ (ih h)
      · refine List.mem_append_right _ (List.mem_singleton.mpr ?_)
        cases m with
        | outside i =>
          cases i with
          | abandon other => exact congrArg _ (congrArg _ (List.mem_singleton.mp h))
          | _ => simp [Moment.abandoned?, Dispatcher.Input.abandoned?] at h
        | _ => simp [Moment.abandoned?] at h

theorem given_of_mem_acts {id : Nat}
    (h : .abandon id ∈ (start limit window c).acts moments) :
    .outside (.abandon id) ∈ moments := by
  induction moments using List.reverseRecOn with
  | nil => simp [acts] at h
  | append_singleton moments m ih =>
    rw [acts_concat, List.mem_append] at h
    rcases h with h | h
    · exact List.mem_append_left _ (ih h)
    · rcases live_cases ((start limit window c).run moments) m with ⟨a, ha, hr, -, -, -⟩ | ⟨ha, -⟩
      · rw [ha, Option.toList_some, List.mem_singleton] at h
        subst h
        exact List.mem_append_left _ (mem_abandoned hr.mem_abandoned)
      · simp [ha] at h

/-! ## Runs -/

/-- A command was put into the queue of the writer in a run, when it was in the table and no command
with its id had been put there before. -/
def Forwarded (l : Link) (moments : List Moment) (out : Outbound) : Prop :=
  ∃ earlier m later, moments = earlier ++ m :: later ∧
    (l.run earlier).act? m = some (.forward out) ∧ Noted (l.run earlier).dispatcher out ∧
    out.id ∉ (l.run earlier).outgoing.map (·.id)

theorem Forwarded.concat {l : Link} {out : Outbound} (h : Forwarded l moments out) (m : Moment) :
    Forwarded l (moments ++ [m]) out := by
  obtain ⟨earlier, m', later, rfl, hrest⟩ := h
  exact ⟨earlier, m', later ++ [m], by simp, hrest⟩

/-- A command is registered before it is sent. -/
theorem forwarded_of_mem (own : OwnIds moments) {out : Outbound}
    (ho : out ∈ ((start limit window c).run moments).outgoing) :
    Forwarded (start limit window c) moments out := by
  induction moments using List.reverseRecOn with
  | nil =>
    simp [run, start, Dispatcher.start, outgoing, Writer.outgoing, Writer.commands,
      Writer.start, Mailbox.bounded] at ho
  | append_singleton moments m ih =>
    have ih := fun h => (ih own.of_append h).concat m
    rw [run_concat] at ho
    rcases live_cases ((start limit window c).run moments) m with ⟨a, ha, hr, -, -, he⟩ | ⟨-, hb⟩
    · rw [he] at ho
      rcases Writer.mem_outgoing_perform ho with ho | rfl
      · exact ih ho
      · have hd : ((start limit window c).run moments).dispatcher.hand = [out] := by
          rw [Dispatcher.hand, hr.1]
        refine ⟨moments, m, [], rfl, ha, noted_of_mem_hand (by simp [hd]), fun hm => ?_⟩
        -- the hand is the one place for the id
        have hone := count_requests_le_one limit window c own.of_append out.id
        have hm := List.count_pos_iff.mpr hm
        rw [outgoing] at hm
        simp only [requests, Writer.requests, Writer.registered, hd, List.map_append,
          List.map_cons, List.map_nil, List.count_append, List.count_singleton_self] at hone
        omega
    · exact ih (hb.outgoing out ho)

/-- How an honest peer and the table of pending commands go together in a run. -/
structure RegisteredFirst (l : Link) (moments : List Moment) : Prop where
  /-- What is in the queue of the writer or was ever handed to the socket was in the table before it
  was put into the queue. -/
  forwarded : ∀ out ∈ (l.run moments).outgoing, Forwarded l moments out
  /-- A response on its way is one to a command that the peer has read, and whose id was in the
  table. -/
  expected : ∀ id ∈ (l.run moments).flying, id ∈ (l.run moments).questions ∧
    ∃ earlier later, moments = earlier ++ later ∧
      ((l.run earlier).dispatcher.table.find? id).isSome
  /-- A response is discarded as unmatched only if its caller gave its id up before, and the
  dispatcher knew. -/
  unmatched : ∀ earlier m later id, moments = earlier ++ m :: later →
    (l.run (earlier ++ [m])).dispatcher.discarded =
      (l.run earlier).dispatcher.discarded ++ [.unmatchedResponse id] →
      .outside (.abandon id) ∈ earlier ∧ .abandon id ∈ l.acts earlier
  /-- A response with an id that was not given up goes to the caller that waits for it. -/
  waiting : ∀ earlier m later frame id, moments = earlier ++ m :: later →
    (l.run earlier).act? m = some (.handle frame) → answeredId? frame = some id →
    .abandon id ∉ l.acts earlier →
      ∃ p, (l.run earlier).dispatcher.table.find? id = some p ∧
        (p.ticket, .told (replyTo id p.shape frame)) ∈
          (l.run (earlier ++ [m])).dispatcher.replies

theorem questions_of_flying (honest : Honest (start limit window c) moments) {id : Nat}
    (h : id ∈ ((start limit window c).run moments).flying) :
    id ∈ ((start limit window c).run moments).questions := by
  have hf := List.count_pos_iff.mpr h
  have ha := count_flying_le limit window c moments id
  have hq := count_answers_le honest (fun _ => Nat.le_refl _) id
  exact List.count_pos_iff.mp (by omega)

theorem questions_subset_outgoing {l : Link} (h : l.read <+: l.writer.handed) {id : Nat}
    (hid : id ∈ l.questions) : id ∈ l.outgoing.map (·.id) := by
  rw [outgoing, Writer.outgoing, List.map_append]
  exact List.mem_append_right _ (((h.sublist.filterMap _).map _).subset hid)

/-- A response to nobody is one that was given up. -/
theorem abandoned_of_unmatched (own : OwnIds moments)
    (honest : Honest (start limit window c) moments) {frame : String} {id : Nat}
    (hr : ((start limit window c).run moments).dispatcher.Ready (.handle frame))
    (hid : answeredId? frame = some id)
    (hf : ((start limit window c).run moments).dispatcher.table.find? id = none) :
    .abandon id ∈ (start limit window c).acts moments := by
  have hfly : id ∈ ((start limit window c).run moments).flying := by
    rw [flying, texts_perform hr, List.filterMap_cons_some hid]
    exact List.mem_cons_self
  have hpre := read_prefix_handed limit window c moments
  have hout := questions_subset_outgoing hpre (questions_of_flying honest hfly)
  have hreg : id ∈ ((start limit window c).run moments).registered.map (·.id) := by
    rw [registered, Writer.registered, List.map_append]
    exact List.mem_append_right _ hout
  rcases known_run own hreg with ⟨reason, hp⟩ | hs | ha | hlt
  · exact absurd hp (hr.phase_ne reason)
  · rw [hf] at hs
    simp at hs
  · exact ha
  · -- two responses would be two commands with the id
    exfalso
    have hone := count_requests_le_one limit window c own id
    have hq := count_answers_le honest (fun _ => Nat.le_refl _) id
    have hread := ((hpre.sublist.filterMap Parcel.command?).map (·.id)).count_le id
    have hpos := List.count_pos_iff.mpr hfly
    simp only [requests, Writer.requests, Writer.registered, Writer.outgoing, List.map_append,
      List.count_append,
      Writer.commands] at hone
    rw [questions] at hq
    omega

/-- **Commands are registered before they are sent**, whatever the order in which the dispatcher, the
writer, the reader and an honest peer do their work. -/
theorem registeredFirst (limit window : Duration) (c : Capacities) (moments : List Moment)
    (own : OwnIds moments) (honest : Honest (start limit window c) moments) :
    RegisteredFirst (start limit window c) moments where
  forwarded out ho := forwarded_of_mem own ho
  expected id hid := by
    have hq := questions_of_flying honest hid
    have hout := questions_subset_outgoing (read_prefix_handed limit window c moments) hq
    obtain ⟨out, ho, rfl⟩ := List.mem_map.mp hout
    obtain ⟨earlier, m, later, rfl, -, ⟨p, hp, -⟩, -⟩ := forwarded_of_mem own ho
    exact ⟨hq, earlier, m :: later, rfl, Option.isSome_iff_exists.mpr ⟨p, hp⟩⟩
  unmatched earlier m later id hm hd := by
    subst hm
    rw [run_concat] at hd
    rcases live_cases ((start limit window c).run earlier) m with ⟨a, -, hr, -, -, he⟩ | ⟨-, hb⟩
    · rw [he] at hd
      obtain ⟨frame, rfl, hid, hf⟩ := Dispatcher.unmatched_perform hd
      have ha := abandoned_of_unmatched own.of_append (honest_append honest) hr hid hf
      exact ⟨given_of_mem_acts ha, ha⟩
    · rw [hb.discarded] at hd
      simp at hd
  waiting earlier m later frame id hm ha hid hnot := by
    subst hm
    rcases live_cases ((start limit window c).run earlier) m with ⟨a, ha', hr, -, -, he⟩ | ⟨ha', -⟩
    · obtain rfl := Option.some.inj (ha.symm.trans ha')
      cases hf : ((start limit window c).run earlier).dispatcher.table.find? id with
      | none =>
        exact absurd (abandoned_of_unmatched own.of_append (honest_append honest) hr hid hf) hnot
      | some p =>
        refine ⟨p, rfl, ?_⟩
        rw [run_concat, he, Dispatcher.replies_perform, Dispatcher.news, hid]
        simp only [hf]
        exact List.mem_append_right _ (List.mem_singleton_self _)
    · rw [ha] at ha'
      cases ha'

/-- A peer that answers two commands, the first of which was given up in the meantime. -/
theorem registeredFirst_of_two_callers :
    let first := "\x7b\"type\":\"response\",\"id\":1,\"status\":\"success\",\"result\":\x7b\x7d\x7d"
    let second := "\x7b\"type\":\"response\",\"id\":2,\"status\":\"success\",\"result\":\x7b\x7d\x7d"
    let moments : List Moment :=
      [.outside (.submit ⟨1, .ping, 0⟩), .outside (.submit ⟨2, .ping, 1⟩),
        .dispatch true, .dispatch true, .take, .written .done, .dispatch true, .dispatch true,
        .take, .written .done, .read, .read, .outside (.leave 0), .outside (.abandon 1),
        .send (.text first), .send (.text second), .arrive, .hand, .arrive, .hand,
        .dispatch true, .dispatch true, .dispatch true]
    let l := start ⟨1⟩ ⟨1⟩ ⟨4, 4, 4, 4⟩
    OwnIds moments ∧ Honest l moments ∧ RegisteredFirst l moments ∧
      (l.run moments).dispatcher.discarded = [.unmatchedResponse 1] ∧
      (l.run moments).dispatcher.replies =
        [(0, .dropped), (1, .told (replyTo 2 Command.ping.shape second))] :=
  ⟨by decide, by decide, registeredFirst _ _ _ _ (by decide) (by decide), rfl, rfl⟩

end LedgerClient.Link
