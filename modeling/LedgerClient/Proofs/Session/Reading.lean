import LedgerClient.Proofs.Session.Delivery
import LedgerClient.Proofs.Socket.Reading

/-!
# What comes off the socket of a session

The reader of a session receives one item after the other until one of them is an end, until it has
waited too long, or until nobody takes its texts any more. `Reader.Account` says what it has made of
the items at each point: the texts that it handed over are the texts among them, but for one that it
has in hand or that was lost with the dispatcher. With the way of frames (`Inflow`) it follows that
the dispatcher deals with the texts that were handed over, in order, and with all of them if it stops
because frames have come to their end.
-/

namespace LedgerClient

open Dispatcher (Act)

/-! ## The reader -/

/-- What a reader has made of the items that it received: the texts that it handed over, and why it
goes on or has stopped. -/
inductive Reader.Account (window : Duration) (items : List Incoming) (given : List String) :
    Reader → Prop
  | idle (hg : given = Incoming.texts items) (hn : ∀ item ∈ items, item.end? = none) :
    Account window items given .idle
  | holding (text : String) (hg : given ++ [text] = Incoming.texts items)
    (hn : ∀ item ∈ items, item.end? = none) : Account window items given (.holding text)
  /-- The last item was an end. -/
  | met (reason : SessionEnd) (earlier : List Incoming) (last : Incoming)
    (hi : items = earlier ++ [last]) (he : last.end? = some reason)
    (hg : given = Incoming.texts items) (hn : ∀ item ∈ earlier, item.end? = none) :
    Account window items given (.stopped reason)
  | silent (hg : given = Incoming.texts items) (hn : ∀ item ∈ items, item.end? = none) :
    Account window items given (.stopped (.livenessExpired window))
  /-- There was no dispatcher to take the last text. -/
  | lost (text : String) (hg : given ++ [text] = Incoming.texts items)
    (hn : ∀ item ∈ items, item.end? = none) : Account window items given (.stopped .closed)
  /-- It was given up, and with it the text in its hand. -/
  | abandoned (held : Option String) (hg : given ++ held.toList = Incoming.texts items)
    (hn : ∀ item ∈ items, item.end? = none) : Account window items given .abandoned

namespace Reader.Account

variable {window : Duration} {items : List Incoming} {given : List String} {r : Reader}
  {d : Dispatcher} {r' : Reader × Dispatcher}

theorem isPrefix (h : Account window items given r) : given <+: Incoming.texts items := by
  cases h with
  | idle hg => exact hg ▸ List.prefix_refl _
  | holding text hg => exact hg ▸ List.prefix_append _ _
  | met reason earlier last hi he hg => exact hg ▸ List.prefix_refl _
  | silent hg => exact hg ▸ List.prefix_refl _
  | lost text hg => exact hg ▸ List.prefix_append _ _
  | abandoned held hg => exact hg ▸ List.prefix_append _ _

theorem receive {item : Incoming} (h : Account window items given r)
    (hr : r.receive item d = some r') : Account window (items ++ [item]) given r'.1 := by
  obtain ⟨rfl, hcases⟩ := Reader.receive_cases hr
  obtain ⟨hg, hn⟩ : given = Incoming.texts items ∧ ∀ item ∈ items, item.end? = none := by
    cases h with
    | idle hg hn => exact ⟨hg, hn⟩
  have hall (he : item.end? = none) : ∀ i ∈ items ++ [item], i.end? = none :=
    List.forall_mem_append.mpr ⟨hn, List.forall_mem_singleton.mpr he⟩
  have hnone (ht : item.text? = none) : given = Incoming.texts (items ++ [item]) := by
    rw [Incoming.texts_concat, ht, hg]
    exact (List.append_nil _).symm
  rcases hcases with ⟨t, ht, he, rfl⟩ | ⟨reason, ht, he, rfl⟩ | ⟨ht, he, rfl⟩
  · refine .holding t ?_ (hall he)
    rw [Incoming.texts_concat, ht, hg]
    rfl
  · exact .met reason items item rfl he (hnone ht) hn
  · exact .idle (hnone ht) (hall he)

theorem hand (h : Account window items given r) (hr : r.hand d = some r') :
    (∃ text, r = .holding text ∧ r'.1 = .idle ∧
        Account window items (given ++ [text]) r'.1) ∨
      (r'.1 = .stopped .closed ∧ Account window items given r'.1) := by
  obtain ⟨text, rfl, ⟨frames, -, rfl⟩ | ⟨-, rfl⟩⟩ := Reader.hand_cases hr
  · cases h with
    | holding _ hg hn => exact .inl ⟨text, rfl, rfl, .idle hg hn⟩
  · cases h with
    | holding _ hg hn => exact .inr ⟨rfl, .lost text hg hn⟩

theorem expire (h : Account window items given r) (hr : r.expire window d = some r') :
    Account window items given r'.1 := by
  obtain ⟨rfl, rfl⟩ := Reader.expire_cases hr
  cases h with
  | idle hg hn => exact .silent hg hn

theorem giveUp (h : Account window items given r) :
    Account window items given (r.giveUp d).1 := by
  unfold Reader.giveUp
  split
  · exact h
  · rename_i hs
    cases h with
    | idle hg hn => exact .abandoned none (by rw [hg]; exact List.append_nil _) hn
    | holding text hg hn => exact .abandoned (some text) hg hn
    | abandoned held hg hn => exact .abandoned held hg hn
    | _ => exact absurd rfl (hs _)

end Reader.Account

/-! ## Sessions -/

namespace Session

variable {s : Session}

/-- What the reader receives in a moment. -/
def item? (s : Session) : Moment → Option Incoming
  | .arrive item => (s.reader.receive item s.dispatcher).map fun _ => item
  | _ => none

/-- What the reader receives in a run, in order. -/
def items (s : Session) (moments : List Moment) : List Incoming :=
  trail live (fun s m => (s.item? m).toList) s moments

/-- The text that the reader hands over in a moment. -/
def given? (s : Session) : Moment → Option String
  | .hand =>
    match s.reader.hand s.dispatcher with
    | some (.idle, _) => s.reader.held.head?
    | _ => none
  | _ => none

/-- The texts that the reader hands over in a run, in order. -/
def given (s : Session) (moments : List Moment) : List String :=
  trail live (fun s m => (s.given? m).toList) s moments

theorem items_concat (s : Session) (moments : List Moment) (m : Moment) :
    s.items (moments ++ [m]) = s.items moments ++ ((s.run moments).item? m).toList :=
  trail_concat s moments m

theorem given_concat (s : Session) (moments : List Moment) (m : Moment) :
    s.given (moments ++ [m]) = s.given moments ++ ((s.run moments).given? m).toList :=
  trail_concat s moments m

theorem arrived_eq (s : Session) (moments : List Moment) :
    s.arrived moments = Incoming.texts (s.items moments) := by
  induction moments using List.reverseRecOn with
  | nil => rfl
  | append_singleton moments m ih =>
    rw [arrived_concat, items_concat, ih, Incoming.texts_append]
    refine congrArg (Incoming.texts (s.items moments) ++ ·) ?_
    cases m with
    | arrive item =>
      simp only [text?, item?]
      cases (s.run moments).reader.receive item (s.run moments).dispatcher with
      | none => rfl
      | some r => cases ht : item.text? <;> simp [Incoming.texts, ht]
    | _ => rfl

theorem nothing_read_of_none {m : Moment} (h : s.step m = none) :
    s.item? m = none ∧ s.given? m = none := by
  cases m with
  | arrive item =>
    rw [step, Option.map_eq_none_iff] at h
    exact ⟨by rw [item?, h, Option.map_none], rfl⟩
  | hand =>
    rw [step, Option.map_eq_none_iff] at h
    exact ⟨rfl, by rw [given?, h]⟩
  | _ => exact ⟨rfl, rfl⟩

/-- A moment keeps the account of the reader. -/
theorem account_live {items : List Incoming} {given : List String}
    (h : s.reader.Account s.settings.livenessWindow items given) (m : Moment) :
    (s.live m).reader.Account s.settings.livenessWindow (items ++ (s.item? m).toList)
      (given ++ (s.given? m).toList) := by
  have hsame {r : Reader} (hr : r.Account s.settings.livenessWindow items given) :
      r.Account s.settings.livenessWindow (items ++ (none : Option Incoming).toList)
        (given ++ (none : Option String).toList) := by
    rw [Option.toList_none, Option.toList_none, List.append_nil, List.append_nil]
    exact hr
  cases hs : s.step m with
  | none =>
    obtain ⟨hi, hg⟩ := nothing_read_of_none hs
    rw [hi, hg, live_of_none hs]
    exact hsame h
  | some s' =>
    rw [live_of_step hs]
    cases step_cases hs with
    | arrive hr =>
      simp only [item?, hr, given?, Option.map_some, Option.toList_some, Option.toList_none,
        List.append_nil]
      exact h.receive hr
    | @hand r hr =>
      obtain ⟨reader, d⟩ := r
      simp only [item?, given?, hr, Option.toList_none, List.append_nil]
      rcases h.hand hr with ⟨text, ht, hidle, ha⟩ | ⟨hstop, ha⟩
      · obtain rfl : reader = .idle := hidle
        rw [ht]
        exact ha
      · obtain rfl : reader = .stopped .closed := hstop
        rw [Option.toList_none, List.append_nil]
        exact ha
    | silence hr => exact hsame (h.expire hr)
    | conclude => exact hsame h.giveUp
    | dispatch | takeEvent | dropEvents => exact hsame h
    | _ =>
      refine hsame ?_
      rw [(aside_step rfl hs).reader]
      exact h

theorem account_run (settings : Connection.Settings) (moments : List Moment) :
    ((start settings).run moments).reader.Account settings.livenessWindow
      ((start settings).items moments) ((start settings).given moments) := by
  induction moments using List.reverseRecOn with
  | nil => exact .idle rfl nofun
  | append_singleton moments m ih =>
    have hs := settings_run (start settings) moments
    have h := account_live (s := (start settings).run moments) (by rw [hs]; exact ih) m
    rw [items_concat, given_concat, run_concat]
    rwa [hs] at h

/-! ## From the reader to the dispatcher -/

theorem frames_live {m : Moment} (ha : s.act? m = none) (hg : s.given? m = none) :
    (s.live m).dispatcher.frames.items = s.dispatcher.frames.items := by
  refine live_of_kept (P := (·.dispatcher.frames.items = s.dispatcher.frames.items)) rfl ?_
  intro s' h
  cases step_cases h with
  | dispatch ha' => cases ha.symm.trans ha'
  | takeEvent | dropEvents => rfl
  | arrive hr =>
    obtain ⟨-, ⟨_, -, -, rfl⟩ | ⟨_, -, -, rfl⟩ | ⟨-, -, rfl⟩⟩ := Reader.receive_cases hr <;> rfl
  | hand hr =>
    obtain ⟨text, ht, ⟨frames, -, rfl⟩ | ⟨-, rfl⟩⟩ := Reader.hand_cases hr
    · -- the text was handed over
      rw [given?, hr, ht] at hg
      cases hg
    · rfl
  | silence hr =>
    obtain ⟨-, rfl⟩ := Reader.expire_cases hr
    rfl
  | conclude => cases s.reader <;> rfl
  | _ => rw [(aside_step rfl h).frames]

theorem live_of_given {m : Moment} {text : String} (h : s.given? m = some text) :
    m = .hand ∧ (s.live m).dispatcher.frames.items = s.dispatcher.frames.items ++ [text] := by
  cases m with
  | hand =>
    simp only [given?] at h
    cases hr : s.reader.hand s.dispatcher with
    | none => simp [hr] at h
    | some r =>
      have hl : s.live .hand = s.withReader r := live_of_step (by rw [step, hr]; rfl)
      obtain ⟨held, hreader, ⟨frames, hp, rfl⟩ | ⟨-, rfl⟩⟩ := Reader.hand_cases hr
      · rw [hr, hreader] at h
        obtain rfl : held = text := Option.some.inj h
        rw [hl]
        exact ⟨rfl, Mailbox.items_of_push? hp⟩
      · simp [hr] at h
  | _ => cases h

/-- The frames that the dispatcher has dealt with are the first that were handed over, and while it
runs the others are queued. -/
structure Handed (handled given : List String) (d : Dispatcher) : Prop where
  isPrefix : handled <+: given
  queued : (∀ reason, d.phase ≠ .stopped reason) → handled ++ d.frames.items = given

theorem Handed.perform {handled given : List String} {d : Dispatcher} {a : Act}
    (h : Handed handled given d) (hr : d.Ready a) :
    Handed (handled ++ a.frame?.toList) given (d.perform a) := by
  have hq := h.queued hr.phase_ne
  have hframes := Dispatcher.frames_perform d a
  cases a with
  | handle frame =>
    obtain ⟨rest, hi⟩ := List.head?_eq_some_iff.mp hr.2.2.2
    have hq : handled ++ [frame] ++ (d.perform (.handle frame)).frames.items = given := by
      rw [hframes, ← hq]
      simp [Dispatcher.Queues.after, Dispatcher.queues, Dispatcher.dropHead, hi]
    exact ⟨⟨_, hq⟩, fun _ => hq⟩
  | stop reason =>
    exact ⟨(List.append_nil handled).symm ▸ h.isPrefix, fun hs => absurd rfl (hs reason)⟩
  | lose out =>
    exact ⟨(List.append_nil handled).symm ▸ h.isPrefix, fun hs => absurd rfl (hs .writerGone)⟩
  | _ =>
    refine ⟨(List.append_nil handled).symm ▸ h.isPrefix, fun _ => ?_⟩
    rw [hframes]
    exact (List.append_nil handled).symm ▸ hq

theorem handed_live {handled given : List String} (h : Handed handled given s.dispatcher)
    (m : Moment) :
    Handed (handled ++ ((s.act? m).bind Act.frame?).toList) (given ++ (s.given? m).toList)
      (s.live m).dispatcher := by
  cases ha : s.act? m with
  | some a =>
    obtain ⟨b, rfl, hb⟩ := act?_eq_some ha
    have hg : s.given? (.dispatch b) = none := rfl
    rw [live_dispatch hb, hg, Option.toList_none, List.append_nil, Option.bind_some]
    exact h.perform (Dispatcher.ready_of_act? hb)
  | none =>
    rw [Option.bind_none, Option.toList_none, List.append_nil]
    have hphase := phase_live ha
    cases hg : s.given? m with
    | none =>
      rw [Option.toList_none, List.append_nil]
      exact ⟨h.isPrefix, by rw [hphase, frames_live ha hg]; exact h.queued⟩
    | some text =>
      refine ⟨h.isPrefix.trans (List.prefix_append _ _), ?_⟩
      rw [hphase, (live_of_given hg).2, ← List.append_assoc]
      exact fun hs => congrArg (· ++ [text]) (h.queued hs)

theorem handed_run (settings : Connection.Settings) (moments : List Moment) :
    Handed ((start settings).handled moments) ((start settings).given moments)
      ((start settings).run moments).dispatcher := by
  induction moments using List.reverseRecOn with
  | nil => exact ⟨List.prefix_refl _, fun _ => rfl⟩
  | append_singleton moments m ih =>
    rw [handled_concat, given_concat, run_concat]
    exact handed_live ih m

theorem stopped_of_left (settings : Connection.Settings) (moments : List Moment)
    (h : ((start settings).run moments).reader = .stopped .closed ∨
      ((start settings).run moments).reader = .abandoned) :
    ∃ reason, ((start settings).run moments).dispatcher.phase = .stopped reason := by
  induction moments using List.reverseRecOn with
  | nil => rcases h with h | h <;> cases h
  | append_singleton moments m ih =>
    rw [run_concat] at h ⊢
    have hfifo := (flow_run settings moments).inflow.fifo
    generalize (start settings).run moments = s at h ih hfifo ⊢
    by_contra hc
    have hlive : ∀ reason, s.dispatcher.phase ≠ .stopped reason := fun reason hp =>
      hc ⟨reason, stopped_live hp m⟩
    have hsame : (s.live m).reader ≠ s.reader := fun he => by
      obtain ⟨reason, hp⟩ := ih (he ▸ h)
      exact hlive reason hp
    cases hs : s.step m with
    | none => exact hsame (by rw [live_of_none hs])
    | some s' =>
      rw [live_of_step hs] at h hsame
      cases step_cases hs with
      | @arrive item _ hr =>
        obtain ⟨-, ⟨_, -, -, rfl⟩ | ⟨_, -, he, rfl⟩ | ⟨-, -, rfl⟩⟩ := Reader.receive_cases hr
        · rcases h with h | h <;> cases h
        · -- no end of a socket is a closing on this side
          rcases h with h | h <;> cases h
          cases item <;> cases he
        · rcases h with h | h <;> cases h
      | hand hr =>
        obtain ⟨text, -, ⟨frames, -, rfl⟩ | ⟨hn, rfl⟩⟩ := Reader.hand_cases hr
        · rcases h with h | h <;> cases h
        · rw [(hfifo hlive).2] at hn
          cases hn
      | silence hr =>
        obtain ⟨-, rfl⟩ := Reader.expire_cases hr
        rcases h with h | h <;> cases h
      | conclude _ hp => exact hlive _ hp
      | dispatch | takeEvent | dropEvents => exact hsame rfl
      | _ => exact hsame (aside_step rfl hs).reader

/-! ## Everything that is read -/

theorem live_of_reception_eq {item other : Incoming} (h : item.reception = other.reception)
    (s : Session) : s.live (.arrive item) = s.live (.arrive other) := by
  simp only [live, step, Reader.receive, h]

theorem live_of_neither {item : Incoming} (ht : item.text? = none) (he : item.end? = none)
    (s : Session) : s.live (.arrive item) = s := by
  cases hr : s.reader.receive item s.dispatcher with
  | none => exact live_of_none (by rw [step, hr]; rfl)
  | some r =>
    have hl : s.live (.arrive item) = s.withReader r := live_of_step (by rw [step, hr]; rfl)
    rw [hl]
    obtain ⟨hidle, ⟨_, h, -⟩ | ⟨_, -, h, -⟩ | ⟨-, -, rfl⟩⟩ := Reader.receive_cases hr
    · rw [ht] at h
      cases h
    · rw [he] at h
      cases h
    · rw [withReader, ← hidle]

/-- What comes off a socket and what becomes of it: in time, and in every run of a session. -/
structure ReadInFull (setting : Receiver.Setting) (consumer : Receiver.Consumer)
    (arrivals : List Arrival) (settings : Connection.Settings) (moments : List Moment) : Prop where
  /-- The texts are those of text frames, and of binary frames that hold the bytes of a text. -/
  texts : ∀ (item : Incoming) s,
    item.text? = some s ↔ item = .text s ∨ item = .binary s.toUTF8
  /-- In time, the texts of all that comes before the end are handed over, in order. The end is an
  item that is one, the loss of the dispatcher, or a silence that is too long. -/
  timed : ∃ read rest, arrivals = read ++ rest ∧
    Receiver.Through setting consumer read rest (Receiver.run setting consumer arrivals)
  /-- Nobody can tell a binary frame with the bytes of a text from that text. -/
  alike : (∀ earlier time s later, arrivals = earlier ++ ⟨time, .binary s.toUTF8⟩ :: later →
      Receiver.run setting consumer arrivals =
        Receiver.run setting consumer (earlier ++ ⟨time, .text s⟩ :: later)) ∧
    ∀ earlier s later, moments = earlier ++ .arrive (.binary s.toUTF8) :: later →
      (start settings).run moments =
        (start settings).run (earlier ++ .arrive (.text s) :: later)
  /-- In a session, the texts that were handed over are those of all items before the end but for
  one that the reader has in its hand or lost with the dispatcher. -/
  account : ((start settings).run moments).reader.Account settings.livenessWindow
    ((start settings).items moments) ((start settings).given moments)
  /-- The dispatcher is lost only as it has stopped. -/
  left : ((start settings).run moments).reader = .stopped .closed ∨
    ((start settings).run moments).reader = .abandoned →
      ∃ reason, ((start settings).run moments).dispatcher.phase = .stopped reason
  /-- What brings no text and is no end passes without a trace. -/
  passed : ∀ item : Incoming, item.text? = none → item.end? = none →
    ((start settings).run moments).live (.arrive item) = (start settings).run moments
  /-- The dispatcher deals with the texts in the order in which they were handed over, and while it
  runs the others are queued. -/
  handed : Handed ((start settings).handled moments) ((start settings).given moments)
    ((start settings).run moments).dispatcher
  /-- If it stops because frames have come to their end, it has dealt with the texts of all that was
  read. -/
  whole : ((start settings).run moments).dispatcher.phase = .stopped .framesEnded →
    (start settings).handled moments = (start settings).given moments ∧
      (start settings).given moments = Incoming.texts ((start settings).items moments)

/-- **What comes off the socket is read in full**: its texts reach the dispatcher, each once and in
order, up to the end of the socket, of the reader's patience or of the dispatcher. -/
theorem readInFull (setting : Receiver.Setting) (consumer : Receiver.Consumer)
    (arrivals : List Arrival) (settings : Connection.Settings) (moments : List Moment) :
    ReadInFull setting consumer arrivals settings moments where
  texts _ _ := Incoming.text?_eq_some_iff
  timed := Receiver.exists_through setting consumer arrivals
  alike := by
    constructor
    · rintro earlier time s later rfl
      exact Receiver.follow_of_reception_eq (Incoming.reception_binary s) time earlier later _
    · rintro earlier s later rfl
      rw [run_append, run_append]
      exact congrArg (fun s' : Session => s'.run later)
        (live_of_reception_eq (Incoming.reception_binary s) _)
  account := account_run settings moments
  left := stopped_of_left settings moments
  passed item ht he := live_of_neither ht he _
  handed := handed_run settings moments
  whole hp := by
    have hall := ((flow_run settings moments).inflow.whole hp).1
    have hgiven := (account_run settings moments).isPrefix
    have hhandled := (handed_run settings moments).isPrefix
    rw [arrived_eq] at hall
    -- what was handed over lies between what was dealt with and what was read
    have he : (start settings).given moments = Incoming.texts ((start settings).items moments) :=
      hgiven.eq_of_length_le (hall ▸ hhandled.length_le)
    exact ⟨hall.trans he.symm, he⟩

end Session

end LedgerClient
