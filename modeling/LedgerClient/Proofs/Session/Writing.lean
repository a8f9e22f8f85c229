import LedgerClient.Proofs.Session.Tasks

/-!
# What the writer does to commands

The writer draws a command from its queue and either hands its text to the socket and waits for what
comes of it, or reports that it has none. `Belt` follows the commands through the writer: a command
is done (written, or reported), under way at the socket, or still in the queue, in this order, and at
most one is under way. A ping takes the place of a command at the socket and moves none. When the
writer stops, what is under way or queued stays undone.
-/

namespace LedgerClient

open Dispatcher (dropHead)

/-- The text that a parcel holds. -/
def Parcel.text? : Parcel → Option String
  | .command _ text => some text
  | _ => none

/-- The text of a command, if it has one. -/
def Outbound.text? (out : Outbound) : Option String := (out.command.encode out.id).toOption

/-- The report on a command that has no text. -/
def Outbound.failure? (out : Outbound) : Option WriteFailure :=
  match out.command.encode out.id with
  | .ok _ => none
  | .error error => some ⟨out.id, error⟩

theorem Outbound.failure?_of_text {out : Outbound} {text : String} (h : out.text? = some text) :
    out.failure? = none := by
  unfold text? at h
  unfold failure?
  cases he : out.command.encode out.id with
  | ok text' => rfl
  | error e => rw [he] at h; cases h

namespace Writer

/-- The texts that a writer has handed to the socket, in order. -/
def texts (w : Writer) : List String := w.handed.filterMap Parcel.text?

def isStopped (w : Writer) : Bool := w.reason?.isSome

variable {w : Writer} {d : Dispatcher} {r : Writer × Dispatcher}

/-! ## Commands with their texts -/

/-- Every command went to the socket with its own text. -/
def Faithful (w : Writer) : Prop :=
  ∀ out text, .command out text ∈ w.handed → out.command.encode out.id = .ok text

theorem Faithful.hand (h : w.Faithful) {p : Parcel} {phase : Phase}
    (hp : ∀ out text, p = .command out text → out.command.encode out.id = .ok text) :
    (w.hand p phase).Faithful := by
  intro out text hm
  rcases List.mem_append.mp hm with hm | hm
  · exact h out text hm
  · exact hp out text (List.mem_singleton.mp hm).symm

theorem Faithful.text?_of_mem (h : w.Faithful) {out : Outbound} (ho : out ∈ w.commands) :
    ∃ text, out.text? = some text := by
  obtain ⟨p, hp, hc⟩ := List.mem_filterMap.mp ho
  cases p with
  | command out' text =>
    obtain rfl := Option.some.inj hc
    exact ⟨text, by rw [Outbound.text?, h _ _ hp]; rfl⟩
  | ping => cases hc
  | close => cases hc

theorem Faithful.texts_eq (h : w.Faithful) : w.texts = w.commands.filterMap Outbound.text? := by
  unfold Faithful at h
  unfold texts commands
  generalize w.handed = handed at h
  induction handed with
  | nil => rfl
  | cons p handed ih =>
    have ih := ih fun out text hm => h out text (List.mem_cons_of_mem _ hm)
    cases p with
    | command out text =>
      have ht : out.text? = some text := by
        rw [Outbound.text?, h out text List.mem_cons_self]
        rfl
      simp only [List.filterMap_cons, Parcel.text?, Parcel.command?, ht, ih]
    | ping => exact ih
    | close => exact ih

/-! ## Done, under way and queued -/

/-- The command with which a writer gets done in a move that takes from the queue: one without a
text. -/
def refuses? (w : Writer) (d : Dispatcher) : Option Outbound :=
  match w.phase, d.outbound.items with
  | .idle, out :: _ => if out.failure?.isSome then some out else none
  | _, _ => none

/-- The command with which a writer gets done as a write is. -/
def completes? (w : Writer) : Sender.Written → Option Outbound
  | .done =>
    match w.phase with
    | .writing => w.handed.getLast?.bind Parcel.command?
    | _ => none
  | _ => none

/-- Where the commands are that were put into the queue of the writer: done, under way at the socket,
or queued. -/
structure Belt (sent finished underway : List Outbound) (w : Writer) (d : Dispatcher) : Prop where
  faithful : w.Faithful
  /-- What was handed to the socket is done or under way. -/
  commands : w.commands = finished.filter (·.text?.isSome) ++ underway
  single : underway.length ≤ 1
  idle : w.phase = .idle → underway = []
  writing : w.phase = .writing → underway = (w.handed.getLast?.bind Parcel.command?).toList
  begun : finished ++ underway <+: sent
  /-- A writer that has not stopped holds its ends of the queues, and nothing is lost. -/
  queued : w.isStopped = false → sent = finished ++ underway ++ d.outbound.items ∧
    d.outbound.hasReceiver = true ∧ d.failures.hasSender = true
  /-- A writer that has stopped has given them up. -/
  released : w.isStopped = true → d.outbound.hasReceiver = false ∧ d.failures.hasSender = false

namespace Belt

variable {sent finished underway : List Outbound}

theorem start (c : Capacities) : Belt [] [] [] .start (.start c) where
  faithful := fun _ _ h => by cases h
  commands := rfl
  single := Nat.zero_le _
  idle _ := rfl
  writing := fun h => by cases h
  begun := List.nil_prefix
  queued _ := ⟨rfl, rfl, rfl⟩
  released := fun h => by cases h

theorem text?_of_underway (h : Belt sent finished underway w d) {out : Outbound}
    (ho : out ∈ underway) : ∃ text, out.text? = some text :=
  h.faithful.text?_of_mem (h.commands ▸ List.mem_append_right _ ho)

theorem isStopped_of_idle (hp : w.phase = .idle) : w.isStopped = false := by
  rw [isStopped, reason?, hp]
  rfl

theorem isStopped_of_writing (hp : w.phase = .writing) : w.isStopped = false := by
  rw [isStopped, reason?, hp]
  rfl

theorem draw {out : Outbound} {text : String} (h : Belt sent finished underway w d)
    (hp : w.phase = .idle) (ho : d.outbound.items.head? = some out)
    (ht : out.command.encode out.id = .ok text) :
    Belt sent finished [out] (w.hand (.command out text) .writing)
      { d with outbound := dropHead d.outbound } := by
  obtain ⟨rest, hi⟩ := List.head?_eq_some_iff.mp ho
  obtain ⟨hq, hends⟩ := h.queued (isStopped_of_idle hp)
  have hq : sent = finished ++ [out] ++ rest := by
    rw [hq, h.idle hp, hi]
    simp
  exact
    { faithful := h.faithful.hand fun _ _ he => by cases he; exact ht
      commands := by rw [commands_hand, h.commands, h.idle hp, List.append_nil]; rfl
      single := Nat.le_refl 1
      idle := fun h => by cases h
      writing := fun _ => by simp [hand, Parcel.command?]
      begun := hq ▸ List.prefix_append _ _
      queued := fun _ => ⟨by simpa [dropHead, hi] using hq, hends⟩
      released := fun h => by cases h }

theorem refuse {out : Outbound} {error : ProtocolError} (h : Belt sent finished underway w d)
    (hp : w.phase = .idle) (ho : d.outbound.items.head? = some out)
    (ht : out.command.encode out.id = .error error) :
    Belt sent (finished ++ [out]) [] w
      (report ⟨out.id, error⟩ { d with outbound := dropHead d.outbound }) := by
  obtain ⟨rest, hi⟩ := List.head?_eq_some_iff.mp ho
  obtain ⟨hq, hends⟩ := h.queued (isStopped_of_idle hp)
  have hq : sent = finished ++ [out] ++ rest := by
    rw [hq, h.idle hp, hi]
    simp
  have hnone : out.text? = none := by rw [Outbound.text?, ht]; rfl
  -- a report changes nothing but the items of the queue of reports
  obtain ⟨failures, he, hs⟩ : ∃ failures,
      report ⟨out.id, error⟩ { d with outbound := dropHead d.outbound } =
        { d with outbound := dropHead d.outbound, failures } ∧
      failures.hasSender = d.failures.hasSender := by
    rw [report]
    cases hpush : d.failures.push? ⟨out.id, error⟩ with
    | none => exact ⟨d.failures, rfl, rfl⟩
    | some failures =>
      refine ⟨failures, rfl, ?_⟩
      rw [(Mailbox.eq_of_push? hpush).2]
  rw [he]
  exact
    { faithful := h.faithful
      commands := by
        rw [h.commands, h.idle hp, List.filter_append]
        simp [hnone]
      single := Nat.zero_le 1
      idle := fun _ => rfl
      writing := fun hw => by rw [hp] at hw; cases hw
      begun := by rw [hq, List.append_nil]; exact List.prefix_append _ _
      queued := fun _ => ⟨by simpa [dropHead, hi] using hq, hends.1, hs.trans hends.2⟩
      released := fun hw => by rw [isStopped_of_idle hp] at hw; cases hw }

theorem slip {p : Parcel} {phase : Phase} (h : Belt sent finished underway w d)
    (hlive : w.isStopped = false) (hpc : p.command? = none)
    (hphase : phase = .writing ∧ w.phase = .idle ∨ ∃ reason, phase = .closing reason) :
    Belt sent finished underway (w.hand p phase) d where
  faithful := h.faithful.hand fun _ _ he => by rw [he] at hpc; cases hpc
  commands := by rw [commands_hand, h.commands, hpc]; exact List.append_nil _
  single := h.single
  idle hp := by
    rcases hphase with ⟨rfl, -⟩ | ⟨reason, rfl⟩ <;> cases hp
  writing hp := by
    rcases hphase with ⟨rfl, hidle⟩ | ⟨reason, rfl⟩
    · simp [hand, hpc, h.idle hidle]
    · cases hp
  begun := h.begun
  queued _ := h.queued hlive
  released hw := by
    rcases hphase with ⟨rfl, -⟩ | ⟨reason, rfl⟩ <;> cases hw

theorem complete (h : Belt sent finished underway w d) (hp : w.phase = .writing) :
    Belt sent (finished ++ (w.completes? .done).toList) [] { w with phase := .idle } d := by
  have hc : (w.completes? .done).toList = underway := by
    rw [completes?, hp]
    exact (h.writing hp).symm
  obtain ⟨hq, hends⟩ := h.queued (isStopped_of_writing hp)
  have htext : underway.filter (·.text?.isSome) = underway :=
    List.filter_eq_self.mpr fun out ho => by
      obtain ⟨text, ht⟩ := h.text?_of_underway ho
      rw [ht]
      rfl
  rw [hc]
  exact
    { faithful := h.faithful
      commands := by
        rw [List.filter_append, htext, List.append_nil]
        exact h.commands
      single := Nat.zero_le 1
      idle := fun _ => rfl
      writing := fun h => by cases h
      begun := by rw [List.append_nil]; exact h.begun
      queued := fun _ => ⟨by rw [List.append_nil]; exact hq, hends⟩
      released := fun h => by cases h }

theorem stop {reason : SessionEnd} (h : Belt sent finished underway w d) :
    Belt sent finished underway { w with phase := .stopped reason } (release d) where
  faithful := h.faithful
  commands := h.commands
  single := h.single
  idle := fun h => by cases h
  writing := fun h => by cases h
  begun := h.begun
  queued := fun h => by cases h
  released _ := ⟨rfl, rfl⟩

theorem ping {w' : Writer} (h : Belt sent finished underway w d) (ht : w.ping = some w') :
    Belt sent finished underway w' d := by
  obtain ⟨hp, rfl⟩ := ping_eq_some ht
  exact h.slip (isStopped_of_idle hp) rfl (.inl ⟨rfl, hp⟩)

theorem more {e : Dispatcher} {out : List Outbound} (h : Belt sent finished underway w d)
    (ho : e.outbound.items = d.outbound.items ++ out)
    (hr : e.outbound.hasReceiver = d.outbound.hasReceiver)
    (hs : e.failures.hasSender = d.failures.hasSender) :
    Belt (sent ++ out) finished underway w e where
  faithful := h.faithful
  commands := h.commands
  single := h.single
  idle := h.idle
  writing := h.writing
  begun := h.begun.trans (List.prefix_append _ _)
  queued hw := by
    obtain ⟨hq, hends⟩ := h.queued hw
    rw [ho, hr, hs, ← List.append_assoc, ← hq]
    exact ⟨rfl, hends⟩
  released hw := by
    rw [hr, hs]
    exact h.released hw

theorem same {e : Dispatcher} (h : Belt sent finished underway w d)
    (ho : e.outbound.items = d.outbound.items)
    (hr : e.outbound.hasReceiver = d.outbound.hasReceiver)
    (hs : e.failures.hasSender = d.failures.hasSender) : Belt sent finished underway w e := by
  rw [← List.append_nil sent]
  exact h.more (by rw [ho, List.append_nil]) hr hs

end Belt

/-! ## Reports -/

/-- Where the reports are on commands without a text: dealt with or queued. -/
structure Reported (failed : List WriteFailure) (finished : List Outbound) (d : Dispatcher) :
    Prop where
  begun : failed <+: finished.filterMap Outbound.failure?
  queued : d.failures.hasReceiver = true →
    failed ++ d.failures.items = finished.filterMap Outbound.failure?
  unbounded : d.failures.capacity = none

namespace Reported

variable {failed : List WriteFailure} {finished : List Outbound}

theorem start (c : Capacities) : Reported [] [] (.start c) :=
  ⟨List.nil_prefix, fun _ => rfl, rfl⟩

theorem same {e : Dispatcher} (h : Reported failed finished d)
    (hi : e.failures.items = d.failures.items)
    (hr : e.failures.hasReceiver = d.failures.hasReceiver)
    (hc : e.failures.capacity = d.failures.capacity) : Reported failed finished e where
  begun := h.begun
  queued hs := by rw [hi]; exact h.queued (hr ▸ hs)
  unbounded := hc.trans h.unbounded

theorem of_text {done : List Outbound} (h : Reported failed finished d)
    (hd : ∀ out ∈ done, out.failure? = none) : Reported failed (finished ++ done) d := by
  have hn : done.filterMap Outbound.failure? = [] := List.filterMap_eq_nil_iff.mpr hd
  have he : (finished ++ done).filterMap Outbound.failure? =
      finished.filterMap Outbound.failure? := by
    rw [List.filterMap_append, hn, List.append_nil]
  exact ⟨he ▸ h.begun, fun hs => he ▸ h.queued hs, h.unbounded⟩

theorem report {out : Outbound} {failure : WriteFailure} (h : Reported failed finished d)
    (hf : out.failure? = some failure) :
    Reported failed (finished ++ [out]) (Writer.report failure d) := by
  have he : (finished ++ [out]).filterMap Outbound.failure? =
      finished.filterMap Outbound.failure? ++ [failure] := by
    rw [List.filterMap_append]
    simp [hf]
  rw [Writer.report]
  cases hp : d.failures.push? failure with
  | none =>
    refine ⟨he ▸ h.begun.trans (List.prefix_append _ _), fun hr => ?_, h.unbounded⟩
    -- only a queue without a receiver refuses a report
    simp [Mailbox.push?, Mailbox.hasRoom, h.unbounded, show d.failures.hasReceiver = true from hr]
      at hp
  | some failures =>
    obtain ⟨-, rfl⟩ := Mailbox.eq_of_push? hp
    refine ⟨he ▸ h.begun.trans (List.prefix_append _ _), fun hr => ?_, h.unbounded⟩
    rw [he, ← h.queued hr, List.append_assoc]

end Reported

/-! ## What a move comes to -/

/-- What the writer leaves as it is. -/
structure Spares (d e : Dispatcher) : Prop where
  phase : e.phase = d.phase
  hears : e.failures.hasReceiver = d.failures.hasReceiver
  gone : d.outbound.hasReceiver = false → e.outbound.hasReceiver = false

theorem spares_report (failure : WriteFailure) (d : Dispatcher) :
    Spares d (report failure { d with outbound := dropHead d.outbound }) := by
  rw [report]
  cases hp : d.failures.push? failure with
  | none => exact ⟨rfl, rfl, id⟩
  | some failures =>
    obtain ⟨-, rfl⟩ := Mailbox.eq_of_push? hp
    exact ⟨rfl, rfl, id⟩

variable {sent finished underway : List Outbound} {failed : List WriteFailure}

theorem belt_take (h : Belt sent finished underway w d) (hr : Reported failed finished d)
    (ht : w.take d = some r) :
    ∃ underway', Belt sent (finished ++ (w.refuses? d).toList) underway' r.1 r.2 ∧
      Reported failed (finished ++ (w.refuses? d).toList) r.2 ∧ Spares d r.2 := by
  obtain ⟨hp, hc⟩ := takes_of_take ht
  cases hc with
  | handed out text ho he =>
    obtain ⟨rest, hi⟩ := List.head?_eq_some_iff.mp ho
    have hn : w.refuses? d = none := by simp [refuses?, hp, hi, Outbound.failure?, he]
    rw [hn, Option.toList_none, List.append_nil]
    exact ⟨[out], h.draw hp ho he, hr.same rfl rfl rfl, rfl, rfl, id⟩
  | reported out error ho he =>
    obtain ⟨rest, hi⟩ := List.head?_eq_some_iff.mp ho
    have hf : out.failure? = some ⟨out.id, error⟩ := by rw [Outbound.failure?, he]
    have hs : w.refuses? d = some out := by simp [refuses?, hp, hi, hf]
    have hdrawn : Reported failed finished { d with outbound := dropHead d.outbound } :=
      hr.same rfl rfl rfl
    rw [hs]
    exact ⟨[], h.refuse hp ho he, hdrawn.report hf, spares_report _ _⟩
  | ended ho =>
    have hn : w.refuses? d = none := by simp [refuses?, hp, ho]
    rw [hn, Option.toList_none, List.append_nil]
    exact ⟨underway, h.slip (Belt.isStopped_of_idle hp) rfl (.inr ⟨_, rfl⟩), hr, rfl, rfl, id⟩

/-- A writer learns what came of a write: it is done with a command only if its text is
written. -/
theorem belt_learn {limit : Duration} {written : Sender.Written}
    (h : Belt sent finished underway w d) (hr : Reported failed finished d)
    (ht : w.learn limit written d = some r) :
    ∃ underway', Belt sent (finished ++ (w.completes? written).toList) underway' r.1 r.2 ∧
      Reported failed (finished ++ (w.completes? written).toList) r.2 ∧ Spares d r.2 := by
  have hundone : written ≠ .done → w.completes? written = none := by
    intro hw
    cases written with
    | done => exact absurd rfl hw
    | _ => rfl
  have hreleased : Reported failed finished (release d) := hr.same rfl rfl rfl
  cases learns_of_learn ht with
  | done hp =>
    have hc : (w.completes? .done).toList = underway := by
      rw [completes?, hp]
      exact (h.writing hp).symm
    refine ⟨[], h.complete hp, hr.of_text fun out ho => ?_, rfl, rfl, id⟩
    obtain ⟨text, htext⟩ := h.text?_of_underway (hc ▸ ho)
    exact Outbound.failure?_of_text htext
  | failed _ reason hp hw =>
    rw [hundone hw, Option.toList_none, List.append_nil]
    exact ⟨underway, h.stop, hreleased, rfl, rfl, fun _ => rfl⟩
  | late _ reason hp hw =>
    rw [hundone hw, Option.toList_none, List.append_nil]
    exact ⟨underway, h.slip (Belt.isStopped_of_writing hp) rfl (.inr ⟨reason, rfl⟩), hr, rfl, rfl,
      id⟩
  | closed _ reason hp =>
    have hn : w.completes? written = none := by
      cases written <;> simp [completes?, hp]
    rw [hn, Option.toList_none, List.append_nil]
    exact ⟨underway, h.stop, hreleased, rfl, rfl, fun _ => rfl⟩

end Writer

end LedgerClient
