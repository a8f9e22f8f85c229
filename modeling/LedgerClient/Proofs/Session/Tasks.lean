import LedgerClient.Proofs.Dispatcher.Queues
import LedgerClient.Proofs.Socket.Incoming
import LedgerClient.Session.Reader
import LedgerClient.Session.Writer

/-!
# What the tasks beside the dispatcher do

The writer moves commands from the outbound queue to the socket, or reports them (`Writer.Takes`,
`Writer.Learns`); the reader moves texts from the socket to the queue of frames
(`Reader.receive_cases`, `Reader.hand_cases`). Neither touches the table of pending commands. With
the dispatcher they pass an id on: `Writer.requests` lists the ids of the commands that are somewhere
on their way, and nothing that the dispatcher or the writer does puts one there a second time.
-/

namespace LedgerClient

open scoped List
open Dispatcher (Act dropHead)

/-! ## The writer -/

/-- The command that a parcel holds. -/
def Parcel.command? : Parcel → Option Outbound
  | .command out _ => some out
  | _ => none

/-- The commands that a writer has handed to the socket, in order. -/
def Writer.commands (w : Writer) : List Outbound := w.handed.filterMap Parcel.command?

namespace Writer

variable {w : Writer} {d : Dispatcher} {r : Writer × Dispatcher}

/-- How a writer takes what its queue has. -/
inductive Takes (w : Writer) (d : Dispatcher) : Writer × Dispatcher → Prop
  | handed (out : Outbound) (text : String) (ho : d.outbound.items.head? = some out)
    (ht : out.command.encode out.id = .ok text) :
    Takes w d (w.hand (.command out text) .writing, { d with outbound := dropHead d.outbound })
  | reported (out : Outbound) (error : ProtocolError) (ho : d.outbound.items.head? = some out)
    (ht : out.command.encode out.id = .error error) :
    Takes w d (w, report ⟨out.id, error⟩ { d with outbound := dropHead d.outbound })
  | ended (ho : d.outbound.items = []) : Takes w d (w.hand .close (.closing .closed), d)

theorem takes_of_take (h : w.take d = some r) : w.phase = .idle ∧ w.Takes d r := by
  unfold take at h
  split at h
  · rename_i hp
    refine ⟨hp, ?_⟩
    cases hd : d.outbound.head with
    | empty => simp [hd] at h
    | ended =>
      simp only [hd, Option.some.injEq] at h
      exact h ▸ .ended (Dispatcher.eq_of_head_ended hd).1
    | item out rest =>
      obtain ⟨ho, rfl⟩ := Dispatcher.head_eq_item hd
      simp only [hd] at h
      cases he : out.command.encode out.id with
      | ok text =>
        simp only [he, Option.some.injEq] at h
        exact h ▸ .handed out text ho he
      | error error =>
        simp only [he, Option.some.injEq] at h
        exact h ▸ .reported out error ho he
  · simp at h

/-- How a writer learns what came of a write. -/
inductive Learns (w : Writer) (d : Dispatcher) : Sender.Written → Writer × Dispatcher → Prop
  | done (hp : w.phase = .writing) : Learns w d .done ({ w with phase := .idle }, d)
  | failed (written : Sender.Written) (reason : SessionEnd) (hp : w.phase = .writing)
    (hw : written ≠ .done) : Learns w d written ({ w with phase := .stopped reason }, release d)
  | late (written : Sender.Written) (reason : SessionEnd) (hp : w.phase = .writing)
    (hw : written ≠ .done) : Learns w d written (w.hand .close (.closing reason), d)
  | closed (written : Sender.Written) (reason : SessionEnd) (hp : w.phase = .closing reason) :
    Learns w d written ({ w with phase := .stopped reason }, release d)

theorem learns_of_learn {limit : Duration} {written : Sender.Written}
    (h : w.learn limit written d = some r) : w.Learns d written r := by
  unfold learn at h
  split at h
  · rename_i hp
    cases written with
    | done =>
      obtain rfl := Option.some.inj h
      exact .done hp
    | failed fault =>
      obtain rfl := Option.some.inj h
      exact .failed _ _ hp (fun h => by cases h)
    | late =>
      obtain rfl := Option.some.inj h
      exact .late _ _ hp (fun h => by cases h)
  · rename_i reason hp
    obtain rfl := Option.some.inj h
    exact .closed _ reason hp
  · simp at h

theorem ping_eq_some {w' : Writer} (h : w.ping = some w') :
    w.phase = .idle ∧ w' = w.hand .ping .writing := by
  unfold ping at h
  split at h
  · rename_i hp
    exact ⟨hp, (Option.some.inj h).symm⟩
  · simp at h

/-- What the writer does to its queues in a move: it gives some commands up, or it takes the first
and hands it to the socket or reports it. -/
def Moves (w : Writer) (d : Dispatcher) (r : Writer × Dispatcher) : Prop :=
  ∃ outbound failures, r.2 = { d with outbound, failures } ∧ w.handed <+: r.1.handed ∧
    ((r.1.commands = w.commands ∧ outbound.items <+ d.outbound.items ∧
        failures.items = d.failures.items) ∨
      ∃ out, d.outbound.items = out :: outbound.items ∧
        ((r.1.commands = w.commands ++ [out] ∧ failures.items = d.failures.items) ∨
          ∃ error, r.1.commands = w.commands ∧
            failures.items <+ d.failures.items ++ [⟨out.id, error⟩]))

theorem commands_hand (p : Parcel) (phase : Phase) (w : Writer) :
    (w.hand p phase).commands = w.commands ++ p.command?.toList := by
  rw [commands, hand, List.filterMap_append]
  cases h : p.command? <;> simp [commands, h]

theorem moves_close (phase : Phase) (w : Writer) (d : Dispatcher) :
    w.Moves d (w.hand .close phase, d) := by
  refine ⟨d.outbound, d.failures, rfl, List.prefix_append _ _, .inl ⟨?_, List.Sublist.refl _, rfl⟩⟩
  exact (commands_hand .close _ w).trans (List.append_nil _)

theorem moves_release (phase : Phase) (w : Writer) (d : Dispatcher) :
    w.Moves d ({ w with phase }, release d) :=
  ⟨d.outbound.dropReceiver, d.failures.dropSender, rfl, List.prefix_refl _,
    .inl ⟨rfl, List.nil_sublist _, rfl⟩⟩

theorem moves_report {out : Outbound} {rest : Mailbox Outbound} (error : ProtocolError)
    (w : Writer) (h : d.outbound.items = out :: rest.items) :
    w.Moves d (w, report ⟨out.id, error⟩ { d with outbound := rest }) := by
  rw [report]
  cases hp : d.failures.push? ⟨out.id, error⟩ with
  | none =>
    exact ⟨rest, d.failures, rfl, List.prefix_refl _,
      .inr ⟨out, h, .inr ⟨error, rfl, List.sublist_append_left _ _⟩⟩⟩
  | some failures =>
    refine ⟨rest, failures, rfl, List.prefix_refl _, .inr ⟨out, h, .inr ⟨error, rfl, ?_⟩⟩⟩
    rw [Mailbox.items_of_push? hp]

theorem moves_take (h : w.take d = some r) : w.Moves d r := by
  have hitems {out : Outbound} (ho : d.outbound.items.head? = some out) :
      d.outbound.items = out :: (dropHead d.outbound).items := by
    obtain ⟨rest, hi⟩ := List.head?_eq_some_iff.mp ho
    rw [dropHead, hi]
    rfl
  cases (takes_of_take h).2 with
  | handed out text ho ht =>
    exact ⟨dropHead d.outbound, d.failures, rfl, List.prefix_append _ _,
      .inr ⟨out, hitems ho, .inl ⟨commands_hand _ _ w, rfl⟩⟩⟩
  | reported out error ho ht => exact moves_report error w (hitems ho)
  | ended ho => exact moves_close _ w d

theorem moves_learn {limit : Duration} {written : Sender.Written}
    (h : w.learn limit written d = some r) : w.Moves d r := by
  cases learns_of_learn h with
  | done =>
    exact ⟨d.outbound, d.failures, rfl, List.prefix_refl _, .inl ⟨rfl, List.Sublist.refl _, rfl⟩⟩
  | late => exact moves_close _ w d
  | failed | closed => exact moves_release _ w d

theorem moves_ping {w' : Writer} (h : w.ping = some w') (d : Dispatcher) : w.Moves d (w', d) := by
  obtain ⟨-, rfl⟩ := ping_eq_some h
  refine ⟨d.outbound, d.failures, rfl, List.prefix_append _ _, .inl ⟨?_, List.Sublist.refl _, rfl⟩⟩
  exact (commands_hand .ping _ w).trans (List.append_nil _)

end Writer

/-! ## Ids on their way -/

namespace Writer

variable {w : Writer} {d : Dispatcher} {r : Writer × Dispatcher}

/-- The commands in the queue of the writer and those that were ever handed to the socket. -/
def outgoing (w : Writer) (d : Dispatcher) : List Outbound := d.outbound.items ++ w.commands

/-- The commands that have left the intake and are on their way to the peer or have reached the
socket. -/
def registered (w : Writer) (d : Dispatcher) : List Outbound := d.hand ++ w.outgoing d

/-- The ids of all commands that are on their way to the peer or have reached the socket, and of
those that could not be written. -/
def requests (w : Writer) (d : Dispatcher) : List Nat :=
  d.intake.items.map (·.id) ++ (w.registered d).map (·.id) ++ d.failures.items.map (·.id)

theorem count_requests_perform {a : Act} (w : Writer) (hr : d.Ready a) (id : Nat) :
    (w.requests (d.perform a)).count id ≤ (w.requests d).count id := by
  have hh := Dispatcher.hand_perform hr
  have hq := Dispatcher.queues_perform d a
  cases a with
  | submit s =>
    obtain ⟨items, hs⟩ := List.head?_eq_some_iff.mp hr.2.2.2.2
    simp only [Dispatcher.queues, Dispatcher.Queues.after, Dispatcher.Queues.mk.injEq] at hq
    -- the command goes from the intake to the hand, or nowhere
    have hc : ((d.taken (.submit s)).map (·.id)).count id ≤ [s.id].count id := by
      rw [Dispatcher.taken]
      split <;> simp
    simp only [requests, registered, outgoing, List.map_append, List.count_append, hh, hq, hs,
      dropHead, List.drop_one, List.tail_cons, List.map_cons, List.count_cons, List.count_nil]
      at hc ⊢
    omega
  | forward out =>
    have hd : d.hand = [out] := by rw [Dispatcher.hand, hr.1]
    simp only [Dispatcher.queues, Dispatcher.Queues.after, Dispatcher.Queues.mk.injEq] at hq
    simp only [requests, registered, outgoing, List.map_append, List.count_append, hh, hq, hd,
      Dispatcher.taken, List.map_nil, List.count_nil]
    omega
  | fail failure =>
    obtain ⟨items, hf⟩ := List.head?_eq_some_iff.mp hr.2.2
    simp only [Dispatcher.queues, Dispatcher.Queues.after, Dispatcher.Queues.mk.injEq] at hq
    simp only [requests, registered, outgoing, List.map_append, List.count_append, hh, hq, hf,
      dropHead, Dispatcher.taken, List.map_nil, List.count_nil, List.drop_one, List.tail_cons,
      List.map_cons, List.count_cons]
    omega
  | _ =>
    simp only [Dispatcher.queues, Dispatcher.Queues.after, Dispatcher.Queues.closed,
      Dispatcher.Queues.mk.injEq] at hq
    simp only [requests, registered, outgoing, List.map_append, List.count_append, hh, hq,
      Mailbox.dropReceiver, Mailbox.dropSender, Dispatcher.taken, List.map_nil, List.count_nil]
    omega

theorem count_requests_moves (h : w.Moves d r) (id : Nat) :
    (r.1.requests r.2).count id ≤ (w.requests d).count id := by
  obtain ⟨w', e⟩ := r
  -- commands are given up, or the first one is handed to the socket, or reported
  obtain ⟨outbound, failures, rfl, -, ⟨hc, ho, hf⟩ | ⟨out, ho, ⟨hc, hf⟩ | ⟨error, hc, hf⟩⟩⟩ := h
  · have ho := (ho.map (·.id)).count_le id
    simp only at hc
    simp only [requests, registered, outgoing, List.map_append, List.count_append, hc, hf]
    exact Nat.add_le_add_right (Nat.add_le_add_left (Nat.add_le_add_left
      (Nat.add_le_add_right ho _) _) _) _
  · simp only at hc
    simp only [requests, registered, outgoing, List.map_append, List.count_append, hc, hf, ho,
      List.map_cons, List.map_nil, List.count_cons, List.count_nil, Dispatcher.hand]
    omega
  · have hf := (hf.map (·.id)).count_le id
    simp only [List.map_append, List.count_append, List.map_cons, List.map_nil, List.count_cons,
      List.count_nil] at hf hc
    simp only [requests, registered, outgoing, List.map_append, List.count_append, hc, ho,
      List.map_cons, List.count_cons, Dispatcher.hand]
    omega

theorem mem_outgoing_perform {a : Act} {out : Outbound} (h : out ∈ w.outgoing (d.perform a)) :
    out ∈ w.outgoing d ∨ a = .forward out := by
  rw [outgoing, Dispatcher.outbound_perform] at h
  cases a with
  | forward out' =>
    simp only [Dispatcher.Queues.after, Dispatcher.queues, List.mem_append,
      List.mem_singleton] at h
    rcases h with (h | rfl) | h
    · exact .inl (List.mem_append_left _ h)
    · exact .inr rfl
    · exact .inl (List.mem_append_right _ h)
  | _ => exact .inl h

theorem mem_registered_perform {a : Act} (hr : d.Ready a) {out : Outbound}
    (h : out ∈ w.registered (d.perform a)) : out ∈ w.registered d ∨ out ∈ d.taken a := by
  rw [registered, Dispatcher.hand_perform hr, List.mem_append] at h
  rcases h with h | h
  · exact .inr h
  · rcases mem_outgoing_perform h with h | rfl
    · exact .inl (List.mem_append_right _ h)
    · refine .inl (List.mem_append_left _ ?_)
      rw [Dispatcher.hand, hr.1]
      exact List.mem_singleton_self _

theorem mem_outgoing_moves (h : w.Moves d r) {out : Outbound} (ho : out ∈ r.1.outgoing r.2) :
    out ∈ w.outgoing d := by
  obtain ⟨w', e⟩ := r
  obtain ⟨outbound, failures, rfl, -, ⟨hc, hs, -⟩ | ⟨out', hs, ⟨hc, -⟩ | ⟨_, hc, -⟩⟩⟩ := h
  · simp only at hc
    rw [outgoing, hc] at ho
    exact List.mem_append.mpr ((List.mem_append.mp ho).imp_left fun h => hs.subset h)
  · simp only at hc
    simp only [outgoing, hc, hs, List.mem_append, List.mem_cons] at ho ⊢
    tauto
  · simp only at hc
    simp only [outgoing, hc, hs, List.mem_append, List.mem_cons] at ho ⊢
    tauto

theorem mem_registered_of_phase_eq {w' : Writer} {d' : Dispatcher} (hp : d'.phase = d.phase)
    (h : ∀ out ∈ w'.outgoing d', out ∈ w.outgoing d) {out : Outbound}
    (ho : out ∈ w'.registered d') : out ∈ w.registered d := by
  rw [registered, Dispatcher.hand_of_phase_eq hp] at ho
  exact List.mem_append.mpr ((List.mem_append.mp ho).imp_right (h out))

end Writer

/-! ## The reader -/

/-- The text that a reader holds. -/
def Reader.held : Reader → List String
  | .holding text => [text]
  | _ => []

/-- What the reader does to its queue in a move: texts go from its hand to the queue, and none is
there that was not there before, but for one that it gets. -/
def Reader.Moves (got : Option String) (r : Reader) (d : Dispatcher) (r' : Reader × Dispatcher) :
    Prop :=
  ∃ frames, r'.2 = { d with frames } ∧
    frames.items ++ r'.1.held <+ d.frames.items ++ r.held ++ got.toList

namespace Reader

variable {r : Reader} {d : Dispatcher} {r' : Reader × Dispatcher}

theorem receive_cases {item : Incoming} (h : r.receive item d = some r') : r = .idle ∧
      ((∃ text, item.text? = some text ∧ item.end? = none ∧ r' = (.holding text, d)) ∨
        (∃ reason, item.text? = none ∧ item.end? = some reason ∧
          r' = (.stopped reason, release d)) ∨
        item.text? = none ∧ item.end? = none ∧ r' = (.idle, d)) := by
  unfold receive at h
  split at h
  · refine ⟨rfl, ?_⟩
    rcases item.reception_cases with ⟨t, hi, ht, he⟩ | ⟨reason, hi, ht, he⟩ | ⟨hi | ⟨e, hi⟩, ht, he⟩
    · rw [hi] at h
      exact .inl ⟨t, ht, he, (Option.some.inj h).symm⟩
    · rw [hi] at h
      exact .inr (.inl ⟨reason, ht, he, (Option.some.inj h).symm⟩)
    · rw [hi] at h
      exact .inr (.inr ⟨ht, he, (Option.some.inj h).symm⟩)
    · rw [hi] at h
      exact .inr (.inr ⟨ht, he, (Option.some.inj h).symm⟩)
  · cases h

theorem expire_cases {window : Duration} (h : r.expire window d = some r') :
    r = .idle ∧ r' = (.stopped (.livenessExpired window), release d) := by
  unfold expire at h
  split at h
  · exact ⟨rfl, (Option.some.inj h).symm⟩
  · cases h

theorem hand_cases (h : r.hand d = some r') : ∃ text, r = .holding text ∧
      ((∃ frames, d.frames.push? text = some frames ∧ r' = (.idle, { d with frames })) ∨
        d.frames.hasReceiver = false ∧ r' = (.stopped .closed, release d)) := by
  unfold hand at h
  split at h
  · rename_i text
    refine ⟨text, rfl, ?_⟩
    split at h
    · cases hp : d.frames.push? text with
      | none => simp [hp] at h
      | some frames =>
        simp only [hp, Option.some.injEq] at h
        exact .inl ⟨frames, rfl, h.symm⟩
    · rename_i hc
      exact .inr ⟨by simpa using hc, (Option.some.inj h).symm⟩
  · cases h

theorem moves_release {next : Reader} (hn : next.held = []) (r : Reader) (got : Option String)
    (d : Dispatcher) : r.Moves got d (next, release d) := by
  refine ⟨d.frames.dropSender, rfl, ?_⟩
  simp only [hn, List.append_nil, List.append_assoc]
  exact List.sublist_append_left _ _

theorem moves_receive {item : Incoming} (h : r.receive item d = some r') :
    r.Moves item.text? d r' := by
  obtain ⟨rfl, ⟨text, ht, -, rfl⟩ | ⟨reason, ht, -, rfl⟩ | ⟨ht, -, rfl⟩⟩ := receive_cases h
  · exact ⟨d.frames, rfl, by simp [held, ht]⟩
  · exact moves_release rfl .idle _ d
  · exact ⟨d.frames, rfl, by simp [held, ht]⟩

theorem moves_hand (h : r.hand d = some r') : r.Moves none d r' := by
  obtain ⟨text, rfl, ⟨frames, hp, rfl⟩ | ⟨-, rfl⟩⟩ := hand_cases h
  · exact ⟨frames, rfl, by simp [held, Mailbox.items_of_push? hp]⟩
  · exact moves_release rfl _ _ d

theorem moves_expire {window : Duration} (h : r.expire window d = some r') : r.Moves none d r' := by
  obtain ⟨rfl, rfl⟩ := expire_cases h
  exact moves_release rfl _ _ d

theorem moves_giveUp (r : Reader) (d : Dispatcher) : r.Moves none d (r.giveUp d) := by
  unfold giveUp
  split
  · exact ⟨d.frames, rfl, by simp [held]⟩
  · exact moves_release rfl _ _ d

end Reader

end LedgerClient
