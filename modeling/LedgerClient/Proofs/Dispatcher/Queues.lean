import LedgerClient.Proofs.Dispatcher.Effect

/-!
# What an act does to the queues

An act takes an item from the queue that it deals with, or puts one into the queue of the writer or
of the consumer; a stop gives up the dispatcher's ends of all queues. `Queues.after` says so for all
queues at once (`queues_perform`), and `hand` is what the dispatcher has taken and not yet handed on.
-/

namespace LedgerClient.Dispatcher

/-- The queues of a dispatcher. -/
structure Queues where
  abandoned : Mailbox Nat
  failures : Mailbox WriteFailure
  frames : Mailbox String
  intake : Mailbox Submission
  outbound : Mailbox Outbound
  events : Mailbox Stream.Event

def queues (d : Dispatcher) : Queues where
  abandoned := d.abandoned
  failures := d.failures
  frames := d.frames
  intake := d.intake
  outbound := d.outbound
  events := d.events

def Queues.closed (q : Queues) : Queues where
  abandoned := q.abandoned.dropReceiver
  failures := q.failures.dropReceiver
  frames := q.frames.dropReceiver
  intake := q.intake.dropReceiver
  outbound := q.outbound.dropSender
  events := q.events.dropSender

/-- The queues after an act. -/
def Queues.after (q : Queues) : Act → Queues
  | .stop _ => q.closed
  | .abandon _ => { q with abandoned := dropHead q.abandoned }
  | .fail _ => { q with failures := dropHead q.failures }
  | .handle _ => { q with frames := dropHead q.frames }
  | .submit _ => { q with intake := dropHead q.intake }
  | .forward out => { q with outbound := { q.outbound with items := q.outbound.items ++ [out] } }
  | .lose _ => q.closed
  | .deliver event => { q with events := { q.events with items := q.events.items ++ [event] } }
  | .forget => q
  | .giveUp => q

theorem queues_resolve (id : Nat) (verdict : Pending → Verdict) (d : Dispatcher) :
    (d.resolve id verdict).queues = d.queues := by
  rw [resolve_frame]
  rfl

/-- What an act does to the queues. -/
theorem queues_perform (d : Dispatcher) (a : Act) : (d.perform a).queues = d.queues.after a := by
  cases a with
  | abandon id => exact queues_resolve id _ { d with abandoned := dropHead d.abandoned }
  | fail failure => exact queues_resolve failure.id _ { d with failures := dropHead d.failures }
  | handle frame =>
    obtain ⟨_, _, _, _, he⟩ := handleFrame_frame frame { d with frames := dropHead d.frames }
    rw [perform, he]
    rfl
  | submit s =>
    obtain ⟨_, _, _, he⟩ := submit_frame s { d with intake := dropHead d.intake }
    rw [perform, he]
    rfl
  | lose out =>
    exact congrArg Queues.closed (queues_resolve out.id (fun _ => closed) d)
  | _ => rfl

theorem intake_perform (d : Dispatcher) (a : Act) :
    (d.perform a).intake = (d.queues.after a).intake :=
  congrArg Queues.intake (queues_perform d a)

theorem abandoned_perform (d : Dispatcher) (a : Act) :
    (d.perform a).abandoned = (d.queues.after a).abandoned :=
  congrArg Queues.abandoned (queues_perform d a)

theorem failures_perform (d : Dispatcher) (a : Act) :
    (d.perform a).failures = (d.queues.after a).failures :=
  congrArg Queues.failures (queues_perform d a)

theorem frames_perform (d : Dispatcher) (a : Act) :
    (d.perform a).frames = (d.queues.after a).frames :=
  congrArg Queues.frames (queues_perform d a)

theorem outbound_perform (d : Dispatcher) (a : Act) :
    (d.perform a).outbound = (d.queues.after a).outbound :=
  congrArg Queues.outbound (queues_perform d a)

theorem intake_perform_subset (d : Dispatcher) (a : Act) :
    (d.perform a).intake.items ⊆ d.intake.items := by
  rw [intake_perform]
  cases a with
  | stop reason => exact List.nil_subset _
  | lose out => exact List.nil_subset _
  | submit s => exact (List.drop_sublist 1 _).subset
  | _ => exact List.Subset.refl _

theorem abandoned_perform_subset (d : Dispatcher) (a : Act) :
    (d.perform a).abandoned.items ⊆ d.abandoned.items := by
  rw [abandoned_perform]
  cases a with
  | stop reason => exact List.nil_subset _
  | lose out => exact List.nil_subset _
  | abandon id => exact (List.drop_sublist 1 _).subset
  | _ => exact List.Subset.refl _

/-! ## The hand -/

/-- The command that a dispatcher has in its hand. -/
def hand (d : Dispatcher) : List Outbound :=
  match d.phase with
  | .sending out => [out]
  | _ => []

theorem hand_of_phase_eq {d e : Dispatcher} (h : d.phase = e.phase) : d.hand = e.hand := by
  rw [hand, hand, h]

/-- What an act puts into the hand: a command that is free to be forwarded. -/
def taken (d : Dispatcher) : Act → List Outbound
  | .submit s =>
    if s.ticket ∈ d.gone ∨ (d.table.find? s.id).isSome then [] else [⟨s.id, s.command⟩]
  | _ => []

theorem mem_taken {d : Dispatcher} {a : Act} {out : Outbound} (h : out ∈ d.taken a) :
    ∃ s, a = .submit s ∧ s.ticket ∉ d.gone ∧ d.table.find? s.id = none ∧
      out = ⟨s.id, s.command⟩ := by
  cases a with
  | submit s =>
    rw [taken] at h
    split at h
    · simp at h
    · rename_i hn
      simp only [not_or, Bool.not_eq_true, Option.isSome_eq_false_iff,
        Option.isNone_iff_eq_none] at hn
      exact ⟨s, rfl, hn.1, hn.2, List.mem_singleton.mp h⟩
  | _ => simp [taken] at h

theorem hand_perform {d : Dispatcher} {a : Act} (hr : d.Ready a) :
    (d.perform a).hand = d.taken a := by
  have hidle : d.phase = .idle → d.hand = [] := fun h => by rw [hand, h]
  cases a with
  | abandon id =>
    refine (hand_of_phase_eq ?_).trans (hidle hr.1)
    exact phase_resolve id _ { d with abandoned := dropHead d.abandoned }
  | fail failure =>
    refine (hand_of_phase_eq ?_).trans (hidle hr.1)
    exact phase_resolve failure.id _ { d with failures := dropHead d.failures }
  | handle frame =>
    rcases phase_handleFrame frame { d with frames := dropHead d.frames } with hp | ⟨event, hp⟩
    · exact (hand_of_phase_eq hp).trans (hidle hr.1)
    · rw [perform, hand, hp]
      rfl
  | submit s =>
    rw [perform, taken]
    by_cases hg : s.ticket ∈ d.gone
    · rw [if_pos (.inl hg), submit_of_gone (d := { d with intake := dropHead d.intake }) hg]
      exact hidle hr.1
    · cases hf : d.table.find? s.id with
      | some p =>
        rw [if_pos (.inr rfl),
          submit_of_taken (d := { d with intake := dropHead d.intake }) hg hf]
        exact hidle hr.1
      | none =>
        obtain ⟨table, -, he⟩ :=
          submit_of_free (d := { d with intake := dropHead d.intake }) hg hf
        rw [he, if_neg (by simp [hg])]
        rfl
  | _ => rfl

end LedgerClient.Dispatcher
