import LedgerClient.Proofs.Dispatcher.Act
import Mathlib.Tactic.Set

/-!
# What an act changes

One lemma for each thing a dispatcher does to its table and its callers. Abandoned ids, write
failures, responses and the loss of the writer all come down to `resolve`, which takes the pending
command of one id out of the table and settles it; a command from the intake is skipped, refused or
noted (`submit_of_gone`, `submit_of_taken`, `submit_of_free`). `news` is what an act adds to the log
of replies (`replies_perform`), and `Tells` why a caller finds itself in it.
-/

namespace LedgerClient

/-- The entry of a command in the table of pending commands. -/
def Submission.pending (s : Submission) : Pending := ⟨s.command.name, s.command.shape, s.ticket⟩

/-- The id that a frame answers, if it is a response. -/
def answeredId? (frame : String) : Option Nat :=
  match Envelope.decode frame with
  | .error _ => none
  | .ok envelope =>
    match envelope.route with
    | .response id => some id
    | _ => none

/-- What a caller is told by the response to a command whose result has a shape. -/
def replyTo (id : Nat) (shape : Shape) (frame : String) : Except ClientError Response :=
  (Response.decode shape frame).mapError fun e => .malformedResponse id e.message

/-- What the caller of a pending command is told, if there is one. -/
def Pending.tell (verdict : Pending → Verdict) (p : Option Pending) : List (Ticket × Verdict) :=
  p.toList.map fun p => (p.ticket, verdict p)

namespace Dispatcher

/-! ## Settling one command -/

theorem abandon_eq (id : Nat) (d : Dispatcher) : d.abandon id = d.resolve id fun _ => .dropped :=
  rfl

theorem writeFailed_eq (failure : WriteFailure) (d : Dispatcher) :
    d.writeFailed failure = d.resolve failure.id fun _ =>
      .told (.error (.serialize failure.id failure.error.message)) :=
  rfl

theorem resolve_of_none {id : Nat} {verdict : Pending → Verdict} {d : Dispatcher}
    (h : d.table.find? id = none) : d.resolve id verdict = d := by
  rw [resolve, h]

theorem resolve_of_some {id : Nat} {verdict : Pending → Verdict} {d : Dispatcher} {p : Pending}
    (h : d.table.find? id = some p) :
    d.resolve id verdict =
      { d with table := d.table.erase id, replies := d.replies ++ [(p.ticket, verdict p)] } := by
  rw [resolve, h]
  rfl

theorem table_resolve (id : Nat) (verdict : Pending → Verdict) (d : Dispatcher) :
    (d.resolve id verdict).table = d.table.erase id := by
  cases h : d.table.find? id with
  | none => rw [resolve_of_none h, Table.erase_of_find?_none h]
  | some p => rw [resolve_of_some h]

theorem replies_resolve (id : Nat) (verdict : Pending → Verdict) (d : Dispatcher) :
    (d.resolve id verdict).replies = d.replies ++ Pending.tell verdict (d.table.find? id) := by
  cases h : d.table.find? id with
  | none => simp [resolve_of_none h, Pending.tell]
  | some p => simp [resolve_of_some h, Pending.tell]

theorem find?_resolve (id other : Nat) (verdict : Pending → Verdict) (d : Dispatcher) :
    (d.resolve other verdict).table.find? id =
      if other = id then none else d.table.find? id := by
  rw [table_resolve]
  by_cases h : other = id
  · rw [if_pos h, h]
    exact Table.find?_erase_self _ _
  · rw [if_neg h]
    exact Table.find?_erase_of_ne _ (Ne.symm h)

theorem resolve_frame (id : Nat) (verdict : Pending → Verdict) (d : Dispatcher) :
    d.resolve id verdict =
      { d with
        table := (d.resolve id verdict).table
        replies := (d.resolve id verdict).replies } := by
  cases h : d.table.find? id with
  | none => rw [resolve_of_none h]
  | some p => rw [resolve_of_some h]

theorem phase_resolve (id : Nat) (verdict : Pending → Verdict) (d : Dispatcher) :
    (d.resolve id verdict).phase = d.phase := by
  rw [resolve_frame]

/-! ## Frames -/

theorem answeredId?_eq_some {frame : String} {id : Nat} (h : answeredId? frame = some id) :
    ∃ envelope, Envelope.decode frame = .ok envelope ∧ envelope.route = .response id := by
  unfold answeredId? at h
  split at h
  · simp at h
  · rename_i envelope he
    refine ⟨envelope, he, ?_⟩
    split at h
    · rename_i hr
      rw [hr, Option.some.inj h]
    · simp at h

theorem not_mem_of_ofJson {α : Type} {result : Except Json.Fault α} {e : ProtocolError}
    (h : ProtocolError.ofJson result = .error e) (id : Nat) : .unmatchedResponse id ∉ [e] := by
  cases result with
  | ok a => cases h
  | error fault =>
    obtain rfl := Except.error.inj h
    simp

theorem handleFrame_of_known {frame : String} {id : Nat} {d : Dispatcher} {p : Pending}
    (h : answeredId? frame = some id) (hf : d.table.find? id = some p) :
    ∃ noted, d.handleFrame frame =
        { d.resolve id (fun p => .told (replyTo id p.shape frame)) with
          discarded := d.discarded ++ noted } ∧
      ∀ i, .unmatchedResponse i ∉ noted := by
  obtain ⟨envelope, he, hr⟩ := answeredId?_eq_some h
  simp only [handleFrame, he, hr, hf, resolve_of_some hf, complete, replyTo]
  cases hd : Response.decode p.shape frame with
  | ok response => exact ⟨[], by rw [List.append_nil]; rfl, fun _ => List.not_mem_nil⟩
  | error e => exact ⟨[e], rfl, not_mem_of_ofJson hd⟩

theorem handleFrame_of_unknown {frame : String} {id : Nat} {d : Dispatcher}
    (h : answeredId? frame = some id) (hf : d.table.find? id = none) :
    d.handleFrame frame = d.discard (.unmatchedResponse id) := by
  obtain ⟨envelope, he, hr⟩ := answeredId?_eq_some h
  simp [handleFrame, he, hr, hf]

theorem handleFrame_of_answer {frame : String} {id : Nat} (h : answeredId? frame = some id)
    (d : Dispatcher) :
    ∃ discarded, d.handleFrame frame =
      { d.resolve id (fun p => .told (replyTo id p.shape frame)) with discarded } := by
  cases hf : d.table.find? id with
  | none =>
    rw [handleFrame_of_unknown h hf, resolve_of_none hf]
    exact ⟨_, rfl⟩
  | some p =>
    obtain ⟨noted, he, -⟩ := handleFrame_of_known h hf
    exact ⟨_, he⟩

theorem deliver_eq (event : Stream.Event) (d : Dispatcher) :
    ∃ phase, d.deliver event = { d with phase } ∧ (phase = d.phase ∨ phase = .delivering event) := by
  rw [deliver]
  split
  · exact ⟨.delivering event, rfl, .inr rfl⟩
  · exact ⟨d.phase, rfl, .inl rfl⟩

theorem handleFrame_of_other {frame : String} (h : answeredId? frame = none) (d : Dispatcher) :
    ∃ phase noted, d.handleFrame frame = { d with phase, discarded := d.discarded ++ noted } ∧
      (∀ i, .unmatchedResponse i ∉ noted) ∧
      (phase = d.phase ∨ ∃ event, phase = .delivering event) := by
  unfold answeredId? at h
  unfold handleFrame
  cases he : Envelope.decode frame with
  | error e => exact ⟨d.phase, [e], rfl, not_mem_of_ofJson he, .inl rfl⟩
  | ok envelope =>
    rw [he] at h
    simp only at h ⊢
    cases hr : envelope.route with
    | response id => rw [hr] at h; simp at h
    | unrouted type => exact ⟨d.phase, [.unrouted type], rfl, by simp, .inl rfl⟩
    | stream kind =>
      simp only
      cases hd : Stream.Event.decode kind frame with
      | error e => exact ⟨d.phase, [e], rfl, not_mem_of_ofJson hd, .inl rfl⟩
      | ok event =>
        obtain ⟨phase, hd, hp⟩ := deliver_eq event d
        refine ⟨phase, [], ?_, fun _ => List.not_mem_nil, hp.imp_right fun h => ⟨event, h⟩⟩
        rw [List.append_nil]
        exact hd

theorem unknown_of_discarded {frame : String} {id : Nat} {d : Dispatcher}
    (h : (d.handleFrame frame).discarded = d.discarded ++ [.unmatchedResponse id]) :
    answeredId? frame = some id ∧ d.table.find? id = none := by
  have hnot : ∀ noted, (∀ i, ProtocolError.unmatchedResponse i ∉ noted) →
      d.discarded ++ noted ≠ d.discarded ++ [.unmatchedResponse id] := by
    intro noted hn he
    exact hn id (List.append_cancel_left he ▸ List.mem_singleton_self _)
  cases ha : answeredId? frame with
  | none =>
    obtain ⟨phase, noted, he, hn, -⟩ := handleFrame_of_other ha d
    rw [he] at h
    exact absurd h (hnot noted hn)
  | some other =>
    cases hf : d.table.find? other with
    | none =>
      rw [handleFrame_of_unknown ha hf] at h
      obtain rfl : other = id := by simpa [discard] using h
      exact ⟨rfl, hf⟩
    | some p =>
      obtain ⟨noted, he, hn⟩ := handleFrame_of_known ha hf
      rw [he] at h
      exact absurd h (hnot noted hn)

theorem phase_handleFrame (frame : String) (d : Dispatcher) :
    (d.handleFrame frame).phase = d.phase ∨
      ∃ event, (d.handleFrame frame).phase = .delivering event := by
  cases h : answeredId? frame with
  | some id =>
    obtain ⟨discarded, he⟩ := handleFrame_of_answer h d
    rw [he]
    exact .inl (phase_resolve id _ d)
  | none =>
    obtain ⟨phase, noted, he, -, hp⟩ := handleFrame_of_other h d
    rw [he]
    exact hp

theorem handleFrame_frame (frame : String) (d : Dispatcher) :
    ∃ phase table replies discarded,
      d.handleFrame frame = { d with phase, table, replies, discarded } := by
  cases h : answeredId? frame with
  | none =>
    obtain ⟨phase, noted, he, -⟩ := handleFrame_of_other h d
    exact ⟨phase, _, _, _, he⟩
  | some id =>
    obtain ⟨discarded, he⟩ := handleFrame_of_answer h d
    rw [resolve_frame] at he
    exact ⟨_, _, _, discarded, he⟩

/-! ## Commands from the intake -/

theorem submit_of_gone {s : Submission} {d : Dispatcher} (h : s.ticket ∈ d.gone) :
    d.submit s = d.settle s.ticket .skipped := by
  simp [submit, h]

theorem submit_of_taken {s : Submission} {d : Dispatcher} {p : Pending} (hg : s.ticket ∉ d.gone)
    (h : d.table.find? s.id = some p) :
    d.submit s = d.settle s.ticket (.told (.error (.duplicateId s.id))) := by
  have hi : d.table.insert? s.id s.pending = none := Table.insert?_eq_none_iff.mpr ⟨p, h⟩
  unfold Submission.pending at hi
  simp [submit, hg, hi]

theorem submit_of_free {s : Submission} {d : Dispatcher} (hg : s.ticket ∉ d.gone)
    (h : d.table.find? s.id = none) :
    ∃ table, d.table.insert? s.id s.pending = some table ∧
      d.submit s = { d with table, phase := .sending ⟨s.id, s.command⟩ } := by
  cases hi : d.table.insert? s.id s.pending with
  | none =>
    obtain ⟨p, hp⟩ := Table.insert?_eq_none_iff.mp hi
    simp [h] at hp
  | some table =>
    unfold Submission.pending at hi
    exact ⟨table, rfl, by simp [submit, hg, hi]⟩

theorem phase_submit (s : Submission) (d : Dispatcher) :
    (d.submit s).phase = d.phase ∨ (d.submit s).phase = .sending ⟨s.id, s.command⟩ := by
  by_cases hg : s.ticket ∈ d.gone
  · rw [submit_of_gone hg]
    exact .inl rfl
  · cases hf : d.table.find? s.id with
    | some p =>
      rw [submit_of_taken hg hf]
      exact .inl rfl
    | none =>
      obtain ⟨table, -, he⟩ := submit_of_free hg hf
      rw [he]
      exact .inr rfl

theorem submit_frame (s : Submission) (d : Dispatcher) :
    ∃ phase table replies, d.submit s = { d with phase, table, replies } := by
  by_cases hg : s.ticket ∈ d.gone
  · exact ⟨_, _, _, submit_of_gone hg⟩
  · cases hf : d.table.find? s.id with
    | some p => exact ⟨_, _, _, submit_of_taken hg hf⟩
    | none =>
      obtain ⟨table, -, he⟩ := submit_of_free hg hf
      exact ⟨_, table, _, he⟩

/-! ## The log -/

/-- What callers are told when a dispatcher stops; those of queued commands get no reply. -/
def closing (d : Dispatcher) : List (Ticket × Verdict) :=
  d.table.closingVerdicts ++ d.intake.items.map fun s => (s.ticket, .dropped)

/-- What callers are told by an act. -/
def news (d : Dispatcher) : Act → List (Ticket × Verdict)
  | .stop _ => d.closing
  | .abandon id => Pending.tell (fun _ => .dropped) (d.table.find? id)
  | .fail failure =>
    Pending.tell (fun _ => .told (.error (.serialize failure.id failure.error.message)))
      (d.table.find? failure.id)
  | .handle frame =>
    match answeredId? frame with
    | none => []
    | some id => Pending.tell (fun p => .told (replyTo id p.shape frame)) (d.table.find? id)
  | .submit s =>
    if s.ticket ∈ d.gone then [(s.ticket, .skipped)]
    else if (d.table.find? s.id).isSome then [(s.ticket, .told (.error (.duplicateId s.id)))]
    else []
  | .lose out =>
    Pending.tell (fun _ => closed) (d.table.find? out.id) ++
      (d.resolve out.id fun _ => closed).closing
  | _ => []

theorem replies_stop (reason : Shutdown) (d : Dispatcher) :
    (d.stop reason).replies = d.replies ++ d.closing :=
  List.append_assoc _ _ _

/-- What an act tells callers. -/
theorem replies_perform (d : Dispatcher) (a : Act) :
    (d.perform a).replies = d.replies ++ d.news a := by
  cases a with
  | stop reason => exact replies_stop reason d
  | abandon id => exact replies_resolve id _ { d with abandoned := dropHead d.abandoned }
  | fail failure => exact replies_resolve failure.id _ { d with failures := dropHead d.failures }
  | handle frame =>
    rw [perform, news]
    cases h : answeredId? frame with
    | none =>
      obtain ⟨phase, noted, he, -⟩ := handleFrame_of_other h { d with frames := dropHead d.frames }
      rw [he]
      exact (List.append_nil _).symm
    | some id =>
      obtain ⟨discarded, he⟩ := handleFrame_of_answer h { d with frames := dropHead d.frames }
      rw [he]
      exact replies_resolve id _ { d with frames := dropHead d.frames }
  | submit s =>
    rw [perform, news]
    -- taking the command from the queue changes neither the callers nor the table
    set e : Dispatcher := { d with intake := dropHead d.intake }
    by_cases hg : s.ticket ∈ d.gone
    · rw [if_pos hg, submit_of_gone (d := e) hg]
      rfl
    · rw [if_neg hg]
      cases hf : d.table.find? s.id with
      | some p =>
        rw [submit_of_taken (d := e) hg hf]
        rfl
      | none =>
        obtain ⟨table, -, he⟩ := submit_of_free (d := e) hg hf
        rw [he]
        exact (List.append_nil _).symm
  | lose out =>
    rw [perform, replies_stop, replies_resolve, List.append_assoc]
    rfl
  | _ => exact (List.append_nil _).symm

theorem gone_perform (d : Dispatcher) (a : Act) : (d.perform a).gone = d.gone := by
  cases a with
  | abandon id => rw [perform, abandon_eq, resolve_frame]
  | fail failure => rw [perform, writeFailed_eq, resolve_frame]
  | handle frame =>
    obtain ⟨_, _, _, _, he⟩ := handleFrame_frame frame { d with frames := dropHead d.frames }
    rw [perform, he]
  | submit s =>
    obtain ⟨_, _, _, he⟩ := submit_frame s { d with intake := dropHead d.intake }
    rw [perform, he]
  | lose out =>
    rw [perform, resolve_frame]
    rfl
  | _ => rfl

theorem unmatched_perform {d : Dispatcher} {a : Act} {id : Nat}
    (h : (d.perform a).discarded = d.discarded ++ [.unmatchedResponse id]) :
    ∃ frame, a = .handle frame ∧ answeredId? frame = some id ∧ d.table.find? id = none := by
  have hsame : (d.perform a).discarded ≠ d.discarded := by
    intro he
    rw [he] at h
    simp at h
  cases a with
  | handle frame =>
    exact ⟨frame, rfl, unknown_of_discarded (d := { d with frames := dropHead d.frames }) h⟩
  | abandon id =>
    refine absurd ?_ hsame
    rw [perform, abandon_eq, resolve_frame]
  | fail failure =>
    refine absurd ?_ hsame
    rw [perform, writeFailed_eq, resolve_frame]
  | submit s =>
    refine absurd ?_ hsame
    obtain ⟨_, _, _, he⟩ := submit_frame s { d with intake := dropHead d.intake }
    rw [perform, he]
  | lose out =>
    refine absurd ?_ hsame
    rw [perform, resolve_frame]
    rfl
  | _ => exact absurd rfl hsame

/-! ## What callers are told -/

theorem mem_tickets_of_find? {d : Dispatcher} {id : Nat} {p : Pending}
    (h : d.table.find? id = some p) : p.ticket ∈ d.table.tickets :=
  List.mem_map_of_mem (f := fun e : Nat × Pending => e.2.ticket) (Table.find?_eq_some_iff.mp h)

theorem mem_tell {verdict : Pending → Verdict} {p : Option Pending} {r : Ticket × Verdict}
    (h : r ∈ Pending.tell verdict p) : ∃ q, p = some q ∧ r = (q.ticket, verdict q) := by
  obtain ⟨q, hq, rfl⟩ := List.mem_map.mp h
  exact ⟨q, Option.mem_toList.mp hq, rfl⟩

theorem mem_closing {d : Dispatcher} {r : Ticket × Verdict} (h : r ∈ d.closing) :
    r.2 = .dropped ∨ r.2 = closed ∧ r.1 ∈ d.table.tickets := by
  rw [closing, List.mem_append] at h
  rcases h with h | h
  · obtain ⟨entry, hm, rfl⟩ := List.mem_map.mp h
    exact .inr ⟨rfl, List.mem_map_of_mem hm⟩
  · obtain ⟨s, -, rfl⟩ := List.mem_map.mp h
    exact .inl rfl

/-- What an act tells a caller, and on which ground. -/
inductive Tells (d : Dispatcher) (a : Act) : Ticket → Verdict → Prop
  | dropped (t : Ticket) : Tells d a t .dropped
  | closed {t : Ticket} (ht : t ∈ d.table.tickets) : Tells d a t (.told (.error .connectionClosed))
  | unwritten {failure : WriteFailure} {p : Pending} (ha : a = .fail failure)
    (hp : d.table.find? failure.id = some p) :
    Tells d a p.ticket (.told (.error (.serialize failure.id failure.error.message)))
  | answered {frame : String} {id : Nat} {p : Pending} (ha : a = .handle frame)
    (hid : answeredId? frame = some id) (hp : d.table.find? id = some p) :
    Tells d a p.ticket (.told (replyTo id p.shape frame))
  | skipped {s : Submission} (ha : a = .submit s) (hg : s.ticket ∈ d.gone) :
    Tells d a s.ticket .skipped
  | taken {s : Submission} {p : Pending} (ha : a = .submit s)
    (hp : d.table.find? s.id = some p) :
    Tells d a s.ticket (.told (.error (.duplicateId s.id)))

theorem tells_of_mem_closing {d e : Dispatcher} {a : Act} {r : Ticket × Verdict}
    (he : e.table.tickets ⊆ d.table.tickets) (h : r ∈ e.closing) : Tells d a r.1 r.2 := by
  rcases mem_closing h with hv | ⟨hv, ht⟩
  · rw [hv]
    exact .dropped r.1
  · rw [hv]
    exact .closed (he ht)

/-- Every caller that an act tells something is told it on one of these grounds. -/
theorem tells_of_mem_news {d : Dispatcher} {a : Act} {r : Ticket × Verdict} (h : r ∈ d.news a) :
    Tells d a r.1 r.2 := by
  cases a with
  | stop reason => exact tells_of_mem_closing (List.Subset.refl _) h
  | abandon id =>
    obtain ⟨p, -, rfl⟩ := mem_tell h
    exact .dropped p.ticket
  | fail failure =>
    obtain ⟨p, hp, rfl⟩ := mem_tell h
    exact .unwritten rfl hp
  | handle frame =>
    rw [news] at h
    cases hid : answeredId? frame with
    | none =>
      rw [hid] at h
      cases h
    | some id =>
      rw [hid] at h
      obtain ⟨p, hp, rfl⟩ := mem_tell h
      exact .answered rfl hid hp
  | submit s =>
    rw [news] at h
    by_cases hg : s.ticket ∈ d.gone
    · rw [if_pos hg] at h
      obtain rfl := List.mem_singleton.mp h
      exact .skipped rfl hg
    · rw [if_neg hg] at h
      cases hp : d.table.find? s.id with
      | none =>
        rw [hp] at h
        cases h
      | some p =>
        rw [hp] at h
        obtain rfl := List.mem_singleton.mp h
        exact .taken rfl hp
  | lose out =>
    rw [news, List.mem_append] at h
    rcases h with h | h
    · obtain ⟨p, hp, rfl⟩ := mem_tell h
      exact .closed (mem_tickets_of_find? hp)
    · -- those that are told after the lost command were in the table with it
      refine tells_of_mem_closing ?_ h
      rw [table_resolve]
      exact (List.filter_sublist.map _).subset
  | _ => cases h

end Dispatcher

end LedgerClient
