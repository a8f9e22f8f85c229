import LedgerClient.Proofs.Dispatcher.Conservation

/-!
# What concerns one id

Of all that a dispatcher does only some acts concern a given id: it takes commands with that id, an
abandon, a write failure or a response of that id, or it stops. `matters` lists them for a run.

A `Lane` is a dispatcher that knows a single id: it holds at most one pending command, and it is fed
with the matters of its id only. A run of a dispatcher is a run of each of its lanes (`follows_run`):
the table holds under an id what the lane of the id holds, and what the lane tells callers the
dispatcher tells them in the same order.
-/

namespace LedgerClient

open Dispatcher (closed)
open scoped List

/-! ## A single id -/

/-- Something that concerns one id. -/
inductive Matter
  /-- A command with the id is taken from the intake, from a caller that may be gone. -/
  | submitted (s : Submission) (gone : Bool)
  | abandoned
  | unwritten (failure : WriteFailure)
  | answered (frame : String)
  | stopped

namespace Matter

/-- What a matter decides for the pending command of its id. -/
def verdict? (id : Nat) (p : Pending) : Matter → Option Verdict
  | .submitted _ _ => none
  | .abandoned => some .dropped
  | .unwritten failure => some (.told (.error (.serialize id failure.error.message)))
  | .answered frame => some (.told (replyTo id p.shape frame))
  | .stopped => some closed

/-- What is pending after a matter. -/
def next (holder : Option Pending) : Matter → Option Pending
  | .submitted s gone => if gone then holder else some (holder.getD s.pending)
  | _ => none

/-- What callers are told on a matter. -/
def tells (id : Nat) (holder : Option Pending) : Matter → List (Ticket × Verdict)
  | .submitted s gone =>
    if gone then [(s.ticket, .skipped)]
    else if holder.isSome then [(s.ticket, .told (.error (.duplicateId id)))]
    else []
  | .abandoned => Pending.tell (fun _ => .dropped) holder
  | .unwritten failure =>
    Pending.tell (fun _ => .told (.error (.serialize id failure.error.message))) holder
  | .answered frame => Pending.tell (fun p => .told (replyTo id p.shape frame)) holder
  | .stopped => Pending.tell (fun _ => closed) holder

theorem next_tells_of_pending (id : Nat) (p : Pending) (x : Matter) :
    match x.verdict? id p with
    | none => x.next (some p) = some p
    | some v => (p.ticket, v) ∈ x.tells id (some p) := by
  cases x with
  | submitted s gone => cases gone <;> rfl
  | _ => exact List.mem_singleton_self _

end Matter

/-- A dispatcher that knows a single id. -/
structure Lane where
  /-- The pending command, if there is one. -/
  holder : Option Pending
  replies : List (Ticket × Verdict)

namespace Lane

/-- A lane that has not done anything. -/
def start : Lane := ⟨none, []⟩

/-- A lane after a matter of its id. -/
def step (id : Nat) (l : Lane) (x : Matter) : Lane :=
  ⟨x.next l.holder, l.replies ++ x.tells id l.holder⟩

/-- A lane after some matters of its id. -/
def run (id : Nat) (l : Lane) (matters : List Matter) : Lane := matters.foldl (step id) l

theorem replies_prefix_run (id : Nat) (l : Lane) (matters : List Matter) :
    l.replies <+: (l.run id matters).replies := by
  induction matters generalizing l with
  | nil => exact List.prefix_refl _
  | cons x matters ih => exact (List.prefix_append _ _).trans (ih (l.step id x))

/-- Where a command is that was registered, by the verdict on it: still pending, or settled. -/
def Decided (p : Pending) (verdict : Option Verdict) (l : Lane) : Prop :=
  match verdict with
  | none => l.holder = some p
  | some v => (p.ticket, v) ∈ l.replies

/-- The first matter that has a verdict for a pending command decides it. -/
theorem decided_run {id : Nat} {p : Pending} {l : Lane} (matters : List Matter)
    (h : l.holder = some p) :
    Decided p (matters.findSome? (·.verdict? id p)) (l.run id matters) := by
  induction matters generalizing l with
  | nil => exact h
  | cons x matters ih =>
    have hx := Matter.next_tells_of_pending id p x
    rw [List.findSome?_cons]
    cases hv : x.verdict? id p with
    | none =>
      rw [hv] at hx
      exact ih (l := l.step id x) (by rw [step, h]; exact hx)
    | some v =>
      rw [hv] at hx
      -- it is told now, and what is told stays in the log
      refine (replies_prefix_run id (l.step id x) matters).subset ?_
      rw [step, h]
      exact List.mem_append_right _ hx

/-- What becomes of a command that is taken from the intake, by who holds its id and what concerns
the id from then on. -/
def fate (holder : Option Pending) (s : Submission) (gone : Bool) (later : List Matter) :
    Option Verdict :=
  if gone then some .skipped
  else match holder with
    | some _ => some (.told (.error (.duplicateId s.id)))
    | none => later.findSome? (·.verdict? s.id s.pending)

/-- The fate of a command is what its caller is told; while it has none, it is pending. -/
theorem decided_fate (l : Lane) (s : Submission) (gone : Bool) (later : List Matter) :
    Decided s.pending (fate l.holder s gone later)
      (l.run s.id (.submitted s gone :: later)) := by
  have hlog := (replies_prefix_run s.id (l.step s.id (.submitted s gone)) later).subset
  cases gone with
  | true => exact hlog (List.mem_append_right _ (List.mem_singleton_self _))
  | false =>
    cases hh : l.holder with
    | some p =>
      refine hlog ?_
      rw [step, hh]
      exact List.mem_append_right _ (List.mem_singleton_self _)
    | none =>
      refine decided_run (l := l.step s.id (.submitted s false)) later ?_
      rw [step, hh]
      rfl

end Lane

/-! ## The matters of a run -/

namespace Dispatcher

/-- What an act is to an id. -/
def matter? (id : Nat) (d : Dispatcher) : Act → Option Matter
  | .stop _ => some .stopped
  | .abandon i => if i = id then some .abandoned else none
  | .fail failure => if failure.id = id then some (.unwritten failure) else none
  | .handle frame => if answeredId? frame = some id then some (.answered frame) else none
  | .submit s => if s.id = id then some (.submitted s (d.gone.contains s.ticket)) else none
  | .lose _ => some .stopped
  | _ => none

/-- What a moment is to an id. -/
def matterOf (id : Nat) (d : Dispatcher) : Moment → Option Matter
  | .input _ => none
  | .move b => (d.act? b).bind (d.matter? id)

/-- What concerns an id in a run, in order. -/
def matters (id : Nat) : Dispatcher → List Moment → List Matter
  | _, [] => []
  | d, m :: moments => (d.matterOf id m).toList ++ matters id (d.live m) moments

variable {d : Dispatcher}

theorem matters_append (id : Nat) (d : Dispatcher) (earlier later : List Moment) :
    d.matters id (earlier ++ later) = d.matters id earlier ++ (d.run earlier).matters id later := by
  induction earlier generalizing d with
  | nil => rfl
  | cons m earlier ih =>
    rw [List.cons_append, matters, matters, ih, List.append_assoc]
    rfl

theorem matters_split {id : Nat} {before after : List Matter} {x : Matter} {moments : List Moment}
    (h : d.matters id moments = before ++ x :: after) :
    ∃ earlier m later, moments = earlier ++ m :: later ∧ d.matters id earlier = before ∧
      (d.run earlier).matterOf id m = some x := by
  induction moments generalizing d before with
  | nil => simp [matters] at h
  | cons m moments ih =>
    rw [matters] at h
    cases hm : d.matterOf id m with
    | none =>
      rw [hm] at h
      obtain ⟨earlier, m', later, rfl, hb, hx⟩ := ih h
      exact ⟨m :: earlier, m', later, rfl, by rw [matters, hm, hb]; rfl, hx⟩
    | some y =>
      rw [hm] at h
      cases before with
      | nil =>
        obtain ⟨rfl, -⟩ := List.cons.inj h
        exact ⟨[], m, moments, rfl, rfl, hm⟩
      | cons z before =>
        obtain ⟨rfl, ht⟩ := List.cons.inj h
        obtain ⟨earlier, m', later, rfl, hb, hx⟩ := ih ht
        exact ⟨m :: earlier, m', later, rfl, by rw [matters, hm, hb]; rfl, hx⟩

theorem matterOf_submit {b : Bool} {s : Submission} (h : d.act? b = some (.submit s)) :
    d.matterOf s.id (.move b) = some (.submitted s (d.gone.contains s.ticket)) := by
  rw [matterOf, h, Option.bind_some, matter?, if_pos rfl]

theorem matterOf_eq_none {m : Moment} (h : ∀ b, m = .move b → d.act? b = none) (id : Nat) :
    d.matterOf id m = none := by
  cases m with
  | input i => rfl
  | move b => rw [matterOf, h b rfl, Option.bind_none]

/-! ## The simulation -/

/-- The pending command with an id after an act, by what the act is to the id. -/
def after (x : Option Matter) (holder : Option Pending) : Option Pending :=
  match x with
  | none => holder
  | some x => x.next holder

theorem find?_handleFrame (id : Nat) (frame : String) (d : Dispatcher) :
    (d.handleFrame frame).table.find? id =
      if answeredId? frame = some id then none else d.table.find? id := by
  cases ha : answeredId? frame with
  | none =>
    obtain ⟨phase, noted, he, -⟩ := handleFrame_of_other ha d
    rw [he]
    rfl
  | some other =>
    obtain ⟨discarded, he⟩ := handleFrame_of_answer ha d
    rw [he]
    simp only [Option.some.injEq]
    exact find?_resolve id other _ d

theorem find?_submit (id : Nat) (s : Submission) (d : Dispatcher) :
    (d.submit s).table.find? id =
      after (if s.id = id then some (.submitted s (d.gone.contains s.ticket)) else none)
        (d.table.find? id) := by
  by_cases hg : s.ticket ∈ d.gone
  · rw [submit_of_gone hg]
    by_cases hi : s.id = id
    · simp [hi, after, Matter.next, hg, settle]
    · simp [hi, after, settle]
  · cases hf : d.table.find? s.id with
    | some p =>
      rw [submit_of_taken hg hf]
      by_cases hi : s.id = id
      · subst hi
        simp [after, Matter.next, hg, hf, settle]
      · simp [hi, after, settle]
    | none =>
      obtain ⟨table, ht, he⟩ := submit_of_free hg hf
      rw [he]
      by_cases hi : s.id = id
      · subst hi
        simpa [after, Matter.next, hg, hf] using Table.find?_of_insert?_self ht
      · rw [if_neg hi]
        exact Table.find?_of_insert?_of_ne ht (Ne.symm hi)

theorem find?_perform (id : Nat) (d : Dispatcher) (a : Act) :
    (d.perform a).table.find? id = after (d.matter? id a) (d.table.find? id) := by
  cases a with
  | stop reason => rfl
  | abandon other =>
    refine (find?_resolve id other _ { d with abandoned := dropHead d.abandoned }).trans ?_
    rw [matter?]
    split <;> rfl
  | fail failure =>
    refine (find?_resolve id failure.id _ { d with failures := dropHead d.failures }).trans ?_
    rw [matter?]
    split <;> rfl
  | handle frame =>
    refine (find?_handleFrame id frame { d with frames := dropHead d.frames }).trans ?_
    rw [matter?]
    split <;> rfl
  | submit s => exact find?_submit id s { d with intake := dropHead d.intake }
  | lose out => rfl
  | _ => rfl

theorem submit_of_matter? {id : Nat} {a : Act} {s : Submission} {gone : Bool}
    (h : d.matter? id a = some (.submitted s gone)) :
    a = .submit s ∧ s.id = id ∧ gone = d.gone.contains s.ticket := by
  cases a with
  | submit s' =>
    obtain ⟨hid, he⟩ := Option.ite_some_none_eq_some.mp h
    obtain ⟨rfl, rfl⟩ := Matter.submitted.inj he
    exact ⟨rfl, hid, rfl⟩
  | _ => simp [matter?] at h

theorem pending_of_perform {id : Nat} {a : Act} {p : Pending}
    (h : (d.perform a).table.find? id = some p) :
    d.table.find? id = some p ∨ ∃ s, a = .submit s ∧ s.id = id ∧ s.ticket ∉ d.gone ∧
      p = s.pending := by
  rw [find?_perform] at h
  cases hm : d.matter? id a with
  | none =>
    rw [hm] at h
    exact .inl h
  | some x =>
    rw [hm] at h
    cases x with
    | submitted s gone =>
      obtain ⟨rfl, hid, rfl⟩ := submit_of_matter? hm
      by_cases hg : s.ticket ∈ d.gone
      · simp only [after, Matter.next, List.contains_iff_mem, hg, if_true] at h
        exact .inl h
      · simp only [after, Matter.next, List.contains_iff_mem, hg, if_false] at h
        cases hf : d.table.find? id with
        | some q =>
          rw [hf] at h
          exact .inl h
        | none =>
          rw [hf] at h
          exact .inr ⟨s, rfl, hid, hg, (Option.some.inj h).symm⟩
    | _ => cases h

theorem act_of_left {id : Nat} {a : Act} {p : Pending} (hp : d.table.find? id = some p)
    (hn : (d.perform a).table.find? id = none) :
    (∃ reason, a = .stop reason) ∨ (∃ out, a = .lose out) ∨ a = .abandon id ∨
      (∃ failure, a = .fail failure ∧ failure.id = id) ∨
      ∃ frame, a = .handle frame ∧ answeredId? frame = some id := by
  rw [find?_perform, hp] at hn
  cases a with
  | stop reason => exact .inl ⟨reason, rfl⟩
  | lose out => exact .inr (.inl ⟨out, rfl⟩)
  | abandon other =>
    by_cases ho : other = id
    · exact .inr (.inr (.inl (congrArg Act.abandon ho)))
    · simp [matter?, ho, after] at hn
  | fail failure =>
    by_cases ho : failure.id = id
    · exact .inr (.inr (.inr (.inl ⟨failure, rfl, ho⟩)))
    · simp [matter?, ho, after] at hn
  | handle frame =>
    by_cases ho : answeredId? frame = some id
    · exact .inr (.inr (.inr (.inr ⟨frame, rfl, ho⟩)))
    · simp [matter?, ho, after] at hn
  | submit s =>
    rw [matter?] at hn
    split at hn
    · cases hg : d.gone.contains s.ticket <;> simp [after, Matter.next] at hn
    · cases hn
  | _ => cases hn

theorem tells_sublist_news {id : Nat} {a : Act} {x : Matter} (h : d.matter? id a = some x) :
    x.tells id (d.table.find? id) <+ d.news a := by
  have hclosing : ∀ e : Dispatcher, Pending.tell (fun _ => closed) (e.table.find? id) <+
      e.closing := by
    intro e
    cases hp : e.table.find? id with
    | none => exact List.nil_sublist _
    | some p =>
      refine List.singleton_sublist.mpr (List.mem_append_left _ ?_)
      exact List.mem_map.mpr ⟨(id, p), Table.find?_eq_some_iff.mp hp, rfl⟩
  cases a with
  | stop reason =>
    obtain rfl := Option.some.inj h
    exact hclosing d
  | abandon other =>
    obtain ⟨rfl, rfl⟩ := Option.ite_some_none_eq_some.mp h
    exact List.Sublist.refl _
  | fail failure =>
    obtain ⟨rfl, rfl⟩ := Option.ite_some_none_eq_some.mp h
    exact List.Sublist.refl _
  | handle frame =>
    obtain ⟨ha, rfl⟩ := Option.ite_some_none_eq_some.mp h
    rw [news, ha]
    exact List.Sublist.refl _
  | submit s =>
    obtain ⟨rfl, rfl⟩ := Option.ite_some_none_eq_some.mp h
    simp only [Matter.tells, news, List.contains_iff_mem]
    exact List.Sublist.refl _
  | lose out =>
    obtain rfl := Option.some.inj h
    by_cases ho : out.id = id
    · rw [news, ho]
      exact List.sublist_append_left _ _
    · -- the lost command is not this one, which is told with all others
      have hc := hclosing (d.resolve out.id fun _ => closed)
      rw [find?_resolve, if_neg ho] at hc
      exact hc.trans (List.sublist_append_right _ _)
  | _ => simp [matter?] at h

/-- A lane follows a dispatcher: it holds what the table holds under its id, and what it told
callers the dispatcher told them. -/
structure Follows (id : Nat) (l : Lane) (d : Dispatcher) : Prop where
  holder : l.holder = d.table.find? id
  replies : l.replies <+ d.replies

theorem follows_start (id : Nat) (c : Capacities) : Follows id .start (start c) :=
  ⟨rfl, List.Sublist.refl _⟩

theorem follows_perform {id : Nat} {l : Lane} (h : Follows id l d) (a : Act) :
    Follows id (l.run id (d.matter? id a).toList) (d.perform a) := by
  cases hx : d.matter? id a with
  | none =>
    refine ⟨?_, ?_⟩
    · rw [find?_perform, hx]
      exact h.holder
    · rw [replies_perform]
      exact h.replies.trans (List.sublist_append_left _ _)
  | some x =>
    refine ⟨?_, ?_⟩
    · rw [find?_perform, hx]
      exact congrArg x.next h.holder
    · rw [replies_perform]
      refine List.Sublist.append h.replies ?_
      rw [h.holder]
      exact tells_sublist_news hx

theorem follows_live {id : Nat} {l : Lane} (h : Follows id l d) (m : Moment) :
    Follows id (l.run id (d.matterOf id m).toList) (d.live m) := by
  rcases live_cases d m with ⟨b, a, rfl, ha, -, he⟩ | ⟨s, rfl, ⟨he, -⟩ | he⟩ | ⟨-, hb, hu⟩
  · rw [he, matterOf, ha]
    exact follows_perform h a
  · rw [he]
    exact ⟨h.holder, h.replies⟩
  · rw [he]
    exact ⟨h.holder, h.replies.trans (List.sublist_append_left _ _)⟩
  · rw [matterOf_eq_none hb]
    exact ⟨h.holder.trans (congrArg (·.find? id) hu.table.symm), hu.replies ▸ h.replies⟩

/-- A run of a dispatcher is a run of each of its lanes. -/
theorem follows_run {id : Nat} {l : Lane} (h : Follows id l d) (moments : List Moment) :
    Follows id (l.run id (d.matters id moments)) (d.run moments) := by
  induction moments generalizing d l with
  | nil => exact h
  | cons m moments ih =>
    rw [matters, Lane.run, List.foldl_append]
    exact ih (follows_live h m)

theorem follows_holder (id : Nat) (d : Dispatcher) : Follows id ⟨d.table.find? id, []⟩ d :=
  ⟨rfl, List.nil_sublist _⟩

/-- Where a command is that was registered, by the verdict on it. -/
def Decided (id : Nat) (p : Pending) (verdict : Option Verdict) (d : Dispatcher) : Prop :=
  match verdict with
  | none => d.table.find? id = some p
  | some v => (p.ticket, v) ∈ d.replies

theorem Follows.decided {id : Nat} {l : Lane} {p : Pending} {verdict : Option Verdict}
    (h : Follows id l d) (hl : Lane.Decided p verdict l) : Decided id p verdict d := by
  cases verdict with
  | none => exact h.holder.symm.trans hl
  | some v => exact h.replies.subset hl

theorem decided_run {id : Nat} {p : Pending} (moments : List Moment)
    (h : d.table.find? id = some p) :
    Decided id p ((d.matters id moments).findSome? (·.verdict? id p)) (d.run moments) :=
  (follows_run (follows_holder id d) moments).decided (Lane.decided_run _ h)

theorem fate_run {b : Bool} {s : Submission} (later : List Moment)
    (h : d.act? b = some (.submit s)) :
    Decided s.id s.pending
      (Lane.fate (d.table.find? s.id) s (d.gone.contains s.ticket)
        ((d.live (.move b)).matters s.id later))
      (d.run (.move b :: later)) := by
  have hf := follows_run (follows_holder s.id d) (.move b :: later)
  rw [matters, matterOf_submit h] at hf
  exact hf.decided (Lane.decided_fate ⟨d.table.find? s.id, []⟩ s _ _)

end Dispatcher

end LedgerClient
