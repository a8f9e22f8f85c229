import LedgerClient.Proofs.Dispatcher.Delivery
import LedgerClient.Proofs.Dispatcher.Settlement
import LedgerClient.Proofs.Trail

/-!
# Closing goes before everything else

Once the session is to be closed, a dispatcher gets rid of what it has in its hand and stops, whatever
its queues hold (`Winds`). It takes nothing from them any more, so its table stays as it is until it
stops, and then the callers of all pending commands are told that the connection is closed
(`Closing`). Waiting with an event comes to an end at once; only a command in its hand may have to
wait for the writer.
-/

namespace LedgerClient.Dispatcher

variable {d e : Dispatcher} {b : Bool} {a : Act}

/-! ## What is left to do -/

/-- How a dispatcher gets rid of what it has in its hand. -/
inductive Releases : Phase → Act → Phase → Prop
  | forward (out : Outbound) : Releases (.sending out) (.forward out) .idle
  | lose (out : Outbound) : Releases (.sending out) (.lose out) (.stopped .writerGone)
  | deliver (event : Stream.Event) : Releases (.delivering event) (.deliver event) .idle
  | forget (event : Stream.Event) : Releases (.delivering event) .forget .idle
  | giveUp (event : Stream.Event) : Releases (.delivering event) .giveUp .idle

/-- What a dispatcher does from one phase to another when the session is to be closed: it gets rid of
what it has in its hand, and stops. -/
inductive Winds : Phase → List Act → Phase → Prop
  | nil (p : Phase) : Winds p [] p
  | stop : Winds .idle [.stop .closed] (.stopped .closed)
  | release {p q r : Phase} {a : Act} {acts : List Act} (h : Releases p a q) (hw : Winds q acts r) :
    Winds p (a :: acts) r

namespace Winds

variable {p q r : Phase} {acts : List Act}

theorem eq_nil_of_stopped {reason : Shutdown} (h : Winds (.stopped reason) acts q) : acts = [] := by
  cases h with
  | nil => rfl
  | release h => cases h

theorem concat (h : Winds p acts q) (ha : Winds q [a] r) : Winds p (acts ++ [a]) r := by
  induction h with
  | nil => exact ha
  | stop => cases ha.eq_nil_of_stopped
  | release h hw ih => exact .release h (ih ha)

theorem length_le_of_idle (h : Winds .idle acts q) : acts.length ≤ 1 := by
  cases h with
  | nil => exact Nat.zero_le _
  | stop => exact Nat.le_refl _
  | release h => cases h

theorem length_le (h : Winds p acts q) : acts.length ≤ 2 := by
  cases h with
  | nil => exact Nat.zero_le _
  | stop => exact Nat.le_succ _
  | release h hw =>
    refine Nat.succ_le_succ ?_
    cases h with
    | lose out =>
      rw [hw.eq_nil_of_stopped]
      exact Nat.zero_le _
    | _ => exact hw.length_le_of_idle

theorem takes_nothing (h : Winds p acts q) (ha : a ∈ acts) :
    (∀ id, a ≠ .abandon id) ∧ (∀ failure, a ≠ .fail failure) ∧ (∀ frame, a ≠ .handle frame) ∧
      ∀ s, a ≠ .submit s := by
  induction h with
  | nil => cases ha
  | stop =>
    rw [List.mem_singleton.mp ha]
    exact ⟨nofun, nofun, nofun, nofun⟩
  | release h hw ih =>
    rcases List.mem_cons.mp ha with rfl | ha
    · cases h <;> exact ⟨nofun, nofun, nofun, nofun⟩
    · exact ih ha

end Winds

theorem winds_of_act? (hs : d.signal.isRaised = true) (ha : d.act? b = some a) :
    Winds d.phase [a] (d.perform a).phase := by
  cases hp : d.phase with
  | idle =>
    rw [act?_of_raised hp hs] at ha
    obtain rfl := Option.some.inj ha
    exact .stop
  | sending out =>
    rw [act?, hp] at ha
    simp only at ha
    split at ha
    · split at ha
      · obtain rfl := Option.some.inj ha
        exact .release (.forward out) (.nil _)
      · cases ha
    · obtain rfl := Option.some.inj ha
      exact .release (.lose out) (.nil _)
  | delivering event =>
    rw [act?_of_delivering hp] at ha
    rcases release?_cases ha with ⟨rfl, -⟩ | ⟨rfl, -⟩ | ⟨rfl, -⟩
    · exact .release (.deliver event) (.nil _)
    · exact .release (.forget event) (.nil _)
    · exact .release (.giveUp event) (.nil _)
  | stopped reason =>
    rw [act?, hp] at ha
    cases ha

/-! ## What callers are told -/

theorem mem_news_of_winds {p q : Phase} (h : Winds p [a] q) {r : Ticket × Verdict}
    (hr : r ∈ d.news a) : r.2 = .dropped ∨ r.2 = closed ∧ r.1 ∈ d.table.tickets := by
  have hact : (∀ failure, a ≠ .fail failure) ∧ (∀ frame, a ≠ .handle frame) ∧
      ∀ s, a ≠ .submit s := by
    cases h with
    | stop => simp
    | release h _ => cases h <;> simp
  obtain ⟨t, v⟩ := r
  cases tells_of_mem_news hr with
  | dropped => exact .inl rfl
  | closed ht => exact .inr ⟨rfl, ht⟩
  | unwritten ha => exact absurd ha (hact.1 _)
  | answered ha => exact absurd ha (hact.2.1 _)
  | skipped ha => exact absurd ha (hact.2.2 _)
  | taken ha => exact absurd ha (hact.2.2 _)

/-! ## Winding up -/

/-- What becomes of a dispatcher `d` that is to be closed: after these acts it is `e`. -/
structure Closing (d : Dispatcher) (acts : List Act) (e : Dispatcher) : Prop where
  raised : e.signal.isRaised = true
  winds : Winds d.phase acts e.phase
  /-- Until it stops, all that is pending stays pending. -/
  table : (∀ reason, e.phase ≠ .stopped reason) → e.table = d.table
  /-- As it stops, the callers of all pending commands are told that the connection is closed. -/
  told : (∀ reason, d.phase ≠ .stopped reason) → ∀ reason, e.phase = .stopped reason →
    e.table = .empty ∧ ∀ entry ∈ d.table.entries,
      (entry.2.ticket, .told (.error .connectionClosed)) ∈ e.replies
  /-- Nobody is told anything else. -/
  only : ∀ r ∈ e.replies, r ∈ d.replies ∨ r.2 = .dropped ∨
    r.2 = .told (.error .connectionClosed) ∧ r.1 ∈ d.table.tickets

namespace Closing

variable {acts : List Act}

theorem refl (h : d.signal.isRaised = true) : Closing d [] d where
  raised := h
  winds := .nil _
  table _ := rfl
  told hs reason hp := absurd hp (hs reason)
  only _ hr := .inl hr

theorem same {f : Dispatcher} (h : Closing d acts e) (hs : f.signal.isRaised = true)
    (hp : f.phase = e.phase) (ht : f.table = e.table) {dropped : List (Ticket × Verdict)}
    (hr : f.replies = e.replies ++ dropped) (hd : ∀ r ∈ dropped, r.2 = .dropped) :
    Closing d acts f where
  raised := hs
  winds := hp ▸ h.winds
  table hl := ht.trans (h.table (hp ▸ hl))
  told hl reason hstop := by
    obtain ⟨hempty, htold⟩ := h.told hl reason (hp ▸ hstop)
    exact ⟨ht.trans hempty, fun entry hm => hr ▸ List.mem_append_left _ (htold entry hm)⟩
  only r hm := by
    rw [hr, List.mem_append] at hm
    rcases hm with hm | hm
    · exact h.only r hm
    · exact .inr (.inl (hd r hm))

/-- An act takes a dispatcher closer to its stop. -/
theorem act (h : Closing d acts e) (ha : e.act? b = some a) :
    Closing d (acts ++ [a]) (e.perform a) := by
  have hready := ready_of_act? ha
  have hlast := winds_of_act? h.raised ha
  have htable := h.table hready.phase_ne
  refine ⟨?_, h.winds.concat hlast, ?_, ?_, ?_⟩
  · rw [(frame_perform e a).1]
    exact h.raised
  · intro hl
    refine Eq.trans ?_ htable
    generalize e.phase = p, (e.perform a).phase = q at hlast
    cases hlast with
    | stop => exact absurd rfl (hl .closed)
    | release hrel hw =>
      cases hrel with
      | lose out => exact absurd rfl (hl .writerGone)
      | _ => rfl
  · intro hl reason hstop
    obtain ⟨hrest, hpending, -⟩ := stop_spec hready hstop
    exact ⟨hrest.table, fun entry hm => hpending entry (htable ▸ hm)⟩
  · intro r hm
    rw [replies_perform, List.mem_append] at hm
    rcases hm with hm | hm
    · exact h.only r hm
    · exact .inr (htable ▸ mem_news_of_winds hlast hm)

/-! ### Getting on -/

theorem step_of_idle (h : Closing d acts e) (hp : e.phase = .idle) (b : Bool) :
    e.step b = some (e.stop .closed) := by
  rw [step_eq, act?_of_raised hp h.raised]
  rfl

theorem soon (h : Closing d acts e) {f : Dispatcher} (hf : e.step b = some f) :
    (∃ reason, f.phase = .stopped reason) ∨ ∀ b', f.step b' = some (f.stop .closed) := by
  rw [step_eq] at hf
  obtain ⟨a, ha, rfl⟩ := Option.map_eq_some_iff.mp hf
  have hlast := winds_of_act? h.raised ha
  have hnext := (h.act ha).step_of_idle
  generalize e.phase = p, (e.perform a).phase = q at hlast hnext
  cases hlast with
  | stop => exact .inl ⟨_, rfl⟩
  | release hrel hw =>
    cases hrel with
    | lose out =>
      cases hw
      exact .inl ⟨_, rfl⟩
    | _ =>
      cases hw
      exact .inr (hnext rfl)

/-- Only a command in the hand can make it wait, for a writer that is there and has left its queue
full; with an event it never waits for the consumer. -/
theorem waits (h : Closing d acts e) (hs : ∀ reason, e.phase ≠ .stopped reason)
    (hn : e.step b = none) :
    ∃ out, e.phase = .sending out ∧ e.outbound.hasReceiver = true ∧
      e.outbound.hasRoom = false := by
  rw [step_eq, Option.map_eq_none_iff] at hn
  cases hp : e.phase with
  | idle =>
    rw [act?_of_raised hp h.raised] at hn
    cases hn
  | sending out =>
    obtain ⟨hc, hroom⟩ := full_of_sending hp hn
    exact ⟨out, rfl, hc, hroom⟩
  | delivering event =>
    rw [act?_of_delivering hp] at hn
    have hquiet := (release?_eq_none_iff.mp hn).2.2
    rw [h.raised] at hquiet
    cases hquiet
  | stopped reason => exact absurd hp (hs reason)

end Closing

/-- How closing goes before all else that a dispatcher `d` might do: after these acts it is `e`. -/
structure ClosedFirst (d : Dispatcher) (acts : List Act) (e : Dispatcher) : Prop where
  /-- It finishes what it has in its hand and stops, and tells the callers of pending commands. -/
  closing : Closing d acts e
  brief : acts.length ≤ 2
  /-- It deals with nothing that is queued. -/
  unread : ∀ a ∈ acts, (∀ id, a ≠ .abandon id) ∧ (∀ failure, a ≠ .fail failure) ∧
    (∀ frame, a ≠ .handle frame) ∧ ∀ s, a ≠ .submit s
  /-- If it has nothing in its hand, it stops in the next move, whoever might still send to it. -/
  idle : e.phase = .idle → ∀ b, e.step b = some (e.stop .closed)
  /-- Else it stops in the next move or in the one after that. -/
  soon : ∀ b f, e.step b = some f →
    (∃ reason, f.phase = .stopped reason) ∨ ∀ b', f.step b' = some (f.stop .closed)
  /-- Only a writer that is there and has left its queue full can keep it waiting. -/
  waits : (∀ reason, e.phase ≠ .stopped reason) → ∀ b, e.step b = none →
    ∃ out, e.phase = .sending out ∧ e.outbound.hasReceiver = true ∧ e.outbound.hasRoom = false

theorem Closing.closedFirst {acts : List Act} (h : Closing d acts e) : ClosedFirst d acts e where
  closing := h
  brief := h.winds.length_le
  unread _ ha := h.winds.takes_nothing ha
  idle hp := h.step_of_idle hp
  soon _ _ hf := h.soon hf
  waits hs _ hn := h.waits hs hn

/-! ## Runs -/

/-- What a dispatcher does in a moment. -/
def actIn? (d : Dispatcher) : Moment → Option Act
  | .input _ => none
  | .move b => d.act? b

/-- What a dispatcher does in a run, in order. -/
def acts (d : Dispatcher) (moments : List Moment) : List Act :=
  trail live (fun d m => (d.actIn? m).toList) d moments

theorem raised_live {m : Moment} (h : d.signal.isRaised = true) (hm : m ≠ .input (.signal false)) :
    (d.live m).signal.isRaised = true := by
  cases m with
  | move b =>
    cases ha : d.act? b with
    | none =>
      rw [live_move_of_none ha]
      exact h
    | some a =>
      rw [live_move ha, (frame_perform d a).1]
      exact h
  | input i =>
    cases i with
    | submit s =>
      rcases live_submit s d with ⟨he, -⟩ | he
      · rw [he]
        exact h
      · rw [he]
        exact h
    | signal raised =>
      cases raised with
      | false => exact absurd rfl hm
      | true => cases hs : d.signal <;> simp [live, apply, hs, CloseSignal.isRaised]
    | dropSignal => rfl
    | _ => exact h

/-- A moment takes a dispatcher closer to its stop, or changes nothing of that. -/
theorem closing_live {acts : List Act} (h : Closing d acts e) {m : Moment}
    (hm : m ≠ .input (.signal false)) :
    Closing d (acts ++ (e.actIn? m).toList) (e.live m) := by
  have hraised := raised_live h.raised hm
  have hnobody : ∀ r ∈ ([] : List (Ticket × Verdict)), r.2 = .dropped :=
    fun _ hr => absurd hr List.not_mem_nil
  rcases live_cases e m with ⟨b, a, rfl, ha, -, he⟩ | ⟨s, rfl, ⟨he, -⟩ | he⟩ | ⟨-, hnone, hu⟩
  · rw [actIn?, ha, he]
    exact h.act ha
  · rw [actIn?, Option.toList_none, List.append_nil, he]
    exact h.same h.raised rfl rfl (List.append_nil _).symm hnobody
  · rw [actIn?, Option.toList_none, List.append_nil, he]
    refine h.same h.raised rfl rfl rfl fun r hr => ?_
    rw [List.mem_singleton.mp hr]
  · have hact : e.actIn? m = none := by
      cases m with
      | input i => rfl
      | move b => exact hnone b rfl
    rw [hact, Option.toList_none, List.append_nil]
    exact h.same hraised hu.phase hu.table (hu.replies.trans (List.append_nil _).symm) hnobody

theorem closing_run (h : d.signal.isRaised = true) {moments : List Moment}
    (hm : ∀ m ∈ moments, m ≠ .input (.signal false)) :
    Closing d (d.acts moments) (d.run moments) := by
  induction moments using List.reverseRecOn with
  | nil => exact .refl h
  | append_singleton moments m ih =>
    rw [run_concat, acts, trail_concat]
    exact closing_live (ih fun m' hm' => hm m' (List.mem_append_left _ hm'))
      (hm m (List.mem_append_right _ (List.mem_singleton_self _)))

end LedgerClient.Dispatcher
