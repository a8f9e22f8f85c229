import LedgerClient.Proofs.Dispatcher.Delivery
import LedgerClient.Proofs.Dispatcher.Settlement
import LedgerClient.Proofs.Session.Tasks

/-!
# Frames reach the dispatcher in order

A text that the reader gets off the socket is in its hand, in the queue of frames or dealt with
(`Inflow`). Texts get lost only once the dispatcher has stopped, and if it stopped because frames had
come to their end, every text was dealt with.
-/

namespace LedgerClient

open Dispatcher (Act dropHead)

theorem Dispatcher.ended_of_stop {d : Dispatcher} {b : Bool} {reason : Shutdown}
    (h : d.act? b = some (.stop reason)) :
    match reason with
    | .closed =>
      d.signal.isRaised = true ∨ d.abandoned.hasSender = false ∨ d.intake.hasSender = false
    | .framesEnded => d.frames.items = [] ∧ d.frames.hasSender = false
    | .writerGone => d.failures.items = [] ∧ d.failures.hasSender = false := by
  have hidle : d.phase = .idle := ready_of_act? h
  rw [act?, hidle] at h
  simp only [turn?] at h
  split at h
  · rename_i hs
    obtain rfl := Act.stop.inj (Option.some.inj h)
    exact .inl hs
  · cases ha : d.abandoned.head with
    | item id rest => simp [ha] at h
    | ended =>
      simp only [ha, Option.some.injEq, Act.stop.injEq] at h
      exact h ▸ .inr (.inl (eq_of_head_ended ha).2)
    | empty =>
      simp only [ha] at h
      cases hf : d.failures.head with
      | item failure rest => simp [hf] at h
      | ended =>
        simp only [hf, Option.some.injEq, Act.stop.injEq] at h
        exact h ▸ eq_of_head_ended hf
      | empty =>
        simp only [hf] at h
        cases hr : d.frames.head with
        | item frame rest => simp [hr] at h
        | ended =>
          simp only [hr, Option.some.injEq, Act.stop.injEq] at h
          exact h ▸ eq_of_head_ended hr
        | empty =>
          simp only [hr] at h
          cases hs : d.intake.head with
          | item s rest => simp [hs] at h
          | ended =>
            simp only [hs, Option.some.injEq, Act.stop.injEq] at h
            exact h ▸ .inr (.inr (eq_of_head_ended hs).2)
          | empty => simp [hs] at h

/-- Whether a reader has stopped or was given up. -/
def Reader.isDone : Reader → Bool
  | .idle => false
  | .holding _ => false
  | .stopped _ => true
  | .abandoned => true

theorem Reader.held_of_isDone {r : Reader} (h : r.isDone = true) : r.held = [] := by
  cases r with
  | holding text => cases h
  | _ => rfl

/-- Where the texts are that a reader has got off the socket. -/
structure Inflow (handled arrived : List String) (r : Reader) (d : Dispatcher) : Prop where
  isPrefix : handled <+: arrived
  fifo : (∀ reason, d.phase ≠ .stopped reason) →
    handled ++ d.frames.items ++ r.held = arrived ∧ d.frames.hasReceiver = true
  spent : d.frames.hasSender = false → r.isDone = true
  whole : d.phase = .stopped .framesEnded → handled = arrived ∧ d.frames.hasSender = false

namespace Inflow

variable {handled arrived : List String} {r : Reader} {d : Dispatcher}

theorem start (c : Capacities) : Inflow [] [] .idle (.start c) :=
  ⟨List.nil_prefix, fun _ => ⟨rfl, rfl⟩, fun h => (by cases h), fun h => (by cases h)⟩

theorem of_same {e : Dispatcher} (h : Inflow handled arrived r d) (hp : e.phase = d.phase)
    (hf : e.frames = d.frames) : Inflow handled arrived r e := by
  refine ⟨h.isPrefix, ?_, ?_, ?_⟩
  · rw [hp, hf]
    exact h.fifo
  · rw [hf]
    exact h.spent
  · rw [hp, hf]
    exact h.whole

/-! ### The reader -/

theorem open_of_not_isDone (h : Inflow handled arrived r d) (hr : r.isDone = false) :
    d.frames.hasSender ≠ false ∧ d.phase ≠ .stopped .framesEnded := by
  have hsender : d.frames.hasSender ≠ false := by
    intro hs
    rw [h.spent hs] at hr
    cases hr
  exact ⟨hsender, fun hp => hsender (h.whole hp).2⟩

theorem release {next : Reader} (h : Inflow handled arrived r d) (hn : next.isDone = true)
    (hh : (∀ reason, d.phase ≠ .stopped reason) → r.held = []) :
    Inflow handled arrived next (Reader.release d) where
  isPrefix := h.isPrefix
  fifo hs := by
    obtain ⟨hf, hc⟩ := h.fifo hs
    rw [hh hs] at hf
    exact ⟨Reader.held_of_isDone hn ▸ hf, hc⟩
  spent _ := hn
  whole hs := ⟨(h.whole hs).1, rfl⟩

theorem receive {item : Incoming} {r' : Reader × Dispatcher} (h : Inflow handled arrived r d)
    (hr : r.receive item d = some r') :
    Inflow handled (arrived ++ item.text?.toList) r'.1 r'.2 := by
  obtain ⟨rfl, hcases⟩ := Reader.receive_cases hr
  obtain ⟨hsender, hlive⟩ := h.open_of_not_isDone rfl
  rcases hcases with ⟨text, ht, -, rfl⟩ | ⟨reason, ht, -, rfl⟩ | ⟨ht, -, rfl⟩
  · rw [ht]
    refine ⟨h.isPrefix.trans (List.prefix_append _ _), fun hs => ?_, fun hs => absurd hs hsender,
      fun hp => absurd hp hlive⟩
    obtain ⟨hf, hc⟩ := h.fifo hs
    refine ⟨?_, hc⟩
    rw [← hf]
    simp [Reader.held]
  · rw [ht, Option.toList_none, List.append_nil]
    exact h.release rfl (fun _ => rfl)
  · rw [ht, Option.toList_none, List.append_nil]
    exact h

theorem hand {r' : Reader × Dispatcher} (h : Inflow handled arrived r d)
    (hr : r.hand d = some r') : Inflow handled arrived r'.1 r'.2 := by
  obtain ⟨text, rfl, ⟨frames, hp, rfl⟩ | ⟨hn, rfl⟩⟩ := Reader.hand_cases hr
  · obtain ⟨hsender, hlive⟩ := h.open_of_not_isDone rfl
    obtain ⟨-, rfl⟩ := Mailbox.eq_of_push? hp
    refine ⟨h.isPrefix, fun hs => ?_, fun hs => absurd hs hsender, fun hp => absurd hp hlive⟩
    obtain ⟨hf, hc⟩ := h.fifo hs
    refine ⟨?_, hc⟩
    rw [← hf]
    simp [Reader.held]
  · refine h.release rfl fun hs => ?_
    rw [(h.fifo hs).2] at hn
    cases hn

theorem expire {window : Duration} {r' : Reader × Dispatcher} (h : Inflow handled arrived r d)
    (hr : r.expire window d = some r') : Inflow handled arrived r'.1 r'.2 := by
  obtain ⟨rfl, rfl⟩ := Reader.expire_cases hr
  exact h.release rfl (fun _ => rfl)

theorem giveUp {reason : Shutdown} (h : Inflow handled arrived r d)
    (hp : d.phase = .stopped reason) :
    Inflow handled arrived (r.giveUp d).1 (r.giveUp d).2 := by
  unfold Reader.giveUp
  split
  · exact h
  · exact h.release rfl fun hs => absurd hp (hs reason)

/-! ### The dispatcher -/

theorem frames_of_handle {b : Bool} {frame : String} (h : Inflow handled arrived r d)
    (ha : d.act? b = some (.handle frame)) :
    handled ++ [frame] ++ (dropHead d.frames).items ++ r.held = arrived := by
  have hready := Dispatcher.ready_of_act? ha
  obtain ⟨items, hi⟩ := List.head?_eq_some_iff.mp hready.2.2.2
  rw [← (h.fifo hready.phase_ne).1]
  simp [dropHead, hi]

theorem frames_perform {b : Bool} {a : Act} (h : Inflow handled arrived r d)
    (ha : d.act? b = some a) (hs : ∀ reason, (d.perform a).phase ≠ .stopped reason) :
    handled ++ a.frame?.toList ++ (d.perform a).frames.items ++ r.held = arrived ∧
      (d.perform a).frames.hasReceiver = true := by
  obtain ⟨hf, hc⟩ := h.fifo (Dispatcher.ready_of_act? ha).phase_ne
  rw [Dispatcher.frames_perform]
  cases a with
  | handle frame => exact ⟨h.frames_of_handle ha, hc⟩
  | stop reason => exact absurd rfl (hs reason)
  | lose out => exact absurd rfl (hs .writerGone)
  | _ => exact ⟨(List.append_nil handled).symm ▸ hf, hc⟩

theorem perform {b : Bool} {a : Act} (h : Inflow handled arrived r d) (ha : d.act? b = some a) :
    Inflow (handled ++ a.frame?.toList) arrived r (d.perform a) where
  isPrefix := by
    obtain ⟨hf, -⟩ := h.fifo (Dispatcher.ready_of_act? ha).phase_ne
    cases hframe : a.frame? with
    | none => exact (List.append_nil handled).symm ▸ h.isPrefix
    | some frame =>
      obtain rfl : a = .handle frame := by cases a <;> simp_all [Act.frame?]
      rw [← h.frames_of_handle ha, List.append_assoc]
      exact List.prefix_append _ _
  fifo := h.frames_perform ha
  spent hs := by
    refine h.spent ?_
    rw [Dispatcher.frames_perform] at hs
    cases a <;> exact hs
  whole hp := by
    have hready := Dispatcher.ready_of_act? ha
    obtain ⟨hf, -⟩ := h.fifo hready.phase_ne
    rcases Dispatcher.stopping hready hp with rfl | ⟨out, rfl⟩
    · obtain ⟨hi, hs⟩ := Dispatcher.ended_of_stop ha
      refine ⟨?_, hs⟩
      rw [hi, Reader.held_of_isDone (h.spent hs)] at hf
      simpa [Act.frame?] using hf
    · cases hp

end Inflow

end LedgerClient
