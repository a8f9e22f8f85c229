import LedgerClient.Proofs.Dispatcher.Refusal
import LedgerClient.Proofs.Session.Delivery
import LedgerClient.Proofs.Session.Timeout

/-!
# Where responses and events come from

Only a frame that answers an id makes the dispatcher tell a caller a response, and a call returns
only what its caller was told. So behind every response that a call returns there is a frame that
was handled (`answer_of_returned`), whatever else happened in the session. That frame is a JSON
object, and so is the one behind an event that the consumer received, unless the event is a bare
server status.
-/

namespace LedgerClient

open Dispatcher (Act)

/-! ## The dispatcher -/

namespace Dispatcher

variable {d : Dispatcher} {t : Ticket} {r : Response}

/-- A caller is told a response only by a frame that answers its command. -/
theorem answer_of_news {a : Act} (h : (t, .told (.ok r)) ∈ d.news a) :
    ∃ frame id p, a = .handle frame ∧ answeredId? frame = some id ∧
      d.table.find? id = some p ∧ p.ticket = t ∧ Response.decode p.shape frame = .ok r := by
  have ht := tells_of_mem_news h
  generalize hv : Verdict.told (.ok r) = v at ht
  cases ht with
  | @answered frame id p ha hid hp =>
    have hr : Except.ok r = replyTo id p.shape frame := Verdict.told.inj hv
    refine ⟨frame, id, p, ha, hid, hp, rfl, ?_⟩
    rw [replyTo] at hr
    cases hd : Response.decode p.shape frame with
    | error e => simp [hd, Except.mapError] at hr
    | ok r' => simpa [hd, Except.mapError] using hr.symm
  | _ => cases hv

end Dispatcher

/-! ## The session -/

namespace Session

variable {s : Session} {moments : List Moment} {id : Nat} {r : Response}

theorem replies_live (s : Session) (m : Moment) :
    (s.live m).dispatcher.replies =
      s.dispatcher.replies ++ ((s.act? m).map s.dispatcher.news).getD [] := by
  rcases live_cases s m with ⟨a, ha, -, he⟩ | ⟨ha, hc⟩
  · rw [he, ha]
    exact Dispatcher.replies_perform s.dispatcher a
  · rw [ha, Option.map_none, Option.getD_none, List.append_nil]
    cases hc with
    | aside b => exact b.alike.replies
    | allocated command b => exact b.alike.replies
    | staged x stage d submitted hx p b => exact b.alike.replies.trans p.keeps.2.2.1

theorem replies_prefix_live (s : Session) (m : Moment) :
    s.dispatcher.replies <+: (s.live m).dispatcher.replies := by
  rw [replies_live]
  exact List.prefix_append _ _

theorem answer_of_reply (settings : Connection.Settings) (moments : List Moment)
    (h : (id, .told (.ok r)) ∈ ((start settings).run moments).dispatcher.replies) :
    ∃ frame ∈ (start settings).handled moments,
      answeredId? frame = some id ∧ ∃ shape, Response.decode shape frame = .ok r := by
  induction moments using List.reverseRecOn with
  | nil => cases h
  | append_singleton moments m ih =>
    rw [run_concat, replies_live] at h
    rw [handled_concat]
    rcases List.mem_append.mp h with h | h
    · obtain ⟨frame, hf, hr⟩ := ih h
      exact ⟨frame, List.mem_append_left _ hf, hr⟩
    · cases ha : ((start settings).run moments).act? m with
      | none => simp [ha] at h
      | some a =>
        rw [ha] at h
        obtain ⟨frame, other, p, rfl, hid, hp, rfl, hd⟩ := Dispatcher.answer_of_news h
        -- the id of a call is its ticket as well
        rw [(sound_run (sound_start settings) moments).pending other p hp]
        exact ⟨frame, List.mem_append_right _ (List.mem_singleton_self frame), hid, p.shape, hd⟩

theorem Progress.told {x : Exchange} {d : Dispatcher} {submitted : List Nat} {stage : Stage}
    (p : Progress s x stage d submitted) (h : stage = .returned (.ok r)) :
    (x.id, .told (.ok r)) ∈ s.dispatcher.replies := by
  cases p with
  | collected v _ hv =>
    have hr : replyOf v = .ok r := Stage.returned.inj h
    cases v with
    | told reply => exact hr ▸ hv
    | skipped => cases hr
    | dropped => cases hr
  | _ => cases h

theorem told_of_returned (settings : Connection.Settings) (moments : List Moment) {x : Exchange}
    (hx : x ∈ ((start settings).run moments).exchanges) (hs : x.stage = .returned (.ok r)) :
    (x.id, .told (.ok r)) ∈ ((start settings).run moments).dispatcher.replies := by
  induction moments using List.reverseRecOn generalizing x with
  | nil => cases hx
  | append_singleton moments m ih =>
    rw [run_concat] at hx ⊢
    refine (replies_prefix_live _ m).subset ?_
    rcases live_cases ((start settings).run moments) m with ⟨a, -, -, he⟩ | ⟨-, hc⟩
    · rw [he] at hx
      exact ih hx hs
    · cases hc with
      | aside b he => exact ih (he ▸ hx) hs
      | allocated command b he =>
        rw [he, List.mem_append, List.mem_singleton] at hx
        rcases hx with hx | rfl
        · exact ih hx hs
        · cases hs
      | staged y stage d submitted hy p b he =>
        rw [he] at hx
        obtain ⟨z, hz, hid, ⟨hzy, hst⟩ | ⟨-, rfl⟩⟩ := mem_setStage hx
        · rw [hid, hzy]
          exact p.told (hst.symm.trans hs)
        · exact ih hz hs

/-- A call returns a response only after a frame that answers it was handled. -/
theorem answer_of_returned (settings : Connection.Settings) (moments : List Moment) {x : Exchange}
    (hx : x ∈ ((start settings).run moments).exchanges) (hs : x.stage = .returned (.ok r)) :
    ∃ frame ∈ (start settings).handled moments,
      answeredId? frame = some x.id ∧ ∃ shape, Response.decode shape frame = .ok r :=
  answer_of_reply settings moments (told_of_returned settings moments hx hs)

end Session

end LedgerClient
