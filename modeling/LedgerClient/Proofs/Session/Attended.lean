import LedgerClient.Proofs.Session.Delivery
import LedgerClient.Proofs.Session.Timeout
import LedgerClient.Proofs.Session.Writing
import LedgerClient.Session.Watch

/-!
# Sessions that nobody ends

A session with one call, whose owner makes no other call, closes nothing and gives nothing up
(`Attended`). Only the peer and the writer can end it, and while it goes on nothing keeps its
dispatcher and its reader from dealing with all that comes in but an event for which there is no room
in the queue (`rest_cases`).
-/

namespace LedgerClient

open Dispatcher (Act)

/-! ## What owners leave -/

/-- What only the owners of a session and the consumer of its events change of a dispatcher, and how
much fits into its queues. -/
structure Dispatcher.Outline where
  signal : CloseSignal
  hasConsumer : Bool
  canAbandon : Bool
  canSubmit : Bool
  frames : Option Nat
  outbound : Option Nat

def Dispatcher.outline (d : Dispatcher) : Outline where
  signal := d.signal
  hasConsumer := d.queues.events.hasReceiver
  canAbandon := d.queues.abandoned.hasSender
  canSubmit := d.queues.intake.hasSender
  frames := d.queues.frames.capacity
  outbound := d.queues.outbound.capacity

theorem Dispatcher.outline_perform (d : Dispatcher) (a : Act) : (d.perform a).outline = d.outline := by
  rw [outline, queues_perform, (frame_perform d a).1]
  cases a <;> rfl

theorem Writer.outline_report (failure : WriteFailure) (d : Dispatcher) :
    (report failure d).outline = d.outline := by
  rw [report]
  split <;> rfl

theorem Writer.outline_take {w : Writer} {d : Dispatcher} {r : Writer × Dispatcher}
    (h : w.take d = some r) : r.2.outline = d.outline := by
  cases (takes_of_take h).2 with
  | reported => exact outline_report _ _
  | _ => rfl

theorem Writer.outline_learn {w : Writer} {d : Dispatcher} {r : Writer × Dispatcher}
    {limit : Duration} {written : Sender.Written} (h : w.learn limit written d = some r) :
    r.2.outline = d.outline := by
  cases learns_of_learn h <;> rfl

theorem Reader.outline_receive {r : Reader} {item : Incoming} {d : Dispatcher}
    {r' : Reader × Dispatcher} (h : r.receive item d = some r') : r'.2.outline = d.outline := by
  obtain ⟨-, ⟨_, -, -, rfl⟩ | ⟨_, -, -, rfl⟩ | ⟨-, -, rfl⟩⟩ := receive_cases h <;> rfl

theorem Reader.outline_hand {r : Reader} {d : Dispatcher} {r' : Reader × Dispatcher}
    (h : r.hand d = some r') : r'.2.outline = d.outline := by
  obtain ⟨text, -, ⟨frames, hp, rfl⟩ | ⟨-, rfl⟩⟩ := hand_cases h
  · obtain ⟨-, rfl⟩ := Mailbox.eq_of_push? hp
    rfl
  · rfl

theorem Reader.outline_expire {r : Reader} {window : Duration} {d : Dispatcher}
    {r' : Reader × Dispatcher} (h : r.expire window d = some r') : r'.2.outline = d.outline := by
  obtain ⟨-, rfl⟩ := expire_cases h
  rfl

theorem Reader.outline_giveUp (r : Reader) (d : Dispatcher) :
    (r.giveUp d).2.outline = d.outline := by
  unfold giveUp
  split <;> rfl

namespace Session

variable {s s' : Session}

/-- The one call of a session: it has no id yet, or it has the first one. -/
inductive Lone (s : Session) : Prop
  | entered (command : Command) (he : s.entered = [command]) (hx : s.exchanges = [])
    (hn : s.nextId = 1)
  | numbered (x : Exchange) (he : s.entered = []) (hx : s.exchanges = [x]) (hi : x.id = 1)
    (ht : x.stage = .expired → s.settings.requestTimeout.isSome)

/-- What stays so while no other call is made, nothing is closed and nothing is given up. -/
structure Attended (s : Session) : Prop where
  isOpen : s.isOpen = true
  outline : s.dispatcher.outline = (start s.settings).dispatcher.outline
  lone : Lone s

theorem Attended.settleIntake (h : Attended s) : Attended s.settleIntake := by
  rw [Session.settleIntake, feedsIntake, h.isOpen]
  exact h

theorem Attended.tasks (h : Attended s) {dispatcher : Dispatcher} {writer : Writer}
    {reader : Reader} {ending : Option SessionEnd} (ho : dispatcher.outline = s.dispatcher.outline) :
    Attended { s with dispatcher, writer, reader, ending } where
  isOpen := h.isOpen
  outline := ho.trans h.outline
  lone := by
    cases h.lone with
    | entered command he hx hn => exact .entered command he hx hn
    | numbered x he hx hi ht => exact .numbered x he hx hi ht

theorem Attended.setStage (h : Attended s) {id : Nat} {x : Exchange} (hf : s.find? id = some x)
    {dispatcher : Dispatcher} (ho : dispatcher.outline = s.dispatcher.outline) {stage : Stage}
    (ht : stage = .expired → s.settings.requestTimeout.isSome) :
    Attended ({ s with dispatcher }.setStage id stage) where
  isOpen := h.isOpen
  outline := ho.trans h.outline
  lone := by
    obtain ⟨hm, rfl⟩ := mem_of_find? hf
    cases h.lone with
    | entered command he hx hn =>
      rw [hx] at hm
      cases hm
    | numbered y he hx hi _ =>
      obtain rfl := List.mem_singleton.mp (hx ▸ hm)
      refine .numbered { x with stage } he ?_ hi ht
      simp [Session.setStage, hx]

theorem attended_step {m : Moment} (hm : Watch.isInner m = true ∨ m = .takeEvent)
    (ha : Attended s) (h : s.step m = some s') : Attended s' := by
  cases step_cases h with
  | @allocate place command hc =>
    refine ⟨ha.isOpen, ha.outline, ?_⟩
    cases ha.lone with
    | entered command' he hx hn =>
      obtain rfl : place = 0 := by
        have hlt := (List.getElem?_eq_some_iff.mp hc).1
        simpa [he] using hlt
      exact .numbered ⟨s.nextId, command, .queueing⟩ (by simp [he]) (by simp [hx]) hn nofun
    | numbered x he => simp [he] at hc
  | enqueue hx _ hp =>
    obtain ⟨-, rfl⟩ := Mailbox.eq_of_push? hp
    refine Attended.settleIntake (ha.setStage hx ?_ nofun)
    rfl
  | refuse hx => exact Attended.settleIntake (ha.setStage hx rfl nofun)
  | collect hx => exact ha.setStage hx rfl nofun
  | expire hl hx =>
    refine Attended.settleIntake (ha.setStage hx ?_ fun _ => Option.isSome_of_eq_some hl)
    rfl
  | @abandon id x limit _ hx =>
    refine ha.setStage hx ?_ nofun
    cases hp : s.dispatcher.abandoned.push? id with
    | none => rfl
    | some abandoned =>
      obtain ⟨-, rfl⟩ := Mailbox.eq_of_push? hp
      rfl
  | takeEvent => exact ha.tasks rfl
  | dispatch => exact ha.tasks (Dispatcher.outline_perform _ _)
  | take hr => exact ha.tasks (Writer.outline_take hr)
  | ping => exact ha.tasks rfl
  | written hr => exact ha.tasks (Writer.outline_learn hr)
  | arrive hr => exact ha.tasks (Reader.outline_receive hr)
  | hand hr => exact ha.tasks (Reader.outline_hand hr)
  | silence hr => exact ha.tasks (Reader.outline_expire hr)
  | conclude => exact ha.tasks (Reader.outline_giveUp s.reader s.dispatcher)
  | _ => simp [Watch.isInner] at hm

/-! ## Runs -/

theorem unheard_run (settings : Connection.Settings) (moments : List Moment)
    (hq : ∀ x ∈ ((start settings).run moments).exchanges, x.stage.isQueueing = true) :
    ((start settings).run moments).dispatcher.places = [] := by
  induction moments using List.reverseRecOn with
  | nil => rfl
  | append_singleton moments m ih =>
    rw [run_concat] at hq ⊢
    rcases live_cases ((start settings).run moments) m with ⟨a, -, hr, he⟩ | ⟨-, hc⟩
    · rw [he] at hq ⊢
      exact List.perm_nil.mp (ih hq ▸ Dispatcher.places_perform hr)
    · cases hc with
      | aside b he =>
        rw [Dispatcher.places_congr b.alike.intake b.alike.table b.alike.replies]
        exact ih (he ▸ hq)
      | allocated command b he =>
        rw [Dispatcher.places_congr b.alike.intake b.alike.table b.alike.replies]
        exact ih fun x hx => hq x (he ▸ List.mem_append_left _ hx)
      | staged x stage d submitted hx p b he =>
        -- a call that comes to its next stage does not wait for the intake any more
        obtain ⟨-, -, -, -, -, -, -, hs, -⟩ := p.keeps
        have hm := mem_setStage_of_mem x.id stage hx
        rw [if_pos rfl, ← he] at hm
        have hstage : stage.isQueueing = true := hq _ hm
        rw [hs] at hstage
        cases hstage

theorem stopped_of_unsent (settings : Connection.Settings) (moments : List Moment)
    (h : ((start settings).run moments).dispatcher.events.hasSender = false) :
    ∃ reason, ((start settings).run moments).dispatcher.phase = .stopped reason := by
  induction moments using List.reverseRecOn with
  | nil => cases h
  | append_singleton moments m ih =>
    rw [run_concat] at h ⊢
    generalize (start settings).run moments = s at h ih ⊢
    cases ha : s.act? m with
    | some a =>
      obtain ⟨b, rfl, hb⟩ := act?_eq_some ha
      rw [live_dispatch hb] at h ⊢
      rw [Dispatcher.events_perform] at h
      cases a with
      | stop reason => exact ⟨reason, rfl⟩
      | lose out => exact ⟨.writerGone, rfl⟩
      | _ =>
        obtain ⟨reason, hp⟩ := ih h
        exact absurd hp ((Dispatcher.ready_of_act? hb).phase_ne reason)
    | none =>
      cases m with
      | takeEvent =>
        obtain ⟨items, he⟩ := live_takeEvent s
        rw [he] at h ⊢
        exact ih h
      | dropEvents => exact ih h
      | _ =>
        have hsteady := steady_live ha (by simp) (by simp)
        rw [hsteady.events] at h
        rw [hsteady.phase]
        exact ih h

theorem length_requests_le (h : Sound s) (hl : Lone s) : s.requests.length ≤ 1 := by
  have hone : ∀ id ∈ s.requests, 1 = id := by
    intro id hid
    by_contra hne
    refine Nat.ne_of_gt (List.count_pos_iff.mpr hid) (h.outside id fun x hx hid => ?_)
    cases hl with
    | entered command he hx' =>
      rw [hx'] at hx
      cases hx
    | numbered y he hx' hi =>
      obtain rfl := List.mem_singleton.mp (hx' ▸ hx)
      exact absurd (hi.symm.trans hid) hne
  rw [← List.count_eq_length.mpr hone]
  exact h.once 1

theorem outbound_of_sending (h : Sound s) (hl : Lone s) {out : Outbound}
    (hp : s.dispatcher.phase = .sending out) : s.dispatcher.outbound.items = [] := by
  have hlen := length_requests_le h hl
  have hhand : s.dispatcher.hand = [out] := by rw [Dispatcher.hand, hp]
  simp only [requests, Writer.requests, Writer.registered, Writer.outgoing, hhand,
    List.length_append, List.length_map, List.length_singleton] at hlen
  exact List.length_eq_zero_iff.mp (by omega)

theorem unclosed_live (ha : Attended s) (h : s.dispatcher.phase ≠ .stopped .closed) (m : Moment) :
    (s.live m).dispatcher.phase ≠ .stopped .closed := by
  intro hp
  cases hact : s.act? m with
  | some a =>
    obtain ⟨b, rfl, hb⟩ := act?_eq_some hact
    rw [live_dispatch hb] at hp
    rcases Dispatcher.stopping (Dispatcher.ready_of_act? hb) hp with rfl | ⟨out, rfl⟩
    · have hout := ha.outline
      rcases Dispatcher.ended_of_stop hb with hs | hs | hs
      · rw [show s.dispatcher.signal = .quiet from congrArg Dispatcher.Outline.signal hout] at hs
        cases hs
      · exact absurd ((congrArg Dispatcher.Outline.canAbandon hout).symm.trans hs) (by
          simp [start, Dispatcher.start, Dispatcher.outline, Dispatcher.queues, Mailbox.unbounded])
      · exact absurd ((congrArg Dispatcher.Outline.canSubmit hout).symm.trans hs) (by
          simp [start, Dispatcher.start, Dispatcher.outline, Dispatcher.queues, Mailbox.bounded])
    · cases hp
  | none =>
    rcases live_cases s m with ⟨a, ha', -⟩ | ⟨-, hc⟩
    · rw [hact] at ha'
      cases ha'
    · refine h (Eq.trans ?_ hp)
      cases hc with
      | aside b => exact b.alike.phase.symm
      | allocated command b => exact b.alike.phase.symm
      | staged x stage d submitted hx p b => exact (b.alike.phase.trans p.keeps.1).symm

/-- What keeps a session with one call from going on: its dispatcher has stopped, or waits with an
event that finds no room; or nothing does, and every frame was handled. -/
theorem rest_cases {handled arrived : List String} {received : List Stream.Event} (h : Sound s)
    (ha : Attended s) (hf : Flow handled arrived received s)
    (hd : s.dispatcher.step true = none) (hr : s.reader.hand s.dispatcher = none) :
    (∃ reason, s.dispatcher.phase = .stopped reason) ∨
      (∃ event, s.dispatcher.phase = .delivering event ∧
        s.dispatcher.events.items.length = s.settings.streamCapacity) ∨
      s.dispatcher.phase = .idle ∧ handled = arrived := by
  rw [Dispatcher.step_eq, Option.map_eq_none_iff] at hd
  cases hp : s.dispatcher.phase with
  | stopped reason => exact .inl ⟨reason, rfl⟩
  | delivering event =>
    exact .inr (.inl ⟨event, rfl, (hf.delivery.full_of_waiting hp hd).2⟩)
  | sending out =>
    -- there is room for the one command, so it is handed over or lost
    have hroom : s.dispatcher.outbound.hasRoom = true := by
      have hc : s.dispatcher.outbound.capacity = some innerCapacity :=
        congrArg Dispatcher.Outline.outbound ha.outline
      rw [Mailbox.hasRoom, hc, outbound_of_sending h ha.lone hp]
      rfl
    rw [Dispatcher.act?, hp] at hd
    simp only [hroom, if_true] at hd
    split at hd <;> cases hd
  | idle =>
    refine .inr (.inr ⟨rfl, ?_⟩)
    obtain ⟨hw, hc⟩ := hf.inflow.fifo (by simp [hp])
    have hempty : s.dispatcher.frames.items = [] := (Dispatcher.unoccupied_of_act? hp hd).frames.1
    have hheld : s.reader.held = [] := by
      cases hreader : s.reader with
      | holding text =>
        have hcap : s.dispatcher.frames.capacity = some innerCapacity :=
          congrArg Dispatcher.Outline.frames ha.outline
        rw [hreader, Reader.hand, if_pos hc, Mailbox.push?, Mailbox.hasRoom, hcap, hempty, hc] at hr
        cases hr
      | _ => rfl
    rw [← hw, hempty, hheld, List.append_nil, List.append_nil]

end Session

end LedgerClient
