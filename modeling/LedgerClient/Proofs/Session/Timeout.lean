import LedgerClient.Proofs.Dispatcher.Settlement
import LedgerClient.Proofs.Session.Change

/-!
# Calls whose time is up

A caller whose time is up stops waiting and then gives up its id, and the id reaches the dispatcher
on a way of its own: it may overtake the command or come after the response. `Sound` collects what
holds in every state of a session (`sound_run`). Two facts carry the rest: a caller that stopped
waiting is gone for the dispatcher before it gives up its id, and the dispatcher looks at ids that
were given up before it looks at frames and commands.
-/

namespace LedgerClient

/-- Whether a caller is told that its time is up. -/
def isTimeout : Except ClientError Response → Bool
  | .error (.timeout _) => true
  | _ => false

/-- Whether a call returned as its time was up. -/
def Stage.isTimedOut : Stage → Bool
  | .returned reply => isTimeout reply
  | _ => false

/-- Whether the time of a call is up. -/
def Stage.isLate : Stage → Bool
  | .expired => true
  | stage => stage.isTimedOut

theorem Stage.isLate_of_isTimedOut {stage : Stage} (h : stage.isTimedOut = true) :
    stage.isLate = true := by
  cases stage with
  | returned reply => exact h
  | _ => cases h

namespace Session

/-- A call has returned as its time was up. -/
def TimedOut (s : Session) (id : Nat) : Prop :=
  ∃ x ∈ s.exchanges, x.id = id ∧ x.stage.isTimedOut = true

/-- What holds in every state of a session. -/
structure Sound (s : Session) : Prop where
  /-- Calls have ids of their own. -/
  ids : (s.exchanges.map (·.id)).Nodup
  fresh : ∀ x ∈ s.exchanges, x.id < s.nextId
  /-- The id of a call is its ticket as well. -/
  queued : ∀ sub ∈ s.dispatcher.intake.items, sub.ticket = sub.id
  pending : ∀ id p, s.dispatcher.table.find? id = some p → p.ticket = id
  /-- The command of a call is in one place at most, and in none before it enters the intake. -/
  once : ∀ id, s.requests.count id ≤ 1
  outside : ∀ id, (∀ x ∈ s.exchanges, x.id = id → x.stage.isQueueing = true) →
    s.requests.count id = 0
  /-- A call whose time is up is gone for the dispatcher. -/
  gone : ∀ x ∈ s.exchanges, x.stage.isLate = true → x.id ∈ s.dispatcher.gone
  /-- The id of a call that returned as its time was up is with the dispatcher, or not pending. -/
  given : ∀ x ∈ s.exchanges, x.stage.isTimedOut = true →
    x.id ∈ s.dispatcher.abandoned.items ∨ s.dispatcher.table.find? x.id = none
  /-- The dispatcher tells no caller that its time is up. -/
  untimed : ∀ r ∈ s.dispatcher.replies, isTimeout (replyOf r.2) = false
  /-- Ids can be given up as long as the dispatcher has not stopped. -/
  roomy : s.dispatcher.abandoned.capacity = none
  closed : s.dispatcher.abandoned.hasReceiver = false →
    ∃ reason, s.dispatcher.phase = .stopped reason
  /-- A dispatcher that has stopped holds no command. -/
  atRest : ∀ reason, s.dispatcher.phase = .stopped reason → s.dispatcher.table = .empty

theorem sound_start (settings : Connection.Settings) : Sound (start settings) where
  ids := List.nodup_nil
  fresh := by simp [start]
  queued := by simp [start, Dispatcher.start, Mailbox.bounded]
  pending := by simp [start, Dispatcher.start]
  once id := Nat.zero_le _
  outside id _ := rfl
  gone := by simp [start]
  given := by simp [start]
  untimed := by simp [start, Dispatcher.start]
  roomy := rfl
  closed := by simp [start, Dispatcher.start, Mailbox.unbounded]
  atRest := by simp [start, Dispatcher.start]

/-! ## Acts -/

theorem untimed_replyTo (id : Nat) (shape : Shape) (frame : String) :
    isTimeout (replyTo id shape frame) = false := by
  rw [replyTo]
  cases Response.decode shape frame <;> rfl

theorem untimed_news (d : Dispatcher) (a : Dispatcher.Act) :
    ∀ r ∈ d.news a, isTimeout (replyOf r.2) = false := by
  rintro ⟨t, v⟩ hr
  cases Dispatcher.tells_of_mem_news hr with
  | answered => exact untimed_replyTo _ _ _
  | _ => rfl

theorem absent_perform {d : Dispatcher} {a : Dispatcher.Act} {id : Nat} (hr : d.Ready a)
    (hq : ∀ sub ∈ d.intake.items, sub.ticket = sub.id) (hg : id ∈ d.gone)
    (hf : d.table.find? id = none) : (d.perform a).table.find? id = none := by
  refine Option.eq_none_iff_forall_ne_some.mpr fun p hp => ?_
  rcases Dispatcher.pending_of_perform hp with hp | ⟨sub, rfl, rfl, hn, -⟩
  · rw [hf] at hp
    cases hp
  · rw [hq sub hr.mem_intake] at hn
    exact hn hg

theorem given_perform {d : Dispatcher} {a : Dispatcher.Act} {id : Nat} (hr : d.Ready a)
    (h : id ∈ d.abandoned.items) :
    id ∈ (d.perform a).abandoned.items ∨ (d.perform a).table.find? id = none := by
  cases a with
  | stop reason => exact .inr rfl
  | lose out => exact .inr rfl
  | abandon other =>
    obtain ⟨items, hi⟩ := List.head?_eq_some_iff.mp hr.2
    rcases List.mem_cons.mp (hi ▸ h) with rfl | h
    · refine .inr ?_
      rw [Dispatcher.find?_perform, Dispatcher.matter?, if_pos rfl]
      rfl
    · refine .inl ?_
      rw [Dispatcher.abandoned_perform, Dispatcher.Queues.after, Dispatcher.queues,
        Dispatcher.dropHead, hi]
      exact h
  | _ =>
    refine .inl ?_
    rw [Dispatcher.abandoned_perform]
    exact h

theorem sound_perform {s : Session} {a : Dispatcher.Act} (h : Sound s)
    (hr : s.dispatcher.Ready a) :
    Sound { s with dispatcher := s.dispatcher.perform a } where
  ids := h.ids
  fresh := h.fresh
  queued sub hs := h.queued sub (Dispatcher.intake_perform_subset _ a hs)
  pending id p hp := by
    rcases Dispatcher.pending_of_perform hp with hp | ⟨sub, rfl, rfl, -, rfl⟩
    · exact h.pending id p hp
    · exact h.queued sub hr.mem_intake
  once id := Nat.le_trans (Writer.count_requests_perform s.writer hr id) (h.once id)
  outside id hx :=
    Nat.le_zero.mp (h.outside id hx ▸ Writer.count_requests_perform s.writer hr id)
  gone x hx hl := by
    rw [Dispatcher.gone_perform]
    exact h.gone x hx hl
  given x hx ht := by
    rcases h.given x hx ht with hg | hf
    · exact given_perform hr hg
    · exact .inr (absent_perform hr h.queued (h.gone x hx (Stage.isLate_of_isTimedOut ht)) hf)
  untimed r hm := by
    rw [Dispatcher.replies_perform, List.mem_append] at hm
    exact hm.elim (h.untimed r) (untimed_news s.dispatcher a r)
  roomy := by
    rw [Dispatcher.abandoned_perform]
    cases a <;> exact h.roomy
  closed hc := by
    cases a with
    | stop reason => exact ⟨reason, rfl⟩
    | lose out => exact ⟨.writerGone, rfl⟩
    | _ =>
      rw [Dispatcher.abandoned_perform] at hc
      obtain ⟨reason, hp⟩ := h.closed hc
      exact absurd hp (hr.phase_ne reason)
  atRest reason hp := by
    rcases Dispatcher.stopping hr hp with rfl | ⟨out, rfl⟩
    · rfl
    · rfl

/-! ## Calls -/

theorem ids_setStage (s : Session) (id : Nat) (stage : Stage) :
    (s.setStage id stage).exchanges.map (·.id) = s.exchanges.map (·.id) := by
  rw [setStage, List.map_map]
  refine List.map_congr_left fun x _ => ?_
  simp only [Function.comp_apply]
  split <;> rfl

theorem mem_setStage {s : Session} {id : Nat} {stage : Stage} {y : Exchange}
    (h : y ∈ (s.setStage id stage).exchanges) :
    ∃ x ∈ s.exchanges, y.id = x.id ∧ (x.id = id ∧ y.stage = stage ∨ x.id ≠ id ∧ y = x) := by
  obtain ⟨x, hx, rfl⟩ := List.mem_map.mp h
  by_cases hid : x.id = id
  · exact ⟨x, hx, by simp [hid], .inl ⟨hid, by simp [hid]⟩⟩
  · exact ⟨x, hx, by simp [hid], .inr ⟨hid, by simp [hid]⟩⟩

theorem mem_setStage_of_mem {s : Session} {x : Exchange} (id : Nat) (stage : Stage)
    (h : x ∈ s.exchanges) : (if x.id = id then { x with stage } else x) ∈
      (s.setStage id stage).exchanges := by
  refine List.mem_map.mpr ⟨x, h, ?_⟩
  by_cases hid : x.id = id <;> simp [hid]

theorem Progress.keeps {s : Session} {x : Exchange} {stage : Stage} {d : Dispatcher}
    {submitted : List Nat} (p : Progress s x stage d submitted) :
    d.phase = s.dispatcher.phase ∧ d.table = s.dispatcher.table ∧
      d.replies = s.dispatcher.replies ∧ s.dispatcher.gone ⊆ d.gone ∧
      s.dispatcher.abandoned.items ⊆ d.abandoned.items ∧
      d.abandoned.capacity = s.dispatcher.abandoned.capacity ∧
      d.abandoned.hasReceiver = s.dispatcher.abandoned.hasReceiver ∧
      stage.isQueueing = false ∧ submitted ⊆ [x.id] := by
  cases p with
  | abandoned limit h =>
    cases hp : s.dispatcher.abandoned.push? x.id with
    | none => simp [Stage.isQueueing]
    | some abandoned =>
      obtain ⟨-, rfl⟩ := Mailbox.eq_of_push? hp
      simp [Stage.isQueueing]
  | _ => simp [Stage.isQueueing]

theorem sound_aside {s s' : Session} (h : Sound s) (b : Beside s s' s.dispatcher [])
    (he : s'.exchanges = s.exchanges) (hn : s'.nextId = s.nextId) : Sound s' where
  ids := he ▸ h.ids
  fresh := he ▸ hn ▸ h.fresh
  queued := b.alike.intake ▸ h.queued
  pending := b.alike.table ▸ h.pending
  once id := Nat.le_trans (b.requests id) (h.once id)
  outside id hx := Nat.le_zero.mp (h.outside id (he ▸ hx) ▸ b.requests id)
  gone := he ▸ b.alike.gone ▸ h.gone
  given := by
    rw [he, b.alike.table, b.alike.abandoned.1]
    exact h.given
  untimed := b.alike.replies ▸ h.untimed
  roomy := b.alike.abandoned.2.1.trans h.roomy
  closed := by
    rw [b.alike.phase, b.alike.abandoned.2.2]
    exact h.closed
  atRest := by
    rw [b.alike.phase, b.alike.table]
    exact h.atRest

theorem sound_allocated {s s' : Session} {command : Command} (h : Sound s)
    (b : Beside s s' s.dispatcher [])
    (he : s'.exchanges = s.exchanges ++ [⟨s.nextId, command, .queueing⟩])
    (hn : s'.nextId = s.nextId + 1) : Sound s' := by
  -- but for the new call it is as if the calls had stayed as they are
  have hs : Sound { s' with exchanges := s.exchanges, nextId := s.nextId } :=
    sound_aside h ⟨b.alike, b.settings, b.outgoing, b.requests⟩ rfl rfl
  have hold : ∀ x ∈ s'.exchanges, x ∈ s.exchanges ∨ x = ⟨s.nextId, command, .queueing⟩ := by
    intro x hx
    rw [he, List.mem_append, List.mem_singleton] at hx
    exact hx
  refine { hs with ids := ?_, fresh := ?_, outside := ?_, gone := ?_, given := ?_ }
  · rw [he, List.map_append]
    refine List.nodup_append.mpr ⟨h.ids, List.nodup_singleton _, ?_⟩
    intro id hid other ho
    obtain ⟨x, hx, rfl⟩ := List.mem_map.mp hid
    rw [List.mem_singleton.mp ho]
    exact Nat.ne_of_lt (h.fresh x hx)
  · intro x hx
    rw [hn]
    rcases hold x hx with hx | rfl
    · exact Nat.lt_succ_of_lt (h.fresh x hx)
    · exact Nat.lt_succ_self _
  · intro id hx
    exact hs.outside id fun x hm => hx x (he ▸ List.mem_append_left _ hm)
  · intro x hx hl
    rcases hold x hx with hx | rfl
    · exact hs.gone x hx hl
    · simp [Stage.isLate, Stage.isTimedOut] at hl
  · intro x hx ht
    rcases hold x hx with hx | rfl
    · exact hs.given x hx ht
    · simp [Stage.isTimedOut] at ht

theorem Progress.gone_of_late {s : Session} {x : Exchange} {stage : Stage} {d : Dispatcher}
    {submitted : List Nat} (h : Sound s) (hx : x ∈ s.exchanges)
    (p : Progress s x stage d submitted) (hl : stage.isLate = true) : x.id ∈ d.gone := by
  cases p with
  | enqueued hs => simp [Stage.isLate, Stage.isTimedOut] at hl
  | refused hs => simp [Stage.isLate, Stage.isTimedOut, isTimeout] at hl
  | collected v hs hv =>
    rw [Stage.isLate, Stage.isTimedOut, h.untimed _ hv] at hl
    · cases hl
    · simp
  | expired hs => exact List.mem_cons_self
  | abandoned limit hs => exact h.gone x hx (by rw [hs]; rfl)

theorem Progress.given_of_timedOut {s : Session} {x : Exchange} {stage : Stage} {d : Dispatcher}
    {submitted : List Nat} (h : Sound s) (p : Progress s x stage d submitted)
    (ht : stage.isTimedOut = true) :
    x.id ∈ d.abandoned.items ∨ ∃ reason, d.phase = .stopped reason := by
  cases p with
  | enqueued hs => simp [Stage.isTimedOut] at ht
  | refused hs => simp [Stage.isTimedOut, isTimeout] at ht
  | collected v hs hv =>
    rw [Stage.isTimedOut, h.untimed _ hv] at ht
    cases ht
  | expired hs => simp [Stage.isTimedOut] at ht
  | abandoned limit hs =>
    cases hr : s.dispatcher.abandoned.hasReceiver with
    | false => exact .inr (h.closed hr)
    | true =>
      refine .inl ?_
      simp [Mailbox.push?, hr, Mailbox.hasRoom, h.roomy]

theorem Sound.unrequested {s : Session} {x : Exchange} (h : Sound s) (hx : x ∈ s.exchanges)
    (hs : x.stage.isQueueing = true) : s.requests.count x.id = 0 :=
  h.outside x.id fun y hy hid => by
    rw [List.inj_on_of_nodup_map h.ids hy hx hid]
    exact hs

theorem Progress.count_requests_le {s : Session} {x : Exchange} {stage : Stage} {d : Dispatcher}
    {submitted : List Nat} (h : Sound s) (hx : x ∈ s.exchanges)
    (p : Progress s x stage d submitted) (id : Nat) :
    s.requests.count id + submitted.count id ≤ 1 := by
  cases p with
  | enqueued hs =>
    by_cases hid : x.id = id
    · have hnone := h.unrequested hx (by rw [hs]; rfl)
      have hone : [x.id].count x.id = 1 := List.count_singleton_self
      subst hid
      omega
    · rw [List.count_singleton, if_neg (by simpa using hid)]
      exact h.once id
  | _ => exact h.once id

theorem Progress.queued {s : Session} {x : Exchange} {stage : Stage} {d : Dispatcher}
    {submitted : List Nat} (h : Sound s) (p : Progress s x stage d submitted) :
    ∀ sub ∈ d.intake.items, sub.ticket = sub.id := by
  cases p with
  | enqueued hs =>
    intro sub hm
    rcases List.mem_append.mp hm with hm | hm
    · exact h.queued sub hm
    · rw [List.mem_singleton.mp hm]
  | _ => exact h.queued

theorem sound_staged {s s' : Session} {x : Exchange} {stage : Stage} {d : Dispatcher}
    {submitted : List Nat} (h : Sound s) (hx : x ∈ s.exchanges)
    (p : Progress s x stage d submitted) (b : Beside s s' d submitted)
    (he : s'.exchanges = (s.setStage x.id stage).exchanges) (hn : s'.nextId = s.nextId) :
    Sound s' := by
  obtain ⟨hphase, htable, hreplies, hgone, habandoned, hcap, hrec, hstage, hsub⟩ := p.keeps
  -- the calls of `s'` are those of `s`, and the one that moved
  have hold : ∀ y ∈ s'.exchanges, ∃ z ∈ s.exchanges, y.id = z.id ∧
      (z.id = x.id ∧ y.stage = stage ∨ z.id ≠ x.id ∧ y = z) := fun y hy => mem_setStage (he ▸ hy)
  have hnew : ∀ z ∈ s.exchanges, (if z.id = x.id then { z with stage } else z) ∈ s'.exchanges :=
    fun z hz => he ▸ mem_setStage_of_mem x.id stage hz
  exact {
    ids := by
      rw [he, ids_setStage]
      exact h.ids
    fresh := fun y hy => by
      obtain ⟨z, hz, hid, -⟩ := hold y hy
      rw [hn, hid]
      exact h.fresh z hz
    queued := b.alike.intake ▸ p.queued h
    pending := by
      rw [b.alike.table, htable]
      exact h.pending
    once := fun id => Nat.le_trans (b.requests id) (p.count_requests_le h hx id)
    outside := fun id hq => by
      -- the call that moved does not wait for room any more
      have hid : id ≠ x.id := by
        rintro rfl
        have hm := hnew x hx
        rw [if_pos rfl] at hm
        rw [hq _ hm rfl] at hstage
        cases hstage
      have hnone : s.requests.count id = 0 := h.outside id fun y hy hyid => by
        have hm := hnew y hy
        rw [if_neg (hyid ▸ hid)] at hm
        exact hq y hm hyid
      have hzero : submitted.count id = 0 :=
        List.count_eq_zero.mpr fun hm => hid (List.mem_singleton.mp (hsub hm))
      have hle := b.requests id
      omega
    gone := fun y hy hl => by
      rw [b.alike.gone]
      obtain ⟨z, hz, hid, ⟨hzx, hst⟩ | ⟨-, rfl⟩⟩ := hold y hy
      · rw [hid, hzx]
        exact p.gone_of_late h hx (hst ▸ hl)
      · exact hgone (h.gone y hz hl)
    given := fun y hy ht => by
      rw [b.alike.table, b.alike.abandoned.1, htable]
      obtain ⟨z, hz, hid, ⟨hzx, hst⟩ | ⟨-, rfl⟩⟩ := hold y hy
      · rw [hid, hzx]
        rcases p.given_of_timedOut h (hst ▸ ht) with hg | ⟨reason, hp⟩
        · exact .inl hg
        · rw [h.atRest reason (hphase ▸ hp)]
          exact .inr rfl
      · exact (h.given y hz ht).imp_left fun h => habandoned h
    untimed := by
      rw [b.alike.replies, hreplies]
      exact h.untimed
    roomy := b.alike.abandoned.2.1.trans (hcap.trans h.roomy)
    closed := by
      rw [b.alike.phase, b.alike.abandoned.2.2, hphase, hrec]
      exact h.closed
    atRest := by
      rw [b.alike.phase, b.alike.table, hphase, htable]
      exact h.atRest }

theorem sound_change {s s' : Session} (h : Sound s) (c : Change s s') : Sound s' := by
  cases c with
  | aside b he hn => exact sound_aside h b he hn
  | allocated command b he hn => exact sound_allocated h b he hn
  | staged x stage d submitted hx p b he hn => exact sound_staged h hx p b he hn

theorem sound_live {s : Session} (h : Sound s) (m : Moment) : Sound (s.live m) := by
  rcases live_cases s m with ⟨a, -, hr, he⟩ | ⟨-, c⟩
  · rw [he]
    exact sound_perform h hr
  · exact sound_change h c

theorem sound_run {s : Session} (h : Sound s) (moments : List Moment) : Sound (s.run moments) :=
  run_of_live sound_live h moments

/-! ## For good -/

theorem Change.keeps {s s' : Session} (c : Change s s') :
    s'.dispatcher.table = s.dispatcher.table ∧ s.dispatcher.gone ⊆ s'.dispatcher.gone ∧
      ∀ out ∈ s'.registered, out ∈ s.registered := by
  have hreg : ∀ {d : Dispatcher} {submitted : List Nat}, d.phase = s.dispatcher.phase →
      Beside s s' d submitted → ∀ out ∈ s'.registered, out ∈ s.registered :=
    fun hp b _ ho => Writer.mem_registered_of_phase_eq (b.alike.phase.trans hp) b.outgoing ho
  cases c with
  | aside b he hn => exact ⟨b.alike.table, b.alike.gone ▸ List.Subset.refl _, hreg rfl b⟩
  | allocated command b he hn =>
    exact ⟨b.alike.table, b.alike.gone ▸ List.Subset.refl _, hreg rfl b⟩
  | staged x stage d submitted hx p b he hn =>
    obtain ⟨hphase, htable, -, hgone, -⟩ := p.keeps
    exact ⟨b.alike.table.trans htable, b.alike.gone ▸ hgone, hreg hphase b⟩

/-- An id is gone and not pending. -/
def Absent (s : Session) (id : Nat) : Prop :=
  id ∈ s.dispatcher.gone ∧ s.dispatcher.table.find? id = none

theorem absent_run {s : Session} {id : Nat} (h : Sound s) (ha : Absent s id)
    (moments : List Moment) : Absent (s.run moments) id := by
  induction moments generalizing s with
  | nil => exact ha
  | cons m moments ih =>
    refine ih (sound_live h m) ?_
    rcases live_cases s m with ⟨a, -, hr, he⟩ | ⟨-, c⟩
    · rw [he]
      exact ⟨(Dispatcher.gone_perform _ a).symm ▸ ha.1, absent_perform hr h.queued ha.1 ha.2⟩
    · obtain ⟨ht, hg, -⟩ := c.keeps
      exact ⟨hg ha.1, ht ▸ ha.2⟩

/-- An id is gone and no command with it has left the intake. -/
def Barred (s : Session) (id : Nat) : Prop :=
  id ∈ s.dispatcher.gone ∧ ∀ out ∈ s.registered, out.id ≠ id

theorem barred_run {s : Session} {id : Nat} (h : Sound s) (hb : Barred s id)
    (moments : List Moment) : Barred (s.run moments) id := by
  induction moments generalizing s with
  | nil => exact hb
  | cons m moments ih =>
    refine ih (sound_live h m) ?_
    rcases live_cases s m with ⟨a, -, hr, he⟩ | ⟨-, c⟩
    · rw [he]
      refine ⟨(Dispatcher.gone_perform _ a).symm ▸ hb.1, fun out ho => ?_⟩
      rcases Writer.mem_registered_perform hr ho with ho | ho
      · exact hb.2 out ho
      · -- a command that is registered now was taken for a caller that is not gone
        obtain ⟨sub, rfl, hg, -, rfl⟩ := Dispatcher.mem_taken ho
        rintro rfl
        rw [h.queued sub hr.mem_intake] at hg
        exact hg hb.1
    · obtain ⟨-, hg, hreg⟩ := c.keeps
      exact ⟨hg hb.1, fun out ho => hb.2 out (hreg out ho)⟩

theorem gone_of_expire {s s' : Session} {id : Nat} (h : s.expire id = some s') :
    id ∈ s'.dispatcher.gone := by
  cases step_cases (m := .expire id) h with
  | expire =>
    rw [expire.leave, gone_settleIntake]
    exact List.mem_cons_self

theorem barred_of_expire {s s' : Session} {id : Nat} (h : Sound s) (he : s.expire id = some s')
    (hq : (∃ x ∈ s.exchanges, x.id = id ∧ x.stage.isQueueing = true) ∨
      ∃ sub ∈ s.dispatcher.intake.items, sub.id = id) : Barred s' id := by
  refine ⟨gone_of_expire he, fun out ho hid => ?_⟩
  obtain ⟨-, -, hreg⟩ := (change_step (m := .expire id) nofun he).keeps
  have hpos : 0 < (s.registered.map (·.id)).count id :=
    List.count_pos_iff.mpr (hid ▸ List.mem_map_of_mem (hreg out ho))
  have hcount : s.requests.count id = (s.dispatcher.intake.items.map (·.id)).count id +
      (s.registered.map (·.id)).count id + (s.dispatcher.failures.items.map (·.id)).count id := by
    rw [requests, Writer.requests, List.count_append, List.count_append]
    rfl
  rcases hq with ⟨x, hx, rfl, hs⟩ | ⟨sub, hm, hsid⟩
  · -- the call has no command on its way yet
    have hnone := h.unrequested hx hs
    omega
  · have hin : 0 < (s.dispatcher.intake.items.map (·.id)).count id :=
      List.count_pos_iff.mpr (hsid ▸ List.mem_map_of_mem hm)
    have hone := h.once id
    -- the intake is the one place of the command
    omega

/-- A call that returns as its time is up has given up its id, unless nobody is left to know. -/
theorem told_of_timedOut {s : Session} {m : Moment} {id : Nat} (h : Sound s)
    (hn : ¬ TimedOut s id) (ht : TimedOut (s.live m) id) :
    id ∈ (s.live m).dispatcher.abandoned.items ∨
      ∃ reason, (s.live m).dispatcher.phase = .stopped reason := by
  obtain ⟨y, hy, rfl, hst⟩ := ht
  rcases live_cases s m with ⟨a, -, hr, he⟩ | ⟨-, c⟩
  · rw [he] at hy
    exact absurd ⟨y, hy, rfl, hst⟩ hn
  · cases c with
    | aside b he hx => exact absurd ⟨y, he ▸ hy, rfl, hst⟩ hn
    | allocated command b he hx =>
      rw [he, List.mem_append, List.mem_singleton] at hy
      rcases hy with hy | rfl
      · exact absurd ⟨y, hy, rfl, hst⟩ hn
      · simp [Stage.isTimedOut] at hst
    | staged x stage d submitted hx p b he hnext =>
      rw [he] at hy
      obtain ⟨z, hz, hid, ⟨hzx, hs⟩ | ⟨-, rfl⟩⟩ := mem_setStage hy
      · rw [hid, hzx, b.alike.abandoned.1, b.alike.phase]
        exact p.given_of_timedOut h (hs ▸ hst)
      · exact absurd ⟨y, hz, rfl, hst⟩ hn

theorem not_pending_of_timedOut {s : Session} {id : Nat} (h : Sound s) (ht : TimedOut s id)
    (ha : id ∉ s.dispatcher.abandoned.items) : s.dispatcher.table.find? id = none := by
  obtain ⟨x, hx, rfl, hst⟩ := ht
  exact (h.given x hx hst).resolve_left ha

theorem verdicts_handle {s : Session} {frame : String} {id : Nat} (h : Sound s)
    (hf : s.dispatcher.table.find? id = none) :
    (s.dispatcher.perform (.handle frame)).verdicts id = s.dispatcher.verdicts id := by
  have hnews : (s.dispatcher.news (.handle frame)).filter (·.1 == id) = [] := by
    refine List.filter_eq_nil_iff.mpr fun r hr => ?_
    rw [Dispatcher.news] at hr
    cases ha : answeredId? frame with
    | none => simp [ha] at hr
    | some other =>
      cases hp : s.dispatcher.table.find? other with
      | none => simp [ha, hp, Pending.tell] at hr
      | some p =>
        simp only [ha, hp, Pending.tell, Option.toList_some, List.map_cons, List.map_nil,
          List.mem_singleton] at hr
        rw [hr, beq_iff_eq]
        -- the ticket of a pending command is its id
        rintro rfl
        rw [h.pending other p hp, hp] at hf
        cases hf
  rw [Dispatcher.verdicts, Dispatcher.replies_perform, List.filter_append, hnews,
    List.append_nil]
  rfl

/-- What the dispatcher of a session and the calls whose time is up have to do with each other in a
run. -/
structure GivenUpForGood (settings : Connection.Settings) (moments : List Moment) : Prop where
  /-- When a call returns as its time is up, its id is on the way to the dispatcher, unless that has
  stopped. -/
  told : ∀ earlier m later id, moments = earlier ++ m :: later →
    ¬ TimedOut ((start settings).run earlier) id →
    TimedOut ((start settings).run (earlier ++ [m])) id →
      id ∈ ((start settings).run (earlier ++ [m])).dispatcher.abandoned.items ∨
        ∃ reason, ((start settings).run (earlier ++ [m])).dispatcher.phase = .stopped reason
  /-- From then on no frame is a reply to the call, and a response with its id is discarded. -/
  late : ∀ earlier m later id frame, moments = earlier ++ m :: later →
    TimedOut ((start settings).run earlier) id →
    ((start settings).run earlier).act? m = some (.handle frame) →
      ((start settings).run (earlier ++ [m])).dispatcher.verdicts id =
        ((start settings).run earlier).dispatcher.verdicts id ∧
      (answeredId? frame = some id →
        ((start settings).run (earlier ++ [m])).dispatcher =
          { ((start settings).run earlier).dispatcher with
            frames := Dispatcher.dropHead ((start settings).run earlier).dispatcher.frames
            discarded := ((start settings).run earlier).dispatcher.discarded ++
              [.unmatchedResponse id] })
  /-- Once the dispatcher has taken note, the id is not pending, and never will be. -/
  noted : ∀ earlier later id, moments = earlier ++ later →
    TimedOut ((start settings).run earlier) id →
    id ∉ ((start settings).run earlier).dispatcher.abandoned.items →
      ((start settings).run moments).dispatcher.table.find? id = none
  /-- If the command of the call had not left the intake when its time was up, it never will but to
  be dropped: it does not reach the hand of the dispatcher, the writer or the socket. -/
  unsent : ∀ earlier later id, moments = earlier ++ .expire id :: later →
    (((start settings).run earlier).step (.expire id)).isSome = true →
    ((∃ x ∈ ((start settings).run earlier).exchanges, x.id = id ∧ x.stage.isQueueing = true) ∨
      ∃ sub ∈ ((start settings).run earlier).dispatcher.intake.items, sub.id = id) →
      ∀ out ∈ ((start settings).run moments).registered, out.id ≠ id
  /-- While no id is on the way to the dispatcher, no call whose time is up is pending. -/
  idle : ((start settings).run moments).dispatcher.abandoned.items = [] →
    ∀ id, TimedOut ((start settings).run moments) id →
      ((start settings).run moments).dispatcher.table.find? id = none

/-- **A call whose time is up is given up for good**, whatever the order in which callers, owners,
the tasks and the peer do their work. -/
theorem givenUpForGood (settings : Connection.Settings) (moments : List Moment) :
    GivenUpForGood settings moments where
  told earlier m later id hm hn ht := by
    rw [run_concat] at ht ⊢
    exact told_of_timedOut (sound_run (sound_start settings) earlier) hn ht
  late earlier m later id frame hm ht ha := by
    have hs := sound_run (sound_start settings) earlier
    rcases live_cases ((start settings).run earlier) m with ⟨a, ha', hr, he⟩ | ⟨ha', -⟩
    · obtain rfl := Option.some.inj (ha.symm.trans ha')
      have hf := not_pending_of_timedOut hs ht (by simp [hr.2.1])
      rw [run_concat, he]
      refine ⟨verdicts_handle hs hf, fun hid => ?_⟩
      exact Dispatcher.handleFrame_of_unknown (d := { ((start settings).run earlier).dispatcher with
        frames := Dispatcher.dropHead ((start settings).run earlier).dispatcher.frames }) hid hf
    · rw [ha] at ha'
      cases ha'
  noted earlier later id hm ht ha := by
    subst hm
    have hs := sound_run (sound_start settings) earlier
    have hf := not_pending_of_timedOut hs ht ha
    obtain ⟨x, hx, rfl, hst⟩ := ht
    rw [run_append]
    exact (absent_run hs ⟨hs.gone x hx (Stage.isLate_of_isTimedOut hst), hf⟩ later).2
  unsent earlier later id hm he hq := by
    subst hm
    have hs := sound_run (sound_start settings) earlier
    obtain ⟨s', he⟩ := Option.isSome_iff_exists.mp he
    have hl : ((start settings).run earlier).live (.expire id) = s' := by rw [live, he]; rfl
    have hb := barred_of_expire hs he hq
    rw [← hl] at hb
    rw [run_append]
    exact (barred_run (sound_live hs _) hb later).2
  idle ha id ht :=
    not_pending_of_timedOut (sound_run (sound_start settings) moments) ht (by simp [ha])

/-- A call whose response comes after its time was up, and one whose time is up while its command is
queued. -/
theorem givenUpForGood_of_two_calls :
    let settings := Connection.Settings.ofEndpoint Connection.defaultEndpoint
    let response := "\x7b\"type\":\"response\",\"id\":1,\"status\":\"success\",\"result\":\x7b\x7d\x7d"
    let moments : List Moment :=
      [.enter .ping, .allocate 0, .enqueue 1, .dispatch true, .dispatch true, .enter .serverInfo,
        .allocate 0, .enqueue 2, .expire 1, .abandon 1, .expire 2, .abandon 2,
        .arrive (.text response), .hand, .dispatch true, .dispatch true, .dispatch true,
        .dispatch true]
    let s := (start settings).run moments
    GivenUpForGood settings moments ∧ TimedOut s 1 ∧ TimedOut s 2 ∧
      s.dispatcher.discarded = [.unmatchedResponse 1] ∧ s.outgoing = [⟨1, .ping⟩] ∧
      s.dispatcher.replies = [(1, .dropped), (2, .skipped)] :=
  ⟨givenUpForGood _ _, ⟨_, List.mem_cons_self, rfl, rfl⟩,
    ⟨_, List.mem_cons_of_mem _ List.mem_cons_self, rfl, rfl⟩, rfl, rfl, rfl⟩

end Session

end LedgerClient
