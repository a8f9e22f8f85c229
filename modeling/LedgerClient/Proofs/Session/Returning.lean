import LedgerClient.Proofs.Dispatcher.Conservation
import LedgerClient.Proofs.Session.Answer
import LedgerClient.Proofs.Session.Numbering

/-!
# What a call returns

The ticket of a call has no place with the dispatcher before the call enters the intake, and one place
from then on, which ends in the log of replies (`Tracked`). So a call that got to the intake returns
what its caller was told, unless its time is up. Which response that is, is decided by the first frame
that answers its pending command (`returns_of_answer`), read in the shape of the command.
-/

namespace LedgerClient.Session

open Dispatcher (Act)
open scoped List

variable {s s' : Session}

/-! ## The places of calls -/

/-- Where the calls of a session stand with its dispatcher. -/
structure Tracked (s : Session) : Prop where
  /-- No call has two places. -/
  apart : s.dispatcher.places.Nodup
  /-- A call has one only after it has left the place where it waits for room in the intake. -/
  left : ∀ t ∈ s.dispatcher.places, ∃ x ∈ s.exchanges, x.id = t ∧ x.stage.isQueueing = false
  /-- A response will be read in the shape of the command that it answers. -/
  shaped : ∀ id p, s.dispatcher.table.find? id = some p →
    ∃ x ∈ s.exchanges, x.id = id ∧ x.command.shape = p.shape
  /-- A call returned what its caller was told, or as its time was up, or it never had a place. -/
  returned : ∀ x ∈ s.exchanges, ∀ reply, x.stage = .returned reply → isTimeout reply = true ∨
    (∃ v, (x.id, v) ∈ s.dispatcher.replies ∧ reply = replyOf v) ∨ x.id ∉ s.dispatcher.places

theorem tracked_start (settings : Connection.Settings) : Tracked (start settings) := by
  have hplaces : (start settings).dispatcher.places = [] := rfl
  refine ⟨?_, ?_, ?_, ?_⟩
  · rw [hplaces]
    exact List.nodup_nil
  · rw [hplaces]
    exact nofun
  · intro id p h
    cases h
  · intro x hx
    cases hx

theorem Tracked.absent (h : Tracked s) (hs : Sound s) {x : Exchange} (hx : x ∈ s.exchanges)
    (hq : x.stage = .queueing) : x.id ∉ s.dispatcher.places := by
  intro hm
  obtain ⟨y, hy, hid, hleft⟩ := h.left x.id hm
  obtain rfl := List.inj_on_of_nodup_map hs.ids hy hx hid
  rw [hq] at hleft
  cases hleft

/-- An act of the dispatcher leaves every call its place. -/
theorem tracked_perform {a : Act} (h : Tracked s) (hd : Distinct s) (hr : s.dispatcher.Ready a) :
    Tracked { s with dispatcher := s.dispatcher.perform a } where
  apart := (Dispatcher.places_perform hr).nodup_iff.mpr h.apart
  left t ht := h.left t ((Dispatcher.places_perform hr).mem_iff.mp ht)
  shaped id p hp := by
    rcases Dispatcher.pending_of_perform hp with hp | ⟨sub, rfl, rfl, -, rfl⟩
    · exact h.shaped id p hp
    · obtain ⟨x, hx, hid, hcommand⟩ := hd.owned sub hr.mem_intake
      exact ⟨x, hx, hid, congrArg Command.shape hcommand⟩
  returned x hx reply hreply := by
    rcases h.returned x hx reply hreply with ht | ⟨v, hv, hreply⟩ | hn
    · exact .inl ht
    · refine .inr (.inl ⟨v, ?_, hreply⟩)
      show (x.id, v) ∈ (s.dispatcher.perform a).replies
      rw [Dispatcher.replies_perform]
      exact List.mem_append_left _ hv
    · exact .inr (.inr fun hm => hn ((Dispatcher.places_perform hr).mem_iff.mp hm))

theorem Progress.places {x : Exchange} {stage : Stage} {d : Dispatcher} {submitted : List Nat}
    (p : Progress s x stage d submitted) :
    d.places ~ s.dispatcher.places ++ submitted ∧
      (submitted = [] ∨ submitted = [x.id] ∧ x.stage = .queueing) := by
  cases p with
  | enqueued hq =>
    refine ⟨?_, .inr ⟨rfl, hq⟩⟩
    simp only [Dispatcher.places, List.map_append, List.map_cons, List.map_nil, List.append_assoc]
    rw [← List.append_assoc s.dispatcher.table.tickets]
    exact List.perm_append_comm.append_left _
  | refused | collected | expired | abandoned => exact ⟨.of_eq (List.append_nil _).symm, .inl rfl⟩

theorem tracked_staged {x : Exchange} {stage : Stage} {d : Dispatcher} {submitted : List Nat}
    (h : Tracked s) (hs : Sound s) (hx : x ∈ s.exchanges) (p : Progress s x stage d submitted)
    (b : Beside s s' d submitted) (he : s'.exchanges = (s.setStage x.id stage).exchanges)
    (hn : s'.nextId = s.nextId) : Tracked s' := by
  have c : Change s s' := .staged x stage d submitted hx p b he hn
  obtain ⟨-, -, -, -, -, -, -, hstage, -⟩ := p.keeps
  obtain ⟨hplaces, hsubmitted⟩ := p.places
  rw [← Dispatcher.places_congr b.alike.intake b.alike.table b.alike.replies] at hplaces
  have hfresh : ∀ t ∈ submitted, t = x.id ∧ t ∉ s.dispatcher.places := by
    intro t ht
    rcases hsubmitted with rfl | ⟨rfl, hq⟩
    · cases ht
    · rw [List.mem_singleton.mp ht]
      exact ⟨rfl, h.absent hs hx hq⟩
  refine ⟨?_, ?_, ?_, ?_⟩
  · refine hplaces.nodup_iff.mpr (List.nodup_append.mpr ⟨h.apart, ?_, ?_⟩)
    · rcases hsubmitted with rfl | ⟨rfl, -⟩
      · exact List.nodup_nil
      · exact List.nodup_singleton _
    · rintro t ht _ hmem rfl
      exact (hfresh t hmem).2 ht
  · intro t ht
    rcases List.mem_append.mp (hplaces.mem_iff.mp ht) with ht | ht
    · obtain ⟨z, hz, hid, hleft⟩ := h.left t ht
      obtain ⟨y, hy, hyid, -, hstays⟩ := c.call hz
      exact ⟨y, hy, hyid.trans hid, hstays hleft⟩
    · refine ⟨_, he ▸ mem_setStage_of_mem x.id stage hx, ?_, ?_⟩
      · rw [if_pos rfl]
        exact (hfresh t ht).1.symm
      · rw [if_pos rfl]
        exact hstage
  · rw [c.keeps.1]
    intro id q hq
    obtain ⟨z, hz, hid, hshape⟩ := h.shaped id q hq
    obtain ⟨y, hy, hyid, hycommand, -⟩ := c.call hz
    exact ⟨y, hy, hyid.trans hid, (congrArg Command.shape hycommand).trans hshape⟩
  · rw [c.replies]
    intro y hy reply hreply
    rw [he] at hy
    obtain ⟨z, hz, hid, ⟨hzx, hst⟩ | ⟨hne, rfl⟩⟩ := mem_setStage hy
    · -- the call that moved on
      rw [hid, hzx]
      rw [hst] at hreply
      cases p with
      | enqueued => cases hreply
      | refused hq =>
        refine .inr (.inr fun hm => ?_)
        rw [hplaces.mem_iff, List.append_nil] at hm
        exact h.absent hs hx hq hm
      | collected v _ hv => exact .inr (.inl ⟨v, hv, (Stage.returned.inj hreply).symm⟩)
      | expired => cases hreply
      | abandoned =>
        obtain rfl := Stage.returned.inj hreply
        exact .inl rfl
    · rcases h.returned y hz reply hreply with ht | hv | hn
      · exact .inl ht
      · exact .inr (.inl hv)
      · refine .inr (.inr fun hm => ?_)
        rcases List.mem_append.mp (hplaces.mem_iff.mp hm) with hm | hm
        · exact hn hm
        · exact hne (hfresh y.id hm).1

theorem tracked_change (h : Tracked s) (hs : Sound s) (c : Change s s') : Tracked s' := by
  cases c with
  | aside b he hn =>
    have hplaces := Dispatcher.places_congr b.alike.intake b.alike.table b.alike.replies
    refine ⟨?_, ?_, ?_, ?_⟩
    · exact hplaces ▸ h.apart
    · rw [hplaces, he]
      exact h.left
    · rw [b.alike.table, he]
      exact h.shaped
    · rw [he, b.alike.replies, hplaces]
      exact h.returned
  | allocated command b he hn =>
    have hplaces := Dispatcher.places_congr b.alike.intake b.alike.table b.alike.replies
    have hold : ∀ x ∈ s.exchanges, x ∈ s'.exchanges := fun x hx => by
      rw [he]
      exact List.mem_append_left _ hx
    refine ⟨?_, ?_, ?_, ?_⟩
    · exact hplaces ▸ h.apart
    · rw [hplaces]
      intro t ht
      obtain ⟨x, hx, hleft⟩ := h.left t ht
      exact ⟨x, hold x hx, hleft⟩
    · rw [b.alike.table]
      intro id p hp
      obtain ⟨x, hx, hshape⟩ := h.shaped id p hp
      exact ⟨x, hold x hx, hshape⟩
    · rw [b.alike.replies, hplaces]
      intro x hx reply hreply
      rw [he, List.mem_append, List.mem_singleton] at hx
      rcases hx with hx | rfl
      · exact h.returned x hx reply hreply
      · cases hreply
  | staged x stage d submitted hx p b he hn => exact tracked_staged h hs hx p b he hn

theorem tracked_run (settings : Connection.Settings) (moments : List Moment) :
    Tracked ((start settings).run moments) := by
  induction moments using List.reverseRecOn with
  | nil => exact tracked_start settings
  | append_singleton moments m ih =>
    have hs := sound_run (sound_start settings) moments
    rw [run_concat]
    rcases live_cases ((start settings).run moments) m with ⟨a, -, hr, he⟩ | ⟨-, c⟩
    · rw [he]
      exact tracked_perform ih (distinct_run settings moments) hr
    · exact tracked_change ih hs c

/-! ## Time -/

theorem gone_step {m : Moment} {id : Nat} (hs : s.step m = some s')
    (hg : id ∈ s'.dispatcher.gone) : id ∈ s.dispatcher.gone ∨ m = .expire id := by
  have hsame (h : s'.dispatcher.gone = s.dispatcher.gone) :
      id ∈ s.dispatcher.gone ∨ m = .expire id := .inl (h ▸ hg)
  have hreader {got : Option String} {r : Reader × Dispatcher}
      (h : s.reader.Moves got s.dispatcher r) : r.2.gone = s.dispatcher.gone := by
    obtain ⟨r, d⟩ := r
    obtain ⟨frames, rfl, -⟩ := h
    rfl
  cases step_cases hs with
  | expire =>
    rw [expire.leave, gone_settleIntake] at hg
    rcases List.mem_cons.mp hg with rfl | hg
    · exact .inr rfl
    · exact .inl hg
  | enqueue | refuse | shut | disown => exact hsame (gone_settleIntake _)
  | dispatch => exact hsame (Dispatcher.gone_perform _ _)
  | take hr => exact hsame (alike_of_writer_moves (Writer.moves_take hr)).gone
  | written hr => exact hsame (alike_of_writer_moves (Writer.moves_learn hr)).gone
  | arrive hr => exact hsame (hreader (Reader.moves_receive hr))
  | hand hr => exact hsame (hreader (Reader.moves_hand hr))
  | silence hr => exact hsame (hreader (Reader.moves_expire hr))
  | conclude => exact hsame (hreader (Reader.moves_giveUp s.reader s.dispatcher))
  | _ => exact hsame rfl

theorem expire_of_gone (settings : Connection.Settings) {moments : List Moment} {id : Nat}
    (hg : id ∈ ((start settings).run moments).dispatcher.gone) : .expire id ∈ moments := by
  induction moments using List.reverseRecOn with
  | nil => cases hg
  | append_singleton moments m ih =>
    rw [run_concat] at hg
    have hbefore : id ∈ ((start settings).run moments).dispatcher.gone ∨ m = .expire id := by
      cases hs : ((start settings).run moments).step m with
      | none => exact .inl (live_of_none hs ▸ hg)
      | some s' => exact gone_step hs (live_of_step hs ▸ hg)
    rcases hbefore with hg | rfl
    · exact List.mem_append_left _ (ih hg)
    · exact List.mem_append_right _ (List.mem_singleton_self _)

/-! ## What is told is returned -/

theorem find?_of_mem (hs : Sound s) {x : Exchange} (hx : x ∈ s.exchanges) :
    s.find? x.id = some x := by
  cases hf : s.find? x.id with
  | none => exact absurd (List.find?_eq_none.mp hf x hx) (by simp)
  | some y =>
    obtain ⟨hy, hid⟩ := mem_of_find? hf
    rw [List.inj_on_of_nodup_map hs.ids hy hx hid]

/-- A call returns a response: it has done so, or does as soon as it looks. -/
def Returns (s : Session) (id : Nat) (r : Response) : Prop :=
  ∃ x, s.find? id = some x ∧ (x.stage = .returned (.ok r) ∨
    x.stage = .waiting ∧ s.collect id = some (s.setStage id (.returned (.ok r))))

/-- A call returns the response that its caller was told, unless its time is up. -/
theorem Tracked.returns (h : Tracked s) (hs : Sound s) {id : Nat} {r : Response}
    (ht : (id, .told (.ok r)) ∈ s.dispatcher.replies) : id ∈ s.dispatcher.gone ∨ s.Returns id r := by
  have hplace : id ∈ s.dispatcher.places :=
    List.mem_append_right _ (List.mem_map_of_mem (f := Prod.fst) ht)
  have hlog := (List.nodup_append.mp h.apart).2.1
  have hfilter := Dispatcher.filter_eq_singleton hlog ht
  obtain ⟨x, hx, rfl, hleft⟩ := h.left id hplace
  have hfind := find?_of_mem hs hx
  by_cases hlate : x.stage.isLate = true
  · exact .inl (hs.gone x hx hlate)
  refine .inr ⟨x, hfind, ?_⟩
  obtain ⟨id, command, stage⟩ := x
  cases stage with
  | queueing => cases hleft
  | waiting =>
    have hfirst : s.dispatcher.replies.find? (·.1 == id) = some (id, .told (.ok r)) := by
      rw [← List.head?_filter, hfilter]
      rfl
    refine .inr ⟨rfl, ?_⟩
    rw [collect, hfind]
    simp only [hfirst, Option.map_some]
    rfl
  | expired => exact absurd rfl hlate
  | returned reply =>
    rcases h.returned _ hx reply rfl with ht | ⟨v, hv, rfl⟩ | hn
    · exact absurd ht hlate
    · have hm : (id, v) ∈ s.dispatcher.replies.filter (·.1 == id) :=
        List.mem_filter.mpr ⟨hv, beq_self_eq_true id⟩
      rw [hfilter, List.mem_singleton] at hm
      obtain ⟨-, rfl⟩ := Prod.mk.inj hm
      exact .inl rfl
    · exact absurd hplace hn

/-! ## The first answer -/

theorem replies_prefix_run (s : Session) (moments : List Moment) :
    s.dispatcher.replies <+: (s.run moments).dispatcher.replies :=
  run_of_live (P := fun t => s.dispatcher.replies <+: t.dispatcher.replies)
    (fun h m => h.trans (replies_prefix_live _ m)) (List.prefix_refl _) moments

/-- A call returns what the first frame is read as that answers its pending command, whatever
happens before and after that, unless its time is up. -/
theorem returns_of_answer (settings : Connection.Settings) {earlier later : List Moment}
    {m : Moment} {x : Exchange} {p : Pending} {frame : String} {r : Response}
    (hx : x ∈ ((start settings).run earlier).exchanges)
    (ha : ((start settings).run earlier).act? m = some (.handle frame))
    (hid : answeredId? frame = some x.id)
    (hp : ((start settings).run earlier).dispatcher.table.find? x.id = some p)
    (hr : Response.decode x.command.shape frame = .ok r)
    (hn : .expire x.id ∉ earlier ++ m :: later) :
    ((start settings).run (earlier ++ m :: later)).Returns x.id r := by
  have hs := sound_run (sound_start settings) earlier
  obtain ⟨y, hy, hyid, hshape⟩ := (tracked_run settings earlier).shaped x.id p hp
  obtain rfl := List.inj_on_of_nodup_map hs.ids hy hx hyid
  have htold : (y.id, .told (.ok r)) ∈
      (((start settings).run earlier).live m).dispatcher.replies := by
    rw [replies_live, ha]
    refine List.mem_append_right _ ?_
    simp only [Option.map_some, Option.getD_some, Dispatcher.news, hid, hp, Pending.tell,
      Option.toList_some, List.map_cons, List.map_nil, List.mem_singleton]
    rw [hs.pending y.id p hp, replyTo, ← hshape, hr]
    rfl
  have hlast : (y.id, .told (.ok r)) ∈
      ((start settings).run (earlier ++ m :: later)).dispatcher.replies := by
    rw [run_append]
    exact (replies_prefix_run _ later).subset htold
  have hreturns :=
    (tracked_run settings _).returns (sound_run (sound_start settings) _) hlast
  exact hreturns.resolve_left fun hg => hn (expire_of_gone settings hg)

end LedgerClient.Session
