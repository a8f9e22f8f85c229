import LedgerClient.Proofs.Command.Submission
import LedgerClient.Proofs.Session.Numbering

/-!
# Submitting a transaction

A transaction may be submitted as bytes or as a blob. The two calls check their arguments on ways of
their own, but come to one command or to none (`Call.Submits.command?_eq`), so a session cannot tell
them apart: runs that differ only in how transactions are submitted come to the same state
(`run_alike`). What a call then brings into the intake is said of every command: it gets there under the
next id if there is room (`run_passage`), and no other command is ever there under that id
(`command_of_passage`).
-/

namespace LedgerClient

open SubmitCommand (digits)

/-! ## The calls -/

namespace Call

variable {bytes : List UInt8} {call : Call}

/-- A call submits some bytes, as they are or as a blob that is read as them. -/
inductive Submits (bytes : List UInt8) : Call → Prop
  | raw : Submits bytes (.submit bytes)
  | hex {blob : String} (h : Hex.decode (digits blob) = .ok bytes) :
    Submits bytes (.submitBlob blob)

/-- Bytes come to one command, however they are submitted. -/
theorem Submits.command?_eq (h : call.Submits bytes) (hne : bytes ≠ []) :
    call.command? = .ok (.submit (.ofBytes bytes)) := by
  cases h with
  | raw => rw [command?, if_neg (by simpa using hne)]
  | hex h =>
    rw [command?, SubmitCommand.ofBlob_of_decode h hne]
    rfl

theorem Submits.command?_nil (h : call.Submits []) : ∃ e, call.command? = .error e := by
  cases h with
  | raw => exact ⟨_, rfl⟩
  | hex h => exact ⟨_, by rw [command?, SubmitCommand.ofBlob_of_decode_nil h]; rfl⟩

end Call

namespace Session

variable {s : Session} {call : Call} {command : Command}

/-! ## Runs that differ in how transactions are submitted -/

theorem live_enter (hc : call.command? = .ok command) (s : Session) : s.live (.enter call) =
    if s.isOpen then { s with entered := s.entered ++ [command] } else s := by
  rw [live, step, enter?, hc]
  cases h : s.isOpen <;> simp [Except.toOption]

theorem live_enter_of_error {e : ClientError} (hc : call.command? = .error e) (s : Session) :
    s.live (.enter call) = s :=
  live_of_none (by rw [step, enter?, hc]; rfl)

/-- The same moment, but that a transaction may be submitted in another way. -/
inductive Moment.Alike : Moment → Moment → Prop
  | same (m : Moment) : Alike m m
  | submitted {bytes : List UInt8} {call call' : Call} (h : call.Submits bytes)
    (h' : call'.Submits bytes) : Alike (.enter call) (.enter call')

theorem live_alike {m m' : Moment} (h : m.Alike m') (s : Session) : s.live m = s.live m' := by
  cases h with
  | same => rfl
  | @submitted bytes _ _ h h' =>
    by_cases hne : bytes = []
    · subst hne
      obtain ⟨e, he⟩ := h.command?_nil
      obtain ⟨e', he'⟩ := h'.command?_nil
      rw [live_enter_of_error he, live_enter_of_error he']
    · rw [live_enter (h.command?_eq hne), live_enter (h'.command?_eq hne)]

/-- Runs that differ only in how transactions are submitted come to the same state. -/
theorem run_alike {moments moments' : List Moment} (h : List.Forall₂ Moment.Alike moments moments')
    (s : Session) : s.run moments = s.run moments' := by
  induction h generalizing s with
  | nil => rfl
  | @cons m m' moments moments' hm _ ih =>
    show (s.live m).run moments = (s.live m').run moments'
    rw [live_alike hm, ih]

/-! ## The way of a call into the intake -/

/-- The moments in which a call is let in and gets the next id. -/
def admission (call : Call) (s : Session) : List Moment := [.enter call, .allocate s.entered.length]

/-- Those, and the one in which it enters the intake. -/
def passage (call : Call) (s : Session) : List Moment :=
  s.admission call ++ [.enqueue s.nextId]

/-- A session with one more call, which waits for room in the intake. -/
def numbered (command : Command) (s : Session) : Session :=
  { s with
    nextId := s.nextId + 1
    exchanges := s.exchanges ++ [⟨s.nextId, command, .queueing⟩] }

/-- A session with one more call, whose command is the last in the intake. -/
def queued (command : Command) (s : Session) : Session :=
  { s with
    nextId := s.nextId + 1
    exchanges := s.exchanges ++ [⟨s.nextId, command, .waiting⟩]
    dispatcher := { s.dispatcher with
      intake := { s.dispatcher.intake with
        items := s.dispatcher.intake.items ++ [⟨s.nextId, command, s.nextId⟩] } } }

theorem run_admission (ho : s.isOpen = true) (hc : call.command? = .ok command) :
    s.run (s.admission call) = s.numbered command := by
  have hallocate : step (.allocate s.entered.length)
      { s with entered := s.entered ++ [command] } = some (s.numbered command) := by
    simp [step, allocate, numbered, List.eraseIdx_append_of_length_le]
  show (s.live (.enter call)).live (.allocate s.entered.length) = s.numbered command
  rw [live_enter hc, if_pos ho, live_of_step hallocate]

theorem live_enqueue_numbered (hs : Sound s) (ho : s.isOpen = true)
    (hr : s.dispatcher.intake.hasReceiver = true) (hroom : s.dispatcher.intake.hasRoom = true) :
    (s.numbered command).live (.enqueue s.nextId) = s.queued command := by
  have hfresh : s.exchanges.find? (·.id == s.nextId) = none :=
    List.find?_eq_none.mpr fun x hx => by simpa using Nat.ne_of_lt (hs.fresh x hx)
  have hothers : s.exchanges.map (fun x =>
      if x.id = s.nextId then { x with stage := .waiting } else x) = s.exchanges :=
    (List.map_congr_left fun x hx => if_neg (Nat.ne_of_lt (hs.fresh x hx))).trans
      s.exchanges.map_id'
  refine live_of_step ?_
  simp [step, enqueue, numbered, find?, List.find?_append, hfresh, hr, hroom, Mailbox.push?, setStage,
    hothers, settleIntake, feedsIntake, ho, queued]

/-- A call comes into the intake under the next id, behind what is there, if there is room. -/
theorem run_passage (hs : Sound s) (ho : s.isOpen = true) (hc : call.command? = .ok command)
    (hr : s.dispatcher.intake.hasReceiver = true) (hroom : s.dispatcher.intake.hasRoom = true) :
    s.run (s.passage call) = s.queued command := by
  rw [passage, run_concat, run_admission ho hc, live_enqueue_numbered hs ho hr hroom]

theorem exchange_run {x : Exchange} (hx : x ∈ s.exchanges) (moments : List Moment) :
    ∃ y ∈ (s.run moments).exchanges, y.id = x.id ∧ y.command = x.command := by
  induction moments using List.reverseRecOn with
  | nil => exact ⟨x, hx, rfl, rfl⟩
  | append_singleton moments m ih =>
    obtain ⟨y, hy, hid, hcommand⟩ := ih
    rw [run_concat]
    rcases live_cases (s.run moments) m with ⟨a, -, -, he⟩ | ⟨-, c⟩
    · rw [he]
      exact ⟨y, hy, hid, hcommand⟩
    · obtain ⟨z, hz, hzid, hzcommand, -⟩ := c.call hy
      exact ⟨z, hz, hzid.trans hid, hzcommand.trans hcommand⟩

/-- No other command is ever in the intake under the id that a call got. -/
theorem command_of_passage (settings : Connection.Settings) {moments later : List Moment}
    (ho : ((start settings).run moments).isOpen = true) (hc : call.command? = .ok command)
    {sub : Submission}
    (hsub : sub ∈ (((start settings).run moments).run
      (((start settings).run moments).admission call ++ later)).dispatcher.intake.items)
    (hid : sub.id = ((start settings).run moments).nextId) : sub.command = command := by
  have hadmitted : (⟨((start settings).run moments).nextId, command, .queueing⟩ : Exchange) ∈
      (((start settings).run moments).run
        (((start settings).run moments).admission call)).exchanges := by
    rw [run_admission ho hc]
    exact List.mem_append_right _ (List.mem_singleton_self _)
  obtain ⟨x, hx, hxid, hxcommand⟩ := exchange_run hadmitted later
  rw [← run_append, ← run_append] at hx
  rw [← run_append] at hsub
  obtain ⟨y, hy, hyid, hycommand⟩ := (distinct_run settings _).owned sub hsub
  have hone : x = y := List.inj_on_of_nodup_map (sound_run (sound_start settings) _).ids hx hy
    (hxid.trans (hid.symm.trans hyid.symm))
  rw [← hycommand, ← hone, hxcommand]

/-! ## Both ways to submit a transaction -/

/-- How the two ways to submit a transaction agree, in a state to which a session has come. -/
structure SubmittedAlike (s : Session) : Prop where
  /-- A blob comes to a command just if it has digits in pairs, and blanks around them at most. -/
  accepted : ∀ blob, (∃ c, SubmitCommand.ofBlob blob = .ok c) ↔ digits blob ≠ "" ∧
    (digits blob).toList.length % 2 = 0 ∧ ∀ c ∈ (digits blob).toList, Json.IsHexDigit c
  /-- The command is that of the bytes that the digits are read as, and has them in upper case. -/
  canonical : ∀ blob c, SubmitCommand.ofBlob blob = .ok c → ∃ bytes, bytes ≠ [] ∧
    Hex.decode (digits blob) = .ok bytes ∧ c = .ofBytes bytes ∧ c.blob = (digits blob).toUpper
  /-- The blob of a command stands for the command. -/
  readBack : ∀ bytes, bytes ≠ [] →
    SubmitCommand.ofBlob (SubmitCommand.ofBytes bytes).blob = .ok (.ofBytes bytes)
  /-- The session goes on in the same way, however transactions are submitted. -/
  interchangeable : ∀ later later', List.Forall₂ Moment.Alike later later' →
    s.run later = s.run later'
  /-- As long as the session is open and its intake has room, a call that submits some bytes brings
  their command there, under the next id. -/
  enqueued : ∀ bytes call, call.Submits bytes → bytes ≠ [] → s.isOpen = true →
    s.dispatcher.intake.hasReceiver = true → s.dispatcher.intake.hasRoom = true →
      s.run (s.passage call) = s.queued (.submit (.ofBytes bytes))
  /-- If it has to wait for room, it is still their command, whatever happens until then. -/
  kept : ∀ bytes call, call.Submits bytes → bytes ≠ [] → s.isOpen = true → ∀ later,
    ∀ sub ∈ (s.run (s.admission call ++ later)).dispatcher.intake.items, sub.id = s.nextId →
      sub.command = .submit (.ofBytes bytes)
  /-- The frame of that command. -/
  frame : ∀ bytes, (Command.submit (.ofBytes bytes)).encode s.nextId =
    .ok ("\x7b\"id\":" ++ toString s.nextId ++ ",\"command\":\"submit\",\"tx_blob\":\"" ++
      Hex.encode bytes ++ "\"\x7d")
  /-- An empty transaction is refused, with a reason of its own for each of the two ways. -/
  refused : s.enter? (.submit []) = .error (.invalidArgument "transaction blob is empty") ∧
    ∀ blob, digits blob = "" →
      s.enter? (.submitBlob blob) = .error (.protocol (.invalidBlob "empty"))
  /-- It leaves the session as it is. -/
  traceless : ∀ call : Call, call.Submits [] → s.live (.enter call) = s

/-- **The two ways to submit a transaction agree** after every run of a session. -/
theorem submittedAlike (settings : Connection.Settings) (moments : List Moment) :
    SubmittedAlike ((start settings).run moments) where
  accepted blob := SubmitCommand.exists_ofBlob_iff
  canonical blob c h := by
    obtain ⟨bytes, hne, hd, hc⟩ := SubmitCommand.ofBlob_eq_ok_iff.mp h
    exact ⟨bytes, hne, hd, hc, SubmitCommand.blob_of_ofBlob h⟩
  readBack bytes := SubmitCommand.ofBlob_blob
  interchangeable later later' h := run_alike h _
  enqueued bytes call h hne ho hr hroom :=
    run_passage (sound_run (sound_start settings) moments) ho (h.command?_eq hne) hr hroom
  kept bytes call h hne ho later sub hsub hid :=
    command_of_passage settings ho (h.command?_eq hne) hsub hid
  frame bytes := Command.encode_ofBytes _ bytes
  refused := by
    refine ⟨rfl, fun blob h => ?_⟩
    have hempty := SubmitCommand.ofBlob_of_decode_nil (SubmitCommand.decode_eq_nil_iff.mpr h)
    rw [enter?, Call.command?, hempty]
    rfl
  traceless call h := by
    obtain ⟨e, he⟩ := h.command?_nil
    exact live_enter_of_error he _

/-- Three bytes, or a blob of them in lower case with blanks around it, are the first transaction of a
session. -/
theorem submittedAlike_of_lower_case :
    let s := start (.ofEndpoint Connection.defaultEndpoint)
    let c : Command := .submit ⟨"1200AB", false⟩
    s.run (s.passage (.submit [0x12, 0x00, 0xab])) = s.queued c ∧
      s.run (s.passage (.submitBlob "\t1200ab ")) = s.queued c ∧
      c.encode 1 =
        .ok "\x7b\"id\":1,\"command\":\"submit\",\"tx_blob\":\"1200AB\"\x7d" :=
  have hread : Hex.decode (digits "\t1200ab ") = .ok [0x12, 0x00, 0xab] := by decide +kernel
  have halike := submittedAlike (.ofEndpoint Connection.defaultEndpoint) []
  ⟨halike.enqueued _ _ .raw (by decide) rfl rfl rfl,
    halike.enqueued _ _ (.hex hread) (by decide) rfl rfl rfl,
    halike.frame [0x12, 0x00, 0xab]⟩

end Session

end LedgerClient
