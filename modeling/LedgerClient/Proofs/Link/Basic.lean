import LedgerClient.Proofs.Dispatcher.Conservation
import LedgerClient.Proofs.Session.Tasks

/-!
# A dispatcher between its callers and a peer

The dispatcher, the writer and the reader of a session, with the two directions of the socket and
the peer at its other end. `Moment` lists the single things that can happen and `step` does them;
callers and owners may do anything to the ends of the queues that are theirs. A run may hold the
moments in any order, so it stands for every way in which the tasks take turns; one look of the
dispatcher at its inputs is a single turn (`Dispatcher.serve`), and so is what each of the others
does between two waits.

`Bystands` says what can happen while the dispatcher does not move; with `live_cases` a proof about
all moments has two cases.
-/

namespace LedgerClient

open scoped List

/-- Whether something that happens to a dispatcher is the doing of a caller, an owner or the consumer
of events; the rest is up to the writer and the reader. -/
def Dispatcher.Input.isOutside : Input → Bool
  | .frame _ => false
  | .writeFailure _ => false
  | .dropFrames => false
  | .dropFailures => false
  | .dropOutbound => false
  | .takeOutbound => false
  | _ => true

theorem Dispatcher.items_offer_sublist {α : Type} (a : α) (m : Mailbox α) :
    (offer a m).2.items <+ m.items ++ [a] := by
  unfold offer
  split
  · cases hp : m.push? a with
    | none => exact List.sublist_append_left _ _
    | some m' => rw [← Mailbox.items_of_push? hp]
  · exact List.sublist_append_left _ _

/-- The id that is given up when something happens. -/
def Dispatcher.Input.abandoned? : Input → Option Nat
  | .abandon id => some id
  | _ => none

theorem Dispatcher.apply_outside {i : Input} (hi : i.isOutside) (d : Dispatcher) :
    ∃ signal abandoned intake events gone replies,
      (d.apply i).2 = { d with signal, abandoned, intake, events, gone, replies } ∧
      intake.items <+ d.intake.items ++ (Moment.input i).submission?.toList ∧
      abandoned.items <+ d.abandoned.items ++ i.abandoned?.toList := by
  have hsame : ∀ {α : Type} (items more : List α), items <+ items ++ more :=
    fun _ _ => List.sublist_append_left _ _
  cases i with
  | submit s =>
    rcases live_submit s d with ⟨he, -⟩ | he
    · exact ⟨_, _, _, _, _, _, he, List.Sublist.refl _, hsame _ _⟩
    · exact ⟨_, _, _, _, _, _, he, hsame _ _, hsame _ _⟩
  | abandon id => exact ⟨_, _, _, _, _, _, rfl, hsame _ _, items_offer_sublist id d.abandoned⟩
  | signal raised =>
    cases hs : d.signal <;> simp only [apply, hs] <;>
      exact ⟨_, _, _, _, _, _, rfl, hsame _ _, hsame _ _⟩
  | frame text => simp [Input.isOutside] at hi
  | writeFailure failure => simp [Input.isOutside] at hi
  | dropFrames => simp [Input.isOutside] at hi
  | dropFailures => simp [Input.isOutside] at hi
  | dropOutbound => simp [Input.isOutside] at hi
  | takeOutbound => simp [Input.isOutside] at hi
  | _ => exact ⟨_, _, _, _, _, _, rfl, hsame _ _, hsame _ _⟩

/-- A dispatcher with its writer and its reader, and a peer. -/
structure Link where
  /-- How long a write may take, and how long the peer may be silent. -/
  limit : Duration
  window : Duration
  dispatcher : Dispatcher
  writer : Writer
  reader : Reader
  /-- What the peer has read of what was handed to the socket. -/
  read : List Parcel
  /-- What the peer has sent. -/
  sent : List Incoming
  /-- What the reader has not received yet of what the peer has sent. -/
  wire : List Incoming

namespace Link

/-- Nothing has happened yet. -/
def start (limit window : Duration) (c : Capacities) : Link where
  limit := limit
  window := window
  dispatcher := .start c
  writer := .start
  reader := .idle
  read := []
  sent := []
  wire := []

/-- Something that happens. -/
inductive Moment
  /-- A caller, an owner or the consumer of events does something. -/
  | outside (i : Dispatcher.Input)
  /-- The dispatcher makes a move. -/
  | dispatch (closeFirst : Bool)
  /-- The writer takes what its queue has, writes a ping, or learns what came of a write. -/
  | take
  | ping
  | written (w : Sender.Written)
  /-- The peer reads a parcel. -/
  | read
  /-- The peer sends something. -/
  | send (item : Incoming)
  /-- The reader receives what the peer has sent, or finds the socket broken or at its end. -/
  | arrive
  | broken (fault : SocketFault)
  | ended
  /-- The reader hands a text over, has waited too long, or is given up. -/
  | hand
  | silence
  | giveUp

/-- The link with the writer after a move. -/
def withWriter (l : Link) (r : Writer × Dispatcher) : Link :=
  { l with writer := r.1, dispatcher := r.2 }

/-- The link with the reader after a move. -/
def withReader (l : Link) (r : Reader × Dispatcher) : Link :=
  { l with reader := r.1, dispatcher := r.2 }

/-- The link after something happens, if it can happen. -/
def step (l : Link) : Moment → Option Link
  | .outside i =>
    if i.isOutside then some { l with dispatcher := (l.dispatcher.apply i).2 } else none
  | .dispatch b => (l.dispatcher.step b).map fun dispatcher => { l with dispatcher }
  | .take => (l.writer.take l.dispatcher).map l.withWriter
  | .ping => l.writer.ping.map fun writer => { l with writer }
  | .written w => (l.writer.learn l.limit w l.dispatcher).map l.withWriter
  | .read => (l.writer.handed[l.read.length]?).map fun p => { l with read := l.read ++ [p] }
  | .send item => some { l with sent := l.sent ++ [item], wire := l.wire ++ [item] }
  | .arrive =>
    match l.wire with
    | [] => none
    | item :: wire => (l.reader.receive item l.dispatcher).map { l with wire }.withReader
  | .broken fault => (l.reader.receive (.failed fault) l.dispatcher).map l.withReader
  | .ended => (l.reader.receive .ended l.dispatcher).map l.withReader
  | .hand => (l.reader.hand l.dispatcher).map l.withReader
  | .silence => (l.reader.expire l.window l.dispatcher).map l.withReader
  | .giveUp => some (l.withReader (l.reader.giveUp l.dispatcher))

/-- The link after a moment; what cannot happen changes nothing. -/
def live (l : Link) (m : Moment) : Link := (l.step m).getD l

/-- The link after some moments. -/
def run (l : Link) (moments : List Moment) : Link := moments.foldl live l

theorem live_of_step {l k : Link} {m : Moment} (h : l.step m = some k) : l.live m = k := by
  rw [live, h]
  rfl

theorem live_of_none {l : Link} {m : Moment} (h : l.step m = none) : l.live m = l := by
  rw [live, h]
  rfl

theorem run_concat (l : Link) (moments : List Moment) (m : Moment) :
    l.run (moments ++ [m]) = (l.run moments).live m := by
  simp [run]

/-! ## What the dispatcher does -/

/-- The act of the dispatcher in a moment. -/
def act? (l : Link) : Moment → Option Dispatcher.Act
  | .dispatch b => l.dispatcher.act? b
  | _ => none

/-- What the dispatcher does in a run, in order. -/
def acts : Link → List Moment → List Dispatcher.Act
  | _, [] => []
  | l, m :: moments => (l.act? m).toList ++ acts (l.live m) moments

theorem acts_concat (l : Link) (moments : List Moment) (m : Moment) :
    l.acts (moments ++ [m]) = l.acts moments ++ ((l.run moments).act? m).toList := by
  induction moments generalizing l with
  | nil => simp [acts, run]
  | cons x moments ih =>
    rw [List.cons_append, acts, acts, ih, List.append_assoc]
    rfl

/-! ## Standing by -/

/-- The command that a moment hands in. -/
def Moment.submission? : Moment → Option Submission
  | .outside i => (Dispatcher.Moment.input i).submission?
  | _ => none

/-- The id that is given up in a moment. -/
def Moment.abandoned? : Moment → Option Nat
  | .outside i => i.abandoned?
  | _ => none

/-- The text that the peer sends in a moment. -/
def Moment.text? : Moment → Option String
  | .send item => item.text?
  | _ => none

/-- The texts that the peer has sent and the dispatcher has not dealt with yet. -/
def texts (l : Link) : List String :=
  l.dispatcher.frames.items ++ l.reader.held ++ l.wire.filterMap Incoming.text?

def outgoing (l : Link) : List Outbound := l.writer.outgoing l.dispatcher

def registered (l : Link) : List Outbound := l.writer.registered l.dispatcher

def requests (l : Link) : List Nat := l.writer.requests l.dispatcher

/-- What a moment does in which the dispatcher does not move. -/
structure Bystands (m : Moment) (l l' : Link) : Prop where
  phase : l'.dispatcher.phase = l.dispatcher.phase
  table : l'.dispatcher.table = l.dispatcher.table
  discarded : l'.dispatcher.discarded = l.dispatcher.discarded
  abandoned :
    l'.dispatcher.abandoned.items <+ l.dispatcher.abandoned.items ++ m.abandoned?.toList
  outgoing : ∀ out ∈ l'.outgoing, out ∈ l.outgoing
  requests : ∀ id, l'.requests.count id ≤
    l.requests.count id + (m.submission?.toList.map (·.id)).count id
  read : l.read <+: l'.read
  readable : l.read <+: l.writer.handed → l'.read <+: l'.writer.handed
  texts : l'.texts <+ l.texts ++ m.text?.toList
  sent : l'.sent.filterMap Incoming.text? = l.sent.filterMap Incoming.text? ++ m.text?.toList

theorem Bystands.refl (m : Moment) (l : Link) (h : m.text? = none) : Bystands m l l where
  phase := rfl
  table := rfl
  discarded := rfl
  abandoned := List.sublist_append_left _ _
  outgoing _ h := h
  requests _ := Nat.le_add_right _ _
  read := List.prefix_refl _
  readable h := h
  texts := List.sublist_append_left _ _
  sent := by rw [h]; exact (List.append_nil _).symm

theorem bystands_withWriter {m : Moment} {l : Link} {r : Writer × Dispatcher}
    (hm : m.text? = none) (h : l.writer.Moves l.dispatcher r) :
    Bystands m l (l.withWriter r) := by
  have hr := Writer.count_requests_moves h
  have ho : ∀ out ∈ r.1.outgoing r.2, out ∈ l.outgoing := fun _ => Writer.mem_outgoing_moves h
  obtain ⟨w, d⟩ := r
  obtain ⟨outbound, failures, rfl, hh, -⟩ := h
  exact { Bystands.refl m l hm with
    outgoing := ho
    requests := fun id => Nat.le_add_right_of_le (hr id)
    readable := fun hp => hp.trans hh }

theorem bystands_withReader {m : Moment} {l : Link} {got : Option String} {wire : List Incoming}
    {r : Reader × Dispatcher} (hm : m.text? = none) (h : l.reader.Moves got l.dispatcher r)
    (hw : got.toList ++ wire.filterMap Incoming.text? <+ l.wire.filterMap Incoming.text?) :
    Bystands m l ({ l with wire }.withReader r) := by
  obtain ⟨r, d⟩ := r
  obtain ⟨frames, rfl, hf⟩ := h
  refine { Bystands.refl m l hm with texts := ?_ }
  have hwire := hw.append_left (l.dispatcher.frames.items ++ l.reader.held)
  rw [← List.append_assoc] at hwire
  exact ((hf.append_right _).trans hwire).trans (List.sublist_append_left _ _)

/-- What the tasks beside the dispatcher do. -/
theorem bystands_live {m : Moment} (hm : ∀ b, m ≠ .dispatch b) (l : Link) :
    Bystands m l (l.live m) := by
  -- what cannot happen changes nothing
  have hnone : m.text? = none → l.step m = none → Bystands m l (l.live m) := by
    intro ht h
    rw [live_of_none h]
    exact Bystands.refl m l ht
  have hwriter : m.text? = none → ∀ r, l.step m = some (l.withWriter r) →
      l.writer.Moves l.dispatcher r → Bystands m l (l.live m) := by
    intro ht r h hr
    rw [live_of_step h]
    exact bystands_withWriter ht hr
  have hreader : m.text? = none → ∀ r, l.step m = some (l.withReader r) →
      l.reader.Moves none l.dispatcher r → Bystands m l (l.live m) := by
    intro ht r h hr
    rw [live_of_step h]
    exact bystands_withReader ht hr (List.Sublist.refl _)
  cases m with
  | dispatch b => exact absurd rfl (hm b)
  | outside i =>
    cases hi : i.isOutside with
    | false => exact hnone rfl (by simp [step, hi])
    | true =>
      obtain ⟨_, _, _, _, _, _, he, hs, hg⟩ := Dispatcher.apply_outside hi l.dispatcher
      rw [live_of_step (k := { l with dispatcher := (l.dispatcher.apply i).2 })
        (by simp [step, hi]), he]
      refine { Bystands.refl (.outside i) l rfl with abandoned := hg, requests := fun id => ?_ }
      have hc := (hs.map (·.id)).count_le id
      rw [List.map_append, List.count_append] at hc
      simp only [requests, Writer.requests, Writer.registered, List.map_append, List.count_append,
        Moment.submission?, Dispatcher.hand, Writer.outgoing] at hc ⊢
      omega
  | take =>
    cases h : l.writer.take l.dispatcher with
    | none => exact hnone rfl (by simp [step, h])
    | some r => exact hwriter rfl r (by simp [step, h]) (Writer.moves_take h)
  | ping =>
    cases h : l.writer.ping with
    | none => exact hnone rfl (by simp [step, h])
    | some w =>
      exact hwriter rfl (w, l.dispatcher) (by simp [step, h, withWriter])
        (Writer.moves_ping h l.dispatcher)
  | written w =>
    cases h : l.writer.learn l.limit w l.dispatcher with
    | none => exact hnone rfl (by simp [step, h])
    | some r => exact hwriter rfl r (by simp [step, h]) (Writer.moves_learn h)
  | read =>
    cases h : l.writer.handed[l.read.length]? with
    | none => exact hnone rfl (by simp [step, h])
    | some p =>
      rw [live_of_step (k := { l with read := l.read ++ [p] }) (by simp [step, h])]
      refine { Bystands.refl .read l rfl with read := List.prefix_append _ _, readable := ?_ }
      rintro ⟨rest, hr⟩
      -- the parcel that is read is the first behind those that were
      obtain ⟨rest, rfl⟩ : ∃ rest', rest = p :: rest' := by
        rw [← hr, List.getElem?_append_right (Nat.le_refl _), Nat.sub_self] at h
        exact List.head?_eq_some_iff.mp (List.head?_eq_getElem?.trans h)
      exact ⟨rest, by rw [List.append_assoc]; exact hr⟩
  | send item =>
    rw [live_of_step (k := { l with sent := l.sent ++ [item], wire := l.wire ++ [item] }) rfl]
    have hs : [item].filterMap Incoming.text? = (Moment.send item).text?.toList := by
      cases h : item.text? <;> simp [Moment.text?, h]
    refine ⟨rfl, rfl, rfl, List.sublist_append_left _ _, fun _ h => h,
      fun _ => Nat.le_add_right _ _, List.prefix_refl _, fun h => h, ?_, ?_⟩
    · simp only [texts, List.filterMap_append, hs, List.append_assoc]
      exact List.Sublist.refl _
    · rw [List.filterMap_append, hs]
  | arrive =>
    cases hw : l.wire with
    | nil => exact hnone rfl (by simp [step, hw])
    | cons item wire =>
      cases h : l.reader.receive item l.dispatcher with
      | none => exact hnone rfl (by simp [step, hw, h])
      | some r =>
        rw [live_of_step (k := { l with wire }.withReader r) (by simp [step, hw, h])]
        refine bystands_withReader rfl (Reader.moves_receive h) ?_
        rw [hw]
        cases ht : item.text? <;> simp [ht]
  | broken fault =>
    cases h : l.reader.receive (.failed fault) l.dispatcher with
    | none => exact hnone rfl (by simp [step, h])
    | some r => exact hreader rfl r (by simp [step, h]) (Reader.moves_receive h)
  | ended =>
    cases h : l.reader.receive .ended l.dispatcher with
    | none => exact hnone rfl (by simp [step, h])
    | some r => exact hreader rfl r (by simp [step, h]) (Reader.moves_receive h)
  | hand =>
    cases h : l.reader.hand l.dispatcher with
    | none => exact hnone rfl (by simp [step, h])
    | some r => exact hreader rfl r (by simp [step, h]) (Reader.moves_hand h)
  | silence =>
    cases h : l.reader.expire l.window l.dispatcher with
    | none => exact hnone rfl (by simp [step, h])
    | some r => exact hreader rfl r (by simp [step, h]) (Reader.moves_expire h)
  | giveUp => exact hreader rfl _ rfl (Reader.moves_giveUp l.reader l.dispatcher)

/-- A moment is an act of the dispatcher, or the dispatcher stands by. -/
theorem live_cases (l : Link) (m : Moment) :
    (∃ a, l.act? m = some a ∧ l.dispatcher.Ready a ∧ m.text? = none ∧ m.submission? = none ∧
      l.live m = { l with dispatcher := l.dispatcher.perform a }) ∨
    (l.act? m = none ∧ Bystands m l (l.live m)) := by
  cases m with
  | dispatch b =>
    cases ha : l.dispatcher.act? b with
    | none =>
      rw [live_of_none (by simp [step, Dispatcher.step_eq, ha])]
      exact .inr ⟨ha, Bystands.refl _ l rfl⟩
    | some a =>
      exact .inl ⟨a, ha, Dispatcher.ready_of_act? ha, rfl, rfl,
        live_of_step (by simp [step, Dispatcher.step_eq, ha])⟩
  | _ => exact .inr ⟨rfl, bystands_live (fun _ hb => by cases hb) l⟩

end Link

end LedgerClient
