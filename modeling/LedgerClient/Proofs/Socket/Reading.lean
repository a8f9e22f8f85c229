import LedgerClient.Proofs.Socket.Incoming
import LedgerClient.Socket.Receiver

/-!
# What a receiver reads off its socket

A receiver reads arrivals in their order for as long as each is there by its deadline and can be
dealt with (`Reads`); then it has come to its end, by the next arrival or because there is none
(`exists_reads`). What holds of all that was read follows by induction over `Reads`: the texts that
were handed on are the texts that were read, and no arrival is later than the receiver.
-/

namespace LedgerClient

/-! ## Arrivals -/

namespace Receiver

variable {setting : Setting} {consumer : Consumer}

/-- The texts of arrivals, in order. -/
def texts (arrivals : List Arrival) : List String := arrivals.filterMap (·.item.text?)

theorem texts_cons (arrival : Arrival) (arrivals : List Arrival) :
    texts (arrival :: arrivals) = arrival.item.text?.toList ++ texts arrivals := by
  rw [texts, texts, List.filterMap_cons]
  cases arrival.item.text? <;> rfl

/-- A receiver that turns to an arrival. -/
def State.at (setting : Setting) (arrival : Arrival) (s : State) : State :=
  { s with
    now := max s.now arrival.time
    deadline := max s.now arrival.time + setting.window.nanos }

/-- How a receiver reads some arrivals and goes on. -/
inductive Reads (setting : Setting) (consumer : Consumer) : State → List Arrival → State → Prop
  | nil (s : State) : Reads setting consumer s [] s
  | cons {s s' s'' : State} {arrival : Arrival} {arrivals : List Arrival}
    (hd : max s.now arrival.time ≤ s.expiry setting)
    (hr : (s.at setting arrival).receive consumer arrival.item = .ok s')
    (h : Reads setting consumer s' arrivals s'') :
    Reads setting consumer s (arrival :: arrivals) s''

/-- How a receiver comes to its end with these arrivals in front of it. -/
inductive Ends (setting : Setting) (consumer : Consumer) (s : State) : List Arrival → Report → Prop
  | silent (rest : List Arrival) (hs : ∀ arrival ∈ rest.head?, s.expiry setting < arrival.time) :
    Ends setting consumer s rest (s.expire setting)
  | met (arrival : Arrival) (rest : List Arrival) (report : Report)
    (hd : max s.now arrival.time ≤ s.expiry setting)
    (hr : (s.at setting arrival).receive consumer arrival.item = .error report) :
    Ends setting consumer s (arrival :: rest) report

/-- A receiver reads some of the arrivals and comes to its end at the next. -/
theorem exists_reads (setting : Setting) (consumer : Consumer) (arrivals : List Arrival)
    (s : State) :
    ∃ read rest s', arrivals = read ++ rest ∧ Reads setting consumer s read s' ∧
      Ends setting consumer s' rest (follow setting consumer arrivals s) := by
  induction arrivals generalizing s with
  | nil => exact ⟨[], [], s, rfl, .nil s, .silent [] nofun⟩
  | cons arrival arrivals ih =>
    rw [follow]
    by_cases hd : max s.now arrival.time ≤ s.expiry setting
    · simp only [hd, if_true]
      cases hr : (s.at setting arrival).receive consumer arrival.item with
      | ok s' =>
        obtain ⟨read, rest, s'', rfl, hreads, hends⟩ := ih s'
        rw [State.at] at hr
        simp only [hr]
        exact ⟨arrival :: read, rest, s'', rfl, .cons hd hr hreads, hends⟩
      | error report =>
        refine ⟨[], arrival :: arrivals, s, rfl, .nil s, ?_⟩
        rw [State.at] at hr
        simp only [hr]
        exact .met arrival arrivals report hd hr
    · simp only [hd, if_false]
      refine ⟨[], arrival :: arrivals, s, rfl, .nil s, .silent _ fun a ha => ?_⟩
      obtain rfl := Option.some.inj ha
      have hnow : s.now ≤ s.expiry setting := Nat.le_max_left _ _
      omega

/-! ## Dealing with an arrival -/

theorem receive_of_text {item : Incoming} {text : String} (h : item.text? = some text)
    (s : State) : s.receive consumer item = s.forward consumer text := by
  rcases item.reception_cases with ⟨t, hr, ht, -⟩ | ⟨_, _, ht, -⟩ | ⟨_, ht, -⟩
  · obtain rfl := Option.some.inj (ht.symm.trans h)
    rw [State.receive, hr]
  · cases ht.symm.trans h
  · cases ht.symm.trans h

theorem receive_of_end {item : Incoming} {reason : SessionEnd} (h : item.end? = some reason)
    (s : State) : s.receive consumer item = .error (s.finish reason) := by
  rcases item.reception_cases with ⟨_, _, _, he⟩ | ⟨_, hr, _, he⟩ | ⟨_, _, he⟩
  · cases he.symm.trans h
  · obtain rfl := Option.some.inj (he.symm.trans h)
    rw [State.receive, hr]
  · cases he.symm.trans h

theorem receive_of_neither {item : Incoming} (ht : item.text? = none) (he : item.end? = none)
    (consumer : Consumer) (s : State) :
    ∃ discarded, s.receive consumer item = .ok { s with discarded } := by
  rcases item.reception_cases with ⟨_, _, h, _⟩ | ⟨_, _, _, h⟩ | ⟨hr | ⟨e, hr⟩, _, _⟩
  · cases h.symm.trans ht
  · cases h.symm.trans he
  · exact ⟨s.discarded, by rw [State.receive, hr]⟩
  · exact ⟨s.discarded ++ [e], by rw [State.receive, hr]⟩

theorem receive_eq_ok {item : Incoming} {s s' : State} (h : s.receive consumer item = .ok s') :
    item.end? = none ∧ s'.deadline = s.deadline ∧
      ((∃ text delay, item.text? = some text ∧ consumer s.forwarded.length = some delay ∧
          s'.now = s.now + delay ∧ s'.forwarded = s.forwarded ++ [(s.now + delay, text)]) ∨
        item.text? = none ∧ s'.now = s.now ∧ s'.forwarded = s.forwarded) := by
  cases he : item.end? with
  | some reason => cases (receive_of_end he s).symm.trans h
  | none =>
    cases ht : item.text? with
    | none =>
      obtain ⟨discarded, hr⟩ := receive_of_neither ht he consumer s
      obtain rfl := Except.ok.inj (hr.symm.trans h)
      exact ⟨rfl, rfl, .inr ⟨rfl, rfl, rfl⟩⟩
    | some text =>
      rw [receive_of_text ht, State.forward] at h
      cases hc : consumer s.forwarded.length with
      | none => simp [hc] at h
      | some delay =>
        simp only [hc, Except.ok.injEq] at h
        exact ⟨rfl, h ▸ rfl, .inl ⟨text, delay, rfl, rfl, h ▸ rfl, h ▸ rfl⟩⟩

theorem receive_eq_error {item : Incoming} {s : State} {report : Report}
    (h : s.receive consumer item = .error report) :
    ∃ reason, report = s.finish reason ∧
      (item.end? = some reason ∨
        ∃ text, item.text? = some text ∧ consumer s.forwarded.length = none ∧ reason = .closed) := by
  cases he : item.end? with
  | some reason =>
    have hr := Except.error.inj ((receive_of_end he s).symm.trans h)
    exact ⟨reason, hr.symm, .inl rfl⟩
  | none =>
    cases ht : item.text? with
    | none =>
      obtain ⟨discarded, hr⟩ := receive_of_neither ht he consumer s
      cases hr.symm.trans h
    | some text =>
      rw [receive_of_text ht, State.forward] at h
      cases hc : consumer s.forwarded.length with
      | some delay => simp [hc] at h
      | none =>
        simp only [hc, Except.error.injEq] at h
        exact ⟨.closed, h.symm, .inr ⟨text, rfl, rfl, rfl⟩⟩

theorem not_expired_of_receive {item : Incoming} {s : State} {report : Report}
    (h : s.receive consumer item = .error report) (limit : Duration) :
    report.reason ≠ .livenessExpired limit := by
  obtain ⟨reason, rfl, he | ⟨_, -, -, rfl⟩⟩ := receive_eq_error h
  · rintro (rfl : reason = .livenessExpired limit)
    cases item <;> simp [Incoming.end?] at he
  · exact nofun

/-! ## All that was read -/

namespace Reads

variable {s s' : State} {arrivals : List Arrival}

theorem end?_eq_none (h : Reads setting consumer s arrivals s') :
    ∀ arrival ∈ arrivals, arrival.item.end? = none := by
  induction h with
  | nil s => nofun
  | cons hd hr h ih => exact List.forall_mem_cons.mpr ⟨(receive_eq_ok hr).1, ih⟩

theorem forwarded (h : Reads setting consumer s arrivals s') :
    s'.forwarded.map (·.2) = s.forwarded.map (·.2) ++ texts arrivals := by
  induction h with
  | nil s => exact (List.append_nil _).symm
  | cons hd hr h ih =>
    rw [ih, texts_cons]
    obtain ⟨-, -, ⟨text, delay, ht, -, -, hf⟩ | ⟨ht, -, hf⟩⟩ := receive_eq_ok hr
    · rw [hf, ht, List.map_append, List.append_assoc]
      rfl
    · rw [hf, ht]
      rfl

theorem time_le (h : Reads setting consumer s arrivals s') :
    s.now ≤ s'.now ∧ ∀ arrival ∈ arrivals, arrival.time ≤ s'.now := by
  induction h with
  | nil s => exact ⟨Nat.le_refl _, nofun⟩
  | @cons s s₁ _ arrival _ hd hr h ih =>
    have hnow : (s.at setting arrival).now ≤ s₁.now := by
      obtain ⟨-, -, ⟨_, delay, -, -, hn, -⟩ | ⟨-, hn, -⟩⟩ := receive_eq_ok hr
      · exact hn ▸ Nat.le_add_right _ _
      · exact Nat.le_of_eq hn.symm
    have hdone : max s.now arrival.time ≤ _ := Nat.le_trans hnow ih.1
    rw [Nat.max_le] at hdone
    exact ⟨hdone.1, List.forall_mem_cons.mpr ⟨hdone.2, ih.2⟩⟩

theorem deadline_eq (hc : ∀ n delay, consumer n = some delay → delay = 0)
    (h : Reads setting consumer s arrivals s') (hs : s.deadline = s.now + setting.window.nanos) :
    s'.deadline = s'.now + setting.window.nanos := by
  induction h with
  | nil s => exact hs
  | @cons s s₁ _ arrival _ hd hr h ih =>
    refine ih ?_
    obtain ⟨-, hdl, ⟨_, delay, -, hdelay, hn, -⟩ | ⟨-, hn, -⟩⟩ := receive_eq_ok hr
    · rw [hdl, hn, hc _ delay hdelay]
      rfl
    · rw [hdl, hn]
      rfl

end Reads

/-! ## The end -/

/-- Why a receiver stops with these arrivals in front of it. -/
inductive Halts (setting : Setting) (consumer : Consumer) : List Arrival → Report → Prop
  /-- The next arrival is an end. -/
  | «over» (arrival : Arrival) (rest : List Arrival) (report : Report)
    (he : arrival.item.end? = some report.reason) :
    Halts setting consumer (arrival :: rest) report
  /-- The next arrival is a text that nobody takes. -/
  | lost (arrival : Arrival) (rest : List Arrival) (report : Report) (text : String)
    (ht : arrival.item.text? = some text) (hc : consumer report.forwarded.length = none)
    (hw : report.reason = .closed) : Halts setting consumer (arrival :: rest) report
  /-- Nothing arrives for too long. -/
  | silent (rest : List Arrival) (report : Report)
    (hs : ∀ arrival ∈ rest.head?, report.time < arrival.time)
    (hw : report.reason = .livenessExpired setting.window) : Halts setting consumer rest report

theorem Ends.halts {s : State} {rest : List Arrival} {report : Report}
    (h : Ends setting consumer s rest report) : Halts setting consumer rest report := by
  cases h with
  | silent _ hs => exact .silent rest _ hs rfl
  | met arrival later _ hd hr =>
    obtain ⟨reason, rfl, he | ⟨text, ht, hc, rfl⟩⟩ := receive_eq_error hr
    · exact .over arrival later _ he
    · exact .lost arrival later _ text ht hc rfl

theorem Ends.forwarded_eq {s : State} {rest : List Arrival} {report : Report}
    (h : Ends setting consumer s rest report) : report.forwarded = s.forwarded := by
  cases h with
  | silent => rfl
  | met arrival later _ hd hr =>
    obtain ⟨reason, rfl, -⟩ := receive_eq_error hr
    rfl

/-- What a receiver has made of arrivals in the end: it has read some and left the rest. -/
structure Through (setting : Setting) (consumer : Consumer) (read rest : List Arrival)
    (report : Report) : Prop where
  /-- Each of the arrivals was there by its deadline. -/
  inTime : ∃ s, Reads setting consumer (start setting) read s ∧ Ends setting consumer s rest report
  /-- None of them is an end. -/
  unended : ∀ arrival ∈ read, arrival.item.end? = none
  /-- Their texts were handed on. -/
  forwarded : report.forwarded.map (·.2) = texts read
  halts : Halts setting consumer rest report

/-- A receiver hands on the texts of all that comes before its end, in order. -/
theorem exists_through (setting : Setting) (consumer : Consumer) (arrivals : List Arrival) :
    ∃ read rest, arrivals = read ++ rest ∧
      Through setting consumer read rest (run setting consumer arrivals) := by
  obtain ⟨read, rest, s, he, hreads, hends⟩ :=
    exists_reads setting consumer arrivals (start setting)
  refine ⟨read, rest, he, ⟨s, hreads, hends⟩, hreads.end?_eq_none, ?_, hends.halts⟩
  rw [run, hends.forwarded_eq]
  exact hreads.forwarded

theorem follow_of_reception_eq {item other : Incoming} (h : item.reception = other.reception)
    (time : Nat) (earlier later : List Arrival) (s : State) :
    follow setting consumer (earlier ++ ⟨time, item⟩ :: later) s =
      follow setting consumer (earlier ++ ⟨time, other⟩ :: later) s := by
  induction earlier generalizing s with
  | nil => simp only [List.nil_append, follow, State.receive, h]
  | cons arrival earlier ih => simp only [List.cons_append, follow, ih]

end Receiver

end LedgerClient
