import LedgerClient.Proofs.Socket.Reading
import Mathlib.Data.List.Chain

/-!
# When a receiver gives up

A receiver gives up when nothing has come for a window. `receipts` says what it reads and when, so
that both halves of this can be stated. Whatever holds it up, a receiver that gives up has read all
that was there by then, and its last receipt is at least a window old (`GivenUp`): the induction is
over the arrivals and carries that the deadline is a window behind the last receipt. If nothing holds
it up, it reads every arrival when it comes and gives up when the timer set at the last one fires.
-/

namespace LedgerClient.Receiver

variable {setting : Setting} {consumer : Consumer}

/-! ## Timers -/

/-- When a receiver gives up that has read nothing since a time. -/
def Setting.timeout (setting : Setting) (last : Nat) : Nat :=
  setting.clock.wake (last + setting.window.nanos)

theorem le_timeout (h : 0 < setting.clock.resolution) (last : Nat) :
    last + setting.window.nanos ≤ setting.timeout last :=
  Clock.le_wake h _

theorem expiry_of_deadline {s : State} {last : Nat}
    (hd : s.deadline = last + setting.window.nanos) :
    s.expiry setting = max s.now (setting.timeout last) := by
  rw [State.expiry, hd, Setting.timeout]

/-! ## Receipts -/

/-- An arrival that was read, and the time at which it was. -/
structure Receipt where
  time : Nat
  arrival : Arrival

/-- What a receiver reads from some state on, in order. -/
def receiptsFrom (setting : Setting) (consumer : Consumer) : List Arrival → State → List Receipt
  | [], _ => []
  | arrival :: arrivals, s =>
    let now := max s.now arrival.time
    if now ≤ s.expiry setting then
      ⟨now, arrival⟩ :: match (s.at setting arrival).receive consumer arrival.item with
        | .ok s => receiptsFrom setting consumer arrivals s
        | .error _ => []
    else []

/-- What a receiver reads in its life. -/
def receipts (setting : Setting) (consumer : Consumer) (arrivals : List Arrival) : List Receipt :=
  receiptsFrom setting consumer arrivals (start setting)

/-- The time of the last of some receipts, or `before` if there is none. -/
def lastTime (before : Nat) (receipts : List Receipt) : Nat :=
  (receipts.map (·.time)).getLastD before

section

variable {s s' : State} {arrival : Arrival} {arrivals : List Arrival}

theorem read_of_ok (arrivals : List Arrival) (hd : max s.now arrival.time ≤ s.expiry setting)
    (hr : (s.at setting arrival).receive consumer arrival.item = .ok s') :
    follow setting consumer (arrival :: arrivals) s = follow setting consumer arrivals s' ∧
      receiptsFrom setting consumer (arrival :: arrivals) s =
        ⟨max s.now arrival.time, arrival⟩ :: receiptsFrom setting consumer arrivals s' := by
  rw [State.at] at hr
  constructor
  · rw [follow]
    simp only [if_pos hd, hr]
  · rw [receiptsFrom, State.at]
    simp only [if_pos hd, hr]

theorem expire_of_late (consumer : Consumer) (arrivals : List Arrival)
    (hd : ¬ max s.now arrival.time ≤ s.expiry setting) :
    follow setting consumer (arrival :: arrivals) s = s.expire setting ∧
      receiptsFrom setting consumer (arrival :: arrivals) s = [] := by
  rw [follow, receiptsFrom]
  exact ⟨if_neg hd, if_neg hd⟩

end

/-! ## What a receiver has read that gives up -/

/-- How a receiver gives up that has read these receipts and has read something at `last` before. -/
structure GivenUp (setting : Setting) (last : Nat) (arrivals : List Arrival)
    (receipts : List Receipt) (report : Report) : Prop where
  reason : report.reason = .livenessExpired setting.window
  /-- It has read some of the arrivals, in order, and the next has not come yet. -/
  rest : ∃ rest, arrivals = receipts.map (·.arrival) ++ rest ∧
    ∀ arrival ∈ rest.head?, report.time < arrival.time
  /-- Each arrival was read after it had come. -/
  inTime : ∀ r ∈ receipts, r.arrival.time ≤ r.time ∧ r.time ≤ report.time
  /-- The timer that was set at the last receipt has fired. -/
  fired : setting.timeout (lastTime last receipts) ≤ report.time

theorem GivenUp.expire {s : State} {last : Nat} {arrivals : List Arrival}
    (hd : s.deadline = last + setting.window.nanos)
    (hn : ∀ arrival ∈ arrivals.head?, s.expiry setting < arrival.time) :
    GivenUp setting last arrivals [] (s.expire setting) where
  reason := rfl
  rest := ⟨arrivals, rfl, hn⟩
  inTime := nofun
  fired := by
    show setting.timeout last ≤ s.expiry setting
    rw [expiry_of_deadline hd]
    exact Nat.le_max_right _ _

theorem GivenUp.cons {last : Nat} {r : Receipt} {arrivals : List Arrival} {receipts : List Receipt}
    {report : Report} (h : GivenUp setting r.time arrivals receipts report)
    (hr : r.arrival.time ≤ r.time) (ht : r.time ≤ report.time) :
    GivenUp setting last (r.arrival :: arrivals) (r :: receipts) report := by
  obtain ⟨rest, he, hn⟩ := h.rest
  refine ⟨h.reason, ⟨rest, by rw [he]; rfl, hn⟩, ?_, ?_⟩
  · exact List.forall_mem_cons.mpr ⟨⟨hr, ht⟩, h.inTime⟩
  · have hlast : lastTime last (r :: receipts) = lastTime r.time receipts :=
      List.getLastD_cons
    rw [hlast]
    exact h.fired

/-- A receiver that gives up has read all that was there, and nothing since a window. -/
theorem givenUp_of_expired {arrivals : List Arrival} {s : State} {last : Nat} {limit : Duration}
    (hd : s.deadline = last + setting.window.nanos)
    (h : (follow setting consumer arrivals s).reason = .livenessExpired limit) :
    s.now ≤ (follow setting consumer arrivals s).time ∧
      GivenUp setting last arrivals (receiptsFrom setting consumer arrivals s)
        (follow setting consumer arrivals s) := by
  induction arrivals generalizing s last with
  | nil => exact ⟨Nat.le_max_left _ _, .expire hd nofun⟩
  | cons arrival arrivals ih =>
    by_cases hin : max s.now arrival.time ≤ s.expiry setting
    · cases hr : (s.at setting arrival).receive consumer arrival.item with
      | error report =>
        have hfollow : follow setting consumer (arrival :: arrivals) s = report := by
          rw [State.at] at hr
          rw [follow]
          simp only [if_pos hin, hr]
        rw [hfollow] at h
        exact absurd h (not_expired_of_receive hr limit)
      | ok s' =>
        obtain ⟨hfollow, hreceipts⟩ := read_of_ok arrivals hin hr
        obtain ⟨-, hdeadline, hnow⟩ := receive_eq_ok hr
        rw [hfollow] at h ⊢
        rw [hreceipts]
        -- the deadline was set when the arrival was read, however long its text is held up
        have hdeadline' : s'.deadline = max s.now arrival.time + setting.window.nanos := hdeadline
        have hrest := ih hdeadline' h
        have hle : max s.now arrival.time ≤ s'.now := by
          rcases hnow with ⟨_, delay, -, -, hn, -⟩ | ⟨-, hn, -⟩
          · rw [hn]
            exact Nat.le_add_right _ _
          · exact Nat.le_of_eq hn.symm
        have htime : max s.now arrival.time ≤ (follow setting consumer arrivals s').time :=
          Nat.le_trans hle hrest.1
        have hcons : GivenUp setting last (arrival :: arrivals)
            (⟨max s.now arrival.time, arrival⟩ :: receiptsFrom setting consumer arrivals s')
            (follow setting consumer arrivals s') :=
          .cons (r := ⟨_, arrival⟩) hrest.2 (Nat.le_max_right _ _) htime
        exact ⟨Nat.le_trans (Nat.le_max_left _ _) htime, hcons⟩
    · obtain ⟨hfollow, hreceipts⟩ := expire_of_late consumer arrivals hin
      rw [hfollow, hreceipts]
      refine ⟨Nat.le_max_left _ _, .expire hd fun a ha => ?_⟩
      obtain rfl := Option.some.inj ha
      have hnow : s.now ≤ s.expiry setting := Nat.le_max_left _ _
      omega

theorem givenUp_of_run {arrivals : List Arrival} {limit : Duration}
    (h : (run setting consumer arrivals).reason = .livenessExpired limit) :
    GivenUp setting 0 arrivals (receipts setting consumer arrivals)
      (run setting consumer arrivals) :=
  (givenUp_of_expired (Nat.zero_add _).symm h).2

/-! ## A receiver that nothing holds up -/

/-- An arrival at the second time comes before the timer set at the first has fired. -/
def Setting.Keeps (setting : Setting) (last next : Nat) : Prop :=
  last ≤ next ∧ next ≤ setting.timeout last

theorem receive_of_prompt (hc : ∀ n, consumer n = some 0) {arrival : Arrival}
    (he : arrival.item.end? = none) (s : State) :
    ∃ s', s.receive consumer arrival.item = .ok s' ∧ s'.now = s.now ∧ s'.deadline = s.deadline := by
  cases ht : arrival.item.text? with
  | none =>
    obtain ⟨discarded, hr⟩ := receive_of_neither ht he consumer s
    exact ⟨_, hr, rfl, rfl⟩
  | some text =>
    rw [receive_of_text ht, State.forward, hc]
    exact ⟨_, rfl, rfl, rfl⟩

/-- A receiver that nothing holds up gives up when its timer fires for the first time with
nothing there. -/
theorem follow_of_steady (hclock : 0 < setting.clock.resolution) (hc : ∀ n, consumer n = some 0)
    {read rest : List Arrival} {s : State} (hd : s.deadline = s.now + setting.window.nanos)
    (he : ∀ arrival ∈ read, arrival.item.end? = none)
    (hk : List.IsChain setting.Keeps (s.now :: read.map (·.time)))
    (hn : ∀ arrival ∈ rest.head?,
      setting.timeout ((read.map (·.time)).getLastD s.now) < arrival.time) :
    (follow setting consumer (read ++ rest) s).reason = .livenessExpired setting.window ∧
      (follow setting consumer (read ++ rest) s).time =
        setting.timeout ((read.map (·.time)).getLastD s.now) := by
  have hexpiry : s.expiry setting = setting.timeout s.now := by
    have := le_timeout hclock s.now
    rw [expiry_of_deadline hd]
    omega
  induction read generalizing s with
  | nil =>
    cases rest with
    | nil => exact ⟨rfl, hexpiry⟩
    | cons arrival rest =>
      have hlate : setting.timeout s.now < arrival.time := hn arrival rfl
      have hout : ¬ max s.now arrival.time ≤ s.expiry setting := by omega
      rw [List.nil_append, (expire_of_late _ _ hout).1]
      exact ⟨rfl, hexpiry⟩
  | cons arrival read ih =>
    rw [List.map_cons, List.isChain_cons_cons] at hk
    obtain ⟨⟨hle, hin⟩, hk⟩ := hk
    have hmax : max s.now arrival.time = arrival.time := Nat.max_eq_right hle
    obtain ⟨s', hr, hnow, hdeadline⟩ := receive_of_prompt hc (he arrival List.mem_cons_self)
      (s.at setting arrival)
    have hnow : s'.now = arrival.time := hnow.trans hmax
    have hd' : s'.deadline = s'.now + setting.window.nanos := by
      rw [hdeadline, hnow, ← hmax]
      rfl
    have hin : max s.now arrival.time ≤ s.expiry setting := by
      rw [hmax, hexpiry]
      exact hin
    rw [List.cons_append, (read_of_ok _ hin hr).1, List.map_cons, List.getLastD_cons, ← hnow]
    rw [List.map_cons, List.getLastD_cons] at hn
    refine ih hd' (fun a ha => he a (List.mem_cons_of_mem _ ha)) (hnow ▸ hk) (hnow ▸ hn) ?_
    have := le_timeout hclock s'.now
    rw [expiry_of_deadline hd']
    omega

/-! ## Both halves -/

theorem rel_getLastD_of_isChain {R : Nat → Nat → Prop} {first next : Nat} {times later : List Nat}
    (h : List.IsChain R (first :: (times ++ next :: later))) : R (times.getLastD first) next := by
  induction times generalizing first with
  | nil => exact (List.isChain_cons_cons.mp h).1
  | cons time times ih =>
    rw [List.getLastD_cons]
    exact ih (List.isChain_cons_cons.mp h).2

theorem getLastD_le_lastTime {receipts : List Receipt} (before : Nat)
    (h : ∀ r ∈ receipts, r.arrival.time ≤ r.time) :
    (receipts.map (·.arrival.time)).getLastD before ≤ lastTime before receipts := by
  rw [lastTime]
  induction receipts generalizing before with
  | nil => exact Nat.le_refl _
  | cons r receipts ih =>
    cases receipts with
    | nil => exact h r List.mem_cons_self
    | cons r' receipts =>
      have hrest := ih r.time fun r hr => h r (List.mem_cons_of_mem _ hr)
      simp only [List.map_cons, List.getLastD_cons] at hrest ⊢
      exact hrest

/-- How a receiver judges whether its peer is alive. -/
structure JudgesLiveness (setting : Setting) : Prop where
  /-- A timer fires exactly a window after it was set. -/
  exact : ∀ last, setting.clock.resolution ∣ last + setting.window.nanos →
    setting.timeout last = last + setting.window.nanos
  /-- On a clock that cannot tell this moment apart, it fires at the next one that it can. -/
  coarse : ∀ last, last + setting.window.nanos ≤ setting.timeout last ∧
    setting.timeout last < last + setting.window.nanos + setting.clock.resolution
  /-- However long its texts are held up, a receiver that gives up has read, each after it had come,
  all arrivals that were there by then, and the last of them at least a window before. -/
  sound : ∀ consumer arrivals limit, arrivals.Pairwise (·.time ≤ ·.time) →
    (run setting consumer arrivals).reason = .livenessExpired limit →
      limit = setting.window ∧
      (∀ r ∈ receipts setting consumer arrivals,
        r.arrival.time ≤ r.time ∧ r.time ≤ (run setting consumer arrivals).time) ∧
      (∃ unread, arrivals = (receipts setting consumer arrivals).map (·.arrival) ++ unread ∧
        ∀ arrival ∈ unread, (run setting consumer arrivals).time < arrival.time) ∧
      lastTime 0 (receipts setting consumer arrivals) + setting.window.nanos ≤
        (run setting consumer arrivals).time
  /-- If its texts are taken at once and nothing ends the socket, a receiver gives up when the timer
  set at an arrival, or at the start, fires with nothing there. -/
  complete : ∀ consumer read rest, (∀ n, consumer n = some 0) →
    (∀ arrival ∈ read, arrival.item.end? = none) →
    List.IsChain setting.Keeps (0 :: read.map (·.time)) →
    (∀ arrival ∈ rest.head?, setting.timeout ((read.map (·.time)).getLastD 0) < arrival.time) →
      (run setting consumer (read ++ rest)).reason = .livenessExpired setting.window ∧
      (run setting consumer (read ++ rest)).time =
        setting.timeout ((read.map (·.time)).getLastD 0)
  /-- While arrivals of any kind come less than a window apart, it does not give up, even if its
  texts are held up: it gives up behind the last of them only, and not within a window of it. -/
  patient : ∀ consumer arrivals limit,
    List.IsChain (fun last next => last ≤ next ∧ next < last + setting.window.nanos)
      (0 :: arrivals.map (·.time)) →
    (run setting consumer arrivals).reason = .livenessExpired limit →
      (receipts setting consumer arrivals).map (·.arrival) = arrivals ∧
      (arrivals.map (·.time)).getLastD 0 + setting.window.nanos ≤
        (run setting consumer arrivals).time

/-- **Liveness is judged soundly and on time**, on any clock. -/
theorem judgesLiveness (setting : Setting) (hclock : 0 < setting.clock.resolution) :
    JudgesLiveness setting where
  exact last h := Clock.wake_of_dvd hclock h
  coarse last := ⟨le_timeout hclock last, Clock.wake_lt hclock _⟩
  sound consumer arrivals limit ho h := by
    have hup := givenUp_of_run h
    obtain ⟨rest, he, hnext⟩ := hup.rest
    have hlast := le_timeout hclock (lastTime 0 (receipts setting consumer arrivals))
    refine ⟨?_, hup.inTime, ⟨rest, he, fun arrival ha => ?_⟩, Nat.le_trans hlast hup.fired⟩
    · exact SessionEnd.livenessExpired.inj (h.symm.trans hup.reason)
    · -- what was not read is no earlier than the first that was not
      obtain ⟨first, later, rfl⟩ := List.exists_cons_of_ne_nil (List.ne_nil_of_mem ha)
      have hfirst := hnext first rfl
      rw [he, List.pairwise_append, List.pairwise_cons] at ho
      rcases List.mem_cons.mp ha with rfl | ha
      · exact hfirst
      · exact Nat.lt_of_lt_of_le hfirst (ho.2.1.1 arrival ha)
  complete consumer read rest hc he hk hn :=
    follow_of_steady hclock hc (Nat.zero_add _).symm he hk hn
  patient consumer arrivals limit hk h := by
    have hup := givenUp_of_run h
    obtain ⟨rest, he, hnext⟩ := hup.rest
    have hfired := hup.fired
    have hbehind := getLastD_le_lastTime 0 fun r hr => (hup.inTime r hr).1
    have htimeout := le_timeout hclock (lastTime 0 (receipts setting consumer arrivals))
    cases rest with
    | nil =>
      rw [List.append_nil] at he
      refine ⟨he.symm, ?_⟩
      have htimes : arrivals.map (·.time) =
          (receipts setting consumer arrivals).map (·.arrival.time) := by
        conv_lhs => rw [he, List.map_map]
        rfl
      rw [htimes]
      omega
    | cons next later =>
      -- the next arrival would have been there in time
      rw [he, List.map_append, List.map_map, List.map_cons] at hk
      have hsoon := (rel_getLastD_of_isChain hk).2
      have hlate : (run setting consumer arrivals).time < next.time := hnext next rfl
      change next.time < ((receipts setting consumer arrivals).map (·.arrival.time)).getLastD 0 + _
        at hsoon
      omega

/-- Pongs less than a window apart keep a receiver alive past its first deadline; it gives up a
window after the last. -/
theorem judgesLiveness_of_pongs :
    let setting : Setting := ⟨.millis, .ofSeconds 3⟩
    let consumer : Consumer := fun _ => some 0
    let pongs : List Arrival := [2, 4, 6, 8].map fun n => ⟨(Duration.ofSeconds n).nanos, .pong⟩
    0 < setting.clock.resolution ∧ JudgesLiveness setting ∧
      (run setting consumer pongs).reason = .livenessExpired (.ofSeconds 3) ∧
      (run setting consumer pongs).time = (Duration.ofSeconds 11).nanos :=
  ⟨by decide, judgesLiveness _ (by decide), rfl, rfl⟩

end LedgerClient.Receiver
