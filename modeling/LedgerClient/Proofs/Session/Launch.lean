import LedgerClient.Proofs.Connection.Settings
import LedgerClient.Session.Launch

/-!
# What keeps a session from being launched

A session is launched just if its queues are neither empty nor too large, pings have an interval,
and the first ping and the first deadline can be told (`launch?_eq_some_iff`). A check of the
settings sees to the lower limits only. With settings that pass it, the upper ones decide
(`launchedUnlessTooLarge`).
-/

namespace LedgerClient

variable {r : Runtime} {settings : Connection.Settings} {writing reading : Nat} {l : Launched}

/-! ## What a runtime makes -/

namespace Runtime

theorem queue?_eq_some_iff {α : Type} {capacity : Nat} {m : Mailbox α} :
    r.queue? capacity = some m ↔
      (0 < capacity ∧ capacity ≤ Session.maxCapacity) ∧ m = .bounded capacity := by
  rw [queue?, Option.ite_none_right_eq_some, Option.some.injEq, r.makesQueue_iff]
  exact and_congr_right' eq_comm

theorem later?_eq_some_iff {t t' : Nat} {d : Duration} :
    r.later? t d = some t' ↔ r.tells (t + d.nanos) = true ∧ t' = t + d.nanos := by
  rw [later?, Option.ite_none_right_eq_some, Option.some.injEq]
  exact and_congr_right' eq_comm

theorem ticker?_eq_some_iff {first : Nat} {period : Duration} {ticker : Ticker} :
    r.ticker? first period = some ticker ↔ 0 < period.nanos ∧ ticker = ⟨first, period⟩ := by
  rw [ticker?, Option.ite_none_right_eq_some, Option.some.injEq, r.makesTicker_iff]
  exact and_congr_right' eq_comm

end Runtime

/-! ## What a session needs -/

theorem innerCapacity_le : innerCapacity ≤ Session.maxCapacity := by decide

theorem Session.launch?_eq_some_iff :
    launch? r settings writing reading = some l ↔
      (0 < settings.outgoingCapacity ∧ settings.outgoingCapacity ≤ maxCapacity) ∧
      (0 < settings.streamCapacity ∧ settings.streamCapacity ≤ maxCapacity) ∧
      0 < settings.pingInterval.nanos ∧
      r.tells (writing + settings.pingInterval.nanos) = true ∧
      r.tells (reading + settings.livenessWindow.nanos) = true ∧
      l = .of settings writing reading := by
  have hinner : 0 < innerCapacity ∧ innerCapacity ≤ maxCapacity := ⟨by decide, innerCapacity_le⟩
  simp only [launch?, Option.bind_eq_bind, Option.bind_eq_some_iff, Runtime.queue?_eq_some_iff,
    Runtime.later?_eq_some_iff, Runtime.ticker?_eq_some_iff, Option.pure_def, Option.some.injEq]
  constructor
  · rintro ⟨_, ⟨hintake, rfl⟩, _, ⟨hevents, rfl⟩, _, ⟨-, rfl⟩, _, ⟨-, rfl⟩, _, ⟨hdeadline, rfl⟩, _,
      ⟨hfirst, rfl⟩, _, ⟨hpings, rfl⟩, rfl⟩
    exact ⟨hintake, hevents, hpings, hfirst, hdeadline, rfl⟩
  · rintro ⟨hintake, hevents, hpings, hfirst, hdeadline, rfl⟩
    exact ⟨_, ⟨hintake, rfl⟩, _, ⟨hevents, rfl⟩, _, ⟨hinner, rfl⟩, _, ⟨hinner, rfl⟩, _,
      ⟨hdeadline, rfl⟩, _, ⟨hfirst, rfl⟩, _, ⟨hpings, rfl⟩, rfl⟩

theorem Session.launch?_standard (now : Nat) :
    (launch? .standard settings now now).map (·.session) = start? now settings := by
  have htells (d : Duration) : Runtime.standard.tells (now + d.nanos) = true ↔
      now + d.nanos < endOfTime := decide_eq_true_iff
  ext session
  simp only [Option.map_eq_some_iff, launch?_eq_some_iff, htells, start?,
    Option.ite_none_right_eq_some, Option.some.injEq]
  constructor
  · rintro ⟨_, ⟨⟨hintake, hroom⟩, ⟨hevents, hroom'⟩, hpings, hfirst, hdeadline, rfl⟩, rfl⟩
    exact ⟨⟨hintake, hroom, hevents, hroom', hpings, hfirst, hdeadline⟩, rfl⟩
  · rintro ⟨⟨hintake, hroom, hevents, hroom', hpings, hfirst, hdeadline⟩, rfl⟩
    exact ⟨_, ⟨⟨hintake, hroom⟩, ⟨hevents, hroom'⟩, hpings, hfirst, hdeadline, rfl⟩, rfl⟩

/-! ## Settings that pass their check -/

theorem Connection.Settings.Sound.tells_first_ping (h : settings.Sound) {t : Nat}
    (ht : r.tells (t + settings.livenessWindow.nanos) = true) :
    r.tells (t + settings.pingInterval.nanos) = true :=
  r.tells_of_le (Nat.add_le_add_left (Nat.le_of_lt h.pings_lt) t) ht

/-- **A session whose settings pass their check is launched unless its queues are too large** or the
end of a liveness window cannot be told any more when the writer and the reader begin. -/
theorem Session.launchedUnlessTooLarge (r : Runtime) (settings : Connection.Settings)
    (writing reading : Nat) (h : settings.check = .ok ()) :
    (settings.outgoingCapacity ≤ maxCapacity → settings.streamCapacity ≤ maxCapacity →
      r.tells (writing + settings.livenessWindow.nanos) = true →
      r.tells (reading + settings.livenessWindow.nanos) = true →
      launch? r settings writing reading = some (.of settings writing reading)) ∧
    ((launch? r settings writing reading).isSome = true →
      settings.outgoingCapacity ≤ maxCapacity ∧ settings.streamCapacity ≤ maxCapacity ∧
      r.tells (writing + settings.pingInterval.nanos) = true ∧
      r.tells (reading + settings.livenessWindow.nanos) = true) := by
  have hsound := Connection.Settings.check_eq_ok_iff.mp h
  constructor
  · intro hintake hevents hwriting hreading
    exact launch?_eq_some_iff.mpr ⟨⟨hsound.intake, hintake⟩, ⟨hsound.events, hevents⟩, hsound.pings,
      hsound.tells_first_ping hwriting, hreading, rfl⟩
  · intro hsome
    obtain ⟨l, hl⟩ := Option.isSome_iff_exists.mp hsome
    obtain ⟨⟨-, hintake⟩, ⟨-, hevents⟩, -, hfirst, hdeadline, -⟩ := launch?_eq_some_iff.mp hl
    exact ⟨hintake, hevents, hfirst, hdeadline⟩

/-- The settings that are made for an endpoint pass their check, and their session is launched. -/
theorem Session.launchedUnlessTooLarge_of_defaults :
    let settings := Connection.Settings.ofEndpoint Connection.defaultEndpoint
    settings.check = .ok () ∧
      launch? .standard settings 1000 500 = some (.of settings 1000 500) :=
  ⟨rfl, (launchedUnlessTooLarge .standard _ 1000 500 rfl).1 (by decide) (by decide) (by decide)
    (by decide)⟩

/-- A queue may be too large, and a liveness window too long, for settings that pass their
check. -/
theorem Session.notLaunched_though_checked :
    let settings := Connection.Settings.ofEndpoint Connection.defaultEndpoint
    let large := { settings with outgoingCapacity := 1 <<< 61 }
    let long := { settings with livenessWindow := .ofSeconds (1 <<< 63) }
    (large.check = .ok () ∧ launch? .standard large 0 0 = none) ∧
      long.check = .ok () ∧ launch? .standard long 0 0 = none :=
  ⟨⟨rfl, by decide⟩, rfl, by decide⟩

end LedgerClient
