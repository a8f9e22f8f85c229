import LedgerClient.Proofs.Config.Load
import LedgerClient.Proofs.Connection.Settings

/-!
# Which configurations are usable

A configuration with a window that is not too long passes its check just if it is `Usable`: none of
the numbers that must not be zero is, and an interval of pings that is set lies between zero and the
window. An interval that follows the window lies there for any window that is not zero
(`acceptsUsable`).
-/

namespace LedgerClient.Config

/-- What a configuration has to be to pass its check, in the numbers that a user sets. -/
structure Usable (c : Config) : Prop where
  connects : c.remote.connectTimeout ≠ 0
  writes : c.remote.writeTimeout ≠ 0
  intake : c.remote.outgoingCapacity ≠ 0
  events : c.remote.streamCapacity ≠ 0
  window : c.remote.livenessWindow ≠ 0
  pings : ∀ n, c.remote.pingInterval = some n → 0 < n ∧ n < c.remote.livenessWindow

/-- The interval of pings: nine tenths of the window unless one is set. -/
def pings (c : Config) : Duration :=
  (c.remote.pingInterval.map seconds).getD ⟨(seconds c.remote.livenessWindow).nanos * 9 / 10⟩

theorem le_longestWindow_iff (n : UInt64) : n ≤ longestWindow ↔ n.toNat * 9 < UInt64.size := by
  have hle : n ≤ longestWindow ↔ n.toNat ≤ 2049638230412172401 := UInt64.le_iff_toNat_le
  simp only [hle, UInt64.size]
  omega

theorem nanos_seconds (n : UInt64) : (seconds n).nanos = n.toNat * Duration.perSecond := rfl

theorem isHeld_of_window {n : UInt64} (h : n ≤ longestWindow) :
    (⟨(seconds n).nanos * 9⟩ : Duration).isHeld = true := by
  have hsome := (Connection.Settings.isSome_pingIntervalOf?_iff n).mpr h
  rw [Connection.Settings.pingIntervalOf?, Option.isSome_ite] at hsome
  exact hsome

theorem settings?_of_window {c : Config} (h : c.remote.livenessWindow ≤ longestWindow) :
    ∃ s, c.settings? = some s ∧
      s.livenessWindow = seconds c.remote.livenessWindow ∧ s.pingInterval = c.pings ∧
      s.connectTimeout = seconds c.remote.connectTimeout ∧
      s.writeTimeout = seconds c.remote.writeTimeout ∧
      s.outgoingCapacity = c.remote.outgoingCapacity.toNat ∧
      s.streamCapacity = c.remote.streamCapacity.toNat := by
  simp only [settings?, Connection.Settings.withLivenessWindow?,
    Connection.Settings.pingIntervalOf?_of_isHeld (isHeld_of_window h), Option.map_some]
  exact ⟨_, rfl, rfl, rfl, rfl, rfl, rfl, rfl⟩

theorem pos_toNat_iff (n : UInt64) : 0 < n.toNat ↔ n ≠ 0 := by
  have hzero : n ≠ 0 ↔ n.toNat ≠ 0 := not_congr UInt64.toNat_inj.symm
  rw [hzero, Nat.pos_iff_ne_zero]

theorem pos_seconds_iff (n : UInt64) : 0 < (seconds n).nanos ↔ n ≠ 0 := by
  have hpos : 0 < n.toNat * Duration.perSecond ↔ 0 < n.toNat :=
    Nat.mul_pos_iff_of_pos_right (by decide)
  exact hpos.trans (pos_toNat_iff n)

theorem pings_between_iff (c : Config) :
    (0 < c.pings.nanos ∧ c.pings.nanos < (seconds c.remote.livenessWindow).nanos) ↔
      c.remote.livenessWindow ≠ 0 ∧
        ∀ n, c.remote.pingInterval = some n → 0 < n ∧ n < c.remote.livenessWindow := by
  rw [← pos_toNat_iff]
  cases hping : c.remote.pingInterval with
  | none =>
    simp only [pings, hping, Option.map_none, Option.getD_none, nanos_seconds, Duration.perSecond,
      reduceCtorEq, false_implies, implies_true, and_true]
    omega
  | some n =>
    have hzero : (0 : UInt64).toNat = 0 := rfl
    simp only [pings, hping, Option.map_some, Option.getD_some, nanos_seconds, Duration.perSecond,
      Option.some.injEq, forall_eq', UInt64.lt_iff_toNat_lt, hzero]
    omega

theorem sound_iff_usable {c : Config} {s : Connection.Settings} (hs : c.settings? = some s)
    (h : c.remote.livenessWindow ≤ longestWindow) : s.Sound ↔ c.Usable := by
  obtain ⟨s', hs', hwindow, hping, hconnect, hwrite, hintake, hevents⟩ := settings?_of_window h
  obtain rfl : s' = s := Option.some.inj (hs'.symm.trans hs)
  have hpings := pings_between_iff c
  constructor
  · intro sound
    obtain ⟨hpos, hset⟩ := hpings.mp ⟨hping ▸ sound.pings, by
      rw [← hping, ← hwindow]
      exact sound.pings_lt⟩
    exact {
      connects := (pos_seconds_iff _).mp (hconnect ▸ sound.connects)
      writes := (pos_seconds_iff _).mp (hwrite ▸ sound.writes)
      intake := (pos_toNat_iff _).mp (hintake ▸ sound.intake)
      events := (pos_toNat_iff _).mp (hevents ▸ sound.events)
      window := hpos
      pings := hset }
  · intro usable
    obtain ⟨hpos, hlt⟩ := hpings.mpr ⟨usable.window, usable.pings⟩
    exact {
      pings := hping ▸ hpos
      pings_lt := by
        rw [hping, hwindow]
        exact hlt
      writes := hwrite ▸ (pos_seconds_iff _).mpr usable.writes
      connects := hconnect ▸ (pos_seconds_iff _).mpr usable.connects
      intake := hintake ▸ (pos_toNat_iff _).mpr usable.intake
      events := hevents ▸ (pos_toNat_iff _).mpr usable.events }

theorem checked?_eq_ok_iff {c : Config} {s : Connection.Settings} :
    c.checked? = some (.ok (c, s)) ↔ c.settings? = some s ∧ s.check = .ok () := by
  simp only [checked?, Option.map_eq_some_iff]
  constructor
  · rintro ⟨s', hs, hverdict⟩
    split at hverdict
    · cases hverdict
    · rename_i hok
      obtain rfl : s' = s := congrArg Prod.snd (Except.ok.inj hverdict)
      exact ⟨hs, hok⟩
  · rintro ⟨hs, hok⟩
    exact ⟨s, hs, by rw [hok]⟩

theorem checked?_eq_error_iff {c : Config} {cause : ConnectError} :
    c.checked? = some (.error (.invalid cause)) ↔
      ∃ s, c.settings? = some s ∧ s.check = .error cause := by
  simp only [checked?, Option.map_eq_some_iff]
  constructor
  · rintro ⟨s, hs, hverdict⟩
    split at hverdict
    · rename_i other hother
      have heq := Except.error.inj hverdict
      simp only [ConfigError.invalid.injEq] at heq
      exact ⟨s, hs, heq ▸ hother⟩
    · cases hverdict
  · rintro ⟨s, hs, hbad⟩
    exact ⟨s, hs, by rw [hbad]⟩

/-- **The check accepts just the usable configurations**, and the interval of pings that follows a
liveness window is never what it refuses: it is nine tenths of the window, rounded down to a
nanosecond, which is worked out on seconds and nanoseconds with their carries. -/
theorem acceptsUsable :
    (∀ (s : Connection.Settings) (window : Duration), 2 ≤ window.nanos →
      (⟨window.nanos * 9⟩ : Duration).isHeld = true →
      ∃ s', s.withLivenessWindow? window = some s' ∧
        s' = { s with livenessWindow := window, pingInterval := ⟨window.nanos * 9 / 10⟩ } ∧
        s'.pingInterval.parts =
          Duration.overParts 10 (Duration.timesParts 9 window.parts) ∧
        0 < s'.pingInterval.nanos ∧ s'.pingInterval.nanos < s'.livenessWindow.nanos) ∧
    ∀ c : Config, c.remote.livenessWindow.toNat * 9 < UInt64.size →
      c.checked?.isSome = true ∧
      ((∃ s, c.checked? = some (.ok (c, s))) ↔ c.Usable) ∧
      (c.remote.pingInterval = none → c.remote.livenessWindow ≠ 0 →
        ∀ e ∈ Connection.Settings.pingComplaints,
          c.checked? ≠ some (.error (.invalid e))) := by
  constructor
  · intro s window hwindow hheld
    have hpings := Connection.Settings.pingIntervalOf?_of_isHeld hheld
    have hparts := Connection.Settings.parts_pingIntervalOf? window
    rw [hpings, Option.map_some] at hparts
    split at hparts
    · refine ⟨_, by rw [Connection.Settings.withLivenessWindow?, hpings, Option.map_some], rfl,
        Option.some.inj hparts, ?_, ?_⟩
      · show 0 < window.nanos * 9 / 10
        omega
      · show window.nanos * 9 / 10 < window.nanos
        omega
    · cases hparts
  · intro c hnine
    have hlong := (le_longestWindow_iff _).mpr hnine
    obtain ⟨s, hs, hwindow, hping, -⟩ := settings?_of_window hlong
    have hcheck : s.check = .ok () ↔ c.Usable :=
      Connection.Settings.check_eq_ok_iff.trans (sound_iff_usable hs hlong)
    refine ⟨(isSome_checked?_iff c).mpr hlong, ?_, ?_⟩
    · rw [← hcheck]
      constructor
      · rintro ⟨s', hs'⟩
        obtain ⟨hsome, hok⟩ := checked?_eq_ok_iff.mp hs'
        obtain rfl := Option.some.inj (hsome.symm.trans hs)
        exact hok
      · intro hok
        exact ⟨s, checked?_eq_ok_iff.mpr ⟨hs, hok⟩⟩
    · intro hunset hpos e he hrefused
      obtain ⟨s', hs', hbad⟩ := checked?_eq_error_iff.mp hrefused
      obtain rfl := Option.some.inj (hs'.symm.trans hs)
      have hbetween := (pings_between_iff c).mpr ⟨hpos, by simp [hunset]⟩
      rw [← hping, ← hwindow] at hbetween
      exact Connection.Settings.complains_of_pings_iff.mp ⟨e, he, hbad⟩ hbetween

/-- A window of two nanoseconds, of which one is nine tenths, and the longest window, in which the
seconds carry. -/
theorem acceptsUsable_of_longest_window :
    let c : Config :=
      { default with remote := { Remote.default with livenessWindow := longestWindow } }
    (∃ s', (Connection.Settings.ofEndpoint "ws://h").withLivenessWindow? ⟨2⟩ = some s' ∧
      s'.pingInterval = ⟨1⟩) ∧
    (∃ s, c.checked? = some (.ok (c, s))) ∧
    ∀ e ∈ Connection.Settings.pingComplaints, c.checked? ≠ some (.error (.invalid e)) := by
  intro c
  obtain ⟨s', hs', heq, -⟩ :=
    acceptsUsable.1 (.ofEndpoint "ws://h") ⟨2⟩ (by decide) (by decide)
  obtain ⟨-, hok, hpings⟩ := acceptsUsable.2 c (by decide)
  have hone : s'.pingInterval = ⟨2 * 9 / 10⟩ := congrArg Connection.Settings.pingInterval heq
  refine ⟨⟨s', hs', hone⟩, hok.mpr ?_, hpings rfl (by decide)⟩
  exact {
    connects := by decide
    writes := by decide
    intake := by decide
    events := by decide
    window := by decide
    pings := by simp [c, Remote.default] }

end LedgerClient.Config
