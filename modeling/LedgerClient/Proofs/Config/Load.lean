import LedgerClient.Config.Load

/-!
# Which configurations have settings

The interval of pings that follows a liveness window is worked out from nine windows, also where
another interval is set. So a configuration has settings just if nine of its windows can be held
(`isSome_settings?_iff`), whatever else it says, and all that is done with configurations breaks off
just on those that have none.
-/

namespace LedgerClient

/-! ## The longest window -/

/-- The most seconds that a liveness window may have for nine of it to be a duration. -/
def Config.longestWindow : UInt64 := 2049638230412172401

theorem Connection.Settings.isSome_pingIntervalOf?_iff (n : UInt64) :
    (pingIntervalOf? (.ofSeconds n.toNat)).isSome = true ↔ n ≤ Config.longestWindow := by
  have hheld : (⟨n.toNat * Duration.perSecond * 9⟩ : Duration).isHeld = true ↔
      n.toNat ≤ 2049638230412172401 := by
    rw [Duration.isHeld, decide_eq_true_iff]
    simp only [Duration.limit, Duration.perSecond, UInt64.size]
    omega
  have hle : n ≤ Config.longestWindow ↔ n.toNat ≤ 2049638230412172401 := UInt64.le_iff_toNat_le
  rw [hle, ← hheld, pingIntervalOf?, Option.isSome_ite]
  rfl

namespace Config

theorem isSome_settings?_iff (c : Config) :
    c.settings?.isSome = true ↔ c.remote.livenessWindow ≤ longestWindow := by
  simp only [settings?, Connection.Settings.withLivenessWindow?, Option.isSome_map, seconds,
    Connection.Settings.isSome_pingIntervalOf?_iff]

theorem isSome_checked?_iff (c : Config) :
    c.checked?.isSome = true ↔ c.remote.livenessWindow ≤ longestWindow := by
  rw [checked?, Option.isSome_map, isSome_settings?_iff]

/-! ## The layers -/

/-- The configuration that the variables are laid over: that of the file, if one is named. -/
def beneath (files : Files) (environment : Environment) : Except ConfigError Config :=
  match environment fileVariable with
  | none => .ok default
  | some name => ofFile files name

theorem layered_eq (files : Files) (environment : Environment) :
    layered files environment = (beneath files environment).map (override environment) := by
  unfold layered beneath
  cases environment fileVariable <;> rfl

/-- The liveness window in seconds: the variable goes before what is beneath it. -/
def windowOf (environment : Environment) (c : Config) : UInt64 :=
  (environment.number? "XRPL_REMOTE_LIVENESS_WINDOW").getD c.remote.livenessWindow

theorem livenessWindow_override (environment : Environment) (c : Config) :
    (c.override environment).remote.livenessWindow = windowOf environment c := rfl

theorem load?_of_error {files : Files} {environment : Environment} {e : ConfigError}
    (h : beneath files environment = .error e) : load? files environment = some (.error e) := by
  rw [load?, layered_eq, h]
  rfl

theorem load?_of_ok {files : Files} {environment : Environment} {c : Config}
    (h : beneath files environment = .ok c) :
    load? files environment = (c.override environment).checked? := by
  rw [load?, layered_eq, h]
  rfl

/-- **Loading and checking a configuration and making settings of it come to an answer** just if the
liveness window that is set in the end is not too long. -/
theorem answersUnlessWindowTooLong (files : Files) (environment : Environment) :
    ((load? files environment).isSome = true ↔
      ∀ c, beneath files environment = .ok c → windowOf environment c ≤ longestWindow) ∧
    ((ofEnvironment environment).checked?.isSome = true ↔
      windowOf environment default ≤ longestWindow) ∧
    ∀ c : Config, c.settings?.isSome = true ↔ c.remote.livenessWindow ≤ longestWindow := by
  refine ⟨?_, ?_, isSome_settings?_iff⟩
  · cases h : beneath files environment with
    | error e => simp [load?_of_error h]
    | ok c =>
      rw [load?_of_ok h, isSome_checked?_iff, livenessWindow_override]
      simp
  · rw [isSome_checked?_iff, ofEnvironment, livenessWindow_override]

/-- A window that is one second too long leaves nothing that could be answered, although an interval
of pings is set that would do. -/
theorem unanswered_by_long_window :
    let environment : Environment := fun name =>
      if name = "XRPL_REMOTE_LIVENESS_WINDOW" then some "2049638230412172402"
      else if name = "XRPL_REMOTE_PING_INTERVAL" then some "54" else none
    load? .empty environment = none ∧ (ofEnvironment environment).checked? = none ∧
      (ofEnvironment environment).settings? = none := by
  decide +kernel

end Config

end LedgerClient
