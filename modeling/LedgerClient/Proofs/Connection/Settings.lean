import LedgerClient.Connection.Settings
import Mathlib.Tactic.SplitIfs

/-!
# Settings that pass their check

A check of settings looks at the zero limits and at the interval of pings against the liveness
window, one after the other. It passes just if none of its complaints applies. The interval that
follows a window is worked out as it is by hand, on seconds and nanoseconds with their carries; it
is never one that the check complains about.
-/

namespace LedgerClient

namespace Duration

theorem isZero_iff {d : Duration} : d.isZero = true ↔ d.nanos = 0 := beq_iff_eq

/-! ## Seconds and nanoseconds -/

/-- A number of seconds and nanoseconds so many times: whole seconds among the nanoseconds are
carried. -/
def timesParts (factor : Nat) (d : Nat × Nat) : Nat × Nat :=
  (d.1 * factor + d.2 * factor / perSecond, d.2 * factor % perSecond)

/-- A number of seconds and nanoseconds in so many parts: the seconds that are left over are carried
to the nanoseconds. -/
def overParts (divisor : Nat) (d : Nat × Nat) : Nat × Nat :=
  (d.1 / divisor, d.2 / divisor + (d.1 % divisor * perSecond + d.2 % divisor) / divisor)

def parts (d : Duration) : Nat × Nat := (d.seconds, d.subsecond)

theorem nanos_eq (d : Duration) : d.nanos = perSecond * d.seconds + d.subsecond :=
  (Nat.div_add_mod d.nanos perSecond).symm

theorem subsecond_lt (d : Duration) : d.subsecond < perSecond := Nat.mod_lt _ (by decide)

theorem parts_eq {d : Duration} {seconds nanos : Nat} (hlt : nanos < perSecond)
    (hd : d.nanos = perSecond * seconds + nanos) : d.parts = (seconds, nanos) := by
  have hpos : 0 < perSecond := by decide
  have hseconds : d.nanos / perSecond = seconds := by
    rw [hd, Nat.mul_add_div hpos, Nat.div_eq_of_lt hlt, Nat.add_zero]
  have hnanos : d.nanos % perSecond = nanos := by
    rw [hd, Nat.mul_add_mod, Nat.mod_eq_of_lt hlt]
  exact Prod.ext hseconds hnanos

theorem parts_times (factor : Nat) (d : Duration) :
    (⟨d.nanos * factor⟩ : Duration).parts = timesParts factor d.parts := by
  refine parts_eq (Nat.mod_lt _ (by decide)) ?_
  show d.nanos * factor = perSecond * (d.seconds * factor + d.subsecond * factor / perSecond) +
    d.subsecond * factor % perSecond
  have hcarry := Nat.div_add_mod (d.subsecond * factor) perSecond
  rw [nanos_eq d, Nat.add_mul, Nat.mul_add, Nat.mul_assoc, Nat.add_assoc, hcarry]

theorem parts_over {divisor : Nat} (hpos : 0 < divisor) (d : Duration) :
    (⟨d.nanos / divisor⟩ : Duration).parts = overParts divisor d.parts := by
  have hseconds := Nat.div_add_mod d.seconds divisor
  have hnanos := Nat.div_add_mod d.subsecond divisor
  have hlt := subsecond_lt d
  have hleft : d.seconds % divisor < divisor := Nat.mod_lt _ hpos
  -- all of the duration, less the seconds that divide without a rest
  have hrest : d.nanos = divisor * (perSecond * (d.seconds / divisor) + d.subsecond / divisor) +
      (d.seconds % divisor * perSecond + d.subsecond % divisor) := by
    calc d.nanos
        = perSecond * (divisor * (d.seconds / divisor) + d.seconds % divisor) +
            (divisor * (d.subsecond / divisor) + d.subsecond % divisor) := by
          rw [hseconds, hnanos, nanos_eq d]
      _ = _ := by
          rw [Nat.mul_add, Nat.mul_add, Nat.mul_left_comm, Nat.mul_comm perSecond (_ % _)]
          omega
  have hover : d.nanos / divisor = perSecond * (d.seconds / divisor) + (d.subsecond / divisor +
      (d.seconds % divisor * perSecond + d.subsecond % divisor) / divisor) := by
    rw [hrest, Nat.mul_add_div hpos, Nat.add_assoc]
  refine parts_eq ?_ hover
  -- with one second less than `divisor` left over there is less than one second in a part
  have hsmall : divisor * (d.subsecond / divisor) +
      (d.seconds % divisor * perSecond + d.subsecond % divisor) < divisor * perSecond := by
    have hfull : (d.seconds % divisor + 1) * perSecond ≤ divisor * perSecond :=
      Nat.mul_le_mul_right _ hleft
    rw [Nat.add_mul, Nat.one_mul] at hfull
    omega
  rw [← Nat.mul_add_div hpos]
  exact Nat.div_lt_of_lt_mul hsmall

theorem isHeld_iff (d : Duration) : d.isHeld = true ↔ d.parts.1 < UInt64.size := by
  have hle : d.isHeld = true ↔ d.nanos ≤ UInt64.size * perSecond - 1 := decide_eq_true_iff
  have hdiv : d.nanos / perSecond < UInt64.size ↔ d.nanos < UInt64.size * perSecond :=
    Nat.div_lt_iff_lt_mul (by decide)
  have hpos : 0 < UInt64.size * perSecond := by decide
  rw [hle]
  show _ ↔ d.nanos / perSecond < UInt64.size
  rw [hdiv]
  omega

end Duration

namespace Connection.Settings

/-! ## The interval that follows a window -/

/-- The interval of pings that follows a window, on seconds and nanoseconds: there is one just if
nine times the seconds, with what is carried to them, fit 64 bits. -/
theorem parts_pingIntervalOf? (window : Duration) :
    (pingIntervalOf? window).map Duration.parts =
      if (Duration.timesParts 9 window.parts).1 < UInt64.size then
        some (Duration.overParts 10 (Duration.timesParts 9 window.parts))
      else none := by
  have hheld := Duration.isHeld_iff ⟨window.nanos * 9⟩
  rw [Duration.parts_times] at hheld
  simp only [pingIntervalOf?, hheld]
  split
  · rw [Option.map_some, Duration.parts_over (by decide), Duration.parts_times]
  · rfl

theorem pingIntervalOf?_of_isHeld {window : Duration}
    (h : (⟨window.nanos * 9⟩ : Duration).isHeld = true) :
    pingIntervalOf? window = some ⟨window.nanos * 9 / 10⟩ := if_pos h

/-! ## What the check complains about -/

/-- Settings that pass their check. -/
structure Sound (s : Settings) : Prop where
  pings : 0 < s.pingInterval.nanos
  /-- A ping goes out before the server has been silent for too long. -/
  pings_lt : s.pingInterval.nanos < s.livenessWindow.nanos
  writes : 0 < s.writeTimeout.nanos
  connects : 0 < s.connectTimeout.nanos
  intake : 0 < s.outgoingCapacity
  events : 0 < s.streamCapacity

theorem check_eq_ok_iff {s : Settings} : s.check = .ok () ↔ s.Sound := by
  constructor
  · intro h
    unfold check at h
    simp only [Duration.isZero_iff] at h
    split_ifs at h with hping hwindow hwrite hconnect hroom
    rw [not_or] at hroom
    exact ⟨by omega, by omega, by omega, by omega, by omega, by omega⟩
  · intro ⟨hping, hwindow, hwrite, hconnect, hintake, hevents⟩
    unfold check
    simp only [Duration.isZero_iff]
    rw [if_neg (by omega), if_neg (by omega), if_neg (by omega), if_neg (by omega),
      if_neg (by omega)]

/-- The two complaints about the interval of pings. -/
def pingComplaints : List ConnectError :=
  [.invalidConfig "ping_interval must be greater than zero",
    .invalidConfig "ping_interval must be shorter than liveness_window"]

theorem complains_of_pings_iff {s : Settings} :
    (∃ e ∈ pingComplaints, s.check = .error e) ↔
      ¬ (0 < s.pingInterval.nanos ∧ s.pingInterval.nanos < s.livenessWindow.nanos) := by
  have hshown (e : ConnectError) : e ∈ pingComplaints ↔
      e = .invalidConfig "ping_interval must be greater than zero" ∨
        e = .invalidConfig "ping_interval must be shorter than liveness_window" := by
    simp [pingComplaints]
  unfold check
  simp only [Duration.isZero_iff, hshown]
  split_ifs with hping hwindow hwrite hconnect hroom
  · exact ⟨fun _ => by omega, fun _ => ⟨_, .inl rfl, rfl⟩⟩
  · exact ⟨fun _ => by omega, fun _ => ⟨_, .inr rfl, rfl⟩⟩
  all_goals
    refine ⟨fun ⟨e, he, heq⟩ => ?_, fun hnot => absurd ⟨by omega, by omega⟩ hnot⟩
    rcases he with rfl | rfl <;> simp at heq

end Connection.Settings

end LedgerClient
