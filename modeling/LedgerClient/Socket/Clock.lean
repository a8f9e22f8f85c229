/-!
# Clocks

Time is counted in nanoseconds from the start of a session. A timer fires no earlier than its
deadline, at the next moment that its clock can tell apart.
-/

namespace LedgerClient

/-- A clock by the nanoseconds between two moments that it tells apart. -/
structure Clock where
  resolution : Nat
deriving DecidableEq, Repr

namespace Clock

/-- A clock whose timers fire at their deadlines. -/
def exact : Clock := ⟨1⟩

def millis : Clock := ⟨1000000⟩

def wake (clock : Clock) (deadline : Nat) : Nat :=
  (deadline + (clock.resolution - 1)) / clock.resolution * clock.resolution

theorem wake_exact (deadline : Nat) : exact.wake deadline = deadline := by
  simp [wake, exact]

theorem le_wake {clock : Clock} (h : 0 < clock.resolution) (deadline : Nat) :
    deadline ≤ clock.wake deadline := by
  rw [wake]
  have hdiv := Nat.div_add_mod (deadline + (clock.resolution - 1)) clock.resolution
  have hmod := Nat.mod_lt (deadline + (clock.resolution - 1)) h
  rw [Nat.mul_comm] at hdiv
  omega

theorem wake_lt {clock : Clock} (h : 0 < clock.resolution) (deadline : Nat) :
    clock.wake deadline < deadline + clock.resolution := by
  have hle := Nat.div_mul_le_self (deadline + (clock.resolution - 1)) clock.resolution
  rw [wake]
  omega

theorem wake_of_dvd {clock : Clock} (h : 0 < clock.resolution) {deadline : Nat}
    (hd : clock.resolution ∣ deadline) : clock.wake deadline = deadline := by
  obtain ⟨ticks, rfl⟩ := hd
  rw [wake, Nat.mul_add_div h, Nat.div_eq_of_lt (Nat.sub_lt h Nat.one_pos), Nat.add_zero,
    Nat.mul_comm]

theorem wake_wake (clock : Clock) (deadline : Nat) :
    clock.wake (clock.wake deadline) = clock.wake deadline := by
  rcases Nat.eq_zero_or_pos clock.resolution with hz | hpos
  · simp [wake, hz]
  · exact wake_of_dvd hpos (Nat.dvd_mul_left _ _)

end Clock

end LedgerClient
