/-!
# What a run leaves behind

A run folds its moments over a state. `trail` is what it leaves on the way: what each moment brings
about in the state in which it happens, in order.
-/

namespace LedgerClient

variable {σ μ α : Type}

/-- What the moments of a run leave behind, in order. -/
def trail (live : σ → μ → σ) (leaves : σ → μ → List α) : σ → List μ → List α
  | _, [] => []
  | s, m :: moments => leaves s m ++ trail live leaves (live s m) moments

variable {live : σ → μ → σ} {leaves : σ → μ → List α}

theorem trail_append (s : σ) (earlier later : List μ) :
    trail live leaves s (earlier ++ later) =
      trail live leaves s earlier ++ trail live leaves (earlier.foldl live s) later := by
  induction earlier generalizing s with
  | nil => rfl
  | cons m earlier ih =>
    rw [List.cons_append, trail, trail, ih, List.append_assoc]
    rfl

theorem trail_concat (s : σ) (moments : List μ) (m : μ) :
    trail live leaves s (moments ++ [m]) =
      trail live leaves s moments ++ leaves (moments.foldl live s) m := by
  rw [trail_append, trail, trail, List.append_nil]

theorem trail_prefix (s : σ) (earlier later : List μ) :
    trail live leaves s earlier <+: trail live leaves s (earlier ++ later) := by
  rw [trail_append]
  exact List.prefix_append _ _

end LedgerClient
