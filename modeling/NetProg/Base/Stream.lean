/-
# NetProg.Base.Stream -- a system that takes its events from an infinite stream.

`sys.along o k` is the state after the first `k` events of `o`; an event that is not enabled changes nothing, so
that a state without a step is kept for ever (`along_of_stuck`).  With the kernel's answers as the stream, a
loop ends on it when some `along o k` has left the loop, and runs for ever when none has.
-/
import NetProg.Base.System

namespace NetProg.System

variable {S E : Type*} (sys : System S E) (o : ℕ → E)

/-- The state after the first `k` events of the stream. -/
def along : ℕ → S
  | 0 => sys.init
  | k + 1 => (sys.step (along k) (o k)).getD (along k)

variable {sys o} {k m : ℕ} {s t : S}

theorem along_succ (hs : sys.along o k = s) (hstep : sys.step s (o k) = some t) : sys.along o (k + 1) = t := by
  rw [along, hs, hstep, Option.getD_some]

/-- A final state stays. -/
theorem along_of_stuck (hs : sys.along o k = s) (hstuck : ∀ e, sys.step s e = none) (hle : k ≤ m) :
    sys.along o m = s := by
  induction hle with
  | refl => exact hs
  | step _ ih => rw [along, ih, hstuck, Option.getD_none]

end NetProg.System
