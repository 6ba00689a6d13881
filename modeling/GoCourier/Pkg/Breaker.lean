import GoCourier.Domain.Values

/- The circuit breaker (`pkg/circuitbreaker`). Each method runs under the breaker's
   mutex and reads the clock once, so it is one step: a function of that reading. -/
namespace GoCourier

inductive BreakerState where
  | closed
  | opened
  | halfOpen
  deriving DecidableEq, Repr

structure Breaker where
  threshold : Int
  window : Duration
  cooldown : Duration
  failures : List Time := []
  state : BreakerState := .closed
  openedAt : Time := 0
  deriving DecidableEq, Repr

namespace Breaker

def allow (b : Breaker) (now : Time) : Except Err Unit × Breaker :=
  match b.state with
  | .opened =>
    if now - b.openedAt ≥ b.cooldown then (.ok (), { b with state := .halfOpen })
    else (.error errCircuitOpen, b)
  | .halfOpen | .closed => (.ok (), b)

def recordSuccess (b : Breaker) : Breaker := { b with failures := [], state := .closed }

def recordFailure (b : Breaker) (now : Time) : Breaker :=
  let cutoff := now - b.window
  let b := { b with failures := b.failures.filter (cutoff < ·) ++ [now] }
  if b.state = .halfOpen ∨ (b.failures.length : Int) ≥ b.threshold then
    { b with state := .opened, openedAt := now }
  else b

/-- A closed breaker admits every call. -/
theorem allow_closed {b : Breaker} (h : b.state = .closed) (now : Time) : b.allow now = (.ok (), b) := by
  unfold allow
  rw [h]

end Breaker

end GoCourier
