import Mathlib.Algebra.Order.Field.Rat
import Mathlib.Tactic.NormNum

/-! # The parts of tenacity that `retry` wires together

A `tenacity.Retrying` controller calls the wrapped function. It returns the
result, or re-raises the exception, unless the failure is an explicit
`TryAgain` or the `retry` predicate matches it. When `stop` holds for the
attempt number it gives up: with `reraise=True` it raises the last exception
itself, otherwise a `RetryError`. Else it sleeps for what `wait` gives for this
attempt and calls again. Attempts are numbered from 1. Waits are exact rationals
here; CPython's float rounding and the `OverflowError` fallback of
`wait_exponential` are left out.
-/

namespace ManilaUtils.Retry

/-- What one call of the wrapped function gives. -/
inductive Outcome (α ε : Type)
  | returned (value : α)
  | raised (error : ε)
  deriving DecidableEq, Repr

/-- How a call of the controller ends. -/
inductive Final (α ε : Type)
  | returns (value : α)
  | raises (error : ε)
  /-- a `tenacity.RetryError` holding the last attempt -/
  | retryError (last : Outcome α ε)
  deriving DecidableEq, Repr

/-- What the controller does, in order. -/
inductive Event
  | call
  | sleep (seconds : ℚ)
  deriving DecidableEq, Repr

variable {α ε : Type}

/-- `fut.result()`: the value, or the exception raised again. -/
def Outcome.result : Outcome α ε → Final α ε
  | .returned value => .returns value
  | .raised error => .raises error

/-- `RetryError(fut).reraise()`: a failed attempt raises its own exception. -/
def Outcome.reraise : Outcome α ε → Final α ε
  | .returned value => .retryError (.returned value)
  | .raised error => .raises error

/-- `retry_if_exception(predicate)`: a failure is retried when the predicate
holds for its exception, a success never. -/
def retryIfException (predicate : ε → Bool) : Outcome α ε → Bool
  | .returned _ => false
  | .raised error => predicate error

/-- `is_explicit_retry`: the attempt raised `tenacity.TryAgain`. -/
def isExplicitRetry (isTryAgain : ε → Bool) : Outcome α ε → Bool
  | .returned _ => false
  | .raised error => isTryAgain error

/-- tenacity's `_utils.MAX_WAIT`, `sys.maxsize / 2`. -/
def maxWait : ℚ := 9223372036854775807 / 2

/-- `wait_exponential(multiplier, max, exp_base, min)` at attempt `n`. -/
def waitExponential (multiplier max expBase min : ℚ) (n : Nat) : ℚ :=
  Max.max (Max.max 0 min) (Min.min (multiplier * expBase ^ (n - 1)) max)

/-- `wait_random_exponential(multiplier, max)` at attempt `n`, where `u` is the
value of `random.random()` that `random.uniform(0, high)` draws. Its
`exp_base` and `min` keep their defaults, 2 and 0. -/
def waitRandomExponential (multiplier max : ℚ) (u : ℚ) (n : Nat) : ℚ :=
  0 + (waitExponential multiplier max 2 0 n - 0) * u

/-- The calls and sleeps of `k` attempts from attempt `n` that each end in a sleep. -/
def callsBefore (wait : Nat → ℚ) (n : Nat) : Nat → List Event
  | 0 => []
  | k + 1 => .call :: .sleep (wait n) :: callsBefore wait (n + 1) k

/-- `Retrying.__call__` from attempt `n`, where the `n`-th call gives
`outcome n` and `wait n` is the pause after it; `none` when `fuel` runs out. -/
def retrying (stop : Nat → Bool) (retry : Outcome α ε → Bool) (isTryAgain : ε → Bool)
    (reraise : Bool) (wait : Nat → ℚ) (outcome : Nat → Outcome α ε) :
    Nat → Nat → Option (List Event × Final α ε)
  | 0, _ => none
  | fuel + 1, n =>
      if !(isExplicitRetry isTryAgain (outcome n) || retry (outcome n)) then
        some ([.call], (outcome n).result)
      else if stop n then
        some ([.call], if reraise then (outcome n).reraise else .retryError (outcome n))
      else
        (retrying stop retry isTryAgain reraise wait outcome fuel (n + 1)).map
          fun r => (.call :: .sleep (wait n) :: r.1, r.2)

section Loop

variable {stop : Nat → Bool} {retry : Outcome α ε → Bool} {isTryAgain : ε → Bool}
  {reraise : Bool} {wait : Nat → ℚ} {outcome : Nat → Outcome α ε}

/-- The attempts that are retried and not stopped only add a call and a sleep each. -/
theorem retrying_continue {k n fuel : Nat}
    (hcont : ∀ j < k, (isExplicitRetry isTryAgain (outcome (n + j)) || retry (outcome (n + j))) ∧
      stop (n + j) = false) :
    retrying stop retry isTryAgain reraise wait outcome (fuel + k) n =
      (retrying stop retry isTryAgain reraise wait outcome fuel (n + k)).map
        fun r => (callsBefore wait n k ++ r.1, r.2) := by
  induction k generalizing n with
  | zero => simp [callsBefore]
  | succ k ih =>
      obtain ⟨hretried, hstop⟩ := hcont 0 (Nat.succ_pos k)
      rw [← Nat.add_assoc, retrying]
      simp only [Nat.add_zero] at hretried hstop
      simp only [hretried, hstop, Bool.not_true, Bool.false_eq_true, if_false]
      rw [ih fun j hj => by simpa [Nat.add_assoc, Nat.add_comm 1] using hcont (j + 1) (by omega),
        Option.map_map]
      simp [Function.comp_def, callsBefore, Nat.add_assoc, Nat.add_comm 1]

/-- An attempt that is neither an explicit `TryAgain` nor matched ends the call. -/
theorem retrying_settle {n fuel : Nat}
    (hsettle : (isExplicitRetry isTryAgain (outcome n) || retry (outcome n)) = false) :
    retrying stop retry isTryAgain reraise wait outcome (fuel + 1) n =
      some ([.call], (outcome n).result) := by
  simp [retrying, hsettle]

/-- A retried attempt at which `stop` holds ends the call. -/
theorem retrying_stop {n fuel : Nat}
    (hretried : (isExplicitRetry isTryAgain (outcome n) || retry (outcome n)) = true)
    (hstop : stop n = true) :
    retrying stop retry isTryAgain reraise wait outcome (fuel + 1) n =
      some ([.call], if reraise then (outcome n).reraise else .retryError (outcome n)) := by
  simp [retrying, hretried, hstop]

/-- While every attempt is retried and `stop` never holds, the loop has not
ended after `fuel` attempts. -/
theorem retrying_runs_on {n fuel : Nat}
    (hcont : ∀ j < fuel, (isExplicitRetry isTryAgain (outcome (n + j)) || retry (outcome (n + j))) ∧
      stop (n + j) = false) :
    retrying stop retry isTryAgain reraise wait outcome fuel n = none := by
  rw [← Nat.zero_add fuel, retrying_continue hcont]
  rfl

end Loop

end ManilaUtils.Retry
