import ManilaUtils.Retry.Tenacity

/-! # `retry` and `retry_if_exit_code`

`retry(...)` rejects `retries < 1`, picks the wait strategy and the stop
condition, and wraps a function so that each call runs a `tenacity.Retrying`
built from them with `reraise=True`. The `retry` argument is applied to
`retry_param`. By default that gives `retry_if_exception_type(retry_param)`;
`retry_if_exit_code(codes)` instead matches a `ProcessExecutionError` whose
exit code is among `codes`.

The call runs until the first attempt that neither raises `TryAgain` nor is
matched, or until attempt `retries`, and ends in that attempt's own result or
exception. The deterministic pause grows with `backoff_rate`. The random one
doubles every attempt whatever `backoff_rate` is, because
`wait_random_exponential` is built without `exp_base`.
-/

namespace ManilaUtils.Retry

variable {α ε : Type}

/-- The attributes of an exception that the retry machinery reads. -/
structure ExcInfo (ε : Type) where
  /-- `isinstance(e, tenacity.TryAgain)` -/
  isTryAgain : ε → Bool
  /-- the `exit_code` of a `ProcessExecutionError`, `none` for any other exception -/
  exitCode : ε → Option Int

/-- `retry_if_exit_code(codes)._check_exit_code(exc)`; an int `codes` becomes a
one-element tuple. -/
def checkExitCode (codes : Int ⊕ List Int) (exitCode : Option Int) : Bool :=
  let codes := match codes with
    | .inl code => [code]
    | .inr codes => codes
  match exitCode with
  | some code => code ∈ codes
  | none => false

/-- The `retry` argument of `retry(...)`, applied to `retry_param`. -/
inductive Classifier (ε : Type)
  /-- `tenacity.retry_if_exception_type(retry_param)`, where `isInstance e` is
  `isinstance(e, retry_param)` -/
  | exceptionType (isInstance : ε → Bool)
  /-- `retry_if_exit_code(retry_param)` -/
  | exitCode (codes : Int ⊕ List Int)

/-- The retry predicate a classifier stands for. -/
def Classifier.predicate (info : ExcInfo ε) : Classifier ε → Outcome α ε → Bool
  | .exceptionType isInstance => retryIfException isInstance
  | .exitCode codes => retryIfException fun e => checkExitCode codes (info.exitCode e)

/-- The arguments of `retry(...)`. -/
structure RetryArgs (ε : Type) where
  classifier : Classifier ε
  interval : ℚ := 1
  retries : Int := 10
  backoffRate : ℚ := 2
  backoffSleepMax : Option ℚ := none
  waitRandom : Bool := false
  infinite : Bool := false

/-- The `tenacity.Retrying` that `_wrapper` builds on every call. -/
structure Controller (ε : Type) where
  stop : Nat → Bool
  /-- the pause at attempt `n` for the draw `u` of `random.random()` -/
  wait : ℚ → Nat → ℚ
  classifier : Classifier ε
  reraise : Bool

/-- `retry(...)`: the `ValueError` for `retries < 1`, or the controller. -/
def retry (args : RetryArgs ε) : Except String (Controller ε) :=
  if args.retries < 1 then
    .error ("Retries must be greater than or equal to 1 (received: " ++ toString args.retries ++
      "). ")
  else
    let max := args.backoffSleepMax.getD maxWait
    .ok { stop := if args.infinite then fun _ => false else fun n => decide (args.retries ≤ n)
          wait := if args.waitRandom then waitRandomExponential args.interval max
            else fun _ => waitExponential args.interval max args.backoffRate 0
          classifier := args.classifier
          reraise := true }

/-- The pause after attempt `n`, when the `n`-th draw of `random.random()` is `draws n`. -/
def Controller.pause (ctl : Controller ε) (draws : Nat → ℚ) (n : Nat) : ℚ :=
  ctl.wait (draws n) n

/-- An attempt that the controller calls again, unless it stops. -/
def Controller.retried (ctl : Controller ε) (info : ExcInfo ε) (o : Outcome α ε) : Bool :=
  isExplicitRetry info.isTryAgain o || ctl.classifier.predicate info o

/-- `_wrapper(*args)`: the `n`-th call of the wrapped function gives `outcome n`. -/
def Controller.call (ctl : Controller ε) (info : ExcInfo ε) (outcome : Nat → Outcome α ε)
    (draws : Nat → ℚ) (fuel : Nat) : Option (List Event × Final α ε) :=
  retrying ctl.stop (ctl.classifier.predicate info) info.isTryAgain ctl.reraise
    (ctl.pause draws) outcome fuel 1

theorem retry_eq_ok {args : RetryArgs ε} (hretries : 1 ≤ args.retries) :
    retry args = .ok { stop := if args.infinite then fun _ => false
                                else fun n => decide (args.retries ≤ n)
                       wait := if args.waitRandom then
                           waitRandomExponential args.interval (args.backoffSleepMax.getD maxWait)
                         else fun _ => waitExponential args.interval
                           (args.backoffSleepMax.getD maxWait) args.backoffRate 0
                       classifier := args.classifier
                       reraise := true } := by
  simp [retry, show ¬ args.retries < 1 by omega]

theorem Controller.retried_raised {ctl : Controller ε} {info : ExcInfo ε} {o : Outcome α ε}
    (h : ctl.retried info o = true) : ∃ e, o = .raised e := by
  cases o with
  | returned value =>
      cases hc : ctl.classifier <;>
        simp [Controller.retried, isExplicitRetry, Classifier.predicate, retryIfException, hc] at h
  | raised e => exact ⟨e, rfl⟩

/-! ## How many calls, and how the call ends -/

/-- What a call of `retry(...)(f)` does when attempt `k` is the first that
settles (`k ≤ retries`), or when every attempt up to `retries` is retried. -/
def AttemptLaw (args : RetryArgs ε) (info : ExcInfo ε) (outcome : Nat → Outcome α ε)
    (draws : Nat → ℚ) (fuel : Nat) : Prop :=
  ∃ ctl, retry args = .ok ctl ∧
    (∀ k, 1 ≤ k → k ≤ args.retries.toNat →
      (∀ j, 1 ≤ j → j < k → ctl.retried info (outcome j) = true) →
      ctl.retried info (outcome k) = false →
      ctl.call info outcome draws fuel =
        some (callsBefore (ctl.pause draws) 1 (k - 1) ++ [.call], (outcome k).result)) ∧
    ((∀ j, 1 ≤ j → j ≤ args.retries.toNat → ctl.retried info (outcome j) = true) →
      ∃ e, outcome args.retries.toNat = .raised e ∧
        ctl.call info outcome draws fuel =
          some (callsBefore (ctl.pause draws) 1 (args.retries.toNat - 1) ++ [.call], .raises e))

/-- What `retry(..., infinite=True)` does: `retries` is still checked, and once
it passes, a call ends at the first attempt that settles, however late, with one
pause between consecutive attempts and that attempt's own result or exception;
while every attempt so far is retried it has not ended, after any number of
attempts. -/
def InfiniteLaw (args : RetryArgs ε) (info : ExcInfo ε) (outcome : Nat → Outcome α ε)
    (draws : Nat → ℚ) : Prop :=
  ((∃ ctl, retry args = .ok ctl) ↔ 1 ≤ args.retries) ∧
    ∀ ctl, retry args = .ok ctl →
      (∀ k, 1 ≤ k → (∀ j, 1 ≤ j → j < k → ctl.retried info (outcome j) = true) →
        ctl.retried info (outcome k) = false → ∀ fuel, k ≤ fuel →
          ctl.call info outcome draws fuel =
            some (callsBefore (ctl.pause draws) 1 (k - 1) ++ [.call], (outcome k).result)) ∧
      ∀ fuel, (∀ j, 1 ≤ j → j ≤ fuel → ctl.retried info (outcome j) = true) →
        ctl.call info outcome draws fuel = none

/-- What `retry(...)` pauses after attempt `n`: for a deterministic wait,
`min(c, interval * backoff_rate^(n-1))` when the cap `c` is at least 0 and 0
otherwise; for a random wait, a value in `[0, max(0, c)]`. -/
def PauseLaw (args : RetryArgs ε) (draws : Nat → ℚ) (n : Nat) : Prop :=
  ∃ ctl, retry args = .ok ctl ∧
    (args.waitRandom = false → 0 ≤ args.backoffSleepMax.getD maxWait →
      ctl.pause draws n =
        min (args.backoffSleepMax.getD maxWait) (args.interval * args.backoffRate ^ (n - 1))) ∧
    (args.waitRandom = false → args.backoffSleepMax.getD maxWait < 0 → ctl.pause draws n = 0) ∧
    (args.waitRandom = true →
      0 ≤ ctl.pause draws n ∧ ctl.pause draws n ≤ max 0 (args.backoffSleepMax.getD maxWait))

theorem waitExponential_nonneg (multiplier max expBase : ℚ) (n : Nat) :
    0 ≤ waitExponential multiplier max expBase 0 n :=
  le_max_of_le_left (le_max_left 0 0)

end ManilaUtils.Retry
