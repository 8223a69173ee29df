import Mathlib.Algebra.Order.Field.Rat
import Mathlib.Algebra.Order.Archimedean.Basic
import Mathlib.Tactic.NormNum

/-! # Waiting for the access rules of a share instance

`wait_for_access_update` polls the access-rules status of a share instance. It
returns once a poll reads `STATUS_ACTIVE`. It raises `ShareMigrationFailed`
when a poll reads `SHARE_INSTANCE_RULES_ERROR`, or when the clock read right
after a poll is past the deadline. Otherwise it sleeps `1.414 ** tries` seconds
and polls again.

The clock is adversarial: before poll `p`'s reading, `lag p ≥ 0` seconds pass
beyond the sleeps. So `time.time()` never decreases, and `time.sleep(d)`
advances it by at least `d`. Every reading after poll `n` is past
`starttime + slept (n - 1)`, so the loop polls at most `n` times once that
exceeds the deadline. Times are exact rationals; `1.414` is `1414 / 1000`.
-/

namespace ManilaUtils.Migration

/-- `exception.ShareMigrationFailed(reason=msg)`. -/
structure ShareMigrationFailed where
  reason : String
  deriving DecidableEq, Repr

/-- What the loop reads from the database and the clock. -/
structure PollEnv where
  /-- `access_rules_status` of the `p`-th `db.share_instance_get`, from `p = 1` -/
  status : Nat → String
  /-- the seconds that pass before the reading after poll `p`, beyond the sleeps -/
  lag : Nat → ℚ

/-- `1.414 ** tries`. -/
def backoff (tries : Nat) : ℚ := (1414 / 1000) ^ tries

/-- The seconds slept after the first `p` polls: `1.414 + … + 1.414 ** p`. -/
def slept : Nat → ℚ
  | 0 => 0
  | p + 1 => slept p + backoff (p + 1)

/-- The clock after the sleep that follows poll `p`, or `starttime` for `p = 0`. -/
def clockAt (env : PollEnv) (start : ℚ) : Nat → ℚ
  | 0 => start
  | p + 1 => clockAt env start p + env.lag (p + 1) + backoff (p + 1)

/-- `now`, read right after poll `p`, for `p ≥ 1`. -/
def readingAfter (env : PollEnv) (start : ℚ) (p : Nat) : ℚ :=
  clockAt env start (p - 1) + env.lag p

/-! ## The clock -/

theorem one_le_backoff (tries : Nat) : 1 ≤ backoff tries := one_le_pow₀ (by norm_num)

theorem slept_strictMono : StrictMono slept :=
  strictMono_nat_of_lt_succ fun p => by
    simp only [slept]
    linarith [one_le_backoff (p + 1)]

theorem le_slept (p : Nat) : (p : ℚ) ≤ slept p := by
  induction p with
  | zero => simp [slept]
  | succ p ih =>
      simp only [slept, Nat.cast_succ]
      linarith [one_le_backoff (p + 1)]

/-- Any finite timeout is exceeded by the sleeps alone. -/
theorem exists_slept_gt (timeout : ℚ) : ∃ n, timeout < slept n :=
  let ⟨n, hn⟩ := exists_nat_gt timeout
  ⟨n, hn.trans_le (le_slept n)⟩

section Clock

variable {env : PollEnv} (hlag : ∀ p, 0 ≤ env.lag p) (start : ℚ)
include hlag

theorem clockAt_ge (p : Nat) : start + slept p ≤ clockAt env start p := by
  induction p with
  | zero => simp [slept, clockAt]
  | succ p ih =>
      simp only [slept, clockAt]
      linarith [hlag (p + 1)]

/-- The reading after poll `p + 1` is past the sleeps of the first `p` polls. -/
theorem readingAfter_ge (p : Nat) : start + slept p ≤ readingAfter env start (p + 1) := by
  simp only [readingAfter, Nat.add_sub_cancel]
  linarith [clockAt_ge hlag start p, hlag (p + 1)]

end Clock

section Loop

variable (statusActive rulesError : String)

/-- The reason for a poll that read `SHARE_INSTANCE_RULES_ERROR`. -/
def failedReason (shareId : String) : String :=
  "Failed to update access rules on share instance " ++ shareId

/-- The reason for a poll read past the deadline. -/
def timeoutReason (shareId : String) (timeout : Int) : String :=
  "Timeout trying to update access rules on share instance " ++ shareId ++ ". Timeout was " ++
    toString timeout ++ " seconds."

/-- The `while True` loop of `wait_for_access_update` with `tries` polls behind
it and the clock at `clock`; it returns the number of polls made and the
outcome, `none` when `fuel` runs out. -/
def waitLoop (env : PollEnv) (shareId : String) (timeout : Int) (deadline : ℚ) :
    Nat → Nat → ℚ → Option (Nat × Except ShareMigrationFailed Unit)
  | 0, _, _ => none
  | fuel + 1, tries, clock =>
      let status := env.status (tries + 1)
      if status = statusActive then some (tries + 1, .ok ())
      else
        let now := clock + env.lag (tries + 1)
        if status = rulesError then some (tries + 1, .error ⟨failedReason shareId⟩)
        else if now > deadline then some (tries + 1, .error ⟨timeoutReason shareId timeout⟩)
        else waitLoop env shareId timeout deadline fuel (tries + 1) (now + backoff (tries + 1))

/-- `wait_for_access_update(context, db, share_instance, timeout)`, started at
`starttime = start`. -/
def waitForAccessUpdate (env : PollEnv) (shareId : String) (start : ℚ) (timeout : Int)
    (fuel : Nat) : Option (Nat × Except ShareMigrationFailed Unit) :=
  waitLoop statusActive rulesError env shareId timeout (start + timeout) fuel 0 start

/-- After the first `tries` polls, some poll `p` reads `STATUS_ACTIVE`, and every
poll between reads neither `SHARE_INSTANCE_RULES_ERROR` nor a clock past the
deadline. -/
def ActiveAfter (env : PollEnv) (start deadline : ℚ) (tries : Nat) : Prop :=
  ∃ p, tries < p ∧ env.status p = statusActive ∧
    ∀ q, tries < q → q < p → env.status q ≠ rulesError ∧ readingAfter env start q ≤ deadline

/-- What `wait_for_access_update` does under a clock that never runs backwards:
for every `n` whose first `n` sleeps exceed the timeout, and one exists, it
polls at most `n + 1` times, and it returns exactly when some poll reads
`STATUS_ACTIVE` before any poll reads `SHARE_INSTANCE_RULES_ERROR` or is
followed by a clock reading past `starttime + timeout`. -/
def PollLaw (env : PollEnv) (shareId : String) (start : ℚ) (timeout : Int) : Prop :=
  (∃ n, (timeout : ℚ) < slept n) ∧
  ∀ n, (timeout : ℚ) < slept n → ∀ fuel, n + 1 ≤ fuel →
    ∃ polls result,
      waitForAccessUpdate statusActive rulesError env shareId start timeout fuel =
        some (polls, result) ∧ polls ≤ n + 1 ∧
      (result = .ok () ↔ ActiveAfter statusActive rulesError env start (start + timeout) 0)

variable {statusActive rulesError} {env : PollEnv} {start deadline : ℚ} {tries : Nat}

/-- One turn of the loop, with the clock as `clockAt` gives it. -/
theorem waitLoop_succ (shareId : String) (timeout : Int) (fuel : Nat) :
    waitLoop statusActive rulesError env shareId timeout deadline (fuel + 1) tries
        (clockAt env start tries) =
      if env.status (tries + 1) = statusActive then some (tries + 1, .ok ())
      else if env.status (tries + 1) = rulesError then
        some (tries + 1, .error ⟨failedReason shareId⟩)
      else if deadline < readingAfter env start (tries + 1) then
        some (tries + 1, .error ⟨timeoutReason shareId timeout⟩)
      else waitLoop statusActive rulesError env shareId timeout deadline fuel (tries + 1)
        (clockAt env start (tries + 1)) := rfl

/-- A poll that is not active and lets the loop go on does not decide the outcome. -/
theorem activeAfter_succ_iff (hactive : env.status (tries + 1) ≠ statusActive)
    (herror : env.status (tries + 1) ≠ rulesError)
    (hclock : readingAfter env start (tries + 1) ≤ deadline) :
    ActiveAfter statusActive rulesError env start deadline tries ↔
      ActiveAfter statusActive rulesError env start deadline (tries + 1) := by
  constructor
  · rintro ⟨p, hp, hact, hbefore⟩
    have : p ≠ tries + 1 := by rintro rfl; exact hactive hact
    exact ⟨p, by omega, hact, fun q hq hqp => hbefore q (by omega) hqp⟩
  · rintro ⟨p, hp, hact, hbefore⟩
    refine ⟨p, by omega, hact, fun q hq hqp => ?_⟩
    rcases Nat.lt_or_ge (tries + 1) q with hlt | hle
    · exact hbefore q hlt hqp
    · obtain rfl : q = tries + 1 := by omega
      exact ⟨herror, hclock⟩

/-- A poll that is not active and makes the loop raise rules out every later one. -/
theorem not_activeAfter_of_raise (hactive : env.status (tries + 1) ≠ statusActive)
    (hraise : env.status (tries + 1) = rulesError ∨ deadline < readingAfter env start (tries + 1)) :
    ¬ ActiveAfter statusActive rulesError env start deadline tries := by
  rintro ⟨p, hp, hact, hbefore⟩
  have : p ≠ tries + 1 := by rintro rfl; exact hactive hact
  obtain ⟨herror, hclock⟩ := hbefore (tries + 1) (by omega) (by omega)
  rcases hraise with h | h
  · exact herror h
  · exact absurd hclock (not_le.mpr h)

/-- The loop with `tries` polls behind it ends within `n + 1` polls in all, once
the sleeps of the first `n` polls exceed the deadline; it returns exactly when a
later poll reads `STATUS_ACTIVE` before any poll makes it raise. -/
theorem waitLoop_outcome (hlag : ∀ p, 0 ≤ env.lag p) (shareId : String) (timeout : Int)
    {n : Nat} (hn : deadline < start + slept n) (fuel : Nat) (hfuel : n + 1 ≤ tries + fuel)
    (htries : tries ≤ n) :
    ∃ polls result, waitLoop statusActive rulesError env shareId timeout deadline fuel tries
        (clockAt env start tries) = some (polls, result) ∧ polls ≤ n + 1 ∧
      (result = .ok () ↔ ActiveAfter statusActive rulesError env start deadline tries) := by
  induction fuel generalizing tries with
  | zero => omega
  | succ fuel ih =>
      rw [waitLoop_succ]
      by_cases hactive : env.status (tries + 1) = statusActive
      · refine ⟨tries + 1, .ok (), if_pos hactive, by omega, iff_of_true rfl ?_⟩
        exact ⟨tries + 1, by omega, hactive, fun q hq hqp => absurd hqp (by omega)⟩
      rw [if_neg hactive]
      by_cases herror : env.status (tries + 1) = rulesError
      · exact ⟨tries + 1, _, if_pos herror, by omega,
          iff_of_false (by simp) (not_activeAfter_of_raise hactive (.inl herror))⟩
      rw [if_neg herror]
      by_cases hlate : deadline < readingAfter env start (tries + 1)
      · exact ⟨tries + 1, _, if_pos hlate, by omega,
          iff_of_false (by simp) (not_activeAfter_of_raise hactive (.inr hlate))⟩
      rw [if_neg hlate]
      have hclock := not_lt.mp hlate
      have hnext : tries < n :=
        slept_strictMono.lt_iff_lt.mp (by linarith [readingAfter_ge hlag start tries])
      obtain ⟨polls, result, hloop, hpolls, hresult⟩ := ih (by omega) hnext
      exact ⟨polls, result, hloop, hpolls,
        hresult.trans (activeAfter_succ_iff hactive herror hclock).symm⟩

/-- Every `ShareMigrationFailed` the loop raises names the share instance, with
one of its two reasons. -/
theorem waitLoop_error_reason {shareId : String} {timeout : Int} {polls : Nat}
    {e : ShareMigrationFailed} :
    ∀ {fuel tries clock}, waitLoop statusActive rulesError env shareId timeout deadline fuel tries
        clock = some (polls, .error e) →
      e.reason = failedReason shareId ∨ e.reason = timeoutReason shareId timeout
  | 0, _, _, h => nomatch h
  | fuel + 1, tries, clock, h => by
      simp only [waitLoop] at h
      split_ifs at h
      · cases h
      · cases h; exact .inl rfl
      · cases h; exact .inr rfl
      · exact waitLoop_error_reason h

theorem waitForAccessUpdate_polls (env : PollEnv) (hlag : ∀ p, 0 ≤ env.lag p)
    (shareId : String) (start : ℚ) (timeout : Int) :
    PollLaw statusActive rulesError env shareId start timeout :=
  ⟨exists_slept_gt timeout, fun n hn fuel hfuel =>
    waitLoop_outcome hlag shareId timeout (by linarith) fuel (by omega) (Nat.zero_le n)⟩

theorem waitForAccessUpdate_polls_active :
    PollLaw "active" "error" ⟨fun p => if p < 3 then "syncing" else "active", fun _ => 0⟩
      "share" 0 10 :=
  waitForAccessUpdate_polls _ (fun _ => le_rfl) _ _ _

/-- With a 2 second timeout the third poll is read past the deadline: the
sleeps of the first two polls, `1.414 + 1.414 ** 2`, exceed it. -/
example : waitForAccessUpdate "active" "error" ⟨fun _ => "syncing", fun _ => 0⟩ "share" 0 2 5 =
    some (3, .error ⟨timeoutReason "share" 2⟩) := by
  have : "syncing" ≠ "active" ∧ "syncing" ≠ "error" := by decide
  norm_num [waitForAccessUpdate, waitLoop, backoff, this]

end Loop

end ManilaUtils.Migration
