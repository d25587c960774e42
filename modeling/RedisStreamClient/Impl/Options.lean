import Mathlib.Data.Rat.Floor
import RedisStreamClient.Impl.ReQueue

/-!
# Options and their limits

The two configurations a client can be given, with the checks they have to pass
(`impl/opts.go`, `impl/recovery_config.go`), and the delay between two reconciliation scans
that is computed from one of them.  Durations are 64-bit numbers of nanoseconds.

The checks bound the interval of the scan from below by one nanosecond and not at all from
above.  The jitter is a tenth of it, truncated: for less than ten nanoseconds there is none
to draw from, and close to the largest duration the sum wraps around
(`nextReconciliationDelay_safe_iff`).
-/

namespace RedisStreamClient

namespace Configs

/-- `configs.DefaultMaxRetries`. -/
def defaultMaxRetries : Int := 5

/-- `configs.DefaultInitialRetryDelay`. -/
def defaultInitialRetryDelay : Int := 100000000

/-- `configs.DefaultMaxRetryDelay`. -/
def defaultMaxRetryDelay : Int := 30000000000

/-- `configs.DefaultReconciliationInterval`. -/
def defaultReconciliationInterval : Int := 60000000000

/-- `configs.DefaultMinIdleTime`. -/
def defaultMinIdleTime : Int := 30000000000

/-- `configs.DefaultReconciliationBatchSize`. -/
def defaultReconciliationBatchSize : Int := 50

/-- `configs.DefaultMaxReQueueRetries`. -/
def defaultMaxReQueueRetries : Int := 3

/-- `configs.DefaultJitterFraction`. -/
def defaultJitterFraction : ℚ := 1 / 10

/-- `configs.DefaultDLQMaxLen`. -/
def defaultDLQMaxLen : Int := 10000

end Configs

namespace Impl

open RedisStreamClient.Lib RedisStreamClient.Errs

/-- One check of a configuration. -/
def check (bad : Bool) (err : Err) : Option Err := if bad then some err else none

theorem check_eq_none {bad : Bool} {err : Err} : check bad err = none ↔ bad = false := by
  cases bad <;> simp [check]

/-! ## Reading the LBS -/

/-- `RetryConfig`. -/
structure RetryConfig where
  /-- `MaxRetries`; -1 is without limit. -/
  maxRetries : Int
  /-- `InitialRetryDelay`. -/
  initialRetryDelay : Int
  /-- `MaxRetryDelay`. -/
  maxRetryDelay : Int
deriving DecidableEq, Repr

/-- `DefaultRetryConfig`. -/
def defaultRetryConfig : RetryConfig :=
  ⟨Configs.defaultMaxRetries, Configs.defaultInitialRetryDelay, Configs.defaultMaxRetryDelay⟩

/-- `RetryConfig.Validate`. -/
def RetryConfig.validate (rc : RetryConfig) : Option Err :=
  check (rc.maxRetries < -1) (.errorf "maxRetries must be -1 (unlimited) or >= 0") <|>
  check (rc.initialRetryDelay ≤ 0) (.errorf "initialRetryDelay must be greater than 0") <|>
  check (rc.maxRetryDelay ≤ 0) (.errorf "maxRetryDelay must be greater than 0") <|>
  check (rc.maxRetryDelay < rc.initialRetryDelay)
    (.errorf "initialRetryDelay cannot be greater than maxRetryDelay")

/-- What a valid configuration is. -/
theorem RetryConfig.validate_eq_none {rc : RetryConfig} : rc.validate = none ↔
    -1 ≤ rc.maxRetries ∧ 0 < rc.initialRetryDelay ∧ rc.initialRetryDelay ≤ rc.maxRetryDelay := by
  simp only [validate, Option.orElse_eq_orElse, Option.orElse_eq_or, Option.or_eq_none_iff,
    check_eq_none, decide_eq_false_iff_not]
  omega

example : defaultRetryConfig.validate = none := rfl

/-- `WithRetryConfig`. -/
def Client.withRetryConfig (config : RetryConfig) (r : Client) : Except Err Client :=
  match config.validate with
  | some err => .error err
  | none => .ok { r with
      maxRetries := config.maxRetries
      initialRetryDelay := config.initialRetryDelay
      maxRetryDelay := config.maxRetryDelay }

/-! ## Recovery -/

/-- `DefaultRecoveryConfig`. -/
def defaultRecoveryConfig : RecoveryConfig :=
  ⟨Configs.defaultReconciliationInterval, Configs.defaultMinIdleTime,
    Configs.defaultReconciliationBatchSize, Configs.defaultMaxReQueueRetries, "",
    Configs.defaultDLQMaxLen⟩

/-- `RecoveryConfig.Validate`. -/
def RecoveryConfig.validate (rc : RecoveryConfig) : Option Err :=
  check (rc.reconciliationInterval ≤ 0) (invalid "reconciliationInterval must be greater than 0") <|>
  check (rc.minIdleTime ≤ 0) (invalid "minIdleTime must be greater than 0") <|>
  check (rc.batchSize ≤ 0) (invalid "batchSize must be greater than 0") <|>
  check (rc.maxRetries < 0) (invalid "maxRetries must be >= 0") <|>
  check (rc.dlqMaxLen < 0) (invalid "dlqMaxLen must be >= 0 (0 disables the cap)")
where
  /-- What the check found. -/
  invalid (text : String) : Err := .wrapf "" .invalidRecoveryConfig (": " ++ text)

/-- What a valid configuration is. -/
theorem RecoveryConfig.validate_eq_none {rc : RecoveryConfig} : rc.validate = none ↔
    0 < rc.reconciliationInterval ∧ 0 < rc.minIdleTime ∧ 0 < rc.batchSize ∧ 0 ≤ rc.maxRetries ∧
      0 ≤ rc.dlqMaxLen := by
  simp only [validate, Option.orElse_eq_orElse, Option.orElse_eq_or, Option.or_eq_none_iff,
    check_eq_none, decide_eq_false_iff_not]
  omega

example : defaultRecoveryConfig.validate = none := rfl

/-- `WithRecoveryConfig`. -/
def Client.withRecoveryConfig (config : RecoveryConfig) (r : Client) : Except Err Client :=
  match config.validate with
  | some err => .error err
  | none => .ok { r with recoveryConfig := config }

/-! ## The delay between scans -/

/-- `rand.Int63n` of the random number `draw`; it panics unless its argument is positive. -/
def int63n (n : Int) (draw : Nat) : Option Int := if n ≤ 0 then none else some (draw % n)

/-- `nextReconciliationDelay`, or `none` if it panics. -/
def nextReconciliationDelay (interval : Int) (draw : Nat) : Option Int :=
  let interval := if interval ≤ 0 then Configs.defaultReconciliationInterval else interval
  let maxJitter : ℚ := interval * Configs.defaultJitterFraction
  if maxJitter ≤ 0 then some interval
  else (int63n ⌊maxJitter⌋ draw).map fun jitter ↦ wrap64 (interval + jitter)

/-- The delay for a positive interval. -/
theorem nextReconciliationDelay_of_pos {interval : Int} (h : 0 < interval) (draw : Nat) :
    nextReconciliationDelay interval draw =
      (int63n (interval / 10) draw).map fun jitter ↦ wrap64 (interval + jitter) := by
  have hfloor : ⌊(interval : ℚ) * Configs.defaultJitterFraction⌋ = interval / 10 := by
    have hdiv : (interval : ℚ) * Configs.defaultJitterFraction = (interval : ℚ) / (10 : ℕ) := by
      rw [Configs.defaultJitterFraction, mul_one_div]
      norm_num
    rw [hdiv, Rat.floor_intCast_div_natCast]
    rfl
  have hpos : ¬ (interval : ℚ) * Configs.defaultJitterFraction ≤ 0 := by
    rw [not_le, Configs.defaultJitterFraction]
    positivity
  rw [nextReconciliationDelay]
  simp only [if_neg (not_le.2 h), if_neg hpos, hfloor]

/-- **The delay between scans.**  For a valid configuration the delay exists, whatever is
drawn, and exceeds the interval by at most a tenth, exactly if the interval is at least ten
nanoseconds and the largest sum is a 64-bit number. -/
theorem nextReconciliationDelay_safe_iff {rc : RecoveryConfig} (hvalid : rc.validate = none)
    (hrange : rc.reconciliationInterval ≤ maxInt) :
    (∀ draw, ∃ d, nextReconciliationDelay rc.reconciliationInterval draw = some d ∧
      rc.reconciliationInterval ≤ d ∧
        d ≤ rc.reconciliationInterval + rc.reconciliationInterval / 10) ↔
      10 ≤ rc.reconciliationInterval ∧
        rc.reconciliationInterval + (rc.reconciliationInterval / 10 - 1) ≤ maxInt := by
  have hpos := (RecoveryConfig.validate_eq_none.1 hvalid).1
  generalize rc.reconciliationInterval = interval at hpos hrange ⊢
  simp only [nextReconciliationDelay_of_pos hpos]
  constructor
  · intro h
    have hten : 10 ≤ interval := by
      by_contra hlt
      obtain ⟨d, hd, -⟩ := h 0
      rw [int63n, if_pos (by omega)] at hd
      cases hd
    refine ⟨hten, ?_⟩
    -- the largest jitter
    obtain ⟨d, hd, hlo, -⟩ := h (interval / 10 - 1).toNat
    rw [int63n, if_neg (by omega), Option.map_some, Int.toNat_of_nonneg (by omega),
      Int.emod_eq_of_lt (by omega) (by omega)] at hd
    obtain rfl := Option.some.inj hd
    by_contra hover
    unfold maxInt at hrange hover
    rw [wrap64, Int.bmod_def] at hlo
    omega
  · rintro ⟨hten, hsum⟩ draw
    have hlo := Int.emod_nonneg draw (show interval / 10 ≠ 0 by omega)
    have hhi := Int.emod_lt_of_pos draw (show 0 < interval / 10 by omega)
    refine ⟨interval + draw % (interval / 10), ?_, by omega, by omega⟩
    rw [int63n, if_neg (by omega), Option.map_some, wrap64_of_mem (by omega) (by omega)]

/-- A delay for the default interval. -/
theorem nextReconciliationDelay_safe_default :
    ∃ d, nextReconciliationDelay 60000000000 7 = some d ∧ 60000000000 ≤ d ∧ d ≤ 66000000000 := by
  have hvalid : defaultRecoveryConfig.validate = none := rfl
  exact (nextReconciliationDelay_safe_iff hvalid (by decide)).2 (by decide) 7

/-- A valid interval of a nanosecond makes the scan panic, and the largest one can make the
delay negative. -/
theorem nextReconciliationDelay_unsafe :
    { defaultRecoveryConfig with reconciliationInterval := 1 }.validate = none ∧
      nextReconciliationDelay 1 0 = none ∧
    { defaultRecoveryConfig with reconciliationInterval := maxInt }.validate = none ∧
      nextReconciliationDelay maxInt 1 = some (-(2 ^ 63)) := by
  refine ⟨rfl, ?_, rfl, ?_⟩
  · rw [nextReconciliationDelay_of_pos (by decide)]
    rfl
  · rw [nextReconciliationDelay_of_pos (by decide)]
    decide

end Impl

end RedisStreamClient
