import Eventify.Library.Rounding

/-!
# The delays between migration attempts

`migrationRetryDelay` doubles a base up to a maximum and spreads it by a jitter.
Every operation rounds its result to a double; what matters of the delay is how
short and how long the jitter can make it.
-/

namespace Eventify

open Library

inductive JsNumber where
  | finite (value : ℚ)
  | infinity
  | negInfinity
  | nan
  deriving DecidableEq

/-- `count <= n` and `count < n`, false for `NaN`. -/
def JsNumber.atLeast (n : JsNumber) (count : ℕ) : Bool :=
  match n with
  | .finite value => decide ((count : ℚ) ≤ value)
  | .infinity => true
  | .negInfinity | .nan => false

def JsNumber.above (n : JsNumber) (count : ℕ) : Bool :=
  match n with
  | .finite value => decide ((count : ℚ) < value)
  | .infinity => true
  | .negInfinity | .nan => false

/-- The double that an operation gives for its exact result, unless it overflows. -/
def toDouble (x : ℚ) : ℚ := binary64.round x

def finiteNonNegative (value : JsNumber) (fallback : ℚ) : ℚ :=
  match value with
  | .finite value => if 0 ≤ value then value else fallback
  | .infinity | .negInfinity | .nan => fallback

/-- The numbers of the environment that the start reads. -/
structure MigrationConfig where
  maxAttempts : JsNumber
  retryDelayMs : JsNumber
  retryMaxDelayMs : JsNumber
  retryJitterRatio : JsNumber

namespace MigrationConfig

def safeBase (config : MigrationConfig) : ℚ := finiteNonNegative config.retryDelayMs 5000

def safeMax (config : MigrationConfig) : ℚ :=
  max config.safeBase (finiteNonNegative config.retryMaxDelayMs 30000)

def safeJitter (config : MigrationConfig) : ℚ :=
  min 1 (finiteNonNegative config.retryJitterRatio (toDouble (1 / 5)))

def exponential (config : MigrationConfig) (attempt : ℕ) : ℚ :=
  min config.safeMax (toDouble (config.safeBase * 2 ^ (max 1 attempt - 1)))

/-- The widest jitter. -/
def spread (config : MigrationConfig) (attempt : ℕ) : ℚ :=
  toDouble (config.exponential attempt * config.safeJitter)

def shortestDelay (config : MigrationConfig) (attempt : ℕ) : ℤ :=
  round (toDouble (config.exponential attempt - config.spread attempt))

def longestDelay (config : MigrationConfig) (attempt : ℕ) : ℤ :=
  round (toDouble (config.exponential attempt + config.spread attempt))

end MigrationConfig

def migrationRetryDelay (config : MigrationConfig) (attempt : ℕ) (random : JsNumber) : ℤ :=
  let unit := min 1 (max 0 (finiteNonNegative random (1 / 2)))
  let jitter := toDouble (config.spread attempt * toDouble (toDouble (unit * 2) - 1))
  -- `Math.round` rounds a half up
  max 0 (round (toDouble (config.exponential attempt + jitter)))

/-- A timer with a delay out of its range fires after a millisecond. -/
def timeoutMs (ms : ℤ) : ℤ := if 1 ≤ ms ∧ ms ≤ 2147483647 then ms else 1

section Delay

variable {config : MigrationConfig}

theorem toDouble_mono {x y : ℚ} (h : x ≤ y) : toDouble x ≤ toDouble y := FloatFormat.round_mono h

theorem toDouble_nonneg {x : ℚ} (h : 0 ≤ x) : 0 ≤ toDouble x := FloatFormat.round_nonneg h

theorem toDouble_intCast {n : ℤ} (h : |n| < 2 ^ 53) : toDouble n = n :=
  FloatFormat.Holds.round_eq ⟨n, 0, by rw [zpow_zero, mul_one], h, by decide⟩

theorem round_le_round {x y : ℚ} (h : x ≤ y) : round x ≤ round y := by
  rw [round_eq, round_eq]
  exact Int.floor_le_floor (by linarith)

theorem zero_le_round {x : ℚ} (h : 0 ≤ x) : 0 ≤ round x := by
  simpa using round_le_round h

theorem finiteNonNegative_nonneg {value : JsNumber} {fallback : ℚ} (h : 0 ≤ fallback) :
    0 ≤ finiteNonNegative value fallback := by
  cases value with
  | finite value =>
      simp only [finiteNonNegative]
      split
      · assumption
      · exact h
  | infinity | negInfinity | nan => exact h

theorem exponential_nonneg (config : MigrationConfig) (attempt : ℕ) :
    0 ≤ config.exponential attempt := by
  have hbase : 0 ≤ config.safeBase := finiteNonNegative_nonneg (by norm_num)
  exact le_min (hbase.trans (le_max_left _ _)) (toDouble_nonneg (mul_nonneg hbase (by positivity)))

theorem spread_nonneg (config : MigrationConfig) (attempt : ℕ) : 0 ≤ config.spread attempt := by
  have hjitter : 0 ≤ config.safeJitter :=
    le_min zero_le_one (finiteNonNegative_nonneg (toDouble_nonneg (by norm_num)))
  exact toDouble_nonneg (mul_nonneg (exponential_nonneg config attempt) hjitter)

/-- A part of the spread, up or down, does not go beyond it. -/
theorem toDouble_spread_mul {attempt : ℕ} {part : ℚ} (h : |part| ≤ 1) :
    |toDouble (config.spread attempt * part)| ≤ config.spread attempt := by
  have hspread := spread_nonneg config attempt
  have hkept : toDouble (config.spread attempt) = config.spread attempt :=
    FloatFormat.round_round _
  obtain ⟨hlow, hhigh⟩ := abs_le.mp h
  refine abs_le.mpr ⟨?_, ?_⟩
  · have hneg : toDouble (-config.spread attempt) = -toDouble (config.spread attempt) :=
      FloatFormat.round_neg _
    calc -config.spread attempt = toDouble (-config.spread attempt) := by rw [hneg, hkept]
      _ ≤ toDouble (config.spread attempt * part) := toDouble_mono (by nlinarith)
  · calc toDouble (config.spread attempt * part) ≤ toDouble (config.spread attempt) :=
          toDouble_mono (mul_le_of_le_one_right hspread hhigh)
      _ = config.spread attempt := hkept

/-- The delay lies within the jitter around the exponential one. -/
theorem migrationRetryDelay_bounds (config : MigrationConfig) (attempt : ℕ) (random : JsNumber) :
    config.shortestDelay attempt ≤ migrationRetryDelay config attempt random ∧
      migrationRetryDelay config attempt random ≤ config.longestDelay attempt := by
  set unit := min 1 (max 0 (finiteNonNegative random (1 / 2)))
  have hunit : 0 ≤ unit ∧ unit ≤ 1 := ⟨le_min zero_le_one (le_max_left _ _), min_le_left _ _⟩
  have hpart : |toDouble (toDouble (unit * 2) - 1)| ≤ 1 := by
    have htwo : toDouble (unit * 2) ≤ 2 := by
      have hdouble : toDouble (2 : ℤ) = (2 : ℤ) := toDouble_intCast (by norm_num)
      push_cast at hdouble
      calc toDouble (unit * 2) ≤ toDouble 2 := toDouble_mono (by linarith [hunit.2])
        _ = 2 := hdouble
    have hzero : 0 ≤ toDouble (unit * 2) := toDouble_nonneg (by linarith [hunit.1])
    have hone : toDouble (1 : ℤ) = (1 : ℤ) := toDouble_intCast (by norm_num)
    have hminus : toDouble (-1 : ℤ) = (-1 : ℤ) := toDouble_intCast (by norm_num)
    push_cast at hone hminus
    refine abs_le.mpr ⟨?_, ?_⟩
    · rw [← hminus]
      exact toDouble_mono (by linarith)
    · rw [← hone]
      exact toDouble_mono (by linarith)
  have hjitter : |toDouble (config.spread attempt * toDouble (toDouble (unit * 2) - 1))| ≤
      config.spread attempt := toDouble_spread_mul hpart
  obtain ⟨hlow, hhigh⟩ := abs_le.mp hjitter
  constructor
  · exact le_max_of_le_right (round_le_round (toDouble_mono (by linarith)))
  · refine max_le ?_ (round_le_round (toDouble_mono (by linarith)))
    have hsum := add_nonneg (exponential_nonneg config attempt) (spread_nonneg config attempt)
    exact zero_le_round (toDouble_nonneg hsum)

/-- The exact delay is 22.5 here, and that of the doubles a little less. -/
example : migrationRetryDelay ⟨.finite 6, .finite 50, .finite 50, .finite (toDouble (11 / 20))⟩ 1
    (.finite 0) = 22 := by
  decide +kernel

end Delay

end Eventify
