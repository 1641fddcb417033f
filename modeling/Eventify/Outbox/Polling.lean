import Eventify.Domain
import Mathlib.Algebra.Order.Ring.Basic
import Mathlib.Algebra.Order.Ring.Int
import Mathlib.Data.List.DropRight

/-!
# The poll delay of the worker

`tick` and `scheduleNextPoll` of the worker, with `nextOutboxPollDelay`. Each
delay is computed from the one before it, which is already cut off at the
ceiling, and the first one from a tick outside the loop.
-/

namespace Eventify

/-- `OUTBOX_POLL_MS` and `OUTBOX_IDLE_MAX_POLL_MS`. -/
structure PollConfig (α : Type*) where
  baseMs : α
  maxIdleMs : α
  deriving DecidableEq

section Numbers

variable {α : Type*} [Semiring α] [LinearOrder α]

def nextOutboxPollDelay (config : PollConfig α) (currentMs : α) (dispatched : Option ℕ) : α :=
  let baseMs := max 1 config.baseMs
  let maxIdleMs := max baseMs config.maxIdleMs
  match dispatched with
  | none => baseMs
  | some count => if 0 < count then baseMs else min maxIdleMs (max baseMs (currentMs * 2))

end Numbers

/-- What a call of `tick` finds: the flag `dispatching`, and what
`dispatchOutbox` comes to when it is called. -/
structure Tick where
  dispatching : Bool
  dispatchOutbox : Except Failure ℕ

/-- What `tick` returns: a skipped tick and one whose pass throws return `null`. -/
def Tick.dispatched (tick : Tick) : Option ℕ :=
  if tick.dispatching then none
  else
    match tick.dispatchOutbox with
    | .ok dispatched => some dispatched
    | .error _ => none

/-- The tick has found no rows. -/
def Tick.idle (tick : Tick) : Bool := tick.dispatched == some 0

/-- The idle ticks in a row at the end of the ticks. -/
def idleStreak (ticks : List Tick) : ℕ := (ticks.rtakeWhile Tick.idle).length

section Numbers

variable {α : Type*} [Semiring α] [LinearOrder α]

/-- `currentPollMs` before `scheduleNextPoll` is called for the first time. -/
def initialPollMs (config : PollConfig α) (initial : Tick) : α :=
  nextOutboxPollDelay config config.baseMs initial.dispatched

/-- `currentPollMs` after the initial tick and the ticks of the timer. -/
def currentPollMs (config : PollConfig α) (initial : Tick) (ticks : List Tick) : α :=
  ticks.foldl (fun currentMs tick => nextOutboxPollDelay config currentMs tick.dispatched)
    (initialPollMs config initial)

end Numbers

/-! ### The streak -/

theorem idleStreak_nil : idleStreak [] = 0 := rfl

theorem idleStreak_append_idle {tick : Tick} (h : tick.idle = true) (ticks : List Tick) :
    idleStreak (ticks ++ [tick]) = idleStreak ticks + 1 := by
  unfold idleStreak
  rw [List.rtakeWhile_concat_pos _ _ _ h, List.length_append, List.length_singleton]

theorem idleStreak_append_busy {tick : Tick} (h : tick.idle = false) (ticks : List Tick) :
    idleStreak (ticks ++ [tick]) = 0 := by
  unfold idleStreak
  rw [List.rtakeWhile_concat_neg _ _ _ (by simp [h]), List.length_nil]

/-! ### One delay -/

section Delay

variable {α : Type*} [Semiring α] [LinearOrder α] {config : PollConfig α}

/-- The delay of `k` idle ticks in a row. -/
def idleDelay (config : PollConfig α) (k : ℕ) : α :=
  min (max config.baseMs config.maxIdleMs) (config.baseMs * 2 ^ k)

theorem idleDelay_zero : idleDelay config 0 = config.baseMs := by
  simp [idleDelay]

theorem idleDelay_le_ceiling (k : ℕ) : idleDelay config k ≤ max config.baseMs config.maxIdleMs :=
  min_le_left _ _

theorem nextOutboxPollDelay_busy (hbase : 1 ≤ config.baseMs) {tick : Tick}
    (h : tick.idle = false) (currentMs : α) :
    nextOutboxPollDelay config currentMs tick.dispatched = config.baseMs := by
  simp only [nextOutboxPollDelay, max_eq_right hbase]
  cases hcount : tick.dispatched with
  | none => rfl
  | some count =>
      have hne : count ≠ 0 := by
        rintro rfl
        simp [Tick.idle, hcount] at h
      exact if_pos (Nat.pos_of_ne_zero hne)

variable [IsStrictOrderedRing α]

theorem base_le_idleDelay (hbase : 1 ≤ config.baseMs) (k : ℕ) :
    config.baseMs ≤ idleDelay config k := by
  have hpos : 0 ≤ config.baseMs := zero_le_one.trans hbase
  refine le_min (le_max_left _ _) ?_
  exact le_mul_of_one_le_right hpos (one_le_pow₀ one_le_two)

theorem idleDelay_le_succ (hbase : 1 ≤ config.baseMs) (k : ℕ) :
    idleDelay config k ≤ idleDelay config (k + 1) := by
  have hpos : 0 ≤ config.baseMs := zero_le_one.trans hbase
  refine min_le_min_left _ ?_
  exact mul_le_mul_of_nonneg_left (pow_le_pow_right₀ one_le_two (Nat.le_succ k)) hpos

/-- Doubling a delay that is cut off at the ceiling, and cutting off the
double, is cutting off the doubled delay once. -/
theorem min_double_min {ceiling delay : α} (hceiling : 0 ≤ ceiling) :
    min ceiling (min ceiling delay * 2) = min ceiling (delay * 2) := by
  have hdouble : ceiling ≤ ceiling * 2 := le_mul_of_one_le_right hceiling one_le_two
  rw [min_mul_of_nonneg _ _ zero_le_two, ← min_assoc, min_eq_left hdouble]

theorem nextOutboxPollDelay_idle (hbase : 1 ≤ config.baseMs) {tick : Tick}
    (h : tick.idle = true) (k : ℕ) :
    nextOutboxPollDelay config (idleDelay config k) tick.dispatched = idleDelay config (k + 1) := by
  have hcount : tick.dispatched = some 0 := by simpa [Tick.idle] using h
  have hpos : 0 ≤ idleDelay config k :=
    (zero_le_one.trans hbase).trans (base_le_idleDelay hbase k)
  have hgrows : config.baseMs ≤ idleDelay config k * 2 :=
    (base_le_idleDelay hbase k).trans (le_mul_of_one_le_right hpos one_le_two)
  have hceiling : 0 ≤ max config.baseMs config.maxIdleMs :=
    (zero_le_one.trans hbase).trans (le_max_left _ _)
  simp only [nextOutboxPollDelay, hcount, max_eq_right hbase, lt_irrefl, if_false,
    max_eq_right hgrows]
  rw [idleDelay, min_double_min hceiling, idleDelay, pow_succ, mul_assoc]

end Delay

/-! ### Every run of ticks -/

section Runs

variable {α : Type*} [Semiring α] [LinearOrder α] {config : PollConfig α}

theorem currentPollMs_append (config : PollConfig α) (initial : Tick) (ticks : List Tick)
    (tick : Tick) :
    currentPollMs config initial (ticks ++ [tick]) =
      nextOutboxPollDelay config (currentPollMs config initial ticks) tick.dispatched := by
  simp [currentPollMs]

variable [IsStrictOrderedRing α]

theorem initialPollMs_eq (hbase : 1 ≤ config.baseMs) (initial : Tick) :
    initialPollMs config initial = idleDelay config (idleStreak [initial]) := by
  rw [← List.nil_append [initial]]
  cases hidle : initial.idle with
  | false =>
      rw [initialPollMs, nextOutboxPollDelay_busy hbase hidle,
        idleStreak_append_busy hidle, idleDelay_zero]
  | true =>
      have hnext := nextOutboxPollDelay_idle hbase hidle 0
      rw [idleDelay_zero] at hnext
      rw [initialPollMs, hnext, idleStreak_append_idle hidle, idleStreak_nil]

/-- The invariant of the loop, by induction on the ticks that have ended. -/
theorem currentPollMs_eq (hbase : 1 ≤ config.baseMs) (initial : Tick) (ticks : List Tick) :
    currentPollMs config initial ticks = idleDelay config (idleStreak (initial :: ticks)) := by
  induction ticks using List.reverseRecOn with
  | nil => exact initialPollMs_eq hbase initial
  | append_singleton ticks tick ih =>
      rw [currentPollMs_append, ih, ← List.cons_append]
      cases hidle : tick.idle with
      | false =>
          rw [nextOutboxPollDelay_busy hbase hidle, idleStreak_append_busy hidle, idleDelay_zero]
      | true => rw [nextOutboxPollDelay_idle hbase hidle, idleStreak_append_idle hidle]

/-- After every outcome the delay is the one of its idle streak, within its
bounds; a further idle tick does not lower it, any other resets it. -/
theorem currentPollMs_follows_streak (config : PollConfig α) (hbase : 1 ≤ config.baseMs)
    (initial : Tick) (ticks : List Tick) :
    currentPollMs config initial ticks =
        min (max config.baseMs config.maxIdleMs)
          (config.baseMs * 2 ^ idleStreak (initial :: ticks)) ∧
      config.baseMs ≤ currentPollMs config initial ticks ∧
      currentPollMs config initial ticks ≤ max config.baseMs config.maxIdleMs ∧
      ∀ tick : Tick,
        (tick.dispatched = some 0 → currentPollMs config initial ticks ≤
          currentPollMs config initial (ticks ++ [tick])) ∧
        (tick.dispatched ≠ some 0 →
          currentPollMs config initial (ticks ++ [tick]) = config.baseMs) := by
  have hdelay := currentPollMs_eq hbase initial ticks
  refine ⟨hdelay, ?_, ?_, fun tick => ⟨fun hzero => ?_, fun hnonzero => ?_⟩⟩
  · rw [hdelay]
    exact base_le_idleDelay hbase _
  · rw [hdelay]
    exact idleDelay_le_ceiling _
  · have hidle : tick.idle = true := by simp [Tick.idle, hzero]
    rw [currentPollMs_append, hdelay, nextOutboxPollDelay_idle hbase hidle]
    exact idleDelay_le_succ hbase _
  · have hbusy : tick.idle = false := by simp [Tick.idle, hnonzero]
    rw [currentPollMs_append, nextOutboxPollDelay_busy hbase hbusy]

/-- A ceiling of 15 seconds that two idle ticks after the initial one have not
reached. -/
theorem currentPollMs_follows_streak_idle :
    currentPollMs (⟨2000, 15000⟩ : PollConfig ℤ) ⟨false, .ok 3⟩
      [⟨false, .ok 0⟩, ⟨false, .ok 0⟩] = 8000 :=
  (currentPollMs_follows_streak (⟨2000, 15000⟩ : PollConfig ℤ) (by decide) ⟨false, .ok 3⟩
    [⟨false, .ok 0⟩, ⟨false, .ok 0⟩]).1.trans
      (by simp [idleStreak, List.rtakeWhile, Tick.idle, Tick.dispatched])

end Runs

end Eventify
