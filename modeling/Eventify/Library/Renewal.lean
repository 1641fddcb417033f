import Mathlib.Algebra.Order.Ring.Int
import Mathlib.Tactic.Ring

/-!
# Renewals by an interval timer

A timer sends a renewal again and again. It may be late, a renewal takes its time
to be settled, and some fail. How long it has been since a point in time from
which every settled renewal has failed is bounded by the pace alone.
-/

namespace Library

/-- The timer is set to `every` and at most `late`; a renewal is settled within
`delay` of being sent, and at most `misses` in a row fail. -/
structure Pace where
  every : ℤ
  late : ℤ
  delay : ℤ
  misses : ℕ
  every_nonneg : 0 ≤ every
  late_nonneg : 0 ≤ late
  delay_nonneg : 0 ≤ delay

namespace Pace

def period (pace : Pace) : ℤ := pace.every + pace.late

def gap (pace : Pace) : ℤ := (pace.misses + 1) * pace.period + pace.delay

theorem period_nonneg (pace : Pace) : 0 ≤ pace.period :=
  Int.add_nonneg pace.every_nonneg pace.late_nonneg

theorem mul_period_le (pace : Pace) {m n : ℤ} (h : m ≤ n) : m * pace.period ≤ n * pace.period :=
  Int.mul_le_mul_of_nonneg_right h pace.period_nonneg

end Pace

/-- Since `base`, `failed` renewals have been settled, all in vain; `sent` are
those without an outcome, the oldest first, and the timer is due at `due`. -/
structure Renewing (pace : Pace) (base : ℤ) (failed : ℕ) (due : ℤ) (sent : List ℤ) (now : ℤ) :
    Prop where
  base_le : base ≤ now
  failed_le : failed ≤ pace.misses
  sent_le : ∀ (i : ℕ) time, sent[i]? = some time → time ≤ base + (failed + i + 1) * pace.period
  due_le : due + pace.late ≤ base + (failed + sent.length + 1) * pace.period
  settles : ∀ time ∈ sent, now ≤ base ∨ now ≤ time + pace.delay
  fires : now ≤ base ∨ now ≤ due + pace.late

namespace Renewing

variable {pace : Pace} {base due time now : ℤ} {failed : ℕ} {sent : List ℤ}

/-- Any point in time will do for the base, such as that of a renewal that did
not fail. -/
theorem start (hdue : due ≤ now + pace.every) (hsent : ∀ time ∈ sent, time ≤ now) :
    Renewing pace now 0 due sent now := by
  refine ⟨le_rfl, Nat.zero_le _, fun i time hi => ?_, ?_, fun _ _ => .inl le_rfl, .inl le_rfl⟩
  · have htime := hsent time (List.mem_of_getElem? hi)
    have hperiods := pace.mul_period_le (by omega : (0 : ℤ) ≤ ((0 : ℕ) : ℤ) + i + 1)
    omega
  · have hperiods := pace.mul_period_le (by omega : (1 : ℤ) ≤ ((0 : ℕ) : ℤ) + sent.length + 1)
    have hone : 1 * pace.period = pace.every + pace.late := one_mul _
    omega

theorem wait (h : Renewing pace base failed due sent now) {later : ℤ} (hlater : now ≤ later)
    (hsettles : ∀ time ∈ sent, later ≤ time + pace.delay) (hfires : later ≤ due + pace.late) :
    Renewing pace base failed due sent later :=
  ⟨h.base_le.trans hlater, h.failed_le, h.sent_le, h.due_le,
    fun time htime => .inr (hsettles time htime), .inr hfires⟩

theorem fire (h : Renewing pace base failed due sent now) :
    Renewing pace base failed (now + pace.every) (sent ++ [now]) now := by
  have hnext : (failed + sent.length + 1 : ℤ) * pace.period + pace.period =
      (failed + sent.length + 1 + 1) * pace.period := by ring
  have hperiods := pace.mul_period_le (by omega : (0 : ℤ) ≤ failed + sent.length + 1)
  have hnow : now ≤ base + (failed + sent.length + 1) * pace.period := by
    rcases h.fires with hbase | hdue
    · omega
    · exact hdue.trans h.due_le
  refine ⟨h.base_le, h.failed_le, fun i time hi => ?_, ?_, fun time htime => ?_, .inr ?_⟩
  · rcases Nat.lt_or_ge i sent.length with hlt | hge
    · rw [List.getElem?_append_left hlt] at hi
      exact h.sent_le i time hi
    · obtain ⟨hlen, rfl⟩ : i = sent.length ∧ now = time := by
        rw [List.getElem?_append_right hge, List.getElem?_singleton] at hi
        split at hi
        · exact ⟨by omega, Option.some.inj hi⟩
        · cases hi
      rw [hlen]
      exact hnow
  · rw [List.length_append, List.length_singleton, Nat.cast_add, Nat.cast_one, ← add_assoc, ← hnext]
    have hsum : pace.period = pace.every + pace.late := rfl
    omega
  · rcases List.mem_append.mp htime with hold | hnew
    · exact h.settles time hold
    · rw [List.mem_singleton.mp hnew]
      exact .inr (Int.le_add_of_nonneg_right pace.delay_nonneg)
  · have hevery := pace.every_nonneg
    have hlate := pace.late_nonneg
    omega

theorem fail (h : Renewing pace base failed due (time :: sent) now)
    (hfailed : failed + 1 ≤ pace.misses) : Renewing pace base (failed + 1) due sent now := by
  refine ⟨h.base_le, hfailed, fun i later hi => ?_, ?_, fun later hlater => ?_, h.fires⟩
  · have hlater := h.sent_le (i + 1) later hi
    push_cast at hlater ⊢
    rwa [add_right_comm (failed : ℤ) 1 (i : ℤ), add_assoc (failed : ℤ) (i : ℤ) 1]
  · have hdue := h.due_le
    push_cast [List.length_cons] at hdue ⊢
    rwa [add_right_comm (failed : ℤ) 1 (sent.length : ℤ),
      add_assoc (failed : ℤ) (sent.length : ℤ) 1]
  · exact h.settles later (List.mem_cons_of_mem time hlater)

theorem now_le (h : Renewing pace base failed due sent now) : now ≤ base + pace.gap := by
  have hperiods := pace.mul_period_le (by have := h.failed_le; omega :
    (failed + 1 : ℤ) ≤ pace.misses + 1)
  have hnonneg := pace.mul_period_le (by omega : (0 : ℤ) ≤ failed + 1)
  have hdelay := pace.delay_nonneg
  have hgap : pace.gap = (pace.misses + 1) * pace.period + pace.delay := rfl
  cases sent with
  | nil =>
      have hdue := h.due_le
      rw [List.length_nil, Nat.cast_zero, add_zero] at hdue
      rcases h.fires with hbase | hfires <;> omega
  | cons time sent =>
      have htime := h.sent_le 0 time rfl
      rw [Nat.cast_zero, add_zero] at htime
      rcases h.settles time List.mem_cons_self with hbase | hsettles <;> omega

end Renewing

end Library
