import Mathlib.Data.Int.Log
import Mathlib.Data.Rat.Floor
import Mathlib.Algebra.Order.Field.Power
import Mathlib.Tactic.Linarith
import Mathlib.Tactic.Positivity
import Mathlib.Tactic.Ring

/-!
# Rounding to a binary floating-point format

A format keeps a number of binary digits behind the leading one and has a least
exponent. Rounding goes to the nearest number of the format, between two of them
to the even one. The exponents have no upper bound here.
-/

namespace Library

def roundHalfEven (x : ℚ) : ℤ :=
  if x - ⌊x⌋ < 1 / 2 ∨ x - ⌊x⌋ = 1 / 2 ∧ ⌊x⌋ % 2 = 0 then ⌊x⌋ else ⌊x⌋ + 1

/-- A nearest integer, the even one of two. -/
def NearestEven (x : ℚ) (n : ℤ) : Prop :=
  |x - n| ≤ 1 / 2 ∧ (|x - n| = 1 / 2 → n % 2 = 0)

theorem nearestEven_roundHalfEven (x : ℚ) : NearestEven x (roundHalfEven x) := by
  have hfloor : 0 ≤ x - ⌊x⌋ := sub_nonneg.mpr (Int.floor_le x)
  have hlt : x - ⌊x⌋ < 1 := by linarith [Int.lt_floor_add_one x]
  rw [roundHalfEven]
  split
  · next hdown =>
      rw [NearestEven, abs_of_nonneg hfloor]
      rcases hdown with hlow | ⟨htie, heven⟩
      · exact ⟨hlow.le, fun htie => absurd htie hlow.ne⟩
      · exact ⟨htie.le, fun _ => heven⟩
  · next hup =>
      rw [not_or, not_lt, not_and] at hup
      obtain ⟨hhigh, htie⟩ := hup
      have habs : |x - ((⌊x⌋ + 1 : ℤ) : ℚ)| = 1 - (x - ⌊x⌋) := by
        rw [abs_of_nonpos (by push_cast; linarith)]
        push_cast
        ring
      rw [NearestEven, habs]
      refine ⟨by linarith, fun heq => ?_⟩
      have hodd := htie (by linarith)
      omega

theorem NearestEven.mono {x y : ℚ} {m n : ℤ} (hm : NearestEven x m) (hn : NearestEven y n)
    (h : x ≤ y) : m ≤ n := by
  by_contra hlt
  have hsucc : ((n + 1 : ℤ) : ℚ) ≤ m := Int.cast_le.mpr (not_le.mp hlt)
  push_cast at hsucc
  have hx := abs_le.mp hm.1
  have hy := abs_le.mp hn.1
  -- both lie in the middle, and of two neighbours one is odd
  have hmid : x - m = -(1 / 2) := by linarith [hx.1, hy.2]
  have hmid' : y - n = 1 / 2 := by linarith [hx.1, hy.2]
  have hmeven := hm.2 (by rw [hmid]; norm_num)
  have hneven := hn.2 (by rw [hmid']; norm_num)
  have hnext : (m : ℚ) = ((n + 1 : ℤ) : ℚ) := by
    push_cast
    linarith
  have hnext' := Int.cast_injective hnext
  omega

theorem NearestEven.unique {x : ℚ} {m n : ℤ} (hm : NearestEven x m) (hn : NearestEven x n) :
    m = n :=
  le_antisymm (hm.mono hn le_rfl) (hn.mono hm le_rfl)

theorem roundHalfEven_mono {x y : ℚ} (h : x ≤ y) : roundHalfEven x ≤ roundHalfEven y :=
  (nearestEven_roundHalfEven x).mono (nearestEven_roundHalfEven y) h

theorem roundHalfEven_intCast (n : ℤ) : roundHalfEven n = n :=
  (nearestEven_roundHalfEven n).unique ⟨by norm_num, by norm_num⟩

theorem roundHalfEven_neg (x : ℚ) : roundHalfEven (-x) = -roundHalfEven x := by
  obtain ⟨hnear, htie⟩ := nearestEven_roundHalfEven x
  have habs : |-x - ((-roundHalfEven x : ℤ) : ℚ)| = |x - roundHalfEven x| := by
    rw [← abs_neg]
    congr 1
    push_cast
    ring
  refine (nearestEven_roundHalfEven (-x)).unique ⟨habs ▸ hnear, fun h => ?_⟩
  have heven := htie (habs ▸ h)
  omega

structure FloatFormat where
  fractionBits : ℕ
  minExponent : ℤ

def binary64 : FloatFormat := ⟨52, -1074⟩

namespace FloatFormat

variable (F : FloatFormat)

/-- The exponent of the last digit that is kept of a number. -/
def exponent (x : ℚ) : ℤ := max (Int.log 2 |x| - F.fractionBits) F.minExponent

def round (x : ℚ) : ℚ := roundHalfEven (x / 2 ^ F.exponent x) * 2 ^ F.exponent x

variable {F} {x y z : ℚ} {n : ℤ}

theorem le_round (h : n * 2 ^ F.exponent x ≤ x) : n * 2 ^ F.exponent x ≤ F.round x := by
  have hpos : (0 : ℚ) < 2 ^ F.exponent x := by positivity
  have hn : n ≤ roundHalfEven (x / 2 ^ F.exponent x) := by
    rw [← roundHalfEven_intCast n]
    exact roundHalfEven_mono ((le_div_iff₀ hpos).mpr h)
  exact mul_le_mul_of_nonneg_right (Int.cast_le.mpr hn) hpos.le

theorem round_le (h : x ≤ n * 2 ^ F.exponent x) : F.round x ≤ n * 2 ^ F.exponent x := by
  have hpos : (0 : ℚ) < 2 ^ F.exponent x := by positivity
  have hn : roundHalfEven (x / 2 ^ F.exponent x) ≤ n := by
    rw [← roundHalfEven_intCast n]
    exact roundHalfEven_mono ((div_le_iff₀ hpos).mpr h)
  exact mul_le_mul_of_nonneg_right (Int.cast_le.mpr hn) hpos.le

theorem round_zero : F.round 0 = 0 := by
  simp [round, roundHalfEven]

theorem round_neg (x : ℚ) : F.round (-x) = -F.round x := by
  have hexponent : F.exponent (-x) = F.exponent x := by rw [exponent, exponent, abs_neg]
  rw [round, round, hexponent, neg_div, roundHalfEven_neg, Int.cast_neg, neg_mul]

theorem round_nonneg (h : 0 ≤ x) : 0 ≤ F.round x := by
  simpa using F.le_round (n := 0) (by simpa using h)

/-- A power of two from the last kept digit on is a multiple of it. -/
theorem exists_mul_exponent {k : ℤ} (h : F.exponent x ≤ k) :
    ∃ n : ℤ, (2 : ℚ) ^ k = n * 2 ^ F.exponent x := by
  obtain ⟨d, hd⟩ := Int.le.dest h
  refine ⟨2 ^ d, ?_⟩
  rw [← hd, zpow_add₀ two_ne_zero, zpow_natCast]
  push_cast
  ring

theorem round_mono_of_nonneg (hx : 0 ≤ x) (h : x ≤ y) : F.round x ≤ F.round y := by
  rcases hx.eq_or_lt with rfl | hpos
  · rw [round_zero]
    exact round_nonneg h
  have hypos := hpos.trans_le h
  have hlog : Int.log 2 |x| ≤ Int.log 2 |y| := by
    rw [abs_of_pos hpos, abs_of_pos hypos]
    exact Int.log_mono_right hpos h
  have hexponent : F.exponent x ≤ F.exponent y := by
    simp only [exponent]
    omega
  rcases hexponent.eq_or_lt with heq | hlt
  · rw [round, round, heq]
    have hround := roundHalfEven_mono (div_le_div_of_nonneg_right h
      (zpow_nonneg zero_le_two (F.exponent y)))
    exact mul_le_mul_of_nonneg_right (Int.cast_le.mpr hround) (zpow_nonneg zero_le_two _)
  · -- the leading digit of the greater number lies between
    have hbetween : Int.log 2 |x| + 1 ≤ Int.log 2 |y| := by
      simp only [exponent] at hlt
      omega
    obtain ⟨m, hm⟩ := exists_mul_exponent (F := F) (x := x) (k := Int.log 2 |y|)
      (by simp only [exponent] at hlt ⊢; omega)
    obtain ⟨n, hn⟩ := exists_mul_exponent (F := F) (x := y) (k := Int.log 2 |y|)
      (by simp only [exponent] at hlt ⊢; omega)
    have hlow : x ≤ 2 ^ Int.log 2 |y| := by
      have hsucc := Int.lt_zpow_succ_log_self (R := ℚ) one_lt_two |x|
      rw [abs_of_pos hpos] at hsucc hbetween
      exact (hsucc.trans_le (zpow_le_zpow_right₀ one_le_two hbetween)).le
    have hhigh : (2 : ℚ) ^ Int.log 2 |y| ≤ y := by
      have hself := Int.zpow_log_le_self (R := ℚ) one_lt_two hypos
      rw [abs_of_pos hypos]
      exact_mod_cast hself
    calc F.round x ≤ 2 ^ Int.log 2 |y| := hm ▸ round_le (hm ▸ hlow)
      _ ≤ F.round y := hn ▸ le_round (hn ▸ hhigh)

theorem round_mono : Monotone F.round := by
  intro x y h
  rcases le_total 0 x with hx | hx
  · exact round_mono_of_nonneg hx h
  rcases le_total 0 y with hy | hy
  · have hneg := round_nonneg (F := F) (neg_nonneg.mpr hx)
    rw [round_neg] at hneg
    exact (neg_nonneg.mp hneg).trans (round_nonneg hy)
  · have hneg := round_mono_of_nonneg (F := F) (neg_nonneg.mpr hy) (neg_le_neg h)
    rw [round_neg, round_neg] at hneg
    exact neg_le_neg_iff.mp hneg

/-- The numbers of the format. -/
def Holds (F : FloatFormat) (z : ℚ) : Prop :=
  ∃ (n k : ℤ), z = n * 2 ^ k ∧ |n| < 2 ^ (F.fractionBits + 1) ∧ F.minExponent ≤ k

theorem holds_round (x : ℚ) : F.Holds (F.round x) := by
  have hpos : (0 : ℚ) < 2 ^ F.exponent x := by positivity
  have hmin : F.minExponent ≤ F.exponent x := le_max_right _ _
  have hbelow : |x / 2 ^ F.exponent x| ≤ ((2 ^ (F.fractionBits + 1) : ℤ) : ℚ) := by
    have hsucc := Int.lt_zpow_succ_log_self (R := ℚ) one_lt_two |x|
    have hexponent : Int.log 2 |x| + 1 ≤ ((F.fractionBits + 1 : ℕ) : ℤ) + F.exponent x := by
      simp only [exponent]
      omega
    rw [abs_div, abs_of_pos hpos, div_le_iff₀ hpos]
    push_cast
    rw [← zpow_natCast, ← zpow_add₀ two_ne_zero]
    exact hsucc.le.trans (zpow_le_zpow_right₀ one_le_two hexponent)
  obtain ⟨hlow, hhigh⟩ := abs_le.mp hbelow
  have hround : |roundHalfEven (x / 2 ^ F.exponent x)| ≤ 2 ^ (F.fractionBits + 1) := by
    have hhigh' := roundHalfEven_mono hhigh
    have hlow' := roundHalfEven_mono hlow
    rw [roundHalfEven_intCast] at hhigh'
    rw [roundHalfEven_neg, roundHalfEven_intCast] at hlow'
    exact abs_le.mpr ⟨hlow', hhigh'⟩
  rcases hround.lt_or_eq with hlt | heq
  · exact ⟨_, _, rfl, hlt, hmin⟩
  · -- the carry into the next exponent
    have hcarry : ∃ m : ℤ, roundHalfEven (x / 2 ^ F.exponent x) = m * 2 ∧
        |m| < 2 ^ (F.fractionBits + 1) := by
      have hpow : (2 : ℤ) ^ (F.fractionBits + 1) = 2 ^ F.fractionBits * 2 := pow_succ _ _
      have hfraction : (0 : ℤ) < 2 ^ F.fractionBits := by positivity
      rcases eq_or_eq_neg_of_abs_eq heq with hplus | hminus
      · exact ⟨2 ^ F.fractionBits, by omega, by rw [abs_of_pos hfraction]; omega⟩
      · exact ⟨-2 ^ F.fractionBits, by omega, by rw [abs_neg, abs_of_pos hfraction]; omega⟩
    obtain ⟨m, hm, hbound⟩ := hcarry
    refine ⟨m, F.exponent x + 1, ?_, hbound, by omega⟩
    rw [round, hm, zpow_add_one₀ two_ne_zero]
    push_cast
    ring

theorem Holds.round_eq (h : F.Holds z) : F.round z = z := by
  obtain ⟨n, k, hz, hn, hmin⟩ := h
  rcases eq_or_ne n 0 with rfl | hne
  · rw [hz, Int.cast_zero, zero_mul, round_zero]
  have hlt : |z| < ((2 : ℕ) : ℚ) ^ (((F.fractionBits + 1 : ℕ) : ℤ) + k) := by
    rw [hz, abs_mul, abs_of_pos (by positivity : (0 : ℚ) < 2 ^ k)]
    push_cast
    rw [zpow_add₀ two_ne_zero]
    refine mul_lt_mul_of_pos_right ?_ (by positivity)
    exact_mod_cast hn
  have hpos : 0 < |z| := by
    rw [hz]
    exact abs_pos.mpr (mul_ne_zero (Int.cast_ne_zero.mpr hne) (by positivity))
  have hexponent : F.exponent z ≤ k := by
    have hlog := (Int.lt_zpow_iff_log_lt one_lt_two hpos).mp hlt
    simp only [exponent]
    omega
  obtain ⟨m, hm⟩ := exists_mul_exponent hexponent
  have hmul : z = ((n * m : ℤ) : ℚ) * 2 ^ F.exponent z := by
    conv_lhs => rw [hz, hm]
    push_cast
    ring
  exact le_antisymm ((round_le hmul.le).trans hmul.ge) (hmul.le.trans (le_round hmul.ge))

theorem round_round (x : ℚ) : F.round (F.round x) = F.round x := (holds_round x).round_eq

end FloatFormat

end Library
