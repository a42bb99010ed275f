import HealingGateway.Library.Numerals
import Mathlib.Algebra.Order.Field.Power
import Mathlib.Data.Rat.Floor
import Mathlib.Tactic.Linarith
import Mathlib.Tactic.NormNum
import Mathlib.Tactic.Positivity

namespace Floats

open Numerals

section Whole

variable {x y : ℚ} {n : ℤ}

theorem roundHalfEven_bounds (x : ℚ) : x - 1 / 2 ≤ roundHalfEven x ∧ roundHalfEven x ≤ x + 1 / 2 := by
  have hle := Rat.floor_le x
  have hlt := Rat.lt_floor_add_one x
  push_cast at hlt
  unfold roundHalfEven
  dsimp only
  split
  · constructor <;> linarith
  · split
    · push_cast
      constructor <;> linarith
    · split
      · constructor <;> linarith
      · push_cast
        constructor <;> linarith

theorem roundHalfEven_mono (h : x ≤ y) : roundHalfEven x ≤ roundHalfEven y := by
  by_contra hlt
  have hsucc : (roundHalfEven y : ℚ) + 1 ≤ roundHalfEven x := by exact_mod_cast not_le.mp hlt
  have hx := (roundHalfEven_bounds x).2
  have hy := (roundHalfEven_bounds y).1
  obtain rfl : x = y := le_antisymm h (by linarith)
  exact hlt le_rfl

@[simp] theorem roundHalfEven_intCast (n : ℤ) : roundHalfEven n = n := by
  simp [roundHalfEven]

theorem roundHalfEven_le (h : x ≤ n) : roundHalfEven x ≤ n :=
  (roundHalfEven_mono h).trans_eq (roundHalfEven_intCast n)

theorem le_roundHalfEven (h : n ≤ x) : n ≤ roundHalfEven x :=
  (roundHalfEven_intCast n).symm.trans_le (roundHalfEven_mono h)

end Whole

/-- The exponent of the leading binary digit of a positive number. -/
def exponent (x : ℚ) : ℤ :=
  let e : ℤ := x.num.natAbs.log2 - x.den.log2
  if x < 2 ^ e then e - 1 else e

/-- What the last of `p` binary digits of a positive number is worth. -/
def unit (p : ℕ) (x : ℚ) : ℚ := 2 ^ (exponent x + 1 - p)

/-- The float of `p` digits nearest to a positive number, and of two the even one. -/
def nearest (p : ℕ) (x : ℚ) : ℚ := roundHalfEven (x / unit p x) * unit p x

/-- Rounding to nearest, ties to even, without bounds on the exponent. -/
def rounded (p : ℕ) (x : ℚ) : ℚ := if x < 0 then -nearest p (-x) else nearest p x

/-- What the arithmetic of IEEE doubles makes of a number. -/
def binary64 (x : ℚ) : ℚ := rounded 53 x

section Exponent

variable {x y : ℚ} {p : ℕ}

theorem exponent_spec (hx : 0 < x) : 2 ^ exponent x ≤ x ∧ x < 2 ^ (exponent x + 1) := by
  have hnum : x.num.natAbs ≠ 0 := by
    rw [Int.natAbs_ne_zero, Rat.num_ne_zero]
    exact hx.ne'
  have hden : (0 : ℚ) < x.den := by exact_mod_cast x.den_pos
  have hmul : x * x.den = x.num.natAbs := by
    rw [Rat.mul_den_eq_num, ← Int.cast_natCast, Int.natAbs_of_nonneg (Rat.num_nonneg.mpr hx.le)]
  have hnumLow : (2 : ℚ) ^ (x.num.natAbs.log2 : ℤ) ≤ x.num.natAbs := by
    exact_mod_cast Nat.log2_self_le hnum
  have hnumHigh : (x.num.natAbs : ℚ) < 2 ^ ((x.num.natAbs.log2 : ℤ) + 1) := by
    exact_mod_cast Nat.lt_log2_self (n := x.num.natAbs)
  have hdenLow : (2 : ℚ) ^ (x.den.log2 : ℤ) ≤ x.den := by
    exact_mod_cast Nat.log2_self_le x.den_ne_zero
  have hdenHigh : (x.den : ℚ) < 2 ^ ((x.den.log2 : ℤ) + 1) := by
    exact_mod_cast Nat.lt_log2_self (n := x.den)
  have hpow : ∀ e : ℤ, (0 : ℚ) < 2 ^ e := fun e ↦ by positivity
  set a := (x.num.natAbs.log2 : ℤ)
  set b := (x.den.log2 : ℤ)
  have hlow : (2 : ℚ) ^ (a - b - 1) ≤ x := by
    refine le_of_mul_le_mul_right ?_ hden
    calc (2 : ℚ) ^ (a - b - 1) * x.den ≤ 2 ^ (a - b - 1) * 2 ^ (b + 1) :=
          mul_le_mul_of_nonneg_left hdenHigh.le (hpow _).le
      _ = 2 ^ a := by rw [← zpow_add₀ two_ne_zero]; congr 1; ring
      _ ≤ x * x.den := by rw [hmul]; exact hnumLow
  have hhigh : x < (2 : ℚ) ^ (a - b + 1) := by
    refine lt_of_mul_lt_mul_right ?_ hden.le
    calc x * x.den < 2 ^ (a + 1) := by rw [hmul]; exact hnumHigh
      _ = 2 ^ (a - b + 1) * 2 ^ b := by rw [← zpow_add₀ two_ne_zero]; congr 1; ring
      _ ≤ 2 ^ (a - b + 1) * x.den := mul_le_mul_of_nonneg_left hdenLow (hpow _).le
  unfold exponent
  dsimp only
  split
  · next h => exact ⟨hlow, by rwa [sub_add_cancel]⟩
  · next h => exact ⟨not_lt.mp h, hhigh⟩

theorem exponent_mono (hx : 0 < x) (h : x ≤ y) : exponent x ≤ exponent y := by
  have hpow : (2 : ℚ) ^ exponent x < 2 ^ (exponent y + 1) :=
    (exponent_spec hx).1.trans_lt (h.trans_lt (exponent_spec (hx.trans_le h)).2)
  have hlt := (zpow_lt_zpow_iff_right₀ (by norm_num : (1 : ℚ) < 2)).mp hpow
  omega

theorem unit_pos (p : ℕ) (x : ℚ) : 0 < unit p x := by
  unfold unit
  positivity

theorem zpow_mul_unit (p : ℕ) (x : ℚ) (k : ℕ) : ((2 ^ k : ℤ) : ℚ) * unit p x = 2 ^ (exponent x + 1 - p + k) := by
  rw [unit, zpow_add₀ two_ne_zero _ (k : ℤ), mul_comm]
  norm_num

end Exponent

section Nearest

variable {x y : ℚ} {p : ℕ}

theorem nearest_le (p : ℕ) (hx : 0 < x) : nearest p x ≤ 2 ^ (exponent x + 1) := by
  have hpow : ((2 ^ p : ℤ) : ℚ) * unit p x = 2 ^ (exponent x + 1) := by
    rw [zpow_mul_unit, sub_add_cancel]
  have hround : roundHalfEven (x / unit p x) ≤ 2 ^ p := by
    refine roundHalfEven_le ?_
    rw [div_le_iff₀ (unit_pos p x), hpow]
    exact (exponent_spec hx).2.le
  rw [nearest, ← hpow]
  exact mul_le_mul_of_nonneg_right (by exact_mod_cast hround) (unit_pos p x).le

theorem le_nearest (hp : 0 < p) (hx : 0 < x) : 2 ^ exponent x ≤ nearest p x := by
  have hpow : ((2 ^ (p - 1) : ℤ) : ℚ) * unit p x = 2 ^ exponent x := by
    rw [zpow_mul_unit]
    congr 1
    omega
  have hround : 2 ^ (p - 1) ≤ roundHalfEven (x / unit p x) := by
    refine le_roundHalfEven ?_
    rw [le_div_iff₀ (unit_pos p x), hpow]
    exact (exponent_spec hx).1
  rw [nearest, ← hpow]
  exact mul_le_mul_of_nonneg_right (by exact_mod_cast hround) (unit_pos p x).le

/-- Rounding keeps the order: on one unit as rounding to whole numbers does, and past a power of
two as no rounding crosses it. -/
theorem nearest_mono (hp : 0 < p) (hx : 0 < x) (h : x ≤ y) : nearest p x ≤ nearest p y := by
  rcases (exponent_mono hx h).eq_or_lt with he | he
  · have hunit : unit p x = unit p y := by rw [unit, unit, he]
    have hround := roundHalfEven_mono (div_le_div_of_nonneg_right h (unit_pos p y).le)
    rw [nearest, nearest, hunit]
    exact mul_le_mul_of_nonneg_right (by exact_mod_cast hround) (unit_pos p y).le
  · calc nearest p x ≤ 2 ^ (exponent x + 1) := nearest_le p hx
      _ ≤ 2 ^ exponent y := zpow_le_zpow_right₀ (by norm_num) (by omega)
      _ ≤ nearest p y := le_nearest hp (hx.trans_le h)

@[simp] theorem nearest_zero (p : ℕ) : nearest p 0 = 0 := by
  have hround : roundHalfEven 0 = 0 := by simpa using roundHalfEven_intCast 0
  rw [nearest, zero_div, hround, Int.cast_zero, zero_mul]

theorem nearest_nonneg (p : ℕ) (hx : 0 ≤ x) : 0 ≤ nearest p x := by
  have hround : 0 ≤ roundHalfEven (x / unit p x) :=
    le_roundHalfEven (by simpa using div_nonneg hx (unit_pos p x).le)
  exact mul_nonneg (by exact_mod_cast hround) (unit_pos p x).le

theorem rounded_mono (hp : 0 < p) : Monotone (rounded p) := by
  intro x y h
  unfold rounded
  rcases lt_or_ge x 0 with hx | hx
  · rw [if_pos hx]
    have hnonpos : -nearest p (-x) ≤ 0 := neg_nonpos.mpr (nearest_nonneg p (by linarith))
    rcases lt_or_ge y 0 with hy | hy
    · rw [if_pos hy]
      exact neg_le_neg (nearest_mono hp (by linarith) (by linarith))
    · rw [if_neg (not_lt.mpr hy)]
      exact hnonpos.trans (nearest_nonneg p hy)
  · rw [if_neg (not_lt.mpr hx), if_neg (not_lt.mpr (hx.trans h))]
    rcases hx.eq_or_lt with rfl | hx
    · rw [nearest_zero]
      exact nearest_nonneg p h
    · exact nearest_mono hp hx h

theorem rounded_natCast {m : ℕ} (h : m < 2 ^ p) : rounded p m = m := by
  rw [rounded, if_neg (not_lt.mpr m.cast_nonneg)]
  rcases Nat.eq_zero_or_pos m with rfl | hm
  · simp
  · have hpos : (0 : ℚ) < m := by exact_mod_cast hm
    have hlt : (2 : ℚ) ^ exponent m < 2 ^ (p : ℤ) :=
      (exponent_spec hpos).1.trans_lt (by exact_mod_cast h)
    have he := (zpow_lt_zpow_iff_right₀ (by norm_num : (1 : ℚ) < 2)).mp hlt
    obtain ⟨k, hk⟩ := Int.le.dest (show exponent m + 1 ≤ p by omega)
    have hunit : unit p m = (2 ^ k : ℚ)⁻¹ := by
      rw [unit, ← hk, sub_add_cancel_left, zpow_neg, zpow_natCast]
    have hwhole : (m : ℚ) / unit p m = ((m * 2 ^ k : ℤ) : ℚ) := by
      rw [hunit, div_inv_eq_mul]
      push_cast
      rfl
    rw [nearest, hwhole, roundHalfEven_intCast, ← hwhole]
    exact div_mul_cancel₀ _ (unit_pos p m).ne'

end Nearest

theorem binary64_mono : Monotone binary64 := rounded_mono (by decide)

/-- The multiples of a number, up to so many times it, are floats. -/
def Scales (rnd : ℚ → ℚ) (n : ℕ) (x : ℚ) : Prop := ∀ k ≤ n, rnd (k * x) = k * x

theorem scales_natCast {n m : ℕ} (h : n * m < 2 ^ 53) : Scales binary64 n m := by
  intro k hk
  have hlt : k * m < 2 ^ 53 := (Nat.mul_le_mul_right m hk).trans_lt h
  exact_mod_cast rounded_natCast hlt

example : binary64 (1 / 10) = 3602879701896397 / 2 ^ 55 := by decide +kernel

end Floats

/-- What `float` makes of a decimal. -/
def Numerals.Decimal.toFloat (d : Numerals.Decimal) : ℚ := Floats.binary64 d.toRat
