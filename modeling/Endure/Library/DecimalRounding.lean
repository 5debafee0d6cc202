import Mathlib

/-!
# Decimal arithmetic of a fixed precision

A decimal context keeps a fixed number of significant digits: the result of an
operation is the exact one, rounded half to even at its last digit kept. The
rounding moves a number by a fixed fraction of itself and leaves every number
with few enough digits alone.
-/

namespace Library.DecimalRounding

/-- Round to the nearest integer, halves to the even neighbour. -/
def roundHalfEven (x : ℚ) : ℤ :=
  if Int.fract x < 1 / 2 then ⌊x⌋
  else if 1 / 2 < Int.fract x then ⌊x⌋ + 1
  else if ⌊x⌋ % 2 = 0 then ⌊x⌋ else ⌊x⌋ + 1

/-- The place of the last significant digit a context keeps of a number. -/
def lastPlace (digits : ℕ) (x : ℚ) : ℚ := (10 : ℚ) ^ (Int.log 10 |x| + 1 - digits)

/-- Round to a number of significant digits. -/
def roundDigits (digits : ℕ) (x : ℚ) : ℚ :=
  roundHalfEven (x / lastPlace digits x) * lastPlace digits x

theorem abs_roundHalfEven_sub_le (x : ℚ) : |(roundHalfEven x : ℚ) - x| ≤ 1 / 2 := by
  have split : (⌊x⌋ : ℚ) + Int.fract x = x := Int.floor_add_fract x
  have nonneg := Int.fract_nonneg x
  have small := Int.fract_lt_one x
  rw [roundHalfEven, abs_le]
  split_ifs with low high even
  · constructor <;> linarith
  · constructor <;> push_cast <;> linarith
  · constructor <;> linarith
  · constructor <;> push_cast <;> linarith

@[simp] theorem roundHalfEven_intCast (m : ℤ) : roundHalfEven m = m := by
  simp [roundHalfEven]

/-- Rounding keeps the order. -/
theorem roundHalfEven_mono : Monotone roundHalfEven := by
  intro x y below
  by_contra above
  have apart : roundHalfEven y + 1 ≤ roundHalfEven x := by omega
  have apart : (roundHalfEven y : ℚ) + 1 ≤ roundHalfEven x := by exact_mod_cast apart
  have near := abs_le.mp (abs_roundHalfEven_sub_le x)
  have near' := abs_le.mp (abs_roundHalfEven_sub_le y)
  -- Both lie half way between two neighbours, so they are one number.
  have same : x = y := by linarith
  rw [same] at above
  exact above le_rfl

theorem lastPlace_pos (digits : ℕ) (x : ℚ) : 0 < lastPlace digits x :=
  zpow_pos (by norm_num) _

/-- The last place kept is a fixed fraction of the number. -/
theorem lastPlace_le (digits : ℕ) {x : ℚ} (nonzero : x ≠ 0) :
    lastPlace digits x ≤ (10 : ℚ) ^ (1 - digits : ℤ) * |x| := by
  have leading : ((10 : ℕ) : ℚ) ^ Int.log 10 |x| ≤ |x| :=
    Int.zpow_log_le_self (by norm_num) (abs_pos.mpr nonzero)
  push_cast at leading
  calc lastPlace digits x
      = (10 : ℚ) ^ (1 - digits : ℤ) * (10 : ℚ) ^ Int.log 10 |x| := by
        rw [lastPlace, ← zpow_add₀ (by norm_num)]
        congr 1
        ring
    _ ≤ _ := by gcongr

/-- Rounding moves a number by at most half a unit of its last digit kept. -/
theorem abs_roundDigits_sub_le (digits : ℕ) (x : ℚ) :
    |roundDigits digits x - x| ≤ (10 : ℚ) ^ (1 - digits : ℤ) / 2 * |x| := by
  rcases eq_or_ne x 0 with rfl | nonzero
  · simp [roundDigits, roundHalfEven]
  have positive := lastPlace_pos digits x
  have scaled : roundDigits digits x - x =
      ((roundHalfEven (x / lastPlace digits x) : ℚ) - x / lastPlace digits x) *
        lastPlace digits x := by
    rw [sub_mul, div_mul_cancel₀ _ positive.ne', roundDigits]
  calc |roundDigits digits x - x|
      = |(roundHalfEven (x / lastPlace digits x) : ℚ) - x / lastPlace digits x| *
          lastPlace digits x := by rw [scaled, abs_mul, abs_of_pos positive]
    _ ≤ 1 / 2 * lastPlace digits x := by
        gcongr
        exact abs_roundHalfEven_sub_le _
    _ ≤ 1 / 2 * ((10 : ℚ) ^ (1 - digits : ℤ) * |x|) := by
        gcongr
        exact lastPlace_le digits nonzero
    _ = _ := by ring

/-- A number with few enough digits is not rounded. -/
theorem roundDigits_eq_self {digits : ℕ} {m place : ℤ} (short : |m| < 10 ^ digits) :
    roundDigits digits (m * (10 : ℚ) ^ place) = m * (10 : ℚ) ^ place := by
  set x : ℚ := m * (10 : ℚ) ^ place with hx
  rcases eq_or_ne x 0 with zero | nonzero
  · rw [zero]
    simp [roundDigits, roundHalfEven]
  have small : |x| < ((10 : ℕ) : ℚ) ^ (digits + place : ℤ) := by
    rw [hx, abs_mul, abs_of_pos (zpow_pos (by norm_num) _ : (0 : ℚ) < 10 ^ place)]
    push_cast
    rw [zpow_add₀ (by norm_num : (10 : ℚ) ≠ 0), zpow_natCast]
    gcongr
    exact_mod_cast short
  have leading : Int.log 10 |x| < digits + place :=
    (Int.lt_zpow_iff_log_lt (by norm_num) (abs_pos.mpr nonzero)).mp small
  -- The last place kept divides the place the number is written at.
  obtain ⟨shift, gap⟩ : ∃ shift : ℕ, place - (Int.log 10 |x| + 1 - digits) = shift :=
    ⟨(place - (Int.log 10 |x| + 1 - digits)).toNat, by omega⟩
  have written : lastPlace digits x * (10 : ℚ) ^ shift = (10 : ℚ) ^ place := by
    rw [lastPlace, ← zpow_natCast, ← zpow_add₀ (by norm_num : (10 : ℚ) ≠ 0)]
    congr 1
    omega
  have whole : x / lastPlace digits x = ((m * 10 ^ shift : ℤ) : ℚ) := by
    rw [div_eq_iff (lastPlace_pos digits x).ne']
    push_cast
    rw [mul_assoc, mul_comm ((10 : ℚ) ^ shift), written]
  rw [roundDigits, whole, roundHalfEven_intCast, ← whole,
    div_mul_cancel₀ _ (lastPlace_pos digits x).ne']

end Library.DecimalRounding
