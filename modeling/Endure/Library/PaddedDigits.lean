import Mathlib

/-!
# Decimal fields of a fixed width

Numbers written with leading zeros up to a width. Texts made of such fields compare as their numbers
do, field by field.
-/

namespace Library.PaddedDigits

/-! ### Texts that start alike -/

variable {α : Type*} [LinearOrder α] {first second rest rest' : List α}

/-- Texts of one length decide the order of what they start. -/
theorem append_lt_append (lengths : first.length = second.length) (less : first < second) :
    first ++ rest < second ++ rest' := by
  induction first generalizing second with
  | nil =>
    cases second with
    | nil => exact absurd less (lt_irrefl _)
    | cons head tail => cases lengths
  | cons head tail ih =>
    cases second with
    | nil => cases lengths
    | cons head' tail' =>
      rw [List.cons_lt_cons_iff] at less
      rw [List.cons_append, List.cons_append, List.cons_lt_cons_iff]
      refine less.imp_right fun ⟨same, later⟩ => ⟨same, ih ?_ later⟩
      simpa using lengths

/-! ### Fields -/

/-- The decimal digits of a number up to a width. -/
def padded : ℕ → ℕ → List Char
  | 0, _ => []
  | width + 1, value => padded width (value / 10) ++ [Nat.digitChar (value % 10)]

@[simp] theorem length_padded (width value : ℕ) : (padded width value).length = width := by
  induction width generalizing value with
  | zero => rfl
  | succ width ih => rw [padded, List.length_append, ih, List.length_singleton]

theorem padded_zero (width : ℕ) : padded width 0 = List.replicate width '0' := by
  induction width with
  | zero => rfl
  | succ width ih => rw [padded, Nat.zero_div, ih, List.replicate_succ']; rfl

/-- Leading zeros fill the digits of a number up. -/
theorem replicate_append_toDigits {width value : ℕ} (fits : value < 10 ^ width) (pos : 0 < width) :
    List.replicate (width - (Nat.toDigits 10 value).length) '0' ++ Nat.toDigits 10 value =
      padded width value := by
  induction width generalizing value with
  | zero => exact absurd pos (lt_irrefl 0)
  | succ width ih =>
    rw [padded, Nat.toDigits_eq_if (by omega)]
    by_cases small : value < 10
    · rw [if_pos small, Nat.div_eq_of_lt small, Nat.mod_eq_of_lt small, padded_zero]
      rfl
    · rw [if_neg small]
      have fits' : value / 10 < 10 ^ width := by
        rw [Nat.div_lt_iff_lt_mul (by omega)]
        rwa [pow_succ] at fits
      have pos' : 0 < width := by
        rcases Nat.eq_zero_or_pos width with rfl | pos
        · omega
        · exact pos
      rw [← ih fits' pos', List.length_append, List.length_singleton, Nat.add_sub_add_right,
        List.append_assoc]

theorem digitChar_lt_digitChar {first second : ℕ} (less : first < second) (digit : second < 10) :
    Nat.digitChar first < Nat.digitChar second := by
  interval_cases second <;> interval_cases first <;> decide

/-- Fields of one width compare as their numbers. -/
theorem padded_lt_padded {width first second : ℕ} (less : first < second)
    (fits : second < 10 ^ width) : padded width first < padded width second := by
  induction width generalizing first second with
  | zero => omega
  | succ width ih =>
    have fits' : second / 10 < 10 ^ width := by
      rw [Nat.div_lt_iff_lt_mul (by omega)]
      rwa [pow_succ] at fits
    rw [padded, padded]
    rcases Nat.lt_or_ge (first / 10) (second / 10) with high | high
    · exact append_lt_append (by simp) (ih high fits')
    · -- the numbers differ in the last digit only
      have same : first / 10 = second / 10 := by omega
      rw [same]
      refine List.append_left_lt ?_
      rw [List.cons_lt_cons_iff]
      exact .inl (digitChar_lt_digitChar (by omega) (Nat.mod_lt _ (by omega)))

/-- A field is read back. -/
theorem ofDigitChars_padded {width value : ℕ} (fits : value < 10 ^ width) :
    Nat.ofDigitChars 10 (padded width value) 0 = value := by
  induction width generalizing value with
  | zero =>
    rw [pow_zero] at fits
    rw [padded, Nat.ofDigitChars_nil]
    omega
  | succ width ih =>
    have fits' : value / 10 < 10 ^ width := by
      rw [Nat.div_lt_iff_lt_mul (by omega)]
      rwa [pow_succ] at fits
    rw [padded, Nat.ofDigitChars_append, ih fits',
      Nat.ofDigitChars_cons_digitChar_of_lt_ten (Nat.mod_lt _ (by omega)), Nat.ofDigitChars_nil]
    omega

theorem isDigit_of_mem_padded {width value : ℕ} {c : Char} (member : c ∈ padded width value) :
    c.isDigit = true := by
  induction width generalizing value with
  | zero => cases member
  | succ width ih =>
    rw [padded, List.mem_append, List.mem_singleton] at member
    rcases member with earlier | rfl
    · exact ih earlier
    · have digit : value % 10 < 10 := Nat.mod_lt _ (by omega)
      interval_cases value % 10 <;> decide

end Library.PaddedDigits
