import Endure.Library.Checked
import Mathlib.Order.Bounds.Basic

/-!
# Bisection

The search for where a property starts to hold among the integers from a lower to an upper
end, by halving. Each question about an integer is a computation that may fail.
-/

namespace Library.Bisection

open Checked

universe u

variable {ε : Type u} {holds : ℤ → Except ε Bool} {lower upper start : ℤ}

/-- The least integer from a lower end at which a property holds, or the upper end. -/
def bisect (holds : ℤ → Except ε Bool) (lower upper : ℤ) : Except ε ℤ :=
  if lower < upper then do
    let midpoint := lower + (upper - lower) / 2
    if ← holds midpoint then bisect holds lower midpoint
    else bisect holds (midpoint + 1) upper
  else .ok lower
termination_by (upper - lower).toNat

/-- A midpoint lies between the ends, so either half is smaller. -/
theorem midpoint_bounds (nonempty : lower < upper) :
    lower ≤ lower + (upper - lower) / 2 ∧ lower + (upper - lower) / 2 < upper := by
  omega

/-- The search fails only where a question fails; what it finds is where the property starts, when
every answer between the ends is about that. -/
theorem bisect_cases (within : lower ≤ start ∧ start ≤ upper)
    (answers : ∀ place, lower ≤ place → place < upper →
      holds place = .ok (decide (start ≤ place)) ∨ ∃ raised, holds place = .error raised) :
    bisect holds lower upper = .ok start ∨
      ∃ place raised, lower ≤ place ∧ place < upper ∧ holds place = .error raised ∧
        bisect holds lower upper = .error raised := by
  induction size : (upper - lower).toNat using Nat.strong_induction_on generalizing lower upper with
  | h size ih =>
    rw [bisect]
    split
    · next nonempty =>
      obtain ⟨above, below⟩ := midpoint_bounds nonempty
      generalize lower + (upper - lower) / 2 = midpoint at above below
      rcases answers midpoint above below with answered | ⟨raised, failed⟩
      · by_cases reached : start ≤ midpoint
        · -- The property holds at the midpoint: it starts in the lower half.
          rw [decide_eq_true reached] at answered
          simp only [answered]
          rcases ih (midpoint - lower).toNat (by omega) ⟨within.1, reached⟩
              (fun place first last => answers place first (last.trans below)) rfl with
            done | ⟨place, raised, first, last, rest⟩
          · exact .inl done
          · exact .inr ⟨place, raised, first, last.trans below, rest⟩
        -- it starts past the midpoint
        · rw [decide_eq_false reached] at answered
          simp only [answered]
          rcases ih (upper - (midpoint + 1)).toNat (by omega) ⟨not_le.mp reached, within.2⟩
              (fun place first last => answers place (by omega) last) rfl with
            done | ⟨place, raised, first, last, rest⟩
          · exact .inl done
          · exact .inr ⟨place, raised, by omega, last, rest⟩
      · refine .inr ⟨midpoint, raised, above, below, failed, ?_⟩
        simp only [failed]
        rfl
    · exact .inl (congrArg _ (by omega))

end Library.Bisection
