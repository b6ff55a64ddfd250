import Mathlib

/-!
# Searching for a size that fits

A binary search between a size that is taken for granted and an upper bound. Nothing is
assumed of the test: whatever the search returns is the size it started from or has passed.
-/

namespace Bridget.Foundation

/-- Halve the interval upwards until it is a single size. -/
def searchSize (fits : Nat → Bool) (low high : Nat) : Nat :=
  if low < high then
    let candidate := (low + high + 1) / 2
    if fits candidate then searchSize fits candidate high else searchSize fits low (candidate - 1)
  else low
  termination_by high - low

variable {fits : Nat → Bool} {low high : Nat}

theorem le_searchSize : low ≤ searchSize fits low high := by
  fun_induction searchSize fits low high with
  | case1 => omega
  | case2 _ _ _ _ _ ih => exact ih
  | case3 low => exact Nat.le_refl low

theorem searchSize_le (h : low ≤ high) : searchSize fits low high ≤ high := by
  fun_induction searchSize fits low high with
  | case1 _ _ _ _ _ ih =>
    apply ih
    omega
  | case2 => omega
  | case3 => exact h

variable (fits low high) in
theorem searchSize_eq_or_fits :
    searchSize fits low high = low ∨ fits (searchSize fits low high) = true := by
  fun_induction searchSize fits low high with
  | case1 _ _ _ _ hfits ih =>
    right
    obtain hsame | hfound := ih
    · rw [hsame]
      exact hfits
    · exact hfound
  | case2 _ _ _ _ _ ih => exact ih
  | case3 => exact .inl rfl

end Bridget.Foundation
