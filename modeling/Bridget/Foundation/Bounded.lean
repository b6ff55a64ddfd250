import Mathlib

/-!
# Fixed-width arithmetic

Signed 64-bit values are integers and unsigned ones are naturals; the bounds appear
where the code saturates or checks for overflow.
-/

namespace Bridget.Foundation

def i64Max : Int := 9223372036854775807

def i64Min : Int := -9223372036854775808

def u64Max : Nat := 18446744073709551615

/-- The largest number that every reader of JSON keeps as it is. -/
def humanLineageMaxSeq : Nat := 9007199254740991

/-- `i64::saturating_add`. -/
def saturatingAdd (a b : Int) : Int := max i64Min (min i64Max (a + b))

/-- `i64::saturating_sub`. -/
def saturatingSub (a b : Int) : Int := max i64Min (min i64Max (a - b))

/-- `i64::checked_add`. -/
def checkedAdd (a b : Int) : Option Int :=
  if i64Min ≤ a + b ∧ a + b ≤ i64Max then some (a + b) else none

@[simp] theorem checkedAdd_eq_some {a b c : Int} :
    checkedAdd a b = some c ↔ i64Min ≤ a + b ∧ a + b ≤ i64Max ∧ a + b = c := by
  unfold checkedAdd
  split
  next h => simp [h]
  next h =>
    simp only [reduceCtorEq, false_iff]
    exact fun hc => h ⟨hc.1, hc.2.1⟩

end Bridget.Foundation
