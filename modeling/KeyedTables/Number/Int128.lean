import KeyedTables.Number.Power

/-!
This module contains the range of signed 128-bit integers and arithmetic that reports when a result
leaves it.
-/

namespace KeyedTables

namespace Int128

def minValue : Int := -(2 ^ 127)

def maxValue : Int := 2 ^ 127 - 1

/--
`n` is a signed 128-bit integer.
-/
def InRange (n : Int) : Prop :=
  minValue ≤ n ∧ n ≤ maxValue

instance (n : Int) : Decidable (InRange n) :=
  inferInstanceAs (Decidable (minValue ≤ n ∧ n ≤ maxValue))

def checked (n : Int) : Option Int :=
  if InRange n then some n else none

theorem checked_eq_some_iff {n m : Int} : checked n = some m ↔ InRange n ∧ n = m := by
  unfold checked
  split <;> simp_all

def checkedAdd (a b : Int) : Option Int :=
  checked (a + b)

def checkedMul (a b : Int) : Option Int :=
  checked (a * b)

def checkedPow (a : Int) (n : Nat) : Option Int :=
  checked (a ^ n)

end Int128

end KeyedTables
