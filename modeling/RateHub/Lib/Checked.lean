import Mathlib.Algebra.Order.Ring.Int

/-!
# 64-bit arithmetic in which overflow has no value

Signed arithmetic as a language defines it that leaves overflow undefined: an operation
has a value when the exact result is a 64-bit number, and none otherwise. Each operation
comes with the lemma that turns "the exact result fits" into the wrapping operation.
-/

namespace Checked

/-- The exact result of an operation, when it is a 64-bit number. -/
def exact (x : Int) : Option Int64 := if -2 ^ 63 ≤ x ∧ x < 2 ^ 63 then some (Int64.ofInt x) else none

def neg (a : Int64) : Option Int64 := exact (-a.toInt)

def add (a b : Int64) : Option Int64 := exact (a.toInt + b.toInt)

def mul (a b : Int64) : Option Int64 := exact (a.toInt * b.toInt)

/-- Division toward zero; it has no value for a zero divisor either. -/
def div (a b : Int64) : Option Int64 := if b = 0 then none else exact (a.toInt.tdiv b.toInt)

variable {a b c : Int64}

/-- An operation whose wrapping result is exact does not overflow. -/
theorem exact_of_toInt {x : Int} (h : c.toInt = x) : exact x = some c := by
  have hlo := c.le_toInt
  have hhi := c.toInt_lt
  unfold exact
  rw [if_pos (by omega), ← h, Int64.ofInt_toInt]

theorem neg_eq (h : (-a).toInt = -a.toInt) : neg a = some (-a) := exact_of_toInt h

theorem add_eq (h : (a + b).toInt = a.toInt + b.toInt) : add a b = some (a + b) :=
  exact_of_toInt h

theorem mul_eq (h : (a * b).toInt = a.toInt * b.toInt) : mul a b = some (a * b) :=
  exact_of_toInt h

theorem div_eq (hb : b ≠ 0) (h : (a / b).toInt = a.toInt.tdiv b.toInt) :
    div a b = some (a / b) := by
  rw [div, if_neg hb, exact_of_toInt h]

end Checked
