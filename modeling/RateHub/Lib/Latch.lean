import Mathlib.Algebra.Order.Ring.Nat

/-!
# A latch

A flag that some set and one takes: a take clears it and says whether it was set. Setting
it twice is setting it once, so what a take finds is whether anybody has set the flag since
the take before. `Log` remembers how many did, take by take.
-/

namespace Latch

/-- What can be done to a latch. -/
inductive Op where
  | set
  | take
  deriving DecidableEq, Repr

/-- How often the latch was set since the last take, and before each of the takes. -/
structure Log where
  fresh : Nat := 0
  looks : List Nat := []
  deriving DecidableEq, Repr

namespace Log

def after (g : Log) : Op → Log
  | .set => { g with fresh := g.fresh + 1 }
  | .take => { fresh := 0, looks := g.looks ++ [g.fresh] }

/-- The number of sets. -/
def sets (g : Log) : Nat := g.looks.sum + g.fresh

/-- The number of takes that found the latch set. -/
def found (g : Log) : Nat := g.looks.countP (0 < ·)

variable {g : Log}

@[simp] theorem fresh_set : (g.after .set).fresh = g.fresh + 1 := rfl

@[simp] theorem fresh_take : (g.after .take).fresh = 0 := rfl

@[simp] theorem found_set : (g.after .set).found = g.found := rfl

theorem found_take_hit (h : 0 < g.fresh) : (g.after .take).found = g.found + 1 := by
  simp [found, after, h]

theorem found_take_miss (h : g.fresh = 0) : (g.after .take).found = g.found := by
  simp [found, after, h]

@[simp] theorem sets_set : (g.after .set).sets = g.sets + 1 := rfl

@[simp] theorem sets_take : (g.after .take).sets = g.sets := by
  simp [sets, after]

/-- Each take that found the latch set used up a set of its own. -/
theorem found_le_sum (looks : List Nat) : looks.countP (0 < ·) ≤ looks.sum := by
  induction looks with
  | nil => exact Nat.le_refl 0
  | cons n looks ih =>
      rw [List.sum_cons, List.countP_cons]
      split
      · rename_i hpos
        have : 0 < n := of_decide_eq_true hpos
        omega
      · omega

/-- **No more takes find the latch set than there were sets**, and one that is not taken yet
is kept for the next. -/
theorem found_le_sets (g : Log) : g.found + (if 0 < g.fresh then 1 else 0) ≤ g.sets := by
  have hsum := found_le_sum g.looks
  unfold found sets
  split <;> omega

end Log

end Latch
