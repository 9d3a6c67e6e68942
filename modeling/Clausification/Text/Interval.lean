/-!
# Intervals of code points

A set of characters given by closed intervals of code points.
-/

namespace Clausification.Text

/-- The code points from `first` to `last`, both included. -/
structure Interval where
  first : Nat
  last : Nat

def Interval.holds (i : Interval) (n : Nat) : Bool := i.first ≤ n && n ≤ i.last

def inIntervals (set : List Interval) (c : Char) : Bool := set.any (·.holds c.toNat)

@[simp] theorem inIntervals_nil (c : Char) : inIntervals [] c = false := rfl

theorem Interval.holds_iff (i : Interval) (n : Nat) :
    i.holds n = true ↔ i.first ≤ n ∧ n ≤ i.last := by
  simp [Interval.holds]

theorem inIntervals_iff (set : List Interval) (c : Char) :
    inIntervals set c = true ↔ ∃ i ∈ set, i.first ≤ c.toNat ∧ c.toNat ≤ i.last := by
  simp [inIntervals, Interval.holds_iff]

end Clausification.Text
