/-!
# Numbers of a fixed precision

The numbers of the IEEE 754 format binary64, and the one nearest to a given decimal number.
-/

namespace Clausification

/-- A number of the format: plus or minus `mantissa · 2^exponent`, an infinity, or no number. -/
inductive Binary64 where
  | finite (negative : Bool) (mantissa : Nat) (exponent : Int)
  | infinite (negative : Bool)
  | nan
deriving DecidableEq, Inhabited

namespace Binary64

def leastExponent : Int := -1074

def greatestExponent : Int := 971

def zero (negative : Bool) : Binary64 := .finite negative 0 leastExponent

def isZero : Binary64 → Bool
  | finite _ mantissa _ => mantissa == 0
  | _ => false

/-- The power of a base, one where the exponent is negative. -/
def power (base : Nat) (exponent : Int) : Nat := base.pow exponent.toNat

def divideToEven (n d : Nat) : Nat :=
  if d < 2 * (n % d) ∨ (2 * (n % d) = d ∧ n / d % 2 = 1) then n / d + 1 else n / d

/-- The number nearest to a fraction. The exponent is such that the mantissa has fifty-three binary
digits, or the least one there is. -/
def ofFraction (negative : Bool) (n d : Nat) : Binary64 :=
  if n = 0 then zero negative
  else
    let guess : Int := (n.log2 : Int) - d.log2 - 52
    let short := n * power 2 (-guess) < power 2 52 * d * power 2 guess
    let exponent := max (if short then guess - 1 else guess) leastExponent
    let mantissa := divideToEven (n * power 2 (-exponent)) (d * power 2 exponent)
    let (mantissa, exponent) :=
      if mantissa = power 2 53 then (power 2 52, exponent + 1) else (mantissa, exponent)
    if greatestExponent < exponent then .infinite negative
    else .finite negative mantissa exponent

/-- The number nearest to `n · 10^exponent`. What is far beyond the range of the format is not
worked out. -/
def ofDecimal (negative : Bool) (n : Nat) (exponent : Int) : Binary64 :=
  let size : Int := (Nat.toDigits 10 n).length + exponent
  if n = 0 ∨ size < -323 then zero negative
  else if 309 < size then .infinite negative
  else ofFraction negative (n * power 10 exponent) (power 10 (-exponent))

@[simp] theorem isZero_zero (negative : Bool) : (zero negative).isZero = true := rfl

@[simp] theorem ofFraction_zero (negative : Bool) (d : Nat) :
    ofFraction negative 0 d = zero negative := rfl

@[simp] theorem divideToEven_one (n : Nat) : divideToEven n 1 = n := by
  simp [divideToEven, Nat.mod_one]

end Binary64

end Clausification
