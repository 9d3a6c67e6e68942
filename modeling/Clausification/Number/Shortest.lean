import Clausification.Number.Binary64

/-!
# Shortest decimals

Numbers in writing: with the fewest digits from which the number can be told from all others, and of
those the nearest to it.
-/

namespace Clausification

structure Decimal where
  digits : Nat
  exponent : Int
deriving DecidableEq, Inhabited

namespace Decimal

def exponentText (e : Int) : String :=
  let ds := toString e.natAbs
  (if e < 0 then "-" else "+") ++ (if ds.length < 2 then "0" ++ ds else ds)

/-- A number in writing. Numbers from a ten-thousandth to below ten quadrillions have a point at its
place and a digit behind it, others have one digit before the point and a power of ten. -/
def text (x : Decimal) : String :=
  let ds := Nat.toDigits 10 x.digits
  let lead : Int := ds.length - 1 + x.exponent
  let ds := (ds.reverse.dropWhile (· = '0')).reverse
  if lead < -4 ∨ 16 ≤ lead then
    String.ofList (ds.take 1) ++ (if ds.length < 2 then "" else "." ++ String.ofList (ds.drop 1))
      ++ "e" ++ exponentText lead
  else if lead < 0 then
    "0." ++ String.ofList (List.replicate (-lead - 1).toNat '0' ++ ds)
  else
    let whole := lead.toNat + 1
    let fraction := ds.drop whole
    String.ofList (ds.take whole ++ List.replicate (whole - ds.length) '0') ++ "."
      ++ if fraction.isEmpty then "0" else String.ofList fraction

end Decimal

namespace Binary64

/-- Whether `n · 10^p` rounds to `m · 2^e`. It does between the middles to the two neighbours, of
which the lower one is half as far away when `m` is the least mantissa, and in the middles
themselves when `m` is even. -/
def readsBack (m : Nat) (e : Int) (n : Nat) (p : Int) : Bool :=
  let unit := power 10 (-p) * power 2 (e - 2)
  let low := (4 * m - if m = power 2 52 ∧ leastExponent < e then 1 else 2) * unit
  let high := (4 * m + 2) * unit
  let place := n * (power 10 p * power 2 (2 - e))
  (low < place && place < high) || (m % 2 == 0 && (place == low || place == high))

def onGrid? (m : Nat) (e p : Int) : Option Nat :=
  let value := 4 * m * (power 10 (-p) * power 2 (e - 2))
  let step := power 10 p * power 2 (2 - e)
  let n := value / step
  match readsBack m e n p, readsBack m e (n + 1) p with
  | true, true => some (divideToEven value step)
  | true, false => some n
  | false, true => some (n + 1)
  | false, false => none

def leadingPower (m : Nat) (e : Int) : Int :=
  let n := m * power 2 e
  let d := power 2 (-e)
  if d ≤ n then (Nat.toDigits 10 (n / d)).length - 1
  else -(Nat.toDigits 10 ((d + n - 1) / n - 1)).length

/-- The decimal number with the fewest digits that rounds to `m · 2^e`, or `m · 2^e` itself. -/
def shortest (m : Nat) (e : Int) : Decimal :=
  let lead := leadingPower m e
  let found := (List.range 17).findSome? fun (i : Nat) =>
    (onGrid? m e (lead - i)).map (⟨·, lead - i⟩)
  found.getD ⟨m * power 2 e * power 5 (-e), min e 0⟩

def text (infinity none : String) : Binary64 → String
  | finite negative mantissa exponent =>
    (if negative then "-" else "")
      ++ if mantissa = 0 then "0.0" else (shortest mantissa exponent).text
  | infinite negative => (if negative then "-" else "") ++ infinity
  | nan => none

end Binary64

end Clausification
