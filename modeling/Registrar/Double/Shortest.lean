import Registrar.Double.Basic
import Registrar.Text.Digits

/-!
# The shortest decimal of a double

A double is written with the fewest decimal digits that read back as the same double. The real
numbers that read back are an interval around it, half a place to each side; below a power of two
the places are half as wide. The ends belong to it exactly when the significand is even. For one,
two, … digits only the two neighbours of the double on that decimal grid can lie in the interval,
so the first grid with a hit gives the answer; of two hits the nearer is taken, and an exact tie
goes up.

* `Double.decimal`: the digits of a positive finite double and the place of its decimal point.
-/

namespace Registrar

/-- **A positive decimal** `0.d₁d₂… · 10^point`, its first and last digits not zero. -/
structure Decimal where
  digits : List Char
  point : Int
  deriving DecidableEq

namespace Decimal

/-- The decimal `n · 10^exponent` without trailing zeros. -/
def ofScaled (n : Nat) (exponent : Int) : Decimal :=
  let written := Nat.toDigits 10 n
  ⟨(written.reverse.dropWhile (· = '0')).reverse, written.length + exponent⟩

end Decimal

namespace Double

/-- The exponent of the power of ten at or below the quotient, which is positive and above
10^-400. -/
def floorLog10 (num den : Nat) : Int :=
  (Nat.toDigits 10 (num * Text.tenTo 400 / den)).length - 401

/-- **The reals that read back** as a double, in quarters of a unit. -/
structure ReadBack where
  low : Nat
  value : Nat
  high : Nat
  closed : Bool

/-- The interval around a positive finite double. -/
def readBack (d : Double) : ReadBack :=
  let place := 1 <<< d.shift
  let below := if d.significand = 0x10000000000000 ∧ 0 < d.shift then place else 2 * place
  ⟨4 * d.units - below, 4 * d.units, 4 * d.units + 2 * place, d.significand % 2 = 0⟩

/-- Whether `n / den` lies in the interval. -/
def ReadBack.holds (r : ReadBack) (n den : Nat) : Bool :=
  if r.closed then r.low * den ≤ n && n ≤ r.high * den else r.low * den < n && n < r.high * den

/-- The neighbour of the double on the grid of the multiples of `10^exponent` that reads back. -/
def onGrid? (r : ReadBack) (exponent : Int) : Option Nat :=
  let num := 4 * one * Text.tenTo exponent.toNat
  let den := Text.tenTo (-exponent).toNat
  let below := r.value * den / num
  let above := below + 1
  match r.holds (below * num) den, r.holds (above * num) den with
  | true, true =>
    if r.value * den - below * num < above * num - r.value * den then some below else some above
  | true, false => some below
  | false, true => some above
  | false, false => none

/-- **The shortest decimal** that reads back as a positive finite double. Seventeen digits always
do. -/
def decimal (d : Double) : Decimal :=
  let r := d.readBack
  let k := floorLog10 r.value (4 * one)
  ((List.range 17).findSome? fun (n : Nat) =>
    let e := k - n
    (onGrid? r e).map (Decimal.ofScaled · e)).getD ⟨['0'], 0⟩

end Double

end Registrar
