import Registrar.Text.Digits

/-!
# Integers as text

An integer is read from an optional sign and decimal digits, with nothing before, between or after
them.

* `parseInt?`: reads an integer.
* `parseInt64?`: reads an integer of 64 bits; one outside the range is refused.
-/

namespace Registrar.Text

/-- The number that decimal digits denote; `none` when there are none or another character is
among them. -/
def parseDigits? (ds : List Char) : Option Nat :=
  if ds.isEmpty || !ds.all isDigit then none else some (natOfDigits ds)

/-- An integer with an optional sign. -/
def parseSigned? : List Char → Option Int
  | '-' :: ds => (parseDigits? ds).map fun n => -(n : Int)
  | '+' :: ds => (parseDigits? ds).map Int.ofNat
  | ds => (parseDigits? ds).map Int.ofNat

/-- **Reads an integer.** -/
def parseInt? (s : String) : Option Int := parseSigned? s.toList

/-- **Reads a 64-bit integer.** -/
def parseInt64? (s : String) : Option Int64 :=
  (parseInt? s).bind fun n =>
    if -0x8000000000000000 ≤ n ∧ n < 0x8000000000000000 then some (Int64.ofInt n) else none

end Registrar.Text
