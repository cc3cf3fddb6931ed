/-!
# Decimal digits

* `natOfDigits`: the number that digits denote.
* `tenTo`: the powers of ten.
-/

namespace Registrar.Text

def isDigit (c : Char) : Bool := '0' ≤ c && c ≤ '9'

/-- **The number that decimal digits denote.** -/
def natOfDigits (ds : List Char) : Nat := ds.foldl (fun n c => 10 * n + (c.toNat - 48)) 0

/-- A power of ten. -/
def tenTo (k : Nat) : Nat := Nat.pow 10 k

end Registrar.Text
