import Registrar.Decimal128
import Registrar.Value.Basic

/-!
# Whole numbers without a sign

A stored integer has a sign, and 64 bits with it. A whole number that fits into 64 bits only because
it needs no sign is kept exactly as a decimal. Counts are read from it, and an operand is rounded
from it; it is no value of a record.

* `Value.ofUnsigned`, `Value.unsigned?`: the passage to and from such a value.
* `unsigned?_ofUnsigned`: nothing of the number is lost.
-/

namespace Registrar.Value

/-- **The value of a whole number** that is no stored integer. -/
def ofUnsigned (n : Nat) : Value := .decimal128 (Decimal128.ofNat n).bytes

/-- **The whole number** that a decimal stands for. -/
def unsigned? : Value → Option Nat
  | .decimal128 bytes => Decimal128.wholeOfBytes? bytes
  | _ => none

/-- **Every number of 64 bits comes back.** -/
theorem unsigned?_ofUnsigned {n : Nat} (h : n < 0x10000000000000000) :
    (ofUnsigned n).unsigned? = some n := by
  refine Decimal128.wholeOfBytes?_ofNat ?_
  simp only [Nat.shiftLeft_eq]
  omega

end Registrar.Value
