import Registrar.Text.Integer

/-!
# Decimal floating-point numbers of 128 bits

A **decimal** of 128 bits is a sign, a coefficient of at most 34 digits and a power of ten, or it is
infinite or no number. It is read from its digits and never rounded: a text whose digits or power
do not fit is refused, unless zeros can be taken off or put on to make them fit. A text without
digits is zero.

* `Decimal128.parse?`: reads a text.
* `Decimal128.bytes`: the sixteen bytes of a decimal, the lowest first.
* `wholeOfBytes?_ofNat`: the bytes of a whole number give it back.
-/

namespace Registrar

/-- **A decimal of 128 bits.** A decimal that is no number may be a signalling one. -/
inductive Decimal128 where
  | finite (negative : Bool) (coefficient : Nat) (power : Int)
  | infinite (negative : Bool)
  | nan (negative signalling : Bool)

namespace Decimal128

/-- The most digits of a coefficient. -/
def maxDigits : Nat := 34

/-- The least power of ten. -/
def minPower : Int := -6176

/-- The greatest power of ten. -/
def maxPower : Int := 6111

/-- Whether a power can be written: it fits into 128 bits with its sign. Only zero makes use of
powers beyond the bounds. -/
def isPower (n : Int) : Bool :=
  -0x80000000000000000000000000000000 ≤ n && n < 0x80000000000000000000000000000000

/-- A whole number. -/
def ofNat (n : Nat) : Decimal128 := finite false n 0

/-! ### Bytes -/

/-- A power counted from the least one. -/
def biased (power : Int) : Nat := (power - minPower).toNat

/-- The bits after the sign: the counted power above the 113 bits of the coefficient. What is not
finite is told by the highest bits. -/
def magnitudeBits : Decimal128 → Nat
  | finite _ coefficient power => biased power <<< 113 + coefficient
  | infinite _ => 0x78 <<< 120
  | nan _ signalling => (if signalling then 0x7E else 0x7C) <<< 120

def isNegative : Decimal128 → Bool
  | finite negative _ _ => negative
  | infinite negative => negative
  | nan negative _ => negative

/-- **The bytes**, the lowest first. -/
def bytes (d : Decimal128) : List UInt8 :=
  let bits := (if d.isNegative then 1 <<< 127 else 0) + d.magnitudeBits
  (List.range 16).map fun i => UInt8.ofNat (bits >>> (8 * i))

/-- The number whose bytes these are, the lowest first. -/
def bitsOfBytes (bytes : List UInt8) : Nat := bytes.foldr (fun b n => b.toNat + 256 * n) 0

/-- **The whole number that bytes denote**, if they are those of one without a sign. -/
def wholeOfBytes? (bytes : List UInt8) : Option Nat :=
  let bits := bitsOfBytes bytes
  if bits >>> 113 = biased 0 then some (bits % (1 <<< 113)) else none

/-! ### Texts -/

/-- The digits cut down to so many, when only zeros are cut off. -/
def cutZeros? (ds : List Char) (count : Nat) : Option (List Char) :=
  if (ds.drop count).all (· = '0') then some (ds.take count) else none

/-- The digits without the zeros at the front; no digits are those of zero. -/
def significant (ds : List Char) : List Char :=
  let rest := ds.dropWhile (· = '0')
  if rest.isEmpty then ['0'] else rest

/-- **Digits and power brought within the bounds.** Surplus digits and a power that is too low are
made up for by zeros at the end, a power that is too high by zeros put on; zero takes any power. -/
def fit? (ds : List Char) (power : Int) : Option (List Char × Int) := do
  let digits ← if maxDigits < ds.length then cutZeros? ds maxDigits else some ds
  let power := power + (ds.length - digits.length : Nat)
  if digits = ['0'] then some (digits, max minPower (min maxPower power))
  else if power < minPower then
    let surplus := (minPower - power).toNat
    if digits.length < surplus then none
    else (cutZeros? digits (digits.length - surplus)).map fun ds => (ds, minPower)
  else if maxPower < power then
    let missing := (power - maxPower).toNat
    if maxDigits < digits.length + missing then none
    else some (digits ++ List.replicate missing '0', maxPower)
  else some (digits, power)

/-- The digits around a point, and how many of them follow it. -/
def splitPoint (cs : List Char) : List Char × Nat :=
  let whole := cs.takeWhile (· ≠ '.')
  let fraction := (cs.drop whole.length).drop 1
  (whole ++ fraction, fraction.length)

/-- A coefficient, before which a sign may stand. -/
def coefficient? : List Char → Option Nat
  | '+' :: ds => Text.parseDigits? ds
  | ds => Text.parseDigits? ds

/-- A finite decimal in small letters: digits, and a power of ten after an `e`. -/
def parseFinite? (negative : Bool) (cs : List Char) : Option Decimal128 := do
  let mantissa := cs.takeWhile (· ≠ 'e')
  let power ← match cs.drop mantissa.length with
    | [] => some 0
    | _ :: r => (Text.parseSigned? r).filter isPower
  let (ds, places) := splitPoint mantissa
  let power := power - places
  if isPower power then
    let (ds, power) ← fit? (significant ds) power
    return finite negative (← coefficient? ds) power
  else none

/-- Reads a decimal without its sign. -/
def parseMagnitude? (negative : Bool) (cs : List Char) : Option Decimal128 :=
  let word := cs.map Char.toLower
  if word = "nan".toList then some (nan negative false)
  else if word = "snan".toList then some (nan negative true)
  else if word = "inf".toList ∨ word = "infinity".toList then some (infinite negative)
  else parseFinite? negative word

/-- **Reads a decimal**, an optional sign first. -/
def parse? (s : String) : Option Decimal128 :=
  match s.toList with
  | '-' :: r => parseMagnitude? true r
  | '+' :: r => parseMagnitude? false r
  | r => parseMagnitude? false r

/-! ### Laws -/

theorem bitsOfBytes_range (n k : Nat) :
    bitsOfBytes ((List.range k).map fun i => UInt8.ofNat (n >>> (8 * i))) =
      n % (1 <<< (8 * k)) := by
  induction k generalizing n with
  | zero => simp [bitsOfBytes, Nat.mod_one]
  | succ k ih =>
    have step : (fun i => UInt8.ofNat (n >>> (8 * (i + 1)))) =
        fun i => UInt8.ofNat ((n >>> 8) >>> (8 * i)) := by
      funext i
      rw [← Nat.shiftRight_add, Nat.mul_add, Nat.add_comm]
    have rest := ih (n >>> 8)
    rw [List.range_succ_eq_map, List.map_cons, List.map_map]
    simp only [Function.comp_def, Nat.succ_eq_add_one, step]
    simp only [bitsOfBytes, List.foldr_cons] at rest ⊢
    have place : 1 <<< (8 * (k + 1)) = 256 * (1 <<< (8 * k)) := by
      simp only [Nat.shiftLeft_eq, Nat.one_mul, Nat.mul_add, Nat.mul_one, Nat.pow_add]
      exact Nat.mul_comm _ _
    rw [rest, place, Nat.mod_mul]
    simp [Nat.shiftRight_eq_div_pow]

theorem bytes_of_positive {d : Decimal128} (h : d.isNegative = false) :
    d.bytes = (List.range 16).map fun i => UInt8.ofNat (d.magnitudeBits >>> (8 * i)) := by
  simp [bytes, h]

theorem magnitudeBits_ofNat (n : Nat) : (ofNat n).magnitudeBits = biased 0 <<< 113 + n := rfl

/-- **The bytes of a whole number give it back.** -/
theorem wholeOfBytes?_ofNat {n : Nat} (h : n < 1 <<< 113) :
    wholeOfBytes? (ofNat n).bytes = some n := by
  have bias : biased 0 = 6176 := rfl
  have bits : bitsOfBytes (ofNat n).bytes = biased 0 <<< 113 + n := by
    rw [bytes_of_positive rfl, bitsOfBytes_range, magnitudeBits_ofNat, Nat.mod_eq_of_lt]
    simp only [Nat.shiftLeft_eq, bias] at h ⊢
    omega
  have power : (biased 0 <<< 113 + n) >>> 113 = biased 0 := by
    simp only [Nat.shiftLeft_eq, Nat.shiftRight_eq_div_pow] at h ⊢
    omega
  have digits : (biased 0 <<< 113 + n) % (1 <<< 113) = n := by
    simp only [Nat.shiftLeft_eq] at h ⊢
    omega
  simp only [wholeOfBytes?, bits, power, digits, if_pos]

end Decimal128

end Registrar
