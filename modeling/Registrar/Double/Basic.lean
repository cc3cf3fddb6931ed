/-!
# Doubles

A **double** is a number of the 64-bit binary format, kept as its bits. What it denotes is read
from the fields of the word, and every finite double is a whole number of **units**, the unit
being the least positive double, 2^-1074. Order and equality are those of the denoted points, so
both zeros are equal and a NaN is comparable with nothing.

* `Double.point`: the point of the extended line that a double denotes.
* `Double.ofRatio`: the double nearest to a quotient, a tie going to the even neighbour.
* `Double.toInt64`: the whole part, kept within the 64-bit integers.
* `Double.point_ofWord`: a word built from a significand and a shift denotes the one shifted by the
  other.
-/

namespace Registrar

/-- A number of the 64-bit binary format, by its bits. -/
structure Double where
  bits : UInt64
  deriving DecidableEq

namespace Double

/-! ### The denoted point -/

/-- **The extended line**, a finite point being given in units of 2^-1074. -/
inductive Point where
  | nan
  | negInf
  | finite (units : Int)
  | posInf
  deriving DecidableEq

/-- The number of units in one. -/
def one : Nat := 1 <<< 1074

/-- The weight of the sign in the word. -/
def signBit : Nat := 0x8000000000000000

/-- The number of fractions, which is the weight of the exponent. -/
def fractionSize : Nat := 0x10000000000000

def negative (d : Double) : Bool := signBit ≤ d.bits.toNat

def exponentField (d : Double) : Nat := d.bits.toNat / fractionSize % 0x800

def fraction (d : Double) : Nat := d.bits.toNat % fractionSize

/-- The significand of a finite double, a whole number below 2^53. -/
def significand (d : Double) : Nat :=
  if d.exponentField = 0 then d.fraction else fractionSize + d.fraction

/-- How many places the significand stands to the left of the unit. -/
def shift (d : Double) : Nat := d.exponentField - 1

/-- The units in the magnitude of a finite double. -/
def units (d : Double) : Nat := d.significand <<< d.shift

/-- **What a double denotes.** -/
def point (d : Double) : Point :=
  if d.exponentField = 2047 then
    if d.fraction = 0 then (if d.negative then .negInf else .posInf) else .nan
  else .finite (if d.negative then -(d.units : Int) else d.units)

def isNaN (d : Double) : Bool := d.point == .nan

/-! ### Order -/

namespace Point

/-- **The order of the line**; a NaN stands nowhere in it. -/
def compare? : Point → Point → Option Ordering
  | .nan, _ => none
  | _, .nan => none
  | .finite a, .finite b => some (compare a b)
  | .negInf, .negInf => some .eq
  | .posInf, .posInf => some .eq
  | .negInf, _ => some .lt
  | _, .negInf => some .gt
  | _, .posInf => some .lt
  | .posInf, _ => some .gt

end Point

/-- The order of the denoted points. -/
def compare? (a b : Double) : Option Ordering := a.point.compare? b.point

/-- Equality of the denoted points, which a NaN has with nothing. -/
def same (a b : Double) : Bool := a.compare? b == some .eq

/-! ### Building doubles -/

/-- The word with the given sign, significand and shift. A significand that reaches 2^53 carries
into the exponent by itself, and what is too large becomes infinite. -/
def ofWord (negative : Bool) (significand shift : Nat) : Double :=
  let magnitude := min (significand + shift * fractionSize) (2047 * fractionSize)
  ⟨UInt64.ofNat (if negative then signBit + magnitude else magnitude)⟩

/-- The whole number nearest to a quotient, a tie going to the even neighbour. -/
def roundEven (num den : Nat) : Nat :=
  let q := num / den
  let r := num % den
  if 2 * r < den then q else if den < 2 * r then q + 1 else q + q % 2

/-- **The double nearest to a quotient** of natural numbers, with a sign. The denominator is
positive. -/
def ofRatio (negative : Bool) (num den : Nat) : Double :=
  let scaled := num * one
  let shift := (scaled / den).log2 - 52
  ofWord negative (roundEven scaled (den <<< shift)) shift

/-- The double nearest to an integer. -/
def ofInt (n : Int) : Double := ofRatio (n < 0) n.natAbs 1

def zero : Double := ⟨0⟩

def infinity (negative : Bool) : Double := ofWord negative 0 2047

def nan : Double := ⟨0x7FF8000000000000⟩

/-! ### Whole numbers -/

def minInt64 : Int := -0x8000000000000000

def maxInt64 : Int := 0x7FFFFFFFFFFFFFFF

/-- **The whole part**, kept within the 64-bit integers; a NaN has the whole part zero. -/
def toInt64 (d : Double) : Int :=
  match d.point with
  | .nan => 0
  | .negInf => minInt64
  | .posInf => maxInt64
  | .finite u => max minInt64 (min maxInt64 (u.tdiv one))

/-- Whether a double is finite and has no fractional part. -/
def isWhole (d : Double) : Bool :=
  match d.point with
  | .finite u => u % one == 0
  | _ => false

/-! ### Laws -/

theorem point_cases (d : Double) :
    d.point = .nan ∨ d.point = .negInf ∨ d.point = .posInf ∨ ∃ u, d.point = .finite u := by
  cases d.point <;> simp

/-- **A word denotes its significand shifted to the left.** -/
theorem point_ofWord {negative : Bool} {m s : Nat} (hm : m < 2 * fractionSize) (hs : s ≤ 2045)
    (hnorm : s = 0 ∨ fractionSize ≤ m) :
    (ofWord negative m s).point =
      .finite (if negative then -((m <<< s : Nat) : Int) else (m <<< s : Nat)) := by
  simp only [fractionSize] at hm hnorm
  have hbits : (ofWord negative m s).bits.toNat =
      (if negative then 0x8000000000000000 else 0) + (m + s * 0x10000000000000) := by
    simp only [ofWord, fractionSize, signBit]
    cases negative <;> simp <;> omega
  have hneg : (ofWord negative m s).negative = negative := by
    simp only [Double.negative, hbits, signBit]
    cases negative <;> simp <;> omega
  have hfrac : (ofWord negative m s).fraction = m % 0x10000000000000 := by
    simp only [fraction, hbits, fractionSize]
    cases negative <;> simp <;> omega
  have hexp : (ofWord negative m s).exponentField = s + m / 0x10000000000000 := by
    simp only [exponentField, hbits, fractionSize]
    cases negative <;> simp <;> omega
  have hunits : (ofWord negative m s).units = m <<< s := by
    simp only [units, significand, shift, hfrac, hexp, fractionSize]
    rcases hnorm with rfl | hm'
    · by_cases h : m / 0x10000000000000 = 0
      · have hz : 0 + m / 0x10000000000000 = 0 := by omega
        have hm' : m % 0x10000000000000 = m := by omega
        rw [if_pos hz, hz, hm']
      · have h1 : 0 + m / 0x10000000000000 = 1 := by omega
        have hm' : 0x10000000000000 + m % 0x10000000000000 = m := by omega
        rw [if_neg (by omega), h1, hm']
    · have h1 : s + m / 0x10000000000000 = s + 1 := by omega
      have h2 : 0x10000000000000 + m % 0x10000000000000 = m := by omega
      rw [if_neg (by omega), h1, h2, Nat.add_sub_cancel]
  have hne : ¬ s + m / 0x10000000000000 = 2047 := by omega
  simp only [point, hexp, hne, if_false, hneg, hunits]

end Double

end Registrar
