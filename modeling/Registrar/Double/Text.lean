import Registrar.Double.Shortest
import Registrar.Text.Integer

/-!
# Doubles as text

Doubles are written in two styles, both with the shortest digits. The **plain** style is always
positional and writes a whole number without a point. The **detailed** style, used when a message
shows a value, always shows a point and turns to powers of ten from 10^16 on and below 10^-4.
Reading takes a sign, digits with or without a point, a power of ten, and the words for infinity
and NaN in any case.

* `Double.plainText`, `Double.detailedText`: the two styles.
* `Double.parse?`: reads a text, rounding to the nearest double.
-/

namespace Registrar

namespace Decimal

/-- The digits around a decimal point that is always in place. -/
def positional (d : Decimal) (wholeEnd : String) : String :=
  if d.point ≤ 0 then
    "0." ++ String.ofList (List.replicate (-d.point).toNat '0' ++ d.digits)
  else
    let p := d.point.toNat
    if d.digits.length ≤ p then
      String.ofList (d.digits ++ List.replicate (p - d.digits.length) '0') ++ wholeEnd
    else String.ofList (d.digits.take p) ++ "." ++ String.ofList (d.digits.drop p)

/-- One digit before the point, and the power of ten. -/
def scientific (d : Decimal) : String :=
  let mantissa :=
    if d.digits.length ≤ 1 then String.ofList d.digits
    else String.ofList (d.digits.take 1) ++ "." ++ String.ofList (d.digits.drop 1)
  mantissa ++ "e" ++ toString (d.point - 1)

end Decimal

namespace Double

/-- **How a double is written**: what ends a whole number, and which decimals are written with a
power of ten. -/
structure Style where
  wholeEnd : String
  usesPower : Decimal → Bool

/-- Positional, whole numbers without a point. -/
def plainStyle : Style := ⟨"", fun _ => false⟩

/-- A point in every positional number, powers of ten below 10^-4 and from 10^16 on. -/
def detailedStyle : Style := ⟨".0", fun d => decide (d.point < -3 ∨ 17 ≤ d.point)⟩

def write (style : Style) (d : Double) : String :=
  match d.point with
  | .nan => "NaN"
  | .posInf => "inf"
  | .negInf => "-inf"
  | .finite u =>
    let sign := if d.negative then "-" else ""
    if u = 0 then sign ++ "0" ++ style.wholeEnd
    else
      let shortest := d.decimal
      sign ++ if style.usesPower shortest then shortest.scientific
        else shortest.positional style.wholeEnd

/-- **The plain style.** -/
def plainText (d : Double) : String := d.write plainStyle

/-- **The detailed style.** -/
def detailedText (d : Double) : String := d.write detailedStyle

/-! ### Reading -/

/-- The double nearest to `n · 10^exponent`. Outside the powers that doubles reach, the answer is
known without forming the quotient. -/
def ofDecimal (negative : Bool) (n : Nat) (exponent : Int) : Double :=
  let size := (Nat.toDigits 10 n).length + exponent
  if n = 0 || size < -330 then ofWord negative 0 0
  else if 320 < size then infinity negative
  else ofRatio negative (n * Text.tenTo exponent.toNat) (Text.tenTo (-exponent).toNat)

/-- Digits with at most one point among them, at least one digit, and an optional power of ten. -/
def parseDecimal? (negative : Bool) (cs : List Char) : Option Double :=
  let whole := cs.takeWhile Text.isDigit
  let afterWhole := cs.dropWhile Text.isDigit
  let (frac, rest) := match afterWhole with
    | '.' :: r => (r.takeWhile Text.isDigit, r.dropWhile Text.isDigit)
    | _ => ([], afterWhole)
  if whole.isEmpty && frac.isEmpty then none
  else
    let power? := match rest with
      | [] => some 0
      | c :: r => if c = 'e' || c = 'E' then Text.parseSigned? r else none
    power?.map fun power =>
      ofDecimal negative (Text.natOfDigits (whole ++ frac)) (power - frac.length)

/-- **Reads a double.** -/
def parse? (s : String) : Option Double :=
  let (negative, cs) := match s.toList with
    | '-' :: r => (true, r)
    | '+' :: r => (false, r)
    | r => (false, r)
  let word := String.ofList (cs.map Char.toLower)
  if word = "inf" || word = "infinity" then some (infinity negative)
  else if word = "nan" then some nan
  else parseDecimal? negative cs

end Double

end Registrar
