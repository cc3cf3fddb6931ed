import Registrar.Double.Basic
import Registrar.Text.Digits
import Registrar.Value.Unsigned

/-!
# JSON

Records are exchanged as JSON texts. An object becomes a document, in which the last value of a
repeated key counts. A number written as an integer of 64 bits becomes one, or a whole number
without a sign when it has no room for the sign; every other number becomes a double, and so does a
negative zero. A double is rounded twice: its digits are rounded first, as many as fit into 64 bits,
and once more when they are scaled by the power of ten.

* `Value.ofJson?`: the value that a text denotes.
-/

namespace Registrar

namespace Exchange

/-! ### Numbers -/

/-- **The digits of a number**: those that fit into 64 bits, the power of ten that scales them, and
whether some did not fit. -/
structure Digits where
  significand : Nat := 0
  power : Int := 0
  isCut : Bool := false

namespace Digits

/-- The significand with one more digit. -/
def extended (d : Digits) (c : Char) : Nat := 10 * d.significand + (c.toNat - 48)

def accepts (d : Digits) (c : Char) : Bool := !d.isCut && d.extended c < 0x10000000000000000

/-- A digit of the whole part; one that does not fit still scales the others. -/
def whole (d : Digits) (c : Char) : Digits :=
  if d.accepts c then { d with significand := d.extended c }
  else { d with power := d.power + 1, isCut := true }

/-- A digit after the point; one that does not fit does not count. -/
def fraction (d : Digits) (c : Char) : Digits :=
  if d.accepts c then { d with significand := d.extended c, power := d.power - 1 }
  else { d with isCut := true }

end Digits

/-- The units of the double nearest to a power of ten. -/
def powerUnits (k : Nat) : Nat := (Double.ofRatio false (Text.tenTo k) 1).units

/-- A number of units multiplied by a power of ten and rounded. -/
def scaleUp (negative : Bool) (units k : Nat) : Double :=
  Double.ofRatio negative (units * powerUnits k) (Double.one * Double.one)

/-- A number of units divided by a power of ten and rounded. -/
def scaleDown (negative : Bool) (units k : Nat) : Double :=
  Double.ofRatio negative units (powerUnits k)

/-- The largest power of ten that is finite as a double. -/
def maxPower : Nat := 308

/-- **The double that digits denote**; `none` when it would be too large. -/
def real? (negative : Bool) (d : Digits) : Option Double :=
  let units := (Double.ofRatio false d.significand 1).units
  if units = 0 ∨ d.power < -(2 * maxPower) then some (Double.ofWord negative 0 0)
  else if (maxPower : Int) < d.power then none
  else if 0 ≤ d.power then
    let scaled := scaleUp negative units d.power.toNat
    if scaled.exponentField = 2047 then none else some scaled
  else if -(maxPower : Int) ≤ d.power then some (scaleDown negative units d.power.natAbs)
  else some (scaleDown negative (scaleDown false units maxPower).units (d.power.natAbs - maxPower))

/-- A number in the form of an integer. -/
def integer? (negative : Bool) (d : Digits) : Option Value :=
  let n : Int := if negative then -(d.significand : Int) else d.significand
  if d.isCut ∨ (negative ∧ n = 0) ∨ n < Double.minInt64 then (real? negative d).map .double
  else if Double.maxInt64 < n then some (.ofUnsigned d.significand)
  else some (.int64 (Int64.ofInt n))

/-- The digits at the front, at least one of them, and the rest. -/
def takeDigits? (cs : List Char) : Option (List Char × List Char) :=
  let ds := cs.takeWhile Text.isDigit
  if ds.isEmpty then none else some (ds, cs.drop ds.length)

/-- The power of ten after its letter. -/
def takePower? (cs : List Char) : Option (Int × List Char) :=
  match cs with
  | '-' :: r => (takeDigits? r).map fun (ds, r) => (-(Text.natOfDigits ds : Int), r)
  | '+' :: r => (takeDigits? r).map fun (ds, r) => ((Text.natOfDigits ds : Int), r)
  | r => (takeDigits? r).map fun (ds, r) => ((Text.natOfDigits ds : Int), r)

/-- Digits with the power of ten that may follow them. -/
def takeReal? (negative : Bool) (d : Digits) (cs : List Char) :
    Option (Value × List Char) := do
  let (power, r) ← match cs with
    | 'e' :: r => takePower? r
    | 'E' :: r => takePower? r
    | r => some (0, r)
  let x ← real? negative { d with power := d.power + power }
  return (.double x, r)

/-- **A number** without its sign. -/
def takeNumber? (negative : Bool) (cs : List Char) : Option (Value × List Char) := do
  let (ds, r) ← takeDigits? cs
  if ds.head? = some '0' ∧ 1 < ds.length then none
  else
    let d : Digits := ds.foldl Digits.whole {}
    match r with
    | '.' :: r =>
      let (fs, r) ← takeDigits? r
      takeReal? negative (fs.foldl Digits.fraction { d with isCut := false }) r
    | 'e' :: _ => takeReal? negative d r
    | 'E' :: _ => takeReal? negative d r
    | _ => (integer? negative d).map fun v => (v, r)

/-! ### Texts -/

/-- The number that four hexadecimal digits denote. -/
def takeUnit? : List Char → Option (Nat × List Char)
  | a :: b :: c :: d :: r => do
    let ds ← [a, b, c, d].mapM Uuid.hexValue?
    return (ds.foldl (fun n digit => 16 * n + digit) 0, r)
  | _ => none

/-- The character for a letter after a backslash. -/
def escapeLetter? (c : Char) : Option Char :=
  match c with
  | '"' => some '"'
  | '\\' => some '\\'
  | '/' => some '/'
  | 'b' => some (Char.ofNat 8)
  | 'f' => some (Char.ofNat 12)
  | 'n' => some '\n'
  | 'r' => some '\r'
  | 't' => some '\t'
  | _ => none

/-- **The character after a backslash.** One beyond the first plane is written as a pair. -/
def takeEscape? : List Char → Option (Char × List Char)
  | 'u' :: r => do
    let (high, r) ← takeUnit? r
    if 0xD800 ≤ high ∧ high < 0xDC00 then
      match r with
      | '\\' :: 'u' :: r => do
        let (low, r) ← takeUnit? r
        if 0xDC00 ≤ low ∧ low < 0xE000 then
          return (Char.ofNat (0x10000 + (high - 0xD800) * 0x400 + (low - 0xDC00)), r)
        else none
      | _ => none
    else if 0xDC00 ≤ high ∧ high < 0xE000 then none
    else return (Char.ofNat high, r)
  | c :: r => (escapeLetter? c).map fun c => (c, r)
  | [] => none

/-- The characters up to the closing quote, at most as many as the bound. -/
def takeText? : Nat → List Char → Option (List Char × List Char)
  | 0, _ => none
  | _ + 1, [] => none
  | n + 1, c :: r =>
    if c = '"' then some ([], r)
    else if c = '\\' then do
      let (c, r) ← takeEscape? r
      let (cs, r) ← takeText? n r
      return (c :: cs, r)
    else if c.toNat < 32 then none
    else do
      let (cs, r) ← takeText? n r
      return (c :: cs, r)

/-! ### Values -/

def isBlank (c : Char) : Bool := c = ' ' || c = '\t' || c = '\n' || c = '\r'

/-- The rest after the blanks at the front. -/
def skip (cs : List Char) : List Char := cs.dropWhile isBlank

/-- The rest after a word. -/
def expect? (word : String) (cs : List Char) : Option (List Char) :=
  if word.toList.isPrefixOf cs then some (cs.drop word.length) else none

mutual

/-- **A value** at the front, found in a number of steps within the bound. -/
def takeValue? : Nat → List Char → Option (Value × List Char)
  | 0, _ => none
  | n + 1, cs =>
    match skip cs with
    | [] => none
    | c :: r =>
      if c = '"' then (takeText? n r).map fun (s, r) => (.string (String.ofList s), r)
      else if c = '[' then
        match skip r with
        | ']' :: r => some (.array [], r)
        | r => (takeItems? n r).map fun (vs, r) => (.array vs, r)
      else if c = '\x7b' then
        match skip r with
        | '\x7d' :: r => some (.document [], r)
        | r => (takeFields? n r).map fun (fs, r) => (.document (Document.ofFields fs), r)
      else if c = '-' then takeNumber? true r
      else if Text.isDigit c then takeNumber? false (c :: r)
      else
        ((expect? "null" (c :: r)).map fun r => (.null, r)) <|>
        ((expect? "true" (c :: r)).map fun r => (.bool true, r)) <|>
        ((expect? "false" (c :: r)).map fun r => (.bool false, r))

/-- The items of a list that has some, up to its end. -/
def takeItems? : Nat → List Char → Option (List Value × List Char)
  | 0, _ => none
  | n + 1, cs => do
    let (v, r) ← takeValue? n cs
    match skip r with
    | ',' :: r =>
      let (vs, r) ← takeItems? n r
      return (v :: vs, r)
    | ']' :: r => return ([v], r)
    | _ => none

/-- The fields of an object that has some, up to its end. -/
def takeFields? : Nat → List Char → Option (List (String × Value) × List Char)
  | 0, _ => none
  | n + 1, cs => do
    let r ← expect? "\"" (skip cs)
    let (key, r) ← takeText? n r
    let r ← expect? ":" (skip r)
    let (v, r) ← takeValue? n r
    let field := (String.ofList key, v)
    match skip r with
    | ',' :: r =>
      let (fs, r) ← takeFields? n r
      return (field :: fs, r)
    | '\x7d' :: r => return ([field], r)
    | _ => none

end

end Exchange

/-- **The value that a JSON text denotes.** Every step takes a character or is followed by one that
does, so twice their number is enough. -/
def Value.ofJson? (text : String) : Option Value := do
  let cs := text.toList
  let (v, r) ← Exchange.takeValue? (2 * cs.length + 2) cs
  if (Exchange.skip r).isEmpty then some v else none

end Registrar
