import Registrar.Calendar
import Registrar.Decimal128
import Registrar.Double.Text
import Registrar.Text.Base64
import Registrar.Value.Basic

/-!
# Spelled values

Values of kinds that objects lack can be **spelled**: as an object whose key names the kind after a
dollar sign. A time up to the year 9999 is spelled by its timestamp, any other time by its
milliseconds. Most kinds are spelled by a text, and a document that is nothing but the spelling of
such a value turns into it when it is stored.

* `Value.spelling?`: the object that spells a value.
* `Value.ofText?`: the value that a key and a text spell.
* `Value.ofSpelling`: what is stored of a document of texts.
* `ofSpelling_symbol`, `ofSpelling_code`: the spelling of a symbol or of code gives it back.
-/

namespace Registrar

namespace Value

/-! ### Out -/

/-- The subtype of binary values without a purpose of their own. -/
def plainSubtype : UInt8 := 0

/-- A text of hexadecimal digits. -/
def ofHex (bytes : List UInt8) : Value := .string (String.ofList (Uuid.hexDigits bytes))

/-- A number of 32 bits, in the narrowest kind of integer that holds it. -/
def ofWord (n : UInt32) : Value :=
  if n.toNat < 0x80000000 then .int32 (Int32.ofNat n.toNat) else .int64 (Int64.ofNat n.toNat)

/-- What spells a time. -/
def timeSpelling (millis : Int) : Value :=
  if 0 ≤ millis ∧ millis < Calendar.fiveDigitYears then .string (Calendar.spelled millis)
  else .document [("$numberLong", .string (toString millis))]

/-- **The object that spells a value**, if it is of a kind that objects lack. -/
def spelling? : Value → Option Document
  | .undefined => some [("$undefined", .bool true)]
  | .minKey => some [("$minKey", .int32 1)]
  | .maxKey => some [("$maxKey", .int32 1)]
  | .decimal128 bytes => some [("$numberDecimalBytes", .binary plainSubtype bytes)]
  | .symbol s => some [("$symbol", .string s)]
  | .code s => some [("$code", .string s)]
  | .binary subtype bytes =>
    if subtype = plainSubtype then none
    else some [("$binary", .document [
      ("base64", .string (String.ofList (Base64.encode bytes))),
      ("subType", ofHex [subtype])])]
  | .objectId bytes => some [("$oid", ofHex bytes)]
  | .dateTime millis => some [("$date", timeSpelling millis.toInt)]
  | .timestamp time increment =>
    some [("$timestamp", .document [("t", ofWord time), ("i", ofWord increment)])]
  | _ => none

/-! ### Back -/

/-- The object id that 24 hexadecimal digits denote. -/
def objectId? (s : String) : Option Value :=
  if s.toList.length = 24 then (Uuid.bytesOfHex? s.toList).map .objectId else none

/-- An integer of 32 bits as text. -/
def int32? (s : String) : Option Value :=
  (Text.parseInt? s).bind fun n =>
    if -0x80000000 ≤ n ∧ n < 0x80000000 then some (.int32 (Int32.ofInt n)) else none

/-- **The value that a text spells** under a key. -/
def ofText? (key text : String) : Option Value :=
  match key with
  | "$oid" => objectId? text
  | "$symbol" => some (.symbol text)
  | "$code" => some (.code text)
  | "$numberInt" => int32? text
  | "$numberLong" => (Text.parseInt64? text).map .int64
  | "$numberDouble" => (Double.parse? text).map .double
  | "$numberDecimal" => (Decimal128.parse? text).map fun d => .decimal128 d.bytes
  | "$date" => (Calendar.parseSpelled? text).map fun ms => .dateTime (Int64.ofInt ms)
  | _ => none

/-- **What is stored of a document of texts**: the value that it spells, or the document. -/
def ofSpelling (d : Document) : Value :=
  match d with
  | [(key, .string text)] => (ofText? key text).getD (.document d)
  | _ => .document d

/-! ### Laws -/

theorem ofSpelling_symbol (s : String) :
    (Value.symbol s).spelling?.map ofSpelling = some (.symbol s) := by
  simp [spelling?, ofSpelling, ofText?]

theorem ofSpelling_code (s : String) :
    (Value.code s).spelling?.map ofSpelling = some (.code s) := by
  simp [spelling?, ofSpelling, ofText?]

end Value

end Registrar
