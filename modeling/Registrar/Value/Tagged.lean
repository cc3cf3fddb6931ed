import Registrar.Entity.Reading
import Registrar.Value.Unsigned

/-!
# Values with their types

JSON does not tell the types of numbers apart and has no times, ids or bytes. In the **tagged form**
such a value is an object with a key that names its type after a dollar sign. Null, truth values and
texts stand for themselves, a list has tagged items, and a document is the list of its fields, whose
order is thereby kept. Doubles are given by their bits, so that none is rounded.

* `Value.tagged`, `Value.ofTagged?`: the passage to and from the tagged form.
-/

namespace Registrar

namespace Reading

/-- An integer of 64 bits, or its text. -/
def decimal : Reader Int64
  | .string s => Text.parseInt64? s
  | v => int64 v

/-- An integer with a sign or without one, or its text. -/
def whole : Reader Int
  | .string s => Text.parseInt? s
  | v => integer v <|> v.unsigned?.map Int.ofNat

/-- A number that counts something. -/
def natural : Reader Nat := fun v => (whole v).map Int.toNat

/-- Bytes as hexadecimal digits. -/
def bytes : Reader (List UInt8) := fun v => (string v).bind fun s => Uuid.bytesOfHex? s.toList

/-- Two items of a list. -/
def pair {α β : Type} (first : Reader α) (second : Reader β) : Reader (α × β)
  | .array [a, b] => do return (← first a, ← second b)
  | _ => none

end Reading

namespace Double

/-- The bytes of the bits, the highest first; every NaN has the same. -/
def bytes (d : Double) : List UInt8 :=
  let n := (if d.isNaN then nan else d).bits.toNat
  (List.range 8).reverse.map fun i => UInt8.ofNat (n >>> (8 * i))

/-- The double with these bytes. -/
def ofBytes (bytes : List UInt8) : Double :=
  ⟨UInt64.ofNat (bytes.foldl (fun n b => 256 * n + b.toNat) 0)⟩

end Double

namespace Value

/-- A value under a tag. -/
def withTag (tag : String) (v : Value) : Value := .document [(tag, v)]

def ofBytes (bytes : List UInt8) : Value := .string (String.ofList (Uuid.hexDigits bytes))

mutual

/-- **The tagged form.** -/
def tagged : Value → Value
  | .null => .null
  | .bool b => .bool b
  | .string s => .string s
  | .array items => .array (taggedItems items)
  | .document fields => withTag "$doc" (.array (taggedFields fields))
  | .undefined => withTag "$other" (.string "undefined")
  | .minKey => withTag "$other" (.string "minkey")
  | .maxKey => withTag "$other" (.string "maxkey")
  | .int32 n => withTag "$i32" (.int32 n)
  | .int64 n => withTag "$i64" (.string (toString n.toInt))
  | .double d => withTag "$f64" (ofBytes d.bytes)
  | .decimal128 bytes => withTag "$dec" (ofBytes bytes)
  | .symbol s => withTag "$sym" (.string s)
  | .code s => withTag "$js" (.string s)
  | .binary subtype bytes =>
    match uuid? (.binary subtype bytes) with
    | some u => withTag "$uuid" (.string u.text)
    | none => .document [("$bin", ofBytes bytes), ("sub", .int32 (Int32.ofNat subtype.toNat))]
  | .objectId bytes => withTag "$oid" (ofBytes bytes)
  | .dateTime millis => withTag "$date" (.string (toString millis.toInt))
  | .timestamp time increment =>
    withTag "$ts" (.array [.int64 (Int64.ofNat time.toNat), .int64 (Int64.ofNat increment.toNat)])

def taggedItems : List Value → List Value
  | [] => []
  | v :: r => tagged v :: taggedItems r

def taggedFields : List (String × Value) → List Value
  | [] => []
  | (k, v) :: r => .array [.string k, tagged v] :: taggedFields r

end

/-- The values without parts that have a name of their own. -/
def named? (name : String) : Option Value :=
  match name with
  | "undefined" => some .undefined
  | "minkey" => some .minKey
  | "maxkey" => some .maxKey
  | _ => none

/-- The value without parts under a tag. -/
def ofTag? (tag : String) : Reading.Reader Value := fun v =>
  match tag with
  | "$i32" => (Reading.int32 v).map .int32
  | "$i64" => (Reading.decimal v).map .int64
  | "$f64" => (Reading.bytes v).map fun bytes => .double (Double.ofBytes bytes)
  | "$date" => (Reading.decimal v).map .dateTime
  | "$uuid" => v.uuid?.map ofUuid
  | "$dec" => (Reading.bytes v).map .decimal128
  | "$oid" => (Reading.bytes v).map .objectId
  | "$sym" => (Reading.string v).map .symbol
  | "$js" => (Reading.string v).map .code
  | "$other" => (Reading.string v).bind named?
  | "$ts" => (Reading.pair Reading.natural Reading.natural v).map fun (time, increment) =>
    .timestamp (UInt32.ofNat time) (UInt32.ofNat increment)
  | _ => none

/-- Bytes with their subtype. -/
def ofBinary? (d : Document) : Option Value := do
  let bytes ← Reading.required d "$bin" Reading.bytes
  let subtype ← Reading.required d "sub" Reading.natural
  return .binary (UInt8.ofNat subtype) bytes

/-- Reads a tagged value nested no deeper than the bound. -/
def ofTaggedTo : Nat → Reading.Reader Value
  | 0, _ => none
  | n + 1, .array items => (items.mapM (ofTaggedTo n)).map .array
  | n + 1, .document [("$doc", fields)] =>
    (Reading.list (Reading.pair Reading.string (ofTaggedTo n)) fields).map fun fs =>
      .document (Document.ofFields fs)
  | _ + 1, .document [(tag, v)] => ofTag? tag v
  | _ + 1, .document d => ofBinary? d
  | _ + 1, v => some v

/-- **Reads a value in the tagged form.** Of fields with one key the last value counts. -/
def ofTagged? : Reading.Reader Value := fun v => ofTaggedTo v.depth v

end Value

/-- Reads a document in the tagged form. -/
def Document.ofTagged? : Reading.Reader Document := fun v => (Value.ofTagged? v).bind Value.document?

end Registrar
