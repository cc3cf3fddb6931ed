import Registrar.Entity.Reading
import Registrar.Value.Spelling

/-!
# The two forms of a record

A record is **stored** or **exchanged**. In the store an id is a binary value and a time a date; in
exchange an id is its text and a time is the object that spells it. Either form is read leniently:
ids and times may be spelled as objects in both. The store also takes plain bytes for a text, the
object that spells a value for a record, more items than a listed record has fields, and anything
readable under the name of a named value.

* `Form.ofUuid`, `Form.ofTime`: ids and times in a form.
* `Form.text`, `Form.fields?`, `Form.entries`, `Form.choice`: readers of the parts of a record.
* `Form.value`: reads a value that may be spelled. The first key that names a kind decides, and in
  exchange it has to be the last one.
* `Form.id`, `Form.time`: readers of ids and times.
* `id_ofUuid_stored`, `time_ofTime_stored`: what is stored is read back.
-/

namespace Registrar

open Reading

/-- **The form of a record**: as it is stored, or as it is exchanged. -/
inductive Form where
  | stored
  | exchanged
  deriving DecidableEq

namespace Form

/-! ### Writing -/

/-- An id in the form. -/
def ofUuid : Form → Uuid → Value
  | stored, u => Value.ofUuid u
  | exchanged, u => .string u.text

/-- A time in the form. -/
def ofTime : Form → Int64 → Value
  | stored, ms => .dateTime ms
  | exchanged, ms =>
    .document [("$date", .document [("$numberLong", .string (toString ms.toInt))])]

/-! ### Parts of a record -/

/-- The text of which these are the bytes. -/
def textOfBytes? (bytes : List UInt8) : Option String := String.fromUTF8? ⟨bytes.toArray⟩

/-- **A text**, or in the store its plain bytes. -/
def text : Form → Reader String
  | stored, .binary subtype bytes =>
    if subtype = Value.plainSubtype then textOfBytes? bytes else none
  | _, v => v.string?

/-- The fields of an object, or in the store of the object that spells a value. -/
def object? : Form → Value → Option Document
  | stored, v => v.document? <|> v.spelling?
  | exchanged, v => v.document?

/-- **The fields of a record** whose declared fields are these: those of an object, or the items of
a list in the order of the declaration. -/
def fields? (form : Form) (names : List String) : Reader Document
  | .array items =>
    if form = stored ∨ items.length ≤ names.length then some (names.zip items) else none
  | v => form.object? v

/-- The fields of a record that has no others. -/
def onlyFields? (form : Form) (names : List String) : Reader Document := fun v =>
  (form.fields? names v).filter fun d => d.keys.all (· ∈ names)

/-- The fields of an object of texts. -/
def entries (form : Form) : Reader (List (String × String)) := fun v =>
  (form.object? v).bind fun d => d.mapM fun f => (form.text f.2).map fun s => (f.1, s)

/-! ### Spelled values -/

/-- Bytes, plainly, as a text, or as a list of numbers. -/
def bytes : Reader (List UInt8)
  | .binary subtype bs => if subtype = Value.plainSubtype then some bs else none
  | .string s => some s.toUTF8.toList
  | .array items => items.mapM fun v => (within 0 255 v).map fun n => UInt8.ofNat n.toNat
  | _ => none

/-- An object id, as its digits or its bytes. -/
def objectId : Reader Value
  | .string s => Value.objectId? s
  | .binary subtype bs =>
    if subtype = Value.plainSubtype ∧ bs.length = 12 then some (.objectId bs) else none
  | _ => none

/-- Bytes in base 64, with the two digits of their subtype. -/
def binary (form : Form) : Reader Value := fun v => do
  let d ← form.onlyFields? ["base64", "subType"] v
  let bytes ← Base64.decode? (← required d "base64" form.text).toList
  match ← Uuid.bytesOfHex? (← required d "subType" form.text).toList with
  | [subtype] => return .binary subtype bytes
  | _ => none

/-- A pair of numbers of 32 bits. -/
def timestamp (form : Form) : Reader Value := fun v => do
  let d ← form.onlyFields? ["t", "i"] v
  let word := within 0 0xFFFFFFFF
  return .timestamp (UInt32.ofNat (← required d "t" word).toNat)
    (UInt32.ofNat (← required d "i" word).toNat)

/-- The milliseconds of a time, as text. -/
def millisText (form : Form) : Reader Int64 := fun v => (form.text v).bind Text.parseInt64?

/-- What spells a time: its timestamp, its milliseconds, or their text under a key of its own. -/
def spelledTime (form : Form) : Reader Int64
  | .array [v] => form.millisText v
  | .array _ => none
  | v =>
    int64 v <|>
    ((form.text v).bind Calendar.parseSpelled?).map Int64.ofInt <|>
    (form.onlyFields? ["$numberLong"] v).bind fun d => required d "$numberLong" form.millisText

/-- A pattern with its options; neither may hold the character zero. -/
def expression (form : Form) : Reader Value := fun v => do
  let d ← form.onlyFields? ["pattern", "options"] v
  let part (name : String) := (required d name form.text).filter fun s => !s.toList.contains '\x00'
  let _ ← part "pattern"
  let _ ← part "options"
  return .undefined

/-- A reference to an object of another collection. -/
def pointer (form : Form) : Reader Value := fun v => do
  let d ← form.onlyFields? ["$ref", "$id"] v
  let _ ← required d "$ref" form.text
  let target ← required d "$id" (form.onlyFields? ["$oid"])
  let _ ← (← required target "$oid" form.text) |> Value.objectId?
  return .undefined

/-- **The reader of what stands under a key** that names a kind. Expressions and pointers are kinds
that no field has: they are checked, and read as undefined. -/
def kindReader? (form : Form) (key : String) : Option (Reader Value) :=
  match key with
  | "$oid" => some objectId
  | "$symbol" | "$numberInt" | "$numberLong" | "$numberDouble" | "$numberDecimal" =>
    some fun v => (form.text v).bind (Value.ofText? key)
  | "$uuid" => some fun v => ((form.text v).bind Uuid.parse?).map Value.ofUuid
  | "$binary" => some form.binary
  | "$timestamp" => some form.timestamp
  | "$date" => some fun v => (form.spelledTime v).map .dateTime
  | "$regularExpression" => some form.expression
  | "$dbPointer" => some form.pointer
  | "$numberDecimalBytes" => some fun v =>
    (bytes v).bind fun bs => if bs.length = 16 then some (.decimal128 bs) else none
  | "$minKey" => some fun v => (within 1 1 v).map fun _ => .minKey
  | "$maxKey" => some fun v => (within 1 1 v).map fun _ => .maxKey
  | "$undefined" => some fun v => (bool v).bind fun b => if b then some .undefined else none
  | _ => none

/-- Whether the fields after a spelled value are passed over. -/
def passesOver (form : Form) (rest : Document) : Bool := form = stored || rest.isEmpty

/-- Code and its scope, which spells no value; code with a scope is read as undefined. -/
def scopedCode (form : Form) (inner : Reader Value) (code scope : Value) (rest : Document) :
    Option Value := do
  let _ ← form.text code
  let _ ← (← inner scope).document?
  if form.passesOver rest then some .undefined else none

/-- Code alone, or with a scope after it. -/
def code (form : Form) (inner : Reader Value) (v : Value) : Document → Option Value
  | [] => (form.text v).map .code
  | (key, scope) :: rest => if key = "$scope" then form.scopedCode inner v scope rest else none

/-- A scope, with its code after it. -/
def scope (form : Form) (inner : Reader Value) (v : Value) : Document → Option Value
  | [] => none
  | (key, code) :: rest => if key = "$code" then form.scopedCode inner code v rest else none

/-- **Reads an object field by field**, up to the first key that names a kind. -/
def objectFrom (form : Form) (inner : Reader Value) (before : Document) : Document → Option Value
  | [] => some (.document before)
  | (key, v) :: rest =>
    if key = "$code" then form.code inner v rest
    else if key = "$scope" then form.scope inner v rest
    else
      match form.kindReader? key with
      | some r => if form.passesOver rest then r v else none
      | none => (inner v).bind fun x => objectFrom form inner (before.put key x) rest

/-- Whether a value without parts occurs in the form. In exchange a decimal has to be spelled; any
other is a whole number too large for a stored integer. -/
def takes : Form → Value → Bool
  | exchanged, .decimal128 _ => false
  | _, _ => true

/-- Reads a value nested no deeper than the bound. -/
def valueTo (form : Form) : Nat → Reader Value
  | 0, _ => none
  | n + 1, .array items => (items.mapM (form.valueTo n)).map .array
  | n + 1, .document d => form.objectFrom (form.valueTo n) [] d
  | _ + 1, v => if form.takes v then some v else none

/-- **Reads a value** that may be spelled, and so may the values in it. -/
def value (form : Form) : Reader Value := fun v => form.valueTo v.depth v

/-! ### Ids, times and names -/

/-- The id that a spelled value refers to: sixteen plain bytes are enough. -/
def spelledId? : Value → Option Uuid
  | .binary subtype bytes =>
    if subtype = Value.uuidSubtype ∨ subtype = Value.plainSubtype then Uuid.ofBytes? bytes
    else none
  | _ => none

/-- **Reads an id.** -/
def id (form : Form) : Reader Uuid
  | .document d => (form.value (.document d)).bind spelledId?
  | v => v.uuid?

/-- **Reads a time.** -/
def time (form : Form) : Reader Int64 := fun v =>
  match form.value v with
  | some (.dateTime ms) => some ms
  | _ => none

/-- **One of several named values.** -/
def choice {α : Type} (form : Form) (name : α → String) (every : List α) : Reader α :=
  match form with
  | stored => oneOfWith (fun v => (form.value v).isSome) name every
  | exchanged => oneOf name every

/-! ### Laws -/

@[simp] theorem id_ofUuid_stored (u : Uuid) : stored.id (stored.ofUuid u) = some u := by
  simpa [id, ofUuid, Value.ofUuid] using Value.uuid?_ofUuid u

@[simp] theorem time_ofTime_stored (ms : Int64) : stored.time (stored.ofTime ms) = some ms := by
  simp [time, ofTime, value, valueTo, takes, Value.depth]

@[simp] theorem text_string (form : Form) (s : String) : form.text (.string s) = some s := by
  cases form <;> rfl

end Form

end Registrar
