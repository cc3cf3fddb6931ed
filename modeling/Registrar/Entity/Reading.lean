import Registrar.Text.Integer
import Registrar.Value.Basic

/-!
# Reading records from values

A record is read field by field. Unknown fields are passed over, a field with a default may be
missing, and only an optional field may be null. Integers are read from either width, as long as
they fit, and never from a double. A record may also be given as the list of its fields in order.

* `Reading.fields?`: the fields of a record.
* `Reading.required`, `Reading.optional`: one field.
* `Reading.oneOf`: a named value.
-/

namespace Registrar

namespace Reading

/-- A reader of one kind of value; `none` when the value does not fit. -/
abbrev Reader (α : Type) := Value → Option α

def bool : Reader Bool
  | .bool b => some b
  | _ => none

def string : Reader String := Value.string?

/-- An integer of either width. -/
def integer : Reader Int
  | .int32 n => some n.toInt
  | .int64 n => some n.toInt
  | _ => none

/-- An integer within bounds. -/
def within (least most : Int) : Reader Int := fun v =>
  (integer v).filter fun n => least ≤ n && n ≤ most

/-- An integer of 32 bits. -/
def int32 : Reader Int32 := fun v => (within (-0x80000000) 0x7FFFFFFF v).map Int32.ofInt

/-- An integer of 64 bits. -/
def int64 : Reader Int64 := fun v => (integer v).map Int64.ofInt

/-- A value that may be null. -/
def nullable {α : Type} (r : Reader α) : Reader (Option α)
  | .null => some none
  | v => (r v).map some

/-- A list of values of one kind. -/
def list {α : Type} (r : Reader α) : Reader (List α)
  | .array items => items.mapM r
  | _ => none

/-- One of several named values, given by its name, or by an object with the name as its only key
and a blank under it. -/
def oneOfWith {α : Type} (isBlank : Value → Bool) (name : α → String) (every : List α) : Reader α
  | .string s => every.find? (name · = s)
  | .document [(s, v)] => if isBlank v then every.find? (name · = s) else none
  | _ => none

/-- One of several named values, null being the blank. -/
def oneOf {α : Type} : (name : α → String) → (every : List α) → Reader α := oneOfWith Value.isNull

/-- **The fields of a record** whose declared fields are these: those of a document, or the items
of a list in the order of the declaration. -/
def fields? (names : List String) : Reader Document
  | .document d => some d
  | .array items => if items.length ≤ names.length then some (names.zip items) else none
  | _ => none

/-- A field that has to be there. -/
def required {α : Type} (d : Document) (name : String) (r : Reader α) : Option α :=
  (d.value? name).bind r

/-- **A field with a default**, which a missing field takes. -/
def optional {α : Type} (d : Document) (name : String) (default : α) (r : Reader α) : Option α :=
  match d.value? name with
  | some v => r v
  | none => some default

end Reading

end Registrar
