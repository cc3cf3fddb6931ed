import Registrar.Calendar
import Registrar.Double.Text
import Registrar.Outcome
import Registrar.Schema.Basic
import Registrar.Text.Integer

/-!
# Operands of a search

Operands arrive loosely typed, most often as texts, and are brought to the stored form of the field
that they are compared with. A list is converted item by item to the kind of the field's items.
A text is read without the blanks around it. An operand that cannot stand for a value of the kind
makes the search invalid.

* `Operand.toValue`: the conversion.
* `Operand.toValues`: the conversion of a list of operands, lists among them being spread.
-/

namespace Registrar

/-- **An operand** as a caller supplies it. -/
inductive Operand where
  | null
  | bool (b : Bool)
  | number (d : Double)
  | string (s : String)
  | list (items : List String)
  | dateTime (millis : Int64)
  deriving DecidableEq

namespace Operand

/-- An integer as an operand, rounded to a double. -/
def ofInt (n : Int) : Operand := .number (Double.ofInt n)

/-- An id as an operand, by its text. -/
def ofUuid (u : Uuid) : Operand := .string u.text

/-- Several ids as an operand. -/
def ofUuids (us : List Uuid) : Operand := .list (us.map Uuid.text)

/-- Null, the empty text and the empty list are no operands. -/
def isEmpty : Operand → Bool
  | .null => true
  | .string s => s.isEmpty
  | .list items => items.isEmpty
  | _ => false

/-- The text of a text operand. -/
def string? : Operand → Option String
  | .string s => some s
  | _ => none

/-- How a message shows an operand that is no text. -/
def shown : Operand → String
  | .null => "Null"
  | .bool b => "Bool(" ++ (if b then "true" else "false") ++ ")"
  | .number d => "Number(" ++ d.detailedText ++ ")"
  | .string s => "String(" ++ s ++ ")"
  | .list items => "List(" ++ ", ".intercalate items ++ ")"
  | .dateTime ms => "DateTime(" ++ Calendar.text ms.toInt ++ ")"

/-- The refusal of an operand of the wrong type. -/
def mismatch (o : Operand) (kind : FieldKind) : StoreError :=
  .invalidQuery (o.shown ++ " cannot be compared with a " ++ kind.name ++ " field")

/-- The refusal of a text that does not denote a value of the kind. -/
def notValid (text : String) (kind : FieldKind) : StoreError :=
  .invalidQuery ("'" ++ text ++ "' is not a valid " ++ kind.name ++ " value")

/-- The words for the truth values, in any case. -/
def parseBool? (s : String) : Option Bool :=
  let word := s.toList.map Char.toLower
  if word = "true".toList ∨ word = "1".toList then some true
  else if word = "false".toList ∨ word = "0".toList then some false
  else none

/-- The value that a text without blanks around it denotes. -/
def readText? (text : String) : FieldKind → Option Value
  | .integer => (Text.parseInt64? text).map .int64
  | .float => (Double.parse? text).map .double
  | .bool => (parseBool? text).map .bool
  | .dateTime => (Calendar.parse? text).map fun ms => .dateTime (Int64.ofInt ms)
  | .id | .idList => (Uuid.parse? text).map Value.ofUuid
  | .string | .list | .map | .object => some (.string text)

/-- **The value a text denotes** for a kind. -/
def ofText (text : String) (kind : FieldKind) : Except StoreError Value :=
  let trimmed := Text.trim text
  match readText? trimmed kind with
  | some v => .ok v
  | none => .error (notValid trimmed kind)

/-- A number as text: a whole number as a 64-bit integer, any other in the plain style. -/
def numberText (d : Double) : String :=
  if d.isWhole then toString d.toInt64 else d.plainText

/-- **The stored form of an operand** for a field of the kind. -/
def toValue (o : Operand) (kind : FieldKind) : Except StoreError Value :=
  let target := kind.element
  match o with
  | .null => .ok .null
  | .list items => do return .array (← items.mapM (ofText · target))
  | .string s => ofText s target
  | .number d =>
    match target with
    | .integer => if d.isWhole then .ok (.int64 (Int64.ofInt d.toInt64)) else .error (o.mismatch target)
    | .float => .ok (.double d)
    | .string => .ok (.string (numberText d))
    | _ => .error (o.mismatch target)
  | .bool b =>
    match target with
    | .bool => .ok (.bool b)
    | .string => .ok (.string (if b then "true" else "false"))
    | _ => .error (o.mismatch target)
  | .dateTime ms =>
    match target with
    | .dateTime => .ok (.dateTime ms)
    | _ => .error (o.mismatch target)

/-- The items of a converted operand: those of a list, or the value itself. -/
def spread : Value → List Value
  | .array items => items
  | v => [v]

/-- **The stored forms of several operands**, lists among them being spread. -/
def toValues (os : List Operand) (kind : FieldKind) : Except StoreError (List Value) := do
  return (← os.mapM (toValue · kind)).flatMap spread

end Operand

end Registrar
