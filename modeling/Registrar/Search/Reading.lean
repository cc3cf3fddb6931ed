import Registrar.Entity.Form
import Registrar.Search.Inquiry
import Registrar.Value.Tagged

/-!
# Inquiries as records

Inquiries are exchanged as records. Every field has a default, except those of a reference
condition. An operand is null, a truth value, a number, a text or a list of texts; numbers may also
be tagged, and times always are. What may stand under the name of a named value is told apart.

* `Operand.read?`, `Condition.read?`, `Inquiry.read?`: the readers.
* `Operand.toRecord`, `Inquiry.toRecord`: the records, numbers being tagged.
-/

namespace Registrar

open Reading

/-- **Reads an operand.** -/
def Operand.read? : Reader Operand
  | .null => some .null
  | .bool b => some (.bool b)
  | .string s => some (.string s)
  | .array items => (Reading.list Reading.string (.array items)).map .list
  | .document d =>
    match Value.ofTagged? (.document d) with
    | some (.double x) => some (.number x)
    | some (.dateTime ms) => some (.dateTime ms)
    | _ => none
  | v => (v.number? <|> v.unsigned?.map fun n => Double.ofInt n).map .number

/-- The record of an operand. -/
def Operand.toRecord : Operand → Value
  | .null => .null
  | .bool b => .bool b
  | .number d => (Value.double d).tagged
  | .string s => .string s
  | .list items => .array (items.map .string)
  | .dateTime ms => (Value.dateTime ms).tagged

/-- Reads a comparison by its name. -/
def SearchOperator.readWith (isBlank : Value → Bool) : Reader SearchOperator :=
  oneOfWith isBlank SearchOperator.name SearchOperator.every

def SearchOperator.read? : Reader SearchOperator := SearchOperator.readWith Value.isNull

/-- The name of a combinator. -/
def Combinator.name : Combinator → String
  | .and => "And"
  | .or => "Or"

def Combinator.readWith (isBlank : Value → Bool) : Reader Combinator :=
  oneOfWith isBlank Combinator.name [.and, .or]

/-- Reads a condition, given what may stand under the name of its comparison. -/
def Condition.readWith (isBlank : Value → Bool) : Reader Condition := fun v => do
  let d ← fields? ["field_name", "operator", "value", "values"] v
  return {
    field := ← optional d "field_name" "" string
    operator := ← optional d "operator" .equalTo (SearchOperator.readWith isBlank)
    operand := ← optional d "value" .null Operand.read?
    operands := ← optional d "values" [] (list Operand.read?) }

/-- **Reads a condition.** -/
def Condition.read? : Reader Condition := Condition.readWith Value.isNull

/-- The record of a condition. -/
def Condition.toRecord (c : Condition) : Value :=
  .document [
    ("field_name", .string c.field),
    ("operator", .string c.operator.name),
    ("value", c.operand.toRecord),
    ("values", .array (c.operands.map Operand.toRecord))]

/-- Reads a reference condition. -/
def ReferenceCondition.read? : Reader ReferenceCondition := fun v => do
  let d ← fields? ["field", "ids"] v
  return {
    field := ← required d "field" string
    ids := ← required d "ids" (list Form.exchanged.id) }

/-- The record of a reference condition. -/
def ReferenceCondition.toRecord (r : ReferenceCondition) : Value :=
  .document [
    ("field", .string r.field),
    ("ids", .array (r.ids.map (Form.exchanged.ofUuid ·)))]

namespace Inquiry

/-- Reads an inquiry from its fields, given what may stand under the name of a named value. -/
def ofFields? (isBlank : Value → Bool) (d : Document) : Option Inquiry := do
  return {
    page := ← optional d "page" 1 int64
    pageSize := ← optional d "page_size" 0 int64
    sortBy := ← optional d "sort_by" none (nullable string)
    sortAscending := ← optional d "sort_ascending" none (nullable bool)
    query := ← optional d "query" none (nullable string)
    name := ← optional d "name" none (nullable string)
    combinator := ← optional d "operator" .and (Combinator.readWith isBlank)
    conditions := ← optional d "parameters" [] (list (Condition.readWith isBlank))
    references := ← optional d "references" [] (list ReferenceCondition.read?)
    includeDependents := ← optional d "include_dependent_elements" false bool }

/-- **Reads an inquiry.** -/
def read? : Reader Inquiry := fun v => do
  ofFields? Value.isNull (← fields? ["page", "page_size", "sort_by", "sort_ascending", "query", "name",
    "operator", "parameters", "references", "include_dependent_elements"] v)

/-- A value for an optional part. -/
def orNull {α : Type} (f : α → Value) (a : Option α) : Value := (a.map f).getD .null

/-- **The record of an inquiry**, with all its fields. -/
def toRecord (p : Inquiry) : Value :=
  .document [
    ("page", .int64 p.page),
    ("page_size", .int64 p.pageSize),
    ("sort_by", orNull .string p.sortBy),
    ("sort_ascending", orNull .bool p.sortAscending),
    ("query", orNull .string p.query),
    ("name", orNull .string p.name),
    ("operator", .string p.combinator.name),
    ("parameters", .array (p.conditions.map Condition.toRecord)),
    ("references", .array (p.references.map ReferenceCondition.toRecord)),
    ("include_dependent_elements", .bool p.includeDependents)]

end Inquiry

end Registrar
