import Registrar.Store.Query
import Registrar.Store.Update
import Registrar.Value.Tagged

/-!
# Filters, queries and updates as records

What is asked of a store, in exchange form. A filter is an object that tells by its keys what kind
of condition it is; sort keys and the parts of an update are pairs. Operands are tagged.

* `Filter.toRecord`, `Filter.read?`: filters.
* `Query.read?`: queries.
* `Update.toRecord`, `Update.read?`: updates.
-/

namespace Registrar

open Reading

namespace Filter

mutual

/-- **The record of a filter.** -/
def toRecord : Filter → Value
  | .and parts => .document [("and", .array (recordsOf parts))]
  | .or parts => .document [("or", .array (recordsOf parts))]
  | .not f => .document [("not", toRecord f)]
  | .present path expected => .document [("exists", .array [.string path, .bool expected])]
  | .compare path test operand =>
    .document [("field", .string path), ("is", .string test.name), ("value", operand.tagged)]

def recordsOf : List Filter → List Value
  | [] => []
  | f :: fs => toRecord f :: recordsOf fs

end

/-- Reads a comparison with an operand. -/
def readCompare? (d : Document) : Option Filter := do
  return .compare (← required d "field" string)
    (← required d "is" (oneOf Comparison.name Comparison.every))
    (← required d "value" Value.ofTagged?)

/-- Reads a filter nested no deeper than the bound. -/
def readTo : Nat → Reader Filter
  | 0, _ => none
  | n + 1, .document d =>
    match d with
    | [("and", v)] => (list (readTo n) v).map .and
    | [("or", v)] => (list (readTo n) v).map .or
    | [("not", v)] => (readTo n v).map .not
    | [("exists", v)] => (pair string bool v).map fun (path, expected) => .present path expected
    | _ => readCompare? d
  | _ + 1, _ => none

/-- **Reads a filter.** -/
def read? : Reader Filter := fun v => readTo v.depth v

/-- The record of an optional filter; no filter is null. -/
def recordOrNull (f : Option Filter) : Value := (f.map toRecord).getD .null

end Filter

/-! ### Queries -/

def Direction.read? : Reader Direction := oneOf Direction.name [.asc, .desc]

def SortKey.toRecord (k : SortKey) : Value :=
  .array [.string k.path, .string k.direction.name]

def SortKey.read? : Reader SortKey := fun v =>
  (pair string Direction.read? v).map fun (path, direction) => ⟨path, direction⟩

/-- **Reads a query.** Every part may be missing. -/
def Query.read? : Reader Query := fun v => do
  let d ← v.document?
  return {
    filter := ← optional d "filter" none (nullable Filter.read?)
    limit := ← optional d "limit" none (nullable natural)
    offset := ← optional d "offset" none (nullable natural)
    sort := ← optional d "sort" [] (list SortKey.read?) }

/-! ### Updates -/

namespace Update

/-- **The record of an update.** -/
def toRecord (u : Update) : Value :=
  .document [
    ("set", .array (Value.taggedFields u.sets)),
    ("inc", .array (u.incs.map fun i => .array [.string i.1, .string (toString i.2.toInt)]))]

/-- **Reads an update.** -/
def read? : Reader Update := fun v => do
  let d ← v.document?
  return {
    sets := ← optional d "set" [] (list (pair string Value.ofTagged?))
    incs := ← optional d "inc" [] (list (pair string decimal)) }

end Update

end Registrar
