import Registrar.Filter.Basic
import Registrar.Schema.Path
import Registrar.Search.Inquiry

/-!
# From an inquiry to a filter

A search has three parts, all of which have to hold: the conditions, combined as the caller says,
each free text, and the references. A part that restricts nothing is left out. A condition on an
unknown field or with an operand that does not fit is an error; a comparison of texts on a field
that holds none is passed over.

* `Schema.filterOfCondition`: one condition.
* `Schema.filterOfText?`: one free text.
* `Schema.filterOfReferences`: the references.
* `Schema.filterOf`: the whole search.
-/

namespace Registrar

namespace FieldKind

/-- **The filter for an unset field**: missing, null, or the empty value of the kind. -/
def unset (path : String) (kind : FieldKind) : Filter :=
  .or ([.present path false, .eq path .null] ++ (kind.unsetValue?.map (Filter.eq path)).toList)

end FieldKind

namespace Schema

/-- The path of a field that can be searched or sorted by; copies of other entities cannot. -/
def searchable? (s : Schema) (path : String) : Option CanonicalPath :=
  (s.resolve? path).filter fun r => r.root.role ≠ .navigation

/-! ### Conditions -/

/-- The refusal of a list where the comparison takes a single value. -/
def refuseList (operator : SearchOperator) (path : String) : StoreError :=
  .invalidQuery (operator.name ++ " on '" ++ path ++ "' does not accept a list of values")

/-- **A comparison with a converted operand.** Null stands for an unset field, and a list for its
members. -/
def comparisonFilter (path : String) (kind : FieldKind) (operator : SearchOperator)
    (operand : Value) : Except StoreError Filter :=
  match operator, operand with
  | .isEmpty, _ => .ok (kind.unset path)
  | .isNotEmpty, _ => .ok (.not (kind.unset path))
  | .equalTo, .null => .ok (kind.unset path)
  | .notEqualTo, .null => .ok (.not (kind.unset path))
  | .equalTo, .array vs => .ok (.anyOf path vs)
  | .notEqualTo, .array vs => .ok (.noneOf path vs)
  | .contains, .array vs => .ok (.anyOf path vs)
  | op, .array _ => .error (refuseList op path)
  | .contains, v =>
    .ok (if kind.isList then .anyOf path [v] else .compare path .contains v)
  | .equalTo, v => .ok (.eq path v)
  | .notEqualTo, v => .ok (.ne path v)
  | .moreThan, v => .ok (.compare path .gt v)
  | .moreThanOrEqualTo, v => .ok (.compare path .gte v)
  | .lessThan, v => .ok (.compare path .lt v)
  | .lessThanOrEqualTo, v => .ok (.compare path .lte v)
  | .startsWith, v => .ok (.compare path .startsWith v)
  | .endsWith, v => .ok (.compare path .endsWith v)

/-- The operand of a comparison; the tests for unset fields have none. -/
def operandValue (c : Condition) (kind : FieldKind) : Except StoreError Value :=
  match c.operator with
  | .isEmpty | .isNotEmpty => .ok .null
  | _ => c.operand.toValue kind

/-- A condition on a known field; `none` when it restricts nothing. -/
def conditionFilter (c : Condition) (path : String) (kind : FieldKind) :
    Except StoreError (Option Filter) :=
  if !c.operands.isEmpty then do
    return some (.anyOf path (← Operand.toValues c.operands kind))
  else if c.operand.isEmpty && !c.operator.acceptsEmpty then .ok none
  else if c.operator.isTextual && !kind.acceptsText then .ok none
  else do
    let operand ← operandValue c kind
    return some (← comparisonFilter path kind c.operator operand)

/-- **The filter for one condition.** -/
def filterOfCondition (s : Schema) (c : Condition) : Except StoreError (Option Filter) :=
  match s.searchable? (Text.trim c.field) with
  | some r => conditionFilter c r.path r.kind
  | none =>
    .error (.invalidQuery ("Unknown search field '" ++ c.field ++ "' for " ++ s.collection))

/-- The filter for the conditions that name a field, combined as told. -/
def filterOfConditions (s : Schema) (cs : List Condition) (combinator : Combinator) :
    Except StoreError (Option Filter) := do
  let named := cs.filter fun c => !Text.isBlankText c.field
  let parts := (← named.mapM s.filterOfCondition).filterMap id
  return match combinator with
    | .and => Filter.all? parts
    | .or => Filter.any? parts

/-! ### Free texts -/

/-- **A free text as sought**: where it has to stand, and the text. Nothing is sought for a blank
text, a lone `*`, or a `%` with nothing after it. -/
def soughtText? (text : String) : Option (Comparison × String) :=
  let trimmed := Text.trimChars text.toList
  if trimmed = ['*'] then none
  else
    let sought := match trimmed with
      | '%' :: rest => (Comparison.contains, Text.trimChars rest)
      | _ => (Comparison.startsWith, trimmed)
    if sought.2.isEmpty then none else some (sought.1, String.ofList sought.2)

/-- **The filter for a free text**, which is sought in the name fields. -/
def filterOfText? (s : Schema) (text : String) : Option Filter :=
  (soughtText? text).bind fun (test, term) =>
    match s.nameSearch with
    | .none => none
    | .field name => some (.compare name test (.string term))
    | .fields names => Filter.any? (names.map fun name => .compare name test (.string term))

/-! ### References -/

/-- The filter for one reference condition with ids. -/
def filterOfReference (s : Schema) (r : ReferenceCondition) : Except StoreError Filter :=
  match (s.field? r.field).filter fun f => f.kind = .id ∨ f.kind = .idList with
  | some f => .ok (.compare f.name .anyOf (Value.ofUuids r.ids))
  | none =>
    .error (.invalidQuery ("'" ++ r.field ++ "' is not a reference field of " ++ s.collection))

/-- **The filter for the reference conditions** that have ids; all of them have to hold. -/
def filterOfReferences (s : Schema) (rs : List ReferenceCondition) :
    Except StoreError (Option Filter) := do
  return Filter.all? (← (rs.filter fun r => !r.ids.isEmpty).mapM s.filterOfReference)

/-! ### The whole search -/

/-- **The filter for an inquiry**; no filter admits every document. -/
def filterOf (s : Schema) (p : Inquiry) : Except StoreError (Option Filter) := do
  let conditions ← s.filterOfConditions p.conditions p.combinator
  let texts := [p.query, p.name].filterMap (·.bind s.filterOfText?)
  let references ← s.filterOfReferences p.references
  return Filter.all? (conditions.toList ++ texts ++ references.toList)

end Schema

end Registrar
