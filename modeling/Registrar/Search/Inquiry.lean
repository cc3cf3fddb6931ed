import Registrar.Search.Operand

/-!
# Inquiries

An **inquiry** is what a caller hands to a search: a page, an order, free texts, conditions on
fields, and the ids that the entities sought refer to. Every part has a default that restricts
nothing.

* `SearchOperator`: the comparisons of a condition.
* `Condition`: one condition on a field.
* `ReferenceCondition`: the ids that a field has to refer to.
* `Inquiry`: the whole.
-/

namespace Registrar

/-- **The comparisons of a condition.** -/
inductive SearchOperator where
  | equalTo
  | notEqualTo
  | moreThan
  | lessThan
  | moreThanOrEqualTo
  | lessThanOrEqualTo
  | startsWith
  | endsWith
  | contains
  | isEmpty
  | isNotEmpty
  deriving DecidableEq

namespace SearchOperator

/-- The name of the comparison. -/
def name : SearchOperator → String
  | .equalTo => "EqualTo"
  | .notEqualTo => "NotEqualTo"
  | .moreThan => "MoreThan"
  | .lessThan => "LessThan"
  | .moreThanOrEqualTo => "MoreThanOrEqualTo"
  | .lessThanOrEqualTo => "LessThanOrEqualTo"
  | .startsWith => "StartsWith"
  | .endsWith => "EndsWith"
  | .contains => "Contains"
  | .isEmpty => "IsEmpty"
  | .isNotEmpty => "IsNotEmpty"

/-- Every comparison. -/
def every : List SearchOperator :=
  [.equalTo, .notEqualTo, .moreThan, .lessThan, .moreThanOrEqualTo, .lessThanOrEqualTo,
    .startsWith, .endsWith, .contains, .isEmpty, .isNotEmpty]

/-- The comparisons that mean something without an operand. -/
def acceptsEmpty : SearchOperator → Bool
  | .equalTo | .notEqualTo | .isEmpty | .isNotEmpty => true
  | _ => false

/-- The comparisons of texts. -/
def isTextual : SearchOperator → Bool
  | .startsWith | .endsWith | .contains => true
  | _ => false

end SearchOperator

/-- How the conditions are combined. -/
inductive Combinator where
  | and
  | or
  deriving DecidableEq

/-- **One condition on a field.** When `operands` are given, the field has to be one of them, and
the comparison and the single operand do not count. -/
structure Condition where
  field : String := ""
  operator : SearchOperator := .equalTo
  operand : Operand := .null
  operands : List Operand := []

namespace Condition

/-- A condition without operand. -/
def unary (field : String) (operator : SearchOperator) : Condition := { field, operator }

/-- Membership in a list. -/
def oneOf (field : String) (operands : List Operand) : Condition := { field, operands }

end Condition

/-- The entities that refer through `field` to one of the ids. -/
structure ReferenceCondition where
  field : String
  ids : List Uuid

/-- **What a caller asks of a search.** Pages count from one, and a page size that is not positive
means no paging. -/
structure Inquiry where
  page : Int64 := 1
  pageSize : Int64 := 0
  sortBy : Option String := none
  sortAscending : Option Bool := none
  query : Option String := none
  name : Option String := none
  combinator : Combinator := .and
  conditions : List Condition := []
  references : List ReferenceCondition := []
  includeDependents : Bool := false

end Registrar
