import Registrar.Value.Equality

/-!
# Filters

A **filter** is a condition on documents: comparisons of the values under a path with an operand,
the presence of a path, and their combinations. Filters know nothing of a store; every store reads
them in its own way.

* `Filter.all?`, `Filter.any?`: combinations that leave out what is trivial.
* `Filter.same`: equality in type and value.
-/

namespace Registrar

/-- **How a value is compared with an operand.** -/
inductive Comparison where
  | eq
  | eqIgnoreCase
  | ne
  | gt
  | gte
  | lt
  | lte
  | contains
  | notContains
  | startsWith
  | endsWith
  | anyOf
  | noneOf
  deriving DecidableEq

namespace Comparison

/-- The name of a comparison. -/
def name : Comparison → String
  | .eq => "Eq"
  | .eqIgnoreCase => "EqIgnoreCase"
  | .ne => "Ne"
  | .gt => "Gt"
  | .gte => "Gte"
  | .lt => "Lt"
  | .lte => "Lte"
  | .contains => "Contains"
  | .notContains => "NotContains"
  | .startsWith => "StartsWith"
  | .endsWith => "EndsWith"
  | .anyOf => "AnyOf"
  | .noneOf => "NoneOf"

/-- Every comparison. -/
def every : List Comparison :=
  [.eq, .eqIgnoreCase, .ne, .gt, .gte, .lt, .lte, .contains, .notContains, .startsWith, .endsWith,
    .anyOf, .noneOf]

end Comparison

/-- **A condition on documents.** -/
inductive Filter where
  /-- Every part holds. -/
  | and (parts : List Filter)
  /-- Some part holds. -/
  | or (parts : List Filter)
  /-- The condition does not hold. -/
  | not (condition : Filter)
  /-- The path reaches a value, or reaches none. -/
  | present (path : String) (expected : Bool)
  /-- A value under the path compares with the operand as told. -/
  | compare (path : String) (test : Comparison) (operand : Value)

namespace Filter

def eq (path : String) (operand : Value) : Filter := .compare path .eq operand

def eqIgnoreCase (path : String) (operand : Value) : Filter := .compare path .eqIgnoreCase operand

def ne (path : String) (operand : Value) : Filter := .compare path .ne operand

def anyOf (path : String) (operands : List Value) : Filter :=
  .compare path .anyOf (.array operands)

def noneOf (path : String) (operands : List Value) : Filter :=
  .compare path .noneOf (.array operands)

/-- The entity with the id. -/
def hasId (u : Uuid) : Filter := eq "id" (Value.ofUuid u)

/-- The entities with one of the ids. -/
def hasIdIn (us : List Uuid) : Filter := .compare "id" .anyOf (Value.ofUuids us)

/-- Another condition that has to hold too. -/
def andAlso : Filter → Filter → Filter
  | .and parts, other => .and (parts ++ [other])
  | f, other => .and [f, other]

/-- Another condition that may hold instead. -/
def orElse : Filter → Filter → Filter
  | .or parts, other => .or (parts ++ [other])
  | f, other => .or [f, other]

/-- **All of the conditions**: none when there are none, and a single one as it is. -/
def all? : List Filter → Option Filter
  | [] => none
  | [f] => some f
  | fs => some (.and fs)

/-- **Any of the conditions**: none when there are none, and a single one as it is. -/
def any? : List Filter → Option Filter
  | [] => none
  | [f] => some f
  | fs => some (.or fs)

mutual

/-- Equality of filters, operands by type and value. -/
def same : Filter → Filter → Bool
  | .and fs, .and gs => sameAll fs gs
  | .or fs, .or gs => sameAll fs gs
  | .not f, .not g => same f g
  | .present p b, .present q c => p == q && b == c
  | .compare p s v, .compare q t w => p == q && s == t && v.same w
  | _, _ => false

def sameAll : List Filter → List Filter → Bool
  | [], [] => true
  | f :: fs, g :: gs => same f g && sameAll fs gs
  | _, _ => false

end

end Filter

end Registrar
