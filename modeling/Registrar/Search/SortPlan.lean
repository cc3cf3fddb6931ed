import Registrar.Search.Filtering
import Registrar.Store.Query

/-!
# Sort plans

A search is sorted by one field that the caller names, or by the default of the schema. A field
with a sort alias sorts by a field of the entity referred to. Every plan ends with the id, so that
the order leaves no ties between different entities.

* `SortPlan.resolve`: the plan for a caller's wish.
* `SortPlan.isNative`: whether a store can sort by it alone.
-/

namespace Registrar

/-- **What a term sorts by.** -/
inductive SortTarget where
  /-- A stored field. -/
  | field (path : String)
  /-- A field of the entity that `idField` refers to. -/
  | reference (idField target targetField : String)
  deriving DecidableEq

/-- A term of a sort plan. -/
structure SortTerm where
  target : SortTarget
  direction : Direction
  deriving DecidableEq

/-- **A sort plan**, the first term deciding first. -/
abbrev SortPlan := List SortTerm

namespace SortPlan

/-- The target that a name stands for. -/
def target (s : Schema) (name : String) : Except StoreError SortTarget :=
  match s.sortAlias? name with
  | some a => .ok (.reference a.field a.target a.targetField)
  | none =>
    match s.searchable? name with
    | some r => .ok (.field r.path)
    | none =>
      .error (.invalidQuery
        ("Cannot sort " ++ s.collection ++ " by unknown field '" ++ name ++ "'"))

/-- The plan with the id as its last term, unless the id is among its targets. -/
def closed (terms : List SortTerm) : SortPlan :=
  if terms.any (·.target = .field "id") then terms else terms ++ [⟨.field "id", .asc⟩]

/-- **The plan for a caller's wish.** A blank name counts as none, and the default of the schema
is ascending whatever the caller says. -/
def resolve (s : Schema) (sortBy : Option String) (ascending : Option Bool) :
    Except StoreError SortPlan :=
  match (sortBy.map Text.trim).filter (!·.isEmpty) with
  | none => .ok (closed (s.defaultSort.map fun path => ⟨.field path, .asc⟩))
  | some name => do
    let target ← target s name
    return closed [⟨target, .ofAscending (ascending.getD true)⟩]

/-- **Whether every term is a stored field.** -/
def isNative (plan : SortPlan) : Bool :=
  plan.all fun t => match t.target with
    | .field _ => true
    | .reference _ _ _ => false

/-- The terms that are stored fields, as sort keys. -/
def nativeKeys (plan : SortPlan) : List SortKey :=
  plan.filterMap fun t => match t.target with
    | .field path => some ⟨path, t.direction⟩
    | .reference _ _ _ => none

end SortPlan

end Registrar
