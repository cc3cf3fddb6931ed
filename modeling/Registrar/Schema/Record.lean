import Registrar.Entity.Reading
import Registrar.Schema.Basic

/-!
# Schemas as records

Schemas can be declared in exchange form. A field, a relation and a sort alias are records, most
shortly written as lists of their parts. The role of a derived field names its source after a colon.
A role that fixes the kind of its fields wins over the kind that is written.

* `Schema.read?`: reads a schema.
-/

namespace Registrar

open Reading

def FieldKind.read? : Reader FieldKind := oneOf FieldKind.name FieldKind.every

namespace FieldRole

/-- The roles without a source, by name. -/
def plain : List (String × FieldRole) :=
  [("Id", .id), ("Data", .data), ("Dependency", .dependency), ("Navigation", .navigation),
    ("UpdatedAt", .updatedAt), ("UpdatedBy", .updatedBy), ("Version", .version)]

/-- **Reads a role.** -/
def read? : Reader FieldRole := fun v =>
  (string v).bind fun s =>
    if "Derived:".toList.isPrefixOf s.toList then some (.derived ((s.drop 8).toString))
    else plain.lookup s

end FieldRole

namespace Field

/-- A field by its parts; some roles fix the name or the kind. -/
def ofParts (name : String) (kind : FieldKind) (role : FieldRole) (children : List Field) : Field :=
  match role with
  | .id => mk "id" .id role children
  | .navigation => mk name .object role children
  | .updatedAt => mk name .dateTime role children
  | .updatedBy => mk name .string role children
  | .version => mk name .integer role children
  | .data | .dependency | .derived _ => mk name kind role children

/-- Reads a field nested no deeper than the bound. -/
def readTo : Nat → Reader Field
  | 0, _ => none
  | n + 1, v => do
    let d ← fields? ["name", "kind", "role", "children"] v
    return ofParts (← required d "name" string) (← required d "kind" FieldKind.read?)
      (← required d "role" FieldRole.read?) (← optional d "children" [] (list (readTo n)))

/-- **Reads a field.** -/
def read? : Reader Field := fun v => readTo v.depth v

end Field

def Cardinality.read? : Reader Cardinality := oneOf Cardinality.name [.one, .many]

/-- Reads a relation. -/
def Relation.read? : Reader Relation := fun v => do
  let d ← fields? ["id_field", "navigation", "target", "cardinality"] v
  return {
    idField := ← required d "id_field" string
    navigation := ← required d "navigation" string
    target := ← required d "target" string
    cardinality := ← required d "cardinality" Cardinality.read? }

/-- Reads a sort alias. -/
def SortAlias.read? : Reader SortAlias := fun v => do
  let d ← fields? ["field", "target", "target_field"] v
  return {
    field := ← required d "field" string
    target := ← required d "target" string
    targetField := ← required d "target_field" string }

def TextScope.read? : Reader TextScope
  | .null => some .none
  | .string name => some (.field name)
  | v => (list string v).map .fields

/-- **Reads a schema.** Only the collection is required. -/
def Schema.read? : Reader Schema := fun v => do
  let d ← v.document?
  return {
    collection := ← required d "collection" string
    fields := ← optional d "fields" [] (list Field.read?)
    relations := ← optional d "relations" [] (list Relation.read?)
    sortAliases := ← optional d "sort_aliases" [] (list SortAlias.read?)
    defaultSort := ← optional d "default_sort" [] (list string)
    nameSearch := ← optional d "name_search" .none TextScope.read?
    uniqueName := ← optional d "unique_name" none (nullable string) }

end Registrar
