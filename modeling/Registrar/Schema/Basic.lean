import Registrar.Value.Basic

/-!
# Schemas

A **schema** declares the fields of one kind of entity, how they refer to entities of other kinds,
and how the entities are found and sorted. Every stage of the engine reads the schema and none
looks at the shape of the values. Names are looked up leniently: case and underscores do not count.

* `FieldKind`: what a field holds, and what follows from it for searching and writing.
* `FieldRole`: who maintains a field.
* `Schema.field?`, `Schema.relation?`, `Schema.sortAlias?`: the lenient lookups.
-/

namespace Registrar

/-- **What a field holds.** -/
inductive FieldKind where
  | string
  | integer
  | float
  | bool
  | dateTime
  | id
  | idList
  | list
  | map
  | object
  deriving DecidableEq

namespace FieldKind

/-- The name of the kind. -/
def name : FieldKind → String
  | .string => "String"
  | .integer => "Integer"
  | .float => "Float"
  | .bool => "Bool"
  | .dateTime => "DateTime"
  | .id => "Id"
  | .idList => "IdList"
  | .list => "List"
  | .map => "Map"
  | .object => "Object"

/-- Every kind. -/
def every : List FieldKind :=
  [.string, .integer, .float, .bool, .dateTime, .id, .idList, .list, .map, .object]

/-- Lists and maps are written as a whole. -/
def isCollection : FieldKind → Bool
  | .idList | .list | .map => true
  | _ => false

/-- The kinds that hold several values. -/
def isList : FieldKind → Bool
  | .idList | .list => true
  | _ => false

/-- Prefixes and parts mean nothing on numbers, dates and booleans. -/
def acceptsText : FieldKind → Bool
  | .integer | .float | .bool | .dateTime => false
  | _ => true

/-- The kind of the single values in a list. -/
def element : FieldKind → FieldKind
  | .idList => .id
  | .list => .string
  | k => k

/-- The value that an unset field equals, besides null. -/
def unsetValue? : FieldKind → Option Value
  | .string => some (.string "")
  | .integer => some (.int32 0)
  | .float => some (.double .zero)
  | .bool => some (.bool false)
  | .idList | .list => some (.array [])
  | .map | .object => some (.document [])
  | .dateTime | .id => none

end FieldKind

/-- **Who maintains a field.** -/
inductive FieldRole where
  /-- The entity's id, which never changes. -/
  | id
  /-- Plain data of the caller. -/
  | data
  /-- Ids of other entities, maintained along a relation. -/
  | dependency
  /-- Copies of the entities referred to, never stored. -/
  | navigation
  /-- The time of the last write. -/
  | updatedAt
  /-- The caller of the last write. -/
  | updatedBy
  /-- The number of writes. -/
  | version
  /-- Computed by the entity from another field. -/
  | derived (source : String)
  deriving DecidableEq

/-- **A declared field**, with the fields of the objects it holds. -/
inductive Field where
  | mk (name : String) (kind : FieldKind) (role : FieldRole) (children : List Field)

namespace Field

def name : Field → String
  | mk n _ _ _ => n

def kind : Field → FieldKind
  | mk _ k _ _ => k

def role : Field → FieldRole
  | mk _ _ r _ => r

def children : Field → List Field
  | mk _ _ _ c => c

/-- The field that holds the entity's own id. -/
def idField : Field := mk "id" .id .id []

def data (name : String) (kind : FieldKind) (children : List Field) : Field :=
  mk name kind .data children

def dependency (name : String) (kind : FieldKind) : Field := mk name kind .dependency []

def navigation (name : String) : Field := mk name .object .navigation []

def derived (name : String) (kind : FieldKind) (source : String) : Field :=
  mk name kind (.derived source) []

def updatedAt (name : String) : Field := mk name .dateTime .updatedAt []

def updatedBy (name : String) : Field := mk name .string .updatedBy []

def version (name : String) : Field := mk name .integer .version []

/-- Fields that the engine writes and the caller does not. -/
def isInternal (f : Field) : Bool :=
  match f.role with
  | .id | .navigation | .updatedAt | .updatedBy | .version => true
  | .data | .dependency | .derived _ => false

end Field

/-- How many entities a relation refers to. -/
inductive Cardinality where
  | one
  | many
  deriving DecidableEq

namespace Cardinality

def name : Cardinality → String
  | .one => "One"
  | .many => "Many"

end Cardinality

/-- **A relation** to entities of another kind: their ids are stored in `idField`, copies of them
are filled into `navigation`, and they live in the collection `target`. -/
structure Relation where
  idField : String
  navigation : String
  target : String
  cardinality : Cardinality
  deriving DecidableEq

/-- Sorting by `field` sorts by `targetField` of the entity in `target` that it refers to. -/
structure SortAlias where
  field : String
  target : String
  targetField : String
  deriving DecidableEq

/-- The fields in which a free text is sought. -/
inductive TextScope where
  | none
  | field (name : String)
  | fields (names : List String)
  deriving DecidableEq

/-- **The declaration of a kind of entity.** -/
structure Schema where
  collection : String
  fields : List Field
  relations : List Relation := []
  sortAliases : List SortAlias := []
  defaultSort : List String := []
  nameSearch : TextScope := .none
  uniqueName : Option String := none

/-! ### Lenient names -/

/-- **The key of a name**: without underscores, ASCII letters small. -/
def nameKey (name : String) : List Char :=
  (name.toList.filter (· ≠ '_')).map Char.toLower

/-- The first field whose name has the key of the given name. -/
def fieldAmong? (fields : List Field) (name : String) : Option Field :=
  fields.find? fun f => nameKey f.name = nameKey name

namespace Field

/-- The declared field below this one, by lenient name. -/
def child? (f : Field) (name : String) : Option Field := fieldAmong? f.children name

end Field

namespace Schema

/-- **The field with the name**, leniently. -/
def field? (s : Schema) (name : String) : Option Field := fieldAmong? s.fields name

/-- **The relation** known by its id field or its navigation field. -/
def relation? (s : Schema) (name : String) : Option Relation :=
  s.relations.find? fun r =>
    nameKey r.idField = nameKey name || nameKey r.navigation = nameKey name

def sortAlias? (s : Schema) (name : String) : Option SortAlias :=
  s.sortAliases.find? fun a => nameKey a.field = nameKey name

def fieldsInRole (s : Schema) (role : FieldRole) : List Field :=
  s.fields.filter fun f => f.role = role

/-- The field that counts the writes. -/
def versionName? (s : Schema) : Option String :=
  (s.fieldsInRole .version).head?.map Field.name

/-- The fields computed from a field, by its exact name. -/
def computedFrom (s : Schema) (source : String) : List Field :=
  s.fieldsInRole (.derived source)

end Schema

end Registrar
