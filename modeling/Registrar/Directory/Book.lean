import Registrar.Entity.Form
import Registrar.Entity.Kind
import Registrar.Text.Blank

/-!
# Phone books

A **phone book** is a named directory in which contacts and categories are filed. Its name is
unique, without regard to case.

* `Book.toDocument`, `Book.read?`: the passage to and from either form.
* `Book.kind`: phone books as entities.
-/

namespace Registrar.Directory

/-- **A phone book.** -/
structure Book where
  id : Uuid
  name : String
  description : Option String := none
  lastUpdate : Option Int64 := none
  lastUpdateBy : Option String := none
  version : Int64 := 0
  deriving DecidableEq

namespace Book

/-- A new phone book, which has no id yet. -/
def ofName (name : String) : Book := { id := .nil, name }

def schema : Schema where
  collection := "phone_books"
  fields := [
    Field.idField,
    Field.data "name" .string [],
    Field.data "description" .string [],
    Field.updatedAt "last_update",
    Field.updatedBy "last_update_by",
    Field.version "version"]
  defaultSort := ["name"]
  nameSearch := .field "name"
  uniqueName := some "name"

end Book

/-- An optional text as a value. -/
def optionalString : Option String → Value
  | some s => .string s
  | none => .null

/-- An optional time as a value. -/
def optionalTime (form : Form) : Option Int64 → Value
  | some ms => form.ofTime ms
  | none => .null

namespace Book

/-- **The record of a phone book.** -/
def toDocument (form : Form) (b : Book) : Document :=
  [("id", form.ofUuid b.id),
   ("name", .string b.name),
   ("description", optionalString b.description),
   ("last_update", optionalTime form b.lastUpdate),
   ("last_update_by", optionalString b.lastUpdateBy),
   ("version", .int64 b.version)]

/-- The fields of a record of a phone book. -/
def fieldNames : List String :=
  ["id", "name", "description", "last_update", "last_update_by", "version"]

/-- **Reads a phone book.** -/
def read? (form : Form) : Reading.Reader Book := fun v => do
  let d ← form.fields? fieldNames v
  return {
    id := ← Reading.required d "id" form.id
    name := ← Reading.required d "name" form.text
    description := ← Reading.optional d "description" none (Reading.nullable form.text)
    lastUpdate := ← Reading.optional d "last_update" none (Reading.nullable form.time)
    lastUpdateBy := ← Reading.optional d "last_update_by" none (Reading.nullable form.text)
    version := ← Reading.optional d "version" 0 Reading.int64 }

/-- The canonical form has no blanks around the name. -/
def normalize (b : Book) : Book := { b with name := Text.trim b.name }

/-- Phone books as entities. -/
def kind : EntityKind Book where
  schema := schema
  id := Book.id
  withId id b := { b with id }
  displayName b := some b.name
  normalize b := .done b.normalize
  toDocument := toDocument .stored
  ofDocument? d := read? .stored (.document d)

end Book

end Registrar.Directory
