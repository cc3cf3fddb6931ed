import Registrar.Directory.Book

/-!
# Categories

A **category** groups contacts, such as suppliers, and is available in some phone books. Its name
is unique, without regard to case. It may have settings for its display.

* `Category.toDocument`, `Category.read?`: the passage to and from either form.
* `Category.kind`: categories as entities.
-/

namespace Registrar.Directory

/-- How a category is displayed. -/
structure CategoryDisplay where
  priority : Int32 := 0
  color : Option String := none
  deriving DecidableEq

namespace CategoryDisplay

def toValue (s : CategoryDisplay) : Value :=
  .document [("priority", .int32 s.priority), ("color", optionalString s.color)]

/-- Reads settings; both fields have defaults. -/
def read? (form : Form) : Reading.Reader CategoryDisplay := fun v => do
  let d ← form.fields? ["priority", "color"] v
  return {
    priority := ← Reading.optional d "priority" 0 Reading.int32
    color := ← Reading.optional d "color" none (Reading.nullable form.text) }

end CategoryDisplay

/-- **A category.** The phone books themselves are only filled in when they were looked up. -/
structure Category where
  id : Uuid
  name : String
  description : Option String := none
  settings : Option CategoryDisplay := none
  phoneBookIds : List Uuid := []
  phoneBooks : List Book := []
  lastUpdate : Option Int64 := none
  lastUpdateBy : Option String := none
  version : Int64 := 0
  deriving DecidableEq

/-- Adds an id to a list, unless it is there. -/
def addId (ids : List Uuid) (id : Uuid) : List Uuid := if id ∈ ids then ids else ids ++ [id]

namespace Category

/-- A new category, which has no id yet. -/
def ofName (name : String) : Category := { id := .nil, name }

/-- Makes the category available in a phone book. -/
def addPhoneBook (c : Category) (book : Uuid) : Category :=
  { c with phoneBookIds := addId c.phoneBookIds book }

def schema : Schema where
  collection := "categories"
  fields := [
    Field.idField,
    Field.data "name" .string [],
    Field.data "description" .string [],
    Field.data "settings" .object [
      Field.data "priority" .integer [],
      Field.data "color" .string []],
    Field.dependency "phone_book_ids" .idList,
    Field.navigation "phone_books",
    Field.updatedAt "last_update",
    Field.updatedBy "last_update_by",
    Field.version "version"]
  relations := [⟨"phone_book_ids", "phone_books", "phone_books", .many⟩]
  defaultSort := ["name"]
  nameSearch := .field "name"
  uniqueName := some "name"

/-- **The record of a category**, without the phone books themselves. -/
def toDocument (form : Form) (c : Category) : Document :=
  [("id", form.ofUuid c.id),
   ("name", .string c.name),
   ("description", optionalString c.description),
   ("settings", (c.settings.map CategoryDisplay.toValue).getD .null),
   ("phone_book_ids", .array (c.phoneBookIds.map form.ofUuid)),
   ("last_update", optionalTime form c.lastUpdate),
   ("last_update_by", optionalString c.lastUpdateBy),
   ("version", .int64 c.version)]

/-- The fields of a record of a category. -/
def fieldNames : List String :=
  ["id", "name", "description", "settings", "phone_book_ids", "phone_books", "last_update",
    "last_update_by", "version"]

/-- **Reads a category.** -/
def read? (form : Form) : Reading.Reader Category := fun v => do
  let d ← form.fields? fieldNames v
  return {
    id := ← Reading.required d "id" form.id
    name := ← Reading.required d "name" form.text
    description := ← Reading.optional d "description" none (Reading.nullable form.text)
    settings := ← Reading.optional d "settings" none (Reading.nullable (CategoryDisplay.read? form))
    phoneBookIds := ← Reading.optional d "phone_book_ids" [] (Reading.list form.id)
    phoneBooks := ← Reading.optional d "phone_books" [] (Reading.list (Book.read? form))
    lastUpdate := ← Reading.optional d "last_update" none (Reading.nullable form.time)
    lastUpdateBy := ← Reading.optional d "last_update_by" none (Reading.nullable form.text)
    version := ← Reading.optional d "version" 0 Reading.int64 }

/-- The canonical form has no blanks around the name. -/
def normalize (c : Category) : Category := { c with name := Text.trim c.name }

/-- Categories as entities. -/
def kind : EntityKind Category where
  schema := schema
  id := Category.id
  withId id c := { c with id }
  displayName c := some c.name
  normalize c := .done c.normalize
  toDocument := toDocument .stored
  ofDocument? d := read? .stored (.document d)

end Category

end Registrar.Directory
