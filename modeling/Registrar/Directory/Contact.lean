import Registrar.Directory.Category

/-!
# Contacts

A **contact** is a person with telephone numbers. A contact refers by id to a manager, to
secretaries, to categories and to phone books. The entities referred to are only filled in when
they were looked up, and are contacts, categories and phone books themselves.

* `Contact.toDocument`, `Contact.read?`: the passage to and from either form.
* `Contact.normalize`: the canonical form, in which every number has an id and is counted.
* `Contact.kind`: contacts as entities.
-/

namespace Registrar.Directory

/-- What a telephone number is for. -/
inductive PhoneUse where
  | office
  | mobile
  | home
  | fax
  deriving DecidableEq

namespace PhoneUse

/-- The name of the type. -/
def name : PhoneUse → String
  | .office => "Office"
  | .mobile => "Mobile"
  | .home => "Home"
  | .fax => "Fax"

/-- Every type. -/
def every : List PhoneUse := [.office, .mobile, .home, .fax]

end PhoneUse

/-- **A telephone number** of a contact. -/
structure PhoneNumber where
  id : Uuid
  number : String
  type : PhoneUse := .office
  deriving DecidableEq

namespace PhoneNumber

def toValue (form : Form) (n : PhoneNumber) : Value :=
  .document [("id", form.ofUuid n.id), ("number", .string n.number), ("kind", .string n.type.name)]

/-- Reads a number; its type has a default. -/
def read? (form : Form) : Reading.Reader PhoneNumber := fun v => do
  let d ← form.fields? ["id", "number", "kind"] v
  return {
    id := ← Reading.required d "id" form.id
    number := ← Reading.required d "number" form.text
    type := ← Reading.optional d "kind" .office (form.choice PhoneUse.name PhoneUse.every) }

end PhoneNumber

/-! ### Attributes -/

/-- **Free attributes**, sorted by key. -/
abbrev Attributes := List (String × String)

namespace Attributes

/-- Sets an attribute, in its place among the keys. -/
def put (as : Attributes) (key value : String) : Attributes :=
  match as with
  | [] => [(key, value)]
  | a :: r =>
    match compare key a.1 with
    | .lt => (key, value) :: a :: r
    | .eq => (key, value) :: r
    | .gt => a :: put r key value

/-- The attributes set one after the other. -/
def ofEntries (entries : List (String × String)) : Attributes :=
  entries.foldl (fun as e => put as e.1 e.2) []

/-- Attributes as a value. In the store a single attribute may spell a value of another kind. -/
def toValue (form : Form) (as : Attributes) : Value :=
  let d := as.map fun a => (a.1, Value.string a.2)
  match form with
  | .stored => Value.ofSpelling d
  | .exchanged => .document d

end Attributes

/-! ### Contacts -/

/-- **What is stored of a contact.** -/
structure ContactRecord where
  id : Uuid
  firstName : String
  lastName : String
  location : Option String := none
  numbers : List PhoneNumber := []
  numberCount : Int32 := 0
  secretaryIds : List Uuid := []
  managerId : Option Uuid := none
  categoryIds : List Uuid := []
  phoneBookIds : List Uuid := []
  attributes : Attributes := []
  lastUpdate : Option Int64 := none
  lastUpdateBy : Option String := none
  version : Int64 := 0
  deriving DecidableEq

/-- **A contact**: what is stored of it, and the entities it refers to when they were looked
up. -/
inductive Contact where
  | mk (record : ContactRecord) (secretaries : List Contact) (manager : Option Contact)
    (categories : List Category) (phoneBooks : List Book)

namespace Contact

def record : Contact → ContactRecord
  | mk r _ _ _ _ => r

def secretaries : Contact → List Contact
  | mk _ s _ _ _ => s

def manager : Contact → Option Contact
  | mk _ _ m _ _ => m

def categories : Contact → List Category
  | mk _ _ _ c _ => c

def phoneBooks : Contact → List Book
  | mk _ _ _ _ b => b

/-- A contact of which nothing was looked up. -/
def ofRecord (r : ContactRecord) : Contact := mk r [] none [] []

/-- Changes what is stored. -/
def mapRecord (f : ContactRecord → ContactRecord) : Contact → Contact
  | mk r s m c b => mk (f r) s m c b

end Contact

namespace ContactRecord

/-- A new contact, which has no id yet. -/
def ofName (firstName lastName : String) : ContactRecord := { id := .nil, firstName, lastName }

/-- Adds a number, which has no id yet. -/
def addNumber (c : ContactRecord) (number : String) (type : PhoneUse) : ContactRecord :=
  { c with numbers := c.numbers ++ [⟨.nil, number, type⟩] }

def addSecretary (c : ContactRecord) (secretary : Uuid) : ContactRecord :=
  { c with secretaryIds := addId c.secretaryIds secretary }

def addCategory (c : ContactRecord) (category : Uuid) : ContactRecord :=
  { c with categoryIds := addId c.categoryIds category }

def addPhoneBook (c : ContactRecord) (book : Uuid) : ContactRecord :=
  { c with phoneBookIds := addId c.phoneBookIds book }

/-- **The name for display**: last name, comma, first name, or whichever is not blank. -/
def fullName (c : ContactRecord) : String :=
  let first := Text.trim c.firstName
  let last := Text.trim c.lastName
  if last.isEmpty then first else if first.isEmpty then last else last ++ ", " ++ first

end ContactRecord

namespace Contact

def schema : Schema where
  collection := "contacts"
  fields := [
    Field.idField,
    Field.data "first_name" .string [],
    Field.data "last_name" .string [],
    Field.data "location" .string [],
    Field.data "numbers" .list [
      Field.data "id" .id [],
      Field.data "number" .string [],
      Field.data "kind" .string []],
    Field.derived "number_of_telephone_numbers" .integer "numbers",
    Field.dependency "secretary_ids" .idList,
    Field.navigation "secretaries",
    Field.dependency "manager_id" .id,
    Field.navigation "manager",
    Field.dependency "category_ids" .idList,
    Field.navigation "categories",
    Field.dependency "phone_book_ids" .idList,
    Field.navigation "phone_books",
    Field.data "attributes" .map [],
    Field.updatedAt "last_update",
    Field.updatedBy "last_update_by",
    Field.version "version"]
  relations := [
    ⟨"secretary_ids", "secretaries", "contacts", .many⟩,
    ⟨"manager_id", "manager", "contacts", .one⟩,
    ⟨"category_ids", "categories", "categories", .many⟩,
    ⟨"phone_book_ids", "phone_books", "phone_books", .many⟩]
  sortAliases := [⟨"manager_id", "contacts", "last_name"⟩]
  defaultSort := ["last_name", "first_name"]
  nameSearch := .fields ["first_name", "last_name", "numbers.number"]

end Contact

namespace ContactRecord

/-- **The record of a contact.** -/
def toDocument (form : Form) (c : ContactRecord) : Document :=
  [("id", form.ofUuid c.id),
   ("first_name", .string c.firstName),
   ("last_name", .string c.lastName),
   ("location", optionalString c.location),
   ("numbers", .array (c.numbers.map (PhoneNumber.toValue form))),
   ("number_of_telephone_numbers", .int32 c.numberCount),
   ("secretary_ids", .array (c.secretaryIds.map form.ofUuid)),
   ("manager_id", (c.managerId.map form.ofUuid).getD .null),
   ("category_ids", .array (c.categoryIds.map form.ofUuid)),
   ("phone_book_ids", .array (c.phoneBookIds.map form.ofUuid)),
   ("attributes", c.attributes.toValue form),
   ("last_update", optionalTime form c.lastUpdate),
   ("last_update_by", optionalString c.lastUpdateBy),
   ("version", .int64 c.version)]

/-- Reads what is stored of a contact from its fields. -/
def ofFields? (form : Form) (d : Document) : Option ContactRecord := do
  return {
    id := ← Reading.required d "id" form.id
    firstName := ← Reading.required d "first_name" form.text
    lastName := ← Reading.required d "last_name" form.text
    location := ← Reading.optional d "location" none (Reading.nullable form.text)
    numbers := ← Reading.optional d "numbers" [] (Reading.list (PhoneNumber.read? form))
    numberCount := ← Reading.optional d "number_of_telephone_numbers" 0 Reading.int32
    secretaryIds := ← Reading.optional d "secretary_ids" [] (Reading.list form.id)
    managerId := ← Reading.optional d "manager_id" none (Reading.nullable form.id)
    categoryIds := ← Reading.optional d "category_ids" [] (Reading.list form.id)
    phoneBookIds := ← Reading.optional d "phone_book_ids" [] (Reading.list form.id)
    attributes := Attributes.ofEntries
      (← Reading.optional d "attributes" [] form.entries)
    lastUpdate := ← Reading.optional d "last_update" none (Reading.nullable form.time)
    lastUpdateBy := ← Reading.optional d "last_update_by" none (Reading.nullable form.text)
    version := ← Reading.optional d "version" 0 Reading.int64 }

/-- Gives new ids to the numbers that have none. -/
def assignIds : List PhoneNumber → Draws (List PhoneNumber)
  | [] => pure []
  | n :: r => do
    let id ← if n.id.isNil then Draws.newId else pure n.id
    return { n with id } :: (← assignIds r)

/-- **The canonical form**: names without blanks around them, every number with an id, and the
numbers counted. -/
def normalize (c : ContactRecord) : Draws ContactRecord := do
  let numbers ← assignIds c.numbers
  return { c with
    firstName := Text.trim c.firstName
    lastName := Text.trim c.lastName
    numbers
    numberCount := Int32.ofNat numbers.length }

end ContactRecord

namespace Contact

/-- The fields of a record of a contact. -/
def fieldNames : List String :=
  ["id", "first_name", "last_name", "location", "numbers", "number_of_telephone_numbers",
    "secretary_ids", "secretaries", "manager_id", "manager", "category_ids", "categories",
    "phone_book_ids", "phone_books", "attributes", "last_update", "last_update_by", "version"]

/-- Reads a contact, given how the contacts it refers to are read. -/
def readWith (form : Form) (inner : Reading.Reader Contact) : Reading.Reader Contact := fun v => do
  let d ← form.fields? fieldNames v
  return mk
    (← ContactRecord.ofFields? form d)
    (← Reading.optional d "secretaries" [] (Reading.list inner))
    (← Reading.optional d "manager" none (Reading.nullable inner))
    (← Reading.optional d "categories" [] (Reading.list (Category.read? form)))
    (← Reading.optional d "phone_books" [] (Reading.list (Book.read? form)))

/-- Reads a contact nested no deeper than the bound. -/
def readTo (form : Form) : Nat → Reading.Reader Contact
  | 0 => fun _ => none
  | n + 1 => readWith form (readTo form n)

/-- **Reads a contact.** -/
def read? (form : Form) : Reading.Reader Contact := fun v => readTo form v.depth v

/-- **The record of a contact**, without the entities it refers to. -/
def toDocument (form : Form) (c : Contact) : Document := c.record.toDocument form

/-- The canonical form. -/
def normalize (c : Contact) : Draws Contact := do
  let record ← c.record.normalize
  return c.mapRecord fun _ => record

/-- Contacts as entities. -/
def kind : EntityKind Contact where
  schema := schema
  id c := c.record.id
  withId id c := c.mapRecord fun r => { r with id }
  displayName _ := none
  normalize := normalize
  toDocument := toDocument .stored
  ofDocument? d := read? .stored (.document d)

end Contact

end Registrar.Directory
