import Registrar.Directory.Contact
import Registrar.Search.Reading

/-!
# Searching the directory

Inquiries about contacts and about categories add the restrictions that are used most to the
general inquiry. The ids become reference conditions, and a location that is not blank becomes a
condition. Since both kinds of fields arrive in one flat record, an empty object may stand under the
name of a named value of the general inquiry.

* `ContactInquiry.toInquiry`, `CategoryInquiry.toInquiry`: the general inquiry.
* `ContactInquiry.read?`, `CategoryInquiry.read?`: both arrive as one flat record.
-/

namespace Registrar.Directory

/-- **An inquiry about contacts.** -/
structure ContactInquiry where
  search : Inquiry := {}
  location : Option String := none
  categoryIds : List Uuid := []
  managerIds : List Uuid := []
  secretaryIds : List Uuid := []
  phoneBookIds : List Uuid := []

/-- The reference conditions for the fields with ids. -/
def referenceConditions (fields : List (String × List Uuid)) : List ReferenceCondition :=
  (fields.filter fun f => !f.2.isEmpty).map fun f => ⟨f.1, f.2⟩

namespace ContactInquiry

/-- The condition for a location that is not blank. -/
def locationConditions (location : Option String) : List Condition :=
  ((location.filter (!Text.isBlankText ·)).map fun l =>
    ({ field := "location", operand := .string l } : Condition)).toList

/-- **The general inquiry.** -/
def toInquiry (s : ContactInquiry) : Inquiry :=
  { s.search with
    conditions := s.search.conditions ++ locationConditions s.location
    references := s.search.references ++ referenceConditions [
      ("category_ids", s.categoryIds),
      ("manager_id", s.managerIds),
      ("secretary_ids", s.secretaryIds),
      ("phone_book_ids", s.phoneBookIds)] }

end ContactInquiry

/-- **An inquiry about categories.** -/
structure CategoryInquiry where
  search : Inquiry := {}
  phoneBookIds : List Uuid := []

/-- The general inquiry. -/
def CategoryInquiry.toInquiry (s : CategoryInquiry) : Inquiry :=
  { s.search with
    references := s.search.references ++
      referenceConditions [("phone_book_ids", s.phoneBookIds)] }

/-! ### Reading -/

/-- Null or an object without fields. -/
def isEmptyOrNull : Value → Bool
  | .null => true
  | .document d => d.isEmpty
  | _ => false

/-- **Reads an inquiry about contacts.** -/
def ContactInquiry.read? : Reading.Reader ContactInquiry := fun v => do
  let d ← v.document?
  let ids (name : String) := Reading.optional d name [] (Reading.list Form.exchanged.id)
  return {
    search := ← Inquiry.ofFields? isEmptyOrNull d
    location := ← Reading.optional d "location" none (Reading.nullable Reading.string)
    categoryIds := ← ids "category_ids"
    managerIds := ← ids "manager_ids"
    secretaryIds := ← ids "secretary_ids"
    phoneBookIds := ← ids "phone_book_ids" }

/-- **Reads an inquiry about categories.** -/
def CategoryInquiry.read? : Reading.Reader CategoryInquiry := fun v => do
  let d ← v.document?
  return {
    search := ← Inquiry.ofFields? isEmptyOrNull d
    phoneBookIds := ← Reading.optional d "phone_book_ids" [] (Reading.list Form.exchanged.id) }

end Registrar.Directory
