import Registrar.Proofs.Directory.Replacing

/-!
# Entities survive storage

An entity is written as a record and read from it again, without the copies of other entities. In
exchange it is read as it was, whatever it holds. In the store this is so, too, but for attributes
that are a single text which spells a value of another kind: this value is stored in their place,
and it is read as the text by which it is spelled, if there is one.

* `Book.read?_toDocument`, `Category.read?_toDocument`, `Contact.read?_toDocument`: what is read
  from the record of each kind, in either form.
* `Kind.bare`: an entity without copies of others.
* `survives_storage_iff`: **when an entity is read as it was written**.
-/

namespace Registrar.Directory

open Reading

variable {form : Form}

/-! ### Records -/

theorem bind_of_eq_some {α β : Type} {x : Option α} {a : α} {f : α → Option β} {y : Option β}
    (hx : x = some a) (hf : f a = y) : (x >>= f) = y := by
  rw [hx]
  exact hf

theorem Book.read?_toDocument (e : Book) :
    read? form (.document (e.toDocument form)) = some e :=
  bind_of_eq_some (form.fields?_document _ _) <|
  bind_of_eq_some (form.inverts_id e.id) <|
  bind_of_eq_some (form.text_string e.name) <|
  bind_of_eq_some (read_optionalString e.description) <|
  bind_of_eq_some (inverts_optionalTime e.lastUpdate) <|
  bind_of_eq_some (read_optionalString e.lastUpdateBy) <|
  bind_of_eq_some (read_int64 e.version) rfl

/-- **A category is read as it was written**, without its phone books. -/
theorem Category.read?_toDocument (e : Category) :
    read? form (.document (e.toDocument form)) = some { e with phoneBooks := [] } :=
  bind_of_eq_some (form.fields?_document _ _) <|
  bind_of_eq_some (form.inverts_id e.id) <|
  bind_of_eq_some (form.text_string e.name) <|
  bind_of_eq_some (read_optionalString e.description) <|
  bind_of_eq_some (inverts_settings e.settings) <|
  bind_of_eq_some (form.inverts_id.list e.phoneBookIds) <|
  bind_of_eq_some (a := []) rfl <|
  bind_of_eq_some (inverts_optionalTime e.lastUpdate) <|
  bind_of_eq_some (read_optionalString e.lastUpdateBy) <|
  bind_of_eq_some (read_int64 e.version) rfl

/-- **What is stored of a contact** is read as it was written, its attributes apart. -/
theorem ContactRecord.ofFields?_toDocument (c : ContactRecord) :
    ofFields? form (c.toDocument form) = (form.entries (c.attributes.toValue form)).map
      fun entries => { c with attributes := .ofEntries entries } := by
  refine bind_of_eq_some (form.inverts_id c.id) <|
    bind_of_eq_some (form.text_string c.firstName) <|
    bind_of_eq_some (form.text_string c.lastName) <|
    bind_of_eq_some (read_optionalString c.location) <|
    bind_of_eq_some (inverts_numbers c.numbers) <|
    bind_of_eq_some (read_int32 c.numberCount) <|
    bind_of_eq_some (form.inverts_id.list c.secretaryIds) <|
    bind_of_eq_some (inverts_optionalId c.managerId) <|
    bind_of_eq_some (form.inverts_id.list c.categoryIds) <|
    bind_of_eq_some (form.inverts_id.list c.phoneBookIds) ?_
  change (form.entries (c.attributes.toValue form) >>= _) = _
  cases form.entries (c.attributes.toValue form) with
  | none => rfl
  | some entries =>
    exact bind_of_eq_some rfl <|
      bind_of_eq_some (inverts_optionalTime c.lastUpdate) <|
      bind_of_eq_some (read_optionalString c.lastUpdateBy) <|
      bind_of_eq_some (read_int64 c.version) rfl

/-- **A contact is read as it was written**, without what it refers to and its attributes apart. -/
theorem Contact.read?_toDocument (e : Contact) :
    read? form (.document (e.toDocument form)) =
      (form.entries (e.record.attributes.toValue form)).map fun entries =>
        .ofRecord { e.record with attributes := .ofEntries entries } := by
  rw [read?_document, readWith, form.fields?_document, Option.bind_eq_bind, Option.bind_some,
    toDocument, ContactRecord.ofFields?_toDocument]
  cases form.entries (e.record.attributes.toValue form) <;> rfl

/-! ### Entities of every kind -/

namespace Kind

/-- The record of an entity. -/
def record (form : Form) : (i : Kind) → i.Entity → Document
  | book => Book.toDocument form
  | category => Category.toDocument form
  | contact => Contact.toDocument form

/-- Reads an entity. -/
def read? (form : Form) : (i : Kind) → Reader i.Entity
  | book => Book.read? form
  | category => Category.read? form
  | contact => Contact.read? form

/-- **An entity without copies** of those it refers to. -/
def bare : (i : Kind) → i.Entity → i.Entity
  | book, e => e
  | category, e => { e with phoneBooks := [] }
  | contact, e => .ofRecord e.record

/-- **In exchange every entity is read as it was.** -/
theorem read?_exchanged (i : Kind) {e : i.Entity} (h : (i.attributes e).Sorted) :
    i.read? .exchanged (.document (i.record .exchanged e)) = some (i.bare e) := by
  cases i with
  | book => exact Book.read?_toDocument e
  | category => exact Category.read?_toDocument e
  | contact =>
    have hentries : Form.exchanged.entries (e.record.attributes.toValue .exchanged) =
        some e.record.attributes := Contact.entries_texts e.record.attributes
    have hsame : Attributes.ofEntries e.record.attributes = e.record.attributes :=
      Attributes.ofEntries_eq h fun _ => Iff.rfl
    refine (Contact.read?_toDocument e).trans ?_
    rw [hentries, Option.map_some, hsame]
    rfl

/-- **In the store an entity is read as it was** just if its attributes are kept. -/
theorem ofDocument?_eq_bare_iff (i : Kind) (e : i.Entity) :
    i.kind.ofDocument? (i.kind.toDocument e) = some (i.bare e) ↔ (i.attributes e).Kept := by
  cases i with
  | book => exact iff_of_true (Book.read?_toDocument e) rfl
  | category => exact iff_of_true (Category.read?_toDocument e) rfl
  | contact =>
    change Contact.read? .stored (.document (e.toDocument .stored)) = some (.ofRecord e.record) ↔
      (Form.stored.entries (e.record.attributes.toValue .stored)).map Attributes.ofEntries =
        some e.record.attributes
    rw [Contact.read?_toDocument, Option.map_eq_some_iff, Option.map_eq_some_iff]
    refine exists_congr fun entries => and_congr_right fun _ => ⟨fun heq => ?_, fun heq => ?_⟩
    · exact congrArg (·.record.attributes) heq
    · rw [heq]

end Kind

/-- **When an entity survives**: in exchange it always does. In the store it does, unless its
attributes are one text that spells a value of another kind and this value is not spelled by just
this text. -/
theorem survives_storage_iff (i : Kind) {e : i.Entity} (h : (i.attributes e).Sorted) :
    i.read? .exchanged (.document (i.record .exchanged e)) = some (i.bare e) ∧
      (i.kind.ofDocument? (i.kind.toDocument e) = some (i.bare e) ↔
        ∀ key text v, i.attributes e = [(key, text)] → Value.ofText? key text = some v →
          v.spelling? = some [(key, .string text)]) :=
  ⟨i.read?_exchanged h, (i.ofDocument?_eq_bare_iff e).trans (Attributes.kept_iff h)⟩

/-- The attributes of this contact spell a number, which is not spelled by a text. -/
theorem numberedContact_unrestored : (Kind.attributes .contact numberedContact).Sorted ∧
    Contact.read? .exchanged (.document (numberedContact.toDocument .exchanged)) =
      some numberedContact ∧
    Contact.kind.ofDocument? (Contact.kind.toDocument numberedContact) ≠ some numberedContact := by
  have hsorted : (Kind.attributes .contact numberedContact).Sorted := by decide +kernel
  obtain ⟨hexchanged, hiff⟩ := survives_storage_iff .contact hsorted
  exact ⟨hsorted, hexchanged, fun hread =>
    absurd ((Attributes.kept_iff hsorted).mpr (hiff.mp hread)) (by decide +kernel)⟩

end Registrar.Directory
