import Registrar.Directory.Contact
import Registrar.Proofs.Change.Fieldwise
import Registrar.Proofs.Engine.Pruning

/-!
# The three kinds of entities

Books, categories and contacts are kinds to which what holds of all kinds applies: their schemas
declare fields and relations as they should, and documents hold the ids of their entities.

* `IsKind`: the three kinds, for what is said of each of them.
-/

namespace Registrar

/-- The id that repeats a byte. -/
def Uuid.ofByte (b : UInt8) : Uuid := ⟨List.replicate 16 b, List.length_replicate⟩

namespace Directory

theorem Book.lawful : Book.kind.Lawful where
  schema := by decide
  id b := rfl

theorem Category.lawful : Category.kind.Lawful where
  schema := by decide
  id c := rfl

theorem Contact.lawful : Contact.kind.Lawful where
  schema := by decide
  id c := rfl

theorem Book.linked : Book.kind.schema.Linked := by decide

theorem Category.linked : Category.kind.schema.Linked := by decide

theorem Contact.linked : Contact.kind.schema.Linked := by decide

theorem books_ne_categories : Book.kind.collection ≠ Category.kind.collection := by decide

theorem books_ne_contacts : Book.kind.collection ≠ Contact.kind.collection := by decide

theorem categories_ne_contacts : Category.kind.collection ≠ Contact.kind.collection := by decide

/-- **The kinds of entities of the directory.** -/
inductive IsKind : {E : Type} → EntityKind E → Prop where
  | book : IsKind Book.kind
  | category : IsKind Category.kind
  | contact : IsKind Contact.kind

namespace IsKind

variable {E : Type} {k : EntityKind E}

theorem lawful (h : IsKind k) : k.Lawful := by
  cases h with
  | book => exact Book.lawful
  | category => exact Category.lawful
  | contact => exact Contact.lawful

theorem linked (h : IsKind k) : k.schema.Linked := by
  cases h with
  | book => exact Book.linked
  | category => exact Category.linked
  | contact => exact Contact.linked

theorem dotlessLeaves (h : IsKind k) : k.schema.DotlessLeaves := by
  cases h <;> decide

theorem versionName? (h : IsKind k) : k.schema.versionName? = some "version" := by
  cases h <;> rfl

end IsKind

end Directory

end Registrar
