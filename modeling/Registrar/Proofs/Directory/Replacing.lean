import Registrar.Proofs.Directory.Columns
import Registrar.Proofs.Engine.Rereading

/-!
# Replacing the data of an entity

An update without references stores the data that was submitted, in its canonical form. It reports
the fields in which what was stored did not agree with it, and leaves the references of the entity
and all other entities alone. When the entity is read afterwards, its data is what was submitted.
There is one exception: attributes that spell a value of another kind are stored as this value, and
may then be read as other attributes, or not at all.

* `Kind`: the kinds of entities by name.
* `Kind.data`, `Kind.references`: what an update replaces, and what it leaves alone.
* `reread_replaced`: **when the submitted data is read after an update**.
-/

namespace Registrar.Directory

/-! ### Kinds by name -/

/-- **The kinds of entities of the directory**, by name. -/
inductive Kind where
  | book
  | category
  | contact

namespace Kind

/-- The entities of a kind. -/
abbrev Entity : Kind → Type
  | book => Book
  | category => Category
  | contact => Contact

/-- What the engine knows of them. -/
def kind : (i : Kind) → EntityKind i.Entity
  | book => Book.kind
  | category => Category.kind
  | contact => Contact.kind

theorem isKind : (i : Kind) → IsKind i.kind
  | book => .book
  | category => .category
  | contact => .contact

/-- Attributes, which only contacts have. -/
def attributes : (i : Kind) → i.Entity → Attributes
  | book, _ | category, _ => []
  | contact, e => e.record.attributes

/-- **The data of an entity**, and what is computed from it. All else is blank. -/
def data : (i : Kind) → i.Entity → i.Entity
  | book, e => { Book.ofName e.name with description := e.description }
  | category, e => { Category.ofName e.name with
    description := e.description
    settings := e.settings }
  | contact, e => .ofRecord { ContactRecord.ofName e.record.firstName e.record.lastName with
    location := e.record.location
    numbers := e.record.numbers
    numberCount := e.record.numberCount
    attributes := e.record.attributes }

/-- **The references of an entity**, and its id. All else is blank. -/
def references : (i : Kind) → i.Entity → i.Entity
  | book, e => { Book.ofName "" with id := e.id }
  | category, e => { Category.ofName "" with
    id := e.id
    phoneBookIds := e.phoneBookIds }
  | contact, e => .ofRecord { ContactRecord.ofName "" "" with
    id := e.record.id
    secretaryIds := e.record.secretaryIds
    managerId := e.record.managerId
    categoryIds := e.record.categoryIds
    phoneBookIds := e.record.phoneBookIds }

/-! ### Their columns -/

/-- The columns of a kind. -/
def columns : (i : Kind) → List (Column i.Entity)
  | book => Book.columns
  | category => Category.columns
  | contact => Contact.columns

theorem tabled : (i : Kind) → i.kind.Tabled i.columns
  | book => Book.tabled
  | category => Category.tabled
  | contact => Contact.tabled

theorem data_eq_iff (i : Kind) (e e' : i.Entity) : i.data e = i.data e' ↔
    ∀ c ∈ i.columns, c.field.role.isDiffed false = true → c.part e = c.part e' := by
  cases i with
  | book =>
    simp +decide [data, columns, Book.columns, Book.ofName, Column.required, Column.optional]
  | category =>
    simp +decide [data, columns, Category.columns, Category.ofName, Column.required,
      Column.optional]
  | contact =>
    simp +decide [data, columns, Contact.columns, ContactRecord.ofName, Contact.ofRecord,
      Column.required, Column.optional]

theorem references_eq_iff (i : Kind) (e e' : i.Entity) : i.references e = i.references e' ↔
    ∀ c ∈ i.columns, c.field.role.isReference = true → c.part e = c.part e' := by
  cases i with
  | book =>
    simp +decide [references, columns, Book.columns, Book.ofName, Column.required, Column.optional]
  | category =>
    simp +decide [references, columns, Category.columns, Category.ofName, Column.required,
      Column.optional]
  | contact =>
    simp +decide [references, columns, Contact.columns, ContactRecord.ofName, Contact.ofRecord,
      Column.required, Column.optional]

theorem attributes_of_gives {i : Kind} {e e' : i.Entity} (h : (i.kind.normalize e).Gives e') :
    i.attributes e' = i.attributes e := by
  cases i with
  | book => rfl
  | category => rfl
  | contact =>
    obtain ⟨numbers, -, rfl⟩ := Contact.gives_normalize h
    obtain ⟨record, _, _, _, _⟩ := e
    rfl

theorem fixes {i : Kind} {e : i.Entity} (h : (i.attributes e).Sorted) :
    ∀ c ∈ i.columns, c.field.role.isDiffed false = true → c.Fixes e := by
  cases i with
  | book => exact Book.fixes e
  | category => exact Category.fixes e
  | contact => exact Contact.fixes h

theorem keeps_iff {i : Kind} (e : i.Entity) :
    (∀ c ∈ i.columns, c.field.role.isDiffed false = true → c.Keeps e) ↔
      (i.attributes e).Kept := by
  cases i with
  | book => exact iff_of_true (Book.keeps e) rfl
  | category => exact iff_of_true (Category.keeps e) rfl
  | contact => exact Contact.keeps_iff e

end Kind

/-! ### What is read afterwards -/

/-- **What an update without references does.** It reports the fields for data in which what was
stored did not agree with the canonical form of the submitted entity, and leaves all other entities
alone. Whoever reads the entity afterwards, and is not disturbed, finds the data of the canonical
form and the references that were there: always, if the caller still sees the entity and its
attributes are kept, and only then. -/
theorem reread_replaced (i : Kind) (u : Setup) (caller : Caller) {s t : Store} (hs : s.Keyed)
    {e : i.Entity} (hsorted : (i.attributes e).Sorted) {asked : Option Bool}
    (hasked : asked.getD u.settings.includeDependencyFields = false) {d : Document}
    (hd : (i.kind.id e, d) ∈ s.entries i.kind.collection) {e₀ : i.Entity}
    (hread : i.kind.ofDocument? d = some e₀) {report : WriteReport}
    (h : ((u.collection i.kind).update caller e asked).run.Runs .any s (.ok report) t) :
    ∃ e₁, (i.kind.normalize e).Gives e₁ ∧
      report = ⟨i.kind.id e, ((i.kind.schema.diffedFields false).filter fun f =>
        !Schema.agreesIn d (i.kind.toDocument e₁) f).map Field.name⟩ ∧
      (∀ name id x, ¬ (name = i.kind.collection ∧ id = i.kind.id e) →
        ((id, x) ∈ t.entries name ↔ (id, x) ∈ s.entries name)) ∧
      ((∀ r v, ((u.collection i.kind).get caller (i.kind.id e) false).run.Runs .calm t r v →
          ∃ e₂, r = .ok ⟨e₂, []⟩ ∧ i.data e₂ = i.data e₁ ∧ i.references e₂ = i.references e₀) ↔
        (∃ d', (i.kind.id e, d') ∈ t.entries i.kind.collection ∧
          u.policy.Sees caller i.kind.collection d') ∧ (i.attributes e).Kept) := by
  have hlawful : i.kind.Lawful := i.isKind.lawful
  obtain ⟨e₁, d₁, d', hreplaced⟩ := Collection.replaced_of_ok (c := u.collection i.kind)
    hlawful.schema hs hasked h
  obtain rfl : d₁ = d := Entries.eq_of_mem (hs _).nodup hreplaced.found hd
  have hruns : ((Operation.update e asked).program (u.collection i.kind) caller).run.Runs .any s
      (.ok (.wrote report)) t := runs_bindE_ok h ⟨rfl, rfl⟩
  have hafter : t.Keyed := Collection.keyed_program hlawful hruns hs
  have hattributes := Kind.attributes_of_gives hreplaced.normal
  have hreport : report =
      ⟨i.kind.id e, (i.kind.schema.diff false d₁ (i.kind.toDocument e₁)).keys⟩ :=
    hreplaced.report_eq
  have hiff := Collection.reread_iff (c := u.collection i.kind) caller i.tabled hlawful.schema
    hafter hreplaced hread (Kind.fixes (hattributes ▸ hsorted))
  refine ⟨e₁, hreplaced.normal, ?_, hreplaced.others, ?_⟩
  · rw [hreport, Schema.diff_eq hlawful.schema, Document.keys, List.map_map]
    rfl
  simp only [Kind.data_eq_iff, Kind.references_eq_iff]
  refine hiff.trans ?_
  rw [Kind.keeps_iff, hattributes]
  refine and_congr_left fun _ => ⟨fun hsees => ⟨d', hreplaced.left, hsees⟩, ?_⟩
  rintro ⟨x, hx, hsees⟩
  obtain rfl := Entries.eq_of_mem (hafter _).nodup hreplaced.left hx
  exact hsees

/-! ### Attributes that spell a number -/

/-- A contact without attributes. -/
def plainContact : Contact := .ofRecord { ContactRecord.ofName "Ann" "Aebi" with id := .ofByte 1 }

/-- The same contact, with attributes that spell the number five. -/
def numberedContact : Contact := .ofRecord { plainContact.record with
  attributes := [("$numberInt", "5")] }

/-- The plain contact is stored. -/
def plainStored : Session := serveAll {} {} .fresh [.contact (.add plainContact)]

/-- The update reports that the attributes were written, but they are not read afterwards. -/
theorem numberedContact_lost : Reached plainStored.store ∧
    (Kind.attributes .contact numberedContact).Sorted ∧
    ∃ d e₀ e₁ report t, (numberedContact.record.id, d) ∈ plainStored.store.entries "contacts" ∧
      Contact.kind.ofDocument? d = some e₀ ∧ (Contact.kind.normalize numberedContact).Gives e₁ ∧
      (({} : Setup).contacts.update {} numberedContact none).run.Runs .any plainStored.store
        (.ok report) t ∧ report.changedFields = ["attributes"] ∧
      ¬ ∀ r v, (({} : Setup).contacts.get {} numberedContact.record.id false).run.Runs .calm t r v →
        ∃ e₂, r = .ok ⟨e₂, []⟩ ∧ Kind.contact.data e₂ = Kind.contact.data e₁ ∧
          Kind.contact.references e₂ = Kind.contact.references e₀ := by
  have hreached : Reached plainStored.store := Reached.empty.serveAll (x := .fresh) rfl _ _ _
  have hsorted : (Kind.attributes .contact numberedContact).Sorted := by decide +kernel
  obtain ⟨report, hruns, hchanged⟩ := exists_runs_ok
    (({} : Setup).contacts.update {} numberedContact none) (x := plainStored) rfl
    (p := fun report => report.changedFields == ["attributes"]) (by decide +kernel)
  obtain ⟨⟨id, d⟩, hd, rfl, hread⟩ : ∃ x ∈ plainStored.store.entries "contacts",
      x.1 = numberedContact.record.id ∧ (Contact.kind.ofDocument? x.2).isSome := by decide +kernel
  obtain ⟨e₀, he₀⟩ := Option.isSome_iff_exists.mp hread
  obtain ⟨e₁, hgives, -, -, hiff⟩ := reread_replaced .contact {} {} hreached.keyed hsorted rfl hd
    he₀ hruns
  exact ⟨hreached, hsorted, d, e₀, e₁, report, _, hd, he₀, hgives, hruns, eq_of_beq hchanged,
    fun hall => absurd (hiff.mp hall).2 (by decide +kernel)⟩

end Registrar.Directory
