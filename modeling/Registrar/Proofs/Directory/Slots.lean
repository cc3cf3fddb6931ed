import Registrar.Proofs.Directory.Readable
import Registrar.Proofs.Directory.References
import Registrar.Proofs.Engine.Slots
import Registrar.Proofs.Entity.Exchanging
import Registrar.Proofs.Value.Agreement

/-!
# The slots of books, categories and contacts

What the stored fields of each kind take, in the order in which they are declared. The documents of
books and categories fit their slots, and so do those of contacts, unless the attributes spell a
value that cannot be read as attributes.

* `CategoryDisplay.read?_toValue`, `PhoneNumber.read?_toValue`: the parts of entities that are
  documents of their own are read back as they were written.
* `Book.readBy`, `Category.readBy`, `Contact.readBy`: each kind is read by its slots.
* `Book.fitFor`, `Category.fitFor`, `Contact.fitFor`: what their documents fit.
* `Contact.Misspelt`, `Contact.unfit_iff`: the contacts that do not fit.
-/

namespace Registrar

open Reading

/-! ### Values that are read -/

theorem Reading.read_int32 (n : Int32) : int32 (.int32 n) = some n := by
  have hleast := n.le_toInt
  have hmost := n.toInt_lt
  rw [int32, within, integer, Option.filter_some, if_pos, Option.map_some, Int32.ofInt_toInt]
  rw [Bool.and_eq_true, decide_eq_true_iff, decide_eq_true_iff]
  omega

theorem Reading.read_int64 (n : Int64) : int64 (.int64 n) = some n :=
  congrArg some (Int64.ofInt_toInt n)

theorem Reading.isSome_int32 (n : Int32) : (int32 (.int32 n)).isSome = true := by
  rw [read_int32, Option.isSome_some]

namespace Form

@[simp] theorem isSome_id_ofUuid (u : Uuid) : (stored.id (Value.ofUuid u)).isSome = true :=
  stored.inverts_id.isSome u

@[simp] theorem isSome_time_dateTime (ms : Int64) : (stored.time (.dateTime ms)).isSome = true :=
  stored.inverts_time.isSome ms

theorem isSome_list_ofUuids (ids : List Uuid) :
    (Reading.list stored.id (Value.ofUuids ids)).isSome = true :=
  stored.inverts_id.list.isSome ids

theorem kindReader?_null {form : Form} {key : String} {r : Reader Value}
    (h : form.kindReader? key = some r) : r .null = none := by
  unfold kindReader? at h
  split at h <;> cases h <;> cases form <;> rfl

theorem objectFrom_null {form : Form} {inner : Reader Value} {before d : Document}
    (h : ∀ x ∈ d, x.2 = .null) :
    ∀ v, form.objectFrom inner before d = some v → ∃ fields, v = .document fields := by
  have htext : form.text .null = none := by cases form <;> rfl
  induction d generalizing before with
  | nil =>
    intro v hv
    exact ⟨before, (Option.some.inj hv).symm⟩
  | cons p rest ih =>
    obtain ⟨key, x⟩ := p
    obtain rfl : x = .null := h _ List.mem_cons_self
    have hrest : ∀ x ∈ rest, x.2 = .null := fun x hx => h x (List.mem_cons_of_mem _ hx)
    intro v hv
    rw [objectFrom] at hv
    split at hv
    · rw [code.eq_def] at hv
      split at hv
      · simp [htext] at hv
      · simp [scopedCode, htext] at hv
    · split at hv
      · rw [scope.eq_def] at hv
        split at hv
        · cases hv
        · rename_i hscope
          obtain rfl : _ = Value.null := hrest _ List.mem_cons_self
          simp [scopedCode, htext] at hv
      · split at hv
        · rename_i r hr
          split at hv
          · rw [kindReader?_null hr] at hv
            cases hv
          · cases hv
        · obtain ⟨y, -, hv⟩ := Option.bind_eq_some_iff.mp hv
          exact ih hrest v hv

theorem id_null {d : Document} (h : ∀ x ∈ d, x.2 = .null) : stored.id (.document d) = none := by
  rw [id, value, Value.depth, Nat.add_comm, valueTo]
  cases hobject : stored.objectFrom (stored.valueTo (Value.fieldsDepth d)) [] d with
  | none => rfl
  | some v =>
    obtain ⟨fields, rfl⟩ := objectFrom_null h v hobject
    rfl

end Form

namespace Directory

theorem read_optionalString {form : Form} (s : Option String) :
    nullable form.text (optionalString s) = some s := by
  cases form <;> cases s <;> rfl

theorem isSome_optionalString (s : Option String) :
    (nullable Form.stored.text (optionalString s)).isSome = true := by
  rw [read_optionalString, Option.isSome_some]

theorem inverts_optionalTime {form : Form} : Inverts (nullable form.time) (optionalTime form)
  | none => rfl
  | some ms => form.inverts_time.nullable (fun _ => by cases form <;> nofun) (some ms)

theorem inverts_optionalId {form : Form} :
    Inverts (nullable form.id) fun id => (id.map form.ofUuid).getD .null :=
  form.inverts_id.nullable fun _ => by cases form <;> nofun

theorem ne_document_of_flat {v : Value} (h : v.document? = none) (inner : Document) :
    some v ≠ some (.document inner) := by
  rintro ⟨rfl⟩
  cases h

theorem document?_optionalString (s : Option String) : (optionalString s).document? = none := by
  cases s <;> rfl

theorem document?_optionalId (id : Option Uuid) :
    ((id.map Form.stored.ofUuid).getD .null).document? = none := by
  cases id <;> rfl

theorem CategoryDisplay.read?_toValue {form : Form} (s : CategoryDisplay) :
    read? form s.toValue = some s := by
  have hfields : form.fields? ["priority", "color"] s.toValue =
      some [("priority", .int32 s.priority), ("color", optionalString s.color)] :=
    form.fields?_document _ _
  have hpriority : Reading.optional [("priority", .int32 s.priority),
      ("color", optionalString s.color)] "priority" 0 int32 = some s.priority := read_int32 _
  have hcolor : Reading.optional [("priority", .int32 s.priority),
      ("color", optionalString s.color)] "color" none (nullable form.text) =
        some s.color := read_optionalString _
  rw [read?, hfields, Option.bind_eq_bind, Option.bind_some, hpriority, Option.bind_eq_bind,
    Option.bind_some, hcolor]
  rfl

theorem inverts_settings {form : Form} : Inverts (nullable (CategoryDisplay.read? form))
    fun settings => (settings.map CategoryDisplay.toValue).getD .null :=
  Inverts.nullable CategoryDisplay.read?_toValue nofun

theorem PhoneNumber.read?_toValue {form : Form} (n : PhoneNumber) :
    read? form (n.toValue form) = some n := by
  obtain ⟨id, number, type⟩ := n
  let d : Document :=
    [("id", form.ofUuid id), ("number", .string number), ("kind", .string type.name)]
  have hfields : form.fields? ["id", "number", "kind"] (.document d) = some d :=
    form.fields?_document _ d
  have hid : required d "id" form.id = some id := form.inverts_id id
  have hnumber : required d "number" form.text = some number := form.text_string number
  have htype : Reading.optional d "kind" .office
      (form.choice PhoneUse.name PhoneUse.every) = some type := by
    cases form <;> cases type <;> rfl
  change read? form (.document d) = _
  simp only [read?, hfields, Option.bind_eq_bind, Option.bind_some, hid, hnumber, htype,
    Option.pure_def]

theorem inverts_numbers {form : Form} : Inverts (list (PhoneNumber.read? form))
    fun numbers => .array (numbers.map (PhoneNumber.toValue form)) :=
  Inverts.list PhoneNumber.read?_toValue

/-! ### Books -/

namespace Book

/-- What the fields of a phone book take. -/
def takers : List Taker :=
  [.required Form.stored.id, .required Form.stored.text, .optional (nullable Form.stored.text),
    .optional (nullable Form.stored.time), .optional (nullable Form.stored.text), .optional int64]

theorem slots_eq : kind.slots takers = [
    (Field.idField, .required Form.stored.id),
    (Field.data "name" .string [], .required Form.stored.text),
    (Field.data "description" .string [], .optional (nullable Form.stored.text)),
    (Field.updatedAt "last_update", .optional (nullable Form.stored.time)),
    (Field.updatedBy "last_update_by", .optional (nullable Form.stored.text)),
    (Field.version "version", .optional int64)] := rfl

theorem isSome_iff (d : Document) :
    (kind.ofDocument? d).isSome = true ↔ kind.Fits takers d := by
  have hfields : Form.fields? .stored fieldNames (.document d) = some d := rfl
  have hread : kind.ofDocument? d = read? .stored (.document d) := rfl
  rw [EntityKind.Fits, slots_eq, hread]
  simp only [read?, hfields, Option.bind_eq_bind, Option.bind_some, Option.pure_def,
    Option.isSome_bind, Option.isSome_some, Reading.any_const, Bool.and_eq_true, and_true,
    Taker.isSome_required, Taker.isSome_optional, List.forall_mem_cons,
    Field.idField, Field.data, Field.updatedAt, Field.updatedBy, Field.version, Field.name]
  simp

theorem readBy : kind.ReadBy takers fun _ => [] where
  complete := rfl
  reads d _ := (isSome_iff d).mpr
  fits d := (isSome_iff d).mp
  given := by
    rw [slots_eq]
    simp only [List.forall_mem_cons, List.not_mem_nil, false_implies, implies_true, and_true,
      Schema.not_gives_idField, Schema.not_gives_data, true_and]
    refine ⟨?_, ?_, ?_⟩
    · rintro _ ⟨ms, rfl⟩
      exact Form.isSome_time_dateTime ms
    · rintro _ ⟨text, rfl⟩
      rfl
    · rintro _ ⟨n, rfl⟩
      rfl
  refuses := by
    rw [slots_eq]
    simp +decide only [List.forall_mem_cons, List.not_mem_nil, false_implies, implies_true,
      and_true, true_and, forall_const]
    exact ⟨fun _ _ => rfl, fun _ _ => rfl⟩
  object := by
    rw [slots_eq]
    simp +decide only [List.forall_mem_cons, List.not_mem_nil, false_implies, implies_true,
      and_true]
  missing _ _ hp := absurd hp List.not_mem_nil

theorem fits_toDocument (e : Book) : kind.Fits takers (kind.toDocument e) := by
  rw [EntityKind.Fits, slots_eq]
  simp only [List.forall_mem_cons, List.not_mem_nil, false_implies, implies_true, and_true]
  exact ⟨Form.isSome_id_ofUuid e.id, rfl, isSome_optionalString e.description,
    inverts_optionalTime.isSome e.lastUpdate, isSome_optionalString e.lastUpdateBy, rfl⟩

theorem alike (e e' : Book) : kind.Alike takers e e' := by
  refine EntityKind.alike_of_fits fits_toDocument ?_
  change ∀ f ∈ schema.fields, _
  simp +decide only [schema, List.forall_mem_cons, List.not_mem_nil, false_implies, implies_true,
    and_true]

theorem fitFor : kind.FitFor takers where
  keys e := rfl
  maintained e q hq _ := fits_toDocument e q hq
  flat e := by
    change ∀ f ∈ schema.fields, _
    simp +decide only [schema, List.forall_mem_cons, List.not_mem_nil, false_implies, implies_true,
      and_true, true_and, forall_const]
    exact ⟨ne_document_of_flat rfl, ne_document_of_flat (document?_optionalString e.description)⟩
  agreed e q hq _ _ _ := fits_toDocument e q hq
  normal e e' _ := alike e e'
  withId id e := alike e _

end Book

/-! ### Categories -/

namespace Category

/-- What the parts of the settings take. -/
def parts (root : String) : List (String × Taker) :=
  if root = "settings" then
    [("priority", .optional int32), ("color", .optional (nullable Form.stored.text))]
  else []

/-- What the fields of a category take. -/
def takers : List Taker :=
  [.required Form.stored.id, .required Form.stored.text, .optional (nullable Form.stored.text),
    .optional (nullable (CategoryDisplay.read? .stored)), .optional (list Form.stored.id),
    .optional (nullable Form.stored.time), .optional (nullable Form.stored.text), .optional int64]

/-- The field for the settings of a category. -/
def settingsField : Field :=
  Field.data "settings" .object [Field.data "priority" .integer [], Field.data "color" .string []]

theorem slots_eq : kind.slots takers = [
    (Field.idField, .required Form.stored.id),
    (Field.data "name" .string [], .required Form.stored.text),
    (Field.data "description" .string [], .optional (nullable Form.stored.text)),
    (settingsField, .optional (nullable (CategoryDisplay.read? .stored))),
    (Field.dependency "phone_book_ids" .idList, .optional (list Form.stored.id)),
    (Field.updatedAt "last_update", .optional (nullable Form.stored.time)),
    (Field.updatedBy "last_update_by", .optional (nullable Form.stored.text)),
    (Field.version "version", .optional int64)] := rfl

/-- **When a category can be read**: its slots take what is there, and its phone books can be
read. -/
theorem isSome_iff (d : Document) : (kind.ofDocument? d).isSome = true ↔ kind.Fits takers d ∧
    (Reading.optional d "phone_books" [] (list (Book.read? .stored))).isSome = true := by
  have hfields : Form.fields? .stored fieldNames (.document d) = some d := rfl
  have hread : kind.ofDocument? d = read? .stored (.document d) := rfl
  rw [EntityKind.Fits, slots_eq, hread]
  simp only [read?, hfields, Option.bind_eq_bind, Option.bind_some, Option.pure_def,
    Option.isSome_bind, Option.isSome_some, Reading.any_const, Bool.and_eq_true, and_true,
    Taker.isSome_required, Taker.isSome_optional, List.forall_mem_cons, settingsField,
    Field.idField, Field.data, Field.updatedAt, Field.updatedBy, Field.version, Field.dependency,
    Field.name]
  simp only [List.not_mem_nil, false_implies, implies_true, and_true]
  tauto

theorem isSome_settings (inner : Document) :
    (nullable (CategoryDisplay.read? .stored) (.document inner)).isSome = true ↔
      ∀ p ∈ parts "settings", p.2 (inner.value? p.1) = true := by
  have hfields : Form.fields? .stored ["priority", "color"] (.document inner) = some inner := rfl
  rw [parts, if_pos rfl, isSome_nullable]
  simp only [CategoryDisplay.read?, hfields, Option.bind_eq_bind, Option.bind_some, Option.pure_def,
    Option.isSome_bind, Option.isSome_some, Reading.any_const, Bool.and_eq_true, and_true,
    Taker.isSome_optional, List.forall_mem_cons, List.not_mem_nil, false_implies, implies_true,
    reduceCtorEq, false_or]

theorem readBy : kind.ReadBy takers parts where
  complete := rfl
  reads d hbare hfits := by
    refine (isSome_iff d).mpr ⟨hfits, isSome_optional.mpr fun v hv => ?_⟩
    have hnone := hbare (Field.navigation "phone_books")
      (.tail _ (.tail _ (.tail _ (.tail _ (.tail _ (.head _)))))) rfl
    exact absurd (hv.symm.trans hnone) (Option.some_ne_none v)
  fits d h := ((isSome_iff d).mp h).1
  given := by
    rw [slots_eq]
    simp only [List.forall_mem_cons, List.not_mem_nil, false_implies, implies_true, and_true,
      Schema.not_gives_idField, Schema.not_gives_data, settingsField, true_and]
    refine ⟨?_, ?_, ?_, ?_⟩
    · rintro _ ⟨r, hr, -, hholds⟩
      obtain rfl := List.mem_singleton.mp hr
      obtain ⟨ids, rfl⟩ := hholds
      exact Form.isSome_list_ofUuids ids
    · rintro _ ⟨ms, rfl⟩
      exact Form.isSome_time_dateTime ms
    · rintro _ ⟨text, rfl⟩
      rfl
    · rintro _ ⟨n, rfl⟩
      rfl
  refuses := by
    rw [slots_eq]
    simp +decide only [List.forall_mem_cons, List.not_mem_nil, false_implies, implies_true,
      and_true, true_and, forall_const]
    exact ⟨fun _ _ => rfl, fun _ _ => rfl⟩
  object := by
    rw [slots_eq]
    simp +decide only [List.forall_mem_cons, List.not_mem_nil, false_implies, implies_true,
      and_true, true_and, forall_const]
    exact isSome_settings
  missing root := by
    rw [parts]
    split
    · simp only [List.forall_mem_cons, List.not_mem_nil, false_implies, implies_true, and_true]
      exact ⟨rfl, rfl⟩
    · exact fun p hp => absurd hp List.not_mem_nil

theorem fits_toDocument (e : Category) : kind.Fits takers (kind.toDocument e) := by
  rw [EntityKind.Fits, slots_eq]
  simp only [List.forall_mem_cons, List.not_mem_nil, false_implies, implies_true, and_true]
  exact ⟨Form.isSome_id_ofUuid e.id, rfl, isSome_optionalString e.description,
    inverts_settings.isSome e.settings, Form.isSome_list_ofUuids e.phoneBookIds,
    inverts_optionalTime.isSome e.lastUpdate, isSome_optionalString e.lastUpdateBy, rfl⟩

theorem alike {e e' : Category} (h : e'.settings = e.settings) : kind.Alike takers e e' := by
  refine EntityKind.alike_of_fits fits_toDocument ?_
  change ∀ f ∈ schema.fields, _
  simp +decide only [schema, List.forall_mem_cons, List.not_mem_nil, false_implies, implies_true,
    and_true, true_and, forall_const]
  change some ((e'.settings.map CategoryDisplay.toValue).getD .null) = _
  rw [h]
  rfl

theorem fitFor : kind.FitFor takers where
  keys e := rfl
  maintained e q hq _ := fits_toDocument e q hq
  flat e := by
    change ∀ f ∈ schema.fields, _
    simp +decide only [schema, List.forall_mem_cons, List.not_mem_nil, false_implies, implies_true,
      and_true, true_and, forall_const]
    exact ⟨ne_document_of_flat rfl, ne_document_of_flat (document?_optionalString e.description)⟩
  agreed e q hq _ _ _ := fits_toDocument e q hq
  normal e e' h := by
    cases h
    exact alike rfl
  withId id e := alike rfl

end Category

/-! ### Contacts -/

/-- **Misspelt attributes**: they spell a value that cannot be read as attributes. -/
def Contact.Misspelt (e : Contact) : Prop :=
  Form.stored.entries (e.record.attributes.toValue .stored) = none

namespace Contact

/-- What the fields of a contact take. -/
def takers : List Taker :=
  [.required Form.stored.id, .required Form.stored.text, .required Form.stored.text,
    .optional (nullable Form.stored.text), .optional (list (PhoneNumber.read? .stored)),
    .optional int32, .optional (list Form.stored.id), .optional (nullable Form.stored.id),
    .optional (list Form.stored.id), .optional (list Form.stored.id),
    .optional Form.stored.entries, .optional (nullable Form.stored.time),
    .optional (nullable Form.stored.text), .optional int64]

/-- The field for the attributes of a contact. -/
def attributesField : Field := Field.data "attributes" .map []

theorem slots_eq : kind.slots takers = [
    (Field.idField, .required Form.stored.id),
    (Field.data "first_name" .string [], .required Form.stored.text),
    (Field.data "last_name" .string [], .required Form.stored.text),
    (Field.data "location" .string [], .optional (nullable Form.stored.text)),
    (Field.data "numbers" .list [
      Field.data "id" .id [],
      Field.data "number" .string [],
      Field.data "kind" .string []], .optional (list (PhoneNumber.read? .stored))),
    (Field.derived "number_of_telephone_numbers" .integer "numbers", .optional int32),
    (Field.dependency "secretary_ids" .idList, .optional (list Form.stored.id)),
    (Field.dependency "manager_id" .id, .optional (nullable Form.stored.id)),
    (Field.dependency "category_ids" .idList, .optional (list Form.stored.id)),
    (Field.dependency "phone_book_ids" .idList, .optional (list Form.stored.id)),
    (attributesField, .optional Form.stored.entries),
    (Field.updatedAt "last_update", .optional (nullable Form.stored.time)),
    (Field.updatedBy "last_update_by", .optional (nullable Form.stored.text)),
    (Field.version "version", .optional int64)] := rfl

theorem isSome_bind_of {α β : Type} {x : Option α} {f : α → Option β} {a b : Bool}
    (hx : x.isSome = a) (hf : ∀ y, (f y).isSome = b) : (x >>= f).isSome = (a && b) := by
  cases x with
  | none => rw [← hx]; rfl
  | some y => rw [← hx, ← hf y]; rfl

theorem isSome_ofFields?_iff (d : Document) :
    (ContactRecord.ofFields? .stored d).isSome = true ↔ kind.Fits takers d := by
  have hrecord : (ContactRecord.ofFields? .stored d).isSome =
      (kind.slots takers).all fun q => q.2 (d.value? q.1.name) :=
    isSome_bind_of rfl fun _ => isSome_bind_of rfl fun _ => isSome_bind_of rfl fun _ =>
    isSome_bind_of (Taker.isSome_optional ..) fun _ =>
    isSome_bind_of (Taker.isSome_optional ..) fun _ =>
    isSome_bind_of (Taker.isSome_optional ..) fun _ =>
    isSome_bind_of (Taker.isSome_optional ..) fun _ =>
    isSome_bind_of (Taker.isSome_optional ..) fun _ =>
    isSome_bind_of (Taker.isSome_optional ..) fun _ =>
    isSome_bind_of (Taker.isSome_optional ..) fun _ =>
    isSome_bind_of (Taker.isSome_optional ..) fun _ =>
    isSome_bind_of (Taker.isSome_optional ..) fun _ =>
    isSome_bind_of (Taker.isSome_optional ..) fun _ =>
    isSome_bind_of (Taker.isSome_optional ..) fun _ => rfl
  rw [hrecord, List.all_eq_true, EntityKind.Fits]

theorem takes_reference {name : String} {v : Value}
    (h : schema.Gives (Field.dependency name .idList) v)
    (hmany : ∀ r ∈ schema.relations, r.idField = name → r.cardinality = .many) :
    (list Form.stored.id v).isSome = true := by
  obtain ⟨r, hr, hname, hholds⟩ := h
  rw [Relation.Holds, hmany r hr hname] at hholds
  obtain ⟨ids, rfl⟩ := hholds
  exact Form.isSome_list_ofUuids ids

theorem takes_manager {v : Value} (h : schema.Gives (Field.dependency "manager_id" .id) v) :
    (nullable Form.stored.id v).isSome = true := by
  obtain ⟨r, hr, hname, hholds⟩ := h
  have hone : ∀ r ∈ schema.relations, r.idField = "manager_id" → r.cardinality = .one := by decide
  rw [Relation.Holds, hone r hr hname] at hholds
  rcases hholds with rfl | ⟨id, rfl⟩
  · rfl
  · exact isSome_nullable.mpr (.inr (Form.isSome_id_ofUuid id))

/-- Attributes are stored as a document of texts, or as the value that they spell. -/
theorem toValue_cases (as : Attributes) :
    as.toValue .stored = .document (as.map fun a => (a.1, Value.string a.2)) ∨
      ∃ key text, as = [(key, text)] ∧
        Value.ofText? key text = some (as.toValue .stored) := by
  match as with
  | [] | _ :: _ :: _ => exact .inl rfl
  | [(key, text)] =>
    change (Value.ofText? key text).getD _ = _ ∨ ∃ k t, _ ∧
      Value.ofText? k t = some ((Value.ofText? key text).getD _)
    cases h : Value.ofText? key text with
    | none => exact .inl rfl
    | some v => exact .inr ⟨key, text, rfl, h⟩

/-- **A document of texts** is read entry by entry. -/
theorem entries_texts {form : Form} (as : Attributes) :
    form.entries (.document (as.map fun a => (a.1, Value.string a.2))) = some as := by
  have hobject : ∀ d, form.object? (.document d) = some d := fun d => by cases form <;> rfl
  rw [Form.entries, hobject, Option.bind_some]
  induction as with
  | nil => rfl
  | cons a as ih =>
    rw [List.map_cons, List.mapM_cons, ih, form.text_string]
    rfl

theorem entries_of_number {v : Value} (h : v.number?.isSome = true) :
    Form.stored.entries v = none := by
  cases v <;> first | rfl | cases h

/-- **Stored attributes do not agree** with misspelt ones. -/
theorem isSome_entries_of_agrees {as : Attributes} {v : Option Value}
    (hv : Taker.optional Form.stored.entries v = true)
    (h : (v.getD .null).agrees (as.toValue .stored) = true) :
    (Form.stored.entries (as.toValue .stored)).isSome = true := by
  rcases toValue_cases as with heq | ⟨key, text, -, hspelt⟩
  · rw [heq, entries_texts]
    rfl
  · obtain ⟨harray, hdocument, hnull⟩ := Value.scalar_of_ofText? hspelt
    rcases Value.eq_of_agrees harray hdocument h with ⟨hnumber, -⟩ | heq
    · cases v with
      | none => cases hnumber
      | some x =>
        have hrefused : Form.stored.entries x = none := entries_of_number hnumber
        change (Form.stored.entries x).isSome = true at hv
        rw [hrefused] at hv
        cases hv
    · cases v with
      | none => exact absurd heq.symm hnull
      | some x =>
        obtain rfl : x = _ := heq
        exact hv

theorem readBy : kind.ReadBy takers fun _ => [] where
  complete := rfl
  reads d hbare hfits := by
    rw [ofDocument?_eq]
    have hnone : ∀ {f : Field}, f ∈ schema.fields → f.role = .navigation →
        ∀ v, d.value? f.name = some v → False := fun hf hr v hv => by
      have := hbare _ hf hr
      rw [hv] at this
      cases this
    refine isSome_readWith.mpr ⟨d, rfl, (isSome_ofFields?_iff d).mpr hfits, ?_, ?_, ?_, ?_⟩
    · exact isSome_optional.mpr fun v hv =>
        (hnone (f := .navigation "secretaries") (List.mem_of_getElem? (i := 7) rfl) rfl v hv).elim
    · exact isSome_optional.mpr fun v hv =>
        (hnone (f := .navigation "manager") (List.mem_of_getElem? (i := 9) rfl) rfl v hv).elim
    · exact isSome_optional.mpr fun v hv =>
        (hnone (f := .navigation "categories") (List.mem_of_getElem? (i := 11) rfl) rfl v hv).elim
    · exact isSome_optional.mpr fun v hv =>
        (hnone (f := .navigation "phone_books") (List.mem_of_getElem? (i := 13) rfl) rfl v hv).elim
  fits d h := by
    rw [ofDocument?_eq] at h
    obtain ⟨_, hd, hrecord, -⟩ := isSome_readWith.mp h
    cases hd
    exact (isSome_ofFields?_iff d).mp hrecord
  given := by
    rw [slots_eq]
    simp only [List.forall_mem_cons, List.not_mem_nil, false_implies, implies_true, and_true,
      Schema.not_gives_idField, Schema.not_gives_data, Schema.not_gives_derived, attributesField,
      true_and]
    refine ⟨fun v hv => takes_reference hv (by decide), fun v => takes_manager,
      fun v hv => takes_reference hv (by decide), fun v hv => takes_reference hv (by decide),
      ?_, ?_, ?_⟩
    · rintro _ ⟨ms, rfl⟩
      exact Form.isSome_time_dateTime ms
    · rintro _ ⟨text, rfl⟩
      rfl
    · rintro _ ⟨n, rfl⟩
      rfl
  refuses := by
    rw [slots_eq]
    simp +decide only [List.forall_mem_cons, List.not_mem_nil, false_implies, implies_true,
      and_true, true_and, forall_const]
    refine ⟨fun _ _ => rfl, fun _ _ => rfl, fun _ _ => rfl, fun _ _ => rfl, fun inner hnull => ?_⟩
    change (nullable Form.stored.id (.document inner)).isSome = false
    rw [nullable, Form.id_null hnull]
    · rfl
    · nofun
  object := by
    rw [slots_eq]
    simp +decide only [List.forall_mem_cons, List.not_mem_nil, false_implies, implies_true,
      and_true]
  missing _ _ hp := absurd hp List.not_mem_nil

/-- **The document of a contact** fits, its attributes apart. -/
theorem takes_toDocument (e : Contact) : ∀ q ∈ kind.slots takers,
    q.2 ((kind.toDocument e).value? q.1.name) = true ∨
      q = (attributesField, .optional Form.stored.entries) := by
  rw [slots_eq]
  simp only [List.forall_mem_cons, List.not_mem_nil, false_implies, implies_true, and_true]
  exact ⟨.inl (Form.isSome_id_ofUuid e.record.id), .inl rfl, .inl rfl,
    .inl (isSome_optionalString e.record.location),
    .inl (inverts_numbers.isSome e.record.numbers), .inl (isSome_int32 _),
    .inl (Form.isSome_list_ofUuids _), .inl (inverts_optionalId.isSome e.record.managerId),
    .inl (Form.isSome_list_ofUuids _), .inl (Form.isSome_list_ofUuids _), .inr trivial,
    .inl (inverts_optionalTime.isSome e.record.lastUpdate),
    .inl (isSome_optionalString e.record.lastUpdateBy), .inl rfl⟩

theorem attributes_slot :
    (attributesField, Taker.optional Form.stored.entries) ∈ kind.slots takers :=
  List.mem_of_getElem? (i := 10) rfl

/-- **A contact does not fit** just if its attributes are misspelt. -/
theorem unfit_iff (e : Contact) : kind.Unfit takers e ↔ e.Misspelt := by
  constructor
  · rintro ⟨q, hq, hrefused⟩
    rcases takes_toDocument e q hq with htaken | rfl
    · rw [htaken] at hrefused
      cases hrefused
    · exact Option.not_isSome_iff_eq_none.mp (Bool.eq_false_iff.mp hrefused)
  · intro hmisspelt
    refine ⟨_, attributes_slot, ?_⟩
    change (Form.stored.entries (e.record.attributes.toValue .stored)).isSome = false
    rw [hmisspelt, Option.isSome_none]

theorem alike {e e' : Contact} (h : e'.record.attributes = e.record.attributes) :
    kind.Alike takers e e' := by
  refine ⟨fun q hq => ?_, ?_⟩
  · by_cases hattributes : q = (attributesField, .optional Form.stored.entries)
    · subst hattributes
      change (Form.stored.entries (e'.record.attributes.toValue .stored)).isSome = _
      rw [h]
      rfl
    · rw [(takes_toDocument e q hq).resolve_right hattributes,
        (takes_toDocument e' q hq).resolve_right hattributes]
  · change ∀ f ∈ schema.fields, _
    simp +decide only [schema, List.forall_mem_cons, List.not_mem_nil, false_implies, implies_true,
      and_true]

theorem fitFor : kind.FitFor takers where
  keys e := rfl
  maintained e q hq hrole := by
    refine (takes_toDocument e q hq).resolve_right ?_
    rintro rfl
    exact hrole rfl
  flat e := by
    change ∀ f ∈ schema.fields, _
    simp +decide only [schema, List.forall_mem_cons, List.not_mem_nil, false_implies, implies_true,
      and_true, true_and, forall_const]
    exact ⟨ne_document_of_flat rfl, ne_document_of_flat rfl,
      ne_document_of_flat (document?_optionalString e.record.location), ne_document_of_flat rfl,
      ne_document_of_flat (document?_optionalId e.record.managerId)⟩
  agreed e q hq v hv hagrees := by
    rcases takes_toDocument e q hq with htaken | rfl
    · exact htaken
    · exact isSome_entries_of_agrees hv hagrees
  normal e e' h := by
    obtain ⟨numbers, -, rfl⟩ := gives_normalize h
    obtain ⟨record, _, _, _, _⟩ := e
    exact alike rfl
  withId id e := by
    obtain ⟨record, _, _, _, _⟩ := e
    exact alike rfl

end Contact

end Directory

end Registrar
