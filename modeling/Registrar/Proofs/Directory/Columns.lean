import Registrar.Proofs.Directory.Attributes
import Registrar.Proofs.Engine.Columns

/-!
# The columns of books, categories and contacts

The table of each kind of entities, in the order in which its fields are declared, and what is kept
and fixed of it. Every part of an entity is read as it was written and fixes what is read, with one
exception: the attributes of a contact may spell a value of another kind. They fix what is read all
the same, if they are in their order.

* `Book.columns`, `Category.columns`, `Contact.columns`: the tables.
* `Book.tabled`, `Category.tabled`, `Contact.tabled`: each kind is read column by column.
* `Book.keeps`, `Category.keeps`, `Contact.keeps_iff`: what is kept.
-/

namespace Registrar.Directory

open Reading

/-! ### Parts -/

theorem fixes_optionalString (s : Option String) :
    FixesField (ofOptional none (nullable Form.stored.text)) (optionalString s) := by
  cases s with
  | none => exact fixesField_optional fixes_null fun _ => rfl
  | some s => exact fixesField_of_not_isNull (fixes_nullable (fixes_string s)) rfl

namespace CategoryDisplay

/-- **Settings are read alike** from what agrees with them. -/
theorem fixes_toValue (s : CategoryDisplay) : Fixes (read? .stored) s.toValue := by
  intro v hsome hagrees
  obtain ⟨fs, rfl, hkeys⟩ := Value.agrees_document hagrees
  have hfields : ∀ d : Document, Form.stored.fields? ["priority", "color"] (.document d) = some d :=
    fun _ => rfl
  simp only [read?, toValue, hfields, Option.bind_eq_bind, Option.bind_some, Option.pure_def,
    optional_eq, Option.isSome_bind, Option.isSome_some, any_const, Bool.and_true,
    Bool.and_eq_true] at hsome ⊢
  rw [fixesField_of_not_isNull (fixes_int32 s.priority) rfl _ hsome.1 (hkeys "priority"),
    fixes_optionalString s.color _ hsome.2 (hkeys "color")]
  rfl

end CategoryDisplay

namespace PhoneNumber

/-- **A telephone number is read alike** from what agrees with it. -/
theorem fixes_toValue (n : PhoneNumber) : Fixes (read? .stored) (n.toValue .stored) := by
  intro v hsome hagrees
  obtain ⟨fs, rfl, hkeys⟩ := Value.agrees_document hagrees
  have hfields : ∀ d : Document,
      Form.stored.fields? ["id", "number", "kind"] (.document d) = some d := fun _ => rfl
  simp only [read?, toValue, hfields, Option.bind_eq_bind, Option.bind_some, Option.pure_def,
    required_eq, optional_eq, Option.isSome_bind, Option.isSome_some, any_const, Bool.and_true,
    Bool.and_eq_true] at hsome ⊢
  obtain ⟨hid, hnumber, htype⟩ := hsome
  rw [fixesField_required (fixes_of_scalar rfl rfl rfl) _ hid (hkeys "id"),
    fixesField_required (fixes_string n.number) _ hnumber (hkeys "number"),
    fixesField_of_not_isNull (fixes_string n.type.name) rfl _ htype (hkeys "kind")]
  rfl

end PhoneNumber

/-! ### Books -/

namespace Book

/-- The columns of phone books. -/
def columns : List (Column Book) := [
  .required Field.idField Book.id Value.ofUuid Form.stored.id,
  .required (Field.data "name" .string []) name .string Form.stored.text,
  .optional (Field.data "description" .string []) description optionalString none
    (nullable Form.stored.text),
  .optional (Field.updatedAt "last_update") lastUpdate (optionalTime .stored) none
    (nullable Form.stored.time),
  .optional (Field.updatedBy "last_update_by") lastUpdateBy optionalString none
    (nullable Form.stored.text),
  .optional (Field.version "version") version .int64 0 int64]

theorem columns_takers : columns.map Column.taker = takers := by
  simp only [columns, takers, List.map_cons, List.map_nil, Column.taker_required,
    Column.taker_optional]

theorem tabled : kind.Tabled columns where
  complete := rfl
  writes := by
    simp only [columns, List.forall_mem_cons, List.not_mem_nil, false_implies, implies_true,
      and_true]
    exact ⟨fun _ => rfl, fun _ => rfl, fun _ => rfl, fun _ => rfl, fun _ => rfl, fun _ => rfl⟩
  reads d e h := by
    have hfields : Form.fields? .stored fieldNames (.document d) = some d := rfl
    have hread : kind.ofDocument? d = read? .stored (.document d) := rfl
    rw [hread] at h
    simp only [read?, hfields, Option.bind_eq_bind, Option.bind_some, Option.pure_def,
      Option.bind_eq_some_iff, Option.some.injEq, required_eq, optional_eq] at h
    obtain ⟨id, hid, name, hname, description, hdescription, time, htime, caller, hcaller,
      version, hversion, rfl⟩ := h
    simp only [columns, List.forall_mem_cons, List.not_mem_nil, false_implies, implies_true,
      and_true]
    exact ⟨hid, hname, hdescription, htime, hcaller, hversion⟩
  given _ hc _ := readBy.given_column rfl columns_takers hc
  readable d d' _ _ hread :=
    (isSome_iff d').mpr ((EntityKind.fits_iff_columns rfl columns_takers).mpr hread)

theorem keeps (e : Book) : ∀ c ∈ columns, c.field.role.isDiffed false = true → c.Keeps e := by
  simp +decide only [columns, List.forall_mem_cons, List.not_mem_nil, false_implies, implies_true,
    and_true, true_and, forall_const]
  exact ⟨rfl, read_optionalString e.description⟩

theorem fixes (e : Book) : ∀ c ∈ columns, c.field.role.isDiffed false = true → c.Fixes e := by
  simp +decide only [columns, List.forall_mem_cons, List.not_mem_nil, false_implies, implies_true,
    and_true, true_and, forall_const]
  exact ⟨fixesField_required (fixes_string e.name), fixes_optionalString e.description⟩

end Book

/-! ### Categories -/

namespace Category

/-- The columns of categories. -/
def columns : List (Column Category) := [
  .required Field.idField Category.id Value.ofUuid Form.stored.id,
  .required (Field.data "name" .string []) name .string Form.stored.text,
  .optional (Field.data "description" .string []) description optionalString none
    (nullable Form.stored.text),
  .optional settingsField settings (fun s => (s.map CategoryDisplay.toValue).getD .null) none
    (nullable (CategoryDisplay.read? .stored)),
  .optional (Field.dependency "phone_book_ids" .idList) phoneBookIds Value.ofUuids []
    (list Form.stored.id),
  .optional (Field.updatedAt "last_update") lastUpdate (optionalTime .stored) none
    (nullable Form.stored.time),
  .optional (Field.updatedBy "last_update_by") lastUpdateBy optionalString none
    (nullable Form.stored.text),
  .optional (Field.version "version") version .int64 0 int64]

theorem columns_takers : columns.map Column.taker = takers := by
  simp only [columns, takers, List.map_cons, List.map_nil, Column.taker_required,
    Column.taker_optional]

theorem tabled : kind.Tabled columns where
  complete := rfl
  writes := by
    simp only [columns, List.forall_mem_cons, List.not_mem_nil, false_implies, implies_true,
      and_true]
    exact ⟨fun _ => rfl, fun _ => rfl, fun _ => rfl, fun _ => rfl, fun _ => rfl, fun _ => rfl,
      fun _ => rfl, fun _ => rfl⟩
  reads d e h := by
    have hfields : Form.fields? .stored fieldNames (.document d) = some d := rfl
    have hread : kind.ofDocument? d = read? .stored (.document d) := rfl
    rw [hread] at h
    simp only [read?, hfields, Option.bind_eq_bind, Option.bind_some, Option.pure_def,
      Option.bind_eq_some_iff, Option.some.injEq, required_eq, optional_eq] at h
    obtain ⟨id, hid, name, hname, description, hdescription, settings, hsettings, ids, hids, books,
      -, time, htime, caller, hcaller, version, hversion, rfl⟩ := h
    simp only [columns, List.forall_mem_cons, List.not_mem_nil, false_implies, implies_true,
      and_true]
    exact ⟨hid, hname, hdescription, hsettings, hids, htime, hcaller, hversion⟩
  given _ hc _ := readBy.given_column rfl columns_takers hc
  readable d d' hsome hcopies hread := by
    refine (isSome_iff d').mpr ⟨(EntityKind.fits_iff_columns rfl columns_takers).mpr hread, ?_⟩
    have hbooks := hcopies (Field.navigation "phone_books") (List.mem_of_getElem? (i := 5) rfl) rfl
    rw [optional_eq, show d'.value? "phone_books" = d.value? "phone_books" from hbooks,
      ← optional_eq]
    exact ((isSome_iff d).mp hsome).2

theorem keeps (e : Category) : ∀ c ∈ columns, c.field.role.isDiffed false = true → c.Keeps e := by
  simp +decide only [columns, List.forall_mem_cons, List.not_mem_nil, false_implies, implies_true,
    and_true, true_and, forall_const]
  exact ⟨rfl, read_optionalString e.description, inverts_settings e.settings⟩

theorem fixes (e : Category) : ∀ c ∈ columns, c.field.role.isDiffed false = true → c.Fixes e := by
  simp +decide only [columns, List.forall_mem_cons, List.not_mem_nil, false_implies, implies_true,
    and_true, true_and, forall_const]
  refine ⟨fixesField_required (fixes_string e.name), fixes_optionalString e.description, ?_⟩
  change FixesField (ofOptional none (nullable (CategoryDisplay.read? .stored)))
    ((e.settings.map CategoryDisplay.toValue).getD .null)
  cases e.settings with
  | none => exact fixesField_optional fixes_null fun _ => rfl
  | some s => exact fixesField_of_not_isNull (fixes_nullable s.fixes_toValue) rfl

end Category

/-! ### Contacts -/

namespace Contact

/-- The columns of contacts. -/
def columns : List (Column Contact) := [
  .required Field.idField (record · |>.id) Value.ofUuid Form.stored.id,
  .required (Field.data "first_name" .string []) (record · |>.firstName) .string Form.stored.text,
  .required (Field.data "last_name" .string []) (record · |>.lastName) .string Form.stored.text,
  .optional (Field.data "location" .string []) (record · |>.location) optionalString none
    (nullable Form.stored.text),
  .optional (Field.data "numbers" .list [
      Field.data "id" .id [],
      Field.data "number" .string [],
      Field.data "kind" .string []])
    (record · |>.numbers) (fun numbers => .array (numbers.map (PhoneNumber.toValue .stored))) []
    (list (PhoneNumber.read? .stored)),
  .optional (Field.derived "number_of_telephone_numbers" .integer "numbers")
    (record · |>.numberCount) .int32 0 int32,
  .optional (Field.dependency "secretary_ids" .idList) (record · |>.secretaryIds) Value.ofUuids []
    (list Form.stored.id),
  .optional (Field.dependency "manager_id" .id) (record · |>.managerId)
    (fun id => (id.map Value.ofUuid).getD .null) none (nullable Form.stored.id),
  .optional (Field.dependency "category_ids" .idList) (record · |>.categoryIds) Value.ofUuids []
    (list Form.stored.id),
  .optional (Field.dependency "phone_book_ids" .idList) (record · |>.phoneBookIds) Value.ofUuids []
    (list Form.stored.id),
  .optional attributesField (record · |>.attributes) (Attributes.toValue .stored) []
    Attributes.read?,
  .optional (Field.updatedAt "last_update") (record · |>.lastUpdate) (optionalTime .stored) none
    (nullable Form.stored.time),
  .optional (Field.updatedBy "last_update_by") (record · |>.lastUpdateBy) optionalString none
    (nullable Form.stored.text),
  .optional (Field.version "version") (record · |>.version) .int64 0 int64]

theorem taker_attributes : Taker.optional Attributes.read? = .optional Form.stored.entries := by
  funext v
  cases v with
  | none => rfl
  | some v => exact Option.isSome_map

theorem columns_takers : columns.map Column.taker = takers := by
  simp only [columns, takers, List.map_cons, List.map_nil, Column.taker_required,
    Column.taker_optional, taker_attributes]

/-! #### Copies -/

/-- The fields of a record are nested less deep than the record, if it has an id. -/
theorem depth_of_fields? {v x : Value} {d : Document} {name : String}
    (h : Form.stored.fields? fieldNames v = some d)
    (hrecord : (ContactRecord.ofFields? .stored d).isSome = true) (hx : d.value? name = some x) :
    x.depth < v.depth := by
  have hid : d.value? "id" ≠ none := by
    intro hnone
    have hfits := (isSome_ofFields?_iff d).mp hrecord (Field.idField, _) List.mem_cons_self
    change Taker.required _ (d.value? "id") = true at hfits
    rw [hnone] at hfits
    cases hfits
  cases v with
  | document fields =>
    obtain rfl : fields = d := Option.some.inj h
    have hdepth := Value.depth_of_value? hx
    rw [Value.depth]
    omega
  | array items =>
    rw [Form.fields?, if_pos (.inl rfl)] at h
    cases h
    have hdepth := Value.depth_of_mem (List.of_mem_zip (Document.mem_of_value? hx)).2
    rw [Value.depth]
    omega
  | binary subtype bytes =>
    change Value.spelling? (.binary subtype bytes) = some d at h
    rw [Value.spelling?] at h
    split at h <;> cases h
    exact absurd rfl hid
  | _ => first | (cases h; exact absurd rfl hid) | cases h

/-- **A bound that is deep enough reads all** that any other bound reads. -/
theorem isSome_readTo_of_depth_le {n m : Nat} {v : Value} (hdepth : v.depth ≤ m)
    (h : (readTo .stored n v).isSome = true) : (readTo .stored m v).isSome = true := by
  induction n generalizing m v with
  | zero => cases h
  | succ n ih =>
    obtain ⟨d, hd, hrecord, hsecretaries, hmanager, hrest⟩ := isSome_readWith.mp h
    have hless : ∀ {name x}, d.value? name = some x → x.depth < m := fun hx =>
      Nat.lt_of_lt_of_le (depth_of_fields? hd hrecord hx) hdepth
    obtain ⟨m, rfl⟩ : ∃ k, m = k + 1 := by
      cases m with
      | zero => cases v <;> simp [Value.depth] at hdepth
      | succ k => exact ⟨k, rfl⟩
    refine isSome_readWith.mpr ⟨d, hd, hrecord, ?_, ?_, hrest⟩
    · refine isSome_optional.mpr fun x hx => ?_
      obtain ⟨items, rfl, hitems⟩ := isSome_list_iff.mp (isSome_optional.mp hsecretaries x hx)
      refine isSome_list.mpr fun y hy => ih ?_ (hitems y hy)
      have hitem := Value.depth_of_mem hy
      have harray := hless hx
      rw [Value.depth] at harray
      omega
    · refine isSome_optional.mpr fun x hx => ?_
      rcases isSome_nullable.mp (isSome_optional.mp hmanager x hx) with hnull | hread
      · exact isSome_nullable.mpr (.inl hnull)
      · exact isSome_nullable.mpr (.inr (ih (Nat.le_of_lt_succ (hless hx)) hread))

theorem ofFields?_of_ofDocument? {d : Document} {e : Contact} (h : kind.ofDocument? d = some e) :
    ContactRecord.ofFields? .stored d = some e.record := by
  have hfields : Form.fields? .stored fieldNames (.document d) = some d := rfl
  rw [ofDocument?_eq, readWith, hfields, Option.bind_eq_bind, Option.bind_some] at h
  obtain ⟨record, hrecord, h⟩ := Option.bind_eq_some_iff.mp h
  obtain ⟨_, -, h⟩ := Option.bind_eq_some_iff.mp h
  obtain ⟨_, -, h⟩ := Option.bind_eq_some_iff.mp h
  obtain ⟨_, -, h⟩ := Option.bind_eq_some_iff.mp h
  obtain ⟨_, -, h⟩ := Option.bind_eq_some_iff.mp h
  cases h
  exact hrecord

theorem tabled : kind.Tabled columns where
  complete := rfl
  writes := by
    simp only [columns, List.forall_mem_cons, List.not_mem_nil, false_implies, implies_true,
      and_true]
    exact ⟨fun _ => rfl, fun _ => rfl, fun _ => rfl, fun _ => rfl, fun _ => rfl, fun _ => rfl,
      fun _ => rfl, fun _ => rfl, fun _ => rfl, fun _ => rfl, fun _ => rfl, fun _ => rfl,
      fun _ => rfl, fun _ => rfl⟩
  reads d e h := by
    have h := ofFields?_of_ofDocument? h
    obtain ⟨record, _, _, _, _⟩ := e
    obtain ⟨id, hid, h⟩ := Option.bind_eq_some_iff.mp h
    obtain ⟨first, hfirst, h⟩ := Option.bind_eq_some_iff.mp h
    obtain ⟨last, hlast, h⟩ := Option.bind_eq_some_iff.mp h
    obtain ⟨location, hlocation, h⟩ := Option.bind_eq_some_iff.mp h
    obtain ⟨numbers, hnumbers, h⟩ := Option.bind_eq_some_iff.mp h
    obtain ⟨count, hcount, h⟩ := Option.bind_eq_some_iff.mp h
    obtain ⟨secretaries, hsecretaries, h⟩ := Option.bind_eq_some_iff.mp h
    obtain ⟨manager, hmanager, h⟩ := Option.bind_eq_some_iff.mp h
    obtain ⟨categories, hcategories, h⟩ := Option.bind_eq_some_iff.mp h
    obtain ⟨books, hbooks, h⟩ := Option.bind_eq_some_iff.mp h
    obtain ⟨entries, hentries, h⟩ := Option.bind_eq_some_iff.mp h
    obtain ⟨time, htime, h⟩ := Option.bind_eq_some_iff.mp h
    obtain ⟨caller, hcaller, h⟩ := Option.bind_eq_some_iff.mp h
    obtain ⟨version, hversion, h⟩ := Option.bind_eq_some_iff.mp h
    cases h
    rw [optional_eq] at hlocation hnumbers hcount hsecretaries hmanager hcategories hbooks hentries
    rw [optional_eq] at htime hcaller hversion
    have hattributes : ofOptional [] Attributes.read? (d.value? "attributes") =
        some (Attributes.ofEntries entries) := by
      cases hvalue : d.value? "attributes" with
      | none =>
        rw [hvalue] at hentries
        cases hentries
        rfl
      | some v =>
        rw [hvalue] at hentries
        exact congrArg (Option.map Attributes.ofEntries) hentries
    simp only [columns, List.forall_mem_cons, List.not_mem_nil, false_implies, implies_true,
      and_true]
    exact ⟨hid, hfirst, hlast, hlocation, hnumbers, hcount, hsecretaries, hmanager, hcategories,
      hbooks, hattributes, htime, hcaller, hversion⟩
  given _ hc _ := readBy.given_column rfl columns_takers hc
  readable d d' hsome hcopies hread := by
    rw [ofDocument?_eq] at hsome ⊢
    obtain ⟨_, hd, -, hsecretaries, hmanager, hcategories, hbooks⟩ := isSome_readWith.mp hsome
    cases hd
    have hvalue : ∀ {i name}, schema.fields[i]? = some (Field.navigation name) →
        d'.value? name = d.value? name := fun hi => hcopies _ (List.mem_of_getElem? hi) rfl
    have hrecord : (ContactRecord.ofFields? .stored d').isSome = true :=
      (isSome_ofFields?_iff d').mpr ((EntityKind.fits_iff_columns rfl columns_takers).mpr hread)
    refine isSome_readWith.mpr ⟨d', rfl, hrecord, ?_, ?_, ?_, ?_⟩
    · refine isSome_optional.mpr fun x hx => ?_
      obtain ⟨items, rfl, hitems⟩ := isSome_list_iff.mp
        (isSome_optional.mp hsecretaries x (hvalue (i := 7) rfl ▸ hx))
      refine isSome_list.mpr fun y hy => isSome_readTo_of_depth_le ?_ (hitems y hy)
      have hitem := Value.depth_of_mem hy
      have harray := Value.depth_of_value? hx
      rw [Value.depth] at harray
      omega
    · refine isSome_optional.mpr fun x hx => ?_
      refine isSome_nullable.mpr ((isSome_nullable.mp
        (isSome_optional.mp hmanager x (hvalue (i := 9) rfl ▸ hx))).imp_right ?_)
      exact isSome_readTo_of_depth_le (Value.depth_of_value? hx)
    · rw [optional_eq, hvalue (i := 11) rfl, ← optional_eq]
      exact hcategories
    · rw [optional_eq, hvalue (i := 13) rfl, ← optional_eq]
      exact hbooks

/-- The column for attributes. -/
def attributesColumn : Column Contact :=
  .optional attributesField (record · |>.attributes) (Attributes.toValue .stored) []
    Attributes.read?

theorem attributesColumn_mem : attributesColumn ∈ columns := List.mem_of_getElem? (i := 10) rfl

theorem eq_attributesColumn : ∀ c ∈ columns, c.field.kind = .map → c = attributesColumn := by
  simp +decide only [columns, List.forall_mem_cons, List.not_mem_nil, false_implies, implies_true,
    and_true, true_and]
  exact fun _ => rfl

theorem keeps (e : Contact) :
    ∀ c ∈ columns, c.field.role.isDiffed false = true → c.field.kind ≠ .map → c.Keeps e := by
  simp +decide only [columns, List.forall_mem_cons, List.not_mem_nil, false_implies, implies_true,
    and_true, true_and, forall_const]
  exact ⟨rfl, rfl, read_optionalString e.record.location, inverts_numbers e.record.numbers,
    read_int32 e.record.numberCount⟩

/-- **A contact is kept** just if its attributes are. -/
theorem keeps_iff (e : Contact) :
    (∀ c ∈ columns, c.field.role.isDiffed false = true → c.Keeps e) ↔
      e.record.attributes.Kept := by
  refine ⟨fun h => h _ attributesColumn_mem rfl, fun h c hc hrole => ?_⟩
  by_cases hmap : c.field.kind = .map
  · rw [eq_attributesColumn c hc hmap]
    exact h
  · exact keeps e c hc hrole hmap

/-- **A contact whose attributes are sorted** fixes what is read. -/
theorem fixes {e : Contact} (h : e.record.attributes.Sorted) :
    ∀ c ∈ columns, c.field.role.isDiffed false = true → c.Fixes e := by
  simp +decide only [columns, List.forall_mem_cons, List.not_mem_nil, false_implies, implies_true,
    and_true, true_and, forall_const]
  refine ⟨fixesField_required (fixes_string _), fixesField_required (fixes_string _),
    fixes_optionalString e.record.location,
    fixesField_of_not_isNull (fixes_list fun v hv => ?_) rfl,
    fixesField_of_not_isNull (fixes_int32 _) rfl,
    fixesField_of_not_isNull (Attributes.fixes_toValue h) (Attributes.isNull_toValue _)⟩
  obtain ⟨n, -, rfl⟩ := List.mem_map.mp hv
  exact n.fixes_toValue

end Contact

end Registrar.Directory
