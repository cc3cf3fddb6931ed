import Registrar.Proofs.Directory.Slots
import Registrar.Proofs.Engine.Spoiling

/-!
# Which steps spoil documents

Every document of the directory can be read until a step spoils one. There are three ways to do
so. An assignment that names places below a field without parts puts an object into it. One that
names the priority of a category's settings writes null there when its template has no settings; so
does a delta. And attributes that spell a value are stored as this value, which may be no
attributes any more.

* `Category.PlanSpoils`, `Contact.PlanSpoils`: the plans that spoil documents.
* `Step.Spoils`: the steps that spoil a document.
* `readable_iff`: every run keeps all documents readable exactly when it has no such step.
-/

namespace Registrar.Directory

variable {properties paths : List String} {existing : Option Document}

/-- A plan for phone books spoils them if it splits a field. -/
def Book.PlanSpoils (properties paths : List String) (existing : Option Document) (_ : Book) :
    Prop :=
  schema.Splits properties paths existing

/-- **A plan for categories spoils them** if it splits a field, or writes the priority of settings
that are not there. -/
def Category.PlanSpoils (properties paths : List String) (existing : Option Document)
    (e : Category) : Prop :=
  schema.Splits properties paths existing ∨
    ¬ schema.PlansWhole properties paths existing settingsField ∧
      schema.NamesLeaf (schema.plannedNames properties paths) settingsField "priority" ∧
        e.settings = none

/-- **A plan for contacts spoils them** if it splits a field, or writes misspelt attributes. -/
def Contact.PlanSpoils (properties paths : List String) (existing : Option Document)
    (e : Contact) : Prop :=
  schema.Splits properties paths existing ∨
    schema.Names (schema.plannedNames properties paths) attributesField ∧ e.Misspelt

theorem Book.unfit_iff (e : Book) : kind.Unfit takers e ↔ False := by
  refine iff_of_false ?_ not_false
  rintro ⟨q, hq, hrefused⟩
  rw [fits_toDocument e q hq] at hrefused
  cases hrefused

theorem Book.planSpoils_iff (e : Book) :
    kind.PlanSpoils takers (fun _ => []) properties paths existing e ↔
      PlanSpoils properties paths existing e := by
  refine or_iff_left ?_
  rintro ⟨q, hq, ⟨-, hrefused⟩ | ⟨-, -, p, hp, -⟩⟩
  · rw [fits_toDocument e q hq] at hrefused
    cases hrefused
  · cases hp

namespace Category

theorem unfit_iff (e : Category) : kind.Unfit takers e ↔ False := by
  refine iff_of_false ?_ not_false
  rintro ⟨q, hq, hrefused⟩
  rw [fits_toDocument e q hq] at hrefused
  cases hrefused

theorem settings_slot :
    (settingsField, Taker.optional (Reading.nullable (CategoryDisplay.read? .stored))) ∈
      kind.slots takers :=
  List.mem_of_getElem? (i := 3) rfl

theorem refuses_part_iff (e : Category) {p : String × Taker} (hp : p ∈ parts "settings") :
    p.2 (some ((kind.toDocument e).leafOrNull "settings" p.1)) = false ↔
      p.1 = "priority" ∧ e.settings = none := by
  have hleaf : ∀ leaf, (kind.toDocument e).leafOrNull "settings" leaf =
      ((((e.settings.map CategoryDisplay.toValue).getD .null).document?).bind
        (Document.value? · leaf)).getD .null := fun _ => rfl
  rw [parts, if_pos rfl, List.mem_cons, List.mem_singleton] at hp
  rw [hleaf]
  rcases hp with rfl | rfl
  · cases e.settings with
    | none => exact iff_of_true rfl ⟨rfl, rfl⟩
    | some x =>
      refine iff_of_false (fun hrefused => ?_) fun h => Option.some_ne_none x h.2
      exact absurd (Reading.isSome_int32 x.priority) (Bool.eq_false_iff.mp hrefused)
  · refine iff_of_false (fun hrefused => ?_) fun h => absurd h.1 (by decide)
    cases hsettings : e.settings with
    | none =>
      rw [hsettings] at hrefused
      cases hrefused
    | some x =>
      rw [hsettings] at hrefused
      exact absurd (isSome_optionalString x.color) (Bool.eq_false_iff.mp hrefused)

theorem eq_settings_of_isObject {q : Field × Taker} (hq : q ∈ kind.slots takers)
    (h : q.1.isObject = true) : q.1 = settingsField := by
  have hall : ∀ q ∈ kind.slots takers, q.1.isObject = true → q.1 = settingsField := by
    rw [slots_eq]
    simp +decide only [List.forall_mem_cons, List.not_mem_nil, false_implies, implies_true,
      and_true]
  exact hall q hq h

theorem planSpoils_iff (e : Category) :
    kind.PlanSpoils takers parts properties paths existing e ↔
      PlanSpoils properties paths existing e := by
  refine or_congr_right ⟨?_, ?_⟩
  · rintro ⟨q, hq, ⟨-, hrefused⟩ | ⟨hobject, hwhole, p, hp, hleaf, hrefused⟩⟩
    · rw [fits_toDocument e q hq] at hrefused
      cases hrefused
    · rw [eq_settings_of_isObject hq hobject] at hwhole hp hleaf hrefused
      obtain ⟨hpriority, hnone⟩ := (refuses_part_iff e hp).mp hrefused
      exact ⟨hwhole, hpriority ▸ hleaf, hnone⟩
  · rintro ⟨hwhole, hleaf, hnone⟩
    refine ⟨_, settings_slot, .inr ⟨rfl, hwhole, ("priority", .optional Reading.int32), ?_, hleaf,
      ?_⟩⟩
    · exact .head _
    · exact (refuses_part_iff e (.head _)).mpr ⟨rfl, hnone⟩

end Category

namespace Contact

theorem plansWhole_attributes : schema.PlansWhole properties paths existing attributesField ↔
    schema.Names (schema.plannedNames properties paths) attributesField := by
  have hs : schema.Lawful := lawful.schema
  have hmem : attributesField ∈ schema.fields := List.mem_of_getElem? (i := 14) rfl
  rw [Schema.plansWhole_iff hs hmem]
  constructor
  · rintro (⟨source, -, hrole⟩ | ⟨h, -⟩)
    · cases hrole
    · exact h
  · exact fun h => .inr ⟨h, .inl rfl⟩

theorem planSpoils_iff (e : Contact) :
    kind.PlanSpoils takers (fun _ => []) properties paths existing e ↔
      PlanSpoils properties paths existing e := by
  refine or_congr_right ⟨?_, ?_⟩
  · rintro ⟨q, hq, ⟨hwhole, hrefused⟩ | ⟨-, -, p, hp, -⟩⟩
    · rcases takes_toDocument e q hq with htaken | rfl
      · rw [htaken] at hrefused
        cases hrefused
      · exact ⟨plansWhole_attributes.mp hwhole, (unfit_iff e).mp ⟨_, hq, hrefused⟩⟩
    · cases hp
  · rintro ⟨hnames, hmisspelt⟩
    refine ⟨_, attributes_slot, .inl ⟨plansWhole_attributes.mpr hnames, ?_⟩⟩
    change (Form.stored.entries (e.record.attributes.toValue .stored)).isSome = false
    rw [hmisspelt, Option.isSome_none]

end Contact

/-! ### Steps -/

/-- All documents of the directory are intact. -/
structure AllIntact (s : Store) : Prop where
  books : Book.kind.AllIntact Book.takers s
  categories : Category.kind.AllIntact Category.takers s
  contacts : Contact.kind.AllIntact Contact.takers s

theorem AllIntact.readable {s : Store} (h : AllIntact s) : Readable s where
  books d hd := by
    obtain ⟨id, hm⟩ := Entries.mem_documents.mp hd
    exact (h.books id d hm).isSome Book.readBy
  categories d hd := by
    obtain ⟨id, hm⟩ := Entries.mem_documents.mp hd
    exact (h.categories id d hm).isSome Category.readBy
  contacts d hd := by
    obtain ⟨id, hm⟩ := Entries.mem_documents.mp hd
    exact (h.contacts id d hm).isSome Contact.readBy

/-- **A call spoils documents** in the collection that it is about. -/
def Call.Spoils (s : Store) : Call → Prop
  | .book op => op.Spoils (fun _ => False) Book.PlanSpoils (s.entries "phone_books")
  | .category op => op.Spoils (fun _ => False) Category.PlanSpoils (s.entries "categories")
  | .contact op => op.Spoils Contact.Misspelt Contact.PlanSpoils (s.entries "contacts")

/-- **A step spoils a document**: it asks for this, and it writes. -/
def Step.Spoils (x : Step) : Prop :=
  x.call.Spoils x.before ∧
    x.after.entries x.call.schema.collection ≠ x.before.entries x.call.schema.collection

namespace Setup

variable {u : Setup} {caller : Caller} {s t : Store}

theorem spoils_books_iff (op : Operation Book) :
    u.books.Spoils Book.takers (fun _ => []) s op ↔ Call.Spoils s (.book op) :=
  Operation.spoils_congr Book.unfit_iff (fun _ _ _ => Book.planSpoils_iff) _ op

theorem spoils_categories_iff (op : Operation Category) :
    u.categories.Spoils Category.takers Category.parts s op ↔ Call.Spoils s (.category op) :=
  Operation.spoils_congr Category.unfit_iff (fun _ _ _ => Category.planSpoils_iff) _ op

theorem spoils_contacts_iff (op : Operation Contact) :
    u.contacts.Spoils Contact.takers (fun _ => []) s op ↔ Call.Spoils s (.contact op) :=
  Operation.spoils_congr Contact.unfit_iff (fun _ _ _ => Contact.planSpoils_iff) _ op

end Setup

theorem allIntact_of_entries_eq {E : Type} {k : EntityKind E} {takers : List Taker} {s t : Store}
    (h : k.AllIntact takers s) (heq : t.entries k.collection = s.entries k.collection) :
    k.AllIntact takers t := fun id d hd => h id d (heq ▸ hd)

section Leaves

variable {E : Type} {k : EntityKind E} (hkind : IsKind k) {takers : List Taker}
  {parts : String → List (String × Taker)} (hread : k.ReadBy takers parts)
  (hfit : k.FitFor takers) {u : Setup} {caller : Caller} {s t : Store} {op : Operation E}
  (h : (u.collection k).Leaves caller op s t) (hk : s.Keyed) (hall : k.AllIntact takers s)

include hkind hread hfit h hk hall

theorem intact_of_leaves (hnot : ¬ ((u.collection k).Spoils takers parts s op ∧
    t.entries k.collection ≠ s.entries k.collection)) : k.AllIntact takers t := by
  by_cases heq : t.entries k.collection = s.entries k.collection
  · exact allIntact_of_entries_eq hall heq
  · exact Collection.intact_of_effect (c := u.collection k) hread hfit hkind.lawful.schema
      hkind.dotlessLeaves hk hall (h.effect hkind.lawful hkind.linked hk)
      fun hspoils => hnot ⟨hspoils, heq⟩

theorem exists_unreadable_of_leaves (hspoils : (u.collection k).Spoils takers parts s op)
    (hne : t.entries k.collection ≠ s.entries k.collection) :
    ∃ d ∈ (t.entries k.collection).documents, ¬ (k.ofDocument? d).isSome = true := by
  obtain ⟨id, d, hd, hrefused⟩ := Collection.unreadable_of_effect (c := u.collection k) hread hfit
    hkind.lawful.schema hkind.dotlessLeaves hk hall (h.effect hkind.lawful hkind.linked hk) hspoils
    hne
  exact ⟨d, Entries.mem_documents.mpr ⟨id, hd⟩, hrefused.not_isSome hread⟩

end Leaves

/-- **A step that spoils no document** keeps all of them intact. -/
theorem Step.allIntact {x : Step} (h : x.Happens) (hk : x.before.Keyed) (hs : AllIntact x.before)
    (hnot : ¬ x.Spoils) : AllIntact x.after := by
  obtain ⟨u, caller, call, s, t⟩ := x
  cases call with
  | book op =>
    have h : u.books.Leaves caller op s t := h
    refine ⟨intact_of_leaves .book Book.readBy Book.fitFor h hk hs.books fun hspoils => hnot ?_,
      allIntact_of_entries_eq hs.categories (h.entries Book.lawful books_ne_categories.symm),
      allIntact_of_entries_eq hs.contacts (h.entries Book.lawful books_ne_contacts.symm)⟩
    exact hspoils.imp_left (Setup.spoils_books_iff op).mp
  | category op =>
    have h : u.categories.Leaves caller op s t := h
    refine ⟨allIntact_of_entries_eq hs.books (h.entries Category.lawful books_ne_categories),
      intact_of_leaves .category Category.readBy Category.fitFor h hk hs.categories
        fun hspoils => hnot ?_,
      allIntact_of_entries_eq hs.contacts (h.entries Category.lawful categories_ne_contacts.symm)⟩
    exact hspoils.imp_left (Setup.spoils_categories_iff op).mp
  | contact op =>
    have h : u.contacts.Leaves caller op s t := h
    refine ⟨allIntact_of_entries_eq hs.books (h.entries Contact.lawful books_ne_contacts),
      allIntact_of_entries_eq hs.categories (h.entries Contact.lawful categories_ne_contacts),
      intact_of_leaves .contact Contact.readBy Contact.fitFor h hk hs.contacts
        fun hspoils => hnot ?_⟩
    exact hspoils.imp_left (Setup.spoils_contacts_iff op).mp

/-- **After a step that spoils a document** not all can be read. -/
theorem Step.not_readable {x : Step} (h : x.Happens) (hk : x.before.Keyed)
    (hs : AllIntact x.before) (hspoils : x.Spoils) : ¬ Readable x.after := by
  intro hreadable
  obtain ⟨u, caller, call, s, t⟩ := x
  obtain ⟨hspoils, hne⟩ := hspoils
  cases call with
  | book op =>
    obtain ⟨d, hd, hnot⟩ := exists_unreadable_of_leaves .book Book.readBy Book.fitFor h hk hs.books
      ((Setup.spoils_books_iff op).mpr hspoils) hne
    exact hnot (hreadable.books d hd)
  | category op =>
    obtain ⟨d, hd, hnot⟩ := exists_unreadable_of_leaves .category Category.readBy Category.fitFor h
      hk hs.categories ((Setup.spoils_categories_iff op).mpr hspoils) hne
    exact hnot (hreadable.categories d hd)
  | contact op =>
    obtain ⟨d, hd, hnot⟩ := exists_unreadable_of_leaves .contact Contact.readBy Contact.fitFor h hk
      hs.contacts ((Setup.spoils_contacts_iff op).mpr hspoils) hne
    exact hnot (hreadable.contacts d hd)

theorem empty_allIntact : AllIntact .empty where
  books _ _ hd := absurd hd List.not_mem_nil
  categories _ _ hd := absurd hd List.not_mem_nil
  contacts _ _ hd := absurd hd List.not_mem_nil

/-- **A run from the empty store keeps all documents readable exactly when no step spoils one.** -/
theorem readable_iff {xs : List Step} (hrun : Run .empty xs) :
    (∀ x ∈ xs, Readable x.after) ↔ ∀ x ∈ xs, ¬ x.Spoils := by
  refine hrun.holds_iff (J := fun s => s.Keyed ∧ AllIntact s) ⟨empty_keyed, empty_allIntact⟩
    (fun x happens hx => ⟨fun hread hspoils => x.not_readable happens hx.1 hx.2 hspoils hread,
      fun hnot => (x.allIntact happens hx.1 hx.2 hnot).readable⟩) fun x happens hx hnot =>
      ⟨Step.keyed happens hx.1, x.allIntact happens hx.1 hx.2 hnot⟩

/-! ### A priority without settings -/

/-- A category with settings is added, and a delta without settings names the priority. -/
def unsettled : List Call :=
  [.category (.add { Category.ofName "Suppliers" with
      id := .ofByte 1
      settings := some { priority := 3, color := some "red" } }),
   .category (.applyDelta {
     id := .ofByte 1
     paths := ["settings.priority"]
     data := Category.ofName "" })]

def unsettledSteps : List Step := performed {} {} .fresh unsettled

/-- The category cannot be read in the end. -/
theorem unsettled_unreadable : ¬ ∀ x ∈ unsettledSteps, Readable x.after := by
  have hspoils : (unsettledSteps.getLast (by decide)).Spoils := by
    obtain ⟨⟨id, d⟩, hd, hid, hobject⟩ : ∃ e ∈ (unsettledSteps.getLast (by decide)).before.entries
        "categories", e.1 = .ofByte 1 ∧ Schema.holdsObject (some e.2) "settings" = true := by
      decide +kernel
    obtain rfl : id = .ofByte 1 := hid
    have hs : Category.schema.Lawful := Category.lawful.schema
    have hmem : Category.settingsField ∈ Category.schema.fields := List.mem_of_getElem? (i := 3) rfl
    refine ⟨⟨d, hd, .inr ⟨?_, ⟨_, .head _, rfl, rfl⟩, rfl⟩⟩, fun heq => ?_⟩
    · rw [Schema.plansWhole_iff hs hmem]
      rintro (⟨source, -, hrole⟩ | ⟨hnames, hwhole | hparts⟩)
      · cases hrole
      · rw [show Category.settingsField.name = "settings" from rfl, hobject] at hwhole
        cases hwhole
      · refine hparts ⟨hnames, fun name hname _ => ?_⟩
        obtain rfl := List.mem_singleton.mp hname
        decide
    · exact absurd (congrArg (List.map fun e => (Category.kind.ofDocument? e.2).isSome) heq)
        (by decide +kernel)
  have hrun : Run .empty unsettledSteps := run_performed {} {} (x := .fresh) rfl unsettled
  exact fun hread => (readable_iff hrun).mp hread _ (List.getLast_mem _) hspoils

end Registrar.Directory
