import Registrar.Proofs.Change.Fieldwise
import Registrar.Proofs.Engine.Submitted

/-!
# Documents that can be read

A document is read field by field: each field is a slot that takes some values and refuses the
others, and the document can be read if every slot takes what is in it. What the engine gives to a
field by itself is taken; what comes from an entity may be refused. Parts of an object are written
one by one, so an object may get a part that it cannot have, and a field that should hold no object
may get one.

* `Taker`, `EntityKind.slots`: what the fields of a kind of entities take.
* `EntityKind.ReadBy`: what is asked of the slots of a kind.
* `Schema.Regives`: what pruning, stamps and versions may do to a document.
* `EntityKind.Intact`: documents that can be read, without objects where there should be none.
* `EntityKind.PlanSpoils`: the plans that spoil such documents.
* `intact_plan`, `refused_plan`: the documents after a plan was written.
-/

namespace Registrar

/-! ### Slots -/

/-- **What may stand in a field**, or be missing there. -/
abbrev Taker := Option Value → Bool

namespace Taker

variable {α : Type}

/-- A value that has to be there. -/
def required (r : Reading.Reader α) : Taker := fun v => (v.bind r).isSome

/-- A value that may be missing. -/
def optional (r : Reading.Reader α) : Taker := fun v => v.all fun v => (r v).isSome

theorem isSome_required (d : Document) (name : String) (r : Reading.Reader α) :
    (Reading.required d name r).isSome = required r (d.value? name) := rfl

theorem isSome_optional (d : Document) (name : String) (default : α) (r : Reading.Reader α) :
    (Reading.optional d name default r).isSome = optional r (d.value? name) := by
  rw [Reading.optional]
  cases d.value? name <;> rfl

end Taker

namespace Field

/-- Fields that hold an object of the caller, of which parts are written by themselves. -/
def isObject (f : Field) : Bool := decide (f.role = .data) && decide (f.kind = .object)

/-- **Fields without parts**: they hold one value, and no object. -/
def isFlat (f : Field) : Bool := !f.isInternal && !f.kind.isCollection && !f.isObject

variable {f : Field}

theorem isInternal_of_isFlat (h : f.isFlat = true) : f.isInternal = false := by
  rw [isFlat, Bool.and_eq_true, Bool.and_eq_true, Bool.not_eq_true'] at h
  exact h.1.1

theorem role_ne_of_isFlat (h : f.isFlat = true) : f.role ≠ .navigation := by
  intro hr
  have hinternal := isInternal_of_isFlat h
  rw [isInternal, hr] at hinternal
  cases hinternal

theorem role_of_isObject (h : f.isObject = true) : f.role = .data := by
  rw [isObject, Bool.and_eq_true] at h
  exact of_decide_eq_true h.1

theorem cases_of_not_isInternal (h : f.isInternal = false) :
    f.isFlat = true ∨ f.isObject = true ∨ f.kind.isCollection = true := by
  rw [isFlat, h]
  cases f.isObject <;> cases f.kind.isCollection <;> simp

end Field

namespace Relation

/-- **The values that a relation stores.** -/
def Holds (r : Relation) (v : Value) : Prop :=
  match r.cardinality with
  | .many => ∃ ids, v = Value.ofUuids ids
  | .one => v = .null ∨ ∃ id, v = Value.ofUuid id

theorem holds_prunedValue (r : Relation) (kept : List Uuid) : r.Holds (r.prunedValue kept) := by
  rw [Holds, prunedValue]
  cases r.cardinality with
  | many => exact ⟨kept, rfl⟩
  | one => exact .inl rfl

theorem Holds.ne_document {r : Relation} {v : Value} (h : r.Holds v) (inner : Document) :
    v ≠ .document inner := by
  rw [Holds] at h
  rintro rfl
  cases hc : r.cardinality with
  | many =>
    rw [hc] at h
    obtain ⟨ids, h⟩ := h
    cases h
  | one =>
    rw [hc] at h
    rcases h with h | ⟨id, h⟩ <;> cases h

end Relation

namespace Schema

variable {sc : Schema} {d d' d'' : Document} {f : Field} {v : Value}

/-- The fields that are stored: all but the copies of other entities. -/
def storedFields (sc : Schema) : List Field :=
  sc.fields.filter fun f => decide (f.role ≠ .navigation)

/-- **A document without copies** of other entities. -/
def Bare (sc : Schema) (d : Document) : Prop :=
  ∀ f ∈ sc.fields, f.role = .navigation → d.value? f.name = none

/-- **The values that the engine gives** to a field by itself. -/
def Gives (sc : Schema) (f : Field) (v : Value) : Prop :=
  match f.role with
  | .updatedAt => ∃ ms, v = .dateTime ms
  | .updatedBy => ∃ text, v = .string text
  | .version => ∃ n, v = .int64 n
  | .dependency => ∃ r ∈ sc.relations, r.idField = f.name ∧ r.Holds v
  | .id | .data | .navigation | .derived _ => False

/-- **Fields are as they were**, or the engine gave them their values. -/
def Regives (sc : Schema) (d d' : Document) : Prop :=
  ∀ f ∈ sc.fields, d'.value? f.name = d.value? f.name ∨
    ∃ v, sc.Gives f v ∧ d'.value? f.name = some v

@[simp] theorem not_gives_idField : ¬ sc.Gives Field.idField v := id

@[simp] theorem not_gives_data (name : String) (kind : FieldKind) (children : List Field) :
    ¬ sc.Gives (Field.data name kind children) v := id

@[simp] theorem not_gives_derived (name : String) (kind : FieldKind) (source : String) :
    ¬ sc.Gives (Field.derived name kind source) v := id

theorem Gives.ne_document (h : sc.Gives f v) (hf : f.isInternal = false) (inner : Document) :
    v ≠ .document inner := by
  unfold Gives at h
  unfold Field.isInternal at hf
  cases hr : f.role with
  | dependency =>
    rw [hr] at h
    obtain ⟨r, -, -, h⟩ := h
    exact h.ne_document inner
  | data | derived => rw [hr] at h; exact h.elim
  | id | navigation | updatedAt | updatedBy | version => rw [hr] at hf; cases hf

namespace Regives

theorem refl (d : Document) : sc.Regives d d := fun _ _ => .inl rfl

theorem trans (h : sc.Regives d d') (h' : sc.Regives d' d'') : sc.Regives d d'' := by
  intro f hf
  rcases h' f hf with heq | hgiven
  · rw [heq]
    exact h f hf
  · exact .inr hgiven

theorem put (hs : sc.Lawful) (hf : f ∈ sc.fields) (hv : sc.Gives f v) (d : Document) :
    sc.Regives d (d.put f.name v) := by
  intro g hg
  by_cases hname : g.name = f.name
  · obtain rfl := hs.eq_of_name_eq hg hf hname
    exact .inr ⟨v, hv, Document.value?_put_self _ _ _⟩
  · exact .inl (Document.value?_put_of_ne _ _ hname)

theorem gives_reference (hs : sc.Lawful) {r : Relation} (hr : r ∈ sc.relations) (hv : r.Holds v) :
    ∃ f ∈ sc.fields, f.name = r.idField ∧ sc.Gives f v := by
  obtain ⟨f, hf, hrole, hname⟩ := hs.references r hr
  refine ⟨f, hf, hname, ?_⟩
  rw [Gives, hrole]
  exact ⟨r, hr, hname.symm, hv⟩

theorem putReference (hs : sc.Lawful) {r : Relation} (hr : r ∈ sc.relations) (hv : r.Holds v)
    (d : Document) : sc.Regives d (d.put r.idField v) := by
  obtain ⟨f, hf, hname, hgives⟩ := gives_reference hs hr hv
  exact hname ▸ put hs hf hgives d

theorem prunedIn (hs : sc.Lawful) (s : Store) (only : Option (List String)) (d : Document) :
    sc.Regives d (sc.prunedIn s only d) := by
  refine List.foldlRecOn (motive := fun d' => sc.Regives d d') _ _ (refl d) fun d' h r hr => ?_
  rw [Relation.prunedIn]
  split
  · exact h
  · exact h.trans (putReference hs (mem_chosenRelations hr) (r.holds_prunedValue _) d')

theorem value?_of_diffed (h : sc.Regives d d') (hf : f ∈ sc.fields)
    (hr : f.role.isDiffed false = true) : d'.value? f.name = d.value? f.name := by
  refine (h f hf).resolve_right ?_
  rintro ⟨v, hv, -⟩
  rw [Gives] at hv
  cases hrole : f.role <;> rw [hrole] at hv hr <;> first | exact hv | cases hr

theorem value?_of_data (h : sc.Regives d d') (hf : f ∈ sc.fields) (hr : f.role = .data) :
    d'.value? f.name = d.value? f.name :=
  h.value?_of_diffed hf (by rw [hr]; rfl)

theorem bare (h : sc.Regives d d') (hd : sc.Bare d) : sc.Bare d' := by
  intro f hf hr
  rw [← hd f hf hr]
  refine (h f hf).resolve_right ?_
  rintro ⟨v, hv, -⟩
  rw [Gives, hr] at hv
  exact hv

end Regives

end Schema

namespace Document

variable {sets : List (String × Value)} {root : String}

/-- **What all parts have in common** is kept by setting such parts. -/
theorem forall_objectAt_setAll {v : String → Value} {P : Value → Prop} (hroot : '.' ∉ root.toList)
    (h : OnlyParts sets root v) (hv : ∀ leaf, P (v leaf)) {d : Document}
    (hd : ∀ x ∈ d.objectAt root, P x.2) : ∀ x ∈ (setAll sets d).objectAt root, P x.2 := by
  induction sets generalizing d with
  | nil => exact hd
  | cons p r ih =>
    obtain ⟨path, x⟩ := p
    rw [setAll_cons]
    refine ih h.tail ?_
    by_cases hhead : root = Text.headSegment path
    · obtain ⟨leaf, hleaf, heq⟩ := h _ List.mem_cons_self hhead
      obtain ⟨rfl, rfl⟩ := Prod.mk.inj heq
      rw [objectAt_of_value? (value?_writePath_leaf hroot hleaf _ d)]
      intro y hy
      rcases Schema.mem_put hy with rfl | hy
      · exact hv leaf
      · exact hd y hy
    · rw [objectAt, value?_writePath_of_ne d x hhead]
      exact hd

theorem isSome_value?_iff {d : Document} {key : String} :
    (d.value? key).isSome = true ↔ key ∈ d.keys := by
  induction d with
  | nil => simp [value?, keys]
  | cons p r ih =>
    rw [value?, keys, List.map_cons, List.mem_cons]
    split
    · rename_i heq
      simp [heq]
    · rename_i hne
      rw [ih]
      simp [keys, Ne.symm hne]

theorem without_of_value?_none {d : Document} {key : String} (h : d.value? key = none) :
    d.without key = d := by
  induction d with
  | nil => rfl
  | cons p r ih =>
    rw [value?] at h
    split at h
    · cases h
    · rename_i hne
      rw [without, if_neg hne, ih h]

end Document

/-! ### Kinds that are read slot by slot -/

namespace EntityKind

variable {E : Type}

/-- **The slots of a kind of entities**: its stored fields, each with what it takes. -/
def slots (k : EntityKind E) (takers : List Taker) : List (Field × Taker) :=
  k.schema.storedFields.zip takers

/-- Every slot takes what a document has there. -/
def Fits (k : EntityKind E) (takers : List Taker) (d : Document) : Prop :=
  ∀ q ∈ k.slots takers, q.2 (d.value? q.1.name) = true

/-- Two entities are alike to the slots and in the objects that they hold. -/
def Alike (k : EntityKind E) (takers : List Taker) (e e' : E) : Prop :=
  (∀ q ∈ k.slots takers, q.2 ((k.toDocument e').value? q.1.name) =
    q.2 ((k.toDocument e).value? q.1.name)) ∧
  ∀ f ∈ k.schema.fields, f.isObject = true →
    (k.toDocument e').value? f.name = (k.toDocument e).value? f.name

/-- **A kind is read by its slots.** Each object is read by the slots of its parts. -/
structure ReadBy (k : EntityKind E) (takers : List Taker)
    (parts : String → List (String × Taker)) : Prop where
  complete : k.schema.storedFields.length = takers.length
  reads : ∀ d, k.schema.Bare d → k.Fits takers d → (k.ofDocument? d).isSome = true
  fits : ∀ d, (k.ofDocument? d).isSome = true → k.Fits takers d
  given : ∀ q ∈ k.slots takers, ∀ v, k.schema.Gives q.1 v → q.2 (some v) = true
  refuses : ∀ q ∈ k.slots takers, q.1.isFlat = true → ∀ inner : Document,
    (∀ x ∈ inner, x.2 = .null) → q.2 (some (.document inner)) = false
  object : ∀ q ∈ k.slots takers, q.1.isObject = true → ∀ inner : Document,
    q.2 (some (.document inner)) = true ↔ ∀ p ∈ parts q.1.name, p.2 (inner.value? p.1) = true
  missing : ∀ root, ∀ p ∈ parts root, p.2 none = true

/-- **The documents of entities fit the slots**, their data apart. They have all stored fields, and
no others. Data that fits is not taken for data that does not. -/
structure FitFor (k : EntityKind E) (takers : List Taker) : Prop where
  keys : ∀ e, (k.toDocument e).keys = k.schema.storedFields.map Field.name
  maintained : ∀ e, ∀ q ∈ k.slots takers, q.1.role ≠ .data →
    q.2 ((k.toDocument e).value? q.1.name) = true
  flat : ∀ e, ∀ f ∈ k.schema.fields, f.isFlat = true → ∀ inner,
    (k.toDocument e).value? f.name ≠ some (.document inner)
  agreed : ∀ e, ∀ q ∈ k.slots takers, ∀ v, q.2 v = true →
    (v.getD .null).agrees ((k.toDocument e).valueOrNull q.1.name) = true →
      q.2 ((k.toDocument e).value? q.1.name) = true
  normal : ∀ e e', (k.normalize e).Gives e' → k.Alike takers e e'
  withId : ∀ id e, k.Alike takers e (k.withId id e)

/-- **An entity does not fit**: a slot refuses what its document has there. -/
def Unfit (k : EntityKind E) (takers : List Taker) (e : E) : Prop :=
  ∃ q ∈ k.slots takers, q.2 ((k.toDocument e).value? q.1.name) = false

/-- **Documents that can be read**, without objects in flat fields. -/
structure Intact (k : EntityKind E) (takers : List Taker) (d : Document) : Prop where
  bare : k.schema.Bare d
  fits : k.Fits takers d
  flat : ∀ f ∈ k.schema.fields, f.isFlat = true → ∀ inner, d.value? f.name ≠ some (.document inner)

/-- A slot for data refuses what a document has there. -/
def Refuses (k : EntityKind E) (takers : List Taker) (d : Document) : Prop :=
  ∃ q ∈ k.slots takers, q.1.isInternal = false ∧ q.2 (d.value? q.1.name) = false

end EntityKind

/-- **A plan splits a field without parts**: names lead into it, and all of them below it. -/
def Schema.Splits (s : Schema) (properties paths : List String) (existing : Option Document) :
    Prop :=
  ∃ f ∈ s.fields, f.isFlat = true ∧ s.Names (s.plannedNames properties paths) f ∧
    ¬ s.PlansWhole properties paths existing f

/-- **A plan spoils documents**: it splits a field, or writes a value that is refused. -/
def EntityKind.PlanSpoils {E : Type} (k : EntityKind E) (takers : List Taker)
    (parts : String → List (String × Taker)) (properties paths : List String)
    (existing : Option Document) (e : E) : Prop :=
  k.schema.Splits properties paths existing ∨
  ∃ q ∈ k.slots takers,
    k.schema.PlansWhole properties paths existing q.1 ∧
        q.2 ((k.toDocument e).value? q.1.name) = false ∨
      q.1.isObject = true ∧ ¬ k.schema.PlansWhole properties paths existing q.1 ∧
        ∃ p ∈ parts q.1.name,
          k.schema.NamesLeaf (k.schema.plannedNames properties paths) q.1 p.1 ∧
            p.2 (some ((k.toDocument e).leafOrNull q.1.name p.1)) = false

namespace EntityKind

variable {E : Type} {k : EntityKind E} {takers : List Taker}
  {parts : String → List (String × Taker)}
  {d d' patch : Document} {e e' : E} {q : Field × Taker} {properties paths : List String}
  {existing : Option Document}

theorem alike_of_fits (hfits : ∀ e, k.Fits takers (k.toDocument e))
    (h : ∀ f ∈ k.schema.fields, f.isObject = true →
      (k.toDocument e').value? f.name = (k.toDocument e).value? f.name) : k.Alike takers e e' :=
  ⟨fun q hq => (hfits e' q hq).trans (hfits e q hq).symm, h⟩

theorem mem_storedFields {f : Field} :
    f ∈ k.schema.storedFields ↔ f ∈ k.schema.fields ∧ f.role ≠ .navigation := by
  rw [Schema.storedFields, List.mem_filter, decide_eq_true_iff]

theorem mem_fields_of_slot (hq : q ∈ k.slots takers) :
    q.1 ∈ k.schema.fields ∧ q.1.role ≠ .navigation :=
  mem_storedFields.mp (List.of_mem_zip hq).1

theorem FitFor.total (h : k.FitFor takers) (e : E) {f : Field} (hf : f ∈ k.schema.storedFields) :
    ((k.toDocument e).value? f.name).isSome = true := by
  rw [Document.isSome_value?_iff, h.keys e]
  exact List.mem_map_of_mem hf

theorem FitFor.bare (h : k.FitFor takers) (hs : k.schema.Lawful) (e : E) :
    k.schema.Bare (k.toDocument e) := by
  intro f hf hr
  rw [← Option.not_isSome_iff_eq_none, Document.isSome_value?_iff, h.keys e]
  intro hm
  obtain ⟨g, hg, hname⟩ := List.mem_map.mp hm
  obtain ⟨hg, hrole⟩ := mem_storedFields.mp hg
  obtain rfl := hs.eq_of_name_eq hg hf hname
  exact hrole hr

theorem ReadBy.exists_slot (h : k.ReadBy takers parts) {f : Field} (hf : f ∈ k.schema.fields)
    (hr : f.role ≠ .navigation) : ∃ t, (f, t) ∈ k.slots takers := by
  have hmap : (k.slots takers).map Prod.fst = k.schema.storedFields :=
    List.map_fst_zip (Nat.le_of_eq h.complete)
  have hm : f ∈ (k.slots takers).map Prod.fst := hmap ▸ mem_storedFields.mpr ⟨hf, hr⟩
  obtain ⟨⟨f', t⟩, hq, rfl⟩ := List.mem_map.mp hm
  exact ⟨t, hq⟩

theorem Intact.isSome (h : k.ReadBy takers parts) (hd : k.Intact takers d) :
    (k.ofDocument? d).isSome = true :=
  h.reads d hd.bare hd.fits

theorem Refuses.not_isSome (h : k.ReadBy takers parts) (hd : k.Refuses takers d) :
    ¬ (k.ofDocument? d).isSome = true := by
  obtain ⟨q, hq, -, hrefused⟩ := hd
  intro hsome
  rw [h.fits d hsome q hq] at hrefused
  cases hrefused

/-- **What the engine gives** keeps documents intact. -/
theorem Intact.regives (h : k.ReadBy takers parts) (hd : k.Intact takers d)
    (hgiven : k.schema.Regives d d') : k.Intact takers d' where
  bare := hgiven.bare hd.bare
  fits q hq := by
    rcases hgiven q.1 (mem_fields_of_slot hq).1 with heq | ⟨v, hv, heq⟩
    · rw [heq]
      exact hd.fits q hq
    · rw [heq]
      exact h.given q hq v hv
  flat f hf hflat inner := by
    rcases hgiven f hf with heq | ⟨v, hv, heq⟩
    · rw [heq]
      exact hd.flat f hf hflat inner
    · rw [heq]
      exact fun hdoc =>
        hv.ne_document (Field.isInternal_of_isFlat hflat) inner (Option.some.inj hdoc)

/-! ### Patches -/

section Patches

variable (hfit : k.FitFor takers) (hp : k.schema.Regives (k.toDocument e) patch)

include hfit hp

theorem value?_of_patch {f : Field} (hf : f ∈ k.schema.fields) (hr : f.role ≠ .navigation) :
    some (patch.valueOrNull f.name) = patch.value? f.name := by
  have htotal := hfit.total e (mem_storedFields.mpr ⟨hf, hr⟩)
  rw [Document.valueOrNull]
  rcases hp f hf with heq | ⟨v, -, heq⟩
  · rw [heq]
    obtain ⟨v, hv⟩ := Option.isSome_iff_exists.mp htotal
    rw [hv, Option.getD_some]
  · rw [heq, Option.getD_some]

/-- **A patch fits** as far as the entity does. -/
theorem takes_patch (h : k.ReadBy takers parts) (hq : q ∈ k.slots takers) :
    q.2 (patch.value? q.1.name) = q.2 ((k.toDocument e).value? q.1.name) := by
  rcases hp q.1 (mem_fields_of_slot hq).1 with heq | ⟨v, hv, heq⟩
  · rw [heq]
  · have hrole : q.1.role ≠ .data := by
      intro hr
      rw [Schema.Gives, hr] at hv
      exact hv
    rw [heq, h.given q hq v hv, hfit.maintained e q hq hrole]

theorem flat_patch {f : Field} (hf : f ∈ k.schema.fields) (hflat : f.isFlat = true)
    (inner : Document) : patch.value? f.name ≠ some (.document inner) := by
  rcases hp f hf with heq | ⟨v, hv, heq⟩
  · rw [heq]
    exact hfit.flat e f hf hflat inner
  · rw [heq]
    exact fun hdoc =>
      hv.ne_document (Field.isInternal_of_isFlat hflat) inner (Option.some.inj hdoc)

omit hfit in
theorem leafOrNull_patch {f : Field} (hf : f ∈ k.schema.fields) (ho : f.isObject = true)
    (leaf : String) : patch.leafOrNull f.name leaf = (k.toDocument e).leafOrNull f.name leaf := by
  refine Document.leafOrNull_congr ?_
  rw [Document.valueOrNull, hp.value?_of_data hf (Field.role_of_isObject ho), Document.valueOrNull]

end Patches

/-! ### Plans -/

theorem not_isInternal_of_names {names : List String} {g : Field} (h : k.schema.Names names g) :
    g.isInternal = false := by
  obtain ⟨name, -, hreach⟩ := h
  simpa using (Option.filter_eq_some_iff.mp hreach).2

theorem not_isInternal_of_plansWhole (hs : k.schema.Lawful) {g : Field} (hg : g ∈ k.schema.fields)
    (h : k.schema.PlansWhole properties paths existing g) : g.isInternal = false := by
  rcases (Schema.plansWhole_iff hs hg).mp h with ⟨source, -, hrole⟩ | ⟨hnames, -⟩
  · rw [Field.isInternal, hrole]
  · exact not_isInternal_of_names hnames

theorem plansWhole_of_collection (hs : k.schema.Lawful) {g : Field} (hg : g ∈ k.schema.fields)
    (hc : g.kind.isCollection = true)
    (hn : k.schema.Names (k.schema.plannedNames properties paths) g) :
    k.schema.PlansWhole properties paths existing g :=
  (Schema.plansWhole_iff hs hg).mpr (.inr ⟨hn, .inl (by rw [hc, Bool.true_or])⟩)

theorem bare_plan (hs : k.schema.Lawful) (hd : k.schema.Bare d) :
    k.schema.Bare (Document.setAll (k.schema.plan properties paths patch existing) d) := by
  intro f hf hrole
  have hinternal : f.isInternal = true := by rw [Field.isInternal, hrole]
  rw [Schema.value?_plan_of_unplanned hs hf, hd f hf hrole]
  · intro hwhole
    rw [not_isInternal_of_plansWhole hs hf hwhole] at hinternal
    cases hinternal
  · intro hnames
    rw [not_isInternal_of_names hnames] at hinternal
    cases hinternal

theorem parts_of_fits (h : k.ReadBy takers parts) (hd : k.Fits takers d) (hq : q ∈ k.slots takers)
    (ho : q.1.isObject = true) :
    ∀ p ∈ parts q.1.name, p.2 ((d.objectAt q.1.name).value? p.1) = true := by
  intro p hm
  by_cases hdoc : ∃ inner, d.value? q.1.name = some (.document inner)
  · obtain ⟨inner, hinner⟩ := hdoc
    rw [Document.objectAt_of_value? hinner]
    have hfits := hd q hq
    rw [hinner] at hfits
    exact (h.object q hq ho inner).mp hfits p hm
  · rw [Document.objectAt, Value.document?_eq_none fun inner hinner => hdoc ⟨inner, hinner⟩]
    exact h.missing _ p hm

section Plans

variable (h : k.ReadBy takers parts) (hfit : k.FitFor takers) (hs : k.schema.Lawful)
  (hleaves : k.schema.DotlessLeaves) (hp : k.schema.Regives (k.toDocument e) patch)
  (hd : k.Intact takers d)

include h hfit hs hleaves hp hd

/-- What a slot takes, it takes after a plan that does not spoil documents. -/
theorem fits_plan (hnot : ¬ k.PlanSpoils takers parts properties paths existing e) :
    k.Fits takers (Document.setAll (k.schema.plan properties paths patch existing) d) := by
  obtain ⟨hsplit, hvalues⟩ := not_or.mp hnot
  intro q hq
  obtain ⟨hf, hrole⟩ := mem_fields_of_slot hq
  by_cases hwhole : k.schema.PlansWhole properties paths existing q.1
  · rw [Schema.value?_plan_of_whole hs hf hwhole, value?_of_patch hfit hp hf hrole,
      takes_patch hfit hp h hq]
    by_contra hrefused
    exact hvalues ⟨q, hq, .inl ⟨hwhole, Bool.eq_false_iff.mpr hrefused⟩⟩
  by_cases hnames : k.schema.Names (k.schema.plannedNames properties paths) q.1
  · -- Names lead below the field. Then it holds an object, of which each part is taken: a named one
    -- from the patch, and any other from the document.
    rcases Field.cases_of_not_isInternal (not_isInternal_of_names hnames) with
      hflat | hobject | hcollection
    · exact absurd ⟨q.1, hf, hflat, hnames, hwhole⟩ hsplit
    · rw [Schema.value?_plan_of_parts hs hleaves hf hwhole hnames, h.object q hq hobject]
      intro p hm
      by_cases hleaf : k.schema.NamesLeaf (k.schema.plannedNames properties paths) q.1 p.1
      · rw [Schema.value?_objectAt_plan hs hleaves hf hwhole hleaf,
          leafOrNull_patch hp hf hobject]
        by_contra hrefused
        exact hvalues ⟨q, hq, .inr ⟨hobject, hwhole, p, hm, hleaf, Bool.eq_false_iff.mpr hrefused⟩⟩
      · rw [Schema.value?_objectAt_plan_of_not hs hleaves hf hwhole hleaf]
        exact parts_of_fits h hd.fits hq hobject p hm
    · exact absurd (plansWhole_of_collection hs hf hcollection hnames) hwhole
  · rw [Schema.value?_plan_of_unplanned hs hf hwhole hnames]
    exact hd.fits q hq

/-- **A plan that does not spoil documents** keeps them intact. -/
theorem intact_plan (hnot : ¬ k.PlanSpoils takers parts properties paths existing e) :
    k.Intact takers (Document.setAll (k.schema.plan properties paths patch existing) d) := by
  refine ⟨bare_plan hs hd.bare, fits_plan h hfit hs hleaves hp hd hnot, fun f hf hflat inner => ?_⟩
  by_cases hwhole : k.schema.PlansWhole properties paths existing f
  · rw [Schema.value?_plan_of_whole hs hf hwhole,
      value?_of_patch hfit hp hf (Field.role_ne_of_isFlat hflat)]
    exact flat_patch hfit hp hf hflat inner
  · rw [Schema.value?_plan_of_unplanned hs hf hwhole fun hnames =>
      hnot (.inl ⟨f, hf, hflat, hnames, hwhole⟩)]
    exact hd.flat f hf hflat inner

/-- **After a plan that spoils documents** a slot refuses what was written. -/
theorem refused_plan (hspoils : k.PlanSpoils takers parts properties paths existing e) :
    k.Refuses takers (Document.setAll (k.schema.plan properties paths patch existing) d) := by
  rcases hspoils with ⟨f, hf, hflat, hnames, hwhole⟩ | ⟨q, hq, ⟨hwhole, hrefused⟩ |
    ⟨hobject, hwhole, p, hm, hleaf, hrefused⟩⟩
  · -- The patch has no object there, so every part that is written is null.
    obtain ⟨t, hq⟩ := h.exists_slot hf (Field.role_ne_of_isFlat hflat)
    refine ⟨(f, t), hq, Field.isInternal_of_isFlat hflat, ?_⟩
    dsimp only
    rw [Schema.value?_plan_of_parts hs hleaves hf hwhole hnames]
    refine h.refuses _ hq hflat _ (Document.forall_objectAt_setAll (P := (· = .null))
      (hs.dotless f hf) (Schema.onlyParts_plan hs hleaves hf hwhole patch) ?_ ?_)
    · intro leaf
      rw [Document.leafOrNull, Value.document?_eq_none (flat_patch hfit hp hf hflat)]
      rfl
    · rw [Document.objectAt, Value.document?_eq_none (hd.flat f hf hflat)]
      exact fun x hx => absurd hx List.not_mem_nil
  · obtain ⟨hf, hrole⟩ := mem_fields_of_slot hq
    refine ⟨q, hq, not_isInternal_of_plansWhole hs hf hwhole, ?_⟩
    rw [Schema.value?_plan_of_whole hs hf hwhole, value?_of_patch hfit hp hf hrole,
      takes_patch hfit hp h hq, hrefused]
  · obtain ⟨hf, -⟩ := mem_fields_of_slot hq
    refine ⟨q, hq, not_isInternal_of_names hleaf.named, ?_⟩
    rw [Schema.value?_plan_of_parts hs hleaves hf hwhole hleaf.named]
    rw [← Bool.not_eq_true, h.object q hq hobject]
    intro hall
    have htaken := hall p hm
    rw [Schema.value?_objectAt_plan hs hleaves hf hwhole hleaf, leafOrNull_patch hp hf hobject,
      hrefused] at htaken
    cases htaken

end Plans

/-! ### Differences -/

/-- After a difference was written, a field holds what was proposed, or it is as it was. -/
theorem value?_diff_cases (hs : k.schema.Lawful) {f : Field} (hf : f ∈ k.schema.fields)
    (dependencies : Bool) :
    (f.role ≠ .navigation ∧
      (Document.setAll (k.schema.diff dependencies d patch) d).value? f.name =
        some (patch.valueOrNull f.name)) ∨
      (Document.setAll (k.schema.diff dependencies d patch) d).value? f.name = d.value? f.name := by
  rw [Schema.value?_diff hs hf]
  split
  · rename_i hdiffed
    refine .inl ⟨fun hrole => ?_, rfl⟩
    rw [hrole, Bool.and_eq_true] at hdiffed
    cases hdiffed.1
  · exact .inr rfl

theorem bare_diff (hs : k.schema.Lawful) (hd : k.schema.Bare d) (dependencies : Bool) :
    k.schema.Bare (Document.setAll (k.schema.diff dependencies d patch) d) := by
  intro f hf hrole
  rcases value?_diff_cases hs hf dependencies with ⟨hstored, -⟩ | heq
  · exact absurd hrole hstored
  · rw [heq, hd f hf hrole]

section Differences

variable (h : k.ReadBy takers parts) (hfit : k.FitFor takers) (hs : k.schema.Lawful)
  (hp : k.schema.Regives (k.toDocument e) patch) (hd : k.Intact takers d)

include h hfit hs hp hd

/-- **A difference from an entity that fits** keeps documents intact. -/
theorem intact_diff (hnot : ¬ k.Unfit takers e) (dependencies : Bool) :
    k.Intact takers (Document.setAll (k.schema.diff dependencies d patch) d) := by
  refine ⟨bare_diff hs hd.bare dependencies, fun q hq => ?_, fun f hf hflat inner => ?_⟩
  · obtain ⟨hf, hrole⟩ := mem_fields_of_slot hq
    rcases value?_diff_cases hs hf dependencies with ⟨-, heq⟩ | heq
    · rw [heq, value?_of_patch hfit hp hf hrole, takes_patch hfit hp h hq]
      by_contra hrefused
      exact hnot ⟨q, hq, Bool.eq_false_iff.mpr hrefused⟩
    · rw [heq]
      exact hd.fits q hq
  · rcases value?_diff_cases hs hf dependencies with ⟨hrole, heq⟩ | heq
    · rw [heq, value?_of_patch hfit hp hf hrole]
      exact flat_patch hfit hp hf hflat inner
    · rw [heq]
      exact hd.flat f hf hflat inner

/-- **After a difference from an entity that does not fit** a slot refuses what was written. -/
theorem refused_diff (hunfit : k.Unfit takers e) (dependencies : Bool) :
    k.Refuses takers (Document.setAll (k.schema.diff dependencies d patch) d) := by
  obtain ⟨q, hq, hrefused⟩ := hunfit
  obtain ⟨hf, hrole⟩ := mem_fields_of_slot hq
  have hdata : q.1.role = .data := by
    by_contra hr
    rw [hfit.maintained e q hq hr] at hrefused
    cases hrefused
  refine ⟨q, hq, by rw [Field.isInternal, hdata], ?_⟩
  have hdiffers : Schema.agreesIn d patch q.1 = false := by
    by_contra hagrees
    rw [Bool.not_eq_false, Schema.agreesIn, Document.valueOrNull, Document.valueOrNull,
      hp.value?_of_data hf hdata] at hagrees
    rw [hfit.agreed e q hq _ (hd.fits q hq) hagrees] at hrefused
    cases hrefused
  have hdiffed : (FieldRole.isDiffed dependencies .data && !false) = true := rfl
  rw [Schema.value?_diff hs hf, hdata, hdiffers, if_pos hdiffed, value?_of_patch hfit hp hf hrole,
    takes_patch hfit hp h hq, hrefused]

end Differences

end EntityKind

end Registrar
