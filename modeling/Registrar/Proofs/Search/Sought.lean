import Registrar.Proofs.Directory.References
import Registrar.Proofs.Search.Meaning

/-!
# What is stored and what is sought

A text is sought without the blanks around it, and is found where just this text is stored.

The ids that an entity refers to are read in two ways. Following a relation reads a stored id in its
binary form or as a text. Searching compares what is stored with the binary form of the ids that are
sought, and so it passes over an id that is stored as a text. The two ways agree about a document
unless one of the ids sought is stored as a text in it, and none in its binary form.

* `Document.mem_valuesAt_iff`: what is compared in a field.
* `Schema.filterOfCondition_text`, `Filter.holds_eq_text_iff`: a text that is sought in a field.
* `Value.uuid?_eq_some_iff`: the two forms of a stored id.
* `Relation.entriesIn`: what a document stores for a relation, one value for each id.
* `Relation.mem_targetIds_iff`: what following the relation reads.
* `Relation.holds_sought_iff`: what searching finds.
* `references_agree_iff`: **when the two agree**.
-/

namespace Registrar

/-! ### Values in a field -/

theorem Document.mem_valuesAt_iff {d : Document} {name : String} {v : Value}
    (hdot : '.' ∉ name.toList) :
    v ∈ d.valuesAt name ↔ ∃ x, d.value? name = some x ∧ v ∈ x.withItems := by
  rw [valuesAt, reached_of_dotless d hdot]
  cases d.value? name <;> simp

theorem Value.equalTo_string_iff {v : Value} {text : String} :
    v.equalTo (.string text) = true ↔ v = .string text := by
  cases v <;> simp [equalTo, scalarEqualTo, number?]

/-- **A text is found** where it is stored, by itself or in a list. -/
theorem Filter.holds_eq_text_iff {d : Document} {path text : String} :
    (Filter.eq path (.string text)).holds d = true ↔ .string text ∈ d.valuesAt path := by
  let test : Value → Bool := fun v => v.equalTo (.string text)
  have hnull : test .null = false := by
    simp [test, Value.equalTo, Value.scalarEqualTo, Value.number?]
  have hany : (Filter.eq path (.string text)).holds d = (d.candidates path).any test := by
    rw [Filter.eq, Filter.holds, Comparison.holds]
  rw [hany, Document.any_candidates hnull]
  simp only [test, Value.equalTo_string_iff, exists_eq_right]

/-- **A text is sought** without the blanks around it. -/
theorem Schema.filterOfCondition_text {s : Schema} {field : String} {r : CanonicalPath}
    (hr : s.searchable? (Text.trim field) = some r) (hkind : r.kind = .string) (text : String) :
    s.filterOfCondition (.equals field (.string text)) =
      .ok (some (.eq r.path (.string (Text.trim text)))) := by
  let c : Condition := .equals field (.string text)
  have hvalue : (Operand.string text).toValue .string = .ok (.string (Text.trim text)) := rfl
  have hfilter : s.filterOfCondition c = conditionFilter c r.path r.kind :=
    filterOfCondition_of_some hr
  rw [hfilter, conditionFilter_equals_of_single field rfl, hkind, hvalue]
  rfl

/-! ### The two forms of an id -/

namespace Value

variable {v : Value} {id k : Uuid}

/-- A text that spells an id. -/
def SpellsId (v : Value) (id : Uuid) : Prop := ∃ text, v = .string text ∧ Uuid.parse? text = some id

/-- **An id is read** from its binary form or from a text. -/
theorem uuid?_eq_some_iff : v.uuid? = some id ↔ v = ofUuid id ∨ v.SpellsId id := by
  constructor
  · intro h
    cases v with
    | binary subtype bytes =>
      rw [uuid?] at h
      split at h
      · rename_i hsubtype
        rw [hsubtype, ← Uuid.bytes_of_ofBytes? h]
        exact .inl rfl
      · cases h
    | string text => exact .inr ⟨text, rfl, h⟩
    | _ => cases h
  · rintro (rfl | ⟨text, rfl, h⟩)
    · exact uuid?_ofUuid id
    · exact h

/-- **A search compares the binary form**: a value that is read as an id is equal to an id sought
only if it is the binary form of this id. -/
theorem equalTo_ofUuid_iff (h : v.uuid? = some k) :
    v.equalTo (ofUuid id) = true ↔ v = ofUuid id := by
  rcases uuid?_eq_some_iff.mp h with rfl | ⟨text, rfl, -⟩
  · rw [ofUuid_equalTo]
    refine ⟨congrArg ofUuid, fun heq => ?_⟩
    have hread := congrArg uuid? heq
    rw [uuid?_ofUuid, uuid?_ofUuid] at hread
    exact Option.some.inj hread
  · exact iff_of_false (by simp [ofUuid, equalTo, scalarEqualTo, number?]) nofun

end Value

/-! ### What is stored for a relation -/

namespace Relation

variable {r : Relation} {d : Document} {id : Uuid} {ids : List Uuid} {path : String}

/-- **What a document stores for a relation**: one value, or the items of a list. -/
def entriesIn (r : Relation) (d : Document) : List Value :=
  match r.cardinality, d.value? r.idField with
  | .one, some v => [v]
  | .many, some (.array items) => items
  | _, _ => []

/-- **A document holds ids for a relation**: an id, or a list of ids, in any form that is read. -/
structure HoldsIds (r : Relation) (d : Document) : Prop where
  one : r.cardinality = .one → ∃ v, d.value? r.idField = some v
  many : r.cardinality = .many → ∃ items, d.value? r.idField = some (.array items)
  ids : ∀ v ∈ r.entriesIn d, v.uuid?.isSome = true

/-- **Following a relation reads** what is stored for it. -/
theorem mem_targetIds_iff : id ∈ r.targetIds d ↔ ∃ v ∈ r.entriesIn d, v.uuid? = some id := by
  rw [targetIds, entriesIn, Document.valueOrNull]
  cases r.cardinality with
  | one =>
    cases d.value? r.idField with
    | none => simp [Value.uuid?]
    | some v => simp
  | many =>
    cases d.value? r.idField with
    | none => simp [Value.uuids]
    | some v => cases v <;> simp [Value.uuids]

theorem exists_equalTo_iff (hdot : '.' ∉ r.idField.toList) (h : r.HoldsIds d) :
    (∃ v ∈ d.valuesAt r.idField, v.equalTo (Value.ofUuid id) = true) ↔
      ∃ v ∈ r.entriesIn d, v.equalTo (Value.ofUuid id) = true := by
  have hids := h.ids
  simp only [Document.mem_valuesAt_iff hdot]
  rw [entriesIn] at hids ⊢
  cases hcard : r.cardinality with
  | one =>
    obtain ⟨v, hv⟩ := h.one hcard
    rw [hcard, hv] at hids
    have hitems : v.withItems = [v] := by
      have := hids v (List.mem_singleton_self v)
      cases v <;> first | rfl | cases this
    simp [hv, hitems]
  | many =>
    obtain ⟨items, hv⟩ := h.many hcard
    have hlist : (Value.array items).equalTo (Value.ofUuid id) = false := by
      simp [Value.equalTo, Value.ofUuid, Value.scalarEqualTo, Value.number?]
    simp [hv, Value.withItems, or_and_right, exists_or, hlist]

/-- **Searching finds** the documents that store the binary form of an id that is sought. -/
theorem holds_sought_iff (hdot : '.' ∉ r.idField.toList) (h : r.HoldsIds d) :
    Filter.holds d (.compare r.idField .anyOf (Value.ofUuids ids)) = true ↔
      ∃ id ∈ ids, Value.ofUuid id ∈ r.entriesIn d := by
  have hone : ∀ id, (∃ v ∈ r.entriesIn d, v.equalTo (Value.ofUuid id) = true) ↔
      Value.ofUuid id ∈ r.entriesIn d := by
    intro id
    constructor
    · rintro ⟨v, hv, hequal⟩
      obtain ⟨k, hk⟩ := Option.isSome_iff_exists.mp (h.ids v hv)
      rwa [← (Value.equalTo_ofUuid_iff hk).mp hequal]
    · exact fun hmem => ⟨_, hmem, Value.ofUuid_equalTo.mpr rfl⟩
  rw [Schema.holds_anyOf_ids_iff]
  constructor
  · rintro ⟨v, hv, id, hid, hequal⟩
    exact ⟨id, hid, (hone id).mp ((exists_equalTo_iff hdot h).mp ⟨v, hv, hequal⟩)⟩
  · rintro ⟨id, hid, hmem⟩
    obtain ⟨v, hv, hequal⟩ := (exists_equalTo_iff hdot h).mpr ((hone id).mpr hmem)
    exact ⟨v, hv, id, hid, hequal⟩

theorem exists_target_iff : (∃ id ∈ ids, id ∈ r.targetIds d) ↔
    (∃ id ∈ ids, Value.ofUuid id ∈ r.entriesIn d) ∨
      ∃ id ∈ ids, ∃ v ∈ r.entriesIn d, v.SpellsId id := by
  simp only [mem_targetIds_iff, Value.uuid?_eq_some_iff, and_or_left, exists_or, exists_eq_right]

end Relation

/-- **The field of a relation**, in which its ids are searched for: the lookup of its name finds a
field for ids that has this name, and the name has no dots. -/
structure Schema.StoresIdsIn (s : Schema) (r : Relation) (f : Field) : Prop where
  field : s.IsReferenceField r.idField f
  name : f.name = r.idField
  dotless : '.' ∉ r.idField.toList

/-- **References that are searched for agree with those that are stored** unless they are stored as
texts. Let a document hold an id for a relation, or a list of ids, in any form that is read, and let
some ids be sought in the field of the relation. The reference condition has a filter, which the
document meets if it stores the binary form of one of them. Following the relation reaches one of
them if either form is stored. So the two agree exactly when, if a text is stored that spells one of
the ids, the binary form of one of them is stored as well. -/
theorem references_agree_iff {s : Schema} {r : Relation} {f : Field} (hf : s.StoresIdsIn r f)
    {d : Document} (hd : r.HoldsIds d) {ids : List Uuid} (hids : ids ≠ []) :
    ∃ g, s.filterOfReferences [⟨r.idField, ids⟩] = .ok (some g) ∧
      (g.holds d = true ↔ ∃ id ∈ ids, Value.ofUuid id ∈ r.entriesIn d) ∧
      ((∃ id ∈ ids, id ∈ r.targetIds d) ↔ (∃ id ∈ ids, Value.ofUuid id ∈ r.entriesIn d) ∨
        ∃ id ∈ ids, ∃ v ∈ r.entriesIn d, v.SpellsId id) ∧
      ((g.holds d = true ↔ ∃ id ∈ ids, id ∈ r.targetIds d) ↔
        ((∃ id ∈ ids, ∃ v ∈ r.entriesIn d, v.SpellsId id) →
          ∃ id ∈ ids, Value.ofUuid id ∈ r.entriesIn d)) := by
  have hfilter : s.filterOfReferences [⟨r.idField, ids⟩] =
      .ok (some (.compare r.idField .anyOf (Value.ofUuids ids))) := by
    have hone : s.filterOfReference ⟨r.idField, ids⟩ =
        .ok (.compare r.idField .anyOf (Value.ofUuids ids)) :=
      Schema.filterOfReference_ok_iff.mpr ⟨f, hf.field, by rw [hf.name]⟩
    have hsome : ids.isEmpty = false := List.isEmpty_eq_false_iff.mpr hids
    simp [Schema.filterOfReferences, hsome, hone, Filter.all?, bind, Except.bind, pure, Except.pure]
  have hholds : Filter.holds d (.compare r.idField .anyOf (Value.ofUuids ids)) = true ↔
      ∃ id ∈ ids, Value.ofUuid id ∈ r.entriesIn d := Relation.holds_sought_iff hf.dotless hd
  have htargets : (∃ id ∈ ids, id ∈ r.targetIds d) ↔
      (∃ id ∈ ids, Value.ofUuid id ∈ r.entriesIn d) ∨
        ∃ id ∈ ids, ∃ v ∈ r.entriesIn d, v.SpellsId id := Relation.exists_target_iff
  refine ⟨_, hfilter, hholds, htargets, ?_⟩
  rw [hholds, htargets]
  exact ⟨fun h hspelt => h.mpr (.inr hspelt), fun h => ⟨.inl, fun h' => h'.elim id h⟩⟩

namespace Directory

/-- **Every relation of the directory** has its field. -/
theorem IsKind.exists_storesIdsIn {E : Type} {k : EntityKind E} (h : IsKind k) {r : Relation}
    (hr : r ∈ k.schema.relations) : ∃ f, k.schema.StoresIdsIn r f := by
  cases h with
  | book => cases hr
  | category =>
    obtain rfl := List.mem_singleton.mp hr
    exact ⟨_, ⟨rfl, by decide⟩, rfl, by decide⟩
  | contact =>
    have hall : ∀ r ∈ Contact.schema.relations, ∃ f, Contact.schema.StoresIdsIn r f := by
      simp only [Contact.schema, List.forall_mem_cons, List.not_mem_nil, false_implies,
        implies_true, and_true]
      exact ⟨⟨_, ⟨rfl, by decide⟩, rfl, by decide⟩, ⟨_, ⟨rfl, by decide⟩, rfl, by decide⟩,
        ⟨_, ⟨rfl, by decide⟩, rfl, by decide⟩, ⟨_, ⟨rfl, by decide⟩, rfl, by decide⟩⟩
    exact hall r hr

/-- A contact whose manager is stored as a text. -/
def managedByText : Document := [("manager_id", .string (Uuid.ofByte 3).text)]

/-- **A manager that is stored as a text** is followed, but the search for the manager's contacts
misses the contact. -/
theorem managedByText_missed :
    Uuid.ofByte 3 ∈ managerRelation.targetIds managedByText ∧
      ∃ g, Contact.schema.filterOfReferences [⟨"manager_id", [.ofByte 3]⟩] = .ok (some g) ∧
        g.holds managedByText = false := by
  have hread : (Value.string (Uuid.ofByte 3).text).uuid? = some (.ofByte 3) := by decide +kernel
  have hholds : managerRelation.HoldsIds managedByText := by
    refine ⟨fun _ => ⟨_, rfl⟩, nofun, fun v hv => ?_⟩
    obtain rfl := List.mem_singleton.mp hv
    rw [hread]
    rfl
  obtain ⟨f, hf⟩ := IsKind.contact.exists_storesIdsIn (r := managerRelation) (by decide)
  obtain ⟨g, hg, hbinary, -, -⟩ := references_agree_iff hf hholds (List.cons_ne_nil (.ofByte 3) [])
  refine ⟨Relation.mem_targetIds_iff.mpr ⟨_, List.mem_singleton_self _, hread⟩, g, hg, ?_⟩
  rw [← Bool.not_eq_true, hbinary]
  rintro ⟨id, -, hid⟩
  cases List.mem_singleton.mp hid

end Directory

end Registrar
