import Registrar.Proofs.Engine.Deltas
import Registrar.Proofs.Engine.Spoiling
import Registrar.Proofs.Entity.Recovering

/-!
# Entities column by column

A stored field holds one part of an entity, and from the parts the entity is read again. So the
documents of a kind form a table: there is a column for each stored field. An update writes the
columns in which what is stored does not agree with what is proposed, and leaves the others as they
are. When each part fixes what is read, all columns are read as if they had been written.

* `Column`, `EntityKind.Tabled`: the columns of a kind of entities.
* `Column.Keeps`, `Column.Fixes`: what is read back as it was written, and what is read from a value
  that agrees with it.
* `Schema.Stamped`: documents that differ in their stamps and versions only.
* `ofDocument?_replaced`: **what is read after a difference was written**.
-/

namespace Registrar

open Reading

/-- **A column** of entities: a stored field, the part of an entity that it holds, and how the part
is written and read. -/
structure Column (E : Type) where
  field : Field
  {Part : Type}
  part : E → Part
  write : Part → Value
  read : FieldReader Part

namespace Column

variable {E α : Type}

/-- A column that no document may lack. -/
def required (field : Field) (part : E → α) (write : α → Value) (r : Reader α) : Column E :=
  ⟨field, part, write, ofRequired r⟩

/-- A column with a default. -/
def optional (field : Field) (part : E → α) (write : α → Value) (default : α) (r : Reader α) :
    Column E :=
  ⟨field, part, write, ofOptional default r⟩

/-- **An entity keeps its part**: it is read as it was written. -/
def Keeps (c : Column E) (e : E) : Prop := c.read (some (c.write (c.part e))) = some (c.part e)

/-- **An entity fixes its part**: what agrees with what is written is read alike. -/
def Fixes (c : Column E) (e : E) : Prop := FixesField c.read (c.write (c.part e))

/-- What the field of the column takes. -/
def taker (c : Column E) : Taker := fun v => (c.read v).isSome

theorem taker_required (field : Field) (part : E → α) (write : α → Value) (r : Reader α) :
    (required field part write r).taker = .required r := rfl

theorem taker_optional (field : Field) (part : E → α) (write : α → Value) (default : α)
    (r : Reader α) : (optional field part write default r).taker = .optional r := by
  funext v
  cases v <;> rfl

end Column

/-- The roles of ids: that of the entity, and those of the entities that it refers to. -/
def FieldRole.isReference : FieldRole → Bool
  | .id | .dependency => true
  | _ => false

/-! ### Stamps -/

/-- **Documents that differ in their stamps and versions only.** -/
def Schema.Stamped (sc : Schema) (d d' : Document) : Prop :=
  ∀ f ∈ sc.fields, d'.value? f.name = d.value? f.name ∨
    f.isStamp = true ∧ ∃ v, sc.Gives f v ∧ d'.value? f.name = some v

theorem Schema.Stamped.refl (sc : Schema) (d : Document) : sc.Stamped d d := fun _ _ => .inl rfl

theorem Schema.Stamped.value? {sc : Schema} {d d' : Document} (h : sc.Stamped d d') {f : Field}
    (hf : f ∈ sc.fields) (hstamp : f.isStamp = false) : d'.value? f.name = d.value? f.name := by
  refine (h f hf).resolve_right fun ⟨hstamp', _⟩ => ?_
  rw [hstamp] at hstamp'
  cases hstamp'

theorem Collection.stamped_written {E : Type} {c : Collection E} {caller : Caller}
    (hs : c.schema.Lawful) (changes : Changes) (now : Int64) (d : Document) :
    c.schema.Stamped (Document.setAll changes d)
      ((c.withVersion { sets := changes ++ c.stampsAt caller now }).apply d) := by
  intro f hf
  cases hstamp : f.isStamp with
  | true => exact (regives_stamped hs changes now d f hf).imp_right fun h => ⟨rfl, h⟩
  | false =>
    refine .inl (value?_stamped_of_not hs (fun g hg hname => ?_) changes now d)
    rw [hs.eq_of_name_eq hg hf hname, hstamp]

/-! ### Tables -/

/-- **A kind of entities is read column by column.** There is a column for each stored field, and
what the engine gives to a field by itself can be read. -/
structure EntityKind.Tabled {E : Type} (k : EntityKind E) (columns : List (Column E)) : Prop where
  complete : columns.map Column.field = k.schema.storedFields
  writes : ∀ c ∈ columns, ∀ e, (k.toDocument e).value? c.field.name = some (c.write (c.part e))
  reads : ∀ d e, k.ofDocument? d = some e → ∀ c ∈ columns,
    c.read (d.value? c.field.name) = some (c.part e)
  given : ∀ c ∈ columns, ∀ v, k.schema.Gives c.field v → (c.read (some v)).isSome = true
  readable : ∀ d d', (k.ofDocument? d).isSome = true →
    (∀ f ∈ k.schema.fields, f.role = .navigation → d'.value? f.name = d.value? f.name) →
    (∀ c ∈ columns, (c.read (d'.value? c.field.name)).isSome = true) →
      (k.ofDocument? d').isSome = true

namespace EntityKind

variable {E : Type} {k : EntityKind E} {columns : List (Column E)} {takers : List Taker}
  {parts : String → List (String × Taker)} {d : Document}

theorem slots_eq_map (hfields : columns.map Column.field = k.schema.storedFields)
    (htakers : columns.map Column.taker = takers) :
    k.slots takers = columns.map fun c => (c.field, c.taker) := by
  rw [slots, ← hfields, ← htakers, List.zip_map']

theorem fits_iff_columns (hfields : columns.map Column.field = k.schema.storedFields)
    (htakers : columns.map Column.taker = takers) :
    k.Fits takers d ↔ ∀ c ∈ columns, (c.read (d.value? c.field.name)).isSome = true := by
  rw [Fits, slots_eq_map hfields htakers, List.forall_mem_map]
  exact Iff.rfl

/-- **What the engine gives** is read in its column. -/
theorem ReadBy.given_column (h : k.ReadBy takers parts)
    (hfields : columns.map Column.field = k.schema.storedFields)
    (htakers : columns.map Column.taker = takers) {c : Column E} (hc : c ∈ columns) {v : Value}
    (hv : k.schema.Gives c.field v) : (c.read (some v)).isSome = true := by
  refine h.given (c.field, c.taker) ?_ v hv
  rw [slots_eq_map hfields htakers]
  exact List.mem_map_of_mem hc

end EntityKind

namespace EntityKind.Tabled

variable {E : Type} {k : EntityKind E} {columns : List (Column E)} {c : Column E}
  {e e₀ : E} {d d' : Document}

theorem mem_fields (h : k.Tabled columns) (hc : c ∈ columns) :
    c.field ∈ k.schema.fields ∧ c.field.role ≠ .navigation :=
  mem_storedFields.mp (h.complete ▸ List.mem_map_of_mem hc)

theorem exists_column (h : k.Tabled columns) {f : Field} (hf : f ∈ k.schema.fields)
    (hrole : f.role.isDiffed false = true) : ∃ c ∈ columns, c.field = f := by
  have hstored : f ∈ k.schema.storedFields :=
    mem_storedFields.mpr ⟨hf, by rintro heq; rw [heq] at hrole; cases hrole⟩
  rw [← h.complete] at hstored
  exact List.mem_map.mp hstored

/-- **What the engine gives** keeps a document readable. -/
theorem isSome_regives (h : k.Tabled columns) (hgiven : k.schema.Regives d d')
    (hd : (k.ofDocument? d).isSome = true) : (k.ofDocument? d').isSome = true := by
  obtain ⟨e, he⟩ := Option.isSome_iff_exists.mp hd
  refine h.readable d d' hd (fun f hf hrole => ?_) fun c hc => ?_
  · refine (hgiven f hf).resolve_right ?_
    rintro ⟨v, hv, -⟩
    rw [Schema.Gives, hrole] at hv
    exact hv
  · rcases hgiven c.field (h.mem_fields hc).1 with heq | ⟨v, hv, heq⟩
    · rw [heq, h.reads d e he c hc, Option.isSome_some]
    · rw [heq]
      exact h.given c hc v hv

theorem valueOrNull (h : k.Tabled columns) (hc : c ∈ columns) (e : E) :
    (k.toDocument e).valueOrNull c.field.name = c.write (c.part e) := by
  rw [Document.valueOrNull, h.writes c hc, Option.getD_some]

section Replaced

variable (h : k.Tabled columns) (hs : k.schema.Lawful) (hd : k.ofDocument? d = some e₀)
  (hd' : k.schema.Stamped (Document.setAll (k.schema.diff false d (k.toDocument e)) d) d')

include h hs hd hd'

/-- **A column that takes part in a difference** is read as if it had been written. -/
theorem read_diffed (hc : c ∈ columns) (hrole : c.field.role.isDiffed false = true)
    (hfix : c.Fixes e) : c.read (d'.value? c.field.name) = c.read (some (c.write (c.part e))) := by
  have hf := (h.mem_fields hc).1
  have hstamp : c.field.isStamp = false := by
    rw [Field.isStamp]
    cases hr : c.field.role <;> first | rfl | (rw [hr] at hrole; cases hrole)
  rw [hd'.value? hf hstamp, Schema.value?_diff hs hf, hrole, Bool.true_and, h.valueOrNull hc]
  split
  · rfl
  · rename_i hagrees
    rw [Bool.not_eq_true', Bool.not_eq_false, Schema.agreesIn, h.valueOrNull hc] at hagrees
    refine hfix _ ?_ hagrees
    rw [h.reads d e₀ hd c hc, Option.isSome_some]

theorem read_reference (hc : c ∈ columns) (hrole : c.field.role.isReference = true) :
    c.read (d'.value? c.field.name) = some (c.part e₀) := by
  have hf := (h.mem_fields hc).1
  have hother : c.field.isStamp = false ∧ c.field.role.isDiffed false = false := by
    rw [Field.isStamp]
    cases hr : c.field.role <;> first | exact ⟨rfl, rfl⟩ | (rw [hr] at hrole; cases hrole)
  rw [hd'.value? hf hother.1, Schema.value?_diff hs hf, hother.2, Bool.false_and,
    if_neg Bool.false_ne_true, h.reads d e₀ hd c hc]

theorem isSome_stamp (hc : c ∈ columns) (hstamp : c.field.isStamp = true) :
    (c.read (d'.value? c.field.name)).isSome = true := by
  have hf := (h.mem_fields hc).1
  have hrole : c.field.role.isDiffed false = false := by
    rw [Field.isStamp] at hstamp
    cases hr : c.field.role <;> first | rfl | (rw [hr] at hstamp; cases hstamp)
  rcases hd' c.field hf with heq | ⟨-, v, hgives, heq⟩
  · rw [heq, Schema.value?_diff hs hf, hrole, Bool.false_and, if_neg Bool.false_ne_true,
      h.reads d e₀ hd c hc, Option.isSome_some]
  · rw [heq]
    exact h.given c hc v hgives

/-- **What is read after a difference was written** has the proposed data and the references that
were there, just if the proposed data is kept. -/
theorem ofDocument?_replaced
    (hfix : ∀ c ∈ columns, c.field.role.isDiffed false = true → c.Fixes e) :
    (∃ e', k.ofDocument? d' = some e' ∧
        (∀ c ∈ columns, c.field.role.isDiffed false = true → c.part e' = c.part e) ∧
        ∀ c ∈ columns, c.field.role.isReference = true → c.part e' = c.part e₀) ↔
      ∀ c ∈ columns, c.field.role.isDiffed false = true → c.Keeps e := by
  constructor
  · rintro ⟨e', he', hdata, -⟩ c hc hrole
    rw [Column.Keeps, ← h.read_diffed hs hd hd' hc hrole (hfix c hc hrole), h.reads d' e' he' c hc,
      hdata c hc hrole]
  · intro hkeeps
    have hread : ∀ c ∈ columns, (c.read (d'.value? c.field.name)).isSome = true := by
      intro c hc
      by_cases hdiffed : c.field.role.isDiffed false = true
      · rw [h.read_diffed hs hd hd' hc hdiffed (hfix c hc hdiffed), hkeeps c hc hdiffed,
          Option.isSome_some]
      by_cases hreference : c.field.role.isReference = true
      · rw [h.read_reference hs hd hd' hc hreference, Option.isSome_some]
      · refine h.isSome_stamp hs hd hd' hc ?_
        have hstored := (h.mem_fields hc).2
        rw [Field.isStamp]
        cases hr : c.field.role <;>
          simp_all [FieldRole.isDiffed, FieldRole.isReference]
    have hcopies : ∀ f ∈ k.schema.fields, f.role = .navigation →
        d'.value? f.name = d.value? f.name := by
      intro f hf hrole
      rw [hd'.value? hf (by rw [Field.isStamp, hrole]), Schema.value?_diff hs hf, hrole]
      rfl
    obtain ⟨e', he'⟩ := Option.isSome_iff_exists.mp
      (h.readable d d' (by rw [hd, Option.isSome_some]) hcopies hread)
    refine ⟨e', he', fun c hc hrole => ?_, fun c hc hrole => ?_⟩
    · refine Option.some.inj ((h.reads d' e' he' c hc).symm.trans ?_)
      rw [h.read_diffed hs hd hd' hc hrole (hfix c hc hrole), hkeeps c hc hrole]
    · exact Option.some.inj
        ((h.reads d' e' he' c hc).symm.trans (h.read_reference hs hd hd' hc hrole))

end Replaced

end EntityKind.Tabled

end Registrar
