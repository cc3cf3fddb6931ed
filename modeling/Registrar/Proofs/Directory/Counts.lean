import Registrar.Proofs.Change.Fieldwise
import Registrar.Proofs.Directory.References
import Registrar.Proofs.Engine.Submitted
import Registrar.Proofs.Value.Agreement

/-!
# The count of telephone numbers

A contact is stored with the count of its numbers. The count is computed from the entity that is
submitted, and it is written whenever the numbers are. But a caller can also name the count alone.
Then the stored numbers get the count of the submitted ones; and if an assignment names a place
below the count, an object takes the place of the count. Counts are also wrong for lists that are
longer than a stored integer can tell.

* `Contact.Counted`: the count of a contact is right.
* `Step.Miscounts`: the steps that store a wrong count.
* `counts_right_iff`: every run keeps counts right exactly when it has no such step.
-/

namespace Registrar.Directory

/-- The field for the numbers of a contact. -/
def numbersField : Field :=
  Field.data "numbers" .list [
    Field.data "id" .id [],
    Field.data "number" .string [],
    Field.data "kind" .string []]

/-- The field for their count. -/
def countField : Field := Field.derived "number_of_telephone_numbers" .integer "numbers"

theorem numbersField_mem : numbersField ∈ Contact.schema.fields :=
  .tail _ (.tail _ (.tail _ (.tail _ (.head _))))

theorem countField_mem : countField ∈ Contact.schema.fields :=
  .tail _ (.tail _ (.tail _ (.tail _ (.tail _ (.head _)))))

theorem Contact.schema_lawful : Contact.schema.Lawful := Contact.lawful.schema

/-- A document holds these numbers and this count. -/
structure Contact.Numbered (d : Document) (items : List Value) (count : Int32) : Prop where
  numbers : d.value? numbersField.name = some (.array items)
  count : d.value? countField.name = some (.int32 count)

/-- **The count is right**: it is the length of the list of numbers. -/
def Contact.Counted (d : Document) : Prop :=
  ∃ items count, Contact.Numbered d items count ∧ count.toInt = items.length

/-- **All counts are right.** -/
def CountsRight (s : Store) : Prop :=
  ∀ id d, (id, d) ∈ s.entries "contacts" → Contact.Counted d

namespace Contact

variable {d d' : Document} {items : List Value} {count : Int32}

theorem Numbered.counted_iff (h : Numbered d items count) :
    Counted d ↔ count.toInt = items.length := by
  constructor
  · rintro ⟨items', count', ⟨hnumbers, hcount⟩, heq⟩
    rw [h.numbers] at hnumbers
    rw [h.count] at hcount
    cases hnumbers
    cases hcount
    exact heq
  · exact fun heq => ⟨items, count, h, heq⟩

/-- The number of numbers that are stored. -/
def numbersIn (d : Document) : Nat := ((d.valueOrNull numbersField.name).array?.getD []).length

theorem Numbered.numbersIn (h : Numbered d items count) : numbersIn d = items.length := by
  rw [Contact.numbersIn, Document.valueOrNull, h.numbers]
  rfl

/-! ### The canonical form -/

/-- How many numbers a contact has. -/
def total (e : Contact) : Nat := e.record.numbers.length

/-- **A document that is submitted** holds the numbers and counts them. -/
theorem numbered_toDocument {e e' : Contact} (h : (kind.normalize e).Gives e') :
    ∃ items, items.length = e.total ∧
      Numbered (kind.toDocument e') items (Int32.ofNat e.total) := by
  obtain ⟨numbers, hlength, rfl⟩ := gives_normalize h
  obtain ⟨record, _, _, _, _⟩ := e
  refine ⟨numbers.map (PhoneNumber.toValue .stored), by rw [List.length_map, hlength]; rfl, ?_⟩
  rw [total, ← hlength]
  exact ⟨rfl, rfl⟩

/-! ### What is written -/

variable {properties paths : List String} {existing : Option Document} {patch : Document}

theorem follows_count {names : List String} :
    schema.Follows names countField ↔ schema.Names names numbersField := by
  constructor
  · rintro ⟨source, hsource, hrole⟩
    have hname : numbersField.name = source.name := FieldRole.derived.inj hrole
    rwa [schema_lawful.eq_of_name_eq numbersField_mem hsource.mem.1 hname]
  · exact fun h => ⟨numbersField, h, rfl⟩

theorem plansWhole_numbers :
    schema.PlansWhole properties paths existing numbersField ↔
      schema.Names (schema.plannedNames properties paths) numbersField := by
  rw [Schema.plansWhole_iff schema_lawful numbersField_mem]
  constructor
  · rintro (⟨source, -, hrole⟩ | ⟨h, -⟩)
    · cases hrole
    · exact h
  · exact fun h => .inr ⟨h, .inl rfl⟩

/-- **When the numbers are named**, they are written with their count. -/
theorem numbered_plan (h : schema.Names (schema.plannedNames properties paths) numbersField)
    (hp : Numbered patch items count) (d : Document) :
    Numbered (Document.setAll (schema.plan properties paths patch existing) d) items count := by
  have hcount : schema.PlansWhole properties paths existing countField :=
    .inr (follows_count.mpr h)
  constructor
  · rw [Schema.value?_plan_of_whole schema_lawful numbersField_mem (plansWhole_numbers.mpr h),
      Document.valueOrNull, hp.numbers, Option.getD_some]
  · rw [Schema.value?_plan_of_whole schema_lawful countField_mem hcount, Document.valueOrNull,
      hp.count, Option.getD_some]

variable {items₀ : List Value} {count₀ : Int32}

theorem value?_numbers_plan
    (h : ¬ schema.Names (schema.plannedNames properties paths) numbersField) (d : Document) :
    (Document.setAll (schema.plan properties paths patch existing) d).value? numbersField.name =
      d.value? numbersField.name := by
  refine Schema.value?_plan_of_spared schema_lawful numbersField_mem h ?_ patch d
  rintro ⟨source, -, hrole⟩
  cases hrole

/-- **When the count alone is named**, the numbers stay and get the count of others. -/
theorem numbered_plan_count
    (h : ¬ schema.Names (schema.plannedNames properties paths) numbersField)
    (hw : schema.PlansWhole properties paths existing countField)
    (hp : Numbered patch items count) (hd : Numbered d items₀ count₀) :
    Numbered (Document.setAll (schema.plan properties paths patch existing) d) items₀ count := by
  constructor
  · rw [value?_numbers_plan h, hd.numbers]
  · rw [Schema.value?_plan_of_whole schema_lawful countField_mem hw, Document.valueOrNull, hp.count,
      Option.getD_some]

/-- **When neither is named**, both stay. -/
theorem numbered_plan_spared
    (h : ¬ schema.Names (schema.plannedNames properties paths) numbersField)
    (hc : ¬ schema.Names (schema.plannedNames properties paths) countField)
    (hd : Numbered d items₀ count₀) :
    Numbered (Document.setAll (schema.plan properties paths patch existing) d) items₀ count₀ := by
  constructor
  · rw [value?_numbers_plan h, hd.numbers]
  · rw [Schema.value?_plan_of_spared schema_lawful countField_mem hc (mt follows_count.mp h),
      hd.count]

/-- **When parts of the count are named**, there is no count any more. -/
theorem not_counted_plan
    (h : ¬ schema.PlansWhole properties paths existing countField)
    (hc : schema.Names (schema.plannedNames properties paths) countField) (d : Document) :
    ¬ Counted (Document.setAll (schema.plan properties paths patch existing) d) := by
  rintro ⟨items, count, hd, -⟩
  have hparts := Schema.value?_plan_of_parts schema_lawful (by decide) countField_mem h hc patch d
  rw [hd.count] at hparts
  cases hparts

theorem eq_of_agrees {m n : Int32} (h : (Value.int32 m).agrees (.int32 n) = true) : m = n :=
  Int32.toInt_inj.mp ((Value.agrees_ofInt rfl rfl (Value.natAbs_toInt_lt m)
    (Value.natAbs_toInt_lt n)).mp h)

theorem length_of_agrees {as bs : List Value} (h : (Value.array as).agrees (.array bs) = true) :
    as.length = bs.length := by
  obtain ⟨_, heq, hitems⟩ := Value.agrees_array_iff.mp h
  cases heq
  exact hitems.length_eq

/-- **When a difference is written**, there are as many numbers as were submitted, and their
count. -/
theorem numbered_diff {proposed : Document} (hp : Numbered proposed items count)
    (hd : Numbered d items₀ count₀) (dependencies : Bool) :
    ∃ items', items'.length = items.length ∧
      Numbered (Document.setAll (schema.diff dependencies d proposed) d) items' count := by
  have hnumbers := Schema.value?_diff schema_lawful numbersField_mem dependencies d proposed d
  have hcount := Schema.value?_diff schema_lawful countField_mem dependencies d proposed d
  rw [show numbersField.role.isDiffed dependencies = true from rfl, Bool.true_and] at hnumbers
  rw [show countField.role.isDiffed dependencies = true from rfl, Bool.true_and] at hcount
  have hcount : (Document.setAll (schema.diff dependencies d proposed) d).value? countField.name =
      some (.int32 count) := by
    rw [hcount]
    split
    · rw [Document.valueOrNull, hp.count, Option.getD_some]
    · rename_i hagrees
      rw [Bool.not_eq_true', Bool.not_eq_false, Schema.agreesIn, Document.valueOrNull,
        Document.valueOrNull, hd.count, hp.count] at hagrees
      rw [hd.count, eq_of_agrees hagrees]
  cases hagrees : Schema.agreesIn d proposed numbersField with
  | true =>
    rw [hagrees] at hnumbers
    refine ⟨items₀, ?_, hnumbers.trans hd.numbers, hcount⟩
    rw [Schema.agreesIn, Document.valueOrNull, Document.valueOrNull, hd.numbers, hp.numbers]
      at hagrees
    exact length_of_agrees hagrees
  | false =>
    rw [hagrees, Bool.not_false, if_pos rfl, Document.valueOrNull, hp.numbers,
      Option.getD_some] at hnumbers
    exact ⟨items, rfl, hnumbers, hcount⟩

/-! ### Wrong counts -/

/-- A list of that length gets a wrong count from that many submitted numbers. -/
def Miscounted (submitted left : Nat) : Prop := (Int32.ofNat submitted).toInt ≠ left

/-- **A plan stores a wrong count** in a document, for a contact that is submitted. -/
def PlanMiscounts (properties paths : List String) (existing : Option Document) (e : Contact)
    (d : Document) : Prop :=
  schema.Names (properties ++ paths) numbersField ∧ Miscounted e.total e.total ∨
    ¬ schema.Names (properties ++ paths) numbersField ∧
      schema.Names (properties ++ paths) countField ∧
      (schema.NamesParts (schema.plannedNames properties paths) countField ∧
          Schema.holdsObject existing countField.name = true ∨
        Miscounted e.total (numbersIn d))

theorem counted_plan_iff {e : Contact} (hitems : items.length = e.total)
    (hp : Numbered patch items (Int32.ofNat e.total)) (hd : Counted d) :
    Counted (Document.setAll (schema.plan properties paths patch existing) d) ↔
      ¬ PlanMiscounts properties paths existing e d := by
  obtain ⟨items₀, count₀, hd, heq⟩ := hd
  simp only [PlanMiscounts, ← Schema.names_planned_iff schema_lawful, hd.numbersIn]
  -- The numbers bring their count with them; only without them it matters how the count is named.
  by_cases hN : schema.Names (schema.plannedNames properties paths) numbersField
  · rw [(numbered_plan hN hp d).counted_iff, hitems]
    simp [hN, Miscounted]
  by_cases hC : schema.Names (schema.plannedNames properties paths) countField
  · have hwhole : schema.PlansWhole properties paths existing countField ↔
        ¬ (schema.NamesParts (schema.plannedNames properties paths) countField ∧
          Schema.holdsObject existing countField.name = true) := by
      rw [Schema.plansWhole_iff schema_lawful countField_mem, follows_count]
      simp [hN, hC, show countField.kind.isCollection = false from rfl, imp_iff_or_not]
    by_cases hw : schema.PlansWhole properties paths existing countField
    · rw [(numbered_plan_count hN hw hp hd).counted_iff]
      simp [hN, hC, hwhole.mp hw, Miscounted]
    · simp only [hN, hC, not_counted_plan hw hC d, not_not.mp (mt hwhole.mpr hw)]
      simp
  · rw [(numbered_plan_spared hN hC hd).counted_iff, heq]
    simp [hN, hC]

end Contact

/-- **An operation stores a wrong count.** -/
def Setup.Miscounts (u : Setup) (caller : Caller) (s : Store) : Operation Contact → Prop
  | .add e | .update e _ => Contact.Miscounted e.total e.total
  | .applyDelta delta => ∃ d, (delta.id, d) ∈ s.entries "contacts" ∧
    Contact.PlanMiscounts delta.properties delta.paths (some d) delta.data d
  | .assign bulk => ∃ ids,
    u.contacts.policy.grantedAmong "contacts" caller bulk.ids = .ok ids ∧
      ∃ id d, (id, d) ∈ s.entries "contacts" ∧
        (u.contacts.visibleAmong caller ids).holds d = true ∧
          Contact.PlanMiscounts bulk.properties [] none bulk.template d
  | _ => False

namespace Contact

variable {u : Setup} {caller : Caller} {s t : Store} {d : Document} {op : Operation Contact}

theorem isPlain_numbers : numbersField.IsPlain := trivial

theorem isPlain_count : countField.IsPlain := trivial

theorem counted_congr {d' : Document}
    (hn : d'.value? numbersField.name = d.value? numbersField.name)
    (hc : d'.value? countField.name = d.value? countField.name) : Counted d' ↔ Counted d := by
  constructor
  · rintro ⟨items, count, hd, heq⟩
    exact ⟨items, count, ⟨hn ▸ hd.numbers, hc ▸ hd.count⟩, heq⟩
  · rintro ⟨items, count, hd, heq⟩
    exact ⟨items, count, ⟨hn ▸ hd.numbers, hc ▸ hd.count⟩, heq⟩

theorem counted_stamped (changes : Changes) (now : Int64) (d : Document) :
    Counted ((u.contacts.withVersion
      { sets := changes ++ u.contacts.stampsAt caller now }).apply d) ↔
      Counted (Document.setAll changes d) :=
  counted_congr
    (Collection.value?_stamped (c := u.contacts) schema_lawful numbersField_mem
      isPlain_numbers.ne_stamp changes now d)
    (Collection.value?_stamped (c := u.contacts) schema_lawful countField_mem
      isPlain_count.ne_stamp changes now d)

theorem counted_references {changes : Changes}
    (h : ∀ p ∈ changes, ∃ r ∈ schema.relations, p.1 = r.idField) (d : Document) :
    Counted (Document.setAll changes d) ↔ Counted d := by
  have hother : ∀ {g : Field}, g ∈ schema.fields → g.IsPlain →
      (Document.setAll changes d).value? g.name = d.value? g.name := fun {g} hg hplain =>
    Document.value?_setAll_of_ne (fun p hp => by
      obtain ⟨r, hr, hname⟩ := h p hp
      obtain ⟨f, hf, -, hfield⟩ := schema_lawful.references r hr
      rw [hname, ← hfield, Schema.headSegment_name schema_lawful hf, hfield]
      exact hplain.ne_reference schema_lawful hg r hr) d
  exact counted_congr (hother numbersField_mem isPlain_numbers)
    (hother countField_mem isPlain_count)

theorem numbered_submitted {e e' : Contact} (h : (kind.normalize e).Gives e') (prune : Bool)
    (only : Option (List String)) :
    ∃ items, items.length = e.total ∧
      Numbered (u.contacts.submitted s prune only (kind.toDocument e')) items
        (Int32.ofNat e.total) := by
  obtain ⟨items, hlength, hnumbered⟩ := numbered_toDocument h
  have hsame : ∀ {g : Field}, g ∈ schema.fields → g.IsPlain →
      (u.contacts.submitted s prune only (kind.toDocument e')).value? g.name =
        (kind.toDocument e').value? g.name := fun hg hplain =>
    Collection.value?_submitted (c := u.contacts) (hplain.ne_reference schema_lawful hg) _ _ _
  exact ⟨items, hlength, (hsame numbersField_mem isPlain_numbers).trans hnumbered.numbers,
    (hsame countField_mem isPlain_count).trans hnumbered.count⟩

theorem total_withId (id : Uuid) (e : Contact) : (kind.withId id e).total = e.total := by
  obtain ⟨record, _, _, _, _⟩ := e
  rfl

/-- **A new contact** has its numbers counted. -/
theorem counted_new {e e' : Contact} (h : u.contacts.Prepares e e') (now : Int64) :
    Counted (u.contacts.stampedNewAt caller now (u.contacts.newDocument s e')) ↔
      ¬ Miscounted e.total e.total := by
  obtain ⟨e₁, he₁, he'⟩ := h
  obtain ⟨items, hlength, hnumbered⟩ := numbered_toDocument he₁
  have hnumbered : Numbered (kind.toDocument e') items (Int32.ofNat e.total) := by
    split at he'
    · obtain ⟨id, rfl⟩ := he'
      obtain ⟨record, _, _, _, _⟩ := e₁
      exact ⟨hnumbered.numbers, hnumbered.count⟩
    · exact he' ▸ hnumbered
  have hnew : Numbered (u.contacts.stampedNewAt caller now (u.contacts.newDocument s e')) items
      (Int32.ofNat e.total) :=
    ⟨(Collection.value?_newDocument (c := u.contacts) schema_lawful numbersField_mem
        isPlain_numbers now e').trans hnumbered.numbers,
      (Collection.value?_newDocument (c := u.contacts) schema_lawful countField_mem
        isPlain_count now e').trans hnumbered.count⟩
  rw [hnew.counted_iff, hlength, Miscounted, not_not]

/-- **A document that is written for a proposal** is counted unless the operation miscounts. -/
theorem counted_proposed {id : Uuid} {changes : Changes} (hk : s.Keyed)
    (stored : (id, d) ∈ s.entries "contacts") (hd : Counted d)
    (h : u.contacts.Proposes s op id d changes) :
    Counted (Document.setAll changes d) ↔ ¬ u.Miscounts caller s op := by
  have hreference : ∀ {r : Relation} {name : String} {v : Value},
      schema.relation? name = some r → Counted (Document.setAll [(r.idField, v)] d) := by
    intro r name v hr
    refine (counted_references (fun p hp => ?_) d).mpr hd
    exact ⟨r, List.mem_of_find?_eq_some hr, by rw [List.mem_singleton.mp hp]⟩
  cases h with
  | @update e e' asked dependencies d changes normal hdependencies hchanges free =>
    obtain ⟨items, hlength, hnumbered⟩ := numbered_submitted (u := u) (s := s) normal
      (dependencies && u.settings.lookupOnUpdate) none
    obtain ⟨items₀, count₀, hd, heq⟩ := hd
    obtain ⟨items', hlength', hafter⟩ := numbered_diff hnumbered hd dependencies
    rw [hchanges]
    refine (hafter.counted_iff).trans ?_
    rw [hlength', hlength, Setup.Miscounts, Miscounted, not_not]
  | @applyDelta delta e' d changes normal hchanges free =>
    obtain ⟨items, hlength, hnumbered⟩ := numbered_submitted (u := u) (s := s) normal
      (u.contacts.touchesRelation delta.roots && u.settings.lookupOnUpdate) (some delta.roots)
    have htotal : (u.contacts.kind.withId delta.id delta.data).total = delta.data.total :=
      total_withId delta.id delta.data
    rw [htotal] at hlength hnumbered
    rw [hchanges]
    refine (counted_plan_iff hlength hnumbered hd).trans (not_congr ?_)
    constructor
    · exact fun hmis => ⟨d, stored, hmis⟩
    · rintro ⟨d', hd', hmis⟩
      rwa [Entries.eq_of_mem (hk "contacts").nodup hd' stored] at hmis
  | link hr | unlink hr | refer hr | clear hr =>
    exact iff_of_true (hreference hr) fun h => h

/-- **A document that is assigned to** is counted unless the plan miscounts. -/
theorem counted_assigned {bulk : Assignment Contact} {e' : Contact}
    (normal : (kind.normalize bulk.template).Gives e') (hd : Counted d) :
    Counted (Document.setAll (schema.plan bulk.properties []
      (u.contacts.patchOf s bulk.properties e') none) d) ↔
      ¬ PlanMiscounts bulk.properties [] none bulk.template d := by
  obtain ⟨items, hlength, hnumbered⟩ := numbered_submitted (u := u) (s := s) normal
    (u.contacts.touchesRelation bulk.properties && u.settings.lookupOnUpdate)
    (some bulk.properties)
  exact counted_plan_iff hlength hnumbered hd

end Contact

open Collection

variable {u : Setup} {caller : Caller} {s t : Store} {op : Operation Contact}

/-- **Counts stay right** unless an operation miscounts. -/
theorem countsRight_of_effect (hk : s.Keyed) (hs : CountsRight s)
    (h : u.contacts.Effect caller s op t) (hnot : ¬ u.Miscounts caller s op) : CountsRight t := by
  refine h.forall_entries hk hs ?_ ?_ ?_ ?_
  · rintro e e' now rfl prepares
    exact (Contact.counted_new prepares now).mpr hnot
  · intro id d changes now stored hd proposes
    exact (Contact.counted_stamped _ _ _).mpr
      ((Contact.counted_proposed hk stored hd proposes).mpr hnot)
  · intro d changes hd short
    have hreferences : ∀ p ∈ changes, ∃ r ∈ Contact.schema.relations, p.1 = r.idField := by
      intro p hp
      obtain ⟨r, hr, hname, -⟩ := short p hp
      exact ⟨r, hr, hname⟩
    refine (Contact.counted_congr ?_ ?_).mpr ((Contact.counted_references hreferences d).mpr hd)
    · exact value?_versioned (c := u.contacts) Contact.schema_lawful numbersField_mem nofun _ _
    · exact value?_versioned (c := u.contacts) Contact.schema_lawful countField_mem nofun _ _
  · rintro bulk ids e' changes now id d rfl granted normal rfl stored hmeant hd
    refine (Contact.counted_stamped _ _ _).mpr ((Contact.counted_assigned normal hd).mpr ?_)
    exact fun hmis => hnot ⟨ids, granted, id, d, stored, hmeant, hmis⟩

/-- **After an operation that miscounts** and writes anything, a count is wrong. -/
theorem not_countsRight_of_effect (hk : s.Keyed) (hs : CountsRight s)
    (h : u.contacts.Effect caller s op t) (hmis : u.Miscounts caller s op)
    (hne : t.entries "contacts" ≠ s.entries "contacts") : ¬ CountsRight t := by
  intro ht
  cases h with
  | idle => exact hne rfl
  | added prepares free inserts =>
    have hin := ht _ _ ((mem_inserted (c := u.contacts) inserts).mpr (.inl rfl))
    exact (Contact.counted_new prepares _).mp hin hmis
  | updated stored proposes =>
    have hin := ht _ _ (written_of_ne (c := u.contacts) hk stored hne)
    exact (Contact.counted_proposed hk stored (hs _ _ stored) proposes).mp
      ((Contact.counted_stamped _ _ _).mp hin) hmis
  | pruned => exact hmis
  | @assigned bulk ids e' now changes granted normal hchanges unshared =>
    obtain ⟨ids', hgranted, k, d, hd, hmeant, hplan⟩ := hmis
    obtain rfl : ids = ids' := by simpa using granted.symm.trans hgranted
    have hin := ht _ _ (assigned_mem (c := u.contacts) hd hmeant _)
    rw [hchanges] at hin
    exact (Contact.counted_assigned normal (hs _ _ hd)).mp
      ((Contact.counted_stamped _ _ _).mp hin) hplan
  | deleted id => exact hmis
  | deletedListed granted => exact hmis

/-! ### Steps -/

/-- **A step stores a wrong count.** -/
def Step.Miscounts (x : Step) : Prop :=
  (match x.call with
    | .contact op => x.setup.Miscounts x.caller x.before op
    | _ => False) ∧
  x.after.entries "contacts" ≠ x.before.entries "contacts"

/-- **A step keeps counts right** just if it does not store a wrong one. -/
theorem Step.countsRight_iff {x : Step} (h : x.Happens) (hk : x.before.Keyed)
    (hs : CountsRight x.before) : CountsRight x.after ↔ ¬ x.Miscounts := by
  -- A step that writes nothing here stores no wrong count, whatever it asks for.
  by_cases hne : x.after.entries "contacts" = x.before.entries "contacts"
  · refine iff_of_true ?_ fun hmis => hmis.2 hne
    rw [CountsRight, hne]
    exact hs
  · unfold Miscounts
    unfold Happens at h
    split at h
    · exact absurd (h.entries Book.lawful books_ne_contacts.symm) hne
    · exact absurd (h.entries Category.lawful categories_ne_contacts.symm) hne
    · rename_i op hcall
      have heffect := h.effect (c := x.setup.contacts) Contact.lawful Contact.linked hk
      rw [hcall]
      exact ⟨fun hright hmis => not_countsRight_of_effect hk hs heffect hmis.1 hmis.2 hright,
        fun hnot => countsRight_of_effect hk hs heffect fun hmis => hnot ⟨hmis, hne⟩⟩

/-- **A run from the empty store keeps counts right exactly when no step stores a wrong one.** -/
theorem counts_right_iff {xs : List Step} (hrun : Run .empty xs) :
    (∀ x ∈ xs, CountsRight x.after) ↔ ∀ x ∈ xs, ¬ x.Miscounts := by
  refine hrun.holds_iff (J := fun s => s.Keyed ∧ CountsRight s) ⟨empty_keyed, ?_⟩
    (fun x happens hx => x.countsRight_iff happens hx.1 hx.2) fun x happens hx hnot =>
      ⟨Step.keyed happens hx.1, (x.countsRight_iff happens hx.1 hx.2).mpr hnot⟩
  exact fun _ _ hd => absurd hd List.not_mem_nil

/-! ### A count without its numbers -/

/-- A contact with a number is added, and a delta names the count alone. -/
def recount : List Call :=
  [.contact (.add (.ofRecord (ContactRecord.addNumber
    { ContactRecord.ofName "Ann" "Aebi" with id := .ofByte 1 } "123" .office))),
   .contact (.applyDelta {
     id := .ofByte 1
     properties := ["number_of_telephone_numbers"]
     data := .ofRecord (ContactRecord.ofName "Ann" "Aebi") })]

def recountSteps : List Step := performed {} {} .fresh recount

def countsOf (es : Entries) : List (Option Int) :=
  es.map fun e => ((Document.value? e.2 countField.name).bind Reading.int32).map Int32.toInt

/-- The contact has one number and the count of none in the end. -/
theorem recount_miscounts : ¬ ∀ x ∈ recountSteps, CountsRight x.after := by
  have hmis : (recountSteps.getLast (by decide)).Miscounts := by
    obtain ⟨⟨k, d⟩, hd, rfl, hone⟩ : ∃ e ∈ (recountSteps.getLast (by decide)).before.entries
        "contacts", e.1 = .ofByte 1 ∧ Contact.numbersIn e.2 = 1 := by decide +kernel
    refine ⟨⟨d, hd, .inr ⟨?_, ⟨_, .head _, rfl⟩, .inr ?_⟩⟩, fun heq => ?_⟩
    · rintro ⟨name, hname, hreach⟩
      obtain rfl := List.mem_singleton.mp hname
      exact absurd (congrArg (Option.map Field.name) hreach) (by decide +kernel)
    · rw [hone]
      unfold Contact.Miscounted
      decide
    · exact absurd (congrArg countsOf heq) (by decide +kernel)
  have hrun : Run .empty recountSteps := run_performed {} {} (x := .fresh) rfl recount
  exact fun hright => (counts_right_iff hrun).mp hright _ (List.getLast_mem _) hmis

end Registrar.Directory
