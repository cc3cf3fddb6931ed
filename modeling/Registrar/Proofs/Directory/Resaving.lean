import Registrar.Proofs.Directory.Counts
import Registrar.Proofs.Directory.Identity
import Registrar.Proofs.Directory.Replacing
import Registrar.Proofs.Engine.Resaving
import Registrar.Proofs.Store.Names

/-!
# Saving an unmodified copy

As long as entities are saved as a whole, what is stored of them is canonical: names without blanks
around them, numbers with ids, and their count. So whoever reads an entity and saves it again
changes nothing. There is one exception: attributes that spell a decimal number are stored as this
number, and read as its bytes; these do not spell it again, so they are written in its place.

* `Kind.Normal`: entities in their canonical form.
* `Kind.Saved`: documents of entities that were saved as a whole.
* `Kind.savedAs`: what saving gives to all documents.
* `resaved_iff`: **when saving an unmodified copy changes nothing**.
-/

namespace Registrar.Directory

/-! ### The canonical form -/

/-- **A record in its canonical form.** -/
structure ContactRecord.Normal (r : ContactRecord) : Prop where
  firstName : Text.trim r.firstName = r.firstName
  lastName : Text.trim r.lastName = r.lastName
  numbers : ∀ n ∈ r.numbers, n.id ≠ .nil
  count : r.numberCount = Int32.ofNat r.numbers.length
  attributes : r.attributes.Sorted

namespace ContactRecord

variable {D : Uuid → Prop} {r : ContactRecord}

theorem ensures_assignIds (hD : ¬ D .nil) (numbers : List PhoneNumber) :
    (assignIds numbers).Ensures D fun numbers' => ∀ n ∈ numbers', n.id ≠ .nil := by
  induction numbers with
  | nil => exact fun n hn => absurd hn List.not_mem_nil
  | cons n rest ih =>
    have hnext : ∀ {x : Draws Uuid}, x.Ensures D (· ≠ .nil) →
        (x >>= fun id => assignIds rest >>= fun rest' => pure ({ n with id } :: rest')).Ensures D
          fun numbers' => ∀ n ∈ numbers', n.id ≠ .nil := fun hx =>
      hx.bind fun id hid => ih.bind fun rest' hrest => List.forall_mem_cons.mpr ⟨hid, hrest⟩
    rw [assignIds]
    split
    · refine hnext fun id hid heq => hD ?_
      rwa [← heq]
    · rename_i hassigned
      exact hnext fun heq => hassigned (beq_iff_eq.mpr heq)

theorem assignIds_eq {numbers : List PhoneNumber} (h : ∀ n ∈ numbers, n.id ≠ .nil) :
    assignIds numbers = .done numbers := by
  induction numbers with
  | nil => rfl
  | cons n rest ih =>
    obtain ⟨hid, hrest⟩ := List.forall_mem_cons.mp h
    have hassigned : ¬ n.id.isNil = true := fun hnil => hid (beq_iff_eq.mp hnil)
    rw [assignIds, if_neg hassigned, ih hrest]
    rfl

/-- **Bringing a record into its canonical form**, if nil is never drawn. -/
theorem ensures_normalize (hD : ¬ D .nil) (h : r.attributes.Sorted) :
    r.normalize.Ensures D Normal :=
  (ensures_assignIds hD r.numbers).bind fun _ hnumbers =>
    ⟨Text.trim_trim _, Text.trim_trim _, hnumbers, rfl, h⟩

theorem Normal.normalize_eq (h : r.Normal) : r.normalize = .done r := by
  rw [normalize, assignIds_eq h.numbers]
  change Draws.done { r with
    firstName := Text.trim r.firstName
    lastName := Text.trim r.lastName
    numberCount := Int32.ofNat r.numbers.length } = _
  rw [h.firstName, h.lastName, ← h.count]

end ContactRecord

namespace Kind

/-- **Entities in their canonical form.** -/
def Normal : (i : Kind) → i.Entity → Prop
  | book, e => Text.trim e.name = e.name
  | category, e => Text.trim e.name = e.name
  | contact, e => e.record.Normal

theorem ensures_normalize {D : Uuid → Prop} (hD : ¬ D .nil) {i : Kind} {e : i.Entity}
    (h : (i.attributes e).Sorted) : (i.kind.normalize e).Ensures D i.Normal := by
  cases i with
  | book => exact Text.trim_trim _
  | category => exact Text.trim_trim _
  | contact =>
    obtain ⟨record, _, _, _, _⟩ := e
    exact (ContactRecord.ensures_normalize hD h).bind fun _ hnormal => hnormal

theorem normalize_eq {i : Kind} {e : i.Entity} (h : i.Normal e) :
    i.kind.normalize e = .done e := by
  cases i with
  | book => exact congrArg (fun name => Draws.done { e with name }) h
  | category => exact congrArg (fun name => Draws.done { e with name }) h
  | contact =>
    obtain ⟨record, _, _, _, _⟩ := e
    have hrecord : record.normalize = .done record := ContactRecord.Normal.normalize_eq h
    change record.normalize >>= _ = _
    rw [hrecord]
    rfl

theorem normal_withId {i : Kind} (id : Uuid) {e : i.Entity} (h : i.Normal e) :
    i.Normal (i.kind.withId id e) := by
  cases i with
  | book => exact h
  | category => exact h
  | contact =>
    obtain ⟨record, _, _, _, _⟩ := e
    exact ⟨h.firstName, h.lastName, h.numbers, h.count, h.attributes⟩

/-! ### Documents that were saved -/

/-- The numbers of a contact are counted. -/
def Counted : Kind → Document → Prop
  | book, _ | category, _ => True
  | contact, d => ∃ items, Contact.Numbered d items (Int32.ofNat items.length)

/-- **Documents of entities that were saved as a whole.** -/
structure Saved (i : Kind) (d : Document) : Prop where
  written : WrittenFor i.columns i.Normal d
  counted : i.Counted d

theorem numbered_regives {d d' : Document} {items : List Value} {count : Int32}
    (h : Contact.schema.Regives d d') (hd : Contact.Numbered d items count) :
    Contact.Numbered d' items count where
  numbers := (h.value?_of_diffed numbersField_mem rfl).trans hd.numbers
  count := (h.value?_of_diffed countField_mem rfl).trans hd.count

theorem numbered_normal {e : Contact} (h : Normal contact e) :
    ∃ items, Contact.Numbered (Contact.kind.toDocument e) items (Int32.ofNat items.length) := by
  refine ⟨e.record.numbers.map (PhoneNumber.toValue .stored), rfl, ?_⟩
  rw [List.length_map, ← ContactRecord.Normal.count h]
  rfl

/-- **What saving gives to all documents.** -/
theorem savedAs (i : Kind) {D : Uuid → Prop} (hD : ¬ D .nil) :
    i.kind.SavedAs D (fun e => (i.attributes e).Sorted) i.Normal i.Saved where
  bare e := (i.isKind.shaped e).bare
  normal _ := ensures_normalize hD
  withId id _ := normal_withId id
  new e he := by
    refine ⟨i.tabled.writtenFor_toDocument he, ?_⟩
    cases i with
    | book => trivial
    | category => trivial
    | contact => exact numbered_normal he
  regives d d' hgiven hd := by
    refine ⟨i.tabled.writtenFor_regives hgiven hd.written, ?_⟩
    cases i with
    | book => trivial
    | category => trivial
    | contact => exact hd.counted.imp fun _ => numbered_regives hgiven
  diff e dependencies patch d he hpatch hd := by
    refine ⟨i.tabled.writtenFor_diff i.isKind.lawful.schema he hpatch hd.written dependencies, ?_⟩
    cases i with
    | book => trivial
    | category => trivial
    | contact =>
      obtain ⟨items, hnumbered⟩ := numbered_normal he
      obtain ⟨items₀, hcounted⟩ := hd.counted
      obtain ⟨items', hlength, hafter⟩ := Contact.numbered_diff
        (numbered_regives hpatch hnumbered) hcounted dependencies
      exact ⟨items', hlength ▸ hafter⟩

/-! ### What is read of them -/

theorem keeps (i : Kind) (e : i.Entity) :
    ∀ c ∈ i.columns, c.field.role.isDiffed false = true → c.field.kind ≠ .map → c.Keeps e := by
  cases i with
  | book => exact fun c hc hrole _ => Book.keeps e c hc hrole
  | category => exact fun c hc hrole _ => Category.keeps e c hc hrole
  | contact => exact Contact.keeps e

variable {i : Kind} {d : Document} {e₀ : i.Entity}

end Kind

/-! ### Values that agree with themselves -/

theorem agrees_self_string (s : String) : (Value.string s).agrees (.string s) = true :=
  Value.agrees_self rfl rfl rfl

theorem agrees_self_optionalString (s : Option String) :
    (optionalString s).agrees (optionalString s) = true := by
  cases s <;> exact Value.agrees_self rfl rfl rfl

theorem agrees_self_int32 (n : Int32) : (Value.int32 n).agrees (.int32 n) = true :=
  (Value.agrees_ofInt rfl rfl (Value.natAbs_toInt_lt n) (Value.natAbs_toInt_lt n)).mpr rfl

theorem CategoryDisplay.agrees_self (s : CategoryDisplay) :
    s.toValue.agrees s.toValue = true := by
  refine Value.agrees_self_document (by simp [Document.keys]) ?_
  simp only [List.forall_mem_cons, List.not_mem_nil, false_implies, implies_true, and_true]
  exact ⟨agrees_self_int32 s.priority, agrees_self_optionalString s.color⟩

theorem PhoneNumber.agrees_self (n : PhoneNumber) :
    (n.toValue .stored).agrees (n.toValue .stored) = true := by
  refine Value.agrees_self_document (by simp [Document.keys]) ?_
  simp only [List.forall_mem_cons, List.not_mem_nil, false_implies, implies_true, and_true]
  exact ⟨Value.agrees_self rfl rfl rfl, agrees_self_string n.number, agrees_self_string n.type.name⟩

namespace Kind

theorem ne_map_of_book : ∀ c ∈ Book.columns, c.field.kind ≠ .map := by decide

theorem ne_map_of_category : ∀ c ∈ Category.columns, c.field.kind ≠ .map := by decide

theorem agrees_self (i : Kind) (e : i.Entity) :
    ∀ c ∈ i.columns, c.field.role.isDiffed false = true → c.field.kind ≠ .map →
      (c.write (c.part e)).agrees (c.write (c.part e)) = true := by
  cases i with
  | book =>
    simp +decide only [columns, Book.columns, List.forall_mem_cons, List.not_mem_nil,
      false_implies, implies_true, and_true, true_and, forall_const]
    exact ⟨agrees_self_string e.name, agrees_self_optionalString e.description⟩
  | category =>
    simp +decide only [columns, Category.columns, List.forall_mem_cons, List.not_mem_nil,
      false_implies, implies_true, and_true, true_and, forall_const]
    refine ⟨agrees_self_string e.name, agrees_self_optionalString e.description, ?_⟩
    change ((e.settings.map CategoryDisplay.toValue).getD .null).agrees
      ((e.settings.map CategoryDisplay.toValue).getD .null) = true
    cases e.settings with
    | none => exact Value.agrees_self rfl rfl rfl
    | some s => exact s.agrees_self
  | contact =>
    simp +decide only [columns, Contact.columns, List.forall_mem_cons, List.not_mem_nil,
      false_implies, implies_true, and_true, true_and, forall_const]
    refine ⟨agrees_self_string e.record.firstName, agrees_self_string e.record.lastName,
      agrees_self_optionalString e.record.location, ?_, agrees_self_int32 e.record.numberCount⟩
    refine Value.agrees_array_iff.mpr ⟨_, rfl, List.forall₂_same.mpr fun v hv => ?_⟩
    obtain ⟨n, -, rfl⟩ := List.mem_map.mp hv
    exact n.agrees_self

/-! ### What is read of them -/

variable {i : Kind} {d : Document} {e₀ : i.Entity}

/-- **What is read** was written for a canonical entity. -/
theorem part_of_saved (hd : i.Saved d) (hread : i.kind.ofDocument? d = some e₀)
    {c : Column i.Entity} (hc : c ∈ i.columns) (hrole : c.field.role.isDiffed false = true)
    (hmap : c.field.kind ≠ .map) :
    ∃ e, i.Normal e ∧ c.part e₀ = c.part e ∧ d.value? c.field.name = some (c.write (c.part e)) := by
  obtain ⟨e, he, hvalue⟩ := hd.written c hc hrole
  exact ⟨e, he, i.tabled.part_eq hread hc hvalue (i.keeps e c hc hrole hmap), hvalue⟩

/-- **A contact that is read** has its numbers with ids, and counted. -/
theorem numbers_of_saved {e₀ : Contact} (hd : Saved contact d)
    (hread : Contact.kind.ofDocument? d = some e₀) :
    (∀ n ∈ e₀.record.numbers, n.id ≠ .nil) ∧
      e₀.record.numberCount = Int32.ofNat e₀.record.numbers.length := by
  obtain ⟨e, he, hnumbers, hvalue⟩ : ∃ e : Contact, e.record.Normal ∧
      e₀.record.numbers = e.record.numbers ∧ d.value? numbersField.name =
        some (.array (e.record.numbers.map (PhoneNumber.toValue .stored))) :=
    part_of_saved hd hread (List.mem_of_getElem? (i := 4) rfl) rfl nofun
  have hcounted : Reading.ofOptional 0 Reading.int32 (d.value? countField.name) =
      some e₀.record.numberCount :=
    Contact.tabled.reads d e₀ hread _ (List.mem_of_getElem? (i := 5) rfl)
  obtain ⟨items, hitems, hcount⟩ := hd.counted
  obtain rfl := Value.array.inj (Option.some.inj (hitems.symm.trans hvalue))
  rw [hcount] at hcounted
  have hsame := (Reading.read_int32 _).symm.trans hcounted
  refine ⟨hnumbers ▸ he.numbers, ?_⟩
  rw [← Option.some.inj hsame, List.length_map, hnumbers]

/-- **The attributes that are read** of those that were stored. -/
theorem attributes_of_saved {e₀ : Contact} (hd : Saved contact d)
    (hread : Contact.kind.ofDocument? d = some e₀) :
    ∃ as : Attributes, as.Sorted ∧
      d.value? Contact.attributesField.name = some (as.toValue .stored) ∧
        Attributes.read? (as.toValue .stored) = some e₀.record.attributes := by
  obtain ⟨e, he, hvalue⟩ := hd.written _ Contact.attributesColumn_mem rfl
  have hattributes := Contact.tabled.reads d e₀ hread _ Contact.attributesColumn_mem
  rw [hvalue] at hattributes
  exact ⟨e.record.attributes, ContactRecord.Normal.attributes he, hvalue, hattributes⟩

/-- **What is read is canonical.** -/
theorem normal_of_saved (hd : i.Saved d) (hread : i.kind.ofDocument? d = some e₀) :
    i.Normal e₀ := by
  have hname : ∀ {c : Column i.Entity} (name : i.Entity → String), c ∈ i.columns →
      c.field.role.isDiffed false = true → c.field.kind ≠ .map →
      (∀ e, c.part e₀ = c.part e → name e₀ = name e) →
      (∀ e, i.Normal e → Text.trim (name e) = name e) → Text.trim (name e₀) = name e₀ := by
    intro c name hc hrole hmap hpart htrim
    obtain ⟨e, he, heq, -⟩ := part_of_saved hd hread hc hrole hmap
    rw [hpart e heq]
    exact htrim e he
  cases i with
  | book =>
    exact hname Book.name (List.mem_of_getElem? (i := 1) rfl) rfl nofun (fun _ h => h) fun _ h => h
  | category =>
    exact hname Category.name (List.mem_of_getElem? (i := 1) rfl) rfl nofun (fun _ h => h)
      fun _ h => h
  | contact =>
    obtain ⟨hnumbers, hcount⟩ := numbers_of_saved hd hread
    obtain ⟨as, -, -, hattributes⟩ := attributes_of_saved hd hread
    refine ⟨?_, ?_, hnumbers, hcount, Attributes.sorted_of_read hattributes⟩
    · exact hname (fun e : Contact => e.record.firstName) (List.mem_of_getElem? (i := 1) rfl) rfl
        nofun (fun _ h => h) fun _ h => h.firstName
    · exact hname (fun e : Contact => e.record.lastName) (List.mem_of_getElem? (i := 2) rfl) rfl
        nofun (fun _ h => h) fun _ h => h.lastName

/-- **When a stored column agrees with what is read of it**: always, but if it is a decimal number
in the place of attributes. -/
theorem agrees_iff (hd : i.Saved d) (hread : i.kind.ofDocument? d = some e₀)
    {c : Column i.Entity} (hc : c ∈ i.columns) (hrole : c.field.role.isDiffed false = true) :
    (d.valueOrNull c.field.name).agrees (c.write (c.part e₀)) = true ↔
      (c.field.kind = .map → ∀ bytes, d.value? c.field.name ≠ some (.decimal128 bytes)) := by
  by_cases hmap : c.field.kind = .map
  · cases i with
    | book => exact absurd hmap (ne_map_of_book c hc)
    | category => exact absurd hmap (ne_map_of_category c hc)
    | contact =>
      obtain rfl := Contact.eq_attributesColumn c hc hmap
      obtain ⟨as, hsorted, hvalue, hattributes⟩ := attributes_of_saved hd hread
      have hvalue : d.value? Contact.attributesColumn.field.name = some (as.toValue .stored) :=
        hvalue
      rw [Document.valueOrNull, hvalue, Option.getD_some]
      refine (Attributes.restored_iff hsorted hattributes).trans ?_
      simp [hmap]
  · obtain ⟨e, -, hpart, hvalue⟩ := part_of_saved hd hread hc hrole hmap
    rw [Document.valueOrNull, hvalue, Option.getD_some, hpart]
    exact iff_of_true (i.agrees_self e c hc hrole hmap) fun h => absurd h hmap

theorem diffed_of_map (i : Kind) :
    ∀ f ∈ i.kind.schema.fields, f.kind = .map → f.role.isDiffed false = true := by
  cases i <;> decide

theorem id_of_read {id : Uuid} (hid : d.value? "id" = some (Value.ofUuid id))
    (hread : i.kind.ofDocument? d = some e₀) : i.kind.id e₀ = id := by
  have hpart : Reading.ofRequired Form.stored.id (d.value? "id") = some (i.kind.id e₀) := by
    cases i <;> exact (tabled _).reads d e₀ hread _ List.mem_cons_self
  rw [hid] at hpart
  exact Option.some.inj (hpart.symm.trans (Form.id_ofUuid_stored id))

end Kind

/-! ### Steps that save whole entities -/

/-- **The call saves whole entities**, with their attributes in order, and writes no parts. -/
def Call.Saves : Call → Prop
  | .book op => op.Saves fun e => (Kind.book.attributes e).Sorted
  | .category op => op.Saves fun e => (Kind.category.attributes e).Sorted
  | .contact op => op.Saves fun e => (Kind.contact.attributes e).Sorted

/-- **All documents were saved as a whole.** -/
def AllSaved (s : Store) : Prop :=
  ∀ (i : Kind) id d, (id, d) ∈ s.entries i.kind.collection → i.Saved d

/-- **A step keeps all documents saved as a whole**, if it saves whole entities and nil is never
drawn. -/
theorem Step.allSaved {w : Surroundings} (hw : ¬ w.draws .nil) {x : Step} (h : x.HappensIn w)
    (hsaves : x.call.Saves) (hk : x.before.Keyed) (hall : AllSaved x.before) :
    AllSaved x.after := by
  have hkind : ∀ (j : Kind) (op : Operation j.Entity),
      op.Saves (fun e => (j.attributes e).Sorted) →
      (x.setup.collection j.kind).LeavesIn w x.caller op x.before x.after →
        AllSaved x.after := by
    rintro j op hop ⟨r, hruns⟩ i id d hd
    by_cases hname : i.kind.collection = j.kind.collection
    · obtain rfl : i = j := by
        cases i <;> cases j <;> first | rfl | exact absurd hname (by decide)
      exact Collection.forall_saved (c := x.setup.collection i.kind) (i.savedAs hw)
        i.isKind.lawful.schema i.isKind.linked hk hop (hall i) hruns id d hd
    · rw [Collection.entries_program (c := x.setup.collection j.kind) j.isKind.lawful hruns
        hname] at hd
      exact hall i id d hd
  obtain ⟨u, caller, call, s, t⟩ := x
  cases call with
  | book op => exact hkind .book op hsaves h
  | category op => exact hkind .category op hsaves h
  | contact op => exact hkind .contact op hsaves h

/-- **When saving an unmodified copy changes nothing**, after steps that save whole entities. Who
reads an entity and saves it again, undisturbed, changes nothing and requests no write: always, if
no attributes are stored as a decimal number, and only then. -/
theorem resaved_iff {w : Surroundings} (hw : ¬ w.draws .nil) {xs : List Step}
    (hrun : Run .empty xs) (hsteps : ∀ x ∈ xs, x.HappensIn w ∧ x.call.Saves) {x : Step}
    (hx : x ∈ xs) (i : Kind) (u : Setup) (caller : Caller) {id : Uuid} {d : Document}
    (hd : (id, d) ∈ x.after.entries i.kind.collection) {w' : Surroundings}
    {report : ReadReport i.Entity} {t : Store}
    (hread : ((u.collection i.kind).get caller id false).run.Runs w' x.after (.ok report) t)
    {asked : Option Bool} (hasked : asked.getD u.settings.includeDependencyFields = false) :
    (∀ l r t, ((u.collection i.kind).update caller report.entity asked).run.Exchanges .calm x.after
        l r t → r = .ok ⟨id, []⟩ ∧ t = x.after ∧ ∀ y ∈ l, y.1.isQuiet = true) ↔
      ∀ f ∈ i.kind.schema.fields, f.kind = .map →
        ∀ bytes, d.value? f.name ≠ some (.decimal128 bytes) := by
  obtain ⟨-, -, hkeyed, hall⟩ := hrun.invariant (I := fun s => s.Keyed ∧ AllSaved s)
    ⟨empty_keyed, fun _ _ _ hd => absurd hd List.not_mem_nil⟩
    (fun y hy happens hbefore => ⟨Step.keyed happens hbefore.1,
      y.allSaved hw (hsteps y hy).1 (hsteps y hy).2 hbefore.1 hbefore.2⟩) x hx
  have hlawful : i.kind.Lawful := i.isKind.lawful
  obtain ⟨-, -, d', hseen, hentity⟩ := Collection.ok_get (c := u.collection i.kind) hread
  obtain rfl : d' = d := by
    obtain ⟨k, hstored⟩ := Entries.mem_documents.mp hseen.stored
    obtain rfl := (Filter.hasId_holds ((hkeyed _).id _ hstored) _).mp hseen.found
    exact Entries.eq_of_mem (hkeyed _).nodup hstored hd
  have hsaved : i.Saved d' := hall i id d' hd
  obtain rfl : i.kind.id report.entity = id := Kind.id_of_read ((hkeyed _).id _ hd) hentity
  refine (Collection.resave_iff (c := u.collection i.kind) hlawful.schema hkeyed hd hseen.seen
    (Kind.normalize_eq (Kind.normal_of_saved hsaved hentity)) hasked).trans ?_
  refine (i.tabled.diff_eq_nil_iff hlawful.schema).trans ?_
  constructor
  · intro hagree f hf hmap
    have hrole := i.diffed_of_map f hf hmap
    obtain ⟨c, hc, rfl⟩ := i.tabled.exists_column hf hrole
    exact (Kind.agrees_iff hsaved hentity hc hrole).mp (hagree c hc hrole) hmap
  · intro hnone c hc hrole
    exact (Kind.agrees_iff hsaved hentity hc hrole).mpr (hnone c.field (i.tabled.mem_fields hc).1)

/-! ### A decimal number in the place of attributes -/

/-- A contact whose attributes spell the decimal number five. -/
def decimalContact : Contact := .ofRecord { ContactRecord.ofName "Ann" "Aebi" with
  id := .ofByte 1
  attributes := [("$numberDecimal", "5")] }

/-- Whether a decimal number stands in the place of attributes. -/
def holdsDecimal (d : Document) : Bool :=
  match d.value? "attributes" with
  | some (.decimal128 _) => true
  | _ => false

/-- The contact is added. -/
def decimalStep : Step :=
  ⟨{}, {}, .contact (.add decimalContact), .empty,
    ((Call.contact (.add decimalContact)).serve {} {} drawing).store⟩

/-- The contact is read, but saving it again does not leave it as it was. -/
theorem decimalContact_changes : Run .empty [decimalStep] ∧ decimalStep.HappensIn .random ∧
    decimalStep.call.Saves ∧ ∃ d report t,
      (decimalContact.record.id, d) ∈ decimalStep.after.entries "contacts" ∧
      (({} : Setup).contacts.get {} decimalContact.record.id false).run.Runs .any decimalStep.after
        (.ok report) t ∧
      ¬ ∀ l r t, (({} : Setup).contacts.update {} report.entity none).run.Exchanges .calm
        decimalStep.after l r t → r = .ok ⟨decimalContact.record.id, []⟩ ∧ t = decimalStep.after ∧
          ∀ y ∈ l, y.1.isQuiet = true := by
  have hhappens : decimalStep.HappensIn .random :=
    happensIn_serve {} {} (x := drawing) rfl (fun _ => trivial)
      (fun _ => show drawnId.IsRandom by decide) _
  have hsaves : decimalStep.call.Saves := by
    change decimalContact.record.attributes.Sorted
    decide +kernel
  have hrun : Run .empty [decimalStep] := .cons hhappens.happens (.nil _)
  obtain ⟨⟨id, d⟩, hd, rfl, hdecimal⟩ : ∃ e ∈ decimalStep.after.entries "contacts",
      e.1 = decimalContact.record.id ∧ holdsDecimal e.2 = true := by decide +kernel
  obtain ⟨report, hread, -⟩ := exists_runs_ok
    (({} : Setup).contacts.get {} decimalContact.record.id false)
    (x := { drawing with store := decimalStep.after }) rfl (p := fun _ => true) (by decide +kernel)
  refine ⟨hrun, hhappens, hsaves, d, report, _, hd, hread, fun hall => ?_⟩
  have hnone := (resaved_iff Surroundings.not_random_nil hrun
    (fun x hx => List.mem_singleton.mp hx ▸ ⟨hhappens, hsaves⟩) List.mem_cons_self .contact {} {} hd
    hread rfl).mp hall Contact.attributesField (List.mem_of_getElem? (i := 14) rfl) rfl
  rw [holdsDecimal] at hdecimal
  split at hdecimal
  · rename_i bytes hvalue
    exact hnone bytes hvalue
  · cases hdecimal

end Registrar.Directory
