import Registrar.Directory.Inquiry
import Registrar.Proofs.Directory.Columns
import Registrar.Proofs.Directory.Steps
import Registrar.Proofs.Engine.Answered
import Registrar.Proofs.Search.Sought

/-!
# What inquiries about contacts restrict

An inquiry about contacts is turned into a general one. The ids become reference conditions, all of
which have to hold, so they restrict whatever else is asked. The location becomes one more of the
conditions that are combined as the caller says. If these are alternatives, a contact that is
somewhere else is found as well when it meets another condition.

* `ContactInquiry.Refers`: a contact refers to what is asked for.
* `ContactInquiry.anywhere`: the inquiry without its location.
* `ContactInquiry.KeepsLocation`: no contact that is somewhere else is found.
* `located_or_meets`: a contact that is found is there, or meets another condition instead.
* `contact_restrictions`: **what restricts the contacts that are returned**.
-/

namespace Registrar.Directory

open Reading

/-! ### Ids that are read and ids that are sought -/

section

variable {v : Value} {d : Document} {name : String} {id k : Uuid}

theorem eq_of_equalTo_ofUuid (h : Form.stored.id v = some k)
    (heq : v.equalTo (Value.ofUuid id) = true) : k = id := by
  have hread : v.uuid? = some k := by
    cases v with
    | document fs => simp [Value.ofUuid, Value.equalTo, Value.scalarEqualTo, Value.number?] at heq
    | _ => exact h
  obtain rfl := (Value.equalTo_ofUuid_iff hread).mp heq
  rw [Value.uuid?_ofUuid] at hread
  exact (Option.some.inj hread).symm

theorem exists_read_of_mapM {α : Type} {r : Reader α} {vs : List Value} {as : List α}
    (h : vs.mapM r = some as) (hv : v ∈ vs) : ∃ a ∈ as, r v = some a := by
  induction vs generalizing as with
  | nil => cases hv
  | cons x vs ih =>
    rw [List.mapM_cons] at h
    obtain ⟨a, ha, h⟩ := Option.bind_eq_some_iff.mp h
    obtain ⟨rest, hrest, h⟩ := Option.bind_eq_some_iff.mp h
    obtain rfl := Option.some.inj h
    rcases List.mem_cons.mp hv with rfl | hv
    · exact ⟨a, List.mem_cons_self, ha⟩
    · obtain ⟨a', ha', hread⟩ := ih hrest hv
      exact ⟨a', List.mem_cons_of_mem a ha', hread⟩

theorem nullable_of_ne_null {α : Type} (r : Reader α) (h : v ≠ .null) :
    nullable r v = (r v).map some := by
  cases v with
  | null => exact absurd rfl h
  | _ => rfl

theorem mem_ids_of_valuesAt (hdot : '.' ∉ name.toList) {ids : List Uuid}
    (h : ofOptional [] (list Form.stored.id) (d.value? name) = some ids)
    (hv : v ∈ d.valuesAt name) (heq : v.equalTo (Value.ofUuid id) = true) : id ∈ ids := by
  obtain ⟨x, hx, hv⟩ := (Document.mem_valuesAt_iff hdot).mp hv
  rw [hx] at h
  cases x with
  | array items =>
    rcases List.mem_append.mp hv with hv | hv
    · obtain ⟨k, hk, hread⟩ := exists_read_of_mapM h hv
      exact eq_of_equalTo_ofUuid hread heq ▸ hk
    · obtain rfl := List.mem_singleton.mp hv
      simp [Value.ofUuid, Value.equalTo, Value.scalarEqualTo, Value.number?] at heq
  | _ => cases h

theorem eq_id_of_valuesAt (hdot : '.' ∉ name.toList) {id? : Option Uuid}
    (h : ofOptional none (nullable Form.stored.id) (d.value? name) = some id?)
    (hv : v ∈ d.valuesAt name) (heq : v.equalTo (Value.ofUuid id) = true) : id? = some id := by
  obtain ⟨x, hx, hv⟩ := (Document.mem_valuesAt_iff hdot).mp hv
  rw [hx] at h
  have hitems : x.withItems = [x] := by cases x <;> first | rfl | cases h
  rw [hitems] at hv
  obtain rfl := List.mem_singleton.mp hv
  have hnull : v ≠ .null := by
    rintro rfl
    simp [Value.ofUuid, Value.equalTo, Value.scalarEqualTo, Value.number?] at heq
  obtain ⟨k, hk, rfl⟩ := Option.map_eq_some_iff.mp ((nullable_of_ne_null _ hnull).symm.trans h)
  rw [eq_of_equalTo_ofUuid hk heq]

theorem eq_text_of_valuesAt (hdot : '.' ∉ name.toList) {text : String} {text? : Option String}
    (h : ofOptional none (nullable Form.stored.text) (d.value? name) = some text?)
    (hv : .string text ∈ d.valuesAt name) : text? = some text := by
  obtain ⟨x, hx, hv⟩ := (Document.mem_valuesAt_iff hdot).mp hv
  rw [hx] at h
  have hitems : x.withItems = [x] := by cases x <;> first | rfl | cases h
  rw [hitems] at hv
  obtain rfl := List.mem_singleton.mp hv
  exact (Option.some.inj h).symm

end

/-! ### What is read of a contact -/

namespace ContactInquiry

variable {u : Setup} {q : ContactInquiry} {d : Document} {e : Contact} {follows : Bool}

/-- **A contact refers to what is asked for**: for each list of ids that is not empty, to one of
them. -/
structure Refers (q : ContactInquiry) (e : ContactRecord) : Prop where
  categories : q.categoryIds ≠ [] → ∃ id ∈ q.categoryIds, id ∈ e.categoryIds
  manager : q.managerIds ≠ [] → ∃ id ∈ q.managerIds, e.managerId = some id
  secretaries : q.secretaryIds ≠ [] → ∃ id ∈ q.secretaryIds, id ∈ e.secretaryIds
  phoneBooks : q.phoneBookIds ≠ [] → ∃ id ∈ q.phoneBookIds, id ∈ e.phoneBookIds

theorem read_column {column : Column Contact} (h : u.contacts.ReadFrom follows d e)
    (hcolumn : column ∈ Contact.columns) :
    column.read (d.value? column.field.name) = some (column.part e) :=
  h.read (c := u.contacts) Contact.tabled Contact.lawful.schema Contact.linked hcolumn

theorem exists_of_referenceMet {field : String} {kind : FieldKind} {ids : List Uuid}
    (hf : Contact.schema.field? field = some (Field.dependency field kind))
    (h : Contact.schema.ReferenceMet ⟨field, ids⟩ d) (hids : ids ≠ []) :
    ∃ id ∈ ids, ∃ v ∈ d.valuesAt field, v.equalTo (Value.ofUuid id) = true := by
  obtain ⟨f, ⟨hf', -⟩, v, hv, id, hid, heq⟩ := h hids
  obtain rfl := Option.some.inj (hf.symm.trans hf')
  exact ⟨id, hid, v, hv, heq⟩

theorem exists_listed {field : String} {ids stored : List Uuid}
    (hf : Contact.schema.field? field = some (Field.dependency field .idList))
    (hdot : '.' ∉ field.toList) (h : Contact.schema.ReferenceMet ⟨field, ids⟩ d)
    (hread : ofOptional [] (list Form.stored.id) (d.value? field) = some stored)
    (hids : ids ≠ []) : ∃ id ∈ ids, id ∈ stored := by
  obtain ⟨id, hid, v, hv, heq⟩ := exists_of_referenceMet hf h hids
  exact ⟨id, hid, mem_ids_of_valuesAt hdot hread hv heq⟩

/-- **The ids restrict every search.** -/
theorem refers_of_meets (hmeets : Contact.schema.Meets q.toInquiry d)
    (h : u.contacts.ReadFrom follows d e) : q.Refers e.record := by
  have hmet : ∀ field ids, (field, ids) ∈ [("category_ids", q.categoryIds),
      ("manager_id", q.managerIds), ("secretary_ids", q.secretaryIds),
      ("phone_book_ids", q.phoneBookIds)] → Contact.schema.ReferenceMet ⟨field, ids⟩ d := by
    intro field ids hmem hids
    refine hmeets.references ⟨field, ids⟩ (List.mem_append_right _ ?_) hids
    refine List.mem_map.mpr ⟨(field, ids), List.mem_filter.mpr ⟨hmem, ?_⟩, rfl⟩
    simpa using hids
  refine ⟨?_, fun hids => ?_, ?_, ?_⟩
  · exact exists_listed rfl (by decide) (hmet "category_ids" _ (by simp))
      (read_column h (List.mem_of_getElem? (i := 8) rfl))
  · obtain ⟨id, hid, v, hv, heq⟩ :=
      exists_of_referenceMet rfl (hmet "manager_id" _ (by simp)) hids
    exact ⟨id, hid, eq_id_of_valuesAt (by decide)
      (read_column h (List.mem_of_getElem? (i := 7) rfl)) hv heq⟩
  · exact exists_listed rfl (by decide) (hmet "secretary_ids" _ (by simp))
      (read_column h (List.mem_of_getElem? (i := 6) rfl))
  · exact exists_listed rfl (by decide) (hmet "phone_book_ids" _ (by simp))
      (read_column h (List.mem_of_getElem? (i := 9) rfl))

/-! ### The location -/

variable {caller : Caller} {s : Store} {l : String}

/-- **The inquiry without its location.** -/
def anywhere (q : ContactInquiry) : ContactInquiry := { q with location := none }

/-- Some condition is met. -/
def MeetsSome (cs : List Condition) (d : Document) : Prop :=
  ∃ c ∈ cs, c.IsNamed ∧ ∃ f, Contact.schema.filterOfCondition c = .ok (some f) ∧ f.holds d = true

/-- No condition asks for anything. -/
def AskNothing (cs : List Condition) : Prop :=
  ∀ c ∈ cs, c.IsNamed → ∀ f, Contact.schema.filterOfCondition c ≠ .ok (some f)

/-- A document from which a location is read. -/
def LocatedAt (location : String) (d : Document) : Prop :=
  ofOptional none (nullable Form.stored.text) (d.value? "location") = some (some location)

/-- **No contact that is somewhere else is found**: conditions are not alternatives, or there is
none besides the location, or all that is found without the location is there. -/
def KeepsLocation (u : Setup) (caller : Caller) (s : Store) (q : ContactInquiry)
    (location : String) : Prop :=
  q.search.combinator = .and ∨ AskNothing q.search.conditions ∨
    ∀ d, u.contacts.Finds caller s q.anywhere.toInquiry d → LocatedAt location d

theorem conditions_toInquiry (hl : q.location = some l) (hblank : Text.isBlankText l = false) :
    q.toInquiry.conditions = q.search.conditions ++ [.equals "location" (.string l)] := by
  have hlocation : locationConditions q.location = [.equals "location" (.string l)] := by
    rw [locationConditions, hl, Option.filter_some, hblank]
    rfl
  rw [toInquiry, hlocation]

theorem filterOfCondition_location (l : String) :
    Contact.schema.filterOfCondition (.equals "location" (.string l)) =
      .ok (some (.eq "location" (.string (Text.trim l)))) := by
  have hr : Contact.schema.searchable? (Text.trim "location") =
      some ⟨"location", Field.data "location" .string [], .string⟩ := rfl
  exact Schema.filterOfCondition_text hr rfl l

theorem isNamed_location (l : String) : (Condition.equals "location" (.string l)).IsNamed :=
  show Text.isBlankText "location" = false by decide

/-- **A contact that is found** is at the location, or meets another condition instead. -/
theorem located_or_meets (hl : q.location = some l) (hblank : Text.isBlankText l = false)
    (h : Contact.schema.ConditionsMet q.toInquiry d) :
    .string (Text.trim l) ∈ d.valuesAt "location" ∨
      q.search.combinator = .or ∧ MeetsSome q.search.conditions d := by
  have hconditions := conditions_toInquiry hl hblank
  rw [Schema.ConditionsMet] at h
  cases hcombinator : q.search.combinator with
  | and =>
    have hmem : Condition.equals "location" (.string l) ∈ q.toInquiry.conditions :=
      hconditions ▸ List.mem_append_right _ (List.mem_singleton_self _)
    have hall : ∀ c ∈ q.toInquiry.conditions, c.IsNamed → ∀ f,
        Contact.schema.filterOfCondition c = .ok (some f) → f.holds d = true := by
      rwa [show q.toInquiry.combinator = .and from hcombinator] at h
    exact .inl (Filter.holds_eq_text_iff.mp
      (hall _ hmem (isNamed_location l) _ (filterOfCondition_location l)))
  | or =>
    rw [show q.toInquiry.combinator = .or from hcombinator, hconditions] at h
    rcases h with ⟨c, hc, hnamed, f, hf, hholds⟩ | hnone
    · rcases List.mem_append.mp hc with hc | hc
      · exact .inr ⟨rfl, c, hc, hnamed, f, hf, hholds⟩
      · obtain rfl := List.mem_singleton.mp hc
        rw [filterOfCondition_location] at hf
        cases hf
        exact .inl (Filter.holds_eq_text_iff.mp hholds)
    · exact absurd (filterOfCondition_location l)
        (hnone _ (List.mem_append_right _ (List.mem_singleton_self _)) (isNamed_location l) _)

/-- **Alternatives** that are met are enough, with the location and without. -/
theorem conditionsMet_of_some (hcombinator : q.search.combinator = .or)
    (h : MeetsSome q.search.conditions d) : Contact.schema.ConditionsMet q.toInquiry d := by
  rw [Schema.ConditionsMet, show q.toInquiry.combinator = .or from hcombinator]
  obtain ⟨c, hc, hmet⟩ := h
  exact .inl ⟨c, List.mem_append_left _ hc, hmet⟩

/-- Without the location, some alternative is met, if there is any. -/
theorem some_of_conditionsMet_anywhere (hcombinator : q.search.combinator = .or)
    (hasks : ¬ AskNothing q.search.conditions)
    (h : Contact.schema.ConditionsMet q.anywhere.toInquiry d) :
    MeetsSome q.search.conditions d := by
  have hconditions : q.anywhere.toInquiry.conditions = q.search.conditions :=
    List.append_nil _
  rw [Schema.ConditionsMet, show q.anywhere.toInquiry.combinator = .or from hcombinator,
    hconditions] at h
  exact h.resolve_right hasks

theorem finds_of_conditionsMet {q' : ContactInquiry} (hsearch : q'.search = q.search)
    (hreferences : q'.toInquiry.references = q.toInquiry.references)
    (h : u.contacts.Finds caller s q.toInquiry d)
    (hmet : Contact.schema.ConditionsMet q'.toInquiry d) :
    u.contacts.Finds caller s q'.toInquiry d := by
  refine ⟨h.stored, ⟨hmet, fun text htext => h.meets.texts text ?_, fun r hr => ?_⟩, h.visible,
    h.left⟩
  · have hquery : q'.search.query = q.search.query := congrArg Inquiry.query hsearch
    have hname : q'.search.name = q.search.name := congrArg Inquiry.name hsearch
    exact htext.imp hquery.symm.trans hname.symm.trans
  · exact h.meets.references r (hreferences ▸ hr)

/-- **A contact that is read** is at the location, if the inquiry keeps it. -/
theorem located_of_keeps (hl : q.location = some l) (hblank : Text.isBlankText l = false)
    (hkeeps : q.KeepsLocation u caller s (Text.trim l))
    (hfinds : u.contacts.Finds caller s q.toInquiry d)
    (hread : u.contacts.ReadFrom follows d e) : e.record.location = some (Text.trim l) := by
  have hlocation : ofOptional none (nullable Form.stored.text) (d.value? "location") =
      some e.record.location := read_column hread (List.mem_of_getElem? (i := 3) rfl)
  rcases located_or_meets hl hblank hfinds.meets.conditions with hfound | ⟨hor, hsome⟩
  · exact eq_text_of_valuesAt (by decide) hlocation hfound
  · rcases hkeeps with hand | hnothing | hall
    · rw [hand] at hor
      cases hor
    · obtain ⟨c, hc, hnamed, f, hf, -⟩ := hsome
      exact absurd hf (hnothing c hc hnamed f)
    · have hanywhere := conditionsMet_of_some (q := q.anywhere) hor hsome
      have hlocated := hall d (finds_of_conditionsMet (q := q) rfl rfl hfinds hanywhere)
      exact Option.some.inj (hlocation.symm.trans hlocated)

end ContactInquiry

open ContactInquiry in
/-- **What restricts the contacts that are returned.** In every store and for every caller, each
contact with which an inquiry is answered refers to what is asked for, whatever else is asked. If a
location is asked for, they all are there when the inquiry keeps the location; and when all that is
found is returned, they all are there only then. -/
theorem contact_restrictions (u : Setup) (q : ContactInquiry) {caller : Caller}
    {w : Surroundings} {s t : Store} {page : SearchPage Contact}
    (h : (u.contacts.search caller q.toInquiry).run.Runs w s (.ok page) t) :
    (∀ e ∈ page.results, q.Refers e.record) ∧
      ∀ l, q.location = some l → Text.isBlankText l = false →
        (q.KeepsLocation u caller s (Text.trim l) →
          ∀ e ∈ page.results, e.record.location = some (Text.trim l)) ∧
        (q.toInquiry.IsUnpaged →
          (∀ e ∈ page.results, e.record.location = some (Text.trim l)) →
            q.KeepsLocation u caller s (Text.trim l)) := by
  obtain ⟨f, hf, hanswer⟩ := Collection.answered_from h
  have hfinds : ∀ d, d ∈ u.contacts.found caller f s ↔ u.contacts.Finds caller s q.toInquiry d :=
    fun d => Collection.mem_found_iff hf
  refine ⟨fun e he => ?_, fun l hl hblank => ⟨fun hkeeps e he => ?_, fun hp hall => ?_⟩⟩
  · obtain ⟨d, hd, hread⟩ := hanswer.exists_document he
    exact refers_of_meets ((hfinds d).mp hd).meets hread
  · obtain ⟨d, hd, hread⟩ := hanswer.exists_document he
    exact located_of_keeps hl hblank hkeeps ((hfinds d).mp hd) hread
  · rcases hcombinator : q.search.combinator with _ | _
    · exact .inl hcombinator
    by_cases hasks : AskNothing q.search.conditions
    · exact .inr (.inl hasks)
    refine .inr (.inr fun d hanywhere => ?_)
    have hsome := some_of_conditionsMet_anywhere hcombinator hasks hanywhere.meets.conditions
    have hfound : u.contacts.Finds caller s q.toInquiry d :=
      finds_of_conditionsMet (q := q.anywhere) rfl rfl hanywhere
        (conditionsMet_of_some hcombinator hsome)
    obtain ⟨e, he, hread⟩ := hanswer.exists_entity hp ((hfinds d).mpr hfound)
    rw [LocatedAt, ← hall e he]
    exact read_column hread (List.mem_of_getElem? (i := 3) rfl)

/-! ### Bern, or a name -/

/-- Two contacts in two towns. -/
def townspeople : Session := serveAll {} {} .fresh
  [.contact (.add (.ofRecord
    { ContactRecord.ofName "Ann" "Aebi" with id := .ofByte 1, location := some "Bern" })),
   .contact (.add (.ofRecord
    { ContactRecord.ofName "Bea" "Boss" with id := .ofByte 2, location := some "Basel" }))]

/-- Contacts in Bern, asked for together with an alternative. -/
def inBernOrBea : ContactInquiry where
  search := { combinator := .or, conditions := [.equals "first_name" (.string "Bea")] }
  location := some "Bern"

/-- **A contact in Basel is returned** to an inquiry about Bern, because of her name. -/
theorem inBernOrBea_strays :
    ∃ page t, (({} : Setup).contacts.search {} inBernOrBea.toInquiry).run.Runs .any
        townspeople.store (.ok page) t ∧
      (∀ e ∈ page.results, inBernOrBea.Refers e.record) ∧
      (∃ e ∈ page.results, e.record.location ≠ some "Bern") ∧
      ¬ inBernOrBea.KeepsLocation {} {} townspeople.store "Bern" := by
  let strays (page : SearchPage Contact) : Bool :=
    page.results.any fun e => e.record.location != some "Bern"
  obtain ⟨page, hruns, hstrays⟩ :=
    exists_runs_ok (({} : Setup).contacts.search {} inBernOrBea.toInquiry) (x := townspeople) rfl
      (p := strays) (by decide +kernel)
  obtain ⟨e, he, hstray⟩ := List.any_eq_true.mp hstrays
  have hne : e.record.location ≠ some "Bern" := by simpa using hstray
  obtain ⟨hrefers, hlocation⟩ := contact_restrictions {} inBernOrBea hruns
  have hbern : Text.trim "Bern" = "Bern" := by decide
  have hkeeps := (hlocation "Bern" rfl (by decide)).1
  rw [hbern] at hkeeps
  exact ⟨page, _, hruns, hrefers, ⟨e, he, hne⟩, fun h => hne (hkeeps h e he)⟩

end Registrar.Directory
