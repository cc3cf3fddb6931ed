import Registrar.Proofs.Directory.References
import Registrar.Proofs.Directory.Restricting
import Registrar.Proofs.Engine.Adding
import Registrar.Proofs.Engine.Hiding

/-!
# Texts that are stored and texts that are sought

An addition stores a location or a description as it was given, with the blanks around it. A search
for a text drops the blanks around the text that it is given. So an entity that was added is
returned to a search for its own text only if there are no blanks around this text.

* `EntityKind.HoldsText`: a field that holds an optional text as it was given.
* `Inquiry.SeeksText`: inquiries for everything with a text in a field, and for nothing else.
* `Collection.AnswersFor`: what searches for a text tell of a document that holds it.
* `Collection.StoresText`: what an addition says of a text.
* `added_texts_sought`: **when a text that was added can be searched for**.
-/

namespace Registrar

open Reading
open Directory (optionalString)

/-! ### A field for a text -/

/-- The column of an optional text. -/
def Column.text {E : Type} (field : String) (text : E → Option String) : Column E :=
  .optional (Field.data field .string []) text optionalString none (nullable Form.stored.text)

/-- **A field that holds an optional text** as it was given: the canonical form of an entity has the
same text, and a condition on the field is about this field. -/
structure EntityKind.HoldsText {E : Type} (k : EntityKind E) (columns : List (Column E))
    (field : String) (text : E → Option String) : Prop where
  tabled : k.Tabled columns
  column : .text field text ∈ columns
  resolved : k.schema.searchable? (Text.trim field) =
    some ⟨field, Field.data field .string [], .string⟩
  named : Text.isBlankText field = false
  dotless : '.' ∉ field.toList
  normal : ∀ e e', (k.normalize e).Gives e' → text e' = text e
  withId : ∀ id e, text (k.withId id e) = text e

/-- **An inquiry for everything that has a text in a field**, and for nothing else. -/
structure Inquiry.SeeksText (p : Inquiry) (field l : String) : Prop where
  conditions : p.conditions = [.equals field (.string l)]
  query : p.query = none
  name : p.name = none
  references : p.references = []
  unpaged : p.IsUnpaged

/-- The filter for a text: what is sought has no blanks around it. -/
def Filter.forText (field l : String) : Filter := .eq field (.string (Text.trim l))

namespace EntityKind.HoldsText

variable {E : Type} {k : EntityKind E} {columns : List (Column E)} {field l : String}
  {text : E → Option String} {p : Inquiry} (h : k.HoldsText columns field text)

include h

theorem filterOf_of_seeksText (hp : p.SeeksText field l) :
    k.schema.filterOf p = .ok (some (.forText field l)) := by
  have hcondition : k.schema.filterOfCondition (.equals field (.string l)) =
      .ok (some (.forText field l)) := Schema.filterOfCondition_text h.resolved rfl l
  have hnamed : [Condition.equals field (.string l)].filter (fun c => !Text.isBlankText c.field) =
      [.equals field (.string l)] :=
    List.filter_cons_of_pos (by simp [Condition.equals, h.named])
  have hconditions : k.schema.filterOfConditions p.conditions p.combinator =
      .ok (some (.forText field l)) := by
    rw [hp.conditions, Schema.filterOfConditions, hnamed, List.mapM_cons, hcondition]
    cases p.combinator <;> rfl
  rw [Schema.filterOf, hconditions, hp.query, hp.name, hp.references]
  rfl

end EntityKind.HoldsText

namespace Collection

variable {E : Type} {c : Collection E} {columns : List (Column E)} {field l : String}
  {text : E → Option String} {caller : Caller} {s t : Store} {p : Inquiry} {d : Document} {e : E}

/-- **What searches for a text tell** of a document that holds it. If they are answered, the entity
of the document is among the answers exactly when there are no blanks around the text; undisturbed
they are answered exactly when they can be. -/
structure AnswersFor (c : Collection E) (caller : Caller) (t : Store) (p : Inquiry)
    (field l : String) (d : Document) : Prop where
  returned : ∀ w page u, (c.search caller p).run.Runs w t (.ok page) u →
    ((∃ e ∈ page.results, c.ReadFrom p.includeDependents d e) ↔ Text.trim l = l)
  answered : p.includeDependents = false → ∀ plan,
    SortPlan.resolve c.schema p.sortBy p.sortAscending = .ok plan →
    ∀ r u, (c.search caller p).run.Runs .calm t r u →
      ((∃ page, r = .ok page) ↔ c.Answerable caller (some (.forText field l)) t)

/-- **What an addition says of a text**: it has failed and stored nothing, or it has stored a
document with the text. As long as this document is stored, searches for the text tell of it to all
callers who see it. -/
def StoresText (c : Collection E) (s : Store) (e : E) (r : Except Failure E) (t : Store)
    (field l : String) : Prop :=
  (t = s ∧ ∃ x, r = .error x) ∨ ∃ id d, c.Inserted s e r t id d ∧
    d.value? field = some (.string l) ∧
      ∀ u caller p, d ∈ (u.entries c.name).documents → c.policy.Sees caller c.name d →
        p.SeeksText field l → c.AnswersFor caller u p field l d

theorem isLeft_of_sees {id : Uuid} (hid : d.value? "id" = some (Value.ofUuid id))
    (h : c.policy.Sees caller c.name d) : c.isLeft caller d = true := by
  obtain ⟨k, hknown, hgrants⟩ := h.accepted
  rw [Document.KnownBy, Filter.hasId_holds hid, hid, Option.bind_some, Value.uuid?_ofUuid,
    Option.some_inj, or_self] at hknown
  rw [isLeft, isGranted, hid, Option.bind_some, Value.uuid?_ofUuid, hknown]
  simp [AccessPolicy.accepts, hgrants]

variable (h : c.kind.HoldsText columns field text)

include h

theorem read_text (hs : c.schema.Lawful) (hlinked : c.schema.Linked) {follows : Bool}
    (hread : c.ReadFrom follows d e) :
    ofOptional none (nullable Form.stored.text) (d.value? field) = some (text e) := by
  have hcolumn := hread.read h.tabled hs hlinked h.column
  exact hcolumn

/-- **A search for a text** returns the entity of a document that holds it just if there are no
blanks around the text. -/
theorem returned_iff (hs : c.schema.Lawful) (hlinked : c.schema.Linked)
    (hp : p.SeeksText field l) (htext : d.value? field = some (.string l))
    (hd : d ∈ (s.entries c.name).documents)
    (hvisible : Filter.admits (c.policy.visibility c.name caller) d = true)
    (hleft : c.isLeft caller d = true) {w : Surroundings} {page : SearchPage E}
    (hrun : (c.search caller p).run.Runs w s (.ok page) t) :
    (∃ e ∈ page.results, c.ReadFrom p.includeDependents d e) ↔ Text.trim l = l := by
  obtain ⟨f, hf, hanswer⟩ := answered_from hrun
  obtain rfl : some (Filter.forText field l) = f :=
    Except.ok.inj ((h.filterOf_of_seeksText hp).symm.trans hf)
  constructor
  · rintro ⟨e, he, hread⟩
    obtain ⟨d', hfound, hread'⟩ := hanswer.exists_document he
    have hholds : (Filter.forText field l).holds d' = true := (mem_found.mp hfound).2.1
    -- The entity has the text of either document: the one that was found has the text sought.
    have htrim : text e = some (Text.trim l) :=
      Directory.eq_text_of_valuesAt h.dotless (read_text h hs hlinked hread')
        (Filter.holds_eq_text_iff.mp hholds)
    have hl : some (some l) = some (text e) := by
      rw [← read_text h hs hlinked hread, htext]
      rfl
    rw [htrim] at hl
    exact (Option.some.inj (Option.some.inj hl)).symm
  · intro htrim
    have hholds : (Filter.forText field l).holds d = true := by
      rw [Filter.forText, htrim, Filter.holds_eq_text_iff, Document.mem_valuesAt_iff h.dotless]
      exact ⟨_, htext, List.mem_singleton_self _⟩
    exact hanswer.exists_entity hp.unpaged (mem_found.mpr ⟨hd, hholds, hvisible, hleft⟩)

/-- **An addition stores a text** as it was given. -/
theorem text_of_inserted (hl : text e = some l) {r : Except Failure E} {id : Uuid}
    (hinserted : c.Inserted s e r t id d) : d.value? field = some (.string l) := by
  obtain ⟨e', ⟨e₁, he₁, he'⟩, -, hplain⟩ := hinserted.submitted
  have hsame : text e' = text e := by
    rw [← h.normal e e₁ he₁]
    split at he'
    · obtain ⟨id, rfl⟩ := he'
      exact h.withId id e₁
    · rw [he']
  have hwritten : (c.kind.toDocument e').value? field = some (optionalString (text e')) :=
    h.tabled.writes _ h.column e'
  have hstored : d.value? field = (c.kind.toDocument e').value? field :=
    hplain (Field.data field .string []) (h.tabled.mem_fields h.column).1 trivial
  rw [hstored, hwritten, hsame, hl]
  rfl

/-- **Additions and searches**: the text is stored as it was given, and sought without the blanks
around it. -/
theorem storesText (hk : c.kind.Lawful) (hlinked : c.schema.Linked) (hl : text e = some l)
    {w : Surroundings} {r : Except Failure E} (hrun : (c.add caller e).run.Runs w s r t) :
    c.StoresText s e r t field l := by
  refine (idleOr_add hk.schema e r t hrun).imp_right ?_
  rintro ⟨id, d, hinserted⟩
  have htext := text_of_inserted h hl hinserted
  refine ⟨id, d, hinserted, htext, fun u caller p hd hsees hp => ⟨?_, ?_⟩⟩
  · intro w page u' hsearch
    exact returned_iff h hk.schema hlinked hp htext hd hsees.visible
      (isLeft_of_sees (hinserted.id hk) hsees) hsearch
  · intro hfollow plan hplan r u' hsearch
    exact answered_iff (h.filterOf_of_seeksText hp) hplan hfollow hp.unpaged hsearch

end Collection

namespace Directory

/-! ### Locations and descriptions -/

theorem Contact.holdsLocation : kind.HoldsText columns "location" (record · |>.location) where
  tabled := tabled
  column := List.mem_of_getElem? (i := 3) rfl
  resolved := rfl
  named := by decide
  dotless := by decide
  normal e e' h := by
    obtain ⟨numbers, -, rfl⟩ := gives_normalize h
    obtain ⟨record, _, _, _, _⟩ := e
    rfl
  withId id e := by
    obtain ⟨record, _, _, _, _⟩ := e
    rfl

theorem Category.holdsDescription : kind.HoldsText columns "description" description where
  tabled := tabled
  column := List.mem_of_getElem? (i := 2) rfl
  resolved := rfl
  named := by decide
  dotless := by decide
  normal e e' h := by
    cases h
    rfl
  withId _ _ := rfl

/-- An inquiry about the contacts at a location. -/
def ContactInquiry.atLocation (l : String) : ContactInquiry := { location := some l }

theorem ContactInquiry.seeksText_atLocation {l : String} (h : Text.isBlankText l = false) :
    (atLocation l).toInquiry.SeeksText "location" l where
  conditions := conditions_toInquiry rfl h
  query := rfl
  name := rfl
  references := rfl
  unpaged := show ¬ (0 : Int64) < 0 by decide

/-- **When a text that was added can be searched for.** Whatever is in the store and whatever
happens meanwhile, a contact with a location that is added is stored with this location, or the
addition fails and stores nothing. All callers who see the contact can search for the location, in a
general inquiry or in one about contacts, and as long as nothing has been changed they find the
contact exactly when there are no blanks around the location. The same holds for categories and
their descriptions. -/
theorem added_texts_sought (u : Setup) {caller : Caller} {w : Surroundings} {s t : Store} :
    (∀ (e : Contact) l r, e.record.location = some l → (u.contacts.add caller e).run.Runs w s r t →
      u.contacts.StoresText s e r t "location" l ∧
        (Text.isBlankText l = false →
          (ContactInquiry.atLocation l).toInquiry.SeeksText "location" l)) ∧
    ∀ (e : Category) l r, e.description = some l → (u.categories.add caller e).run.Runs w s r t →
      u.categories.StoresText s e r t "description" l := by
  refine ⟨fun e l r hl hrun => ⟨?_, ContactInquiry.seeksText_atLocation⟩, fun e l r hl hrun => ?_⟩
  · exact Collection.storesText (c := u.contacts) Contact.holdsLocation Contact.lawful
      Contact.linked hl hrun
  · exact Collection.storesText (c := u.categories) Category.holdsDescription Category.lawful
      Category.linked hl hrun

/-! ### A location with blanks -/

/-- A contact at a location with blanks around it. -/
def blankBern : Contact := .ofRecord
  { ContactRecord.ofName "Ann" "Aebi" with id := .ofByte 1, location := some " Bern " }

/-- The search for this location. -/
def inBlankBern : Inquiry := (ContactInquiry.atLocation " Bern ").toInquiry

/-- The session after the contact was added. -/
def bernSession : Session := ((({} : Setup).contacts.add {} blankBern).run.run .fresh).2

/-- **The contact is added**, and is not returned to a search for its own location. -/
theorem blankBern_missed :
    ∃ added page t, (({} : Setup).contacts.add {} blankBern).run.Runs .any .empty (.ok added)
        bernSession.store ∧
      (({} : Setup).contacts.search {} inBlankBern).run.Runs .any bernSession.store (.ok page) t ∧
      ∃ d, Contact.kind.ofDocument? d = some added ∧
        d ∈ (bernSession.store.entries "contacts").documents ∧
        d.value? "location" = some (.string " Bern ") ∧
        ¬ ∃ e ∈ page.results, ({} : Setup).contacts.ReadFrom false d e := by
  obtain ⟨added, hadd⟩ : ∃ added, (({} : Setup).contacts.add {} blankBern).run.Runs .any .empty
      (.ok added) bernSession.store := by
    obtain ⟨added, hadd, -⟩ := exists_runs_ok (({} : Setup).contacts.add {} blankBern)
      (x := .fresh) rfl (p := fun _ => true) (by decide +kernel)
    unfold bernSession
    exact ⟨added, hadd⟩
  obtain ⟨page, hsearch, -⟩ := exists_runs_ok (({} : Setup).contacts.search {} inBlankBern)
    (x := bernSession) (by decide +kernel) (p := fun _ => true) (by decide +kernel)
  obtain ⟨hstores, hseeks⟩ := (added_texts_sought {}).1 blankBern " Bern " _ rfl hadd
  rcases hstores with ⟨-, x, hx⟩ | ⟨id, d, hinserted, htext, htells⟩
  · cases hx
  have hd : d ∈ (bernSession.store.entries "contacts").documents :=
    List.mem_map.mpr ⟨(id, d), (Collection.mem_inserted (c := ({} : Setup).contacts)
      hinserted.inserts).mpr (.inl rfl), rfl⟩
  have hsees : ({} : Setup).contacts.policy.Sees {} ({} : Setup).contacts.name d :=
    ⟨⟨id, .inr (by rw [hinserted.id Contact.lawful]; exact Value.uuid?_ofUuid id), rfl⟩, rfl⟩
  have hanswers := htells _ _ _ hd hsees (hseeks (by decide))
  refine ⟨added, page, _, hadd, hsearch, d, hinserted.given added rfl, hd, htext, ?_⟩
  exact fun hreturned => absurd ((hanswers.returned _ _ _ hsearch).mp hreturned) (by decide)

end Directory

end Registrar
