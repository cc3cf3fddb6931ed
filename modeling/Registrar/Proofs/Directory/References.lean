import Registrar.Proofs.Directory.Steps
import Registrar.Proofs.Engine.References

/-!
# References between contacts, categories and phone books

While the settings ask for look-ups on update, no step of a run writes the id of a missing entity
into a contact or a category, with one exception. A delta or an assignment may spell the name of a
relation with blanks around it, or an assignment may add a dot and more to it. Then the relation is
written, but it is not found when references are pruned, and ids are written as they were submitted.

* `Step.Dangles`: a step gives a document the id of a missing entity.
* `Step.Unpruned`: a step writes such an id that was submitted under such a name.
* `dangles_iff_unpruned`: in every run, these are the same steps.
-/

namespace Registrar

theorem Draws.gives_bind {α β : Type} {x : Draws α} {f : α → Draws β} {b : β}
    (h : (x >>= f).Gives b) : ∃ a, x.Gives a ∧ (f a).Gives b := by
  induction x with
  | done a => exact ⟨a, .done a, h⟩
  | draw next ih =>
    cases h with
    | draw u h =>
      obtain ⟨a, ha, hb⟩ := ih u h
      exact ⟨a, .draw u ha, hb⟩

namespace Directory

/-! ### Canonical forms -/

theorem Contact.length_of_assignIds {numbers numbers' : List PhoneNumber}
    (h : (ContactRecord.assignIds numbers).Gives numbers') : numbers'.length = numbers.length := by
  induction numbers generalizing numbers' with
  | nil =>
    cases h
    rfl
  | cons n r ih =>
    have hnext : ∀ {x : Draws Uuid}, (x >>= fun id => ContactRecord.assignIds r >>= fun rest =>
        pure ({ n with id } :: rest)).Gives numbers' → numbers'.length = (n :: r).length := by
      intro x h
      obtain ⟨id, -, h⟩ := Draws.gives_bind h
      obtain ⟨rest, hrest, h⟩ := Draws.gives_bind h
      cases h
      rw [List.length_cons, List.length_cons, ih hrest]
    rw [ContactRecord.assignIds] at h
    split at h
    · exact hnext h
    · exact hnext h

/-- **The canonical form of a contact** has as many numbers, and their count. -/
theorem Contact.gives_normalize {e e' : Contact} (h : (Contact.kind.normalize e).Gives e') :
    ∃ numbers : List PhoneNumber, numbers.length = e.record.numbers.length ∧
      e' = e.mapRecord fun r => { r with
        firstName := Text.trim r.firstName
        lastName := Text.trim r.lastName
        numbers
        numberCount := Int32.ofNat numbers.length } := by
  obtain ⟨record, _, _, _, _⟩ := e
  obtain ⟨record', hrecord, h⟩ := Draws.gives_bind h
  obtain ⟨numbers, hnumbers, hrecord⟩ := Draws.gives_bind hrecord
  cases hrecord
  cases h
  exact ⟨numbers, length_of_assignIds hnumbers, rfl⟩

theorem Book.referring : Book.kind.Referring where
  withId _ _ _ hr := absurd hr List.not_mem_nil
  normal _ _ _ _ hr := absurd hr List.not_mem_nil

theorem Category.referring : Category.kind.Referring where
  withId id e r hr := by
    obtain rfl := List.mem_singleton.mp hr
    rfl
  normal e e' h r hr := by
    obtain rfl := List.mem_singleton.mp hr
    cases h
    rfl

theorem Contact.targetIds_congr {a b : Contact}
    (hsecretaries : a.record.secretaryIds = b.record.secretaryIds)
    (hmanager : a.record.managerId = b.record.managerId)
    (hcategories : a.record.categoryIds = b.record.categoryIds)
    (hbooks : a.record.phoneBookIds = b.record.phoneBookIds) {r : Relation}
    (hr : r ∈ kind.schema.relations) :
    r.targetIds (kind.toDocument a) = r.targetIds (kind.toDocument b) := by
  simp only [kind, schema, List.mem_cons, List.not_mem_nil, or_false] at hr
  rcases hr with rfl | rfl | rfl | rfl <;>
    simp [Relation.targetIds, Document.valueOrNull, Document.value?, kind, toDocument,
      ContactRecord.toDocument, hsecretaries, hmanager, hcategories, hbooks]

theorem Contact.referring : Contact.kind.Referring where
  withId id e r hr := by
    obtain ⟨record, _, _, _, _⟩ := e
    refine targetIds_congr ?_ ?_ ?_ ?_ hr <;> rfl
  normal e e' h r hr := by
    obtain ⟨record, _, _, _, _⟩ := e
    obtain ⟨record', hrecord, h⟩ := Draws.gives_bind h
    obtain ⟨numbers, -, hrecord⟩ := Draws.gives_bind hrecord
    cases hrecord
    cases h
    refine targetIds_congr ?_ ?_ ?_ ?_ hr <;> rfl

/-! ### Steps -/

/-- The schema of the kind that a call is about. -/
def Call.schema : Call → Schema
  | .book _ => Book.schema
  | .category _ => Category.schema
  | .contact _ => Contact.schema

/-- **A step gives a document the id of a missing entity.** -/
def Step.Dangles (x : Step) (r : Relation) : Prop :=
  r.Dangles x.call.schema.collection x.before x.after

/-- **A step writes an id of a missing entity** that was submitted for a relation that is not found
among the names. -/
def Step.Unpruned (x : Step) (r : Relation) : Prop :=
  (match x.call with
    | .book op => x.setup.books.Unpruned x.caller x.before r op
    | .category op => x.setup.categories.Unpruned x.caller x.before r op
    | .contact op => x.setup.contacts.Unpruned x.caller x.before r op) ∧
  x.after.entries x.call.schema.collection ≠ x.before.entries x.call.schema.collection

theorem Step.dangles_iff {x : Step} (h : x.Happens) (hk : x.before.Keyed)
    (hlook : x.setup.settings.lookupOnUpdate = true) {r : Relation}
    (hr : r ∈ x.call.schema.relations) : x.Dangles r ↔ x.Unpruned r := by
  obtain ⟨setup, caller, call, before, after⟩ := x
  cases call with
  | book op =>
    exact (h.effect Book.lawful Book.linked hk).dangles_iff (c := setup.books) Book.lawful.schema
      Book.linked hr Book.referring hlook hk
  | category op =>
    exact (h.effect Category.lawful Category.linked hk).dangles_iff (c := setup.categories)
      Category.lawful.schema Category.linked hr Category.referring hlook hk
  | contact op =>
    exact (h.effect Contact.lawful Contact.linked hk).dangles_iff (c := setup.contacts)
      Contact.lawful.schema Contact.linked hr Contact.referring hlook hk

/-- **In a run from the empty store, a step writes the id of a missing entity exactly when one was
submitted for a relation that was not found among the names.** -/
theorem dangles_iff_unpruned {xs : List Step} (hrun : Run .empty xs) {x : Step} (hx : x ∈ xs)
    (hlook : x.setup.settings.lookupOnUpdate = true) {r : Relation}
    (hr : r ∈ x.call.schema.relations) : x.Dangles r ↔ x.Unpruned r := by
  obtain ⟨happens, hk, -⟩ := hrun.invariant empty_keyed (fun _ _ => Step.keyed) x hx
  exact x.dangles_iff happens hk hlook hr

/-! ### A name with a blank in it -/

/-- A contact is added, and a delta with a blank in it names somebody missing as the manager. -/
def strayManager : List Call :=
  [.contact (.add (.ofRecord { ContactRecord.ofName "Ann" "Aebi" with id := .ofByte 1 })),
   .contact (.applyDelta {
     id := .ofByte 1
     properties := [" manager_id"]
     data := .ofRecord { ContactRecord.ofName "Ann" "Aebi" with managerId := some (.ofByte 9) } })]

def strayManagerSteps : List Step := performed {} {} .fresh strayManager

def managerRelation : Relation := ⟨"manager_id", "manager", "contacts", .one⟩

def managersOf (es : Entries) : List (List Uuid) := es.map fun e => managerRelation.targetIds e.2

/-- The contact refers to somebody missing in the end. -/
theorem strayManager_dangles : ∃ x ∈ strayManagerSteps, x.Dangles managerRelation := by
  have hunpruned : (strayManagerSteps.getLast (by decide)).Unpruned managerRelation := by
    obtain ⟨⟨k, d⟩, hd, rfl, hnew⟩ : ∃ e ∈ (strayManagerSteps.getLast (by decide)).before.entries
        "contacts", e.1 = .ofByte 1 ∧
          Uuid.ofByte 9 ∉ managerRelation.targetIds e.2 := by decide +kernel
    refine ⟨⟨by decide +kernel, d, hd, ⟨Field.dependency "manager_id" .id, ?_, rfl, ?_⟩,
      .ofByte 9, by decide +kernel, hnew, ?_⟩, ?_⟩
    · exact .tail _ (.tail _ (.tail _ (.tail _ (.tail _ (.tail _ (.tail _ (.tail _ (.head _))))))))
    · exact ⟨" manager_id", .head _, rfl⟩
    · unfold Store.Has
      decide +kernel
    · intro heq
      exact absurd (congrArg managersOf heq) (by decide +kernel)
  have hrun : Run .empty strayManagerSteps := run_performed {} {} (x := .fresh) rfl strayManager
  exact ⟨_, List.getLast_mem _, (dangles_iff_unpruned hrun (List.getLast_mem (by decide)) rfl
    (.tail _ (.head _))).mpr hunpruned⟩

end Directory

end Registrar
