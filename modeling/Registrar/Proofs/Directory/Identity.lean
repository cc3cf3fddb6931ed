import Registrar.Proofs.Directory.Slots
import Registrar.Proofs.Engine.Identity

/-!
# The identity of documents

In every run from the empty store, whatever is asked for, each document is kept under its own id,
which is not nil and stays what it is while the document is there. No document has copies of the
entities that it refers to, and its lists of references are lists of ids. Ids are drawn at random,
in the form that is never nil.

* `InOrder`: the stores of which all this holds.
* `Step.KeepsIds`: what a step does to the ids of documents.
* `Step.inOrder`: every step keeps a store in order.
* `identity_kept`: every run from the empty store does.
-/

namespace Registrar

/-- **Ids that are drawn at random** have version 4 in their seventh byte. -/
def Uuid.IsRandom (u : Uuid) : Prop := u.bytes[6]?.map (fun b => b.toNat / 16) = some 4

instance (u : Uuid) : Decidable u.IsRandom :=
  inferInstanceAs (Decidable (u.bytes[6]?.map (fun b => b.toNat / 16) = some 4))

/-- Anything may happen, and ids are drawn at random. -/
def Surroundings.random : Surroundings := ⟨True, True, Uuid.IsRandom⟩

theorem Surroundings.not_random_nil : ¬ random.draws .nil := by
  change ¬ Uuid.IsRandom .nil
  decide

namespace Directory

/-! ### The three kinds -/

theorem Book.shaped (e : Book) : kind.schema.Shaped (kind.toDocument e) where
  bare := fitFor.bare lawful.schema e
  lists _ hr := absurd hr List.not_mem_nil

theorem Category.shaped (e : Category) : kind.schema.Shaped (kind.toDocument e) where
  bare := fitFor.bare lawful.schema e
  lists r hr _ := by
    obtain rfl := List.mem_singleton.mp hr
    exact ⟨e.phoneBookIds, rfl⟩

theorem Contact.shaped (e : Contact) : kind.schema.Shaped (kind.toDocument e) where
  bare := fitFor.bare lawful.schema e
  lists r hr hmany := by
    simp only [kind, schema, List.mem_cons, List.not_mem_nil, or_false] at hr
    rcases hr with rfl | rfl | rfl | rfl
    · exact ⟨e.record.secretaryIds, rfl⟩
    · cases hmany
    · exact ⟨e.record.categoryIds, rfl⟩
    · exact ⟨e.record.phoneBookIds, rfl⟩

/-- The schemas of the collections. -/
def schemas : List Schema := [Book.schema, Category.schema, Contact.schema]

namespace IsKind

variable {E : Type} {k : EntityKind E}

theorem shaped (h : IsKind k) (e : E) : k.schema.Shaped (k.toDocument e) := by
  cases h with
  | book => exact Book.shaped e
  | category => exact Category.shaped e
  | contact => exact Contact.shaped e

theorem wholeLists (h : IsKind k) : k.schema.WholeLists := by
  cases h <;> decide

theorem id_withId (h : IsKind k) (id : Uuid) (e : E) : k.id (k.withId id e) = id := by
  cases h with
  | book => rfl
  | category => rfl
  | contact =>
    obtain ⟨record, _, _, _, _⟩ := e
    rfl

theorem mem_schemas (h : IsKind k) : k.schema ∈ schemas := by
  cases h with
  | book => exact .head _
  | category => exact .tail _ (.head _)
  | contact => exact .tail _ (.tail _ (.head _))

theorem eq_schema (h : IsKind k) {sc : Schema} (hsc : sc ∈ schemas)
    (hname : sc.collection = k.collection) : sc = k.schema := by
  simp only [schemas, List.mem_cons, List.not_mem_nil, or_false] at hsc
  cases h <;> rcases hsc with rfl | rfl | rfl <;> first | rfl | exact absurd hname (by decide)

end IsKind

/-! ### Stores in order -/

/-- **A store in order.** Each document is kept under its own id, which is not nil, and it belongs
to one of the collections. It has no copies of other entities, and its lists of references are
lists of ids. -/
structure InOrder (s : Store) : Prop where
  keyed : s.Keyed
  assigned : ∀ name, ¬ s.Has name .nil
  shaped : ∀ name id d, (id, d) ∈ s.entries name →
    ∃ sc ∈ schemas, sc.collection = name ∧ sc.Shaped d

theorem empty_inOrder : InOrder .empty where
  keyed := empty_keyed
  assigned _ := List.not_mem_nil
  shaped _ _ _ hd := absurd hd List.not_mem_nil

/-- An entity is to be added. -/
def Call.isAdd : Call → Bool
  | .book (.add _) | .category (.add _) | .contact (.add _) => true
  | _ => false

/-- The ids that documents hold, in their order. -/
def heldIds (es : Entries) : List (Option Value) := es.map fun e => Document.value? e.2 "id"

/-- **Documents keep their ids**: one that is still there has the id that it had, and no id is new,
but that of an added document, beside which all others stay as they were. -/
structure Step.KeepsIds (x : Step) : Prop where
  same : ∀ name id d d', (id, d) ∈ x.before.entries name → (id, d') ∈ x.after.entries name →
    d'.value? "id" = d.value? "id"
  added : ∀ name, (heldIds (x.after.entries name)).Sublist (heldIds (x.before.entries name)) ∨
    x.call.isAdd = true ∧ ∃ new, (x.after.entries name).Perm (new :: x.before.entries name)

theorem heldIds_eq {es : Entries} (h : es.Keyed) :
    heldIds es = (es.map Prod.fst).map fun id => some (Value.ofUuid id) := by
  rw [heldIds, List.map_map]
  exact List.map_congr_left h.id

/-! ### Steps -/

theorem Step.HappensIn.cases {w : Surroundings} {x : Step} (h : x.HappensIn w) :
    ∃ (E : Type) (k : EntityKind E) (op : Operation E), IsKind k ∧
      (∀ e, op = .add e → x.call.isAdd = true) ∧
        (x.setup.collection k).LeavesIn w x.caller op x.before x.after := by
  obtain ⟨u, caller, call, s, t⟩ := x
  cases call with
  | book op => exact ⟨_, _, op, .book, fun _ hop => hop ▸ rfl, h⟩
  | category op => exact ⟨_, _, op, .category, fun _ hop => hop ▸ rfl, h⟩
  | contact op => exact ⟨_, _, op, .contact, fun _ hop => hop ▸ rfl, h⟩

/-- **A step keeps a store in order**, where nil is never drawn. -/
theorem Step.inOrder {w : Surroundings} (hw : ¬ w.draws .nil) {x : Step} (h : x.HappensIn w)
    (hx : InOrder x.before) : InOrder x.after := by
  obtain ⟨E, k, op, hkind, -, r, hruns⟩ := h.cases
  have hother : ∀ {name}, name ≠ k.collection → x.after.entries name = x.before.entries name :=
    fun hname => Collection.entries_program (c := x.setup.collection k) hkind.lawful hruns hname
  refine ⟨Collection.keyed_program hkind.lawful hruns hx.keyed, ?_, ?_⟩
  · intro name
    by_cases hname : name = k.collection
    · subst hname
      exact Collection.unowned_nil (c := x.setup.collection k) hkind.lawful hkind.linked
        hkind.id_withId hw hx.keyed hruns (hx.assigned _)
    · rw [Store.Has, hother hname]
      exact hx.assigned name
  · intro name id d hd
    by_cases hname : name = k.collection
    · subst hname
      have hall : ∀ id d, (id, d) ∈ x.before.entries k.collection → k.schema.Shaped d := by
        intro id d hd
        obtain ⟨sc, hsc, hcollection, hshaped⟩ := hx.shaped _ id d hd
        exact hkind.eq_schema hsc hcollection ▸ hshaped
      have heffect := effect_program (c := x.setup.collection k) hkind.lawful.schema hkind.linked
        hx.keyed op hruns
      have hafter := heffect.shaped hkind.lawful.schema hkind.linked hkind.wholeLists hkind.shaped
        hx.keyed hall
      exact ⟨k.schema, hkind.mem_schemas, rfl, hafter id d hd⟩
    · rw [hother hname] at hd
      exact hx.shaped name id d hd

/-- **A step keeps the ids of documents.** -/
theorem Step.keepsIds {w : Surroundings} {x : Step} (h : x.HappensIn w) (hk : x.before.Keyed) :
    x.KeepsIds := by
  obtain ⟨E, k, op, hkind, hadd, r, hruns⟩ := h.cases
  have hk' : x.after.Keyed := Collection.keyed_program hkind.lawful hruns hk
  constructor
  · intro name id d d' hd hd'
    rw [(hk' name).id _ hd', (hk name).id _ hd]
  · intro name
    by_cases hname : name = k.collection
    · subst hname
      rw [heldIds_eq (hk' _), heldIds_eq (hk _)]
      have heffect := effect_program (c := x.setup.collection k) hkind.lawful.schema hkind.linked hk
        op hruns
      rcases heffect.keys with hsub | ⟨e, new, hop, hperm⟩
      · exact .inl (hsub.map _)
      · exact .inr ⟨hadd e hop, new, hperm⟩
    · rw [Collection.entries_program (c := x.setup.collection k) hkind.lawful hruns hname]
      exact .inl (List.Sublist.refl _)

/-- **In every run from the empty store**, each document is kept under its own id, which is not nil
and stays while the document is there; it has no copies of other entities, and its lists of
references are lists of ids. -/
theorem identity_kept {w : Surroundings} (hw : ¬ w.draws .nil) {xs : List Step}
    (hrun : Run .empty xs) (hsteps : ∀ x ∈ xs, x.HappensIn w) :
    ∀ x ∈ xs, InOrder x.after ∧ x.KeepsIds := by
  intro x hx
  obtain ⟨-, hbefore, hafter⟩ := hrun.invariant empty_inOrder
    (fun y hy _ hbefore => y.inOrder hw (hsteps y hy) hbefore) x hx
  exact ⟨hafter, x.keepsIds (hsteps x hx) hbefore.keyed⟩

/-! ### Names that lead into a list -/

/-- An id as it is drawn. -/
def drawnId : Uuid := ⟨[1, 2, 3, 4, 5, 6, 0x47, 8, 0x89, 10, 11, 12, 13, 14, 15, 16], rfl⟩

/-- A book and a category without an id are added. Then a delta names the id of the category, its
copies of books, and a place in its list of books. -/
def misaddressed : List Call :=
  [.book (.add { Book.ofName "Office" with id := .ofByte 1 }),
   .category (.add { Category.ofName "Suppliers" with phoneBookIds := [.ofByte 1] }),
   .category (.applyDelta {
     id := drawnId
     properties := ["id", " phone_books "]
     paths := ["phone_book_ids.0"]
     data := { Category.ofName "" with phoneBookIds := [.ofByte 1, .ofByte 1] } })]

def drawing : Session := { Session.fresh with supply := fun _ => drawnId }

def misaddressedSteps : List Step := performed {} {} drawing misaddressed

def listedBooks (es : Entries) : List (Uuid × List Uuid) :=
  es.map fun e => (e.1, (Document.valueOrNull e.2 "phone_book_ids").uuids)

/-- The category keeps the id that was drawn, and the list is written as a whole. -/
theorem misaddressed_inOrder : (∀ x ∈ misaddressedSteps, InOrder x.after ∧ x.KeepsIds) ∧
    listedBooks ((misaddressedSteps.getLast (by decide)).after.entries "categories") =
      [(drawnId, [.ofByte 1, .ofByte 1])] := by
  have hdrawn : drawnId.IsRandom := by decide
  have hrun : Run .empty misaddressedSteps := run_performed {} {} (x := drawing) rfl misaddressed
  have hsteps : ∀ x ∈ misaddressedSteps, x.HappensIn .random :=
    happensIn_performed {} {} (x := drawing) rfl (fun _ => trivial) (fun _ => hdrawn) misaddressed
  exact ⟨identity_kept Surroundings.not_random_nil hrun hsteps, by decide +kernel⟩

end Directory

end Registrar
