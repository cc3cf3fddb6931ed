import Registrar.Proofs.Directory.Deltas
import Registrar.Proofs.Directory.References
import Registrar.Proofs.Engine.Listed

/-!
# Listed entities of the directory

In every store that a run reaches, deleting and assigning by a list of ids hit the documents that
are listed, accepted and admitted, each once. What is assigned is the canonical form of the template
without references to missing entities, as long as no property has blanks around it.

* `listed_hit`: what is left of a store, and what is told.
* `padded_strays`: a missing manager that is assigned because of a blank.
-/

namespace Registrar.Directory

/-- **Operations on listed entities** hit what they have to, and nothing else. -/
theorem listed_hit {E : Type} {k : EntityKind E} (hk : IsKind k) {s t : Store} (hs : Reached s)
    (u : Setup) (caller : Caller) {n : Nat} :
    (∀ listed, ((u.collection k).deleteListed caller listed).run.Runs .any s (.ok n) t →
      (u.collection k).Deleted caller s listed n t) ∧
    ∀ bulk : Assignment E, (∀ p ∈ bulk.properties, '.' ∉ p.toList) →
      ((u.collection k).assign caller bulk).run.Runs .any s (.ok n) t →
        (u.collection k).Assigned caller s bulk n t ∧
          ∀ f, (u.collection k).Overlooks bulk.properties f →
            ∀ p ∈ bulk.properties, k.schema.reached? p = some f → Text.trim p ≠ p := by
  refine ⟨fun listed h => Collection.deleted_of_ok hs.keyed h, fun bulk hdot h => ⟨?_, ?_⟩⟩
  · exact Collection.assigned_of_ok (c := u.collection k) hk.lawful.schema hk.linked
      hk.versionName? hs.keyed (hs.counted _) hdot h
  · intro f hover p hp hreach
    exact hover.padded (c := u.collection k) hk.knowsRelations hp (hdot p hp) hreach

/-! ### A blank that matters -/

/-- Two contacts. -/
def colleagues : Session := serveAll {} {} .fresh
  [.contact (.add (.ofRecord { ContactRecord.ofName "Ann" "Aebi" with id := .ofByte 1 })),
   .contact (.add (.ofRecord { ContactRecord.ofName "Max" "Marti" with id := .ofByte 2 }))]

theorem colleagues_reached : Reached colleagues.store :=
  Reached.empty.serveAll (x := .fresh) rfl _ _ _

/-- A template with a manager who is missing. -/
def unmanaged : Contact :=
  .ofRecord { ContactRecord.ofName "" "" with managerId := some (.ofByte 9) }

/-- An assignment of the manager, spelled with a blank. -/
def assignManager : Assignment Contact :=
  ⟨[.ofByte 1, .ofByte 9, .ofByte 1], [" manager_id"], unmanaged⟩

/-- Ids of two contacts, of which the second is listed twice, and of nobody. -/
def dismissed : List Uuid := [.ofByte 2, .ofByte 9, .ofByte 2]

/-- **A blank lets a missing manager pass.** One contact is deleted, although it is listed twice,
and one gets the manager whom the template names, although there is nobody with this id. -/
theorem padded_strays : Reached colleagues.store ∧
    (∃ t, (({} : Setup).contacts.deleteListed {} dismissed).run.Runs .any colleagues.store
      (.ok 1) t ∧ ({} : Setup).contacts.Deleted {} colleagues.store dismissed 1 t) ∧
    ∃ t d', (({} : Setup).contacts.assign {} assignManager).run.Runs .any colleagues.store
      (.ok 1) t ∧ ({} : Setup).contacts.Assigned {} colleagues.store assignManager 1 t ∧
      (.ofByte 1, d') ∈ t.entries "contacts" ∧
      d'.value? "manager_id" = some (Value.ofUuid (.ofByte 9)) := by
  obtain ⟨n, hdeletes, hn⟩ := exists_runs_ok (({} : Setup).contacts.deleteListed {} dismissed)
    (x := colleagues) rfl (p := (· == 1)) (by decide +kernel)
  obtain rfl := eq_of_beq hn
  obtain ⟨m, hassigns, hm⟩ := exists_runs_ok (({} : Setup).contacts.assign {} assignManager)
    (x := colleagues) rfl (p := (· == 1)) (by decide +kernel)
  obtain rfl := eq_of_beq hm
  have hassigned := ((listed_hit .contact colleagues_reached {} {}).2 assignManager (by decide)
    hassigns).1
  obtain ⟨⟨id, d⟩, hd, rfl, hhit⟩ : ∃ e ∈ colleagues.store.entries "contacts", e.1 = .ofByte 1 ∧
      ({} : Setup).contacts.hits {} assignManager.ids e = true := by decide +kernel
  obtain ⟨e', now, he', hall⟩ := hassigned.received (by decide)
  obtain ⟨d', hd', hreceives⟩ := hall _ d hd hhit
  have hnormal : (Draws.done unmanaged).Gives e' := he'
  cases hnormal
  have hfield : Field.dependency "manager_id" .id ∈ Contact.schema.fields :=
    List.mem_of_getElem? (i := 8) rfl
  have hmissing : ¬ colleagues.store.Has "contacts" (.ofByte 9) := by decide +kernel
  have hstrays : ({} : Setup).contacts.Strays colleagues.store assignManager.properties unmanaged
      (Field.dependency "manager_id" .id) :=
    ⟨⟨rfl, managerRelation, .tail _ (.head _), rfl, by decide +kernel⟩, managerRelation,
      .tail _ (.head _), rfl, .ofByte 9, by decide +kernel, hmissing⟩
  have hdeleted := (listed_hit .contact colleagues_reached {} {}).1 dismissed hdeletes
  exact ⟨colleagues_reached, ⟨_, hdeletes, hdeleted⟩, _, d', hassigns, hassigned, hd',
    hreceives.strayed _ hfield ⟨_, .head _, rfl⟩ hstrays⟩

end Registrar.Directory
