import Registrar.Proofs.Directory.Deltas
import Registrar.Proofs.Engine.Dangling
import Registrar.Proofs.Engine.Relinking

/-!
# References of the directory

In every store that a run reaches, linking, unlinking and referring do what they say to an entity
that the caller sees. They do it once: repeating them changes nothing. But changing a reference may
hide the entity from a caller whose filter asks for references. Then the entity looks missing, also
to the caller who changed it.

* `relink_exact`: what a change of references does, and what it does when it is made again.
* `supplier_hides`: a contact that is hidden by the change.
-/

namespace Registrar.Directory

theorem IsKind.reached_relinked {E : Type} {k : EntityKind E} (hk : IsKind k) {s t : Store}
    (hs : Reached s) {u : Setup} {caller : Caller} {id : Uuid} {name : String} {m : Relinking}
    {b : Bool} (h : (m.program (u.collection k) caller id name).run.Runs .calm s (.ok b) t) :
    Reached t :=
  hk.reached hs u caller (m.operation id name) ⟨_, (Collection.runs_operation h).any⟩

/-- **What a change of references does** in every store that is reached: nothing if the ids are as
they should be, a failure if the entity to refer to is missing, and otherwise exactly the change of
the ids. Made once more it changes nothing, and a linked id can be unlinked, as long as the caller
sees the document that was left. -/
theorem relink_exact {E : Type} {k : EntityKind E} (hk : IsKind k) {s : Store} (hs : Reached s)
    (u : Setup) (caller : Caller) {id : Uuid} {d : Document}
    (hd : (id, d) ∈ s.entries (u.collection k).name)
    (hsees : u.policy.Sees caller (u.collection k).name d) {name : String} {r : Relation}
    (hr : k.schema.relation? name = some r) (m : Relinking) (hm : r.cardinality = m.cardinality) :
    (u.collection k).Relinks caller s id d name r m ∧
      ∀ answer t, (m.program (u.collection k) caller id name).run.Runs .calm s answer t →
        answer = .ok true → Reached t ∧ ∃ d',
          (u.collection k).Relinked s id d r (m.changed (r.targetIds d)) d' t ∧
            (u.collection k).Relinkable caller t id name r m (r.targetIds d) d' := by
  have hrelinks : (u.collection k).Relinks caller s id d name r m :=
    Collection.relinks hk.lawful.schema hk.versionName? hs.counted hd hsees hr hm
  refine ⟨hrelinks, ?_⟩
  rintro answer t hrun rfl
  have ht : Reached t := hk.reached_relinked hs hrun
  have hopen : ¬ m.Settled (r.targetIds d) := fun hsettled =>
    nomatch ((hrelinks.settled hsettled _ _).mp hrun).1
  have hexist : ∀ target, m.newcomer? = some target → s.Has r.target target := by
    intro target htarget
    by_contra hmissing
    exact nomatch ((hrelinks.missing hopen target htarget hmissing _ _).mp hrun).1
  obtain ⟨-, d', hd'⟩ := hrelinks.written hopen hexist _ t hrun
  exact ⟨ht, d', hd', Collection.relinkable hk.lawful.schema hk.versionName? hs.keyed ht.counted hd
    hsees hr hm hopen hd'⟩

/-! ### A contact that becomes a supplier -/

/-- A category and a contact. -/
def suppliers : Session := serveAll {} {} .fresh
  [.category (.add { Category.ofName "Suppliers" with id := .ofByte 1 }),
   .contact (.add (.ofRecord { ContactRecord.ofName "Ann" "Aebi" with id := .ofByte 2 }))]

theorem suppliers_reached : Reached suppliers.store :=
  Reached.empty.serveAll (x := .fresh) rfl _ _ _

/-- The contact joins the category. -/
def join : Relinking := .link (.ofByte 1)

/-- The contact joins, and joining again changes nothing. -/
theorem join_exact : Reached suppliers.store ∧ ∃ d t d',
    (Uuid.ofByte 2, d) ∈ suppliers.store.entries "contacts" ∧
      (join.program (({} : Setup).collection Contact.kind) {} (.ofByte 2) "Categories").run.Runs
        .calm suppliers.store (.ok true) t ∧
      (.ofByte 2, d') ∈ t.entries "contacts" ∧
      d'.value? "category_ids" = some (Value.ofUuids [.ofByte 1]) ∧
      Surely t (join.program (({} : Setup).collection Contact.kind) {} (.ofByte 2) "Categories")
        (.ok false) := by
  obtain ⟨_, hrun, rfl⟩ := exists_calm_runs_ok (x := suppliers) (p := id)
    (join.program (({} : Setup).collection Contact.kind) {} (.ofByte 2) "Categories") rfl rfl
    (by decide +kernel)
  obtain ⟨⟨k, d⟩, hd, rfl, hnone⟩ : ∃ e ∈ suppliers.store.entries "contacts", e.1 = .ofByte 2 ∧
      categoriesRelation.targetIds e.2 = [] := by decide +kernel
  have hsees : ({} : Setup).policy.Sees {} "contacts" d :=
    ⟨(AccessPolicy.accepts_iff (suppliers_reached.keyed "contacts") hd).mpr rfl, rfl⟩
  have hr : Contact.kind.schema.relation? "Categories" = some categoriesRelation := rfl
  obtain ⟨-, hexact⟩ := relink_exact .contact suppliers_reached {} {} hd hsees hr join rfl
  obtain ⟨-, d', hrelinked, hagain⟩ := hexact _ _ hrun rfl
  refine ⟨suppliers_reached, d, _, d', hd, hrun, hrelinked.left, ?_, hagain.repeated rfl⟩
  have hwritten := hrelinked.written
  rw [hnone] at hwritten
  exact hwritten

/-- Suppliers are hidden. -/
def noSuppliers : AccessPolicy where
  grants _ _ _ := .ok true
  visibility _ _ := some (.ne "category_ids" (Value.ofUuid (.ofByte 1)))
  isComplete _ _ := false

/-- Contacts, apart from suppliers. -/
def others : Collection Contact := Setup.collection { policy := noSuppliers } Contact.kind

/-- **A change may hide the contact** from the caller who made it. Joining the suppliers succeeds,
and joining again finds no contact. -/
theorem supplier_hides : Reached suppliers.store ∧ ∃ d t,
    (Uuid.ofByte 2, d) ∈ suppliers.store.entries others.name ∧
      noSuppliers.Sees {} others.name d ∧
      (join.program others {} (.ofByte 2) "Categories").run.Runs .calm suppliers.store (.ok true)
        t ∧
      ∀ answer v, (join.program others {} (.ofByte 2) "Categories").run.Runs .calm t answer v →
        answer = .error (.missing others.name (.ofByte 2)) := by
  obtain ⟨⟨k, d⟩, hd, rfl, hvisible⟩ : ∃ e ∈ suppliers.store.entries others.name,
      e.1 = .ofByte 2 ∧ Filter.admits (noSuppliers.visibility others.name {}) e.2 = true := by
    decide +kernel
  obtain ⟨t, hrun, ⟨k', d'⟩, hd', rfl, hhidden⟩ : ∃ t, (join.program others {} (.ofByte 2)
      "Categories").run.Runs .calm suppliers.store (.ok true) t ∧
        ∃ e ∈ t.entries others.name, e.1 = .ofByte 2 ∧
          Filter.admits (noSuppliers.visibility others.name {}) e.2 = false := by
    obtain ⟨_, hrun, rfl⟩ := exists_calm_runs_ok (x := suppliers) (p := id)
      (join.program others {} (.ofByte 2) "Categories") rfl rfl (by decide +kernel)
    exact ⟨_, hrun, by decide +kernel⟩
  have ht := IsKind.contact.reached_relinked suppliers_reached hrun
  have hsees : noSuppliers.Sees {} others.name d :=
    ⟨(AccessPolicy.accepts_iff (suppliers_reached.keyed _) hd).mpr rfl, hvisible⟩
  refine ⟨suppliers_reached, d, t, hd, hsees, hrun, fun answer v hagain => ?_⟩
  rw [Relinking.program_eq (r := categoriesRelation) join rfl rfl] at hagain
  exact (((Collection.surely_load_of_hidden ht.keyed hd' hhidden _).bind_error _ _).mp hagain).1

end Registrar.Directory
