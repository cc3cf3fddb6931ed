import Registrar.Proofs.Engine.Hiding
import Registrar.Proofs.Program.Refusing

/-!
# What is hidden looks missing

A caller asks for a document by its id. If the document is there but the caller may not access it,
then the answer is the one for a document that is not there: nothing else is looked at before the
document is loaded, and what is loaded and rejected is treated like nothing found.

* `Collection.Unseen`: the stores in which a caller sees no document with an id.
* `refused_load`, `refused_program`: what asks for the document is refused in all of them alike.
* `Collection.Conceals`: a store that hides a document, beside one that lacks it.
* `hidden_looks_missing`: the operations on the document do the same in both.
-/

namespace Registrar

namespace Collection

variable {E : Type} {c : Collection E} {caller : Caller} {id : Uuid} {s t : Store}

/-- **The caller may not access a document** with the id: the policy rejects it, or the document
does not meet the visibility filter. -/
def Withholds (c : Collection E) (caller : Caller) (id : Uuid) (d : Document) : Prop :=
  c.policy.grants c.name id caller = .ok false ∨
    Filter.admits (c.policy.visibility c.name caller) d = false

/-- **The caller sees no document with the id**: all that the filter for the id finds is hidden. -/
def Unseen (c : Collection E) (caller : Caller) (id : Uuid) (s : Store) : Prop :=
  ∀ d ∈ (s.entries c.name).documents, (Filter.hasId id).holds d = true → c.Withholds caller id d

/-- **What is found of a document** that the caller does not see is nothing, or is rejected. -/
theorem Unseen.answer (h : c.Unseen caller id s) {ds : List Document}
    (hperm : ds.Perm (s.entries c.name).documents) (limit : Option Nat) {d : Document}
    (hd : d ∈ ({ filter := some (c.visible caller (.hasId id)), limit : Query }).answer ds) :
    c.policy.grants c.name id caller = .ok false := by
  obtain ⟨hmem, hvisible⟩ := Query.mem_of_mem_answer hd
  obtain ⟨hholds, hadmits⟩ := holds_visible_iff.mp hvisible
  refine (h d (hperm.mem_iff.mp hmem) hholds).resolve_right fun hhidden => ?_
  rw [hadmits] at hhidden
  exact absurd hhidden (by decide)

/-- What loading makes of the documents that were found. -/
def granted (c : Collection E) (caller : Caller) (id : Uuid) (place : String)
    (ds : List Document) : OperationM Document :=
  match ds.head? with
  | none => throw (.missing c.name id)
  | some d => do
    let accessible ← OperationM.inPlace place
      (StoreM.ofExcept (c.policy.grants c.name id caller))
    if accessible then return d else throw (.missing c.name id)

theorem granted_of_rejected {ds : List Document}
    (h : ∀ d ∈ ds, c.policy.grants c.name id caller = .ok false) (place : String) :
    c.granted caller id place ds = throw (.missing c.name id) := by
  cases ds with
  | nil => rfl
  | cons d ds =>
    rw [granted, List.head?_cons, h d List.mem_cons_self]
    rfl

/-- **A document that the caller does not see** is not loaded. -/
theorem refused_load (place : String) :
    (c.load caller id place).run.Refused (c.Unseen caller id) := by
  intro cancelled
  cases cancelled with
  | true => exact rfl
  | false =>
    have hmissing : ∀ u ds, c.Unseen caller id u → ds.Perm (u.entries c.name).documents →
        (c.granted caller id place (Query.answer
          { filter := some (c.visible caller (.hasId id)), limit := some 1 } ds)).run =
          .done (.error (.missing c.name id)) := by
      intro u ds hu hds
      rw [granted_of_rejected fun d hd => hu.answer hds _ hd]
      rfl
    refine ⟨rfl, ?_, ?_, fun e => rfl⟩
    · rintro s t a b hs ht ⟨⟨ds, hds, rfl⟩, -⟩ ⟨⟨ds', hds', rfl⟩, -⟩
      exact (hmissing s ds hs hds).trans (hmissing t ds' ht hds').symm
    · rintro s a hs ⟨⟨ds, hds, rfl⟩, -⟩
      change ((c.granted caller id place _).run).Refused _
      rw [hmissing s ds hs hds]
      exact rfl

/-- A relation that is not there refuses the operation before anything is loaded. -/
theorem refused_relation {α : Type} {S : Store → Prop} (name : String) (cardinality : Cardinality)
    {k : Relation → OperationM α} (hk : ∀ r, (k r).run.Refused S) :
    (c.relation name cardinality >>= k).run.Refused S := by
  rw [relation]
  split
  · exact hk _
  · exact rfl

/-- **An operation on one document** is refused alike in all stores in which the caller does not
see the document. -/
theorem refused_program {op : Operation E} (hop : op.subject? c.kind = some id) :
    (op.program c caller).run.Refused (c.Unseen caller id) := by
  cases op with
  | update e asked =>
    cases hop
    exact ((refused_load _).bind _).bind _
  | applyDelta delta =>
    cases hop
    exact ((refused_load _).bind _).bind _
  | get id lookup =>
    cases hop
    exact ((refused_load _).bind _).bind _
  | delete id =>
    cases hop
    exact ((refused_load _).bind _).bind _
  | link id name target =>
    cases hop
    exact Program.Refused.bind (refused_relation name .many fun r => (refused_load _).bind _) _
  | unlink id name target =>
    cases hop
    exact Program.Refused.bind (refused_relation name .many fun r => (refused_load _).bind _) _
  | refer id name target =>
    cases hop
    exact Program.Refused.bind (refused_relation name .one fun r => (refused_load _).bind _) _
  | add e => cases hop
  | search p => cases hop
  | assign bulk => cases hop
  | deleteListed ids => cases hop

/-! ### Two stores -/

/-- **A store hides a document that another one lacks**: in the operation's collection the first
one keeps a document under the id which the caller may not access, and has the documents of the
second one besides; and the second one has no document with the id. -/
structure Conceals (c : Collection E) (caller : Caller) (id : Uuid) (d : Document)
    (s t : Store) : Prop where
  stored : (s.entries c.name).Perm ((id, d) :: t.entries c.name)
  hidden : c.Withholds caller id d
  absent : ∀ x ∈ (t.entries c.name).documents, (Filter.hasId id).holds x = false

variable {d : Document}

theorem Conceals.unseen_right (h : c.Conceals caller id d s t) : c.Unseen caller id t := by
  intro x hx hholds
  rw [h.absent x hx] at hholds
  exact absurd hholds (by decide)

theorem Conceals.unseen_left (h : c.Conceals caller id d s t) : c.Unseen caller id s := by
  intro x hx hholds
  have hmem : x ∈ d :: (t.entries c.name).documents := (h.stored.map Prod.snd).mem_iff.mp hx
  rcases List.mem_cons.mp hmem with rfl | hx
  · exact h.hidden
  · exact h.unseen_right x hx hholds

/-- **Deleting a hidden document** leaves a store that lacks it. -/
theorem conceals_deleteFirst (hk : s.Keyed) (hd : (id, d) ∈ s.entries c.name)
    (hidden : c.Withholds caller id d) :
    c.Conceals caller id d s (s.deleteFirst (.hasId id) c.name).1 := by
  have hfound : Entries.meets (.hasId id) (id, d) = true :=
    (Filter.hasId_holds ((hk c.name).id _ hd) id).mpr rfl
  obtain ⟨⟨k, x⟩, before, after, -, hx, hs, ht⟩ := List.exists_of_eraseP hd hfound
  have hmem : (k, x) ∈ s.entries c.name := by rw [hs]; simp
  obtain rfl : k = id := (Filter.hasId_holds ((hk c.name).id _ hmem) id).mp hx
  obtain rfl := Entries.eq_of_mem (hk c.name).nodup hmem hd
  have hentries : (s.deleteFirst (.hasId k) c.name).1.entries c.name = before ++ after := by
    rw [Store.deleteFirst, Store.entries_modify _ _ _ rfl, if_pos rfl]
    exact ht
  have hperm : (s.entries c.name).Perm ((k, x) :: (before ++ after)) := hs ▸ List.perm_middle
  have hfresh : k ∉ (before ++ after).map Prod.fst :=
    (List.nodup_cons.mp ((hperm.map Prod.fst).nodup_iff.mp (hk c.name).nodup)).1
  refine ⟨hentries.symm ▸ hperm, hidden, fun y hy => ?_⟩
  rw [hentries] at hy
  obtain ⟨k', hy⟩ := Entries.mem_documents.mp hy
  have hyid := (hk c.name).id _ (hperm.mem_iff.mpr (List.mem_cons_of_mem _ hy))
  refine Bool.eq_false_iff.mpr fun hholds => hfresh ?_
  obtain rfl := (Filter.hasId_holds hyid k).mp hholds
  exact List.mem_map.mpr ⟨_, hy, rfl⟩

end Collection

/-- **Hidden means missing.** With a store that hides a document and with one that lacks it, an
operation on this document may do the same in all surroundings, and does the same in each session
in which nobody else writes; it fails, and leaves the store as it is. -/
theorem hidden_looks_missing {E : Type} {c : Collection E} {caller : Caller} {id : Uuid}
    {d : Document} {s t : Store} (h : c.Conceals caller id d s t) {op : Operation E}
    (hop : op.subject? c.kind = some id) :
    (∀ w r u, (op.program c caller).run.Runs w s r u →
      u = s ∧ r.isOk = false ∧ (op.program c caller).run.Runs w t r t) ∧
    (∀ w r u, (op.program c caller).run.Runs w t r u →
      u = t ∧ r.isOk = false ∧ (op.program c caller).run.Runs w s r s) ∧
    ∀ x : Session, x.Alone → ∃ r y, r.isOk = false ∧
      (op.program c caller).run.run (x.withStore s) = (r, Session.withStore y s) ∧
      (op.program c caller).run.run (x.withStore t) = (r, y.withStore t) := by
  have hrefused : (op.program c caller).run.Refused (c.Unseen caller id) :=
    Collection.refused_program hop
  refine ⟨fun w r u hr => ?_, fun w r u hr => ?_, fun x hx => ?_⟩
  · obtain ⟨hu, hfails, hall⟩ := hrefused.runs h.unseen_left hr
    exact ⟨hu, hfails, hall t h.unseen_right⟩
  · obtain ⟨hu, hfails, hall⟩ := hrefused.runs h.unseen_right hr
    exact ⟨hu, hfails, hall s h.unseen_left⟩
  · obtain ⟨r, y, hfails, hall⟩ := hrefused.run h.unseen_left hx
    exact ⟨r, y, hfails, hall s h.unseen_left, hall t h.unseen_right⟩

namespace Directory

/-- The shelf without its hidden book. -/
def lighterShelf : Store := (shelf.deleteFirst (.hasId firstBook) guardedBooks.name).1

/-- Looking up the hidden book on the shelf, and on the shelf without it. -/
theorem getHidden_missing : ∃ d, guardedBooks.Conceals {} firstBook d shelf lighterShelf ∧
    (Operation.get firstBook true).subject? guardedBooks.kind = some firstBook ∧
    ∃ r y, r.isOk = false ∧
      ((Operation.get firstBook true).program guardedBooks {}).run.run
        { store := shelf, supply := fun _ => .nil } = (r, Session.withStore y shelf) ∧
      ((Operation.get firstBook true).program guardedBooks {}).run.run
        { store := lighterShelf, supply := fun _ => .nil } = (r, y.withStore lighterShelf) := by
  obtain ⟨d, hd⟩ : ∃ d, (firstBook, d) ∈ shelf.entries guardedBooks.name :=
    Store.has_iff.mp (show firstBook ∈ (shelf.entries guardedBooks.name).map Prod.fst by
      decide +kernel)
  have h : guardedBooks.Conceals {} firstBook d shelf lighterShelf :=
    Collection.conceals_deleteFirst shelf_made.keyed hd (.inl (by decide))
  have hop : (Operation.get firstBook true).subject? guardedBooks.kind = some firstBook := rfl
  exact ⟨d, h, hop, (hidden_looks_missing h hop).2.2
    { store := shelf, supply := fun _ => .nil } (by simp [Session.Alone])⟩

end Directory

end Registrar
