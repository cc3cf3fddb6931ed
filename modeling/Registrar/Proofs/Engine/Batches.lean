import Registrar.Proofs.Engine.Searching

/-!
# Many documents at once

Filling in the copies of many documents takes one query and one question to the access policy for
each relation, about all the entities that any of the documents refers to. Every document gets the
copies that it would get alone, whatever the documents share, repeat, miss, or are refused.

A policy may fail to decide. Alone, a document fails when the policy does not decide about an
existing entity that it refers to; the batch fails when this is so for one of its documents. So
both ways tell the same of the documents for which the policy decides.

* `SurelyFails`: a program that can only fail.
* `surely_resolve`, `surelyFails_resolve`: what a document gets alone.
* `hydrateEach_pointwise`: **each document gets what it gets alone**.
-/

namespace Registrar

/-- **A program surely fails**, and leaves the store as it is. -/
def SurelyFails {ε α : Type} (s : Store) (m : ExceptT ε Program α) : Prop :=
  ∀ r t, m.run.Runs .calm s r t → t = s ∧ ∃ e, r = .error e

variable {w : Surroundings} {s : Store}

theorem Surely.not_fails {ε α : Type} {m : ExceptT ε Program α} {a : α}
    (h : Surely s m (.ok a)) : ¬ SurelyFails s m := by
  intro hfails
  obtain ⟨-, e, he⟩ := hfails _ _ ((h _ _).mpr ⟨rfl, rfl⟩)
  cases he

theorem surely_resolve (sc : Schema) (hk : s.Keyed) {viewer : Viewer} {d : Document}
    (h : Relation.DecidedAll viewer s false sc.relations d) :
    Surely s (sc.resolve viewer ⟨false, true⟩ none d)
      (.ok (sc.relations.foldl (Relation.followedIn viewer s false) d, [])) := by
  refine Tells.surely ((Relation.tells_resolveAll id id hk (absurd h)).mono fun out hout => ?_)
  rw [hout.2, Relation.followedChanges_unpruned]

theorem surelyFails_resolve (sc : Schema) (hk : s.Keyed) {viewer : Viewer} {d : Document}
    (h : ¬ Relation.DecidedAll viewer s false sc.relations d) :
    SurelyFails s (sc.resolve viewer ⟨false, true⟩ none d) := by
  intro r t hrun
  obtain ⟨rfl, hr⟩ := Relation.tells_resolveAll (F := True) (fun _ => trivial) (fun _ => trivial)
    hk (fun _ => trivial) r t hrun
  cases r with
  | ok out => exact absurd hr.1 h
  | error e => exact ⟨rfl, e, rfl⟩

/-- **Each document gets what it gets alone.** If the copies of many documents are filled in, in
whatever surroundings, then each of them is what following its relations without pruning surely
makes of it, for the same viewer. If this fails without being disturbed, then one of the documents
surely fails alone. -/
theorem hydrateEach_pointwise (sc : Schema) (hk : s.Keyed) (viewer : Viewer) (ds : List Document)
    {r : Except StoreError (List Document)} {t : Store}
    (h : (sc.hydrateEach viewer ds).run.Runs w s r t) :
    t = s ∧
      (∀ out, r = .ok out → List.Forall₂ (fun d d' =>
        Surely s (sc.resolve viewer ⟨false, true⟩ none d) (.ok (d', []))) ds out) ∧
      ∀ e, r = .error e → w.cancels ∨ w.fails ∨
        ∃ d ∈ ds, SurelyFails s (sc.resolve viewer ⟨false, true⟩ none d) := by
  have htells : Tells w s (w.cancels ∨ w.fails ∨
      ¬ ∀ d ∈ ds, Relation.DecidedAll viewer s false sc.relations d) _
        (sc.hydrateEach viewer ds) :=
    Relation.tells_hydrateEach .inl (.inr ∘ .inl) hk (.inr ∘ .inr)
  obtain ⟨rfl, hr⟩ := htells r t h
  refine ⟨rfl, ?_, ?_⟩
  · rintro out rfl
    obtain ⟨hdecided, rfl⟩ := hr
    rw [List.forall₂_map_right_iff, List.forall₂_same]
    exact fun d hd => surely_resolve sc hk (hdecided d hd)
  · rintro e rfl
    refine hr.imp_right (Or.imp_right fun hundecided => ?_)
    obtain ⟨d, hd, hnot⟩ : ∃ d ∈ ds, ¬ Relation.DecidedAll viewer t false sc.relations d := by
      simpa using hundecided
    exact ⟨d, hd, surelyFails_resolve sc hk hnot⟩

/-! ### Contacts with one manager -/

namespace Directory

/-- Somebody who may not see the manager of the staff. -/
def outsider : Viewer :=
  some ({ AccessPolicy.unrestricted with grants := fun _ id _ => .ok (id ≠ .ofByte 3) }, {})

/-- All of the staff, one after the other and then once more. -/
def staffTwice : List Document := (staffStore.entries "contacts").documents ++
  (staffStore.entries "contacts").documents

/-- **The staff in one batch**: the run succeeds, and each contact is what it is alone. -/
theorem staffTwice_pointwise : staffStore.Keyed ∧ ∃ out,
    (Contact.schema.hydrateEach outsider staffTwice).run.Runs .calm staffStore (.ok out)
      staffStore ∧
    List.Forall₂ (fun d d' => Surely staffStore
      (Contact.schema.resolve outsider ⟨false, true⟩ none d) (.ok (d', []))) staffTwice
        out := by
  obtain ⟨r, t, hrun⟩ := Program.exists_runs (w := .calm) ⟨.nil, trivial⟩
    (Contact.schema.hydrateEach outsider staffTwice).run staffStore
  obtain ⟨rfl, hok, herror⟩ := hydrateEach_pointwise _ staffStore_keyed _ _ hrun
  refine ⟨staffStore_keyed, ?_⟩
  cases r with
  | ok out => exact ⟨out, hrun, hok out rfl⟩
  | error e =>
    obtain ⟨d, -, hfails⟩ := ((herror e rfl).resolve_left id).resolve_left id
    have hdecided : Relation.DecidedAll outsider staffStore false Contact.schema.relations d :=
      Relation.decidedAll_of_answers _ (fun _ _ => ⟨_, rfl⟩) _ d
    exact absurd hfails (surely_resolve _ staffStore_keyed hdecided).not_fails

end Directory

end Registrar
