import Registrar.Proofs.Engine.LostUpdates
import Registrar.Proofs.Program.Discreet

/-!
# Operations keep the store's words to themselves

Wherever a call of the store fails in the course of an operation, its caller learns what kind of
failure it is, and the store's own text goes into the detail that is kept for the log. Each part of
an operation is discreet, so the operations are; and if an operation was told the same in other
words, then its caller is shown the same.

* `discreet_load`, `discreet_resolve`, `discreet_commit` and others: one lemma for each part.
* `discreet_program`: every operation is discreet.
* `texts_stay_inside`: what callers are shown does not depend on the text of a store error.
-/

namespace Registrar

open Program

variable {E : Type} (c : Collection E) (caller : Caller)

/-! ### Following relations -/

namespace Relation

theorem discreet_fetch (r : Relation) (ids : List Uuid) : Discreet .withoutText (r.fetch ids) := by
  rw [fetch]
  split
  · exact discreet_pure _
  · exact (discreet_call _).guarded.bind fun ds => discreet_pure _

theorem discreet_resolve (r : Relation) (viewer : Viewer) (options : FollowOptions)
    (d : Document) : Discreet .withoutText (r.resolve viewer options d) := by
  refine (r.discreet_fetch _).bind fun found => ?_
  exact (discreet_ofExcept _).bind fun hidden => discreet_pure _

theorem discreet_resolveAll (viewer : Viewer) (options : FollowOptions) (rs : List Relation)
    (d : Document) (changes : Changes) :
    Discreet .withoutText (resolveAll viewer options rs d changes) := by
  induction rs generalizing d changes with
  | nil => exact discreet_pure _
  | cons r rs ih => exact (r.discreet_resolve viewer options d).bind fun out => ih _ _

theorem discreet_hydrateEach (viewer : Viewer) (rs : List Relation) (ds : List Document) :
    Discreet .withoutText (hydrateEach viewer rs ds) := by
  induction rs generalizing ds with
  | nil => exact discreet_pure _
  | cons r rs ih =>
    refine Discreet.bind ?_ fun ds => ih ds
    refine (r.discreet_fetch _).bind fun found => ?_
    exact (discreet_ofExcept _).bind fun hidden => discreet_pure _

end Relation

theorem Schema.discreet_resolve (s : Schema) (viewer : Viewer) (options : FollowOptions)
    (only : Option (List String)) (d : Document) :
    Discreet .withoutText (s.resolve viewer options only d) :=
  Relation.discreet_resolveAll _ _ _ _ _

theorem discreet_entityExists (collection : String) (id : Uuid) :
    Discreet .withoutText (entityExists collection id) :=
  (discreet_call _).guarded.bind fun _ => discreet_pure _

namespace Collection

/-! ### Before a write -/

theorem discreet_ofDocument (d : Document) : Discreet .withoutText (c.ofDocument d) :=
  discreet_ofExcept _

theorem discreet_load (id : Uuid) (place : String) :
    Discreet .withoutDetail (c.load caller id place) := by
  refine ((discreet_call _).guarded.inPlace _).bind fun ds => ?_
  cases ds.head? with
  | none => exact discreet_throw _
  | some d =>
    refine ((discreet_ofExcept _).inPlace _).bind fun accessible => ?_
    cases accessible with
    | true => exact discreet_pure _
    | false => exact discreet_throw _

theorem discreet_stamps : Discreet .withoutDetail (c.stamps caller) :=
  discreet_ofProgram (.ask fun a b h => by cases h; exact .done rfl)

theorem discreet_stampedUpdate (changes : Changes) :
    Discreet .withoutDetail (c.stampedUpdate caller changes) :=
  (c.discreet_stamps caller).bind fun _ => discreet_pure _

theorem discreet_refuseTakenName (d : Document) (id : Uuid) (place : String) :
    Discreet .withoutDetail (c.refuseTakenName d id place) := by
  rw [refuseTakenName]
  split
  · exact discreet_pure _
  · refine ((discreet_call _).guarded.inPlace _).bind fun n => ?_
    split
    · exact discreet_throw _
    · exact discreet_pure _

theorem discreet_refuseTakenRename (changes : Changes) (id : Uuid) (place : String) :
    Discreet .withoutDetail (c.refuseTakenRename changes id place) := by
  rw [refuseTakenRename]
  split
  · split
    · exact c.discreet_refuseTakenName _ id place
    · exact discreet_pure _
  · exact discreet_pure _

theorem discreet_prunedIf (prune : Bool) (only : Option (List String)) (d : Document)
    (place : String) : Discreet .withoutDetail (c.prunedIf prune only d place) := by
  rw [prunedIf]
  split
  · exact ((c.schema.discreet_resolve _ _ _ _).inPlace _).bind fun _ => discreet_pure _
  · exact discreet_pure _

theorem discreet_prepared (e : E) : Discreet .withoutDetail (c.prepared e) := by
  refine (discreet_ofProgram (alike_ofDraws _)).bind fun e => ?_
  split
  · refine Discreet.bind ?_ fun id => discreet_pure _
    exact discreet_ofProgram (.ask fun a b h => by cases h; exact .done rfl)
  · exact discreet_pure _

theorem discreet_refuseShared (changes : Changes) (n : Nat) :
    Discreet .withoutDetail (c.refuseShared changes n) := by
  rw [refuseShared]
  split
  · split
    · exact discreet_throw _
    · exact discreet_pure _
  · exact discreet_pure _

theorem discreet_relation (name : String) (cardinality : Cardinality) :
    Discreet .withoutDetail (c.relation name cardinality) := by
  rw [relation]
  split
  · exact discreet_pure _
  · exact discreet_throw _

theorem discreet_requireTarget (r : Relation) (target : Uuid) (place : String) :
    Discreet .withoutDetail (requireTarget r target place) := by
  refine ((discreet_entityExists _ _).inPlace _).bind fun b => ?_
  cases b with
  | true => exact discreet_pure _
  | false => exact discreet_throw _

/-! ### Writing -/

theorem discreet_checked (call : StoreCall) (place : String) :
    Discreet .withoutDetail
      (OperationM.inPlace place (StoreM.check >>= fun _ => StoreM.call call)) :=
  (discreet_check.bind fun _ => discreet_call call).inPlace place

theorem discreet_writeUpdate (id : Uuid) (version : Option Int64) (update : Update)
    (place : String) : Discreet .withoutDetail (c.writeUpdate id version update place) := by
  refine (discreet_checked _ place).bind fun matched => ?_
  split
  · split
    · exact discreet_throw _
    · exact discreet_throw _
  · exact discreet_pure _

theorem discreet_writeStamped (id : Uuid) (version : Option Int64) (changes : Changes)
    (place : String) : Discreet .withoutDetail (c.writeStamped caller id version changes place) :=
  (c.discreet_stampedUpdate caller changes).bind fun _ => c.discreet_writeUpdate id version _ place

/-- **A write whose failure does not count** is discreet, for nothing is told of it. -/
theorem discreet_persistPruned (id : Uuid) (version : Option Int64) (changes : Changes)
    (place : String) : Discreet .withoutDetail (c.persistPruned id version changes place) := by
  rw [persistPruned]
  split
  · exact Alike.bind (c.discreet_writeUpdate id version _ place) fun _ _ _ => .done rfl
  · exact discreet_pure _

theorem discreet_commit (id : Uuid) (existing : Document) (changes : Changes) (place : String) :
    Discreet .withoutDetail (c.commit caller id existing changes place) := by
  rw [commit_eq]
  split
  · exact discreet_pure _
  · refine Discreet.bind ?_ fun _ => ?_
    · split
      · exact c.discreet_refuseTakenRename changes id place
      · exact discreet_pure _
    · exact (c.discreet_writeStamped caller id _ changes place).bind fun _ => discreet_pure _

theorem discreet_writeReferences (id : Uuid) (existing : Document) (r : Relation) (value : Value)
    (place : String) :
    Discreet .withoutDetail (c.writeReferences caller id existing r value place) :=
  (c.discreet_writeStamped caller id _ _ place).bind fun _ => discreet_pure _

/-! ### Searching -/

theorem discreet_termValues (ds : List Document) (t : SortTerm) :
    Discreet .withoutText (termValues ds t) := by
  rw [termValues]
  split
  · exact discreet_pure _
  · dsimp only
    split
    · exact discreet_pure _
    · exact (discreet_call _).guarded.bind fun _ => discreet_pure _

theorem discreet_grantedDocuments (ds : List Document) :
    Discreet .withoutText (c.grantedDocuments caller ds) :=
  (discreet_ofExcept _).guarded.bind fun _ => discreet_pure _

theorem discreet_searchInStore (filter : Option Filter) (plan : SortPlan) (window : Paging) :
    Discreet .withoutText (c.searchInStore filter plan window) := by
  refine (discreet_call _).guarded.bind fun n => ?_
  exact (discreet_call _).guarded.bind fun ds => discreet_pure _

theorem discreet_searchHere (filter : Option Filter) (plan : SortPlan) (window : Paging)
    (narrowed : Bool) :
    Discreet .withoutText (c.searchHere caller filter plan window narrowed) := by
  rw [searchHere_eq]
  refine (discreet_call _).guarded.bind fun ds => ?_
  refine Discreet.bind ?_ fun ds => Discreet.bind ?_ fun ds => discreet_pure _
  · split
    · exact c.discreet_grantedDocuments caller _
    · exact discreet_pure _
  · split
    · exact discreet_pure _
    · exact (discreet_mapM (discreet_termValues ds) _).bind fun _ => discreet_pure _

theorem discreet_search (p : Inquiry) : Discreet .withoutDetail (c.search caller p) := by
  refine ((discreet_ofExcept _).inPlace _).bind fun filter => ?_
  refine ((discreet_ofExcept _).inPlace _).bind fun plan => ?_
  refine Discreet.bind (Discreet.inPlace ?_ _) fun out => ?_
  · split
    · exact c.discreet_searchInStore filter plan _
    · exact c.discreet_searchHere caller filter plan _ _
  refine Discreet.bind (Discreet.inPlace ?_ _) fun ds => ?_
  · split
    · exact Relation.discreet_hydrateEach _ _ _
    · exact discreet_pure _
  exact ((discreet_mapM c.discreet_ofDocument ds).inPlace _).bind fun _ => discreet_pure _

/-! ### The operations -/

theorem discreet_add (e : E) : Discreet .withoutDetail (c.add caller e) := by
  rw [add_eq]
  refine (c.discreet_prepared e).bind fun e => ?_
  refine ((discreet_entityExists _ _).inPlace _).bind fun taken => ?_
  refine Discreet.bind ?_ fun _ => Discreet.bind ?_ fun _ => ?_
  · split
    · exact discreet_throw _
    · exact discreet_pure _
  · split
    · exact c.discreet_refuseTakenName _ _ _
    · exact discreet_pure _
  refine ((c.schema.discreet_resolve _ _ _ _).inPlace _).bind fun out => ?_
  refine Discreet.bind ((c.discreet_stamps caller).bind fun _ => discreet_pure _) fun d => ?_
  exact (discreet_checked _ _).bind fun _ => (c.discreet_ofDocument d).inPlace _

theorem discreet_get (id : Uuid) (lookup : Bool) :
    Discreet .withoutDetail (c.get caller id lookup) := by
  refine (c.discreet_load caller id _).bind fun d => ?_
  split
  · refine ((c.schema.discreet_resolve _ _ _ _).inPlace _).bind fun out => ?_
    refine (c.discreet_persistPruned id _ _ _).bind fun _ => ?_
    exact ((c.discreet_ofDocument _).inPlace _).bind fun _ => discreet_pure _
  · exact ((c.discreet_ofDocument d).inPlace _).bind fun _ => discreet_pure _

theorem discreet_update (e : E) (dependencies : Option Bool) :
    Discreet .withoutDetail (c.update caller e dependencies) := by
  refine (c.discreet_load caller _ _).bind fun d => ?_
  refine (discreet_ofProgram (alike_ofDraws _)).bind fun e => ?_
  refine (c.discreet_prunedIf _ _ _ _).bind fun proposed => ?_
  exact c.discreet_commit caller _ _ _ _

theorem discreet_applyDelta (delta : Delta E) :
    Discreet .withoutDetail (c.applyDelta caller delta) := by
  refine (c.discreet_load caller _ _).bind fun d => ?_
  split
  · exact discreet_pure _
  · refine (discreet_ofProgram (alike_ofDraws _)).bind fun e => ?_
    refine (c.discreet_prunedIf _ _ _ _).bind fun patch => ?_
    exact c.discreet_commit caller _ _ _ _

theorem discreet_assign (bulk : Assignment E) :
    Discreet .withoutDetail (c.assign caller bulk) := by
  refine ((discreet_ofExcept _).inPlace _).bind fun ids => ?_
  split
  · exact discreet_pure _
  refine (discreet_ofProgram (alike_ofDraws _)).bind fun e => ?_
  refine (c.discreet_prunedIf _ _ _ _).bind fun patch => ?_
  dsimp only
  split
  · exact discreet_pure _
  refine (c.discreet_refuseShared _ _).bind fun _ => ?_
  exact (c.discreet_stampedUpdate caller _).bind fun u => discreet_checked _ _

theorem discreet_deleteListed (ids : List Uuid) :
    Discreet .withoutDetail (c.deleteListed caller ids) := by
  refine ((discreet_ofExcept _).inPlace _).bind fun ids => ?_
  split
  · exact discreet_pure _
  · exact discreet_checked _ _

theorem discreet_delete (id : Uuid) : Discreet .withoutDetail (c.delete caller id) := by
  refine (c.discreet_load caller _ _).bind fun d => (discreet_checked _ _).bind fun n => ?_
  split
  · exact discreet_throw _
  · exact discreet_pure _

theorem discreet_link (id : Uuid) (relation : String) (target : Uuid) :
    Discreet .withoutDetail (c.link caller id relation target) := by
  refine (c.discreet_relation _ _).bind fun r => (c.discreet_load caller _ _).bind fun d => ?_
  dsimp only
  split
  · exact discreet_pure _
  · refine (discreet_requireTarget _ _ _).bind fun _ => ?_
    exact c.discreet_writeReferences caller _ _ _ _ _

theorem discreet_unlink (id : Uuid) (relation : String) (target : Uuid) :
    Discreet .withoutDetail (c.unlink caller id relation target) := by
  refine (c.discreet_relation _ _).bind fun r => (c.discreet_load caller _ _).bind fun d => ?_
  dsimp only
  split
  · exact c.discreet_writeReferences caller _ _ _ _ _
  · exact discreet_pure _

theorem discreet_refer (id : Uuid) (relation : String) (target : Option Uuid) :
    Discreet .withoutDetail (c.refer caller id relation target) := by
  refine (c.discreet_relation _ _).bind fun r => (c.discreet_load caller _ _).bind fun d => ?_
  split
  · exact discreet_pure _
  · cases target with
    | some t =>
      refine (discreet_requireTarget _ _ _).bind fun _ => ?_
      exact c.discreet_writeReferences caller _ _ _ _ _
    | none => exact c.discreet_writeReferences caller _ _ _ _ _

/-- **Every operation is discreet.** -/
theorem discreet_program (op : Operation E) :
    Discreet .withoutDetail (op.program c caller) := by
  cases op with
  | add e => exact (c.discreet_add caller e).bind fun _ => discreet_pure _
  | get id lookup => exact (c.discreet_get caller id lookup).bind fun _ => discreet_pure _
  | search p => exact (c.discreet_search caller p).bind fun _ => discreet_pure _
  | update e dependencies =>
    exact (c.discreet_update caller e dependencies).bind fun _ => discreet_pure _
  | applyDelta delta => exact (c.discreet_applyDelta caller delta).bind fun _ => discreet_pure _
  | assign bulk => exact (c.discreet_assign caller bulk).bind fun _ => discreet_pure _
  | deleteListed ids => exact (c.discreet_deleteListed caller ids).bind fun _ => discreet_pure _
  | delete id => exact (c.discreet_delete caller id).bind fun _ => discreet_pure _
  | link id relation target =>
    exact (c.discreet_link caller id relation target).bind fun _ => discreet_pure _
  | unlink id relation target =>
    exact (c.discreet_unlink caller id relation target).bind fun _ => discreet_pure _
  | refer id relation target =>
    exact (c.discreet_refer caller id relation target).bind fun _ => discreet_pure _

/-- **Told the same in other words**, an operation shows the same to its caller. -/
theorem shown_of_reworded {op : Operation E} {l l' : List Exchange}
    (hl : List.Forall₂ Exchange.Reworded l l') {r : Except Failure (Answer E)}
    (hr : (op.program c caller).run.Replays l r) :
    ∃ r', (op.program c caller).run.Replays l' r' ∧
      (Outcome.ofExcept r').withoutDetail = (Outcome.ofExcept r).withoutDetail := by
  obtain ⟨r', hr', htold⟩ := (c.discreet_program caller op).replays hl hr
  exact ⟨r', hr', (Outcome.withoutDetail_ofExcept htold).symm⟩

end Collection

/-- **The texts of store errors stay inside.** Let an operation be answered in any way by any
store, and one of its calls fail. Had the store said the same failure in other words, then the
operation would have had one result as well, which shows the same to its caller: whether it
succeeded, the kind and the message of the failure, and what is given back. -/
theorem texts_stay_inside {E : Type} (c : Collection E) (caller : Caller) (op : Operation E)
    {before after : List Exchange} {call : StoreCall} {e e' : StoreError}
    (he : e.withoutText = e'.withoutText) {r : Except Failure (Answer E)}
    (hr : (op.program c caller).run.Replays (before ++ ⟨.store call, .error e⟩ :: after) r) :
    ∃ r', (∀ x, (op.program c caller).run.Replays
        (before ++ ⟨.store call, .error e'⟩ :: after) x ↔ x = r') ∧
      (Outcome.ofExcept r').withoutDetail = (Outcome.ofExcept r).withoutDetail := by
  have hsame : ∀ l : List Exchange, List.Forall₂ Exchange.Reworded l l := fun l =>
    List.forall₂_same.mpr fun x _ => ⟨x.1.reworded_refl x.2⟩
  have hfailure : Exchange.Reworded ⟨.store call, .error e⟩ ⟨.store call, .error e'⟩ :=
    ⟨congrArg Except.error he⟩
  obtain ⟨r', hr', hshown⟩ := c.shown_of_reworded caller
    (List.rel_append (hsame before) (.cons hfailure (hsame after))) hr
  refine ⟨r', fun x => ⟨fun hx => hx.eq hr', ?_⟩, hshown⟩
  rintro rfl
  exact hr'

namespace Directory

/-- What is exchanged when the first book is looked for and the store fails. -/
def failedSearch (text : String) : List Exchange :=
  [.goesOn] ++
    ⟨.store (.find { filter := some (.hasId firstBook), limit := some 1 } openBooks.name),
      .error (.backend text)⟩ :: []

/-- A full disk and a lost connection look alike to whoever asks for a book. -/
theorem fullDisk_stays_inside :
    ((Operation.get firstBook false).program openBooks {}).run.Replays (failedSearch "disk full")
      (.error (.ofStore (openBooks.place "get") (.backend "disk full"))) ∧
    ∃ r, (∀ x, ((Operation.get firstBook false).program openBooks {}).run.Replays
        (failedSearch "connection lost") x ↔ x = r) ∧
      (Outcome.ofExcept r).withoutDetail = (Outcome.ofExcept (α := Answer Book)
        (.error (.ofStore (openBooks.place "get") (.backend "disk full")))).withoutDetail := by
  have he : StoreError.withoutText (.backend "disk full") =
      StoreError.withoutText (.backend "connection lost") := rfl
  have hr : ((Operation.get firstBook false).program openBooks {}).run.Replays
      (failedSearch "disk full")
      (.error (.ofStore (openBooks.place "get") (.backend "disk full"))) :=
    ⟨false, _, rfl, .error (.backend "disk full"), _, rfl, rfl, rfl⟩
  exact ⟨hr, texts_stay_inside openBooks {} (.get firstBook false) he hr⟩

end Directory

end Registrar
