import Registrar.Engine.Read
import Registrar.Engine.Write
import Registrar.Proofs.Program.Requests

/-!
# The parts of operations that read

Operations look before they write. Each part that looks is a quiet program, so whatever follows it
finds the store as it was.

* `quiet_load`, `quiet_resolve`, `quiet_refuseTakenName` and others: one lemma for each part.
* `quiet_search`: a search changes nothing at all.
-/

namespace Registrar

open Program

variable {E : Type} (c : Collection E) (caller : Caller)

/-! ### Following relations -/

namespace Relation

theorem quiet_fetch (r : Relation) (ids : List Uuid) : (r.fetch ids).run.Quiet := by
  rw [fetch]
  split
  · exact always_pureE _
  · exact always_bindE (quiet_guarded (quiet_find _ _)) fun ds => always_pureE _

theorem quiet_resolve (r : Relation) (viewer : Viewer) (options : FollowOptions) (d : Document) :
    (r.resolve viewer options d).run.Quiet := by
  refine always_bindE (r.quiet_fetch _) fun found => ?_
  exact always_bindE (always_ofExcept _) fun hidden => always_pureE _

theorem quiet_resolveAll (viewer : Viewer) (options : FollowOptions) (rs : List Relation)
    (d : Document) (changes : Changes) : (resolveAll viewer options rs d changes).run.Quiet := by
  induction rs generalizing d changes with
  | nil => exact always_pureE _
  | cons r rs ih => exact always_bindE (r.quiet_resolve viewer options d) fun out => ih _ _

theorem quiet_hydrateEach (viewer : Viewer) (rs : List Relation) (ds : List Document) :
    (hydrateEach viewer rs ds).run.Quiet := by
  induction rs generalizing ds with
  | nil => exact always_pureE _
  | cons r rs ih =>
    refine always_bindE ?_ fun ds => ih ds
    refine always_bindE (r.quiet_fetch _) fun found => ?_
    exact always_bindE (always_ofExcept _) fun hidden => always_pureE _

end Relation

theorem Schema.quiet_resolve (s : Schema) (viewer : Viewer) (options : FollowOptions)
    (only : Option (List String)) (d : Document) :
    (s.resolve viewer options only d).run.Quiet :=
  Relation.quiet_resolveAll _ _ _ _ _

theorem quiet_entityExists (collection : String) (id : Uuid) :
    (entityExists collection id).run.Quiet :=
  always_bindE (quiet_guarded (quiet_count _ _)) fun _ => always_pureE _

namespace Collection

/-! ### Before a write -/

theorem quiet_load (id : Uuid) (place : String) : (c.load caller id place).run.Quiet := by
  refine always_bindE (always_inPlace (quiet_guarded (quiet_find _ _))) fun ds => ?_
  cases ds.head? with
  | none => exact always_throwE _
  | some d =>
    refine always_bindE (always_inPlace (always_ofExcept _)) fun accessible => ?_
    cases accessible with
    | true => exact always_pureE _
    | false => exact always_throwE _

theorem quiet_stamps : (c.stamps caller).run.Quiet :=
  always_ofProgram ⟨rfl, fun _ => trivial⟩

theorem quiet_stampedUpdate (changes : Changes) : (c.stampedUpdate caller changes).run.Quiet :=
  always_bindE (c.quiet_stamps caller) fun _ => always_pureE _

theorem quiet_refuseTakenName (d : Document) (id : Uuid) (place : String) :
    (c.refuseTakenName d id place).run.Quiet := by
  rw [refuseTakenName]
  split
  · exact always_pureE _
  · refine always_bindE (always_inPlace (quiet_guarded (quiet_count _ _))) fun n => ?_
    split
    · exact always_throwE _
    · exact always_pureE _

theorem quiet_refuseTakenRename (changes : Changes) (id : Uuid) (place : String) :
    (c.refuseTakenRename changes id place).run.Quiet := by
  rw [refuseTakenRename]
  split
  · split
    · exact c.quiet_refuseTakenName _ id place
    · exact always_pureE _
  · exact always_pureE _

theorem quiet_prunedIf (prune : Bool) (only : Option (List String)) (d : Document)
    (place : String) : (c.prunedIf prune only d place).run.Quiet := by
  rw [prunedIf]
  split
  · exact always_bindE (always_inPlace (c.schema.quiet_resolve _ _ _ _)) fun _ => always_pureE _
  · exact always_pureE _

theorem quiet_prepared (e : E) : (c.prepared e).run.Quiet := by
  refine always_bindE (always_ofProgram (quiet_ofDraws _)) fun e => ?_
  split
  · exact always_bindE (always_ofProgram ⟨rfl, fun _ => trivial⟩) fun id => always_pureE _
  · exact always_pureE _

theorem quiet_stampedNew (d : Document) : (c.stampedNew caller d).run.Quiet :=
  always_bindE (c.quiet_stamps caller) fun _ => always_pureE _

theorem quiet_refuseShared (changes : Changes) (n : Nat) :
    (c.refuseShared changes n).run.Quiet := by
  rw [refuseShared]
  split
  · split
    · exact always_throwE _
    · exact always_pureE _
  · exact always_pureE _

theorem quiet_relation (name : String) (cardinality : Cardinality) :
    (c.relation name cardinality).run.Quiet := by
  rw [relation]
  split
  · exact always_pureE _
  · exact always_throwE _

theorem quiet_requireTarget (r : Relation) (target : Uuid) (place : String) :
    (requireTarget r target place).run.Quiet := by
  refine always_bindE (always_inPlace (quiet_entityExists _ _)) fun b => ?_
  cases b with
  | true => exact always_pureE _
  | false => exact always_throwE _

/-! ### Searching -/

theorem quiet_mapM {α β : Type} {f : α → StoreM β} (hf : ∀ a, (f a).run.Quiet) (as : List α) :
    (as.mapM f).run.Quiet := by
  induction as with
  | nil => exact always_pureE _
  | cons a as ih =>
    rw [List.mapM_cons]
    exact always_bindE (hf a) fun b => always_bindE ih fun bs => always_pureE _

theorem quiet_termValues (ds : List Document) (t : SortTerm) : (termValues ds t).run.Quiet := by
  rw [termValues]
  split
  · exact always_pureE _
  · dsimp only
    split
    · exact always_pureE _
    · exact always_bindE (quiet_guarded (quiet_find _ _)) fun _ => always_pureE _

theorem quiet_grantedDocuments (ds : List Document) :
    (c.grantedDocuments caller ds).run.Quiet :=
  always_bindE (quiet_guarded (always_ofExcept _)) fun _ => always_pureE _

theorem quiet_searchInStore (filter : Option Filter) (plan : SortPlan) (window : Paging) :
    (c.searchInStore filter plan window).run.Quiet := by
  refine always_bindE (quiet_guarded (quiet_count _ _)) fun n => ?_
  exact always_bindE (quiet_guarded (quiet_find _ _)) fun ds => always_pureE _

theorem searchHere_eq (filter : Option Filter) (plan : SortPlan) (window : Paging)
    (narrowed : Bool) :
    c.searchHere caller filter plan window narrowed =
      StoreM.guarded (StoreM.find { filter, sort := plan.nativeKeys } c.name) >>= fun ds =>
      (if narrowed then c.grantedDocuments caller ds else pure ds) >>= fun ds =>
      (if plan.isNative then pure ds else sortByReferences plan ds) >>= fun ds =>
      pure (ds.length, window.cut ds) := by
  rw [searchHere]
  cases narrowed <;> cases plan.isNative <;> rfl

theorem quiet_searchHere (filter : Option Filter) (plan : SortPlan) (window : Paging)
    (narrowed : Bool) : (c.searchHere caller filter plan window narrowed).run.Quiet := by
  rw [searchHere_eq]
  refine always_bindE (quiet_guarded (quiet_find _ _)) fun ds => ?_
  refine always_bindE ?_ fun ds => always_bindE ?_ fun ds => always_pureE _
  · split
    · exact c.quiet_grantedDocuments caller _
    · exact always_pureE _
  · split
    · exact always_pureE _
    · exact always_bindE (quiet_mapM (quiet_termValues ds) _) fun _ => always_pureE _

theorem quiet_search (p : Inquiry) : (c.search caller p).run.Quiet := by
  refine always_bindE (always_inPlace (always_ofExcept _)) fun filter => ?_
  refine always_bindE (always_inPlace (always_ofExcept _)) fun plan => ?_
  refine always_bindE (always_inPlace ?_) fun out => ?_
  · split
    · exact c.quiet_searchInStore filter plan _
    · exact c.quiet_searchHere caller filter plan _ _
  refine always_bindE (always_inPlace ?_) fun ds => ?_
  · split
    · exact Relation.quiet_hydrateEach _ _ _
    · exact always_pureE _
  exact always_bindE (always_inPlace (quiet_mapM (fun d => always_ofExcept _) ds)) fun _ =>
    always_pureE _

end Collection

end Registrar
