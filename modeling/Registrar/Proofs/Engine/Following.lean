import Registrar.Proofs.Engine.Pruning

/-!
# Following several relations

Relations are followed one after the other, in one document or in many. Each of them may prune, and
then fills in the copies that the viewer is shown. What becomes of a document can be told from the
document alone, and so can whether the policy decides about all that is asked on the way: when it
does not, following fails, and when it does, it succeeds.

* `Relation.followedIn`: a document after a relation was followed.
* `Relation.DecidedAll`: the policy decides about all that a document refers to.
* `tells_resolveAll`: following the relations of one document.
* `tells_hydrateEach`: filling in the copies of many.
-/

namespace Registrar

namespace Relation

variable {viewer : Viewer} {w : Surroundings} {s : Store} {F : Prop} {r : Relation}
  {found : Found} {d : Document}

/-! ### One relation -/

/-- **A document with its copies**, and pruned before if this is asked for. -/
def followedIn (viewer : Viewer) (s : Store) (prune : Bool) (d : Document) (r : Relation) :
    Document :=
  r.hydratedIn viewer.policy viewer.caller s (if prune then r.prunedIn s d else d)

theorem shownIn_prunedIn (a : AccessPolicy) (caller : Caller) (s : Store) (r : Relation)
    (d : Document) : r.shownIn a caller s (r.prunedIn s d) = r.shownIn a caller s d := by
  rw [shownIn, shownIn, targetIds_prunedIn, keptIn, List.filter_filter, List.filterMap_filter,
    List.filterMap_filter]
  refine List.filterMap_congr fun id _ => ?_
  cases (s.entries r.target).document? id <;> simp

/-- **What a relation does to a document**, said of the document alone. -/
theorem lookup_eq {prune : Bool} (hfound : r.Fetched s (r.targetIds d) found) :
    r.lookup ⟨prune, true⟩ found (found.ids.filter
        (· ∉ found.ids.filter (viewer.policy.accepts viewer.caller r.target))) d =
      (r.followedIn viewer s prune d, if prune then r.prunedChange s d else none) := by
  cases prune with
  | false => exact Prod.ext (lookup_hydrate hfound) rfl
  | true =>
    rw [followedIn, hydratedIn]
    have hprune := lookup_prune hfound (found.ids.filter
      (· ∉ found.ids.filter (viewer.policy.accepts viewer.caller r.target)))
    unfold lookup at hprune ⊢
    dsimp only at hprune ⊢
    rw [shown_fetched hfound, if_pos rfl, if_pos rfl, shownIn_prunedIn]
    obtain ⟨hdocument, hchange⟩ := Prod.mk.inj hprune
    exact Prod.ext (congrArg (Document.put · r.navigation _) hdocument) hchange

/-- **Following a relation of one document** fails if the policy does not decide, and otherwise
prunes and fills in the copies. -/
theorem tells_resolveOne (hc : w.cancels → F) (hf : w.fails → F) (hk : s.Keyed) {prune : Bool}
    (hF : ¬ r.Decided viewer s d → F) :
    Tells w s F (fun out => r.Decided viewer s d ∧
        out = (r.followedIn viewer s prune d, if prune then r.prunedChange s d else none))
      (r.resolve viewer ⟨prune, true⟩ d) := by
  refine (tells_fetch hc hf hk r _).bind fun found hfound => ?_
  refine (tells_hidden hfound hF).bind fun refused hrefused => tells_pure ?_
  obtain ⟨hdecided, rfl⟩ := hrefused
  exact ⟨hdecided, lookup_eq hfound.each⟩

/-! ### Several relations -/

/-- **The policy decides about all that a document refers to**, the relations being followed one
after the other. -/
def DecidedAll (viewer : Viewer) (s : Store) (prune : Bool) : List Relation → Document → Prop
  | [], _ => True
  | r :: rs, d =>
    r.Decided viewer s d ∧ DecidedAll viewer s prune rs (r.followedIn viewer s prune d)

/-- What following relations reports. -/
def followedChanges (viewer : Viewer) (s : Store) (prune : Bool) :
    List Relation → Document → Changes → Changes
  | [], _, changes => changes
  | r :: rs, d, changes =>
    followedChanges viewer s prune rs (r.followedIn viewer s prune d)
      (match if prune then r.prunedChange s d else none with
        | some v => Document.put changes r.idField v
        | none => changes)

theorem tells_resolveAll (hc : w.cancels → F) (hf : w.fails → F) (hk : s.Keyed) {prune : Bool}
    {rs : List Relation} {changes : Changes} (hF : ¬ DecidedAll viewer s prune rs d → F) :
    Tells w s F (fun out => DecidedAll viewer s prune rs d ∧
        out = (rs.foldl (followedIn viewer s prune) d,
          followedChanges viewer s prune rs d changes))
      (resolveAll viewer ⟨prune, true⟩ rs d changes) := by
  induction rs generalizing d changes with
  | nil => exact tells_pure ⟨trivial, rfl⟩
  | cons r rs ih =>
    refine (tells_resolveOne hc hf hk fun h => hF fun hall => h hall.1).bind fun out hout => ?_
    obtain ⟨hdecided, rfl⟩ := hout
    refine (ih fun h => hF fun hall => h hall.2).mono fun out hout => ?_
    exact ⟨⟨hdecided, hout.1⟩, hout.2⟩

theorem tells_hydrateEach (hc : w.cancels → F) (hf : w.fails → F) (hk : s.Keyed)
    {rs : List Relation} {ds : List Document}
    (hF : (¬ ∀ d ∈ ds, DecidedAll viewer s false rs d) → F) :
    Tells w s F (fun out => (∀ d ∈ ds, DecidedAll viewer s false rs d) ∧
        out = ds.map fun d => rs.foldl (followedIn viewer s false) d)
      (hydrateEach viewer rs ds) := by
  induction rs generalizing ds with
  | nil => exact tells_pure ⟨fun _ _ => trivial, (List.map_id ds).symm⟩
  | cons r rs ih =>
    refine (tells_hydrate hc hf hk fun h => hF fun hall => h fun d hd => (hall d hd).1).bind
      fun out hout => ?_
    obtain ⟨hdecided, rfl⟩ := hout
    have hrest : (∀ d ∈ ds.map fun d => r.followedIn viewer s false d,
        DecidedAll viewer s false rs d) ↔
          ∀ d ∈ ds, DecidedAll viewer s false rs (r.followedIn viewer s false d) :=
      List.forall_mem_map
    refine (ih fun h => hF fun hall => h (hrest.mpr fun d hd => (hall d hd).2)).mono
      fun out hout => ⟨fun d hd => ⟨hdecided d hd, hrest.mp hout.1 d hd⟩, ?_⟩
    rw [hout.2, List.map_map]
    rfl

theorem decidedAll_of_answers (viewer : Viewer) {prune : Bool}
    (h : viewer.policy.Answers viewer.caller) (rs : List Relation) (d : Document) :
    DecidedAll viewer s prune rs d := by
  induction rs generalizing d with
  | nil => trivial
  | cons r rs ih => exact ⟨fun id _ _ => h r.target id, ih _⟩

theorem followedChanges_unpruned (rs : List Relation) (d : Document) (changes : Changes) :
    followedChanges viewer s false rs d changes = changes := by
  induction rs generalizing d with
  | nil => rfl
  | cons r rs ih => exact ih _

end Relation

end Registrar
