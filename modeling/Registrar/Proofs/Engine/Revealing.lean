import Registrar.Proofs.Engine.Copies
import Registrar.Proofs.Engine.Searching

/-!
# What answers reveal

Entities are read from stored documents that the caller sees, whether they are got by their ids or
searched for, and whichever way the search takes. This does not hold of the copies that come with
them. The policy accepts these, but the filter of their own collection is not asked, and if it hides
more than the policy rejects, a copy may be of a document that the caller does not see.

* `AccessPolicy.Honest`: complete filters are what they are said to be.
* `Collection.Shows`: what a document that is shown was read from.
* `Collection.Leaks`: a document refers to another one that is accepted, but hidden by the filter.
* `tells_search_seen`: a search shows documents that the caller sees.
* `copies_seen_iff`: the caller sees all that is shown, unless a document leaks.
-/

namespace Registrar

/-- **A policy is honest** if a filter that it calls complete hides just what it rejects. -/
def AccessPolicy.Honest (a : AccessPolicy) (caller : Caller) (s : Store) : Prop :=
  ∀ name, a.isComplete name caller = true → ∀ d ∈ (s.entries name).documents,
    (Filter.admits (a.visibility name caller) d = true ↔ a.Accepts caller name d)

/-- Whether an operation that reads is asked to follow relations. -/
def Operation.follows? {E : Type} : Operation E → Option Bool
  | .get _ lookup => some lookup
  | .search p => some p.includeDependents
  | _ => none

/-- **The entities in an answer.** -/
def Answer.entities {E : Type} : Answer E → List E
  | .added e => [e]
  | .found r => [r.entity]
  | .page p => p.results
  | .wrote _ | .number _ | .deleted | .changed _ => []

namespace Collection

variable {E : Type} (c : Collection E) (caller : Caller) (s : Store)

/-- **What a document that is shown was read from**: a stored document that the caller sees, with
its copies if they were asked for. -/
structure Shows (follows : Bool) (d x : Document) : Prop where
  stored : d ∈ (s.entries c.name).documents
  seen : c.policy.Sees caller c.name d
  plain : follows = false → x = d
  copies : follows = true → ∀ r ∈ c.schema.relations, r.CopiesFor c.policy caller s d x

/-- **A document leaks** if it refers to a document that the policy accepts, but that the filter of
its collection hides. -/
def Leaks (d : Document) : Prop :=
  ∃ r ∈ c.schema.relations, ∃ y, r.Reaches c.policy caller s d y ∧
    Filter.admits (c.policy.visibility r.target caller) y = false

/-- The caller sees all copies in a document. -/
def SeesCopies (x : Document) : Prop :=
  ∀ r ∈ c.schema.relations, ∀ y ∈ r.copies x, c.policy.Sees caller r.target y

variable {c caller s} {w : Surroundings} {t : Store} {d x : Document}

/-- **The copies are seen** unless the document leaks. -/
theorem Shows.seesCopies_iff (h : c.Shows caller s true d x) (hk : s.Keyed) :
    c.SeesCopies caller x ↔ ¬ c.Leaks caller s d := by
  constructor
  · rintro hsees ⟨r, hr, y, hreach, hhidden⟩
    have hy : y ∈ r.copies x := ((h.copies rfl r hr).all hk y).mpr hreach
    rw [(hsees r hr y hy).visible] at hhidden
    cases hhidden
  · intro hleaks r hr y hy
    have hcopies := h.copies rfl r hr
    refine ⟨hcopies.accepted y hy, ?_⟩
    by_contra hhidden
    exact hleaks ⟨r, hr, y, (hcopies.all hk y).mp hy, Bool.eq_false_iff.mpr hhidden⟩

/-! ### One entity -/

section

variable (hs : c.schema.Lawful) (hl : c.schema.Linked)
  (hnavigation : (c.schema.relations.map Relation.navigation).Nodup)

include hs hl hnavigation

theorem shows_of_followedAll (hstored : d ∈ (s.entries c.name).documents)
    (hseen : c.policy.Sees caller c.name d)
    (h : Relation.FollowedAll c.policy caller s c.schema.relations d x) :
    c.Shows caller s true d x :=
  ⟨hstored, hseen, nofun, fun _ =>
    h.copiesFor hs hl (fun _ hr => hr) hl.nodup hnavigation⟩

/-- **An entity that is got** is read from a document that the caller sees. -/
theorem shows_of_get {id : Uuid} {lookup : Bool} {r : ReadReport E}
    (h : (c.get caller id lookup).run.Runs w s (.ok r) t) :
    ∃ d x, c.Shows caller s lookup d x ∧ c.kind.ofDocument? x = some r.entity := by
  obtain ⟨d, hd, h⟩ := (tells_load_seen id (c.place "get")).ok h
  cases lookup with
  | false =>
    obtain ⟨e, he, hr, -⟩ := ((tells_ofDocument d).inPlace (c.place "get")).ok h
    obtain rfl : r = ⟨e, []⟩ := Except.ok.inj hr
    exact ⟨d, d, ⟨hd.stored, hd.seen, fun _ => rfl, nofun⟩, he⟩
  | true =>
    have hresolve : Tells w s True
        (fun out => Relation.FollowedAll c.policy caller s c.schema.relations d out.1)
        (OperationM.inPlace (c.place "get")
          (c.schema.resolve (c.viewer caller) ⟨true, true⟩ none d)) :=
      (Relation.tells_resolve_followed rfl _ d []).inPlace _
    obtain ⟨out, hout, h⟩ := hresolve.ok h
    -- Whatever is written back, the entity is read from the document at hand.
    rcases (runs_bindE _ _).mp h with ⟨_, u, -, h⟩ | ⟨e, -, he⟩
    · obtain ⟨e, he, hr, -⟩ := ((tells_ofDocument out.1).inPlace (c.place "get")).ok h
      obtain rfl : r = ⟨e, out.2.keys⟩ := Except.ok.inj hr
      exact ⟨d, out.1, shows_of_followedAll hs hl hnavigation hd.stored hd.seen hout, he⟩
    · cases he

end

/-! ### A page of entities -/

/-- The documents that a search finds. -/
def SeesAll (c : Collection E) (caller : Caller) (s : Store) (ds : List Document) : Prop :=
  ∀ d ∈ ds, d ∈ (s.entries c.name).documents ∧ c.policy.Sees caller c.name d

/-- **What is found is seen**, whether the policy was asked or its filter is complete. -/
theorem seen_of_found (hhonest : c.policy.Honest caller s) {f : Option Filter}
    (hd : d ∈ c.found caller f s) :
    d ∈ (s.entries c.name).documents ∧ c.policy.Sees caller c.name d := by
  obtain ⟨hadmitted, hleft⟩ := List.mem_filter.mp hd
  obtain ⟨hstored, hadmits⟩ := List.mem_filter.mp hadmitted
  rw [storeFilter, Filter.admits_all?, Bool.and_eq_true] at hadmits
  refine ⟨hstored, ?_, hadmits.2⟩
  cases hcomplete : c.policy.isComplete c.name caller with
  | true => exact (hhonest c.name hcomplete d hstored).mp hadmits.2
  | false =>
    rw [isLeft, hcomplete, Bool.false_or, isGranted] at hleft
    cases hid : (d.value? "id").bind Value.uuid? with
    | none =>
      rw [hid] at hleft
      cases hleft
    | some id =>
      rw [hid] at hleft
      exact ⟨id, .inr hid, AccessPolicy.accepts_iff_grants.mp hleft⟩

theorem seesAll_of_cutFrom (hhonest : c.policy.Honest caller s) {f : Option Filter}
    {plan : SortPlan} {window : Paging} {out : Nat × List Document}
    (h : c.CutFrom caller f plan s window out) : c.SeesAll caller s out.2 := by
  obtain ⟨ds, hperm, -, rfl⟩ := h
  exact fun d hd => seen_of_found hhonest (hperm.mem_iff.mp (Paging.mem_of_mem_cut hd))

/-- **A search shows** documents that the caller sees. -/
theorem tells_search_seen (hs : c.schema.Lawful) (hl : c.schema.Linked)
    (hnavigation : (c.schema.relations.map Relation.navigation).Nodup)
    (hhonest : c.policy.Honest caller s) (p : Inquiry) :
    Tells w s True (fun page => ∃ ds xs,
        List.Forall₂ (c.Shows caller s p.includeDependents) ds xs ∧
          List.Forall₂ (fun x e => c.kind.ofDocument? x = some e) xs page.results)
      (c.search caller p) := by
  rw [search_eq]
  refine ((tells_decided trivial _).inPlace _).bind fun filter hfilter => ?_
  obtain ⟨f, -, rfl⟩ := searchFilter_ok_iff.mp hfilter
  refine ((tells_decided trivial _).inPlace _).bind fun plan _ => ?_
  refine ((tells_paged (F := True) (fun _ => trivial) (fun _ => trivial) (fun _ => trivial)
    _).inPlace _).bind fun out hcut => ?_
  have hout : c.SeesAll caller s out.2 := seesAll_of_cutFrom hhonest hcut.2
  have hshown : Tells w s True (List.Forall₂ (c.Shows caller s p.includeDependents) out.2)
      (OperationM.inPlace (c.place "search") (if p.includeDependents = true then
        c.schema.hydrateEach (c.viewer caller) out.2 else pure out.2)) := by
    refine Tells.inPlace ?_ _
    cases hfollows : p.includeDependents with
    | true =>
      refine (Relation.tells_hydrateEach_followed _ out.2).mono fun xs hxs => ?_
      refine ((List.forall₂_and_left _ _).mpr ⟨hout, hxs⟩).imp fun d x h => ?_
      exact shows_of_followedAll hs hl hnavigation h.1.1 h.1.2 h.2
    | false =>
      refine tells_pure (List.forall₂_same.mpr fun d hd => ?_)
      exact ⟨(hout d hd).1, (hout d hd).2, fun _ => rfl, fun h => absurd h Bool.false_ne_true⟩
  refine hshown.bind fun xs hxs => ?_
  refine ((Tells.mapM fun x _ => tells_ofDocument x).inPlace _).bind fun es hes => ?_
  exact tells_pure ⟨out.2, xs, hxs, hes⟩

end Collection

/-- **What is shown is seen**, and so are the copies that come with it, unless a document leaks. Let
the relations have fields of their own, and let complete filters be what they are said to be. Then
every entity in an answer was read from a stored document that the caller sees. If relations were
followed, its copies are stored documents that the policy accepts, and in a keyed store the caller
sees all of them exactly when the document does not leak. -/
theorem copies_seen_iff {E : Type} {c : Collection E} (hs : c.schema.Lawful)
    (hl : c.schema.Linked) (hnavigation : (c.schema.relations.map Relation.navigation).Nodup)
    {caller : Caller} {s : Store} (hhonest : c.policy.Honest caller s) {op : Operation E}
    {follows : Bool} (hop : op.follows? = some follows) {w : Surroundings} {a : Answer E}
    {t : Store} (h : (op.program c caller).run.Runs w s (.ok a) t) :
    ∃ ds xs, List.Forall₂ (fun x e => c.kind.ofDocument? x = some e) xs a.entities ∧
      List.Forall₂ (fun d x => c.Shows caller s follows d x ∧
        (follows = true → s.Keyed →
          (c.SeesCopies caller x ↔ ¬ c.Leaks caller s d))) ds xs := by
  have hcopies : ∀ d x, c.Shows caller s follows d x → c.Shows caller s follows d x ∧
      (follows = true → s.Keyed → (c.SeesCopies caller x ↔ ¬ c.Leaks caller s d)) := by
    refine fun d x hshows => ⟨hshows, fun hfollows hk => ?_⟩
    subst hfollows
    exact hshows.seesCopies_iff hk
  cases op with
  | get id lookup =>
    obtain rfl : lookup = follows := Option.some.inj hop
    rcases (runs_bindE _ _).mp h with ⟨r, u, hget, ha, -⟩ | ⟨e, -, he⟩
    · obtain rfl : a = .found r := Except.ok.inj ha
      obtain ⟨d, x, hshows, hread⟩ := Collection.shows_of_get hs hl hnavigation hget
      exact ⟨[d], [x], .cons hread .nil, .cons (hcopies d x hshows) .nil⟩
    · cases he
  | search p =>
    obtain rfl : p.includeDependents = follows := Option.some.inj hop
    have hsearch := Collection.tells_search_seen (w := w) hs hl hnavigation hhonest p
    obtain ⟨page, ⟨ds, xs, hshows, hread⟩, ha, -⟩ := hsearch.ok h
    obtain rfl : a = .page page := Except.ok.inj ha
    exact ⟨ds, xs, hread, hshows.imp hcopies⟩
  | _ => cases hop

/-! ### A manager who is hidden -/

namespace Directory

def chef : Uuid := .ofByte 3

/-- Contacts of whom the filter hides one, whom the policy accepts. -/
def screenedContacts : Collection Contact where
  kind := Contact.kind
  policy := {
    grants := fun _ _ _ => .ok true
    visibility := fun _ _ => some (.ne "id" (Value.ofUuid chef))
    isComplete := fun _ _ => false }
  settings := {}

theorem leaks_of_seen {d : Document} (hd : d ∈ (staffStore.entries screenedContacts.name).documents)
    (hseen : screenedContacts.policy.Sees {} screenedContacts.name d) :
    screenedContacts.Leaks {} staffStore d := by
  have hmanaged : ∀ d ∈ (staffStore.entries screenedContacts.name).documents,
      Filter.admits (screenedContacts.policy.visibility screenedContacts.name {}) d = true →
      ∃ r ∈ screenedContacts.schema.relations, chef ∈ r.targetIds d ∧
        ∃ e ∈ staffStore.entries r.target, e.1 = chef ∧
          Filter.admits (screenedContacts.policy.visibility r.target {}) e.2 = false := by
    decide +kernel
  obtain ⟨r, hr, hid, ⟨k, y⟩, he, rfl, hhidden⟩ := hmanaged d hd hseen.visible
  exact ⟨r, hr, y, ⟨chef, hid, he, rfl⟩, hhidden⟩

/-- Who is got with a look-up comes with a copy of the hidden manager. -/
theorem getAnn_reveals :
    ∃ report t, ((Operation.get (.ofByte 1) true).program screenedContacts {}).run.Runs .any
        staffStore (.ok (.found report)) t ∧
      ∃ d x, screenedContacts.Shows {} staffStore true d x ∧
        screenedContacts.kind.ofDocument? x = some report.entity ∧
        ∃ r ∈ screenedContacts.schema.relations, ∃ y ∈ r.copies x,
          ¬ screenedContacts.policy.Sees {} r.target y := by
  let x : Session := { store := staffStore, supply := fun _ => .nil }
  let program := ((Operation.get (.ofByte 1) true).program screenedContacts {}).run
  have hruns := program.runs_run (w := .any) x rfl (fun _ => trivial) fun _ => trivial
  have hok : (program.run x).1.isOk = true := by decide +kernel
  obtain ⟨report, hreport⟩ : ∃ report, (program.run x).1 = .ok (.found report) := by
    rcases (runs_bindE _ _).mp hruns with ⟨report, u, -, hdone⟩ | ⟨e, -, herror⟩
    · exact ⟨report, hdone.1⟩
    · rw [herror] at hok
      cases hok
  rw [hreport] at hruns
  refine ⟨report, _, hruns, ?_⟩
  obtain ⟨ds, xs, hreads, hshows⟩ := copies_seen_iff (c := screenedContacts) Contact.lawful.schema
    Contact.linked (by decide) (fun _ h => absurd h Bool.false_ne_true) rfl hruns
  obtain ⟨x, hread, rfl⟩ : ∃ x, screenedContacts.kind.ofDocument? x = some report.entity ∧
      xs = [x] := by
    cases hreads with
    | cons hread hnone =>
      cases hnone
      exact ⟨_, hread, rfl⟩
  cases hshows with
  | @cons d _ _ _ hshows _ =>
    obtain ⟨hshown, hcopies⟩ := hshows
    have hleaks := leaks_of_seen hshown.stored hshown.seen
    have hnot : ¬ screenedContacts.SeesCopies {} x := fun hsees =>
      (hcopies rfl staffStore_keyed).mp hsees hleaks
    rw [Collection.SeesCopies] at hnot
    push Not at hnot
    exact ⟨d, x, hshown, hread, hnot⟩

end Directory

end Registrar
