import Registrar.Proofs.Engine.Searching

/-!
# Two ways to one page

An access policy may declare that its filter hides just the entities that it rejects. Then a search
may leave counting, sorting and cutting to the store; otherwise it fetches all that the filter
admits and asks the policy about each of them. When the filter does hide what the policy rejects,
the declaration cannot be told from the answers: what is found, how much there is and how a search
fails are the same both ways, also with a filter that cannot be compiled, with documents that cannot
be read and with pages beyond the end.

The policy may fail to decide about entities. The filter admits none of these, so the search is not
asked about them before it has its page. Copies may still refer to them; but how copies are filled in
does not depend on what the policy declares, and the search fails both ways alike.

* `Collection.HidesExactly`: the filter of the policy admits what the policy accepts.
* `sought_declaring`: both ways seek the same documents.
* `surely_paged`: both ways come to the same page.
* `present_declaring`: what is made of the page does not depend on the declaration.
* `search_either_way`: **a search is answered the same both ways**.
-/

namespace Registrar

variable {s : Store}

/-! ### Declaring a filter complete -/

/-- The policy that declares its filters complete, or not, and is otherwise the same. -/
def AccessPolicy.declaring (a : AccessPolicy) (complete : Bool) : AccessPolicy :=
  { a with isComplete := fun _ _ => complete }

theorem AccessPolicy.grantedAmong_declaring (a : AccessPolicy) (complete : Bool) (name : String)
    (caller : Caller) (ids : List Uuid) :
    (a.declaring complete).grantedAmong name caller ids = a.grantedAmong name caller ids := by
  induction ids with
  | nil => rfl
  | cons id ids ih =>
    rw [grantedAmong, grantedAmong, ih]
    rfl

theorem Relation.hydrateEach_declaring (a : AccessPolicy) (complete : Bool) (caller : Caller)
    (rs : List Relation) (ds : List Document) :
    hydrateEach (some (a.declaring complete, caller)) rs ds =
      hydrateEach (some (a, caller)) rs ds := by
  have hhidden : ∀ (r : Relation) found, r.hidden (some (a.declaring complete, caller)) found =
      r.hidden (some (a, caller)) found := by
    intro r found
    rw [hidden, hidden, a.grantedAmong_declaring]
  induction rs generalizing ds with
  | nil => rfl
  | cons r rs ih => simp only [hydrateEach, hydrate, hhidden, ih]

namespace Collection

variable {E : Type} {c : Collection E} {caller : Caller} {f : Option Filter} {plan : SortPlan}
  {p : Inquiry}

/-- The collection whose policy declares its filters complete, or not. -/
def declaring (c : Collection E) (complete : Bool) : Collection E :=
  { c with policy := c.policy.declaring complete }

/-- **The filter of the policy hides just what the policy rejects**: it admits a stored document if
and only if the policy accepts its entity. About an entity that is not accepted the policy need not
decide. -/
def HidesExactly (c : Collection E) (caller : Caller) (s : Store) : Prop :=
  ∀ e ∈ s.entries c.name,
    Filter.admits (c.policy.visibility c.name caller) e.2 = c.policy.accepts caller c.name e.1

/-- **Both ways seek the same documents.** -/
theorem sought_declaring (hx : c.HidesExactly caller s) (complete : Bool) (f : Option Filter) :
    (c.declaring complete).sought caller f s = c.sought caller f s := by
  refine congrArg Entries.documents (List.filter_congr fun e he => ?_)
  have haccepts : (c.declaring complete).policy.accepts caller (c.declaring complete).name e.1 =
      Filter.admits (c.policy.visibility c.name caller) e.2 := (hx e he).symm
  have hvisible : Filter.admits ((c.declaring complete).policy.visibility
      (c.declaring complete).name caller) e.2 =
        Filter.admits (c.policy.visibility c.name caller) e.2 := rfl
  simp only [seeks, haccepts, hvisible, ← hx e he]
  cases Filter.admits (c.policy.visibility c.name caller) e.2 <;> simp

/-- **The policy decides about what the filter admits**, for it accepts it. -/
theorem decided_admitted (hk : s.Keyed) (hx : c.HidesExactly caller s) (f : Option Filter) :
    c.Decided caller (c.admitted caller f s) := by
  intro _ id hid
  obtain ⟨d, hd, hid⟩ := List.mem_filterMap.mp hid
  obtain ⟨hstored, hadmits⟩ := List.mem_filter.mp hd
  obtain ⟨k, he⟩ := Entries.mem_documents.mp hstored
  rw [(hk c.name).id _ he, Option.bind_some, Value.uuid?_ofUuid] at hid
  obtain rfl := Option.some.inj hid
  rw [storeFilter, Filter.admits_all?, Bool.and_eq_true, hx _ he] at hadmits
  exact ⟨true, AccessPolicy.accepts_iff_grants.mp hadmits.2⟩

/-- **Both ways cut their page out of the same list.** -/
theorem surely_paged (hk : s.Keyed) (hx : c.HidesExactly caller s) (hp : plan.Closed)
    (hplain : ∀ d ∈ (s.entries c.name).documents, plan.PlainAt s d) (complete : Bool)
    (f : Option Filter) (window : Paging) :
    Surely s
      (if plan.isNative && !(!(c.declaring complete).policy.isComplete c.name caller) then
        (c.declaring complete).searchInStore (c.storeFilter caller f) plan window
        else (c.declaring complete).searchHere caller (c.storeFilter caller f) plan window
          (!(c.declaring complete).policy.isComplete c.name caller))
      (.ok ((c.result caller f plan s).length, window.cut (c.result caller f plan s))) := by
  have hdecided : (c.declaring complete).Decided caller
      ((c.declaring complete).admitted caller f s) :=
    fun _ => decided_admitted (c := c.declaring false) hk hx f rfl
  refine Tells.surely ((tells_paged id id (absurd hdecided) window).mono fun out hout => ?_)
  rw [hout.2.eq hp hk hplain, result, result, sought_declaring hx]

/-- **What is made of a page** does not depend on what the policy declares. -/
theorem present_declaring (c : Collection E) (complete : Bool) (caller : Caller) (p : Inquiry)
    (count : Nat) (ds : List Document) :
    (c.declaring complete).present caller p count ds = c.present caller p count ds := by
  have hhydrate : (c.declaring complete).schema.hydrateEach
      ((c.declaring complete).viewer caller) ds = c.schema.hydrateEach (c.viewer caller) ds :=
    Relation.hydrateEach_declaring c.policy complete caller c.schema.relations ds
  rw [present, hhydrate]
  rfl

/-- **A page that can be shown is answered in one way**, be it with entities or with a failure. -/
theorem exists_surely_present (hk : s.Keyed) {ds : List Document}
    (hdecided : p.includeDependents = true → ∀ d ∈ ds,
      Relation.DecidedAll (c.viewer caller) s false c.schema.relations d) (count : Nat) :
    ∃ answer, Surely s (c.present caller p count ds) answer := by
  have hshown := (Tells.surely (tells_shown id id hk hdecided)).inPlace (c.place "search")
  obtain ⟨read, hread⟩ : ∃ r, Surely s ((ds.map (c.shownFor caller s p)).mapM c.ofDocument) r :=
    exists_surely_mapM fun d _ => ⟨_, surely_ofExcept rfl⟩
  cases read with
  | error e => exact ⟨_, hshown.bind (hread.inPlace _).bind_error⟩
  | ok results =>
    exact ⟨.ok (p.pageWith count results), hshown.bind ((hread.inPlace _).bind fun _ _ => Iff.rfl)⟩

section

variable (hk : s.Keyed) (hx : c.HidesExactly caller s) (hfilter : c.schema.filterOf p = .ok f)
  (hplan : SortPlan.resolve c.schema p.sortBy p.sortAscending = .ok plan)
  (hplain : ∀ d ∈ (s.entries c.name).documents, plan.PlainAt s d)

include hk hx hfilter hplan hplain

/-- **Both ways a search goes on with its page**, and what it makes of it is all that can be told. -/
theorem runs_search_iff (complete : Bool) {r : Except Failure (SearchPage E)} {t : Store} :
    ((c.declaring complete).search caller p).run.Runs .calm s r t ↔
      (c.present caller p (c.result caller f plan s).length
        ((Paging.ofPage p.page p.pageSize).cut (c.result caller f plan s))).run.Runs .calm s r t := by
  have hsearch : c.searchFilter caller p = .ok (c.storeFilter caller f) :=
    searchFilter_ok_iff.mpr ⟨f, hfilter, rfl⟩
  have hpage := surely_paged hk hx (SortPlan.closed_of_resolve hplan) hplain complete f
    (Paging.ofPage p.page p.pageSize)
  rw [search_eq, ← present_declaring c complete]
  refine (((surely_ofExcept hsearch).inPlace _).runs_bind_iff).trans ?_
  refine (((surely_ofExcept hplan).inPlace _).runs_bind_iff).trans ?_
  exact (hpage.inPlace _).runs_bind_iff

end

/-- A search that cannot be compiled fails alike both ways. -/
theorem surely_search_refused {e : StoreError} (hfilter : c.schema.filterOf p = .error e)
    (complete : Bool) : Surely s ((c.declaring complete).search caller p)
      (.error (.ofStore (c.place "search") e)) :=
  ((surely_ofExcept (searchFilter_error_iff.mpr hfilter)).inPlace _).bind_error

theorem surely_search_unsorted (hfilter : c.schema.filterOf p = .ok f) {e : StoreError}
    (hplan : SortPlan.resolve c.schema p.sortBy p.sortAscending = .error e) (complete : Bool) :
    Surely s ((c.declaring complete).search caller p)
      (.error (.ofStore (c.place "search") e)) := by
  have hsearch : c.searchFilter caller p = .ok (c.storeFilter caller f) :=
    searchFilter_ok_iff.mpr ⟨f, hfilter, rfl⟩
  exact ((surely_ofExcept hsearch).inPlace _).bind ((surely_ofExcept hplan).inPlace _).bind_error

end Collection

/-- **A search is answered the same both ways.** Let the filter of the policy hide just what the
policy rejects, let the collections be keyed, and let the values that the search sorts by be plain.
Then whatever a search may be answered if the policy declares its filter complete, be it a page or a
failure, it may be answered if the policy does not, and the other way round. And if the policy
decides about the entities that copies are asked for, there is one answer, which the search surely
gives both ways. -/
theorem search_either_way {E : Type} (c : Collection E) (caller : Caller) (s : Store) (p : Inquiry)
    (hk : s.Keyed) (hx : c.HidesExactly caller s)
    (hplain : ∀ plan, SortPlan.resolve c.schema p.sortBy p.sortAscending = .ok plan →
      ∀ d ∈ (s.entries c.name).documents, plan.PlainAt s d) :
    (∀ r t, ((c.declaring true).search caller p).run.Runs .calm s r t ↔
      ((c.declaring false).search caller p).run.Runs .calm s r t) ∧
    ((∀ f, c.schema.filterOf p = .ok f → p.includeDependents = true → ∀ d ∈ c.sought caller f s,
        Relation.DecidedAll (c.viewer caller) s false c.schema.relations d) →
      ∃ answer, ∀ complete r t,
        ((c.declaring complete).search caller p).run.Runs .calm s r t ↔ r = answer ∧ t = s) := by
  have hone : ∀ {answer}, (∀ complete, Surely s ((c.declaring complete).search caller p) answer) →
      ∀ r t, ((c.declaring true).search caller p).run.Runs .calm s r t ↔
        ((c.declaring false).search caller p).run.Runs .calm s r t :=
    fun h r t => (h true r t).trans (h false r t).symm
  cases hfilter : c.schema.filterOf p with
  | error e =>
    have hsurely : ∀ complete, Surely s ((c.declaring complete).search caller p) _ :=
      Collection.surely_search_refused hfilter
    exact ⟨hone hsurely, fun _ => ⟨_, hsurely⟩⟩
  | ok f =>
    cases hplan : SortPlan.resolve c.schema p.sortBy p.sortAscending with
    | error e =>
      have hsurely : ∀ complete, Surely s ((c.declaring complete).search caller p) _ :=
        Collection.surely_search_unsorted hfilter hplan
      exact ⟨hone hsurely, fun _ => ⟨_, hsurely⟩⟩
    | ok plan =>
      have hruns := fun complete r t => Collection.runs_search_iff hk hx hfilter hplan
        (hplain plan hplan) complete (r := r) (t := t)
      refine ⟨fun r t => (hruns true r t).trans (hruns false r t).symm, fun hdecided => ?_⟩
      have hpage : p.includeDependents = true →
          ∀ d ∈ (Paging.ofPage p.page p.pageSize).cut (c.result caller f plan s),
            Relation.DecidedAll (c.viewer caller) s false c.schema.relations d := fun hfollow d hd =>
        hdecided f rfl hfollow d (mem_sortBy.mp (Paging.mem_of_mem_cut hd))
      obtain ⟨answer, hanswer⟩ := Collection.exists_surely_present hk hpage _
      exact ⟨answer, fun complete r t => (hruns complete r t).trans (hanswer r t)⟩

namespace Directory

/-- Nobody may see the second contact, and the filter says so. -/
def veiled : AccessPolicy where
  grants _ id _ := .ok (id != .ofByte 2)
  visibility _ _ := some (.ne "id" (Value.ofUuid (.ofByte 2)))
  isComplete _ _ := false

/-- It cannot be told who may see the third contact, and the filter hides it. -/
def undecided : AccessPolicy where
  grants _ id _ := if id = .ofByte 3 then .error (.backend "") else .ok true
  visibility _ _ := some (.ne "id" (Value.ofUuid (.ofByte 3)))
  isComplete _ _ := false

def veiledContacts : Collection Contact := ⟨Contact.kind, veiled, {}⟩

def undecidedContacts : Collection Contact := ⟨Contact.kind, undecided, {}⟩

/-- The second page of one contact each. -/
def nextByLastName : Inquiry := { byLastName with page := 2, pageSize := 1 }

def staffSession : Session := { store := staffStore, supply := fun _ => .nil }

/-- Whether a page tells that there are two contacts and shows the third of the staff alone. -/
def showsChefAlone (page : SearchPage Contact) : Bool :=
  page.itemCount = 2 && !page.more && page.results.map (·.record.id) = [.ofByte 3]

theorem plain_byLastName (plan : SortPlan)
    (h : SortPlan.resolve Contact.kind.schema byLastName.sortBy byLastName.sortAscending =
      .ok plan) : ∀ d ∈ (staffStore.entries "contacts").documents, plan.PlainAt staffStore d := by
  have hplan : SortPlan.resolve Contact.kind.schema byLastName.sortBy byLastName.sortAscending =
      .ok lastNamePlan := by decide +kernel
  cases hplan.symm.trans h
  unfold SortPlan.PlainAt
  decide +kernel

theorem plain_byManager (plan : SortPlan)
    (h : SortPlan.resolve Contact.kind.schema byManager.sortBy byManager.sortAscending =
      .ok plan) : ∀ d ∈ (staffStore.entries "contacts").documents, plan.PlainAt staffStore d := by
  have hplan : SortPlan.resolve Contact.kind.schema byManager.sortBy byManager.sortAscending =
      .ok managerPlan := by decide +kernel
  cases hplan.symm.trans h
  unfold SortPlan.PlainAt
  decide +kernel

/-- **Contacts found both ways**: a page of them by their own names, for which the store counts,
sorts and cuts if it may; all of them by their managers; and contacts whose manager cannot be
shown, so that the search fails. -/
theorem search_byManager_either_way :
    (lastNamePlan.isNative = true ∧ ∃ page, showsChefAlone page = true ∧ ∀ complete r t,
      ((veiledContacts.declaring complete).search {} nextByLastName).run.Runs .calm staffStore r t ↔
        r = .ok page ∧ t = staffStore) ∧
    (∃ answer, ∀ complete r t,
      ((veiledContacts.declaring complete).search {} byManager).run.Runs .calm staffStore r t ↔
        r = answer ∧ t = staffStore) ∧
    ((∀ r t, ((undecidedContacts.declaring true).search {} byLastName).run.Runs .calm staffStore
        r t ↔ ((undecidedContacts.declaring false).search {} byLastName).run.Runs .calm staffStore
          r t) ∧
      ∃ e, ((undecidedContacts.declaring true).search {} byLastName).run.Runs .calm staffStore
        (.error e) staffStore) := by
  have hveiled : veiledContacts.HidesExactly {} staffStore := by
    unfold Collection.HidesExactly
    decide +kernel
  have hundecided : undecidedContacts.HidesExactly {} staffStore := by
    unfold Collection.HidesExactly
    decide +kernel
  have hanswers : veiled.Answers {} := fun _ _ => ⟨_, rfl⟩
  refine ⟨⟨rfl, ?_⟩, ?_, ?_, ?_⟩
  · obtain ⟨answer, hanswer⟩ := (search_either_way veiledContacts {} staffStore nextByLastName
      staffStore_keyed hveiled plain_byLastName).2 fun _ _ _ d _ =>
        Relation.decidedAll_of_answers (veiledContacts.viewer {}) hanswers _ d
    obtain ⟨page, hrun, hpage⟩ := exists_calm_runs_ok
      ((veiledContacts.declaring true).search {} nextByLastName) (x := staffSession) rfl rfl
      (p := showsChefAlone) (by decide +kernel)
    obtain ⟨rfl, -⟩ := (hanswer true _ _).mp hrun
    exact ⟨page, hpage, hanswer⟩
  · exact (search_either_way veiledContacts {} staffStore byManager staffStore_keyed hveiled
      plain_byManager).2 fun _ _ _ d _ =>
        Relation.decidedAll_of_answers (veiledContacts.viewer {}) hanswers _ d
  · exact (search_either_way undecidedContacts {} staffStore byLastName staffStore_keyed hundecided
      plain_byLastName).1
  · have hrun := ((undecidedContacts.declaring true).search {} byLastName).run.runs_calm
      (x := staffSession) rfl rfl
    have hfails : (((undecidedContacts.declaring true).search {} byLastName).run.run
        staffSession).1.toOption.isNone = true := by decide +kernel
    rw [hrun.eq_of_quiet (Collection.quiet_search _ _ _)] at hrun
    generalize (Program.run _ staffSession).1 = answer at hrun hfails
    cases answer with
    | ok page => cases hfails
    | error e => exact ⟨e, hrun⟩

end Directory

end Registrar
