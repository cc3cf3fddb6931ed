import Registrar.Proofs.Directory.Resaving
import Registrar.Proofs.Engine.Alike
import Registrar.Proofs.Engine.Searching

/-!
# The traces of what is hidden

A search fetches entities that the caller is refused, drops them before it counts and cuts, and asks
for them again when it fills in copies; so in two stores that are alike for the caller it finds,
counts and copies the same. But when it sorts by a field of the entities referred to, it reads these
without asking. The order of the page can tell what a refused entity holds, or that there is one.

* `SortPlan.nativePart`: the terms that the store sorts by, alike in every store.
* `Collection.Searchable`: a store in which a search has its one order.
* `mirrors_searchHere`, `mirrors_search`: what is found, counted, cut and copied is the same.
* `Collection.OrderedAlike`: the plan orders what is sought alike in both stores.
* `answersAlike_of_spared`: a search that is not sorted by anything refused tells nothing.
* `search_alike_iff_ordered_alike`: **the order is the only trace.**
-/

namespace Registrar

/-! ### What the store sorts by -/

namespace SortPlan

variable {plan : SortPlan} {s : Store}

/-- The terms of a plan that are stored fields. -/
def nativePart (plan : SortPlan) : SortPlan :=
  plan.filter fun t => match t.target with
    | .field _ => true
    | .reference _ _ _ => false

theorem isNative_nativePart (plan : SortPlan) : plan.nativePart.isNative = true :=
  List.all_eq_true.mpr fun _ ht => (List.mem_filter.mp ht).2

theorem nativeKeys_nativePart (plan : SortPlan) :
    plan.nativePart.nativeKeys = plan.nativeKeys := by
  induction plan with
  | nil => rfl
  | cons t ts ih =>
    obtain ⟨⟨path⟩ | ⟨idField, target, targetField⟩, direction⟩ := t
    · exact congrArg (List.cons _) ih
    · exact ih

theorem Closed.nativePart (h : plan.Closed) : plan.nativePart.Closed := by
  obtain ⟨t, ht, hid⟩ := h
  exact ⟨t, List.mem_filter.mpr ⟨ht, by rw [hid]⟩, hid⟩

theorem PlainAt.nativePart {d : Document} (h : plan.PlainAt s d) : plan.nativePart.PlainAt s d :=
  fun t ht => h t (List.mem_filter.mp ht).1

/-- **Stored fields order alike** in every store. -/
theorem orderIn_of_native (h : plan.isNative = true) (s t : Store) (a b : Document) :
    plan.orderIn s a b = plan.orderIn t a b :=
  (orderDocuments_nativeKeys h s a b).symm.trans (orderDocuments_nativeKeys h t a b)

end SortPlan

namespace Collection

variable {E : Type} {c : Collection E} {caller : Caller} {s t : Store} {f : Option Filter}
  {plan : SortPlan}

/-! ### What is sought -/

/-- **A complete filter hides** the entities that the policy refuses. -/
def Hides (c : Collection E) (caller : Caller) (s : Store) : Prop :=
  c.policy.isComplete c.name caller = true → ∀ e ∈ s.entries c.name,
    c.policy.rejects caller c.name e.1 = true →
      Filter.admits (c.policy.visibility c.name caller) e.2 = false

/-- **A store in which a search has its one order**: it is keyed, a complete filter hides what is
refused, and the values that the plan sorts by are plain. -/
structure Searchable (c : Collection E) (caller : Caller) (plan : SortPlan) (s : Store) : Prop where
  keyed : s.Keyed
  hides : c.Hides caller s
  plain : ∀ d ∈ (s.entries c.name).documents, plan.PlainAt s d

theorem spares_of_complete (hk : s.Keyed) (hh : c.Hides caller s)
    (hcomplete : c.policy.isComplete c.name caller = true) {d : Document}
    (hd : d ∈ (s.entries c.name).documents)
    (hadmits : Filter.admits (c.policy.visibility c.name caller) d = true) :
    c.policy.spares caller c.name d = true := by
  obtain ⟨id, hid⟩ := Entries.mem_documents.mp hd
  rw [(hk c.name).spares_eq hid, Bool.not_eq_true']
  by_contra hrejects
  rw [hh hcomplete _ hid (Bool.eq_true_of_not_eq_false hrejects)] at hadmits
  cases hadmits

theorem spares_of_isGranted {d : Document} (h : c.isGranted caller d = true) :
    c.policy.spares caller c.name d = true := by
  rw [isGranted] at h
  rw [AccessPolicy.spares]
  cases hid : (d.value? "id").bind Value.uuid? with
  | none => rfl
  | some id =>
    rw [hid] at h
    dsimp only
    rw [AccessPolicy.rejects_of_accepts h, Bool.not_false]

/-- **What is left of the documents found is not refused.** -/
theorem spares_of_isLeft (hk : s.Keyed) (hh : c.Hides caller s) {d : Document}
    (hd : d ∈ (s.entries c.name).documents)
    (hadmits : Filter.admits (c.storeFilter caller f) d = true)
    (hleft : c.isLeft caller d = true) : c.policy.spares caller c.name d = true := by
  rw [storeFilter, Filter.admits_all?, Bool.and_eq_true] at hadmits
  rw [isLeft, Bool.or_eq_true] at hleft
  rcases hleft with hcomplete | hgranted
  · exact spares_of_complete hk hh hcomplete hd hadmits.2
  · exact spares_of_isGranted hgranted

theorem mem_sought (hk : s.Keyed) {d : Document} :
    d ∈ c.sought caller f s ↔ (d ∈ (s.entries c.name).documents ∧
      Filter.admits (c.storeFilter caller f) d = true) ∧ c.isLeft caller d = true := by
  rw [← found_eq_sought (hk c.name), found, admitted, List.mem_filter, List.mem_filter]

/-- **The same documents are sought in both stores.** -/
theorem sought_perm (ha : c.policy.Alike caller s t) (hs : c.Searchable caller plan s)
    (ht : c.Searchable caller plan t) : (c.sought caller f s).Perm (c.sought caller f t) := by
  have hspared : ∀ {u : Store}, c.Searchable caller plan u → c.sought caller f u =
      ((((u.entries c.name).documents.filter (c.policy.spares caller c.name)).filter
        (Filter.admits (c.storeFilter caller f))).filter (c.isLeft caller)) := by
    intro u hu
    have hall : ∀ d ∈ c.sought caller f u, c.policy.spares caller c.name d = true := by
      intro d hd
      obtain ⟨⟨hstored, hadmits⟩, hleft⟩ := (mem_sought hu.keyed).mp hd
      exact spares_of_isLeft hu.keyed hu.hides hstored hadmits hleft
    rw [← List.filter_eq_self.mpr hall, ← found_eq_sought (hu.keyed c.name), found, admitted,
      List.filter_comm]
    rw [List.filter_comm (c.policy.spares caller c.name)]
  rw [hspared hs, hspared ht]
  exact ((ha.perm_spared hs.keyed ht.keyed).filter _).filter _

/-! ### What is found -/

theorem answer_perm (g : Option Filter) (plan : SortPlan) (ds : List Document) :
    (Query.answer { filter := g, sort := plan.nativeKeys } ds).Perm
      (ds.filter (Filter.admits g)) :=
  sortBy_perm _ _

theorem answer_sorted (hs : c.Searchable caller plan s) (g : Option Filter) {ds : List Document}
    (hds : ds.Perm (s.entries c.name).documents) :
    (Query.answer { filter := g, sort := plan.nativeKeys } ds).Pairwise fun a b =>
      (plan.nativePart.orderIn s a b).isLE = true := by
  rw [← SortPlan.nativeKeys_nativePart]
  exact answer_pairwise plan.isNative_nativePart (fun d hd => (hs.plain d hd).nativePart) hds _

/-- **Whatever order the documents come in**, those found and not refused are the same, in the same
order. -/
theorem answer_spared (ha : c.policy.Alike caller s t) (hp : plan.Closed)
    (hs : c.Searchable caller plan s) (ht : c.Searchable caller plan t) (g : Option Filter)
    {ds ds' : List Document} (hds : ds.Perm (s.entries c.name).documents)
    (hds' : ds'.Perm (t.entries c.name).documents) :
    (Query.answer { filter := g, sort := plan.nativeKeys } ds).filter
        (c.policy.spares caller c.name) =
      (Query.answer { filter := g, sort := plan.nativeKeys } ds').filter
        (c.policy.spares caller c.name) := by
  have hmem : ∀ d ∈ (Query.answer { filter := g, sort := plan.nativeKeys } ds).filter
      (c.policy.spares caller c.name), d ∈ (s.entries c.name).documents := by
    intro d hd
    have hfound := (answer_perm g plan ds).mem_iff.mp (List.mem_filter.mp hd).1
    exact hds.mem_iff.mp (List.mem_filter.mp hfound).1
  have hstored : (ds.filter (c.policy.spares caller c.name)).Perm
      (ds'.filter (c.policy.spares caller c.name)) :=
    ((hds.filter _).trans (ha.perm_spared hs.keyed ht.keyed)).trans (hds'.filter _).symm
  refine SortPlan.sorted_unique (s := s) hp.nativePart (hs.keyed c.name) hmem
    ((answer_sorted hs g hds).filter _) ?_ ?_
  · refine ((answer_sorted ht g hds').filter _).imp fun {a b} h => ?_
    rwa [SortPlan.orderIn_of_native plan.isNative_nativePart s t]
  · refine ((answer_perm g plan ds).filter _).trans
      (List.Perm.trans ?_ ((answer_perm g plan ds').filter _).symm)
    rw [List.filter_comm, List.filter_comm _ _ ds']
    exact hstored.filter _

theorem askedIds_eq (ds : List Document) : askedIds ds = (Found.ofDocuments ds).ids := by
  rw [askedIds, Found.ids, Found.ofDocuments, List.map_filterMap]
  refine List.filterMap_congr fun d _ => ?_
  rw [Option.map_map]
  exact Option.map_id'.symm

theorem filter_spares_isGranted (ds : List Document) :
    (ds.filter (c.policy.spares caller c.name)).filter (c.isGranted caller) =
      ds.filter (c.isGranted caller) := by
  rw [List.filter_filter]
  refine List.filter_congr fun d _ => ?_
  cases hd : c.isGranted caller d with
  | true => rw [spares_of_isGranted hd, Bool.and_true]
  | false => rfl

/-- **Asking about what was found**: refused entities make no difference, and are dropped. -/
theorem mirrors_grantedDocuments {xs ys : List Document}
    (h : xs.filter (c.policy.spares caller c.name) = ys.filter (c.policy.spares caller c.name)) :
    Mirrors s t (fun ds ds' => ds = ds' ∧ ds = xs.filter (c.isGranted caller))
      (c.grantedDocuments caller xs) (c.grantedDocuments caller ys) := by
  have hasked : c.policy.grantedAmong c.name caller (askedIds ys) =
      c.policy.grantedAmong c.name caller (askedIds xs) := by
    rw [askedIds_eq, askedIds_eq, ← AccessPolicy.grantedAmong_filter,
      Relation.ids_ofDocuments_filter, ← h, ← Relation.ids_ofDocuments_filter,
      AccessPolicy.grantedAmong_filter]
  rw [grantedDocuments_eq, grantedDocuments_eq, hasked]
  refine (mirrors_decided _).guarded.bind ?_
  rintro ids _ ⟨rfl, hids⟩
  refine mirrors_pure ⟨?_, filter_granted hids⟩
  rw [filter_granted hids, filter_granted (hasked.trans hids), ← filter_spares_isGranted, h,
    filter_spares_isGranted]

/-- **What is found and left is the same**, and it is what is sought. -/
theorem mirrors_narrowed (hs : c.Searchable caller plan s) (ht : c.Searchable caller plan t)
    {xs ys : List Document}
    (hxs : ∀ d ∈ xs, d ∈ (s.entries c.name).documents ∧
      Filter.admits (c.storeFilter caller f) d = true)
    (hys : ∀ d ∈ ys, d ∈ (t.entries c.name).documents ∧
      Filter.admits (c.storeFilter caller f) d = true)
    (h : xs.filter (c.policy.spares caller c.name) = ys.filter (c.policy.spares caller c.name)) :
    Mirrors s t (fun ds ds' => ds = ds' ∧ ∀ d ∈ ds, d ∈ c.sought caller f s)
      (if (!c.policy.isComplete c.name caller) = true then c.grantedDocuments caller xs
        else pure xs)
      (if (!c.policy.isComplete c.name caller) = true then c.grantedDocuments caller ys
        else pure ys) := by
  cases hcomplete : c.policy.isComplete c.name caller with
  | true =>
    have hleft : ∀ d, c.isLeft caller d = true := fun d => by rw [isLeft, hcomplete, Bool.true_or]
    rw [List.filter_eq_self.mpr fun d hd =>
        spares_of_isLeft hs.keyed hs.hides (hxs d hd).1 (hxs d hd).2 (hleft d),
      List.filter_eq_self.mpr fun d hd =>
        spares_of_isLeft ht.keyed ht.hides (hys d hd).1 (hys d hd).2 (hleft d)] at h
    exact mirrors_pure ⟨h, fun d hd => (mem_sought hs.keyed).mpr ⟨hxs d hd, hleft d⟩⟩
  | false =>
    refine (mirrors_grantedDocuments h).mono fun ds ds' hds => ⟨hds.1, fun d hd => ?_⟩
    rw [hds.2, List.mem_filter] at hd
    refine (mem_sought hs.keyed).mpr ⟨hxs d hd.1, ?_⟩
    rw [isLeft, hd.2, Bool.or_true]

/-! ### Pages -/

/-- The plan orders what is sought alike in both stores. -/
def OrdersAlike (c : Collection E) (caller : Caller) (f : Option Filter) (plan : SortPlan)
    (s t : Store) : Prop :=
  ∀ a ∈ c.sought caller f s, ∀ b ∈ c.sought caller f s, plan.orderIn s a b = plan.orderIn t a b

/-- **The result is the same**, if its order is. -/
theorem result_alike (ha : c.policy.Alike caller s t) (hp : plan.Closed)
    (hs : c.Searchable caller plan s) (ht : c.Searchable caller plan t)
    (ho : c.OrdersAlike caller f plan s t) :
    c.result caller f plan s = c.result caller f plan t := by
  refine eq_result hp ht.keyed ht.plain ((sortBy_perm _ _).trans (sought_perm ha hs ht)) ?_
  refine (result_pairwise hp hs.keyed hs.plain).imp_of_mem fun {a b} hx hy hlt => ?_
  rw [← ho a (mem_sortBy.mp hx) b (mem_sortBy.mp hy), hlt]
  rfl

theorem mirrors_searchInStore (ha : c.policy.Alike caller s t) (hp : plan.Closed)
    (hs : c.Searchable caller plan s) (ht : c.Searchable caller plan t)
    (hnative : plan.isNative = true) (hcomplete : c.policy.isComplete c.name caller = true)
    (window : Paging) :
    Mirrors s t Eq (c.searchInStore (c.storeFilter caller f) plan window)
      (c.searchInStore (c.storeFilter caller f) plan window) := by
  refine (tells_searchInStore id id hnative hcomplete window).mirrors
    (tells_searchInStore id id hnative hcomplete window) fun out out' h h' => ?_
  rw [h.eq hp hs.keyed hs.plain, h'.eq hp ht.keyed ht.plain,
    result_alike ha hp hs ht fun a _ b _ => SortPlan.orderIn_of_native hnative s t a b]

theorem mirrors_sorted (hp : plan.Closed) (ha : c.policy.Alike caller s t)
    (hs : c.Searchable caller plan s) (ht : c.Searchable caller plan t)
    (ho : c.OrdersAlike caller f plan s t) {ds : List Document}
    (hds : ∀ d ∈ ds, d ∈ c.sought caller f s) :
    Mirrors s t Eq (if plan.isNative = true then pure ds else sortByReferences plan ds)
      (if plan.isNative = true then pure ds else sortByReferences plan ds) := by
  by_cases hnative : plan.isNative = true
  · rw [if_pos hnative]
    exact mirrors_pure rfl
  have hplain : ∀ d ∈ ds, plan.PlainAt s d := fun d hd =>
    hs.plain d (mem_stored_of_mem_sought (hds d hd))
  have hplain' : ∀ d ∈ ds, plan.PlainAt t d := fun d hd =>
    ht.plain d (mem_stored_of_mem_sought ((sought_perm ha hs ht).mem_iff.mp (hds d hd)))
  rw [if_neg hnative]
  refine (tells_sortByReferences id id plan ds).mirrors (tells_sortByReferences id id plan ds) ?_
  rintro out out' ⟨hperm, hsorted⟩ ⟨hperm', hsorted'⟩
  refine SortPlan.sorted_unique hp (hs.keyed c.name)
    (fun d hd => mem_stored_of_mem_sought (hds d (hperm.mem_iff.mp hd)))
    (hsorted hs.keyed hplain) ?_ (hperm.trans hperm'.symm)
  refine (hsorted' ht.keyed hplain').imp_of_mem fun {a b} hx hy hle => ?_
  rwa [ho a (hds a (hperm'.mem_iff.mp hx)) b (hds b (hperm'.mem_iff.mp hy))]

/-- **The page that is cut here is the same**, if the order is. -/
theorem mirrors_searchHere (ha : c.policy.Alike caller s t) (hp : plan.Closed)
    (hs : c.Searchable caller plan s) (ht : c.Searchable caller plan t)
    (ho : c.OrdersAlike caller f plan s t) (window : Paging) :
    Mirrors s t Eq
      (c.searchHere caller (c.storeFilter caller f) plan window
        (!c.policy.isComplete c.name caller))
      (c.searchHere caller (c.storeFilter caller f) plan window
        (!c.policy.isComplete c.name caller)) := by
  have hmem : ∀ {u : Store} {ds : List Document}, ds.Perm (u.entries c.name).documents →
      ∀ d ∈ Query.answer { filter := c.storeFilter caller f, sort := plan.nativeKeys } ds,
        d ∈ (u.entries c.name).documents ∧ Filter.admits (c.storeFilter caller f) d = true := by
    intro u ds hds d hd
    obtain ⟨hd, hadmits⟩ := List.mem_filter.mp (mem_sortBy.mp hd)
    exact ⟨hds.mem_iff.mp hd, hadmits⟩
  rw [searchHere_eq]
  refine (mirrors_find (R := fun xs ys =>
    (∀ d ∈ xs, d ∈ (s.entries c.name).documents ∧
      Filter.admits (c.storeFilter caller f) d = true) ∧
    (∀ d ∈ ys, d ∈ (t.entries c.name).documents ∧
      Filter.admits (c.storeFilter caller f) d = true) ∧
    xs.filter (c.policy.spares caller c.name) = ys.filter (c.policy.spares caller c.name))
      fun ds hds => ⟨_, .refl _, hmem hds, hmem (.refl _), ?_⟩).guarded.bind ?_
  · exact answer_spared ha hp hs ht _ hds (.refl _)
  rintro xs ys ⟨hxs, hys, hspared⟩
  refine (mirrors_narrowed hs ht hxs hys hspared).bind ?_
  rintro ds _ ⟨rfl, hds⟩
  exact (mirrors_sorted hp ha hs ht ho hds).bind fun out _ hout => mirrors_pure (hout ▸ rfl)

theorem mirrors_shown (ha : c.policy.Alike caller s t) (hs : s.Keyed) (ht : t.Keyed) (p : Inquiry)
    (ds : List Document) :
    Mirrors s t Eq
      (if p.includeDependents = true then c.schema.hydrateEach (c.viewer caller) ds else pure ds)
      (if p.includeDependents = true then c.schema.hydrateEach (c.viewer caller) ds
        else pure ds) := by
  by_cases h : p.includeDependents = true
  · rw [if_pos h]
    exact Relation.mirrors_hydrateEach ha hs ht _ ds
  · rw [if_neg h]
    exact mirrors_pure rfl

/-- **The plan of a search orders what is sought alike** in both stores. -/
def OrderedAlike (c : Collection E) (caller : Caller) (p : Inquiry) (s t : Store) : Prop :=
  ∀ f plan, c.schema.filterOf p = .ok f →
    SortPlan.resolve c.schema p.sortBy p.sortAscending = .ok plan →
      c.OrdersAlike caller f plan s t

/-- **Whatever a search may be answered in one store**, it may be answered in the other. -/
theorem mirrors_search {p : Inquiry} (ha : c.policy.Alike caller s t)
    (hs : ∀ plan, SortPlan.resolve c.schema p.sortBy p.sortAscending = .ok plan →
      c.Searchable caller plan s)
    (ht : ∀ plan, SortPlan.resolve c.schema p.sortBy p.sortAscending = .ok plan →
      c.Searchable caller plan t)
    (ho : c.OrderedAlike caller p s t) :
    Mirrors s t Eq (c.search caller p) (c.search caller p) := by
  refine ((mirrors_decided _).inPlace _).bind ?_
  rintro g _ ⟨rfl, hg⟩
  obtain ⟨f, hf, rfl⟩ := searchFilter_ok_iff.mp hg
  refine ((mirrors_decided _).inPlace _).bind ?_
  rintro plan _ ⟨rfl, hplan⟩
  have hp : plan.Closed := SortPlan.closed_of_resolve hplan
  refine Mirrors.bind (R := Eq) (Mirrors.inPlace ?_ _) ?_
  · split
    · rename_i h
      rw [Bool.and_eq_true, Bool.not_not] at h
      exact mirrors_searchInStore ha hp (hs plan hplan) (ht plan hplan) h.1 h.2 _
    · exact mirrors_searchHere ha hp (hs plan hplan) (ht plan hplan) (ho f plan hf hplan) _
  rintro ⟨count, found⟩ _ rfl
  refine ((mirrors_shown ha (hs plan hplan).keyed (ht plan hplan).keyed p found).inPlace _).bind ?_
  rintro shown _ rfl
  refine Mirrors.bind (R := Eq) (Mirrors.inPlace ?_ _) fun results _ hresults => ?_
  · exact mirrors_mapM _ fun d _ => (mirrors_decided _).mono fun _ _ h => h.1
  · exact mirrors_pure (hresults ▸ rfl)

/-! ### Where the order comes from -/

/-- **Entities that are not refused** order alike in both stores. -/
theorem orderIn_alike (ha : c.policy.Alike caller s t) (hs : s.Keyed) (ht : t.Keyed)
    {a b : Document} (h : ∀ u ∈ plan, ∀ idField target targetField,
      u.target = .reference idField target targetField → ∀ d, d = a ∨ d = b → ∀ id,
        (d.value? idField).bind Value.uuid? = some id →
          c.policy.rejects caller target id = false) :
    plan.orderIn s a b = plan.orderIn t a b := by
  induction plan with
  | nil => rfl
  | cons u us ih =>
    have hvalue : ∀ d, d = a ∨ d = b → u.valueIn s d = u.valueIn t d := by
      intro d hd
      rw [SortTerm.valueIn, SortTerm.valueIn]
      cases htarget : u.target with
      | field path => rfl
      | reference idField target targetField =>
        dsimp only
        cases hid : (d.value? idField).bind Value.uuid? with
        | none => rfl
        | some id =>
          have hspared := h u List.mem_cons_self idField target targetField htarget d hd id hid
          rw [Option.bind_some, Option.bind_some, ha.document?_eq hs ht hspared]
    rw [SortPlan.orderIn, SortPlan.orderIn, hvalue a (.inl rfl), hvalue b (.inr rfl),
      ih fun x hx => h x (List.mem_cons_of_mem u hx)]

/-! ### Answers -/

/-- **A search may be answered alike in both stores**, whatever page is asked for. -/
def AnswersAlike (c : Collection E) (caller : Caller) (p : Inquiry) (s t : Store) : Prop :=
  ∀ page pageSize r, (c.search caller { p with page, pageSize }).run.Runs .calm s r s ↔
    (c.search caller { p with page, pageSize }).run.Runs .calm t r t

/-- **A search is answered alike** if its plan orders what it seeks alike. -/
theorem answersAlike_of_orderedAlike {p : Inquiry} (ha : c.policy.Alike caller s t)
    (hs : ∀ plan, SortPlan.resolve c.schema p.sortBy p.sortAscending = .ok plan →
      c.Searchable caller plan s)
    (ht : ∀ plan, SortPlan.resolve c.schema p.sortBy p.sortAscending = .ok plan →
      c.Searchable caller plan t)
    (ho : c.OrderedAlike caller p s t) : c.AnswersAlike caller p s t := by
  intro page pageSize r
  have ho' : c.OrderedAlike caller p t s := fun f plan hf hplan a hma b hmb =>
    (ho f plan hf hplan a ((sought_perm ha (hs plan hplan) (ht plan hplan)).mem_iff.mpr hma)
      b ((sought_perm ha (hs plan hplan) (ht plan hplan)).mem_iff.mpr hmb)).symm
  exact ⟨(mirrors_search (p := { p with page, pageSize }) ha hs ht ho).runs,
    (mirrors_search (p := { p with page, pageSize }) ha.symm ht hs ho').runs⟩

/-- **A search tells nothing of what is hidden** if no document that it seeks refers to a refused
entity by a field that it is sorted by. -/
theorem answersAlike_of_spared {p : Inquiry} (ha : c.policy.Alike caller s t)
    (hs : ∀ plan, SortPlan.resolve c.schema p.sortBy p.sortAscending = .ok plan →
      c.Searchable caller plan s)
    (ht : ∀ plan, SortPlan.resolve c.schema p.sortBy p.sortAscending = .ok plan →
      c.Searchable caller plan t)
    (h : ∀ f plan, c.schema.filterOf p = .ok f →
      SortPlan.resolve c.schema p.sortBy p.sortAscending = .ok plan → ∀ u ∈ plan,
        ∀ idField target targetField, u.target = .reference idField target targetField →
          ∀ d ∈ c.sought caller f s, ∀ id, (d.value? idField).bind Value.uuid? = some id →
            c.policy.rejects caller target id = false) :
    c.AnswersAlike caller p s t := by
  refine answersAlike_of_orderedAlike ha hs ht fun f plan hf hplan a hma b hmb => ?_
  refine orderIn_alike ha (hs plan hplan).keyed (ht plan hplan).keyed
    fun u hu idField target targetField htarget d hd => ?_
  refine h f plan hf hplan u hu idField target targetField htarget d ?_
  rcases hd with rfl | rfl
  · exact hma
  · exact hmb

/-- **Each entity can be read and told from the others by its id.** -/
structure Legible (c : Collection E) (caller : Caller) (s : Store) : Prop where
  readable : c.ReadableIn caller s
  size : s.size c.name < 2 ^ 64
  id : ∀ d e id, d.value? "id" = some (Value.ofUuid id) → c.kind.ofDocument? d = some e →
    c.kind.id e = id
  navigation : ∀ r ∈ c.schema.relations, "id" ≠ r.navigation

/-- **The same entities are read from the same documents** only. -/
theorem eq_of_reads {p : Inquiry} (hk : s.Keyed) (hs : c.Legible caller s) {ds ds' : List Document}
    {es : List E} (h : c.Reads caller s p ds es) (h' : c.Reads caller t p ds' es)
    (hds : ∀ d ∈ ds, d ∈ (s.entries c.name).documents)
    (hds' : ∀ d ∈ ds', d ∈ (s.entries c.name).documents) : ds = ds' := by
  have hid : ∀ {u : Store} {d : Document} {e : E}, d ∈ (s.entries c.name).documents →
      c.kind.ofDocument? (c.shownFor caller u p d) = some e →
        (c.kind.id e, d) ∈ s.entries c.name := by
    intro u d e hd he
    obtain ⟨id, hstored⟩ := Entries.mem_documents.mp hd
    have hvalue : (c.shownFor caller u p d).value? "id" = d.value? "id" := by
      rw [shownFor]
      split
      · exact Relation.value?_hydrated_of_ne hs.navigation d
      · rfl
    rwa [hs.id _ e id (hvalue.trans ((hk c.name).id _ hstored)) he]
  induction h generalizing ds' with
  | nil =>
    cases h'
    rfl
  | @cons d e ds es he _ ih =>
    obtain ⟨d', ds', he', hes', rfl⟩ := List.forall₂_cons_right_iff.mp h'
    have hone : d = d' := Entries.eq_of_mem (hk c.name).nodup (hid (hds d List.mem_cons_self) he)
      (hid (hds' d' List.mem_cons_self) he')
    rw [hone, ih hes' (fun x hx => hds x (List.mem_cons_of_mem d hx))
      fun x hx => hds' x (List.mem_cons_of_mem d' hx)]

/-- Documents that stand in one list in the order of both stores are in the same order. -/
theorem orderIn_eq_of_pairwise {ds : List Document}
    (h : ds.Pairwise fun a b => plan.orderIn s a b = .lt)
    (h' : ds.Pairwise fun a b => plan.orderIn t a b = .lt) {a b : Document} (ha : a ∈ ds)
    (hb : b ∈ ds) : plan.orderIn s a b = plan.orderIn t a b := by
  refine List.Pairwise.forall_of_forall_of_flip (R := fun a b =>
    plan.orderIn s a b = plan.orderIn t a b) (fun d hd => ?_) ?_ ?_ ha hb
  · rw [SortPlan.orderIn_self s, SortPlan.orderIn_self t]
  · exact (h.and h').imp fun {x y} hxy => hxy.1.trans hxy.2.symm
  · refine (h.and h').imp_of_mem fun {x y} hx hy hxy => ?_
    rw [flip, SortPlan.orderIn_swap s, SortPlan.orderIn_swap t, hxy.1, hxy.2]

end Collection

/-- **The order is the only trace of what is hidden.** Let two stores be alike for a caller: they
differ in entities only that the policy refuses him. Let a search have its one order in each of
them. If its plan orders what is sought alike in both, then it may be answered alike, by the same
page or the same failure, whatever page is asked for. And if the policy decides about every entity
and each can be read, it is answered alike only then. -/
theorem search_alike_iff_ordered_alike {E : Type} {c : Collection E} {caller : Caller}
    {s t : Store} {p : Inquiry} (ha : c.policy.Alike caller s t)
    (hs : ∀ plan, SortPlan.resolve c.schema p.sortBy p.sortAscending = .ok plan →
      c.Searchable caller plan s)
    (ht : ∀ plan, SortPlan.resolve c.schema p.sortBy p.sortAscending = .ok plan →
      c.Searchable caller plan t) :
    (c.OrderedAlike caller p s t → c.AnswersAlike caller p s t) ∧
      (c.policy.Answers caller → c.Legible caller s → c.Legible caller t →
        c.AnswersAlike caller p s t → c.OrderedAlike caller p s t) := by
  refine ⟨Collection.answersAlike_of_orderedAlike ha hs ht, ?_⟩
  intro hanswers hls hlt halike f plan hf hplan
  obtain ⟨hs, ht⟩ := And.intro (hs plan hplan) (ht plan hplan)
  have hp : plan.Closed := SortPlan.closed_of_resolve hplan
  obtain ⟨es, hreads, hpages⟩ := Collection.exists_pagesThrough hs.keyed hf hplan
    (Collection.presentable_of_answers hanswers hls.readable p f) hs.plain hls.size
  obtain ⟨es', hreads', hpages'⟩ := Collection.exists_pagesThrough ht.keyed hf hplan
    (Collection.presentable_of_answers hanswers hlt.readable p f) ht.plain hlt.size
  -- Without a page size the page holds all entities that were read.
  have hentities : es = es' := by
    obtain ⟨⟨r, u, hrun⟩, hpage⟩ := hpages 1 0
    obtain ⟨rfl, answer, rfl, hanswer⟩ := hpage r u hrun
    obtain ⟨-, answer', heq, hanswer'⟩ := (hpages' 1 0).2 _ _ ((halike 1 0 _).mp hrun)
    cases heq
    exact hanswer.results.symm.trans hanswer'.results
  subst hentities
  have hmem' : ∀ d, d ∈ c.result caller f plan t ↔ d ∈ c.sought caller f s := fun d =>
    mem_sortBy.trans (Collection.sought_perm ha hs ht).mem_iff.symm
  have hone : c.result caller f plan s = c.result caller f plan t :=
    Collection.eq_of_reads hs.keyed hls hreads hreads'
      (fun d hd => Collection.mem_stored_of_mem_sought (mem_sortBy.mp hd))
      (fun d hd => Collection.mem_stored_of_mem_sought ((hmem' d).mp hd))
  intro a hma b hmb
  exact Collection.orderIn_eq_of_pairwise (Collection.result_pairwise hp hs.keyed hs.plain)
    (hone ▸ Collection.result_pairwise hp ht.keyed ht.plain) (mem_sortBy.mpr hma)
    (mem_sortBy.mpr hmb)

/-! ### A manager that is hidden -/

namespace Directory

/-- Three contacts: the first one has the second as manager, and the third one has the first. -/
def chain : List ContactRecord :=
  [{ ContactRecord.ofName "Ann" "Aebi" with id := .ofByte 1, managerId := some (.ofByte 2) },
   { ContactRecord.ofName "Bea" "Boss" with id := .ofByte 2 },
   { ContactRecord.ofName "Cy" "Chef" with id := .ofByte 3, managerId := some (.ofByte 1) }]

/-- The store of some contacts. -/
def contactStore (rs : List ContactRecord) : Store :=
  ⟨[("contacts", rs.map fun r => (r.id, r.toDocument .stored))]⟩

theorem contactStore_keyed {rs : List ContactRecord} (h : (rs.map (·.id)).Nodup) :
    (contactStore rs).Keyed := by
  intro name
  by_cases hname : name = "contacts"
  · subst hname
    refine ⟨?_, fun e he => ?_⟩
    · change ((rs.map _).map Prod.fst).Nodup
      rwa [List.map_map]
    · obtain ⟨r, -, rfl⟩ := List.mem_map.mp he
      rfl
  · have hnone : (contactStore rs).entries name = [] := by
      simp [Store.entries, Store.collection?, contactStore, Ne.symm hname]
    rw [hnone]
    exact Entries.Keyed.nil

theorem contactStore_alike (rs : List ContactRecord) :
    discreet.Alike {} (contactStore rs) (contactStore (rs.filter (·.id != .ofByte 2))) := by
  intro name e he
  have hspared : (e.1 != .ofByte 2) = true := by simpa [AccessPolicy.rejects, discreet] using he
  by_cases hname : name = "contacts"
  · subst hname
    change e ∈ rs.map _ ↔ e ∈ (rs.filter _).map _
    simp only [List.mem_map, List.mem_filter]
    constructor
    · rintro ⟨r, hr, rfl⟩
      exact ⟨r, ⟨hr, hspared⟩, rfl⟩
    · rintro ⟨r, ⟨hr, -⟩, rfl⟩
      exact ⟨r, hr, rfl⟩
  · have hnone : ∀ rs, (contactStore rs).entries name = [] := fun rs => by
      simp [Store.entries, Store.collection?, contactStore, Ne.symm hname]
    rw [hnone, hnone]

theorem contactStore_searchable {rs : List ContactRecord} {p : Inquiry} {plan : SortPlan}
    (hresolve : SortPlan.resolve Contact.kind.schema p.sortBy p.sortAscending = .ok plan)
    (hnodup : (rs.map (·.id)).Nodup)
    (hplain : ∀ d ∈ ((contactStore rs).entries "contacts").documents,
      plan.PlainAt (contactStore rs) d) (plan' : SortPlan)
    (h : SortPlan.resolve discreetContacts.schema p.sortBy p.sortAscending = .ok plan') :
    discreetContacts.Searchable {} plan' (contactStore rs) := by
  cases hresolve.symm.trans h
  exact ⟨contactStore_keyed hnodup, fun hcomplete => absurd hcomplete (by decide), hplain⟩

theorem contactStore_legible {rs : List ContactRecord}
    (hreadable : discreetContacts.ReadableIn {} (contactStore rs))
    (hsize : (contactStore rs).size "contacts" < 2 ^ 64) :
    discreetContacts.Legible {} (contactStore rs) where
  readable := hreadable
  size := hsize
  id _ _ _ := Kind.id_of_read (i := .contact)
  navigation := by decide

def prunedChain : List ContactRecord := chain.filter (·.id != .ofByte 2)

/-- Contacts that are sorted by their own names tell nothing of one that is hidden; **sorted by
their managers** they do. -/
theorem search_byManager_tells :
    discreetContacts.AnswersAlike {} byLastName (contactStore chain) (contactStore prunedChain) ∧
      ¬ discreetContacts.AnswersAlike {} byManager (contactStore chain)
        (contactStore prunedChain) := by
  have halike : discreet.Alike {} (contactStore chain) (contactStore prunedChain) :=
    contactStore_alike chain
  constructor
  · have hplan : SortPlan.resolve Contact.kind.schema byLastName.sortBy
        byLastName.sortAscending = .ok lastNamePlan := by decide +kernel
    refine (search_alike_iff_ordered_alike halike
      (contactStore_searchable hplan (by decide) ?_)
      (contactStore_searchable hplan (by decide) ?_)).1 fun f plan _ h a _ b _ => ?_
    · unfold SortPlan.PlainAt
      decide +kernel
    · unfold SortPlan.PlainAt
      decide +kernel
    · cases hplan.symm.trans h
      exact SortPlan.orderIn_of_native (by decide) _ _ a b
  · intro h
    have hplan : SortPlan.resolve Contact.kind.schema byManager.sortBy byManager.sortAscending =
        .ok managerPlan := by decide +kernel
    have ho : discreetContacts.OrderedAlike {} byManager (contactStore chain)
        (contactStore prunedChain) := by
      refine (search_alike_iff_ordered_alike halike
        (contactStore_searchable hplan (by decide) ?_)
        (contactStore_searchable hplan (by decide) ?_)).2 (fun _ _ => ⟨_, rfl⟩)
        (contactStore_legible ?_ (by decide)) (contactStore_legible ?_ (by decide)) h
      · unfold SortPlan.PlainAt
        decide +kernel
      · unfold SortPlan.PlainAt
        decide +kernel
      · unfold Collection.ReadableIn
        decide +kernel
      · unfold Collection.ReadableIn
        decide +kernel
    -- With the manager hidden the first contact follows the third one; without, it comes first.
    have hdiffer : ¬ discreetContacts.OrdersAlike {} none managerPlan (contactStore chain)
        (contactStore prunedChain) := by
      unfold Collection.OrdersAlike
      decide +kernel
    exact hdiffer (ho none managerPlan rfl hplan)

end Directory

end Registrar
