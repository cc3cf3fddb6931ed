import Registrar.Proofs.Directory.Kinds
import Registrar.Proofs.Directory.Readable
import Registrar.Proofs.Engine.Following
import Registrar.Proofs.Search.Order
import Registrar.Proofs.Search.Pages

/-!
# Searching

A search seeks the entities of a collection that meet a filter and that the caller may see. It has
two ways to a page. When the store can sort by the plan and its filter hides what the policy
rejects, the store counts, sorts and cuts. Otherwise all matches are fetched, narrowed, sorted and
cut here. Documents come from a collection in any order, each time anew. In every store both ways
cut their page out of what is found, put in some order; when documents are kept under their ids,
this is what is sought, and both ways cut their pages out of one list, for the order of the plan
has no ties.

* `Collection.sought`, `Collection.found`: the documents that a search seeks, and those it finds.
* `Collection.Decided`: the policy decides about what it is asked.
* `tells_termValues`: what a term sorts by is fetched for every document.
* `tells_paged`: either way a page is cut out of what is found.
* `Collection.Presentable`: what is sought can be shown to the caller.
* `Collection.PagesThrough`: a search is answered with every page of a list.
* `search_exact`: **the pages of a search tile what is sought.**
* `search_readable`: so they do in the directory, once all that is stored can be read.
-/

namespace Registrar

theorem Filter.admits_all? (f g : Option Filter) (d : Document) :
    admits (all? (f.toList ++ g.toList)) d = (admits f d && admits g d) := by
  cases f <;> cases g <;> simp [all?, admits, holds, holdsAll]

theorem Query.window_paging {α : Type} (w : Paging) (items : List α) :
    Query.window (if w.offset = 0 then none else some w.offset.toNat)
      (w.pageSize.map UInt64.toNat) items = w.cut items := by
  have hdrop : items.drop ((if w.offset = 0 then none else some w.offset.toNat).getD 0) =
      items.drop w.offset.toNat := by
    split
    · rename_i h
      rw [h]
      rfl
    · rfl
  unfold window Paging.cut
  dsimp only
  rw [hdrop]
  cases hs : w.pageSize with
  | some size => rfl
  | none =>
    have h0 : w.offset.toNat = 0 := by
      rw [Paging.offset, hs]
      rfl
    rw [h0]
    rfl

namespace Collection

variable {E : Type} (c : Collection E) (caller : Caller)

/-! ### What is sought -/

/-- Whether a search with a filter seeks an entry: it meets the filter, and the caller may
see it. -/
def seeks (f : Option Filter) (e : Uuid × Document) : Bool :=
  (Filter.admits f e.2 && Filter.admits (c.policy.visibility c.name caller) e.2) &&
    (c.policy.isComplete c.name caller || c.policy.accepts caller c.name e.1)

/-- **The documents that a search with a filter seeks.** -/
def sought (f : Option Filter) (s : Store) : List Document :=
  Entries.documents ((s.entries c.name).filter (c.seeks caller f))

/-- **The whole result of a search**, in the order of its plan. -/
def result (f : Option Filter) (plan : SortPlan) (s : Store) : List Document :=
  sortBy (plan.orderIn s) (c.sought caller f s)

/-- The filter that the store is given. -/
def storeFilter (f : Option Filter) : Option Filter :=
  Filter.all? (f.toList ++ (c.policy.visibility c.name caller).toList)

/-- The documents that meet a filter and the filter of the policy. -/
def admitted (f : Option Filter) (s : Store) : List Document :=
  (s.entries c.name).documents.filter (Filter.admits (c.storeFilter caller f))

/-- Whether the caller may access the entity of a document. -/
def isGranted (d : Document) : Bool :=
  match (d.value? "id").bind Value.uuid? with
  | some id => c.policy.accepts caller c.name id
  | none => false

/-- Whether a document is left after the search was narrowed, if it has to be. -/
def isLeft (d : Document) : Bool :=
  c.policy.isComplete c.name caller || c.isGranted caller d

/-- **The documents that a search with a filter finds**: those that meet it and the filter of the
policy, and that the policy accepts if it has to be asked. -/
def found (f : Option Filter) (s : Store) : List Document :=
  (c.admitted caller f s).filter (c.isLeft caller)

/-- The ids under which the policy is asked about documents. -/
def askedIds (ds : List Document) : List Uuid :=
  ds.filterMap fun d => (d.value? "id").bind Value.uuid?

/-- **The policy decides about documents** if it has to be asked. -/
def Decided (ds : List Document) : Prop :=
  c.policy.isComplete c.name caller = false →
    ∀ id ∈ askedIds ds, c.policy.Decides caller c.name id

variable {c caller} {w : Surroundings} {s : Store} {F : Prop} {f : Option Filter}
  {plan : SortPlan}

theorem mem_stored_of_mem_sought {d : Document} (h : d ∈ c.sought caller f s) :
    d ∈ (s.entries c.name).documents := by
  obtain ⟨e, he, rfl⟩ := List.mem_map.mp h
  exact List.mem_map_of_mem (List.mem_filter.mp he).1

/-- **In a keyed collection the search finds** what it seeks. -/
theorem found_eq_sought (hk : (s.entries c.name).Keyed) :
    c.found caller f s = c.sought caller f s := by
  rw [found, admitted, sought, Entries.documents, Entries.documents, List.filter_map,
    List.filter_map, List.filter_filter]
  refine congrArg _ (List.filter_congr fun e he => ?_)
  have hid : Document.value? e.2 "id" = some (Value.ofUuid e.1) := hk.id e he
  have hgranted : c.isGranted caller e.2 = c.policy.accepts caller c.name e.1 := by
    rw [isGranted, hid, Option.bind_some, Value.uuid?_ofUuid]
  rw [Function.comp, Function.comp, storeFilter, Filter.admits_all?, seeks, isLeft, hgranted,
    Bool.and_comm]

theorem filter_isLeft_of_complete (h : c.policy.isComplete c.name caller = true)
    (ds : List Document) : ds.filter (c.isLeft caller) = ds :=
  List.filter_eq_self.mpr fun d _ => by rw [isLeft, h, Bool.true_or]

theorem decided_of_answers (h : c.policy.Answers caller) (ds : List Document) :
    c.Decided caller ds :=
  fun _ id _ => h c.name id

/-! ### One result -/

/-- **Every list in order of what is sought** is the result. -/
theorem eq_result (hp : plan.Closed) (hk : s.Keyed)
    (hplain : ∀ d ∈ (s.entries c.name).documents, plan.PlainAt s d) {ds : List Document}
    (hperm : ds.Perm (c.sought caller f s))
    (hds : ds.Pairwise fun a b => (plan.orderIn s a b).isLE = true) :
    ds = c.result caller f plan s := by
  have hmem : ∀ d ∈ ds, d ∈ (s.entries c.name).documents := fun d hd =>
    mem_stored_of_mem_sought (hperm.mem_iff.mp hd)
  refine SortPlan.sorted_unique hp (hk c.name) hmem hds ?_ (hperm.trans (sortBy_perm _ _).symm)
  exact sortBy_pairwise SortPlan.ordersOn_orderIn fun d hd =>
    hplain d (mem_stored_of_mem_sought hd)

/-- **The result is in order, without ties.** -/
theorem result_pairwise (hp : plan.Closed) (hk : s.Keyed)
    (hplain : ∀ d ∈ (s.entries c.name).documents, plan.PlainAt s d) :
    (c.result caller f plan s).Pairwise fun a b => plan.orderIn s a b = .lt := by
  have hstored : ∀ d ∈ c.result caller f plan s, d ∈ (s.entries c.name).documents := fun d hd =>
    mem_stored_of_mem_sought (mem_sortBy.mp hd)
  have hsorted : (c.result caller f plan s).Pairwise fun a b =>
      (plan.orderIn s a b).isLE = true := by
    refine sortBy_pairwise SortPlan.ordersOn_orderIn fun d hd => ?_
    exact hplain d (mem_stored_of_mem_sought hd)
  have hnodup : (c.result caller f plan s).Nodup := by
    refine (sortBy_perm _ _).nodup_iff.mpr ?_
    exact (hk c.name).documents_nodup.sublist (List.filter_sublist.map Prod.snd)
  refine (hsorted.and hnodup).imp_of_mem fun ha hb hab => ?_
  obtain ⟨hle, hne⟩ := hab
  rename_i x y
  cases ho : plan.orderIn s x y with
  | lt => rfl
  | eq => exact absurd (SortPlan.eq_of_orderIn hp (hk c.name) (hstored x ha) (hstored y hb) ho) hne
  | gt =>
    rw [ho] at hle
    cases hle

theorem answer_pairwise (hnative : plan.isNative = true)
    (hplain : ∀ d ∈ (s.entries c.name).documents, plan.PlainAt s d) {ds : List Document}
    (hperm : ds.Perm (s.entries c.name).documents) (g : Document → Bool) :
    (sortBy (orderDocuments plan.nativeKeys) (ds.filter g)).Pairwise fun a b =>
      (plan.orderIn s a b).isLE = true := by
  rw [funext fun a => funext fun b => SortPlan.orderDocuments_nativeKeys hnative s a b]
  refine sortBy_pairwise SortPlan.ordersOn_orderIn fun d hd => ?_
  exact hplain d (hperm.mem_iff.mp (List.mem_filter.mp hd).1)

/-- **A page is cut** out of what is found, put in some order, and comes with the number of all.
In keyed collections the order is that of the plan, if the values that it sorts by are plain. -/
def CutFrom (c : Collection E) (caller : Caller) (f : Option Filter) (plan : SortPlan) (s : Store)
    (window : Paging) (out : Nat × List Document) : Prop :=
  ∃ ds, ds.Perm (c.found caller f s) ∧
    (s.Keyed → (∀ d ∈ (s.entries c.name).documents, plan.PlainAt s d) →
      ds.Pairwise fun a b => (plan.orderIn s a b).isLE = true) ∧
    out = (ds.length, window.cut ds)

/-- **There is one page then**, for there is one order. -/
theorem CutFrom.eq {window : Paging} {out : Nat × List Document}
    (h : c.CutFrom caller f plan s window out) (hp : plan.Closed) (hk : s.Keyed)
    (hplain : ∀ d ∈ (s.entries c.name).documents, plan.PlainAt s d) :
    out = ((c.result caller f plan s).length, window.cut (c.result caller f plan s)) := by
  obtain ⟨ds, hperm, hsorted, rfl⟩ := h
  rw [found_eq_sought (hk c.name)] at hperm
  rw [eq_result hp hk hplain hperm (hsorted hk hplain)]

/-! ### The store's way -/

/-- **The store's own page** is cut out of what is found. -/
theorem tells_searchInStore (hc : w.cancels → F) (hf : w.fails → F) (hnative : plan.isNative = true)
    (hcomplete : c.policy.isComplete c.name caller = true) (window : Paging) :
    Tells w s F (c.CutFrom caller f plan s window)
      (c.searchInStore (c.storeFilter caller f) plan window) := by
  refine ((tells_count hf _ _).guarded hc).bind fun n hn => ?_
  refine ((tells_find hf _ _).guarded hc).bind fun out hout => tells_pure ?_
  obtain ⟨ds, hperm, rfl⟩ := hout
  have hfound : c.found caller f s = c.admitted caller f s :=
    filter_isLeft_of_complete hcomplete _
  have hadmitted : (sortBy (orderDocuments plan.nativeKeys)
      (ds.filter (Filter.admits (c.storeFilter caller f)))).Perm (c.admitted caller f s) :=
    (sortBy_perm _ _).trans (hperm.filter _)
  refine ⟨_, hfound ▸ hadmitted, fun _ hplain => answer_pairwise hnative hplain hperm _, ?_⟩
  have hcount : n = (c.admitted caller f s).length := by
    rw [hn, Store.count, admitted, Entries.documents, List.filter_map, List.length_map]
    rfl
  rw [hcount, ← hadmitted.length_eq, Query.answer, Query.window_paging]

/-! ### Sorting here -/

theorem find?_values (found : Found) (path : String) (id : Uuid) :
    (((found.map fun x => (x.1, (x.2.lookup? path).getD .null)).find? (·.1 == id)).map
      Prod.snd).getD .null = ((found.get? id).bind (·.lookup? path)).getD .null := by
  rw [Found.get?, List.find?_map, Option.map_map]
  change ((found.find? (·.1 == id)).map _).getD _ = _
  cases found.find? (·.1 == id) <;> rfl

/-- **What a term sorts by** is fetched for every document. -/
theorem tells_termValues (hc : w.cancels → F) (hf : w.fails → F) (ds : List Document)
    (t : SortTerm) :
    Tells w s F (fun values => s.Keyed → SortPlan.ValuesFor s ds t values) (termValues ds t) := by
  rw [termValues]
  obtain ⟨⟨path⟩ | ⟨idField, target, targetField⟩, direction⟩ := t
  · exact tells_pure fun _ d _ => rfl
  · have hids : ∀ d ∈ ds, ∀ id, (d.value? idField).bind Value.uuid? = some id →
        id ∈ idsOfField idField ds := fun d hd id hid =>
      mem_collected.mpr (.inr (List.mem_filterMap.mpr ⟨d, hd, hid⟩))
    dsimp only
    split
    · rename_i hempty
      refine tells_pure fun _ d hd => ?_
      rw [sortValue, SortTerm.valueIn]
      dsimp only
      cases hid : (d.value? idField).bind Value.uuid? with
      | none => rfl
      | some id =>
        have hmem := hids d hd id hid
        rw [List.isEmpty_iff.mp hempty] at hmem
        exact absurd hmem List.not_mem_nil
    · refine ((tells_find hf _ _).guarded hc).bind fun found hfound => tells_pure ?_
      obtain ⟨ds', hperm, rfl⟩ := hfound
      intro hk d hd
      rw [sortValue, SortTerm.valueIn]
      dsimp only
      cases hid : (d.value? idField).bind Value.uuid? with
      | none => rfl
      | some id =>
        have hget := get?_fetched (hk target) hperm (hids d hd id hid)
        rw [Option.bind_some, ← hget]
        exact find?_values _ targetField id

theorem tells_sortByReferences (hc : w.cancels → F) (hf : w.fails → F) (plan : SortPlan)
    (ds : List Document) :
    Tells w s F (fun out => out.Perm ds ∧ (s.Keyed → (∀ d ∈ ds, plan.PlainAt s d) →
        out.Pairwise fun a b => (plan.orderIn s a b).isLE = true))
      (sortByReferences plan ds) := by
  refine (Tells.mapM fun t _ => tells_termValues hc hf ds t).bind fun values hvalues => ?_
  exact tells_pure ⟨SortPlan.sortByKeys_perm plan values ds, fun hk hplain =>
    SortPlan.sortByKeys_pairwise (hvalues.imp fun _ _ h => h hk) hplain⟩

/-! ### The way here -/

theorem grantedDocuments_eq (ds : List Document) :
    c.grantedDocuments caller ds =
      StoreM.guarded (StoreM.ofExcept (c.policy.grantedAmong c.name caller (askedIds ds))) >>=
        fun ids => pure (ds.filter fun d => ((d.value? "id").bind Value.uuid?).any (· ∈ ids)) := by
  rw [grantedDocuments, askedIds]
  refine congrArg _ (funext fun ids => congrArg pure (List.filter_congr fun d _ => ?_))
  dsimp only
  cases (d.value? "id").bind Value.uuid? <;> rfl

theorem filter_granted {ids : List Uuid} {ds : List Document}
    (h : c.policy.grantedAmong c.name caller (askedIds ds) = .ok ids) :
    ds.filter (fun d => ((d.value? "id").bind Value.uuid?).any (· ∈ ids)) =
      ds.filter (c.isGranted caller) := by
  refine List.filter_congr fun d hd => ?_
  rw [isGranted]
  cases hid : (d.value? "id").bind Value.uuid? with
  | none => rfl
  | some id =>
    have hmem : id ∈ askedIds ds := List.mem_filterMap.mpr ⟨d, hd, hid⟩
    simp [(AccessPolicy.grantedAmong_eq_ok_iff.mp h).2, hmem]

theorem tells_grantedDocuments (hc : w.cancels → F) {ds : List Document}
    (hF : (¬ ∀ id ∈ askedIds ds, c.policy.Decides caller c.name id) → F) :
    Tells w s F (fun out => (∀ id ∈ askedIds ds, c.policy.Decides caller c.name id) ∧
      out = ds.filter (c.isGranted caller)) (c.grantedDocuments caller ds) := by
  have hrefused : (∃ e, c.policy.grantedAmong c.name caller (askedIds ds) = .error e) → F := by
    rintro ⟨e, he⟩
    refine hF fun hdecides => ?_
    cases he.symm.trans (AccessPolicy.grantedAmong_eq_ok_iff.mpr ⟨hdecides, rfl⟩)
  rw [grantedDocuments_eq]
  refine ((tells_settled hrefused).guarded hc).bind fun ids hids => tells_pure ?_
  exact ⟨(AccessPolicy.grantedAmong_eq_ok_iff.mp hids).1, filter_granted hids⟩

theorem tells_narrowed (hc : w.cancels → F) {ds : List Document} (hF : ¬ c.Decided caller ds → F) :
    Tells w s F (fun out => c.Decided caller ds ∧ out = ds.filter (c.isLeft caller))
      (if (!c.policy.isComplete c.name caller) = true then c.grantedDocuments caller ds
        else pure ds) := by
  cases hcomplete : c.policy.isComplete c.name caller with
  | true =>
    refine tells_pure ⟨fun h => ?_, (filter_isLeft_of_complete hcomplete ds).symm⟩
    rw [hcomplete] at h
    cases h
  | false =>
    refine (tells_grantedDocuments hc fun h => hF fun hd => h (hd hcomplete)).mono ?_
    rintro out ⟨hdecides, rfl⟩
    refine ⟨fun _ => hdecides, List.filter_congr fun d _ => ?_⟩
    rw [isLeft, hcomplete, Bool.false_or]

/-- **The page that is cut here** is cut out of what is found. -/
theorem tells_searchHere (hc : w.cancels → F) (hf : w.fails → F)
    (hF : ¬ c.Decided caller (c.admitted caller f s) → F) (window : Paging) :
    Tells w s F (fun out => c.Decided caller (c.admitted caller f s) ∧
        c.CutFrom caller f plan s window out)
      (c.searchHere caller (c.storeFilter caller f) plan window
        (!c.policy.isComplete c.name caller)) := by
  rw [searchHere_eq]
  refine ((tells_find hf _ _).guarded hc).bind fun out hout => ?_
  obtain ⟨ds, hperm, rfl⟩ := hout
  have hanswer : (Query.answer { filter := c.storeFilter caller f, sort := plan.nativeKeys }
      ds).Perm (c.admitted caller f s) :=
    (sortBy_perm _ _).trans (hperm.filter _)
  have hdecided : c.Decided caller (Query.answer
      { filter := c.storeFilter caller f, sort := plan.nativeKeys } ds) ↔
        c.Decided caller (c.admitted caller f s) := by
    refine forall_congr' fun _ => forall_congr' fun id => ?_
    rw [askedIds, (hanswer.filterMap _).mem_iff]
    rfl
  refine (tells_narrowed hc fun h => hF (hdecided.not.mp h)).bind ?_
  rintro left ⟨hdecides, rfl⟩
  have hleft : ((Query.answer { filter := c.storeFilter caller f, sort := plan.nativeKeys }
      ds).filter (c.isLeft caller)).Perm (c.found caller f s) := hanswer.filter _
  split
  · rename_i hnative
    refine tells_pure ⟨hdecided.mp hdecides, _, hleft, fun _ hplain => ?_, rfl⟩
    exact (answer_pairwise hnative hplain hperm _).filter _
  · refine (tells_sortByReferences hc hf plan _).bind fun out hout => tells_pure ?_
    refine ⟨hdecided.mp hdecides, out, hout.1.trans hleft, fun hk hplain => ?_, rfl⟩
    refine hout.2 hk fun d hd => hplain d ?_
    exact (List.mem_filter.mp (List.mem_filter.mp (hleft.mem_iff.mp hd)).1).1

/-- **Either way** a page is cut out of what is found. -/
theorem tells_paged (hc : w.cancels → F) (hf : w.fails → F)
    (hF : ¬ c.Decided caller (c.admitted caller f s) → F) (window : Paging) :
    Tells w s F (fun out => c.Decided caller (c.admitted caller f s) ∧
        c.CutFrom caller f plan s window out)
      (if plan.isNative && !(!c.policy.isComplete c.name caller) then
        c.searchInStore (c.storeFilter caller f) plan window
        else c.searchHere caller (c.storeFilter caller f) plan window
          (!c.policy.isComplete c.name caller)) := by
  split
  · rename_i h
    rw [Bool.and_eq_true, Bool.not_not] at h
    refine (tells_searchInStore hc hf h.1 h.2 window).mono fun out hout => ⟨?_, hout⟩
    intro hincomplete
    rw [h.2] at hincomplete
    cases hincomplete
  · exact tells_searchHere hc hf hF window

/-! ### Pages of entities -/

/-- **The document that is read** for a document found. -/
def shownFor (c : Collection E) (caller : Caller) (s : Store) (p : Inquiry) (d : Document) :
    Document :=
  if p.includeDependents then c.hydratedIn caller s d else d

/-- The entities that are read from documents, one from each. -/
def Reads (c : Collection E) (caller : Caller) (s : Store) (p : Inquiry) :
    List Document → List E → Prop :=
  List.Forall₂ fun d e => c.kind.ofDocument? (c.shownFor caller s p d) = some e

/-- **What is sought can be shown to the caller**: the policy decides about all that it is asked,
and the documents can be read, with their copies if these are to be filled in. -/
structure Presentable (c : Collection E) (caller : Caller) (s : Store) (p : Inquiry)
    (f : Option Filter) : Prop where
  decided : c.Decided caller (c.admitted caller f s)
  copied : p.includeDependents = true → ∀ d ∈ c.sought caller f s,
    Relation.DecidedAll (c.viewer caller) s false c.schema.relations d
  readable : ∀ d ∈ c.sought caller f s,
    (c.kind.ofDocument? (c.shownFor caller s p d)).isSome = true

theorem presentable_of_answers (ha : c.policy.Answers caller) (hr : c.ReadableIn caller s)
    (p : Inquiry) (f : Option Filter) : c.Presentable caller s p f where
  decided := decided_of_answers ha _
  copied _ d _ := Relation.decidedAll_of_answers (c.viewer caller) ha _ d
  readable d hd := by
    have hstored := mem_stored_of_mem_sought hd
    rw [shownFor]
    split
    · exact (hr d hstored).2
    · exact (hr d hstored).1

theorem exists_reads {p : Inquiry} {ds : List Document}
    (h : ∀ d ∈ ds, (c.kind.ofDocument? (c.shownFor caller s p d)).isSome = true) :
    ∃ es, c.Reads caller s p ds es := by
  induction ds with
  | nil => exact ⟨[], .nil⟩
  | cons d ds ih =>
    obtain ⟨es, hes⟩ := ih fun x hx => h x (List.mem_cons_of_mem d hx)
    obtain ⟨e, he⟩ := Option.isSome_iff_exists.mp (h d List.mem_cons_self)
    exact ⟨e :: es, .cons he hes⟩

theorem tells_shown (hc : w.cancels → F) (hf : w.fails → F) (hk : s.Keyed) {p : Inquiry}
    {ds : List Document} (hdecided : p.includeDependents = true → ∀ d ∈ ds,
      Relation.DecidedAll (c.viewer caller) s false c.schema.relations d) :
    Tells w s F (· = ds.map (c.shownFor caller s p))
      (if p.includeDependents = true then c.schema.hydrateEach (c.viewer caller) ds
        else pure ds) := by
  by_cases h : p.includeDependents = true
  · rw [if_pos h]
    refine (Relation.tells_hydrateEach hc hf hk (absurd (hdecided h))).mono fun out hout => ?_
    rw [hout.2]
    exact List.map_congr_left fun d _ => (if_pos h).symm
  · rw [if_neg h]
    exact tells_pure ((List.map_congr_left fun d _ => if_neg h).trans (List.map_id ds)).symm

theorem tells_read {p : Inquiry} {ds : List Document} {es : List E}
    (h : c.Reads caller s p ds es) :
    Tells w s F (· = es) ((ds.map (c.shownFor caller s p)).mapM c.ofDocument) := by
  induction h with
  | nil => exact tells_pure rfl
  | @cons d e ds es he _ ih =>
    rw [List.map_cons, List.mapM_cons]
    refine (tells_ofExcept (Q := (· = e)) ?_ rfl).bind fun x hx => ih.bind fun xs hxs => ?_
    · rw [he]
    · rw [hx, hxs]
      exact tells_pure rfl

end Collection

/-- The page that answers a search, given how much was found in all and what stands on the page. -/
def Inquiry.pageWith {E : Type} (p : Inquiry) (count : Nat) (results : List E) : SearchPage E :=
  let window := Paging.ofPage p.page p.pageSize
  let itemCount := UInt64.ofNat count
  { more := window.leavesMore itemCount (UInt64.ofNat results.length)
    page := window.page.toInt64
    pageSize := p.pageSize
    itemCount
    results }

namespace Collection

variable {E : Type} {c : Collection E} {caller : Caller} {w : Surroundings} {s : Store} {F : Prop}
  {f : Option Filter} {plan : SortPlan} {p : Inquiry}

/-- What remains to be done when a search has its page of documents. -/
def present (c : Collection E) (caller : Caller) (p : Inquiry) (count : Nat)
    (ds : List Document) : OperationM (SearchPage E) := do
  let place := c.place "search"
  let shown ← OperationM.inPlace place
    (if p.includeDependents then c.schema.hydrateEach (c.viewer caller) ds else pure ds)
  let results ← OperationM.inPlace place (shown.mapM c.ofDocument)
  return p.pageWith count results

/-- A search compiles its filter and its plan, comes to its page, and presents it. -/
theorem search_eq (c : Collection E) (caller : Caller) (p : Inquiry) :
    c.search caller p =
      OperationM.inPlace (c.place "search") (StoreM.ofExcept (c.searchFilter caller p)) >>=
        fun filter => OperationM.inPlace (c.place "search")
            (StoreM.ofExcept (SortPlan.resolve c.schema p.sortBy p.sortAscending)) >>=
          fun plan => OperationM.inPlace (c.place "search")
              (if plan.isNative && !(!c.policy.isComplete c.name caller) then
                c.searchInStore filter plan (Paging.ofPage p.page p.pageSize)
                else c.searchHere caller filter plan (Paging.ofPage p.page p.pageSize)
                  (!c.policy.isComplete c.name caller)) >>=
            fun out => c.present caller p out.1 out.2 := rfl

theorem searchFilter_eq (c : Collection E) (caller : Caller) (p : Inquiry) :
    c.searchFilter caller p = (c.schema.filterOf p).map (c.storeFilter caller) := by
  rw [searchFilter]
  cases c.schema.filterOf p <;> rfl

theorem searchFilter_ok_iff {filter : Option Filter} : c.searchFilter caller p = .ok filter ↔
    ∃ f, c.schema.filterOf p = .ok f ∧ c.storeFilter caller f = filter := by
  rw [searchFilter_eq]
  cases c.schema.filterOf p <;> simp [Except.map]

theorem searchFilter_error_iff {e : StoreError} :
    c.searchFilter caller p = .error e ↔ c.schema.filterOf p = .error e := by
  rw [searchFilter_eq]
  cases c.schema.filterOf p <;> simp [Except.map]

theorem tells_present (hc : w.cancels → F) (hf : w.fails → F) (hk : s.Keyed) {ds : List Document}
    (hdecided : p.includeDependents = true → ∀ d ∈ ds,
      Relation.DecidedAll (c.viewer caller) s false c.schema.relations d) {es : List E}
    (hes : c.Reads caller s p ds es) (count : Nat) :
    Tells w s F (· = p.pageWith count es) (c.present caller p count ds) := by
  refine ((tells_shown hc hf hk hdecided).inPlace _).bind fun shown hshown => ?_
  subst hshown
  refine ((tells_read hes).inPlace _).bind fun results hresults => tells_pure ?_
  rw [hresults]

theorem tells_search (hc : w.cancels → F) (hf : w.fails → F) (hk : s.Keyed)
    (hfilter : c.schema.filterOf p = .ok f)
    (hplan : SortPlan.resolve c.schema p.sortBy p.sortAscending = .ok plan)
    (hshow : c.Presentable caller s p f)
    (hplain : ∀ d ∈ (s.entries c.name).documents, plan.PlainAt s d)
    (hsize : s.size c.name < 2 ^ 64) {es : List E}
    (hes : c.Reads caller s p (c.result caller f plan s) es) :
    Tells w s F (SearchPage.PageOf es p.page p.pageSize) (c.search caller p) := by
  have hp : plan.Closed := SortPlan.closed_of_resolve hplan
  have hlen : (c.result caller f plan s).length < 2 ^ 64 := by
    refine Nat.lt_of_le_of_lt ?_ hsize
    rw [result, (sortBy_perm _ _).length_eq, sought, Entries.documents, List.length_map]
    exact List.length_filter_le _ _
  have hsearch : c.searchFilter caller p = .ok (c.storeFilter caller f) :=
    searchFilter_ok_iff.mpr ⟨f, hfilter, rfl⟩
  rw [search_eq]
  refine ((tells_ofExcept hsearch rfl).inPlace _).bind fun filter hfil => ?_
  subst hfil
  refine ((tells_ofExcept hplan rfl).inPlace _).bind fun _ hpl => ?_
  subst hpl
  refine ((tells_paged hc hf (absurd hshow.decided) _).inPlace _).bind fun out hout => ?_
  rw [hout.2.eq hp hk hplain]
  have hpage : c.Reads caller s p ((Paging.ofPage p.page p.pageSize).cut
      (c.result caller f plan s)) (pageItems p.page p.pageSize es) := by
    rw [Paging.cut_ofPage hlen]
    exact forall₂_pageItems hes _ _
  have hcount : (c.result caller f plan s).length = es.length := hes.length_eq
  refine (tells_present hc hf hk (fun hfollow d hd => ?_) hpage _).mono fun answer hanswer => ?_
  · exact hshow.copied hfollow d (mem_sortBy.mp (Paging.mem_of_mem_cut hd))
  · rw [hanswer, hcount]
    exact pageOf_answer (hcount ▸ hlen) _ _

/-- **A search pages through entities**: whatever page of whatever size is asked for, the search
succeeds, leaves the store as it is, and is answered with this page of them. -/
def PagesThrough (c : Collection E) (caller : Caller) (s : Store) (p : Inquiry) (es : List E) :
    Prop :=
  ∀ page pageSize,
    (∃ r t, (c.search caller { p with page, pageSize }).run.Runs .calm s r t) ∧
    ∀ r t, (c.search caller { p with page, pageSize }).run.Runs .calm s r t →
      t = s ∧ ∃ answer, r = .ok answer ∧ answer.PageOf es page pageSize

/-- **The result of a search is read and paged through.** -/
theorem exists_pagesThrough (hk : s.Keyed) (hfilter : c.schema.filterOf p = .ok f)
    (hplan : SortPlan.resolve c.schema p.sortBy p.sortAscending = .ok plan)
    (hshow : c.Presentable caller s p f)
    (hplain : ∀ d ∈ (s.entries c.name).documents, plan.PlainAt s d)
    (hsize : s.size c.name < 2 ^ 64) :
    ∃ es, c.Reads caller s p (c.result caller f plan s) es ∧ c.PagesThrough caller s p es := by
  obtain ⟨es, hes⟩ := exists_reads fun d (hd : d ∈ c.result caller f plan s) =>
    hshow.readable d (mem_sortBy.mp hd)
  refine ⟨es, hes, fun page pageSize => ⟨Program.exists_runs ⟨.nil, trivial⟩ _ s, ?_⟩⟩
  intro r t hrun
  have htells : Tells .calm s False (SearchPage.PageOf es page pageSize)
      (c.search caller { p with page, pageSize }) :=
    tells_search (p := { p with page, pageSize }) id id hk hfilter hplan
      ⟨hshow.decided, hshow.copied, hshow.readable⟩ hplain hsize hes
  obtain ⟨ht, hr⟩ := htells r t hrun
  cases r with
  | ok answer => exact ⟨ht, answer, rfl, hr⟩
  | error e => exact hr.elim

end Collection

/-- **The pages of a search tile what is sought.** Let the collections be keyed, let what is sought
be presentable to the caller, and let the values that the plan sorts by be plain. Then there is one
list of documents: those sought, in the order of the plan without ties. Every search for a page of
it, whatever the page and its size, succeeds in the same store and is answered with this page of the
entities read from the list. Without a page size the page is all of them. -/
theorem search_exact {E : Type} {c : Collection E} {caller : Caller} {s : Store} {p : Inquiry}
    {f : Option Filter} {plan : SortPlan} (hk : s.Keyed) (hfilter : c.schema.filterOf p = .ok f)
    (hplan : SortPlan.resolve c.schema p.sortBy p.sortAscending = .ok plan)
    (hshow : c.Presentable caller s p f)
    (hplain : ∀ d ∈ (s.entries c.name).documents, plan.PlainAt s d)
    (hsize : s.size c.name < 2 ^ 64) :
    ∃ ds es, ds.Perm (c.sought caller f s) ∧
      (ds.Pairwise fun a b => plan.orderIn s a b = .lt) ∧ c.Reads caller s p ds es ∧
      c.PagesThrough caller s p es := by
  obtain ⟨es, hes, hpages⟩ := Collection.exists_pagesThrough hk hfilter hplan hshow hplain hsize
  have hp : plan.Closed := SortPlan.closed_of_resolve hplan
  exact ⟨_, es, sortBy_perm _ _, Collection.result_pairwise hp hk hplain, hes, hpages⟩

namespace Directory

/-! ### The entities of the directory -/

section

variable {E : Type} {c : Collection E} {caller : Caller} {s : Store}

theorem IsKind.readableIn (hkind : IsKind c.kind) (h : Readable s) : c.ReadableIn caller s := by
  obtain ⟨k, policy, settings⟩ := c
  cases hkind with
  | book => exact Book.readableIn h
  | category => exact Category.readableIn h
  | contact => exact Contact.readableIn h

/-- **In the directory** it is enough that what is stored can be read: then it can be read with its
copies, and whatever is searched for by whomever is paged through. -/
theorem search_readable (hkind : IsKind c.kind) (hk : s.Keyed) (hread : Readable s)
    (ha : c.policy.Answers caller) {p : Inquiry} {f : Option Filter}
    (hfilter : c.schema.filterOf p = .ok f) {plan : SortPlan}
    (hplan : SortPlan.resolve c.schema p.sortBy p.sortAscending = .ok plan)
    (hplain : ∀ d ∈ (s.entries c.name).documents, plan.PlainAt s d)
    (hsize : s.size c.name < 2 ^ 64) :
    ∃ es, c.Reads caller s p (c.result caller f plan s) es ∧ c.PagesThrough caller s p es :=
  Collection.exists_pagesThrough hk hfilter hplan
    (Collection.presentable_of_answers ha (hkind.readableIn hread) p f) hplain hsize

end

/-! ### Contacts by their managers -/

/-- Three contacts, of whom the first two have the third as their manager. -/
def staff : List ContactRecord :=
  [{ ContactRecord.ofName "Ann" "Aebi" with id := .ofByte 1, managerId := some (.ofByte 3) },
   { ContactRecord.ofName "Bea" "Boss" with id := .ofByte 2, managerId := some (.ofByte 3) },
   { ContactRecord.ofName "Cy" "Chef" with id := .ofByte 3 }]

def staffStore : Store := ⟨[("contacts", staff.map fun r => (r.id, r.toDocument .stored))]⟩

/-- Nobody may see the second of them. -/
def discreet : AccessPolicy where
  grants _ id _ := .ok (id != .ofByte 2)
  visibility _ _ := none
  isComplete _ _ := false

def discreetContacts : Collection Contact := ⟨Contact.kind, discreet, {}⟩

def byManager : Inquiry := { sortBy := some "manager_id", includeDependents := true }

def managerPlan : SortPlan :=
  [⟨.reference "manager_id" "contacts" "last_name", .asc⟩, ⟨.field "id", .asc⟩]

def byLastName : Inquiry := { sortBy := some "last_name", includeDependents := true }

def lastNamePlan : SortPlan := [⟨.field "last_name", .asc⟩, ⟨.field "id", .asc⟩]

theorem staffStore_keyed : staffStore.Keyed := by
  intro name
  by_cases h : name = "contacts"
  · subst h
    refine ⟨by decide, fun e he => ?_⟩
    obtain ⟨r, -, rfl⟩ := List.mem_map.mp he
    rfl
  · have hnone : staffStore.entries name = [] := by
      simp [Store.entries, Store.collection?, staffStore, Ne.symm h]
    rw [hnone]
    exact Entries.Keyed.nil

/-- The contacts that may be seen, by their managers, on pages of any size. -/
theorem search_byManager :
    ∃ ds es, ds.Perm (discreetContacts.sought {} none staffStore) ∧
      (ds.Pairwise fun a b => managerPlan.orderIn staffStore a b = .lt) ∧
      discreetContacts.Reads {} staffStore byManager ds es ∧
      discreetContacts.PagesThrough {} staffStore byManager es := by
  have hreadable : discreetContacts.ReadableIn {} staffStore := by
    unfold Collection.ReadableIn
    decide +kernel
  have hplan : SortPlan.resolve discreetContacts.schema byManager.sortBy byManager.sortAscending =
      .ok managerPlan := by decide +kernel
  have hplain : ∀ d ∈ (staffStore.entries discreetContacts.name).documents,
      managerPlan.PlainAt staffStore d := by
    unfold SortPlan.PlainAt
    decide +kernel
  exact search_exact staffStore_keyed rfl hplan
    (Collection.presentable_of_answers (fun _ _ => ⟨_, rfl⟩) hreadable _ _) hplain (by decide)

end Directory

end Registrar
