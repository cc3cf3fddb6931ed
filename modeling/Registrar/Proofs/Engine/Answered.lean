import Registrar.Proofs.Engine.Columns
import Registrar.Proofs.Engine.Searching
import Registrar.Proofs.Search.Meaning

/-!
# What a search is answered with

A search that is answered has found the documents that meet its filter and that the caller may
access. They come in some order, a page is cut out of them, and one entity is read from each
document of the page, which may have been given copies before. This holds in every store, whatever
the policy says and whatever disturbs the search.

An undisturbed search for everything, once it is compiled, fails for two reasons only: the policy
does not decide about a document that it is asked about, or a document that is found cannot be read.

* `Collection.ReadFrom`: what is read from a document.
* `Collection.Answerable`: the policy decides about what is found, and it can be read.
* `Collection.AnsweredFrom`: **what a search is answered with**.
* `answered_from`, `answered_iff`: every answered search, and which searches are answered.
-/

namespace Registrar

variable {α : Type} {w : Surroundings} {s t : Store} {F : Prop}

section

variable {α β : Type} {R : α → β → Prop} {as : List α} {bs : List β}

theorem exists_left_of_forall₂ (h : List.Forall₂ R as bs) {b : β} (hb : b ∈ bs) :
    ∃ a ∈ as, R a b := by
  induction h with
  | nil => cases hb
  | @cons a _ as _ hab _ ih =>
    rcases List.mem_cons.mp hb with rfl | hb
    · exact ⟨a, List.mem_cons_self, hab⟩
    · obtain ⟨a', ha', hab'⟩ := ih hb
      exact ⟨a', List.mem_cons_of_mem a ha', hab'⟩

theorem exists_right_of_forall₂ (h : List.Forall₂ R as bs) {a : α} (ha : a ∈ as) :
    ∃ b ∈ bs, R a b :=
  exists_left_of_forall₂ h.flip ha

end

/-! ### What a compiled search admits -/

namespace Schema

open Dialect (exists_of_bind_ok)

variable {sc : Schema} {p q : Inquiry} {f : Option Filter} {d : Document}

/-- **The filter of a search** admits the documents that are what the search asks for. -/
theorem admits_filterOf_iff (h : sc.filterOf p = .ok f) :
    Filter.admits f d = true ↔ sc.Meets p d := by
  obtain ⟨conditions, hconditions, h⟩ := exists_of_bind_ok h
  obtain ⟨references, hreferences, h⟩ := exists_of_bind_ok h
  cases h
  rw [Filter.admits_all?_iff, List.forall_mem_append, List.forall_mem_append, forall_texts_iff,
    Filter.forall_mem_toList_iff, Filter.forall_mem_toList_iff,
    admits_filterOfConditions_iff hconditions, admits_filterOfReferences_iff hreferences, and_assoc]
  exact ⟨fun ⟨hc, ht, hr⟩ => ⟨hc, ht, hr⟩, fun h => ⟨h.conditions, h.texts, h.references⟩⟩

/-- Whether a search is refused, and in what words, does not depend on its free texts. -/
theorem filterOf_error_iff_of_texts (hconditions : p.conditions = q.conditions)
    (hcombinator : p.combinator = q.combinator) (hreferences : p.references = q.references)
    (e : StoreError) : sc.filterOf p = .error e ↔ sc.filterOf q = .error e := by
  rw [filterOf, filterOf, hconditions, hcombinator, hreferences]
  cases sc.filterOfConditions q.conditions q.combinator with
  | error e => rfl
  | ok conditions =>
    cases sc.filterOfReferences q.references with
    | error e => rfl
    | ok references =>
      refine iff_of_false (fun h => ?_) fun h => ?_
      · cases h
      · cases h

end Schema

/-! ### Copies leave the rest alone -/

namespace Relation

/-- Hydrating is done to each document by itself, and changes its navigation field only. -/
theorem tells_hydrate_frame (hc : w.cancels → F) (hf : w.fails → F) (hF : F) (r : Relation)
    (viewer : Viewer) (ds : List Document) :
    Tells w s F (fun out => ∃ g : Document → Document, out = ds.map g ∧
      ∀ d name, name ≠ r.navigation → (g d).value? name = d.value? name)
      (r.hydrate viewer ds) := by
  have hfetch : Tells w s F (fun _ => True) (r.fetch (r.targetIdsInAll ds)) := by
    rw [fetch]
    split
    · exact tells_pure trivial
    · exact ((tells_find hf _ _).guarded hc).bind fun _ _ => tells_pure trivial
  refine hfetch.bind fun found _ => (tells_decided hF _).bind fun hidden _ => tells_pure ?_
  exact ⟨_, rfl, fun d name hn => Document.value?_put_of_ne d _ hn⟩

/-- **Documents that are hydrated** are the same but for the navigation fields. -/
theorem tells_hydrateEach_frame (hc : w.cancels → F) (hf : w.fails → F) (hF : F)
    (rs : List Relation) (viewer : Viewer) (ds : List Document) :
    Tells w s F (fun out => ∃ g : Document → Document, out = ds.map g ∧
      ∀ d name, (∀ r ∈ rs, name ≠ r.navigation) → (g d).value? name = d.value? name)
      (hydrateEach viewer rs ds) := by
  induction rs generalizing ds with
  | nil => exact tells_pure ⟨id, (List.map_id ds).symm, fun d name _ => rfl⟩
  | cons r rs ih =>
    refine (tells_hydrate_frame hc hf hF r viewer ds).bind fun ds' hds => ?_
    obtain ⟨g, rfl, hg⟩ := hds
    refine (ih _).mono fun out hout => ?_
    obtain ⟨g', rfl, hg'⟩ := hout
    refine ⟨g' ∘ g, List.map_map, fun d name hn => ?_⟩
    rw [Function.comp, hg' _ _ fun x hx => hn x (List.mem_cons_of_mem r hx),
      hg _ _ (hn r List.mem_cons_self)]

end Relation

/-- An inquiry for everything on one page. -/
def Inquiry.IsUnpaged (p : Inquiry) : Prop := ¬ 0 < p.pageSize

theorem Inquiry.IsUnpaged.cut {p : Inquiry} (h : p.IsUnpaged) (items : List α) :
    (Paging.ofPage p.page p.pageSize).cut items = items := by
  have hsize : (Paging.ofPage p.page p.pageSize).pageSize = none := if_neg h
  rw [Paging.cut, hsize]

namespace Collection

variable {E : Type} (c : Collection E) (caller : Caller)

/-! ### What is found, and what is read -/

/-- **A search finds a document**, said without its filter: it is stored, it is what the search asks
for, and the caller may see it. -/
structure Finds (s : Store) (p : Inquiry) (d : Document) : Prop where
  stored : d ∈ (s.entries c.name).documents
  meets : c.schema.Meets p d
  visible : Filter.admits (c.policy.visibility c.name caller) d = true
  left : c.isLeft caller d = true

/-- **A search can be answered**: the policy decides about what it is asked, and what is found can
be read. -/
structure Answerable (f : Option Filter) (s : Store) : Prop where
  decided : c.Decided caller (c.admitted caller f s)
  readable : ∀ d ∈ c.found caller f s, (c.kind.ofDocument? d).isSome = true

/-- **A document as a search presents it**: as it is stored, or with copies in its navigation fields
if relations are followed. -/
structure PresentedAs (follows : Bool) (d x : Document) : Prop where
  plain : follows = false → x = d
  frame : ∀ name, (∀ r ∈ c.schema.relations, name ≠ r.navigation) →
    x.value? name = d.value? name

/-- **An entity is read from a document** as a search presents it. -/
def ReadFrom (follows : Bool) (d : Document) (e : E) : Prop :=
  ∃ x, c.PresentedAs follows d x ∧ c.kind.ofDocument? x = some e

/-- **What a search is answered with**: the entities that are read from one page of the documents
found, in some order. -/
def AnsweredFrom (f : Option Filter) (s : Store) (p : Inquiry) (page : SearchPage E) : Prop :=
  ∃ ds, ds.Perm (c.found caller f s) ∧
    List.Forall₂ (c.ReadFrom p.includeDependents)
      ((Paging.ofPage p.page p.pageSize).cut ds) page.results

variable {c caller} {f : Option Filter} {p : Inquiry} {d : Document} {e : E}
  {page : SearchPage E}

theorem mem_found : d ∈ c.found caller f s ↔ d ∈ (s.entries c.name).documents ∧
    Filter.admits f d = true ∧ Filter.admits (c.policy.visibility c.name caller) d = true ∧
      c.isLeft caller d = true := by
  rw [found, admitted, List.mem_filter, List.mem_filter, storeFilter, Filter.admits_all?,
    Bool.and_eq_true, and_assoc, and_assoc]

theorem mem_found_iff (hf : c.schema.filterOf p = .ok f) :
    d ∈ c.found caller f s ↔ c.Finds caller s p d := by
  rw [mem_found, Schema.admits_filterOf_iff hf]
  exact ⟨fun ⟨hd, hp, hv, hl⟩ => ⟨hd, hp, hv, hl⟩, fun h => ⟨h.stored, h.meets, h.visible, h.left⟩⟩

/-- **The columns of an entity that was read** are those of the document. -/
theorem ReadFrom.read {columns : List (Column E)} {column : Column E} {follows : Bool}
    (ht : c.kind.Tabled columns) (hs : c.schema.Lawful) (hl : c.schema.Linked)
    (hcolumn : column ∈ columns) (h : c.ReadFrom follows d e) :
    column.read (d.value? column.field.name) = some (column.part e) := by
  obtain ⟨x, hx, hread⟩ := h
  obtain ⟨hfield, hrole⟩ := ht.mem_fields hcolumn
  rw [← hx.frame column.field.name fun r hr => ?_]
  · exact ht.reads x e hread column hcolumn
  · obtain ⟨f, hf, hnavigation, hname⟩ := hl.navigation r hr
    rw [← hname]
    exact hs.name_ne hfield hf fun heq => hrole (heq.trans hnavigation)

theorem AnsweredFrom.exists_document (h : c.AnsweredFrom caller f s p page)
    (he : e ∈ page.results) : ∃ d ∈ c.found caller f s, c.ReadFrom p.includeDependents d e := by
  obtain ⟨ds, hperm, hread⟩ := h
  obtain ⟨d, hd, hde⟩ := exists_left_of_forall₂ hread he
  exact ⟨d, hperm.mem_iff.mp (Paging.mem_of_mem_cut hd), hde⟩

/-- Everything that was found is in the answer, unless this is a page of it only. -/
theorem AnsweredFrom.exists_entity (h : c.AnsweredFrom caller f s p page) (hp : p.IsUnpaged)
    (hd : d ∈ c.found caller f s) : ∃ e ∈ page.results, c.ReadFrom p.includeDependents d e := by
  obtain ⟨ds, hperm, hread⟩ := h
  rw [hp.cut] at hread
  exact exists_right_of_forall₂ hread (hperm.mem_iff.mpr hd)

/-! ### The answer -/

theorem tells_presented (hc : w.cancels → F) (hf : w.fails → F) {follows : Bool}
    (hF : follows = true → F) (ds : List Document) :
    Tells w s F (fun xs => ∃ g : Document → Document, xs = ds.map g ∧
        ∀ d, c.PresentedAs follows d (g d))
      (if follows then c.schema.hydrateEach (c.viewer caller) ds else pure ds) := by
  cases follows with
  | true =>
    refine (Relation.tells_hydrateEach_frame hc hf (hF rfl) _ _ _).mono ?_
    rintro xs ⟨g, rfl, hg⟩
    exact ⟨g, rfl, fun d => ⟨fun hfalse => Bool.noConfusion hfalse, hg d⟩⟩
  | false =>
    exact tells_pure ⟨id, (List.map_id _).symm, fun d => ⟨fun _ => rfl, fun _ _ => rfl⟩⟩

theorem tells_readEach {xs : List Document}
    (hF : (¬ ∀ x ∈ xs, (c.kind.ofDocument? x).isSome = true) → F) :
    Tells w s F (List.Forall₂ (fun x e => c.kind.ofDocument? x = some e) xs)
      (xs.mapM c.ofDocument) := by
  refine Tells.mapM fun x hx => ?_
  cases hread : c.kind.ofDocument? x with
  | some e => exact tells_ofExcept (a := e) (by rw [hread]) rfl
  | none =>
    have hunread : ¬ ∀ x ∈ xs, (c.kind.ofDocument? x).isSome = true := fun hall => by
      have := hall x hx
      rw [hread] at this
      cases this
    refine (tells_decided (hF hunread) _).mono fun e he => ?_
    rw [hread] at he
    cases he

/-- **What a search is answered with**, and why it may fail. -/
theorem tells_search_found (hc : w.cancels → F) (hf : w.fails → F)
    (hcompiled : (∃ e, c.schema.filterOf p = .error e) → F)
    (hplan : (∃ e, SortPlan.resolve c.schema p.sortBy p.sortAscending = .error e) → F)
    (hfollow : p.includeDependents = true → F)
    (hanswer : ∀ f, c.schema.filterOf p = .ok f → ¬ c.Answerable caller f s → F) :
    Tells w s F (fun page => ∃ f, c.schema.filterOf p = .ok f ∧
        c.Decided caller (c.admitted caller f s) ∧ c.AnsweredFrom caller f s p page)
      (c.search caller p) := by
  have hrefused : (∃ e, c.searchFilter caller p = .error e) → F := by
    rintro ⟨e, he⟩
    exact hcompiled ⟨e, searchFilter_error_iff.mp he⟩
  refine ((tells_settled hrefused).inPlace _).bind fun filter hsearch => ?_
  obtain ⟨f, hfilter, rfl⟩ := searchFilter_ok_iff.mp hsearch
  refine ((tells_settled hplan).inPlace _).bind fun plan _ => ?_
  have hundecided : ¬ c.Decided caller (c.admitted caller f s) → F :=
    fun h => hanswer f hfilter fun ha => h ha.decided
  refine ((tells_paged hc hf hundecided _).inPlace _).bind fun out hout => ?_
  obtain ⟨hdecided, ds, hperm, -, rfl⟩ := hout
  refine ((tells_presented hc hf hfollow _).inPlace _).bind fun xs hxs => ?_
  obtain ⟨g, rfl, hg⟩ := hxs
  have hunread : (¬ ∀ x ∈ ((Paging.ofPage p.page p.pageSize).cut ds).map g,
      (c.kind.ofDocument? x).isSome = true) → F := by
    intro hunread
    cases hfollows : p.includeDependents with
    | true => exact hfollow hfollows
    | false =>
      refine hanswer f hfilter fun ha => hunread fun x hx => ?_
      obtain ⟨d, hd, rfl⟩ := List.mem_map.mp hx
      rw [(hg d).plain hfollows]
      exact ha.readable d (hperm.mem_iff.mp (Paging.mem_of_mem_cut hd))
  refine ((tells_readEach hunread).inPlace _).bind fun es hes => ?_
  rw [List.forall₂_map_left_iff] at hes
  exact tells_pure ⟨f, hfilter, hdecided, ds, hperm, hes.imp fun d e hde => ⟨g d, hg d, hde⟩⟩

/-- **Every search that is answered** is answered from what it finds. -/
theorem answered_from (h : (c.search caller p).run.Runs w s (.ok page) t) :
    ∃ f, c.schema.filterOf p = .ok f ∧ c.AnsweredFrom caller f s p page := by
  have htells : Tells w s True _ (c.search caller p) :=
    tells_search_found (fun _ => trivial) (fun _ => trivial) (fun _ => trivial) (fun _ => trivial)
      (fun _ => trivial) fun _ _ _ => trivial
  obtain ⟨-, f, hf, -, hanswered⟩ := htells _ _ h
  exact ⟨f, hf, hanswered⟩

/-- **An undisturbed search for everything is answered** exactly when it can be. -/
theorem answered_iff (hf : c.schema.filterOf p = .ok f) {plan : SortPlan}
    (hplan : SortPlan.resolve c.schema p.sortBy p.sortAscending = .ok plan)
    (hfollow : p.includeDependents = false) (hp : p.IsUnpaged)
    {r : Except Failure (SearchPage E)} (h : (c.search caller p).run.Runs .calm s r t) :
    (∃ page, r = .ok page) ↔ c.Answerable caller f s := by
  have hcompiled : ¬ ∃ e, c.schema.filterOf p = .error e := by
    rintro ⟨e, he⟩
    rw [hf] at he
    cases he
  have hresolved : ¬ ∃ e, SortPlan.resolve c.schema p.sortBy p.sortAscending = .error e := by
    rintro ⟨e, he⟩
    rw [hplan] at he
    cases he
  have hanswer : ∀ g, c.schema.filterOf p = .ok g → ¬ c.Answerable caller g s →
      ¬ c.Answerable caller f s := by
    intro g hg
    obtain rfl := Except.ok.inj (hf.symm.trans hg)
    exact id
  have htells : Tells .calm s (¬ c.Answerable caller f s) _ (c.search caller p) :=
    tells_search_found nofun nofun (absurd · hcompiled) (absurd · hresolved)
      (fun hfollows => absurd (hfollow.symm.trans hfollows) Bool.false_ne_true) hanswer
  obtain ⟨-, hr⟩ := htells r t h
  cases r with
  | error e => exact iff_of_false (fun ⟨_, hpage⟩ => nomatch hpage) hr
  | ok page =>
    obtain ⟨g, hg, hdecided, hanswered⟩ := hr
    obtain rfl := Except.ok.inj (hf.symm.trans hg)
    refine iff_of_true ⟨page, rfl⟩ ⟨hdecided, fun d hd => ?_⟩
    obtain ⟨e, -, x, hx, hread⟩ := hanswered.exists_entity hp hd
    rw [← hx.plain hfollow, hread]
    rfl

end Collection

end Registrar
