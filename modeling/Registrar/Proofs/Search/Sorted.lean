import Registrar.Proofs.Directory.Kinds
import Registrar.Proofs.Search.Order
import Registrar.Proofs.Value.Preorder
import Registrar.Proofs.Value.Tournament

/-!
# Documents in order

Sort keys compare documents by the values under their paths, one key after the other. The order of
documents is total, and it is transitive on those that are sorted by plain values. Documents are
told apart by their ids, so with a key for the id no two of them are equal in order. Then a query
answers alike in whatever order the documents come, just if the order of the documents is
transitive.

* `PlainUnder`: a document is sorted by plain values.
* `orderDocuments_swap`, `transitiveOn_orderDocuments`, `orderDocuments_congr`: the order of
  documents.
* `answer_alike_iff`: when queries answer alike.
* `preorder_iff_plain`: the order of values and of documents, and where it is transitive.
-/

namespace Registrar

variable {keys : List SortKey} {d e : Document}

/-- The plan that sorts by these keys. -/
def SortPlan.ofKeys (keys : List SortKey) : SortPlan :=
  keys.map fun k => ⟨.field k.path, k.direction⟩

/-- **A document is sorted by plain values** under these keys. -/
def PlainUnder (keys : List SortKey) (d : Document) : Prop :=
  ∀ k ∈ keys, ((d.lookup? k.path).getD .null).isPlain = true

theorem orderDocuments_eq_orderIn (s : Store) (keys : List SortKey) (d e : Document) :
    orderDocuments keys d e = (SortPlan.ofKeys keys).orderIn s d e := by
  induction keys with
  | nil => rfl
  | cons k ks ih => exact congrArg (Ordering.then _) ih

theorem PlainUnder.plainAt (h : PlainUnder keys d) (s : Store) :
    (SortPlan.ofKeys keys).PlainAt s d := by
  intro t ht
  obtain ⟨k, hk, rfl⟩ := List.mem_map.mp ht
  exact h k hk

/-! ### The order of documents -/

/-- **The order of documents is total**, and turns around when they are exchanged. -/
theorem orderDocuments_swap (keys : List SortKey) (d e : Document) :
    orderDocuments keys e d = (orderDocuments keys d e).swap := by
  rw [orderDocuments_eq_orderIn .empty, orderDocuments_eq_orderIn .empty, SortPlan.orderIn_swap]

theorem orderDocuments_self (keys : List SortKey) (d : Document) :
    orderDocuments keys d d = .eq :=
  eq_of_eq_swap (orderDocuments_swap keys d d)

/-- **The order of documents is transitive** where they are sorted by plain values. -/
theorem transitiveOn_orderDocuments {ds : List Document} (h : ∀ d ∈ ds, PlainUnder keys d) :
    TransitiveOn (orderDocuments keys) ds := by
  intro a ha b hb c hc hab hbc
  rw [orderDocuments_eq_orderIn .empty] at hab hbc ⊢
  exact SortPlan.ordersOn_orderIn.trans ((h a ha).plainAt _) ((h b hb).plainAt _)
    ((h c hc).plainAt _) hab hbc

/-- **Documents that are equal in order** compare alike with every document. -/
theorem orderDocuments_congr (hd : PlainUnder keys d) (he : PlainUnder keys e)
    (h : orderDocuments keys d e = .eq) (f : Document) :
    orderDocuments keys d f = orderDocuments keys e f := by
  induction keys with
  | nil => rfl
  | cons k ks ih =>
    rw [PlainUnder, List.forall_mem_cons] at hd he
    obtain ⟨hk, hks⟩ := Ordering.then_eq_eq.mp h
    have hvalues : ((d.lookup? k.path).getD .null).order ((e.lookup? k.path).getD .null) = .eq := by
      rw [SortKey.order] at hk
      cases hdir : k.direction <;> rw [hdir] at hk
      · exact hk
      · exact Ordering.swap_eq_eq.mp hk
    rw [orderDocuments, orderDocuments, ih hd.2 he.2 hks, SortKey.order, SortKey.order,
      Value.order_congr hd.1 he.1 hvalues]

/-! ### Answers -/

/-- **Stored documents are told apart** by a key for the id. -/
theorem tournament_orderDocuments (hid : ∃ k ∈ keys, k.path = "id") {es : Entries} (hk : es.Keyed) :
    Tournament (orderDocuments keys) es.documents where
  swap := orderDocuments_swap keys
  apart a ha b hb h := by
    obtain ⟨k, hmem, hpath⟩ := hid
    have hclosed : (SortPlan.ofKeys keys).Closed :=
      ⟨_, List.mem_map_of_mem hmem, congrArg SortTarget.field hpath⟩
    rw [orderDocuments_eq_orderIn .empty] at h
    exact SortPlan.eq_of_orderIn hclosed hk ha hb h

theorem answer_of_sort (keys : List SortKey) (ds : List Document) :
    Query.answer { sort := keys } ds = sortBy (orderDocuments keys) ds := by
  have hall : ds.filter (Filter.admits none) = ds := List.filter_eq_self.mpr fun _ _ => rfl
  rw [Query.answer, hall]
  rfl

theorem exists_entries_of_perm {es : Entries} (hk : es.Keyed) {ds : List Document}
    (hperm : ds.Perm es.documents) : ∃ es' : Entries, es'.Perm es ∧ es'.documents = ds := by
  let entry : Document → Uuid × Document := fun d =>
    (((d.value? "id").bind Value.uuid?).getD .nil, d)
  have hentries : es.documents.map entry = es := by
    rw [Entries.documents, List.map_map]
    refine (List.map_congr_left fun x hx => ?_).trans (List.map_id es)
    simp [entry, hk.id x hx]
  refine ⟨ds.map entry, hentries ▸ hperm.map entry, ?_⟩
  rw [Entries.documents, List.map_map]
  exact List.map_id ds

/-- **A query answers alike** in whatever order the stored documents come, just if the order of the
documents is transitive. -/
theorem answer_alike_iff (hid : ∃ k ∈ keys, k.path = "id") {es : Entries} (hk : es.Keyed) :
    (∀ es' : Entries, es'.Perm es → ∀ q : Query, q.sort = keys →
      q.answer es'.documents = q.answer es.documents) ↔
      TransitiveOn (orderDocuments keys) es.documents := by
  have htournament := tournament_orderDocuments hid hk
  constructor
  · intro halike
    refine htournament.sortBy_alike_iff.mp fun ds hds => ?_
    obtain ⟨es', hperm, rfl⟩ := exists_entries_of_perm hk hds
    have hanswer := halike es' hperm { sort := keys } rfl
    rwa [answer_of_sort, answer_of_sort] at hanswer
  · intro htrans es' hperm q hq
    subst hq
    have hfilter : ∀ d ∈ es.documents.filter (Filter.admits q.filter), d ∈ es.documents :=
      fun d hd => (List.mem_filter.mp hd).1
    have halike := ((htournament.mono hfilter).sortBy_alike_iff.mpr (htrans.mono hfilter)) _
      ((hperm.map Prod.snd).filter (Filter.admits q.filter))
    rw [Query.answer, Query.answer]
    exact congrArg _ halike

/-- **The order is a total preorder on the plain values, and on no more.** It is reflexive and turns
around on all values; a value is plain just if the order of plain values is transitive through it,
and just if those equal to it compare like it. Under any sort keys, the order of documents is
reflexive and turns around, it is transitive on documents that are sorted by plain values, and those
that are equal compare alike. And with a key for the id, queries over stored documents answer alike
in whatever order these come, just if the order is transitive on them. -/
theorem preorder_iff_plain (b : Value) (keys : List SortKey) {es : Entries} (hk : es.Keyed) :
    b.order b = .eq ∧
    (∀ a : Value, b.order a = (a.order b).swap) ∧
    (b.isPlain = true ↔ ∀ a c : Value, a.isPlain = true → c.isPlain = true →
      (a.order b).isLE = true → (b.order c).isLE = true → (a.order c).isLE = true) ∧
    (b.isPlain = true ↔ ∀ a : Value, a.isPlain = true → a.order b = .eq →
      ∀ c, a.order c = b.order c) ∧
    (∀ d, orderDocuments keys d d = .eq) ∧
    (∀ d e, orderDocuments keys e d = (orderDocuments keys d e).swap) ∧
    (∀ ds : List Document, (∀ d ∈ ds, PlainUnder keys d) →
      TransitiveOn (orderDocuments keys) ds) ∧
    (∀ d e, PlainUnder keys d → PlainUnder keys e → orderDocuments keys d e = .eq →
      ∀ f, orderDocuments keys d f = orderDocuments keys e f) ∧
    ((∃ k ∈ keys, k.path = "id") →
      ((∀ es' : Entries, es'.Perm es → ∀ q : Query, q.sort = keys →
        q.answer es'.documents = q.answer es.documents) ↔
        TransitiveOn (orderDocuments keys) es.documents)) := by
  refine ⟨b.order_self, fun a => a.order_swap b, Value.isPlain_iff_between,
    Value.isPlain_iff_alike, orderDocuments_self keys, orderDocuments_swap keys, ?_⟩
  refine ⟨fun _ => transitiveOn_orderDocuments, fun _ _ => orderDocuments_congr, ?_⟩
  intro hid
  exact answer_alike_iff hid hk

/-! ### A NaN between two numbers -/

namespace Directory

/-- Three documents with the numbers two, NaN and one, in the order of their ids. -/
def misnumbered : Entries :=
  [(.ofByte 1, [("id", .ofUuid (.ofByte 1)), ("n", .int32 2)]),
   (.ofByte 2, [("id", .ofUuid (.ofByte 2)), ("n", .double .nan)]),
   (.ofByte 3, [("id", .ofUuid (.ofByte 3)), ("n", .int32 1)])]

/-- **The answer depends on the order in which the documents come**: two is at most NaN, and this at
most one. -/
theorem misnumbered_unsorted : misnumbered.Keyed ∧
    ¬ ∀ es' : Entries, es'.Perm misnumbered → ∀ q : Query,
      q.sort = [⟨"n", .asc⟩, ⟨"id", .asc⟩] →
      q.answer es'.documents = q.answer misnumbered.documents := by
  have hkeyed : misnumbered.Keyed := by
    refine ⟨by decide, ?_⟩
    simp [misnumbered, Document.value?]
  refine ⟨hkeyed, fun halike => ?_⟩
  obtain ⟨-, -, -, -, -, -, -, -, hanswers⟩ :=
    preorder_iff_plain (.double .nan) [⟨"n", .asc⟩, ⟨"id", .asc⟩] hkeyed
  have htrans := (hanswers ⟨⟨"id", .asc⟩, by simp, rfl⟩).mp halike
  have hle := htrans _ (List.mem_cons_self) _ (List.mem_cons_of_mem _ List.mem_cons_self) _
    (List.mem_cons_of_mem _ (List.mem_cons_of_mem _ List.mem_cons_self))
    (by decide +kernel) (by decide +kernel)
  exact absurd hle (by decide +kernel)

end Directory

end Registrar
