import Registrar.Proofs.Engine.Reading
import Registrar.Proofs.Store.Keyed
import Registrar.Proofs.Value.Sorting

/-!
# What operations find

The parts of operations that read, in a keyed store: what they are given are stored documents, and
those that they ask for by id are found under this id.

* `mem_of_find`: documents that are found are stored and meet the filter.
* `stored_of_visible`: a document found by its id is the one kept under this id.
* `get?_fetched`: of several documents sought by their ids, those that exist are found.
-/

namespace Registrar

variable {E : Type} {c : Collection E} {caller : Caller} {w : Surroundings} {s t : Store}

/-! ### Queries -/

theorem Query.mem_of_mem_answer {q : Query} {ds : List Document} {d : Document}
    (h : d ∈ q.answer ds) : d ∈ ds ∧ Filter.admits q.filter d = true := by
  have hw : d ∈ sortBy (orderDocuments q.sort) (ds.filter (Filter.admits q.filter)) := by
    unfold answer window at h
    dsimp only at h
    split at h
    · exact List.mem_of_mem_drop (List.mem_of_mem_take h)
    · exact List.mem_of_mem_drop h
  exact List.mem_filter.mp (mem_sortBy.mp hw)

theorem Entries.mem_documents {es : Entries} {d : Document} :
    d ∈ es.documents ↔ ∃ id, (id, d) ∈ es := by
  rw [documents, List.mem_map]
  constructor
  · rintro ⟨⟨id, d'⟩, hm, rfl⟩
    exact ⟨id, hm⟩
  · rintro ⟨id, hm⟩
    exact ⟨(id, d), hm, rfl⟩

/-- **Documents that are found** are stored and meet the filter. -/
theorem mem_of_find {q : Query} {name : String} {ds : List Document}
    (h : w.Reply s (.store (.find q name)) (.ok ds) t) {d : Document} (hd : d ∈ ds) :
    ∃ id, (id, d) ∈ s.entries name ∧ Filter.admits q.filter d = true := by
  rcases h with ⟨⟨ds', hperm, hds⟩, -⟩ | ⟨-, -, ⟨e, he⟩, -⟩
  · cases hds
    obtain ⟨hm, hf⟩ := Query.mem_of_mem_answer hd
    obtain ⟨id, hid⟩ := Entries.mem_documents.mp (hperm.mem_iff.mp hm)
    exact ⟨id, hid, hf⟩
  · cases he

/-! ### Documents by id -/

theorem Collection.holds_of_visible {f : Filter} {d : Document}
    (h : (c.visible caller f).holds d = true) : f.holds d = true := by
  rw [visible] at h
  split at h
  · exact ((Filter.and_pair_holds _ _).mp h).1
  · exact h

/-- **A document found by its id** is the one kept under this id. -/
theorem Collection.stored_of_visible (hk : (s.entries c.name).Keyed) {id k : Uuid} {d : Document}
    (hm : (k, d) ∈ s.entries c.name)
    (h : Filter.admits (some (c.visible caller (.hasId id))) d = true) :
    (id, d) ∈ s.entries c.name := by
  rwa [← (Filter.hasId_holds (hk.id _ hm) id).mp (holds_of_visible h)]

/-! ### Several documents by id -/

theorem Query.mem_filtered_answer {f : Filter} {ds : List Document} {d : Document} :
    d ∈ (Query.filtered (some f)).answer ds ↔ d ∈ ds ∧ f.holds d = true := by
  change d ∈ sortBy _ (ds.filter _) ↔ _
  rw [mem_sortBy, List.mem_filter]
  rfl

variable {es : Entries} {ids : List Uuid} {ds : List Document}

/-- **What is fetched by ids**: the documents kept under these ids. -/
theorem mem_fetched (hk : es.Keyed) (hds : ds.Perm es.documents) {x : Uuid × Document} :
    x ∈ Found.ofDocuments ((Query.filtered (some (.hasIdIn ids))).answer ds) ↔
      x ∈ es ∧ x.1 ∈ ids := by
  rw [Found.ofDocuments, List.mem_filterMap]
  constructor
  · rintro ⟨d, hd, hx⟩
    obtain ⟨hm, hf⟩ := Query.mem_filtered_answer.mp hd
    obtain ⟨k, hkd⟩ := Entries.mem_documents.mp (hds.mem_iff.mp hm)
    have hid : Document.value? d "id" = some (Value.ofUuid k) := hk.id _ hkd
    rw [hid, Option.bind_some, Value.uuid?_ofUuid] at hx
    cases hx
    exact ⟨hkd, (Filter.hasIdIn_holds hid ids).mp hf⟩
  · rintro ⟨hx, hids⟩
    have hid : Document.value? x.2 "id" = some (Value.ofUuid x.1) := hk.id _ hx
    refine ⟨x.2, Query.mem_filtered_answer.mpr ⟨?_, (Filter.hasIdIn_holds hid ids).mpr hids⟩, ?_⟩
    · exact hds.mem_iff.mpr (Entries.mem_documents.mpr ⟨x.1, hx⟩)
    · rw [hid, Option.bind_some, Value.uuid?_ofUuid]
      rfl

/-- **Each document that was sought and exists is found.** -/
theorem get?_fetched (hk : es.Keyed) (hds : ds.Perm es.documents) {id : Uuid} (hid : id ∈ ids) :
    Found.get? (Found.ofDocuments ((Query.filtered (some (.hasIdIn ids))).answer ds)) id =
      es.document? id := by
  ext d
  have hone : ∀ d', (id, d') ∈ Found.ofDocuments
      ((Query.filtered (some (.hasIdIn ids))).answer ds) → (id, d) ∈ Found.ofDocuments
      ((Query.filtered (some (.hasIdIn ids))).answer ds) → d' = d := fun d' h h' =>
    Entries.eq_of_mem hk.nodup ((mem_fetched hk hds).mp h).1 ((mem_fetched hk hds).mp h').1
  rw [hk.document?_eq_some]
  exact (Entries.document?_eq_some hone).trans
    ((mem_fetched hk hds).trans (and_iff_left hid))

end Registrar
