import Registrar.Proofs.Engine.Hydrating
import Registrar.Proofs.Program.Mirroring

/-!
# Stores that are alike for a caller

Two stores are alike for a caller when they differ only in entities that the access policy refuses
him. When copies are filled in, such entities are fetched with the others, but the policy is asked
about each of them before it is copied, and so the same copies come from both stores.

* `AccessPolicy.rejects`: what is refused; a decision that fails is no refusal.
* `AccessPolicy.Alike`: stores that differ in refused entities only.
* `Relation.mirrors_hydrateEach`: **the copies are the same** from both stores.
-/

namespace Registrar

/-! ### What is refused -/

namespace AccessPolicy

variable (a : AccessPolicy) (caller : Caller)

/-- **Whether the caller is refused an entity.** A decision that fails is no refusal. -/
def rejects (name : String) (id : Uuid) : Bool :=
  match a.grants name id caller with
  | .ok accessible => !accessible
  | .error _ => false

/-- Whether the caller is not refused the entity of a document. -/
def spares (name : String) (d : Document) : Bool :=
  match (d.value? "id").bind Value.uuid? with
  | some id => !a.rejects caller name id
  | none => true

/-- **Stores that are alike for the caller** have the same entities in every collection, those
apart that he is refused. -/
def Alike (s t : Store) : Prop :=
  ∀ name, ∀ e : Uuid × Document, a.rejects caller name e.1 = false →
    (e ∈ s.entries name ↔ e ∈ t.entries name)

variable {a caller} {name : String} {id : Uuid} {s t : Store}

theorem Alike.symm (h : a.Alike caller s t) : a.Alike caller t s :=
  fun name e he => (h name e he).symm

theorem rejects_of_accepts (h : a.accepts caller name id = true) :
    a.rejects caller name id = false := by
  rw [accepts] at h
  rw [rejects]
  cases hg : a.grants name id caller with
  | ok b =>
    rw [hg] at h
    obtain rfl : b = true := h
    rfl
  | error e => rfl

/-- **Refused ids make no difference** when several are asked for. -/
theorem grantedAmong_filter (ids : List Uuid) :
    a.grantedAmong name caller (ids.filter (!a.rejects caller name ·)) =
      a.grantedAmong name caller ids := by
  induction ids with
  | nil => rfl
  | cons id r ih =>
    cases hg : a.grants name id caller with
    | error e =>
      have hrejects : a.rejects caller name id = false := by rw [rejects, hg]
      rw [List.filter_cons_of_pos (by simp [hrejects]), grantedAmong, grantedAmong, hg]
      rfl
    | ok accessible =>
      have hrejects : a.rejects caller name id = !accessible := by rw [rejects, hg]
      cases accessible with
      | true =>
        rw [List.filter_cons_of_pos (by simp [hrejects]), grantedAmong, grantedAmong, hg, ih]
      | false =>
        rw [List.filter_cons_of_neg (by simp [hrejects]), grantedAmong, hg, ih]
        cases a.grantedAmong name caller r <;> rfl

end AccessPolicy

/-! ### Stores that are alike -/

section

variable {a : AccessPolicy} {caller : Caller} {name : String} {s t : Store}

theorem Entries.Keyed.spares_eq {es : Entries} (hk : es.Keyed) {e : Uuid × Document} (he : e ∈ es) :
    a.spares caller name e.2 = !a.rejects caller name e.1 := by
  have hid : Document.value? e.2 "id" = some (Value.ofUuid e.1) := hk.id e he
  rw [AccessPolicy.spares, hid, Option.bind_some, Value.uuid?_ofUuid]

namespace AccessPolicy.Alike

/-- **A document that is not refused** is in both stores or in none. -/
theorem mem_documents (h : a.Alike caller s t) (hs : s.Keyed) {d : Document}
    (hd : d ∈ (s.entries name).documents) (hspared : a.spares caller name d = true) :
    d ∈ (t.entries name).documents := by
  obtain ⟨id, hid⟩ := Entries.mem_documents.mp hd
  rw [(hs name).spares_eq hid, Bool.not_eq_true'] at hspared
  exact Entries.mem_documents.mpr ⟨id, (h name _ hspared).mp hid⟩

theorem perm_spared (h : a.Alike caller s t) (hs : s.Keyed) (ht : t.Keyed) :
    ((s.entries name).documents.filter (a.spares caller name)).Perm
      ((t.entries name).documents.filter (a.spares caller name)) := by
  refine (List.perm_ext_iff_of_nodup ((hs name).documents_nodup.filter _)
    ((ht name).documents_nodup.filter _)).mpr fun d => ?_
  rw [List.mem_filter, List.mem_filter]
  constructor
  · rintro ⟨hd, hspared⟩
    exact ⟨h.mem_documents hs hd hspared, hspared⟩
  · rintro ⟨hd, hspared⟩
    exact ⟨h.symm.mem_documents ht hd hspared, hspared⟩

/-- **Every order of the one collection** has its like in the other one, refused documents
apart. -/
theorem exists_order (h : a.Alike caller s t) (hs : s.Keyed) (ht : t.Keyed) {ds : List Document}
    (hds : ds.Perm (s.entries name).documents) :
    ∃ ds' : List Document, ds'.Perm (t.entries name).documents ∧
      ds'.filter (a.spares caller name) = ds.filter (a.spares caller name) := by
  refine ⟨ds.filter (a.spares caller name) ++
    (t.entries name).documents.filter (!a.spares caller name ·), ?_, ?_⟩
  · refine List.Perm.trans ?_ (List.filter_append_perm (a.spares caller name) _)
    exact ((hds.filter _).trans (h.perm_spared hs ht)).append_right _
  · simp [List.filter_append, List.filter_filter]

/-- **What is kept under an accepted id** is the same in both stores. -/
theorem document?_eq (h : a.Alike caller s t) (hs : s.Keyed) (ht : t.Keyed) {id : Uuid}
    (hid : a.rejects caller name id = false) :
    (s.entries name).document? id = (t.entries name).document? id := by
  ext d
  rw [(hs name).document?_eq_some, (ht name).document?_eq_some]
  exact h name (id, d) hid

end AccessPolicy.Alike

end

/-! ### Filling in copies -/

theorem sortBy_of_eq {α : Type} {cmp : α → α → Ordering} (h : ∀ x y, cmp x y = .eq)
    (xs : List α) : sortBy cmp xs = xs := by
  have hinsert : ∀ (x : α) (ys : List α), insertDown cmp x ys = x :: ys := by
    intro x ys
    cases ys with
    | nil => rfl
    | cons y r => rw [insertDown, h x y, if_neg (by decide)]
  have hfold : ∀ ys : List α,
      xs.foldl (fun sorted x => insertDown cmp x sorted) ys = xs.reverse ++ ys := by
    induction xs with
    | nil => exact fun ys => rfl
    | cons x xs ih =>
      intro ys
      rw [List.foldl_cons, hinsert, ih, List.reverse_cons, List.append_assoc]
      rfl
  rw [sortBy, hfold, List.append_nil, List.reverse_reverse]

theorem Query.filtered_answer (f : Option Filter) (ds : List Document) :
    (Query.filtered f).answer ds = ds.filter (Filter.admits f) :=
  sortBy_of_eq (fun _ _ => rfl) _

namespace Relation

variable {a : AccessPolicy} {caller : Caller} {s t : Store}

theorem ids_ofDocuments_filter (name : String) (ds : List Document) :
    (Found.ofDocuments ds).ids.filter (!a.rejects caller name ·) =
      (Found.ofDocuments (ds.filter (a.spares caller name))).ids := by
  induction ds with
  | nil => rfl
  | cons d ds ih =>
    cases hid : (d.value? "id").bind Value.uuid? with
    | none =>
      have hspared : a.spares caller name d = true := by rw [AccessPolicy.spares, hid]
      have hnone : ∀ r, Found.ofDocuments (d :: r) = Found.ofDocuments r := fun r =>
        List.filterMap_cons_none (by rw [hid, Option.map_none])
      rw [List.filter_cons_of_pos hspared, hnone, hnone, ih]
    | some id =>
      have hspares : a.spares caller name d = !a.rejects caller name id := by
        rw [AccessPolicy.spares, hid]
      have hsome : ∀ r, (Found.ofDocuments (d :: r)).ids = id :: (Found.ofDocuments r).ids := by
        intro r
        rw [Found.ofDocuments, List.filterMap_cons_some (b := (id, d)) (by rw [hid]; rfl)]
        rfl
      rw [hsome, List.filter_cons, List.filter_cons, hspares, ih]
      split
      · rw [hsome]
      · rfl

/-- **What was fetched from stores that are alike**: each tells of its own store, and the ids that
are not refused are the same. -/
def FetchedAlike (a : AccessPolicy) (caller : Caller) (s t : Store) (r : Relation)
    (ids : List Uuid) (found found' : Found) : Prop :=
  r.Fetched s ids found ∧ r.Fetched t ids found' ∧
    found.ids.filter (!a.rejects caller r.target ·) =
      found'.ids.filter (!a.rejects caller r.target ·)

theorem mirrors_fetch (h : a.Alike caller s t) (hs : s.Keyed) (ht : t.Keyed) (r : Relation)
    (ids : List Uuid) :
    Mirrors s t (FetchedAlike a caller s t r ids) (r.fetch ids) (r.fetch ids) := by
  rw [fetch]
  cases ids with
  | nil =>
    exact mirrors_pure ⟨fun id hid => absurd hid List.not_mem_nil,
      fun id hid => absurd hid List.not_mem_nil, rfl⟩
  | cons id ids =>
    refine (mirrors_find (R := fun ds ds' =>
      FetchedAlike a caller s t r (id :: ids) (.ofDocuments ds) (.ofDocuments ds'))
        fun ds hds => ?_).guarded.bind fun ds ds' hds => mirrors_pure hds
    obtain ⟨ds', hds', hsame⟩ := h.exists_order hs ht hds
    refine ⟨ds', hds', fun id hid => get?_fetched (hs r.target) hds hid,
      fun id hid => get?_fetched (ht r.target) hds' hid, ?_⟩
    rw [ids_ofDocuments_filter, ids_ofDocuments_filter, Query.filtered_answer,
      Query.filtered_answer, List.filter_comm _ _ ds, List.filter_comm _ _ ds', hsame]

/-- **A document gets the same copies** from both stores. -/
theorem hydratedIn_alike (h : a.Alike caller s t) (hs : s.Keyed) (ht : t.Keyed) (r : Relation)
    (d : Document) : hydratedIn a caller s d r = hydratedIn a caller t d r := by
  have hshown : r.shownIn a caller s d = r.shownIn a caller t d := by
    refine List.filterMap_congr fun id hid => ?_
    exact h.document?_eq hs ht (AccessPolicy.rejects_of_accepts (List.mem_filter.mp hid).2)
  rw [hydratedIn, hydratedIn, hshown]

theorem mirrors_hydrate (h : a.Alike caller s t) (hs : s.Keyed) (ht : t.Keyed) (r : Relation)
    (ds : List Document) :
    Mirrors s t Eq (r.hydrate (some (a, caller)) ds) (r.hydrate (some (a, caller)) ds) := by
  refine (mirrors_fetch h hs ht r _).bind fun found found' ⟨hfound, hfound', hids⟩ => ?_
  have hasked : a.grantedAmong r.target caller found'.ids =
      a.grantedAmong r.target caller found.ids := by
    rw [← AccessPolicy.grantedAmong_filter found.ids, hids, AccessPolicy.grantedAmong_filter]
  refine Mirrors.bind (R := fun hidden hidden' =>
    r.hidden (some (a, caller)) found = .ok hidden ∧
      r.hidden (some (a, caller)) found' = .ok hidden') (mirrors_ofExcept ?_) ?_
  · rw [Relation.hidden, Relation.hidden, hasked]
    cases a.grantedAmong r.target caller found.ids with
    | ok granted => exact ⟨_, rfl, rfl, rfl⟩
    | error e => rfl
  · rintro hidden hidden' ⟨hhidden, hhidden'⟩
    obtain rfl := (hidden_eq_ok_iff.mp hhidden).2
    obtain rfl := (hidden_eq_ok_iff.mp hhidden').2
    refine mirrors_pure (List.map_congr_left fun d hd => ?_)
    have hmem : ∀ id ∈ r.targetIds d, id ∈ r.targetIdsInAll ds := fun id hid =>
      mem_collected.mpr (.inr (List.mem_flatMap_of_mem hd hid))
    rw [lookup_hydrate fun id hid => hfound id (hmem id hid),
      lookup_hydrate fun id hid => hfound' id (hmem id hid)]
    exact hydratedIn_alike h hs ht r d

theorem mirrors_hydrateEach (h : a.Alike caller s t) (hs : s.Keyed) (ht : t.Keyed)
    (rs : List Relation) (ds : List Document) :
    Mirrors s t Eq (hydrateEach (some (a, caller)) rs ds)
      (hydrateEach (some (a, caller)) rs ds) := by
  induction rs generalizing ds with
  | nil => exact mirrors_pure rfl
  | cons r rs ih => exact (mirrors_hydrate h hs ht r ds).bind fun ds' _ hds => hds ▸ ih ds'

end Relation

end Registrar
